import FxServer.Basic
import FxServer.Cyclic

/-!
# FxServer.RingBuffer — a ring of messages in a mapped region

The model of `src/base/bus/ring_buffer.cc`. Pointers into the region are offsets
from `start_`; `end_` is the offset `size`. A record is the length of a message, as
an `int` of four bytes with the low byte first, and the message. Every `memcpy`
checks that it stays within the region.

`Push` and `Pop` are one function each here; `FxServer.RingBuffer.Steps` takes them
apart into their accesses, for the case that another process runs in between.
-/

namespace FxServer

namespace RingBuffer

def kMaxBufferBodyLength : ℕ := 65536

def kBufferHeaderLength : ℕ := 4

def kExtraSpace : ℕ := 1

end RingBuffer

/-- The region between `start_` and `end_`, and `*offset_`. -/
structure RingBuffer where
  /-- `end_ - start_` -/
  size : ℕ
  mem : ℕ → UInt8
  frontOffset : ℕ
  backOffset : ℕ
  elementSize : ℕ
  /-- asserted by the constructor -/
  size_pos : RingBuffer.kExtraSpace ≤ size
  /-- a difference of pointers is a `ptrdiff_t` -/
  size_lt : size < 2 ^ 63

namespace RingBuffer

/-- A ring that starts empty, in a region with any content. -/
def new (size : ℕ) (mem : ℕ → UInt8) (hpos : kExtraSpace ≤ size) (hlt : size < 2 ^ 63) :
    RingBuffer where
  size
  mem
  frontOffset := 0
  backOffset := 0
  elementSize := 0
  size_pos := hpos
  size_lt := hlt

/-- The bytes of an `int`. -/
def intBytes (n : ℕ) : List UInt8 :=
  [UInt8.ofNat n, UInt8.ofNat (n / 2 ^ 8), UInt8.ofNat (n / 2 ^ 16), UInt8.ofNat (n / 2 ^ 24)]

/-- The `int` with these bytes. -/
def intOfBytes (bytes : List UInt8) : ℤ :=
  toInt (bytes.foldr (fun b n => b.toNat + 2 ^ 8 * n) 0 : ℕ)

/-- `memcpy` into the region. -/
def copyIn (r : RingBuffer) (dst : ℕ) (bytes : List UInt8) : Except Fault RingBuffer :=
  if dst + bytes.length ≤ r.size then .ok { r with mem := Cyclic.put r.mem dst bytes }
  else .error .outOfBounds

/-- `memcpy` out of the region. -/
def copyOut (r : RingBuffer) (src n : ℕ) : Except Fault (List UInt8) :=
  if src + n ≤ r.size then .ok (Cyclic.get r.mem src n) else .error .outOfBounds

/-- The store of the front offset. -/
def setFront (r : RingBuffer) (front : ℕ) : RingBuffer := { r with frontOffset := front }

/-- The store of the back offset. -/
def setBack (r : RingBuffer) (back : ℕ) : RingBuffer := { r with backOffset := back }

/-- `set_size`, of a `size_t` -/
def setSize (r : RingBuffer) (newSize : ℕ) : RingBuffer :=
  { r with elementSize := newSize % 2 ^ 64 }

@[simp] theorem setSize_size (r : RingBuffer) (n : ℕ) : (r.setSize n).size = r.size := rfl

@[simp] theorem setSize_mem (r : RingBuffer) (n : ℕ) : (r.setSize n).mem = r.mem := rfl

@[simp] theorem setSize_frontOffset (r : RingBuffer) (n : ℕ) :
    (r.setSize n).frontOffset = r.frontOffset := rfl

@[simp] theorem setSize_backOffset (r : RingBuffer) (n : ℕ) :
    (r.setSize n).backOffset = r.backOffset := rfl

@[simp] theorem setSize_elementSize (r : RingBuffer) (n : ℕ) :
    (r.setSize n).elementSize = n % 2 ^ 64 := rfl

/-- `empty`: both offsets are the same. -/
def empty (r : RingBuffer) : Bool := r.frontOffset = r.backOffset

/-- `space_left`, an `int`: the free bytes less the one that is kept free, narrowed. -/
def spaceLeft (r : RingBuffer) : ℤ :=
  if r.frontOffset ≤ r.backOffset then
    toInt ((r.size - r.backOffset : ℤ) + r.frontOffset - kExtraSpace)
  else toInt ((r.frontOffset - r.backOffset : ℤ) - kExtraSpace)

/-- The record goes on at the start of the region where it reaches the end: not at
all, within the message, or within its length. -/
def write (r : RingBuffer) (buf : List UInt8) : Except Fault RingBuffer := do
  let back := r.backOffset
  check (back ≤ r.size)
  if back + buf.length + 4 ≤ r.size then
    let r ← r.copyIn back (intBytes buf.length)
    let r ← r.copyIn (back + 4) buf
    .ok (r.setBack (back + 4 + buf.length))
  else if back + 4 ≤ r.size then
    let r ← r.copyIn back (intBytes buf.length)
    let first := r.size - (back + 4)
    let r ← r.copyIn (back + 4) (buf.take first)
    let r ← r.copyIn 0 (buf.drop first)
    .ok (r.setBack (buf.length - first))
  else
    let first := r.size - back
    let r ← r.copyIn back ((intBytes buf.length).take first)
    let r ← r.copyIn 0 ((intBytes buf.length).drop first)
    let r ← r.copyIn (4 - first) buf
    .ok (r.setBack (4 - first + buf.length))

/-- `NextBufferLength`: the length stored at the front, in one piece or in two. -/
def nextBufferLength (r : RingBuffer) : Except Fault ℤ := do
  let front := r.frontOffset
  check (r.empty = false)
  if front + kBufferHeaderLength ≤ r.size then
    let bytes ← r.copyOut front 4
    .ok (intOfBytes bytes)
  else
    let offset := r.size - front
    let head ← r.copyOut front offset
    let tail ← r.copyOut 0 (kBufferHeaderLength - offset)
    .ok (intOfBytes (head ++ tail))

/-- The ring and the buffer returned; `*plen` is its length. -/
def read (r : RingBuffer) : Except Fault (RingBuffer × Option (List UInt8)) :=
  if r.empty then .ok (r, none)
  else do
    let bufferLength ← r.nextBufferLength
    check (0 < bufferLength)
    check (bufferLength ≤ kMaxBufferBodyLength)
    let len := bufferLength.toNat
    let content := r.frontOffset + kBufferHeaderLength
    if r.size < content then
      let offset := content - r.size
      let buf ← r.copyOut offset len
      -- the front is left at the message, not behind it
      .ok (r.setFront offset, some buf)
    else if r.size < content + len then
      let tailLength := r.size - content
      let tail ← r.copyOut content tailLength
      let rest ← r.copyOut 0 (len - tailLength)
      .ok (r.setFront (len - tailLength), some (tail ++ rest))
    else
      let buf ← r.copyOut content len
      .ok (r.setFront (content + len), some buf)

/-- `Push`, which compares the length of the message alone with the free space. -/
def push (r : RingBuffer) (buf : List UInt8) : Except Fault (RingBuffer × Bool) := do
  check (0 < buf.length)
  if r.spaceLeft < buf.length then .ok (r, false)
  else
    let r ← r.write buf
    .ok (r.setSize (1 + r.elementSize), true)

/-- `Pop`: the message at the front, or `NULL`; the count goes down when there is one. -/
def pop (r : RingBuffer) : Except Fault (RingBuffer × Option (List UInt8)) :=
  if r.empty then .ok (r, none)
  else do
    let (r, buf) ← r.read
    .ok (r.setSize (r.elementSize + (2 ^ 64 - 1)), buf)

end RingBuffer

end FxServer
