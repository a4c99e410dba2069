import FxServer.RingBuffer.Messages

/-!
# FxServer.ProcessBus — a ring in a file

The model of `src/base/bus/process_bus.cc`. A process maps the file of the bus and puts a
ring into the mapping: the byte of `Header`, the three words of `OffsetData` with the low
byte first, and the region. `end` is counted from behind the header, so that the last byte
of the region is the first byte behind the mapping.

What the operating system answers is an input, and so is what a mapping shows behind the
end of the file. The file is what of the stores lies within it.

What the operating system answers to `open`, `fstat`, `ftruncate` and `mmap` is an input of each
call. A mapping shows the bytes of the file, and behind its end what the page happens to hold
there.
-/

namespace FxServer

open Machine Cyclic

/-- The bytes of an integer, the low one first. -/
def leBytes : ℕ → ℕ → List UInt8
  | 0, _ => []
  | k + 1, n => UInt8.ofNat n :: leBytes k (n / 2 ^ 8)

/-- The number that the bytes write, the low byte first. -/
def leValue (bytes : List UInt8) : ℕ := bytes.foldr (fun b n => b.toNat + 2 ^ 8 * n) 0

@[simp] theorem length_leBytes (k n : ℕ) : (leBytes k n).length = k := by
  induction k generalizing n with
  | zero => rfl
  | succ k ih => simp [leBytes, ih]

/-- Bytes read back in the order in which they were written give the number, cut to their
width. -/
theorem leValue_leBytes (k n : ℕ) : leValue (leBytes k n) = n % 2 ^ (8 * k) := by
  induction k generalizing n with
  | zero => simp [leBytes, leValue, Nat.mod_one]
  | succ k ih =>
    have hrest : leValue (leBytes k (n / 2 ^ 8)) = n / 2 ^ 8 % 2 ^ (8 * k) := ih (n / 2 ^ 8)
    show (UInt8.ofNat n).toNat + 2 ^ 8 * leValue (leBytes k (n / 2 ^ 8)) = _
    rw [hrest, UInt8.toNat_ofNat', show 8 * (k + 1) = 8 + 8 * k by omega, pow_add, Nat.mod_mul]

/-! ## The file -/

/-- A file: its size and its bytes, of which those behind the end do not count. -/
structure BusFile where
  /-- `st_size` -/
  size : ℕ
  content : ℕ → UInt8

namespace BusFile

/-- A file that has just been created. -/
def created : BusFile := ⟨0, fun _ => 0⟩

/-- `ftruncate`: the file is cut, or extended with zeros. -/
def ftruncate (f : BusFile) (size : ℕ) : BusFile :=
  ⟨size, fun i => if i < f.size then f.content i else 0⟩

/-- What a mapping of the file shows. -/
def view (f : BusFile) (behind : ℕ → UInt8) : ℕ → UInt8 := fun i =>
  if i < f.size then f.content i else behind i

end BusFile

namespace RingBuffer

/-- `sizeof(OffsetData)` -/
def kOffsetDataLength : ℕ := 24

/-- `start_`, from the start of the mapping -/
def kRegionStart : ℕ := 1 + kOffsetDataLength

/-- The words of `OffsetData`. -/
def offsetData (r : RingBuffer) : List UInt8 :=
  leBytes 8 r.frontOffset ++ leBytes 8 r.backOffset ++ leBytes 8 r.elementSize

/-- What the mapping shows with the ring in it, but for the header. -/
def image (r : RingBuffer) : ℕ → UInt8 := put (fun i => r.mem (i - kRegionStart)) 1 r.offsetData

/-- No region is too long for a ring. -/
theorem region_lt (mmapLen : UInt32) : mmapLen.toNat - kOffsetDataLength < 2 ^ 63 := by
  have hlt := mmapLen.toNat_lt
  omega

/-- The constructor, with `start` behind the header. -/
def onMapping (mapping : ℕ → UInt8) (mmapLen : UInt32) (reuse : Bool) :
    Except Fault RingBuffer :=
  if h : kOffsetDataLength + kExtraSpace ≤ mmapLen.toNat then
    .ok {
      size := mmapLen.toNat - kOffsetDataLength
      mem := fun i => mapping (kRegionStart + i)
      frontOffset := if reuse then leValue (get mapping 1 8) else 0
      backOffset := if reuse then leValue (get mapping 9 8) else 0
      elementSize := if reuse then leValue (get mapping 17 8) else 0
      size_pos := Nat.le_sub_of_add_le' h
      size_lt := region_lt mmapLen }
  else .error .assertion

end RingBuffer

/-- The file with what a ring has stored in its mapping. -/
def BusFile.store (f : BusFile) (r : RingBuffer) : BusFile :=
  { f with content := fun i => if 1 ≤ i ∧ i < f.size then r.image i else f.content i }

/-! ## The bus -/

/-- `mem_` -/
inductive Mapping where
  /-- `NULL` -/
  | null
  /-- `MAP_FAILED` -/
  | failed
  | mapped
deriving DecidableEq, Repr

/-- The fields of a `ProcessBus`; `buf_` is the ring on the mapping. -/
structure ProcessBus where
  mmapLen : UInt32
  mmapFd : ℤ
  mem : Mapping
  buf : Option RingBuffer

/-- What the operating system answers. -/
structure Outcome where
  /-- the descriptor `open` returns, unless it fails for another reason than `ENOENT` -/
  opens : Option ℕ
  /-- the descriptor `open` returns with `O_EXCL` -/
  creates : Option ℕ
  fstats : Bool
  truncates : Bool
  maps : Bool
  /-- what the mapping shows behind the end of the file -/
  behind : ℕ → UInt8

namespace ProcessBus

/-- A bus that is not open. -/
def new (mmapLen : UInt32) : ProcessBus := ⟨mmapLen, -1, .null, none⟩

/-- `Inited`, which asks for the descriptor alone. -/
def inited (b : ProcessBus) : Bool := b.mmapFd ≠ -1

def setFd (b : ProcessBus) (fd : ℤ) : ProcessBus := { b with mmapFd := fd }

/-- The result of `ftruncate` is not looked at. -/
def truncate (b : ProcessBus) (f : BusFile) (os : Outcome) : BusFile :=
  if os.truncates then f.ftruncate b.mmapLen.toNat else f

/-- The last lines of `TryRecover`, `Connect` and `Listen`: the bus, the file and the code
returned, `failed` if there is no mapping. -/
def map (b : ProcessBus) (f : BusFile) (os : Outcome) (reuse : Bool) (failed : ℤ) :
    Except Fault (ProcessBus × Option BusFile × ℤ) :=
  if os.maps then do
    let r ← RingBuffer.onMapping (f.view os.behind) b.mmapLen reuse
    .ok ({ b with mem := .mapped, buf := some r }, some (if reuse then f else f.store r), 0)
  else .ok ({ b with mem := .failed }, some f, failed)

/-- If the mapping succeeds and a ring can be built on it, `Map` returns 0 with that ring.
-/
theorem map_of_maps {b : ProcessBus} {f : BusFile} {os : Outcome} {reuse : Bool} {failed : ℤ}
    {r : RingBuffer} (hmaps : os.maps = true)
    (h : RingBuffer.onMapping (f.view os.behind) b.mmapLen reuse = .ok r) :
    b.map f os reuse failed = .ok ({ b with mem := .mapped, buf := some r },
      some (if reuse then f else f.store r), 0) := by
  rw [map, if_pos hmaps, h]
  rfl

/-- `TryRecover`: the file is to have the size of the bus, and its messages are kept. -/
def tryRecover (b : ProcessBus) (file : Option BusFile) (os : Outcome) :
    Except Fault (ProcessBus × Option BusFile × ℤ) := do
  check (b.inited = false)
  match os.opens with
  | none => .ok (b, file, -1)
  | some fd =>
    -- `O_CREAT`: a file that was not there is empty, and left behind
    let f := file.getD .created
    let b := b.setFd fd
    if os.fstats = false then .ok (b, some f, -2)
    else if f.size ≠ b.mmapLen.toNat then .ok (b, some f, -3)
    else b.map f os true (-4)

/-- `Connect`: a file that exists is taken as it is, and one that does not is created. -/
def connect (b : ProcessBus) (file : Option BusFile) (os : Outcome) :
    Except Fault (ProcessBus × Option BusFile × ℤ) := do
  check (b.inited = false)
  match os.opens, file with
  | none, _ => .ok (b, file, -1)
  | some fd, some f => (b.setFd fd).map f os true (-3)
  | some _, none =>
    match os.creates with
    | none => .ok (b, none, -2)
    | some fd => (b.setFd fd).map (b.truncate .created os) os false (-3)

/-- `Listen`: the file is created or cut to the size of the bus, and what is in it is
discarded. -/
def listen (b : ProcessBus) (file : Option BusFile) (os : Outcome) :
    Except Fault (ProcessBus × Option BusFile × ℤ) := do
  check (b.inited = false)
  match os.opens with
  | none => .ok (b, file, -1)
  | some fd => (b.setFd fd).map (b.truncate (file.getD .created) os) os false (-2)

/-- Calls of the operating system that succeed. -/
def succeeds : Outcome := ⟨some 3, some 3, true, true, true, fun _ => 0⟩

/-- The ring of the first `Listen` on a file. -/
def firstRing (mmapLen : UInt32)
    (hlen : RingBuffer.kOffsetDataLength + RingBuffer.kExtraSpace ≤ mmapLen.toNat) : RingBuffer :=
  .new (mmapLen.toNat - RingBuffer.kOffsetDataLength) (fun _ => 0) (Nat.le_sub_of_add_le' hlen)
    (RingBuffer.region_lt mmapLen)

/-- The first `Listen`, with every system call succeeding. -/
theorem listen_first (mmapLen : UInt32)
    (hlen : RingBuffer.kOffsetDataLength + RingBuffer.kExtraSpace ≤ mmapLen.toNat) :
    (new mmapLen).listen none succeeds = .ok (⟨mmapLen, 3, .mapped, some (firstRing mmapLen hlen)⟩,
      some (BusFile.store ⟨mmapLen.toNat, fun _ => 0⟩ (firstRing mmapLen hlen)), 0) := by
  have hfile : (new mmapLen).truncate .created succeeds = ⟨mmapLen.toNat, fun _ => 0⟩ := by
    simp [truncate, succeeds, BusFile.ftruncate, BusFile.created, new]
  have hring : RingBuffer.onMapping (BusFile.view ⟨mmapLen.toNat, fun _ => 0⟩ succeeds.behind)
      mmapLen false = .ok (firstRing mmapLen hlen) := by
    simp [RingBuffer.onMapping, hlen, BusFile.view, succeeds, firstRing, RingBuffer.new]
  show ((new mmapLen).setFd (3 : ℕ)).map ((new mmapLen).truncate .created succeeds) succeeds false
    (-2) = _
  rw [hfile]
  exact map_of_maps rfl hring

/-- `Write` and `Read` -/
def apply (b : ProcessBus) (op : Fifo.Op (List UInt8)) :
    Except Fault (ProcessBus × Fifo.Out (List UInt8)) := do
  match b.buf with
  | none => .error .assertion
  | some r =>
    let (r, out) ← RingBuffer.apply r op
    .ok ({ b with buf := some r }, out)

/-- The calls on a bus are calls on its ring. -/
theorem run_apply {b : ProcessBus} {r : RingBuffer} (hring : b.buf = some r)
    (ops : List (Fifo.Op (List UInt8))) :
    run apply b ops = (run RingBuffer.apply r ops).map
      fun res => ({ b with buf := some res.1 }, res.2) := by
  induction ops generalizing b r with
  | nil =>
    show Except.ok (b, []) = Except.ok ({ b with buf := some r }, [])
    rw [← hring]
  | cons op ops ih =>
    rw [run, run, apply, hring]
    cases hop : RingBuffer.apply r op with
    | error e =>
      simp only [hop]
      rfl
    | ok res =>
      rcases res with ⟨r₁, out⟩
      -- the rest of the run is that of the new ring
      have hrest := ih (show ({ b with buf := some r₁ } : ProcessBus).buf = some r₁ from rfl)
      simp only [hop, ok_bind, hrest]
      cases run RingBuffer.apply r₁ ops <;> rfl

end ProcessBus

end FxServer
