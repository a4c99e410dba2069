import Mathlib.Tactic.SplitIfs
import FxServer.RingBuffer

/-!
# FxServer.RingBuffer.Record — how records are written and read

Both functions have three branches: the record lies in one piece, or wraps within
the message, or within its length. In terms of cyclic copies the three are one, but
for what `Read` does to the front in the last one.

* `write_eq` — `Write` lays out a record cyclically from the back, in each of the
  three ways it splits it.
* `write_lays_out` — it stores the record there and changes no other byte, and the length is
  read back at the old back.
* `read_eq` — `Read` returns the message at the front. It moves the front behind the
  message, unless the length of the message wraps around the end of the region: then
  it leaves the front at the message.
-/

namespace FxServer.RingBuffer

open Cyclic

/-- The bytes of a record. -/
def encode (buf : List UInt8) : List UInt8 := intBytes buf.length ++ buf

@[simp] theorem length_intBytes (n : ℕ) : (intBytes n).length = 4 := rfl

@[simp] theorem length_encode (buf : List UInt8) : (encode buf).length = 4 + buf.length := by
  simp [encode]

theorem intOfBytes_intBytes {n : ℕ} (h : n < 2 ^ 31) : intOfBytes (intBytes n) = n := by
  have hvalue : (intBytes n).foldr (fun b n => b.toNat + 2 ^ 8 * n) 0 = n := by
    simp only [intBytes, List.foldr_cons, List.foldr_nil, UInt8.toNat_ofNat']
    omega
  rw [intOfBytes, hvalue, toInt_of_lt h]

theorem copyIn_ok {r : RingBuffer} {dst : ℕ} {bytes : List UInt8}
    (h : dst + bytes.length ≤ r.size) :
    r.copyIn dst bytes = .ok { r with mem := put r.mem dst bytes } := if_pos h

theorem copyOut_ok {r : RingBuffer} {src n : ℕ} (h : src + n ≤ r.size) :
    r.copyOut src n = .ok (get r.mem src n) := if_pos h

/-! ## Write -/

/-- The ring behind a write. -/
def written (r : RingBuffer) (buf : List UInt8) : RingBuffer :=
  { r with
    mem := putCyc r.size r.mem r.backOffset (encode buf)
    backOffset := adv r.size r.backOffset (4 + buf.length) }

/-- With room for the record `Write` cannot fail, and writes it around the end. -/
theorem write_eq {r : RingBuffer} (buf : List UInt8) (hback : r.backOffset ≤ r.size)
    (hroom : 4 + buf.length < r.size) : r.write buf = .ok (r.written buf) := by
  -- the length first, then the message behind it
  have hrecord : putCyc r.size (putCyc r.size r.mem r.backOffset (intBytes buf.length))
      (adv r.size r.backOffset 4) buf = putCyc r.size r.mem r.backOffset (encode buf) :=
    putCyc_append (intBytes buf.length) buf hback (by simpa using hroom)
  unfold write
  simp only [check_true hback, ok_bind]
  split_ifs with hfits hheader
  · have hadv : adv r.size r.backOffset 4 = r.backOffset + 4 := if_pos (by omega)
    rw [hadv, putCyc_eq_put (p := r.backOffset) (by simp; omega), putCyc_eq_put (by omega)]
      at hrecord
    rw [copyIn_ok (by simp; omega), ok_bind, copyIn_ok (by simp; omega), ok_bind]
    simp only [setBack, written, hrecord]
    rw [adv, if_pos (by omega), Nat.add_assoc]
  · have hadv : adv r.size r.backOffset 4 = r.backOffset + 4 := if_pos (by omega)
    have htake : (buf.take (r.size - (r.backOffset + 4))).length = r.size - (r.backOffset + 4) := by
      rw [List.length_take]
      omega
    have hdrop : (buf.drop (r.size - (r.backOffset + 4))).length =
        buf.length - (r.size - (r.backOffset + 4)) := List.length_drop
    rw [hadv, putCyc_eq_put (p := r.backOffset) (by simp; omega),
      ← List.take_append_drop (r.size - (r.backOffset + 4)) buf,
      ← put_put_eq_putCyc hheader htake (by omega), List.take_append_drop] at hrecord
    rw [copyIn_ok (by simp; omega), ok_bind, copyIn_ok (by simp only [htake]; omega), ok_bind,
      copyIn_ok (by simp only [hdrop]; omega), ok_bind]
    simp only [setBack, written, hrecord]
    rw [adv, if_neg (by omega)]
    congr 2
    omega
  · have hadv : adv r.size r.backOffset 4 = 4 - (r.size - r.backOffset) := by
      rw [adv, if_neg (by omega)]
      omega
    have htake : ((intBytes buf.length).take (r.size - r.backOffset)).length =
        r.size - r.backOffset := by
      rw [List.length_take, length_intBytes]
      omega
    have hdrop : ((intBytes buf.length).drop (r.size - r.backOffset)).length =
        4 - (r.size - r.backOffset) := List.length_drop
    rw [hadv, ← List.take_append_drop (r.size - r.backOffset) (intBytes buf.length),
      ← put_put_eq_putCyc hback htake (by omega), putCyc_eq_put (by omega)] at hrecord
    rw [copyIn_ok (by omega), ok_bind, copyIn_ok (by simp only [hdrop]; omega), ok_bind,
      copyIn_ok (by simp only []; omega), ok_bind]
    simp only [setBack, written, hrecord]
    rw [adv, if_neg (by omega)]
    congr 2
    omega

/-! ## Read -/

/-- The length is read from the four cells at the front. -/
theorem nextBufferLength_eq {r : RingBuffer} (hne : r.empty = false)
    (hfront : r.frontOffset ≤ r.size) (hsize : 4 ≤ r.size) :
    r.nextBufferLength = .ok (intOfBytes (getCyc r.size r.mem r.frontOffset 4)) := by
  have hk : kBufferHeaderLength = 4 := rfl
  unfold nextBufferLength
  simp only [check_true hne, ok_bind]
  split
  · rename_i hheader
    rw [copyOut_ok (by omega), ok_bind, getCyc_eq_get (by omega)]
  · rw [copyOut_ok (by omega), ok_bind, copyOut_ok (by omega), ok_bind, hk,
      get_append_get_eq_getCyc hfront (by omega) hsize]

/-! ## The layout of a record -/

/-- From `r` to `r'` the record of `buf` was stored at the back, and nothing else. -/
structure LaidOut (r r' : RingBuffer) (buf : List UInt8) : Prop where
  size : r'.size = r.size
  /-- the cells behind the old back hold the record, byte by byte -/
  record : ∀ i (hi : i < (encode buf).length),
    r'.mem (cell r.size r.backOffset i) = (encode buf)[i]
  /-- and all other cells what they held -/
  rest : ∀ j, (∀ i < (encode buf).length, j ≠ cell r.size r.backOffset i) → r'.mem j = r.mem j
  front : r'.frontOffset = r.frontOffset
  elements : r'.elementSize = r.elementSize
  /-- the back is behind the record -/
  back : r'.backOffset =
    if r.backOffset + 4 + buf.length ≤ r.size then r.backOffset + 4 + buf.length
    else r.backOffset + 4 + buf.length - r.size

/-- What it wrote is laid out as the record. -/
theorem written_laidOut {r : RingBuffer} {buf : List UInt8} (hback : r.backOffset ≤ r.size)
    (hroom : 4 + buf.length < r.size) : LaidOut r (r.written buf) buf where
  size := rfl
  record i hi := putCyc_cell hback (by rw [length_encode]; exact hroom.le) hi
  rest j hj := putCyc_of_ne hback hj
  front := rfl
  elements := rfl
  back := by rw [Nat.add_assoc]; rfl

/-- The length of the message just written is found at its old back. -/
theorem nextBufferLength_written {r : RingBuffer} {buf : List UInt8}
    (hback : r.backOffset ≤ r.size) (hroom : 4 + buf.length < r.size)
    (hint : buf.length < 2 ^ 31) :
    ((r.written buf).setFront r.backOffset).nextBufferLength = .ok (buf.length : ℤ) := by
  have hne : ((r.written buf).setFront r.backOffset).empty = false := by
    have hmoved := mt (adv_eq_self hback hroom).1 (by omega)
    exact decide_eq_false (Ne.symm hmoved)
  have hbytes : getCyc r.size (r.written buf).mem r.backOffset (4 + buf.length) = encode buf := by
    have hfits : (encode buf).length ≤ r.size := by rw [length_encode]; exact hroom.le
    have hsame : getCyc r.size (r.written buf).mem r.backOffset (encode buf).length =
        encode buf := getCyc_putCyc_same hback hfits
    rwa [length_encode] at hsame
  rw [getCyc_append hback hroom.le] at hbytes
  rcases List.append_inj hbytes (by simp) with ⟨hheader, -⟩
  have hsize : 4 ≤ r.size := by omega
  rw [nextBufferLength_eq hne hback hsize]
  exact congrArg Except.ok ((congrArg intOfBytes hheader).trans (intOfBytes_intBytes hint))

/-- `Write` lays out every record that fits into the region cyclically from the back, and
`NextBufferLength` reads its length where the back was. -/
theorem write_lays_out (r : RingBuffer) (buf : List UInt8) (hback : r.backOffset ≤ r.size)
    (hroom : 4 + buf.length < r.size) (hint : buf.length < 2 ^ 31) :
    ∃ r', r.write buf = .ok r' ∧ LaidOut r r' buf ∧
      (r'.setFront r.backOffset).nextBufferLength = .ok (buf.length : ℤ) :=
  ⟨r.written buf, write_eq buf hback hroom, written_laidOut hback hroom,
    nextBufferLength_written hback hroom hint⟩

/-- Two bytes of the length are stored at the end of the region, two at its start. -/
theorem write_lays_out_wrapped :
    ∃ r', ((new 16 (fun _ => 0) (by decide) (by decide)).setBack 14).write [1, 2, 3] = .ok r' ∧
      LaidOut ((new 16 (fun _ => 0) (by decide) (by decide)).setBack 14) r' [1, 2, 3] ∧
      (r'.setFront 14).nextBufferLength = .ok 3 :=
  write_lays_out ((new 16 (fun _ => 0) (by decide) (by decide)).setBack 14) [1, 2, 3]
    (by decide) (by decide) (by decide)

/-- Where `Read` leaves the front, after a message of length `len`. -/
def frontAfter (r : RingBuffer) (len : ℕ) : ℕ :=
  if r.frontOffset + 4 ≤ r.size then adv r.size r.frontOffset (4 + len)
  else adv r.size r.frontOffset 4

/-- `Read` of a ring with the record of `buf` at the front. -/
theorem read_eq {r : RingBuffer} {buf : List UInt8} (hne : r.empty = false)
    (hfront : r.frontOffset ≤ r.size) (hpos : 0 < buf.length)
    (hmax : buf.length ≤ kMaxBufferBodyLength) (hroom : 4 + buf.length < r.size)
    (hbytes : getCyc r.size r.mem r.frontOffset (4 + buf.length) = encode buf) :
    r.read = .ok (r.setFront (r.frontAfter buf.length), some buf) := by
  rw [getCyc_append hfront hroom.le] at hbytes
  rcases List.append_inj hbytes (by simp) with ⟨hheader, hbody⟩
  have hlen : r.nextBufferLength = .ok (buf.length : ℤ) := by
    rw [nextBufferLength_eq hne hfront (by omega), hheader,
      intOfBytes_intBytes (by unfold kMaxBufferBodyLength at hmax; omega)]
  have hk : kBufferHeaderLength = 4 := rfl
  unfold read frontAfter
  simp only [hne, Bool.false_eq_true, if_false, hlen, ok_bind,
    check_true (Int.natCast_pos.2 hpos), check_true (Int.ofNat_le.2 hmax), Int.toNat_natCast]
  split
  · -- the length of the message wraps
    have hadv : adv r.size r.frontOffset 4 = r.frontOffset + 4 - r.size := if_neg (by omega)
    rw [hadv, getCyc_eq_get (by omega)] at hbody
    rw [copyOut_ok (by omega), ok_bind, hk, hbody, if_neg (by omega), hadv]
  · rw [if_pos (show r.frontOffset + 4 ≤ r.size by omega)]
    have hadv : adv r.size r.frontOffset 4 = r.frontOffset + 4 := if_pos (by omega)
    rw [hadv] at hbody
    split
    · -- the message wraps
      rw [← get_append_get_eq_getCyc (by omega) (by omega) (by omega)] at hbody
      rw [copyOut_ok (by omega), ok_bind, copyOut_ok (by omega), ok_bind, hk, hbody, adv,
        if_neg (by omega)]
      congr 3
      omega
    · rw [getCyc_eq_get (by omega)] at hbody
      rw [copyOut_ok (by omega), ok_bind, hk, hbody, adv, if_pos (by omega), Nat.add_assoc]

end FxServer.RingBuffer
