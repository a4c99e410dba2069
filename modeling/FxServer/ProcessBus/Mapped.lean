import FxServer.ProcessBus.Crash

/-!
# FxServer.ProcessBus.Mapped — where the accesses of a bus lie

The header takes the first byte of the mapping and moves the region by it, the end of the region
included. So the last byte of the region is the first one behind the mapping, and an access to it
is one to a byte that is not mapped.

An access is told by where it starts and how long it is. The accesses of a call are those of the
words in front of the region, which are mapped, and the copies of its record. Of these it matters
only whether one touches the last byte of the region.

* `staysInside_copying_push`, `staysInside_copying_pop` — the copies of a call stay in the mapping
  just when each of them does.
* `callInside_iff` — a call stays in the mapping just when its record ends within it.
* `mapped_iff` — so does a run.
* `last_byte_unmapped` — a record that ends with the region.
-/

namespace FxServer

namespace RingBuffer

open Machine Cyclic

/-! ## Accesses -/

/-- Where the next access of a `Push` starts, from the start of the mapping, and how many bytes it
touches. -/
def PushPc.access : PushPc → ℕ × ℕ
  | .spaceFront _ | .writeFront _ => (1, 8)
  | .spaceBack _ _ | .writeBack _ | .copying [] _ => (9, 8)
  | .copying ((dst, bytes) :: _) _ => (kRegionStart + dst, bytes.length)
  | .readSize | .setSize _ => (17, 8)
  | .idle => (0, 0)

def PopPc.access : PopPc → ℕ × ℕ
  | .emptyFront | .readFront | .readEmptyFront _ | .lengthFront _ | .lengthEmptyFront _ _
  | .copying [] _ _ => (1, 8)
  | .emptyBack _ | .readEmptyBack _ _ | .lengthEmptyBack _ _ _ => (9, 8)
  | .lengthCopying _ ((src, n) :: _) _ | .copying ((src, n) :: _) _ _ => (kRegionStart + src, n)
  | .readSize _ | .setSize _ _ => (17, 8)
  | .lengthCopying _ [] _ | .idle => (0, 0)

/-- The next access of a call. -/
def Pc.access : Pc → ℕ × ℕ
  | .push pc => pc.access
  | .pop pc => pc.access

/-- Whether it touches nothing but the words in front of the region. -/
def Pc.onWord (pc : Pc) : Bool := pc.access.1 + pc.access.2 ≤ kRegionStart

/-- Each byte of an access is one of the first `len`. -/
def Inside (len : ℕ) (access : ℕ × ℕ) : Prop := ∀ i < access.2, access.1 + i < len

/-- A call goes on without an access that leaves the first `len` bytes. A copy that fails has left
the region, or has a negative length. -/
def StaysInside (len : ℕ) (r : RingBuffer) (pc : Pc) : Prop :=
  ∀ n, match microSteps r pc n with
    | .ok (_, pc') => Inside len pc'.access
    | .error e => e ≠ .outOfBounds

/-- So does a call from its start. -/
def CallInside (len : ℕ) (r : RingBuffer) (op : Fifo.Op (List UInt8)) : Prop :=
  ∀ n, match crash r op n with
    | .ok (_, pc) => Inside len pc.access
    | .error e => e ≠ .outOfBounds

/-- A copy within the region that leaves its last byte out. -/
def CopyInside (size pos n : ℕ) : Prop := pos + n ≤ size ∧ (n = 0 ∨ pos + n < size)

/-- A length at `pos` and a message of `len` bytes behind it end before the last byte of the region.
The record goes on at the start of the region only from its very end. -/
def RecordInside (size pos len : ℕ) : Prop :=
  pos + (4 + len) < size ∨ pos = size ∧ 4 + len < size

instance (size pos len : ℕ) : Decidable (RecordInside size pos len) :=
  inferInstanceAs (Decidable (_ ∨ _))

/-- The length stored at the front. -/
def frontLength (r : RingBuffer) : ℤ := intOfBytes (getCyc r.size r.mem r.frontOffset 4)

/-- Both offsets are differences of pointers. -/
def PointerOffsets (r : RingBuffer) : Prop := r.frontOffset < 2 ^ 63 ∧ r.backOffset < 2 ^ 63

instance (r : RingBuffer) : Decidable r.PointerOffsets := inferInstanceAs (Decidable (_ ∧ _))

/-- What is written, or is to be read, ends before the last byte of the region. -/
def EndsInside (r : RingBuffer) : Fifo.Op (List UInt8) → Prop
  | .push buf => 0 < buf.length → (buf.length : ℤ) ≤ r.spaceLeft → r.backOffset ≤ r.size →
    RecordInside r.size r.backOffset buf.length
  | .pop => r.empty = false → RecordInside r.size r.frontOffset 0 ∧
    (0 < r.frontLength → r.frontLength ≤ kMaxBufferBodyLength →
      RecordInside r.size r.frontOffset r.frontLength.toNat)

instance (r : RingBuffer) : DecidablePred (EndsInside r)
  | .push buf => inferInstanceAs (Decidable (0 < buf.length → (buf.length : ℤ) ≤ r.spaceLeft →
      r.backOffset ≤ r.size → RecordInside r.size r.backOffset buf.length))
  | .pop => inferInstanceAs (Decidable (r.empty = false → RecordInside r.size r.frontOffset 0 ∧
      (0 < r.frontLength → r.frontLength ≤ kMaxBufferBodyLength →
        RecordInside r.size r.frontOffset r.frontLength.toNat)))

/-! ## A call, access by access -/

section Steps

variable {len : ℕ} {r r' : RingBuffer} {pc pc' : Pc} {e : Fault}

/-- A run that stays inside is an access inside and a run that stays inside from there. -/
theorem staysInside_ok (hstep : microStep r pc = .ok (r', pc')) :
    StaysInside len r pc ↔ Inside len pc.access ∧ StaysInside len r' pc' := by
  have hlater : ∀ n, microSteps r pc (n + 1) = microSteps r' pc' n := by
    intro n
    rw [microSteps, hstep]
    rfl
  constructor
  · intro h
    refine ⟨h 0, fun n => ?_⟩
    rw [← hlater n]
    exact h (n + 1)
  · rintro ⟨hnow, h⟩ n
    cases n with
    | zero => exact hnow
    | succ n =>
      rw [hlater n]
      exact h n

/-- A run that fails has stayed inside unless it failed on the bounds. -/
theorem staysInside_error (hstep : microStep r pc = .error e) :
    StaysInside len r pc ↔ Inside len pc.access ∧ e ≠ .outOfBounds := by
  have hlater : ∀ n, microSteps r pc (n + 1) = .error e := by
    intro n
    rw [microSteps, hstep]
    rfl
  constructor
  · intro h
    have hone := h 1
    rw [hlater 0] at hone
    exact ⟨h 0, hone⟩
  · rintro ⟨hnow, hne⟩ n
    cases n with
    | zero => exact hnow
    | succ n =>
      rw [hlater n]
      exact hne

/-- A call that has returned makes no access. -/
theorem staysInside_done (hdone : microStep r pc = .ok (r, pc)) (haccess : pc.access.2 = 0) :
    StaysInside len r pc := by
  have hall : ∀ n, microSteps r pc n = .ok (r, pc) := by
    intro n
    induction n with
    | zero => rfl
    | succ n ih =>
      rw [microSteps, hdone]
      exact ih
  intro n
  rw [hall n]
  intro i hi
  omega

/-- The words in front of the region are mapped. -/
theorem inside_word (hlen : r.size + kOffsetDataLength = len) (hword : pc.onWord = true) :
    Inside len pc.access := by
  have hpos := r.size_pos
  have hspace : kExtraSpace = 1 := rfl
  have hstart : kRegionStart = 1 + kOffsetDataLength := rfl
  have hword : pc.access.1 + pc.access.2 ≤ kRegionStart := of_decide_eq_true hword
  intro i hi
  omega

/-- An access to them leads on. -/
theorem staysInside_word (hlen : r.size + kOffsetDataLength = len)
    (hstep : microStep r pc = .ok (r', pc')) (hword : pc.onWord = true) :
    StaysInside len r pc ↔ StaysInside len r' pc' := by
  rw [staysInside_ok hstep]
  exact and_iff_right (inside_word hlen hword)

/-- The first byte behind the mapping is the last one of the region. -/
theorem inside_region {pos n : ℕ} (hlen : r.size + kOffsetDataLength = len) :
    Inside len (kRegionStart + pos, n) ↔ n = 0 ∨ pos + n < r.size := by
  have hstart : kRegionStart = 1 + kOffsetDataLength := rfl
  constructor
  · intro h
    by_cases hn : n = 0
    · exact .inl hn
    · have hlast : kRegionStart + pos + (n - 1) < len := h (n - 1) (by simp only []; omega)
      omega
  · intro h i hi
    have hi : i < n := hi
    show kRegionStart + pos + i < len
    omega

end Steps

/-! ## A call, copy by copy -/

section Calls

variable {len : ℕ} {r : RingBuffer}

theorem staysInside_push_idle : StaysInside len r (.push .idle) := staysInside_done rfl rfl

theorem staysInside_pop_idle : StaysInside len r (.pop .idle) := staysInside_done rfl rfl

/-- A `Push` that copies stays inside exactly when all its copies do. -/
theorem staysInside_copying_push (hlen : r.size + kOffsetDataLength = len)
    (copies : List (ℕ × List UInt8)) (back : ℕ) :
    StaysInside len r (.push (.copying copies back)) ↔
      ∀ copy ∈ copies, CopyInside r.size copy.1 copy.2.length := by
  induction copies generalizing r with
  | nil =>
    refine iff_of_true ?_ (by simp)
    -- the stores of the back and of the number of elements
    have hlen' : (r.setBack back).size + kOffsetDataLength = len := hlen
    rw [staysInside_word hlen rfl rfl, staysInside_word hlen' rfl rfl,
      staysInside_word hlen' rfl rfl]
    exact staysInside_push_idle
  | cons copy copies ih =>
    rcases copy with ⟨dst, bytes⟩
    rw [List.forall_mem_cons]
    by_cases hfits : dst + bytes.length ≤ r.size
    · have hstep : microStep r (.push (.copying ((dst, bytes) :: copies) back)) =
          .ok ({ r with mem := put r.mem dst bytes }, .push (.copying copies back)) := by
        rw [microStep, pushStep, copyIn_ok hfits]
        rfl
      have hlen' : ({ r with mem := put r.mem dst bytes } : RingBuffer).size + kOffsetDataLength =
          len := hlen
      rw [staysInside_ok hstep, ih hlen']
      refine and_congr_left fun _ => ?_
      exact (inside_region hlen).trans ⟨fun h => ⟨hfits, h⟩, fun h => h.2⟩
    · have hstep : microStep r (.push (.copying ((dst, bytes) :: copies) back)) =
          .error .outOfBounds := by
        rw [microStep, pushStep, copyIn, if_neg hfits]
        rfl
      rw [staysInside_error hstep]
      exact iff_of_false (fun h => h.2 rfl) (fun h => hfits h.1.1)

/-- A `Pop` that copies stays inside exactly when all its copies do. -/
theorem staysInside_copying_pop (hlen : r.size + kOffsetDataLength = len)
    (copies : List (ℕ × ℕ)) (buf : List UInt8) (front : ℕ) :
    StaysInside len r (.pop (.copying copies buf front)) ↔
      ∀ copy ∈ copies, CopyInside r.size copy.1 copy.2 := by
  induction copies generalizing buf with
  | nil =>
    refine iff_of_true ?_ (by simp)
    have hlen' : (r.setFront front).size + kOffsetDataLength = len := hlen
    -- all is copied: what is left touches the front offset and the count
    rw [staysInside_word hlen rfl rfl, staysInside_word hlen' rfl rfl,
      staysInside_word hlen' rfl rfl]
    exact staysInside_pop_idle
  | cons copy copies ih =>
    rcases copy with ⟨src, n⟩
    rw [List.forall_mem_cons]
    by_cases hfits : src + n ≤ r.size
    · have hstep : microStep r (.pop (.copying ((src, n) :: copies) buf front)) =
          .ok (r, .pop (.copying copies (buf ++ get r.mem src n) front)) := by
        rw [microStep, popStep, copyOut_ok hfits]
        rfl
      rw [staysInside_ok hstep, ih]
      -- a copy within the region is an access within the mapping
      refine and_congr_left fun _ => ?_
      exact (inside_region hlen).trans ⟨fun h => ⟨hfits, h⟩, fun h => h.2⟩
    · have hstep : microStep r (.pop (.copying ((src, n) :: copies) buf front)) =
          .error .outOfBounds := by
        rw [microStep, popStep, copyOut, if_neg hfits]
        rfl
      rw [staysInside_error hstep]
      -- one that leaves the region is no access of the mapping at all
      exact iff_of_false (fun h => h.2 rfl) (fun h => hfits h.1.1)

/-- The copies of a length lead to the point where it is known. -/
theorem staysInside_lengthCopying (hlen : r.size + kOffsetDataLength = len) (front : ℕ)
    (copies : List (ℕ × ℕ)) (bytes : List UInt8) :
    StaysInside len r (.pop (.lengthCopying front copies bytes)) ↔
      (∀ copy ∈ copies, CopyInside r.size copy.1 copy.2) ∧
        ∀ bytes', copyAllOut r copies bytes = .ok bytes' →
          StaysInside len r (.pop (.lengthCopying front [] bytes')) := by
  induction copies generalizing bytes with
  | nil =>
    constructor
    · intro h
      refine ⟨by simp, fun bytes' hall => ?_⟩
      cases hall
      exact h
    · rintro ⟨-, h⟩
      exact h bytes rfl
  | cons copy copies ih =>
    rcases copy with ⟨src, n⟩
    rw [List.forall_mem_cons]
    by_cases hfits : src + n ≤ r.size
    · have hstep : microStep r (.pop (.lengthCopying front ((src, n) :: copies) bytes)) =
          .ok (r, .pop (.lengthCopying front copies (bytes ++ get r.mem src n))) := by
        rw [microStep, popStep, copyOut_ok hfits]
        rfl
      rw [staysInside_ok hstep, ih, copyAllOut, copyOut_ok hfits, ok_bind, and_assoc]
      refine and_congr_left fun _ => ?_
      exact (inside_region hlen).trans ⟨fun h => ⟨hfits, h⟩, fun h => h.2⟩
    · have hstep : microStep r (.pop (.lengthCopying front ((src, n) :: copies) bytes)) =
          .error .outOfBounds := by
        rw [microStep, popStep, copyOut, if_neg hfits]
        rfl
      rw [staysInside_error hstep]
      -- the copy of the length leaves the region
      exact iff_of_false (fun h => h.2 rfl) (fun h => hfits h.1.1.1)

/-! ## Records -/

/-- The copies of `Write` are inside exactly when the record is. -/
theorem writeCopies_inside {size back : ℕ} {buf : List UInt8} (hback : back ≤ size)
    (hpos : 0 < buf.length) :
    (∀ copy ∈ (writeCopies size back buf).1, CopyInside size copy.1 copy.2.length) ↔
      RecordInside size back buf.length := by
  unfold writeCopies CopyInside RecordInside
  split_ifs
  all_goals simp only [List.forall_mem_cons, List.not_mem_nil, false_imp_iff, implies_true,
    and_true, length_intBytes, List.length_take, List.length_drop]
  · omega
  · omega
  · omega

/-- The copies of `NextBufferLength` are inside exactly when a record of no bytes is. -/
theorem lengthCopies_inside {size front : ℕ} :
    (∀ copy ∈ lengthCopies size front, CopyInside size copy.1 copy.2) ↔
      RecordInside size front 0 := by
  have hheader : kBufferHeaderLength = 4 := rfl
  unfold lengthCopies CopyInside RecordInside
  split_ifs
  all_goals simp only [List.forall_mem_cons, List.not_mem_nil, false_imp_iff, implies_true,
    and_true]
  · omega
  · omega

/-- The copies of `Read` are inside exactly when the record is. -/
theorem readCopies_inside {size front n : ℕ} (hlength : RecordInside size front 0) (hpos : 0 < n) :
    (∀ copy ∈ (readCopies size front n).1, CopyInside size copy.1 copy.2) ↔
      RecordInside size front n := by
  have hheader : kBufferHeaderLength = 4 := rfl
  unfold RecordInside at hlength
  simp only [readCopies, CopyInside, RecordInside]
  split_ifs
  all_goals simp only [List.forall_mem_cons, List.not_mem_nil, false_imp_iff, implies_true,
    and_true]
  · omega
  · omega
  · omega

/-! ## Calls -/

/-- From its first access on, a `Push` depends on where its record ends. -/
theorem staysInside_push (hlen : r.size + kOffsetDataLength = len) {buf : List UInt8}
    (hpos : 0 < buf.length) :
    StaysInside len r (.push (.spaceFront buf)) ↔ EndsInside r (.push buf) := by
  have hsame : r.setFront r.frontOffset = r := rfl
  rw [staysInside_word hlen rfl rfl]
  by_cases hspace : r.spaceLeft < buf.length
  · -- refused
    have hstep : microStep r (.push (.spaceBack buf r.frontOffset)) = .ok (r, .push .idle) := by
      rw [microStep, pushStep, hsame, if_pos hspace]
      rfl
    rw [staysInside_word hlen hstep rfl]
    exact iff_of_true staysInside_push_idle fun _ hroom => by omega
  · have hstep : microStep r (.push (.spaceBack buf r.frontOffset)) =
        .ok (r, .push (.writeFront buf)) := by
      rw [microStep, pushStep, hsame, if_neg hspace]
      rfl
    rw [staysInside_word hlen hstep rfl, staysInside_word hlen rfl rfl]
    by_cases hback : r.backOffset ≤ r.size
    · have hwrite : microStep r (.push (.writeBack buf)) =
          .ok (r, .push (.copying (writeCopies r.size r.backOffset buf).1
            (writeCopies r.size r.backOffset buf).2)) := by
        rw [microStep, pushStep, check_true hback]
        rfl
      rw [staysInside_word hlen hwrite rfl, staysInside_copying_push hlen,
        writeCopies_inside hback hpos]
      exact ⟨fun h _ _ _ => h, fun h => h hpos (by omega) hback⟩
    · -- the assertion of `Write` fails
      have hwrite : microStep r (.push (.writeBack buf)) = .error .assertion := by
        rw [microStep, pushStep, check_false hback]
        rfl
      rw [staysInside_error hwrite]
      refine iff_of_true ⟨inside_word hlen rfl, by decide⟩ fun _ _ hle => ?_
      exact absurd hle hback

/-- With the length of the message at the front known. -/
theorem staysInside_length (hlen : r.size + kOffsetDataLength = len) {bytes : List UInt8}
    (hlength : RecordInside r.size r.frontOffset 0) :
    StaysInside len r (.pop (.lengthCopying r.frontOffset [] bytes)) ↔
      (0 < intOfBytes bytes → intOfBytes bytes ≤ kMaxBufferBodyLength →
        RecordInside r.size r.frontOffset (intOfBytes bytes).toNat) := by
  by_cases hpos : 0 < intOfBytes bytes
  · by_cases hmax : intOfBytes bytes ≤ kMaxBufferBodyLength
    · have hstep : microStep r (.pop (.lengthCopying r.frontOffset [] bytes)) =
          .ok (r, .pop (.copying (readCopies r.size r.frontOffset (intOfBytes bytes).toNat).1 []
            (readCopies r.size r.frontOffset (intOfBytes bytes).toNat).2)) := by
        rw [microStep, popStep, check_true hpos, check_true hmax]
        rfl
      -- a length that passes both checks: the body is copied next
      rw [staysInside_word hlen hstep rfl, staysInside_copying_pop hlen,
        readCopies_inside hlength (by omega)]
      exact ⟨fun h _ _ => h, fun h => h hpos hmax⟩
    · have hstep : microStep r (.pop (.lengthCopying r.frontOffset [] bytes)) =
          .error .assertion := by
        rw [microStep, popStep, check_true hpos, check_false hmax]
        rfl
      rw [staysInside_error hstep]
      -- a length that is too large stops the call, as a failed assertion
      refine iff_of_true ⟨inside_word hlen rfl, by decide⟩ fun _ hle => ?_
      exact absurd hle hmax
  · have hstep : microStep r (.pop (.lengthCopying r.frontOffset [] bytes)) =
        .error .assertion := by
      rw [microStep, popStep, check_false hpos]
      rfl
    rw [staysInside_error hstep]
    -- so does one that is not positive
    refine iff_of_true ⟨inside_word hlen rfl, by decide⟩ fun hlt => ?_
    exact absurd hlt hpos

/-- The copies of a length yield what is stored at the front. -/
theorem lengthCopies_value (hne : r.empty = false)
    (hlength : RecordInside r.size r.frontOffset 0) :
    ∃ bytes, copyAllOut r (lengthCopies r.size r.frontOffset) [] = .ok bytes ∧
      intOfBytes bytes = r.frontLength := by
  unfold RecordInside at hlength
  have hvalue := nextBufferLength_eq hne (by omega) (by omega)
  rw [nextBufferLength_eq_copyAllOut, check_true hne, ok_bind] at hvalue
  rcases bind_ok.1 hvalue with ⟨bytes, hcopies, hret⟩
  exact ⟨bytes, hcopies, Except.ok.inj hret⟩

/-- From its first access on, a `Pop` depends on where the record at the front ends. -/
theorem staysInside_pop (hlen : r.size + kOffsetDataLength = len) :
    StaysInside len r (.pop .emptyFront) ↔ EndsInside r .pop := by
  rw [staysInside_word hlen rfl rfl]
  by_cases hempty : r.frontOffset = r.backOffset
  · have hstep : microStep r (.pop (.emptyBack r.frontOffset)) = .ok (r, .pop .idle) := by
      rw [microStep, popStep, if_pos hempty]
      rfl
    rw [staysInside_word hlen hstep rfl]
    refine iff_of_true staysInside_pop_idle fun hne => ?_
    exact absurd hempty (of_decide_eq_false hne)
  · have hne : r.empty = false := decide_eq_false hempty
    have hback : microStep r (.pop (.emptyBack r.frontOffset)) = .ok (r, .pop .readFront) := by
      rw [microStep, popStep, if_neg hempty]
      rfl
    have hread : microStep r (.pop (.readEmptyBack r.frontOffset r.frontOffset)) =
        .ok (r, .pop (.lengthFront r.frontOffset)) := by
      rw [microStep, popStep, if_neg hempty]
      rfl
    have hcopying : microStep r (.pop (.lengthEmptyBack r.frontOffset r.frontOffset
        r.frontOffset)) = .ok (r, .pop (.lengthCopying r.frontOffset
          (lengthCopies r.size r.frontOffset) [])) := by
      rw [microStep, popStep, check_true hempty]
      rfl
    -- up to the copy of the length, `Pop` accesses nothing but the two offsets
    rw [staysInside_word hlen hback rfl, staysInside_word hlen rfl rfl,
      staysInside_word hlen rfl rfl, staysInside_word hlen hread rfl,
      staysInside_word hlen rfl rfl, staysInside_word hlen rfl rfl,
      staysInside_word hlen hcopying rfl, staysInside_lengthCopying hlen,
      lengthCopies_inside]
    constructor
    · rintro ⟨hlength, h⟩ -
      rcases lengthCopies_value hne hlength with ⟨bytes, hcopies, hvalue⟩
      refine ⟨hlength, ?_⟩
      rw [← hvalue]
      exact (staysInside_length hlen hlength).1 (h bytes hcopies)
    · intro h
      rcases h hne with ⟨hlength, hrecord⟩
      rcases lengthCopies_value hne hlength with ⟨bytes, hcopies, hvalue⟩
      refine ⟨hlength, fun bytes' hcopies' => ?_⟩
      cases hcopies.symm.trans hcopies'
      rw [staysInside_length hlen hlength, hvalue]
      exact hrecord

/-- A call stays in the mapping just when its record ends before the last byte of the region. -/
theorem callInside_iff (hlen : r.size + kOffsetDataLength = len) (op : Fifo.Op (List UInt8)) :
    CallInside len r op ↔ EndsInside r op := by
  cases op with
  | push buf =>
    by_cases hpos : 0 < buf.length
    · have hcrash : ∀ n, crash r (.push buf) n = microSteps r (.push (.spaceFront buf)) n := by
        intro n
        rw [crash, check_true hpos, ok_bind]
      rw [← staysInside_push hlen hpos]
      unfold CallInside StaysInside
      simp only [hcrash]
    · have hcrash : ∀ n, crash r (.push buf) n = .error .assertion := by
        intro n
        rw [crash, check_false hpos]
        rfl
      refine iff_of_true (fun n => ?_) fun hlt => absurd hlt hpos
      rw [hcrash n]
      exact fun h => by cases h
  | pop => exact staysInside_pop hlen

end Calls

/-! ## Offsets -/

theorem copyAllIn_fits {r r' : RingBuffer} {copies : List (ℕ × List UInt8)}
    (hok : copyAllIn r copies = .ok r') :
    ∀ copy ∈ copies, copy.1 + copy.2.length ≤ r.size := by
  induction copies generalizing r with
  | nil => simp
  | cons copy copies ih =>
    rcases bind_ok.1 hok with ⟨r₁, hcopy, hrest⟩
    rw [List.forall_mem_cons]
    constructor
    · unfold copyIn at hcopy
      split at hcopy
      · assumption
      · cases hcopy
    · rw [← copyIn_size hcopy]
      exact ih hrest

theorem copyAllOut_fits {r : RingBuffer} {copies : List (ℕ × ℕ)} {buf buf' : List UInt8}
    (hok : copyAllOut r copies buf = .ok buf') : ∀ copy ∈ copies, copy.1 + copy.2 ≤ r.size := by
  induction copies generalizing buf with
  | nil => simp
  | cons copy copies ih =>
    rcases bind_ok.1 hok with ⟨bytes, hcopy, hrest⟩
    rw [List.forall_mem_cons]
    constructor
    · unfold copyOut at hcopy
      split at hcopy
      · assumption
      · cases hcopy
    · exact ih hrest

/-- `Push` leaves the back in the region, or where it was. -/
theorem push_pointers {r r' : RingBuffer} {buf : List UInt8} {accepted : Bool}
    (h : r.PointerOffsets) (hok : r.push buf = .ok (r', accepted)) : r'.PointerOffsets := by
  have hsize := r.size_lt
  rcases bind_ok.1 hok with ⟨_, -, hok⟩
  split at hok
  · cases hok
    -- refused, and nothing was moved
    exact h
  · rcases bind_ok.1 hok with ⟨r₁, hwrite, hret⟩
    cases hret
    rw [write_eq_copyAllIn] at hwrite
    rcases bind_ok.1 hwrite with ⟨_, -, hwrite⟩
    rcases bind_ok.1 hwrite with ⟨r₂, hcopies, hback⟩
    cases hback
    have hfits := copyAllIn_fits hcopies
    rw [copyAllIn_eq hcopies]
    refine ⟨h.1, ?_⟩
    -- the new back offset is at the end of a copy that was within the region
    show (writeCopies r.size r.backOffset buf).2 < 2 ^ 63
    unfold writeCopies at hfits ⊢
    split_ifs at hfits ⊢
    all_goals simp only [List.forall_mem_cons, List.length_drop] at hfits ⊢
    · omega
    · omega
    · omega

/-- So does `Pop` with the front. -/
theorem pop_pointers {r r' : RingBuffer} {res : Option (List UInt8)} (h : r.PointerOffsets)
    (hok : r.pop = .ok (r', res)) : r'.PointerOffsets := by
  have hsize := r.size_lt
  cases res with
  | none =>
    rw [(pop_none_inv hok).1]
    exact h
  | some m =>
    rcases pop_some_inv hok with ⟨-, -, -, hcopies, rfl⟩
    have hfits := copyAllOut_fits hcopies
    refine ⟨?_, h.2⟩
    show (readCopies r.size r.frontOffset m.length).2 < 2 ^ 63
    simp only [readCopies] at hfits ⊢
    split_ifs at hfits ⊢
    all_goals simp only [List.forall_mem_cons] at hfits
    · omega
    · omega
    · omega

/-- The offsets stay pointers into the region, one behind its end included. -/
theorem apply_pointers {r r' : RingBuffer} {op : Fifo.Op (List UInt8)}
    {out : Fifo.Out (List UInt8)} (h : r.PointerOffsets) (hok : apply r op = .ok (r', out)) :
    r'.PointerOffsets ∧ r'.size = r.size := by
  have hsize : r'.size = r.size := run_size (Machine.run_cons_ok hok (run_nil r'))
  refine ⟨?_, hsize⟩
  cases op with
  | push buf =>
    rcases bind_ok.1 hok with ⟨⟨r₁, accepted⟩, hpush, hret⟩
    cases hret
    exact push_pointers h hpush
  | pop =>
    rcases bind_ok.1 hok with ⟨⟨r₁, res⟩, hpop, hret⟩
    cases hret
    exact pop_pointers h hpop

end RingBuffer

/-! ## The calls on a bus -/

namespace ProcessBus

open Machine RingBuffer

/-- A bus that `Listen` has opened, or `Connect` by creating the file, or `TryRecover`. -/
inductive Opened (mmapLen : UInt32) (b : ProcessBus) : Prop where
  | listen (file file' : Option BusFile) (os : Outcome)
      (hok : (new mmapLen).listen file os = .ok (b, file', 0))
  | create (file' : Option BusFile) (os : Outcome)
      (hok : (new mmapLen).connect none os = .ok (b, file', 0))
  | recover (f : BusFile) (file' : Option BusFile) (os : Outcome)
      (hok : (new mmapLen).tryRecover (some f) os = .ok (b, file', 0))

/-- An opened bus has a ring that fills the mapping. -/
theorem Opened.ring {mmapLen : UInt32} {b : ProcessBus} (h : Opened mmapLen b) :
    ∃ r, b.buf = some r ∧ r.size + kOffsetDataLength = mmapLen.toNat := by
  cases h with
  | listen file file' os hok => exact opened_size (.inl hok)
  | create file' os hok => exact opened_size (.inr hok)
  | recover f file' os hok =>
    rcases tryRecover_inv hok with ⟨-, r, hring, hbuf⟩
    exact ⟨r, hbuf, onMapping_size hring⟩

/-- What is said of the ring of a bus. -/
def OnRing (P : RingBuffer → Fifo.Op (List UInt8) → Prop) (b : ProcessBus)
    (op : Fifo.Op (List UInt8)) : Prop := ∀ r, b.buf = some r → P r op

theorem guarded_onRing {P : RingBuffer → Fifo.Op (List UInt8) → Prop} {b : ProcessBus}
    {r : RingBuffer} {ops : List (Fifo.Op (List UInt8))} (hring : b.buf = some r) :
    Guarded apply (OnRing P) b ops ↔ Guarded RingBuffer.apply P r ops := by
  induction ops generalizing b r with
  | nil => exact Iff.rfl
  | cons op ops ih =>
    have hnow : OnRing P b op ↔ P r op := by
      constructor
      · intro h
        exact h r hring
      · intro h r' hring'
        cases hring.symm.trans hring'
        exact h
    refine and_congr hnow ?_
    constructor
    · intro h r' out hcall
      refine (ih rfl).1 (h { b with buf := some r' } out ?_)
      rw [apply, hring]
      simp only [hcall, ok_bind]
    · intro h b' out hcall
      rw [apply, hring] at hcall
      rcases bind_ok.1 hcall with ⟨⟨r', out'⟩, hcall, hret⟩
      cases hret
      exact (ih rfl).2 (h r' out hcall)

/-- All accesses of a run of `Write` and `Read` lie in the mapping, if each record that is written,
or is to be read, ends before the last byte of the region. Where the bus is opened with offsets that
a pointer can have, they lie there only then. -/
theorem mapped_iff (mmapLen : UInt32) (b : ProcessBus) (ops : List (Fifo.Op (List UInt8)))
    (hopen : Opened mmapLen b) :
    (Guarded apply (OnRing fun r op => r.PointerOffsets ∧ r.EndsInside op) b ops →
      Guarded apply (OnRing (CallInside mmapLen.toNat)) b ops) ∧
    ((∀ r, b.buf = some r → r.PointerOffsets) →
      Guarded apply (OnRing (CallInside mmapLen.toNat)) b ops →
        Guarded apply (OnRing fun r op => r.PointerOffsets ∧ r.EndsInside op) b ops) := by
  rcases hopen.ring with ⟨r, hring, hlen⟩
  rw [guarded_onRing hring, guarded_onRing hring]
  -- a call keeps the size of the region, and offsets that a pointer can have
  have hkeep : ∀ r₁ r₂ : RingBuffer, ∀ op out, RingBuffer.apply r₁ op = .ok (r₂, out) →
      r₁.size + kOffsetDataLength = mmapLen.toNat ∧ r₁.PointerOffsets →
        r₂.size + kOffsetDataLength = mmapLen.toNat ∧ r₂.PointerOffsets := by
    rintro r₁ r₂ op out hcall ⟨hlen₁, hptr⟩
    rcases apply_pointers hptr hcall with ⟨hptr', hsize⟩
    exact ⟨hsize ▸ hlen₁, hptr'⟩
  have hboth : r.PointerOffsets → (Guarded RingBuffer.apply (CallInside mmapLen.toNat) r ops ↔
      Guarded RingBuffer.apply (fun r op => r.PointerOffsets ∧ r.EndsInside op) r ops) := by
    intro hptr
    have hall : Guarded RingBuffer.apply (fun _ _ => True) r ops :=
      .of_forall (fun _ _ _ => trivial) r
    refine Guarded.iff_of_inv
      (fun r => r.size + kOffsetDataLength = mmapLen.toNat ∧ r.PointerOffsets)
      (fun r₁ op r₂ out hinv _ hcall => hkeep r₁ r₂ op out hcall hinv)
      (fun r₁ op hinv _ => ?_) ⟨hlen, hptr⟩ hall
    rw [callInside_iff hinv.1, and_iff_right hinv.2]
  constructor
  · intro h
    cases ops with
    | nil => trivial
    | cons op ops => exact (hboth h.1.1).2 h
  · intro hptr
    exact (hboth (hptr r hring)).1

/-- A bus of 64 bytes, and a record that ends one byte before the last. -/
theorem mapped_run : ∃ b file, (new 64).listen none succeeds = .ok (b, file, 0) ∧
    Guarded apply (OnRing (CallInside 64)) b [.push (List.replicate 35 1), .pop] :=
  ⟨_, _, listen_first 64 (by decide),
    (mapped_iff 64 _ _ (.listen _ _ _ (listen_first 64 (by decide)))).1
      ((guarded_onRing rfl).2 (by decide +kernel))⟩

/-- With a mapping of one page, the last byte of a record is stored behind it. -/
theorem last_byte_unmapped : ∃ b file r r' pc,
    (new 4096).listen none succeeds = .ok (b, file, 0) ∧ b.buf = some r ∧
      crash r (.push (List.replicate 4068 1)) 5 = .ok (r', pc) ∧ pc.access = (29, 4068) ∧
      ¬ Inside 4096 pc.access := by
  have hfacts : (crash (firstRing 4096 (by decide)) (.push (List.replicate 4068 1)) 5).map
      (fun left => left.2.access) = .ok (29, 4068) := by decide +kernel
  rcases map_ok.1 hfacts with ⟨⟨r', pc⟩, hcrash, haccess⟩
  refine ⟨_, _, _, r', pc, listen_first 4096 (by decide), rfl, hcrash, haccess, fun hinside => ?_⟩
  have haccess : pc.access = (29, 4068) := haccess
  rw [haccess] at hinside
  exact absurd (hinside 4067 (by decide)) (by decide)

end ProcessBus

end FxServer
