import FxServer.RingBuffer.Messages

/-!
# FxServer.RingBuffer.Admission — which messages `Push` lets in

`Push` compares the length of the message with `space_left()`. `Write` needs four bytes more for
the length, and `Read` asserts a limit that `Push` does not test.

The test of `Push` and the room for a record are compared as conditions on one number, the length
of the message. They differ for the lengths that fit without their four bytes, for those behind
the limit of `Read`, and where the free space is no `int`.

* `push_exact_iff` — `Push` admits exactly what fits, just when the message fits or is longer
  than all the free space. Free space that is no `int` has a condition of its own.
* `push_overwrites_record` — a message that is too long by its length overwrites the record at
  the front.
-/

namespace FxServer.RingBuffer

open Machine Cyclic

/-- The bytes from the front to the back. -/
def used (r : RingBuffer) : ℕ :=
  if r.frontOffset ≤ r.backOffset then r.backOffset - r.frontOffset
  else r.backOffset + r.size - r.frontOffset

/-- The free bytes, less the one that is kept free. -/
def free (r : RingBuffer) : ℤ := (r.size : ℤ) - r.used - kExtraSpace

/-- A message of `len` bytes fits: `Read` allows its length, and its record has room. -/
def MessageFits (r : RingBuffer) (len : ℕ) : Prop :=
  len ≤ kMaxBufferBodyLength ∧ (4 + len : ℤ) ≤ r.free

instance (r : RingBuffer) (len : ℕ) : Decidable (MessageFits r len) :=
  inferInstanceAs (Decidable (len ≤ kMaxBufferBodyLength ∧ (4 + len : ℤ) ≤ r.free))

/-- `Push` admits the message just when it fits. Then it writes in the region only and leaves
what is between the front and the back; a message that is refused changes nothing. -/
def PushExact (r : RingBuffer) (buf : List UInt8) : Prop :=
  ∃ r' accepted, r.push buf = .ok (r', accepted) ∧
    (accepted = true ↔ MessageFits r buf.length) ∧
    (accepted = true → (∀ i, r.size ≤ i → r'.mem i = r.mem i) ∧
      getCyc r'.size r'.mem r'.frontOffset r.used = getCyc r.size r.mem r.frontOffset r.used) ∧
    (accepted = false → r' = r)

/-- The message fits, or is longer than all that is free. Where the free space is no `int`, it
is within the limit of `Read` just when it is within what the narrowing leaves. -/
def Clear (free : ℤ) (len : ℕ) : Prop :=
  if free < 2 ^ 31 then len ≤ kMaxBufferBodyLength ∧ (4 + len : ℤ) ≤ free ∨ free < len
  else len ≤ kMaxBufferBodyLength ↔ (len : ℤ) ≤ toInt free

instance (free : ℤ) (len : ℕ) : Decidable (Clear free len) :=
  inferInstanceAs (Decidable (if free < 2 ^ 31 then _ else _))

/-- `space_left` is the free space, narrowed to `int`. -/
theorem spaceLeft_eq_free {r : RingBuffer} (hfront : r.frontOffset ≤ r.size) :
    r.spaceLeft = toInt r.free := by
  unfold spaceLeft free used
  split_ifs
  · congr 1
    omega
  · congr 1
    omega

theorem used_le {r : RingBuffer} (hback : r.backOffset ≤ r.size) : r.used ≤ r.size := by
  unfold used
  split <;> omega

/-- What a ring uses is the records of its messages. -/
theorem Stores.used_eq {r : RingBuffer} {ms : List (List UInt8)} (h : Stores r ms) :
    r.used = (records ms).length := by
  have hback := h.back
  have hfront := h.front_le
  have hroom := h.room
  unfold adv at hback
  unfold used
  split_ifs at hback ⊢ <;> omega

/-- A message that fits leaves the byte free that tells full from empty. -/
theorem Stores.room_of_fits {r : RingBuffer} {ms : List (List UInt8)} {len : ℕ} (h : Stores r ms)
    (hfits : MessageFits r len) : (records ms).length + (4 + len) < r.size := by
  have hfree := hfits.2
  have hextra : kExtraSpace = 1 := rfl
  unfold free at hfree
  rw [h.used_eq] at hfree
  omega

/-- Seen from the back, the bytes from the front on are the last ones of the region. -/
theorem dist_unread {r : RingBuffer} (hfront : r.frontOffset ≤ r.size)
    (hback : r.backOffset ≤ r.size) {i : ℕ} (hi : i < r.used) :
    cell r.size r.frontOffset i < r.size ∧
      Cyclic.dist r.size r.backOffset (cell r.size r.frontOffset i) = r.size - r.used + i := by
  have hle := used_le hback
  refine ⟨cell_lt hfront (by omega), ?_⟩
  unfold used at *
  unfold Cyclic.dist cell
  split_ifs at * <;> omega

/-- A write that fits leaves what is between the front and the back. -/
theorem written_unread {r : RingBuffer} {buf : List UInt8} (hfront : r.frontOffset ≤ r.size)
    (hback : r.backOffset ≤ r.size) (hroom : r.used + (4 + buf.length) ≤ r.size) :
    getCyc r.size (r.written buf).mem r.frontOffset r.used =
      getCyc r.size r.mem r.frontOffset r.used := by
  refine List.map_congr_left fun i hi => ?_
  rcases dist_unread hfront hback (List.mem_range.1 hi) with ⟨hlt, hdist⟩
  show putCyc r.size r.mem r.backOffset (encode buf) _ = _
  rw [putCyc, if_pos hlt, hdist, List.getElem?_eq_none (by rw [length_encode]; omega),
    Option.getD_none]

/-- A message that fits and that the narrowed space admits is laid down exactly. -/
theorem push_fits {r : RingBuffer} {buf : List UInt8} (hfront : r.frontOffset ≤ r.size)
    (hback : r.backOffset ≤ r.size) (hpos : 0 < buf.length) (hfits : MessageFits r buf.length)
    (hspace : (buf.length : ℤ) ≤ r.spaceLeft) : PushExact r buf := by
  rcases hfits with ⟨hmax, hroom⟩
  have hextra : kExtraSpace = 1 := rfl
  have hroom' : r.used + (4 + buf.length) < r.size := by
    unfold free at hroom
    omega
  have hpush : r.push buf = .ok ((r.written buf).setSize (1 + r.elementSize), true) := by
    unfold push
    rw [check_true hpos, ok_bind, if_neg (by omega), write_eq buf hback (by omega), ok_bind]
    rfl
  refine ⟨_, true, hpush, iff_of_true rfl ⟨hmax, hroom⟩, fun _ => ⟨fun i hi => ?_, ?_⟩, ?_⟩
  · show putCyc r.size r.mem r.backOffset (encode buf) i = r.mem i
    -- nothing behind the region is written
    rw [putCyc, if_neg (by omega)]
  · exact written_unread hfront hback hroom'.le
  · intro hrefused
    cases hrefused

/-- The test of `Push` and the room for a record agree just when the length is clear of the
limits. -/
theorem clear_iff {r : RingBuffer} (hback : r.backOffset ≤ r.size)
    (hfront : r.frontOffset ≤ r.size) (len : ℕ) :
    ((len : ℤ) ≤ r.spaceLeft ↔ MessageFits r len) ↔ Clear r.free len := by
  have hmax : kMaxBufferBodyLength = 65536 := rfl
  have hextra : kExtraSpace = 1 := rfl
  have hfree : -1 ≤ r.free := by
    have hle := used_le hback
    unfold free
    omega
  rw [spaceLeft_eq_free hfront]
  unfold MessageFits Clear
  split
  · rename_i hsmall
    -- the free space is an `int`: the comparison lacks the header and one byte
    have hint : toInt r.free = r.free := by
      unfold toInt
      rw [Int.bmod_eq_of_le] <;> omega
    rw [hint]
    omega
  · rename_i hlarge
    -- more free space than an `int` holds: every message fits that is not too long
    have hfits : len ≤ kMaxBufferBodyLength ∧ (4 + len : ℤ) ≤ r.free ↔
        len ≤ kMaxBufferBodyLength := by omega
    rw [hfits]
    exact Iff.comm

/-- For every region and every message, wherever the offsets are: `Push` admits exactly what
fits, if and only if the length of the message is clear of the limits. -/
theorem push_exact_iff (r : RingBuffer) (buf : List UInt8) (hfront : r.frontOffset ≤ r.size)
    (hback : r.backOffset ≤ r.size) (hpos : 0 < buf.length) :
    PushExact r buf ↔ Clear r.free buf.length := by
  rw [← clear_iff hback hfront]
  constructor
  · rintro ⟨r', accepted, hpush, hfits, -⟩
    rw [← hfits]
    unfold push at hpush
    rw [check_true hpos, ok_bind] at hpush
    split at hpush
    · rename_i hfull
      cases hpush
      -- the ring is not changed, and says so
      exact iff_of_false (by omega) (by decide)
    · rename_i hspace
      rcases bind_ok.1 hpush with ⟨r₁, -, hpush⟩
      cases hpush
      exact iff_of_true (by omega) rfl
  · intro hclear
    -- admitted and fitting, or refused and not fitting
    by_cases hfits : MessageFits r buf.length
    · exact push_fits hfront hback hpos hfits (hclear.2 hfits)
    · have hfull : ¬ (buf.length : ℤ) ≤ r.spaceLeft := fun h => hfits (hclear.1 h)
      have hpush : r.push buf = .ok (r, false) := by
        unfold push
        rw [check_true hpos, ok_bind, if_pos (by omega)]
      refine ⟨r, false, hpush, iff_of_false (by decide) hfits, fun h => ?_, fun _ => rfl⟩
      cases h

/-- A ring that holds a message of five bytes takes one of two, and leaves the first alone. -/
theorem push_exact_run :
    ∃ r, (new 16 (fun _ => 0) (by decide) (by decide)).push [1, 2, 3, 4, 5] = .ok (r, true) ∧
      Stores r [[1, 2, 3, 4, 5]] ∧ MessageFits r 2 ∧ PushExact r [7, 8] := by
  refine ⟨_, rfl, ⟨by decide, rfl, by decide, rfl, by decide⟩, by decide, ?_⟩
  exact (push_exact_iff _ [7, 8] (by decide) (by decide) (by decide)).2 (by decide)

/-- A ring of `16` bytes that holds a message of five has `6` bytes to spare. `Push` lets in a
message of six, and its last bytes take the place of the length of the first message. -/
theorem push_overwrites_record :
    ∃ r r', (new 16 (fun _ => 0) (by decide) (by decide)).push [1, 2, 3, 4, 5] = .ok (r, true) ∧
      Stores r [[1, 2, 3, 4, 5]] ∧ r.free = 6 ∧
      r.push [6, 6, 6, 6, 6, 6] = .ok (r', true) ∧
      getCyc r.size r.mem r.frontOffset r.used = [5, 0, 0, 0, 1, 2, 3, 4, 5] ∧
      getCyc r'.size r'.mem r'.frontOffset r.used = [6, 6, 6, 0, 1, 2, 3, 4, 5] ∧
      ¬ PushExact r [6, 6, 6, 6, 6, 6] := by
  refine ⟨_, _, rfl, ⟨by decide, rfl, by decide, rfl, by decide⟩, rfl, rfl, rfl, rfl, ?_⟩
  rintro ⟨r', accepted, hpush, hfits, -⟩
  cases hpush
  exact absurd (hfits.1 rfl).2 (by decide)

end FxServer.RingBuffer
