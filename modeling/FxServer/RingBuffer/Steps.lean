import FxServer.RingBuffer.Messages

/-!
# FxServer.RingBuffer.Steps — `Push` and `Pop`, access by access

The region is shared: between two accesses of one process to it the other process may
run, and after any access the process may die. Here `Push` and `Pop` make one access in a
step, to a field of `*offset_` or by a `memcpy`, and a program counter holds what they
have read.

So what is known of the functions is known of a run of accesses that nobody interrupts. A run
that ends before the call has returned is that of a process that dies.

* `runPush_eq`, `runPop_eq` — run without interruption, they are `push` and `pop`.
-/

namespace FxServer.RingBuffer

/-- Where a `Push` is, with its local variables. -/
inductive PushPc where
  | idle
  /-- `space_left` reads the front -/
  | spaceFront (buf : List UInt8)
  /-- `space_left` reads the back -/
  | spaceBack (buf : List UInt8) (front : ℕ)
  /-- `Write` reads the front -/
  | writeFront (buf : List UInt8)
  /-- `Write` reads the back -/
  | writeBack (buf : List UInt8)
  /-- `Write` makes the copies that are left, and sets the back -/
  | copying (copies : List (ℕ × List UInt8)) (back : ℕ)
  /-- `Push` reads the number of elements -/
  | readSize
  /-- `Push` sets it, one more than it has read -/
  | setSize (size : ℕ)
deriving DecidableEq, Repr

/-- Where a `Pop` is, with its local variables. -/
inductive PopPc where
  | idle
  /-- `empty` reads the front -/
  | emptyFront
  /-- `empty` reads the back -/
  | emptyBack (front : ℕ)
  /-- `Read` reads the front -/
  | readFront
  /-- `Read` calls `empty` -/
  | readEmptyFront (front : ℕ)
  | readEmptyBack (front emptyFront : ℕ)
  /-- `NextBufferLength` reads the front -/
  | lengthFront (front : ℕ)
  /-- `NextBufferLength` calls `empty` -/
  | lengthEmptyFront (front lengthFront : ℕ)
  | lengthEmptyBack (front lengthFront emptyFront : ℕ)
  /-- `NextBufferLength` makes the copies that are left -/
  | lengthCopying (front : ℕ) (copies : List (ℕ × ℕ)) (len : List UInt8)
  /-- `Read` makes the copies that are left, and sets the front -/
  | copying (copies : List (ℕ × ℕ)) (buf : List UInt8) (front : ℕ)
  /-- `Pop` reads the number of elements -/
  | readSize (buf : Option (List UInt8))
  /-- `Pop` sets it, one less than it has read -/
  | setSize (buf : Option (List UInt8)) (size : ℕ)
deriving DecidableEq, Repr

/-- The copies of `Write`, and where it leaves the back. -/
def writeCopies (size back : ℕ) (buf : List UInt8) : List (ℕ × List UInt8) × ℕ :=
  if back + buf.length + 4 ≤ size then
    ([(back, intBytes buf.length), (back + 4, buf)], back + 4 + buf.length)
  else if back + 4 ≤ size then
    let first := size - (back + 4)
    ([(back, intBytes buf.length), (back + 4, buf.take first), (0, buf.drop first)],
      buf.length - first)
  else
    let first := size - back
    ([(back, (intBytes buf.length).take first), (0, (intBytes buf.length).drop first),
      (4 - first, buf)], 4 - first + buf.length)

/-- The copies of `NextBufferLength`. -/
def lengthCopies (size front : ℕ) : List (ℕ × ℕ) :=
  if front + kBufferHeaderLength ≤ size then [(front, 4)]
  else [(front, size - front), (0, kBufferHeaderLength - (size - front))]

/-- The copies of `Read`, and where it leaves the front. -/
def readCopies (size front len : ℕ) : List (ℕ × ℕ) × ℕ :=
  let content := front + kBufferHeaderLength
  if size < content then
    let offset := content - size
    ([(offset, len)], offset)
  else if size < content + len then
    let tailLength := size - content
    ([(content, tailLength), (0, len - tailLength)], len - tailLength)
  else ([(content, len)], content + len)

/-- The next access of a `Push`, and what it returns if that was the last one. -/
def pushStep (r : RingBuffer) : PushPc → Except Fault (RingBuffer × PushPc × Option Bool)
  | .idle => .ok (r, .idle, none)
  | .spaceFront buf => .ok (r, .spaceBack buf r.frontOffset, none)
  | .spaceBack buf front =>
    -- the front may have moved since it was read
    if (r.setFront front).spaceLeft < buf.length then .ok (r, .idle, some false)
    else .ok (r, .writeFront buf, none)
  | .writeFront buf => .ok (r, .writeBack buf, none)
  | .writeBack buf => do
    check (r.backOffset ≤ r.size)
    let copies := writeCopies r.size r.backOffset buf
    .ok (r, .copying copies.1 copies.2, none)
  | .copying [] back => .ok (r.setBack back, .readSize, none)
  | .copying ((dst, bytes) :: copies) back => do
    let r ← r.copyIn dst bytes
    .ok (r, .copying copies back, none)
  | .readSize => .ok (r, .setSize r.elementSize, none)
  | .setSize size => .ok (r.setSize (1 + size), .idle, some true)

/-- The next access of a `Pop`, and what it returns if that was the last one. -/
def popStep (r : RingBuffer) :
    PopPc → Except Fault (RingBuffer × PopPc × Option (Option (List UInt8)))
  | .idle => .ok (r, .idle, none)
  | .emptyFront => .ok (r, .emptyBack r.frontOffset, none)
  | .emptyBack front =>
    if front = r.backOffset then .ok (r, .idle, some none) else .ok (r, .readFront, none)
  | .readFront => .ok (r, .readEmptyFront r.frontOffset, none)
  | .readEmptyFront front => .ok (r, .readEmptyBack front r.frontOffset, none)
  | .readEmptyBack front emptyFront =>
    -- `Pop` goes on also when `Read` returns `NULL`
    if emptyFront = r.backOffset then .ok (r, .readSize none, none)
    else .ok (r, .lengthFront front, none)
  | .lengthFront front => .ok (r, .lengthEmptyFront front r.frontOffset, none)
  | .lengthEmptyFront front lengthFront =>
    .ok (r, .lengthEmptyBack front lengthFront r.frontOffset, none)
  | .lengthEmptyBack front lengthFront emptyFront => do
    check (emptyFront ≠ r.backOffset)
    .ok (r, .lengthCopying front (lengthCopies r.size lengthFront) [], none)
  | .lengthCopying front ((src, n) :: copies) len => do
    let bytes ← r.copyOut src n
    .ok (r, .lengthCopying front copies (len ++ bytes), none)
  | .lengthCopying front [] len => do
    check (0 < intOfBytes len)
    check (intOfBytes len ≤ kMaxBufferBodyLength)
    let copies := readCopies r.size front (intOfBytes len).toNat
    .ok (r, .copying copies.1 [] copies.2, none)
  | .copying ((src, n) :: copies) buf front => do
    let bytes ← r.copyOut src n
    .ok (r, .copying copies (buf ++ bytes) front, none)
  | .copying [] buf front => .ok (r.setFront front, .readSize (some buf), none)
  | .readSize buf => .ok (r, .setSize buf r.elementSize, none)
  | .setSize buf size => .ok (r.setSize (size + (2 ^ 64 - 1)), .idle, some buf)

/-! ## Without interruption -/

/-- Go on with a `Push` until it returns, for at most so many steps. -/
def runPush (r : RingBuffer) (pc : PushPc) : ℕ → Except Fault (RingBuffer × Option Bool)
  | 0 => .ok (r, none)
  | n + 1 => do
    let (r, pc, res) ← pushStep r pc
    match res with
    | some accepted => .ok (r, some accepted)
    | none => runPush r pc n

/-- Go on with a `Pop` until it returns, for at most so many steps. -/
def runPop (r : RingBuffer) (pc : PopPc) :
    ℕ → Except Fault (RingBuffer × Option (Option (List UInt8)))
  | 0 => .ok (r, none)
  | n + 1 => do
    let (r, pc, res) ← popStep r pc
    match res with
    | some buf => .ok (r, some buf)
    | none => runPop r pc n

/-- The copies into the region, one after the other. -/
def copyAllIn : RingBuffer → List (ℕ × List UInt8) → Except Fault RingBuffer
  | r, [] => .ok r
  | r, (dst, bytes) :: copies => do
    let r ← r.copyIn dst bytes
    copyAllIn r copies

/-- The copies out of the region, one behind the other. -/
def copyAllOut (r : RingBuffer) : List (ℕ × ℕ) → List UInt8 → Except Fault (List UInt8)
  | [], buf => .ok buf
  | (src, n) :: copies, buf => do
    let bytes ← r.copyOut src n
    copyAllOut r copies (buf ++ bytes)

theorem copyIn_size {r r' : RingBuffer} {dst : ℕ} {bytes : List UInt8}
    (h : r.copyIn dst bytes = .ok r') : r'.size = r.size := by
  unfold copyIn at h
  split at h
  · cases h
    rfl
  · cases h

/-- `Write` is its copies and then the new back offset. -/
theorem write_eq_copyAllIn (r : RingBuffer) (buf : List UInt8) :
    r.write buf = (do
      check (r.backOffset ≤ r.size)
      let r' ← copyAllIn r (writeCopies r.size r.backOffset buf).1
      .ok (r'.setBack (writeCopies r.size r.backOffset buf).2)) := by
  unfold write writeCopies
  refine bind_congr fun _ => ?_
  split_ifs
  · simp [copyAllIn, bind_assoc]
  · cases hcopy : r.copyIn r.backOffset (intBytes buf.length) with
    | error e => simp [copyAllIn, hcopy, bind, Except.bind]
    | ok r' => simp [copyAllIn, hcopy, copyIn_size hcopy, bind_assoc]
  · simp [copyAllIn, bind_assoc]

/-- `NextBufferLength` is its copies and then the value of the four bytes. -/
theorem nextBufferLength_eq_copyAllOut (r : RingBuffer) :
    r.nextBufferLength = (do
      check (r.empty = false)
      let len ← copyAllOut r (lengthCopies r.size r.frontOffset) []
      .ok (intOfBytes len)) := by
  unfold nextBufferLength lengthCopies
  refine bind_congr fun _ => ?_
  split_ifs <;> simp [copyAllOut, bind_assoc]

/-- `Read` is the length, its checks, the copies and then the new front offset. -/
theorem read_eq_copyAllOut {r : RingBuffer} (hne : r.empty = false) :
    r.read = (do
      let len ← r.nextBufferLength
      check (0 < len)
      check (len ≤ kMaxBufferBodyLength)
      let buf ← copyAllOut r (readCopies r.size r.frontOffset len.toNat).1 []
      .ok (r.setFront (readCopies r.size r.frontOffset len.toNat).2, some buf)) := by
  unfold read
  rw [if_neg (by simp [hne])]
  refine bind_congr fun len => ?_
  refine bind_congr fun _ => bind_congr fun _ => ?_
  simp only [readCopies]
  split_ifs <;> simp [copyAllOut, bind_assoc]

/-- A `Push` in its copies, run on. -/
theorem runPush_copying (r : RingBuffer) (copies : List (ℕ × List UInt8)) (back n : ℕ) :
    runPush r (.copying copies back) (copies.length + (n + 3)) =
      (copyAllIn r copies).map fun r' =>
        ((r'.setBack back).setSize (1 + r'.elementSize), some true) := by
  induction copies generalizing r with
  | nil =>
    rw [List.length_nil, Nat.zero_add]
    rfl
  | cons copy copies ih =>
    rcases copy with ⟨dst, bytes⟩
    rw [List.length_cons, Nat.add_right_comm, runPush, copyAllIn]
    show (r.copyIn dst bytes >>= _) >>= _ = _
    cases hcopy : r.copyIn dst bytes with
    | error e => rfl
    | ok r' =>
      exact ih r'

/-- One access takes one unit of the fuel of a `Push`. -/
theorem runPush_step {r r' : RingBuffer} {pc pc' : PushPc} (n : ℕ)
    (h : pushStep r pc = .ok (r', pc', none)) : runPush r pc (n + 1) = runPush r' pc' n := by
  rw [runPush, h]
  rfl

theorem runPop_step {r r' : RingBuffer} {pc pc' : PopPc} (n : ℕ)
    (h : popStep r pc = .ok (r', pc', none)) : runPop r pc (n + 1) = runPop r' pc' n := by
  rw [runPop, h]
  rfl

/-- The fuel suffices for every copy of `Write`. -/
theorem length_writeCopies (size back : ℕ) (buf : List UInt8) :
    ∃ n, 6 = (writeCopies size back buf).1.length + (n + 3) := by
  unfold writeCopies
  split_ifs
  · exact ⟨1, rfl⟩
  · exact ⟨0, rfl⟩
  · exact ⟨0, rfl⟩

/-- Ten accesses are enough for a `Push`. -/
theorem runPush_eq (r : RingBuffer) {buf : List UInt8} (hpos : 0 < buf.length) :
    runPush r (.spaceFront buf) 10 = (r.push buf).map fun res => (res.1, some res.2) := by
  have hfront : r.setFront r.frontOffset = r := rfl
  rw [push, check_true hpos, ok_bind, runPush_step 9 rfl]
  by_cases hspace : r.spaceLeft < buf.length
  · -- refused after two accesses
    rw [if_pos hspace, runPush, pushStep, hfront, if_pos hspace]
    rfl
  · have hback : pushStep r (.spaceBack buf r.frontOffset) = .ok (r, .writeFront buf, none) := by
      rw [pushStep, hfront, if_neg hspace]
    -- as much fuel as copies, and three accesses behind them
    rcases length_writeCopies r.size r.backOffset buf with ⟨n, hn⟩
    rw [if_neg hspace, runPush_step 8 hback, runPush_step 7 rfl, write_eq_copyAllIn, runPush,
      pushStep]
    by_cases hle : r.backOffset ≤ r.size
    · rw [check_true hle]
      show runPush r (.copying _ _) 6 = _
      rw [hn, runPush_copying, ok_bind]
      cases copyAllIn r (writeCopies r.size r.backOffset buf).1 <;> rfl
    · simp only [check, if_neg hle]
      rfl

/-- A `Pop` in the copies of a message, run on. -/
theorem runPop_copying (r : RingBuffer) (copies : List (ℕ × ℕ)) (buf : List UInt8)
    (front n : ℕ) :
    runPop r (.copying copies buf front) (copies.length + (n + 3)) =
      (copyAllOut r copies buf).map fun buf' =>
        ((r.setFront front).setSize (r.elementSize + (2 ^ 64 - 1)), some (some buf')) := by
  induction copies generalizing buf with
  | nil =>
    rw [List.length_nil, Nat.zero_add]
    rfl
  | cons copy copies ih =>
    rcases copy with ⟨src, k⟩
    rw [List.length_cons, Nat.add_right_comm, runPop, copyAllOut]
    show (r.copyOut src k >>= _) >>= _ = _
    cases r.copyOut src k with
    | error e => rfl
    | ok bytes => exact ih (buf ++ bytes)

/-- A `Pop` in the copies of a length, run on. -/
theorem runPop_lengthCopying (r : RingBuffer) (front : ℕ) (copies : List (ℕ × ℕ))
    (len : List UInt8) (n : ℕ) :
    runPop r (.lengthCopying front copies len) (copies.length + n) =
      copyAllOut r copies len >>= fun len => runPop r (.lengthCopying front [] len) n := by
  induction copies generalizing len with
  | nil =>
    rw [List.length_nil, Nat.zero_add]
    rfl
  | cons copy copies ih =>
    rcases copy with ⟨src, k⟩
    rw [List.length_cons, Nat.add_right_comm, runPop, copyAllOut]
    show (r.copyOut src k >>= _) >>= _ = _
    cases r.copyOut src k with
    | error e => rfl
    | ok bytes => exact ih (len ++ bytes)

theorem length_lengthCopies (size front : ℕ) :
    ∃ n, 8 = (lengthCopies size front).length + (n + 6) := by
  unfold lengthCopies
  split_ifs
  · exact ⟨1, rfl⟩
  · exact ⟨0, rfl⟩

theorem length_readCopies (size front len n : ℕ) :
    ∃ k, n + 5 = (readCopies size front len).1.length + (k + 3) := by
  simp only [readCopies]
  split_ifs
  · exact ⟨n + 1, by simp; omega⟩
  · exact ⟨n, by simp; omega⟩
  · exact ⟨n + 1, by simp; omega⟩

/-- Sixteen accesses are enough for a `Pop`. -/
theorem runPop_eq (r : RingBuffer) :
    runPop r .emptyFront 16 = r.pop.map fun res => (res.1, some res.2) := by
  rw [pop, runPop_step 15 rfl]
  by_cases hempty : r.frontOffset = r.backOffset
  · -- nothing to read: two accesses
    have hyes : r.empty = true := decide_eq_true hempty
    rw [if_pos hyes, runPop, popStep, if_pos hempty]
    rfl
  · have hno : r.empty = false := decide_eq_false hempty
    -- alone, each test of the offsets comes out as the first one
    have hback : popStep r (.emptyBack r.frontOffset) = .ok (r, .readFront, none) := by
      rw [popStep, if_neg hempty]
    have hread : popStep r (.readEmptyBack r.frontOffset r.frontOffset) =
        .ok (r, .lengthFront r.frontOffset, none) := by
      rw [popStep, if_neg hempty]
    have hlength : popStep r (.lengthEmptyBack r.frontOffset r.frontOffset r.frontOffset) =
        .ok (r, .lengthCopying r.frontOffset (lengthCopies r.size r.frontOffset) [], none) := by
      rw [popStep, check_true hempty]
      rfl
    rcases length_lengthCopies r.size r.frontOffset with ⟨n, hn⟩
    rw [if_neg (by simp [hno]), read_eq_copyAllOut hno, nextBufferLength_eq_copyAllOut,
      check_true hno, runPop_step 14 hback, runPop_step 13 rfl, runPop_step 12 rfl,
      runPop_step 11 hread, runPop_step 10 rfl, runPop_step 9 rfl, runPop_step 8 hlength, hn,
      runPop_lengthCopying]
    cases copyAllOut r (lengthCopies r.size r.frontOffset) [] with
    | error e => rfl
    | ok len =>
      rw [ok_bind, ok_bind, ok_bind, ok_bind, runPop, popStep]
      by_cases hpos : 0 < intOfBytes len
      · by_cases hmax : intOfBytes len ≤ kMaxBufferBodyLength
        · rw [check_true hpos, check_true hmax]
          -- the copies of the body, then the front offset and the count
          rcases length_readCopies r.size r.frontOffset (intOfBytes len).toNat n with ⟨k, hk⟩
          show runPop r (.copying _ _ _) (n + 5) = _
          rw [hk, runPop_copying, ok_bind, ok_bind]
          cases copyAllOut r (readCopies r.size r.frontOffset (intOfBytes len).toNat).1 [] <;> rfl
        · rw [check_true hpos]
          simp only [check, if_neg hmax]
          rfl
      · simp only [check, if_neg hpos]
        rfl

end FxServer.RingBuffer
