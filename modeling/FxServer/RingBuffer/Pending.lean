import FxServer.RingBuffer.Shared

/-!
# FxServer.RingBuffer.Pending — what is left for a reader

`reads r ms` says that `Pop` after `Pop` returns the messages `ms`, and then `NULL`. A ring
that stores `ms` gives them back so just when none of their lengths wraps around the end
of the region (`reads_iff`).

One direction is a walk along the records. For the other, bytes are counted: a `Pop` whose length
wraps leaves the front short by its message, and less than a turn of messages cannot make up for
that.
-/

namespace FxServer.RingBuffer

open Cyclic

/-- One `Pop` after the other returns `ms`, and then `NULL`. -/
def reads : RingBuffer → List (List UInt8) → Bool
  | r, [] =>
    match r.pop with
    | .ok (_, none) => true
    | _ => false
  | r, m :: ms =>
    match r.pop with
    | .ok (r', some m') => m' = m && reads r' ms
    | _ => false

/-- No length of these messages, from this front on, wraps. -/
def LengthsFit (size : ℕ) : ℕ → List (List UInt8) → Prop
  | _, [] => True
  | front, m :: ms => front + 4 ≤ size ∧ LengthsFit size (adv size front (4 + m.length)) ms

instance (size : ℕ) : ∀ front ms, Decidable (LengthsFit size front ms)
  | _, [] => .isTrue trivial
  | front, m :: ms =>
    have : Decidable (LengthsFit size (adv size front (4 + m.length)) ms) :=
      instDecidableLengthsFit size _ ms
    inferInstanceAs (Decidable (_ ∧ _))

/-- Nothing is read exactly when `Pop` returns nothing. -/
theorem reads_nil {r : RingBuffer} : reads r [] = true ↔ ∃ r', r.pop = .ok (r', none) := by
  unfold reads
  split
  · rename_i r' hpop
    exact ⟨fun _ => ⟨r', hpop⟩, fun _ => rfl⟩
  · rename_i hnot
    refine ⟨nofun, ?_⟩
    rintro ⟨r', hpop⟩
    exact absurd hpop (hnot r')

/-- Reading several messages is reading one and then the others. -/
theorem reads_cons {r : RingBuffer} {m : List UInt8} {ms : List (List UInt8)} :
    reads r (m :: ms) = true ↔ ∃ r', r.pop = .ok (r', some m) ∧ reads r' ms = true := by
  rw [reads]
  split
  · rename_i r' m' hpop
    rw [Bool.and_eq_true, decide_eq_true_eq]
    constructor
    · rintro ⟨rfl, hreads⟩
      exact ⟨r', hpop, hreads⟩
    · rintro ⟨r₁, hpop₁, hreads⟩
      rcases Prod.mk.inj (Except.ok.inj (hpop.symm.trans hpop₁)) with ⟨rfl, hm⟩
      exact ⟨Option.some.inj hm, hreads⟩
  · rename_i hnot
    refine ⟨nofun, ?_⟩
    rintro ⟨r', hpop, -⟩
    exact absurd hpop (hnot r' m)

/-- A ring has one sequence of messages to give. -/
theorem reads_unique {r : RingBuffer} {ms ms' : List (List UInt8)} (h : reads r ms = true)
    (h' : reads r ms' = true) : ms = ms' := by
  induction ms generalizing r ms' with
  | nil =>
    rcases reads_nil.1 h with ⟨r₁, hpop⟩
    cases ms' with
    | nil => rfl
    | cons m' ms' =>
      rcases reads_cons.1 h' with ⟨r₂, hpop', -⟩
      -- one says that nothing is there, and the other that something is
      cases hpop.symm.trans hpop'
  | cons m ms ih =>
    rcases reads_cons.1 h with ⟨r₁, hpop, hrest⟩
    cases ms' with
    | nil =>
      rcases reads_nil.1 h' with ⟨r₂, hpop'⟩
      cases hpop.symm.trans hpop'
    | cons m' ms' =>
      rcases reads_cons.1 h' with ⟨r₂, hpop', hrest'⟩
      rcases Prod.mk.inj (Except.ok.inj (hpop.symm.trans hpop')) with ⟨rfl, hm⟩
      obtain rfl : m = m' := Option.some.inj hm
      rw [ih hrest hrest']

/-! ## What a call does to any ring -/

/-- Copies append as many bytes as they ask for. -/
theorem length_copyAllOut {r : RingBuffer} {copies : List (ℕ × ℕ)} {buf buf' : List UInt8}
    (h : copyAllOut r copies buf = .ok buf') :
    buf'.length = buf.length + (copies.map Prod.snd).sum := by
  induction copies generalizing buf with
  | nil =>
    cases h
    simp
  | cons copy copies ih =>
    rcases copy with ⟨src, n⟩
    rcases bind_ok.1 h with ⟨bytes, hcopy, hrest⟩
    have hlen : bytes.length = n := by
      unfold copyOut at hcopy
      split at hcopy
      · rw [← Except.ok.inj hcopy, length_get]
      · cases hcopy
    rw [ih hrest, List.length_append, hlen]
    simp [Nat.add_assoc]

/-- A `Pop` that returns nothing has found the offsets equal. -/
theorem pop_none_inv {r r' : RingBuffer} (h : r.pop = .ok (r', none)) :
    r' = r ∧ r.frontOffset = r.backOffset := by
  unfold pop at h
  split at h
  · rename_i hempty
    cases h
    exact ⟨rfl, of_decide_eq_true hempty⟩
  · rename_i hempty
    rcases bind_ok.1 h with ⟨⟨r₁, res₁⟩, hread, hret⟩
    rcases Prod.mk.inj (Except.ok.inj hret) with ⟨-, rfl⟩
    rw [read_eq_copyAllOut (by simpa using hempty)] at hread
    rcases bind_ok.1 hread with ⟨len, -, hread⟩
    rcases bind_ok.1 hread with ⟨_, -, hread⟩
    rcases bind_ok.1 hread with ⟨_, -, hread⟩
    rcases bind_ok.1 hread with ⟨buf, -, hread⟩
    cases (Prod.mk.inj (Except.ok.inj hread)).2

/-- The message `Pop` returns, and where it leaves the front. -/
theorem pop_some_inv {r r' : RingBuffer} {m : List UInt8} (h : r.pop = .ok (r', some m)) :
    r.nextBufferLength = .ok (m.length : ℤ) ∧ m.length ≤ kMaxBufferBodyLength ∧ 0 < m.length ∧
      copyAllOut r (readCopies r.size r.frontOffset m.length).1 [] = .ok m ∧
      r' = (r.setFront (readCopies r.size r.frontOffset m.length).2).setSize
        (r.elementSize + (2 ^ 64 - 1)) := by
  unfold pop at h
  split at h
  · cases h
  · rename_i hempty
    rcases bind_ok.1 h with ⟨⟨r₁, res₁⟩, hread, hret⟩
    rcases Prod.mk.inj (Except.ok.inj hret) with ⟨hr, rfl⟩
    rw [read_eq_copyAllOut (by simpa using hempty)] at hread
    rcases bind_ok.1 hread with ⟨len, hlength, hread⟩
    rcases bind_ok.1 hread with ⟨_, hpos, hread⟩
    rcases bind_ok.1 hread with ⟨_, hmax, hread⟩
    rcases bind_ok.1 hread with ⟨buf, hcopies, hread⟩
    rcases Prod.mk.inj (Except.ok.inj hread) with ⟨rfl, hbuf⟩
    obtain rfl : buf = m := Option.some.inj hbuf
    have hpos : 0 < len := check_ok.1 hpos
    have hmax : len ≤ kMaxBufferBodyLength := check_ok.1 hmax
    -- the pieces of a message make up its length
    have hlen : buf.length = len.toNat := by
      rw [length_copyAllOut hcopies]
      simp only [readCopies]
      split_ifs
      · simp
      · simp
        omega
      · simp
    have hint : (buf.length : ℤ) = len := by omega
    refine ⟨by rw [hint, hlength], by omega, by omega, ?_, ?_⟩
    · rw [hlen]
      exact hcopies
    · rw [← hr, hlen]
      rfl

theorem push_size {r r' : RingBuffer} {buf : List UInt8} {accepted : Bool}
    (h : r.push buf = .ok (r', accepted)) : r'.size = r.size := by
  rcases bind_ok.1 h with ⟨_, -, h⟩
  split at h
  · cases h
    rfl
  · rcases bind_ok.1 h with ⟨r₁, hwrite, hret⟩
    rcases Prod.mk.inj (Except.ok.inj hret) with ⟨hr, -⟩
    rw [write_eq_copyAllIn] at hwrite
    rcases bind_ok.1 hwrite with ⟨_, -, hwrite⟩
    rcases bind_ok.1 hwrite with ⟨r₂, hcopies, hback⟩
    rw [← hr, setSize_size, ← Except.ok.inj hback]
    show r₂.size = r.size
    rw [copyAllIn_eq hcopies]

/-- No call changes the region. -/
theorem run_size {r r' : RingBuffer} {ops : List (Fifo.Op (List UInt8))}
    {outs : List (Fifo.Out (List UInt8))} (h : Machine.run apply r ops = .ok (r', outs)) :
    r'.size = r.size := by
  have hall : Machine.Guarded apply (fun _ _ => True) r ops :=
    Machine.Guarded.of_forall (fun _ _ _ => trivial) r
  refine Machine.inv_of_run (fun r' => r'.size = r.size) ?_ rfl hall h
  intro r₁ op r₂ out hsize _ hop
  cases op with
  | push buf =>
    rcases bind_ok.1 hop with ⟨⟨r₃, accepted⟩, hpush, hret⟩
    rcases Prod.mk.inj (Except.ok.inj hret) with ⟨rfl, -⟩
    exact (push_size hpush).trans hsize
  | pop =>
    rcases bind_ok.1 hop with ⟨⟨r₃, res⟩, hpop, hret⟩
    rcases Prod.mk.inj (Except.ok.inj hret) with ⟨rfl, -⟩
    cases res with
    | none =>
      rw [(pop_none_inv hpop).1]
      exact hsize
    | some m =>
      rcases pop_some_inv hpop with ⟨-, -, -, -, rfl⟩
      exact hsize

/-- The length bytes are those of the length they are read as. -/
theorem intBytes_intOfBytes {bytes : List UInt8} {n : ℕ} (hlen : bytes.length = 4)
    (hlt : n < 2 ^ 31) (h : intOfBytes bytes = n) : bytes = intBytes n := by
  obtain ⟨a, b, c, d, rfl⟩ : ∃ a b c d, bytes = [a, b, c, d] := by
    rcases bytes with _ | ⟨a, _ | ⟨b, _ | ⟨c, _ | ⟨d, _ | ⟨e, bytes⟩⟩⟩⟩⟩
    case cons.cons.cons.cons.nil => exact ⟨a, b, c, d, rfl⟩
    all_goals simp at hlen
  have ha := a.toNat_lt
  have hb := b.toNat_lt
  have hc := c.toNat_lt
  have hd := d.toNat_lt
  simp only [intOfBytes, List.foldr_cons, List.foldr_nil, toInt, Int.bmod_def] at h
  -- four bytes with this value are the digits of the length
  have hvalue : n = a.toNat + 2 ^ 8 * (b.toNat + 2 ^ 8 * (c.toNat + 2 ^ 8 * d.toNat)) := by
    split at h <;> omega
  have hbyte : ∀ {x : UInt8} {k : ℕ}, k % 2 ^ 8 = x.toNat → UInt8.ofNat k = x := by
    intro x k hk
    rw [← UInt8.toNat_inj, UInt8.toNat_ofNat', hk]
  unfold intBytes
  rw [hbyte (show n % 2 ^ 8 = a.toNat by omega), hbyte (show n / 2 ^ 8 % 2 ^ 8 = b.toNat by omega),
    hbyte (show n / 2 ^ 16 % 2 ^ 8 = c.toNat by omega),
    hbyte (show n / 2 ^ 24 % 2 ^ 8 = d.toNat by omega)]

/-- A message whose length does not wrap is read from its record. -/
theorem pop_record {r r' : RingBuffer} {m : List UInt8} (h : r.pop = .ok (r', some m))
    (hfits : r.frontOffset + 4 ≤ r.size) (hroom : 4 + m.length < r.size) :
    getCyc r.size r.mem r.frontOffset (4 + m.length) = encode m ∧
      (readCopies r.size r.frontOffset m.length).2 =
        adv r.size r.frontOffset (4 + m.length) := by
  rcases pop_some_inv h with ⟨hlength, hmax, hpos, hcopies, -⟩
  have hk : kBufferHeaderLength = 4 := rfl
  have hadv : adv r.size r.frontOffset 4 = r.frontOffset + 4 := if_pos hfits
  rw [nextBufferLength_eq_copyAllOut] at hlength
  rcases bind_ok.1 hlength with ⟨_, -, hlength⟩
  rcases bind_ok.1 hlength with ⟨len, hlen, hvalue⟩
  rw [lengthCopies, hk, if_pos hfits] at hlen
  rcases bind_ok.1 hlen with ⟨bytes, hcopy, hlen⟩
  obtain rfl : bytes = len := Except.ok.inj hlen
  have hheader : get r.mem r.frontOffset 4 = intBytes m.length := by
    rw [copyOut_ok hfits] at hcopy
    have hvalue := Except.ok.inj hvalue
    rw [← Except.ok.inj hcopy] at hvalue
    refine intBytes_intOfBytes (length_get _ _ _) ?_ hvalue
    unfold kMaxBufferBodyLength at hmax
    omega
  have hbody : getCyc r.size r.mem (r.frontOffset + 4) m.length = m := by
    simp only [readCopies, hk, if_neg (show ¬ r.size < r.frontOffset + 4 by omega)] at hcopies
    split at hcopies
    · -- the message wraps
      rcases bind_ok.1 hcopies with ⟨tail, htail, hcopies⟩
      rcases bind_ok.1 hcopies with ⟨rest, hrest, hcopies⟩
      rw [copyOut_ok (by omega)] at htail hrest
      rw [← get_append_get_eq_getCyc hfits (by omega) (by omega), Except.ok.inj htail,
        Except.ok.inj hrest]
      exact Except.ok.inj hcopies
    · rcases bind_ok.1 hcopies with ⟨buf, hbuf, hcopies⟩
      rw [copyOut_ok (by omega)] at hbuf
      rw [getCyc_eq_get (by omega), Except.ok.inj hbuf]
      exact Except.ok.inj hcopies
  constructor
  · rw [getCyc_append (by omega) hroom.le, hadv, hbody, getCyc_eq_get hfits, hheader]
    rfl
  · simp only [readCopies, adv]
    split_ifs <;> simp only [] <;> omega

/-! ## What is read -/

/-- Messages read in a part of the region that does not reach its end, whatever it holds,
bring the front to the back. -/
theorem reads_short {r : RingBuffer} {ms : List (List UInt8)} (h : reads r ms = true)
    (hshort : r.frontOffset + (records ms).length ≤ r.size) :
    r.backOffset = r.frontOffset + (records ms).length := by
  induction ms generalizing r with
  | nil =>
    rcases reads_nil.1 h with ⟨r', hpop⟩
    exact (pop_none_inv hpop).2.symm
  | cons m ms ih =>
    rcases reads_cons.1 h with ⟨r', hpop, hrest⟩
    rcases pop_some_inv hpop with ⟨-, -, -, -, rfl⟩
    have hlen : (records (m :: ms)).length = 4 + m.length + (records ms).length := by simp
    rw [hlen] at hshort ⊢
    have hk : kBufferHeaderLength = 4 := rfl
    -- no record goes around the end
    have hnext : (readCopies r.size r.frontOffset m.length).2 = r.frontOffset + 4 + m.length := by
      simp only [readCopies]
      rw [if_neg (by omega), if_neg (by omega), hk]
    have hlater : _ = (readCopies r.size r.frontOffset m.length).2 + _ := ih hrest (by
      show (readCopies r.size r.frontOffset m.length).2 + (records ms).length ≤ r.size
      omega)
    have hback : r.backOffset = _ := hlater
    omega

/-- Messages of less than a turn leave the front at most once around. It falls short by the
one message whose length wraps. -/
theorem reads_reach {r : RingBuffer} {ms : List (List UInt8)} (h : reads r ms = true)
    (hle : r.frontOffset ≤ r.size) (hlt : (records ms).length < r.size) :
    r.backOffset = r.frontOffset + (records ms).length ∨
      ∃ n, r.backOffset + r.size + n = r.frontOffset + (records ms).length := by
  induction ms generalizing r with
  | nil =>
    rcases reads_nil.1 h with ⟨r', hpop⟩
    exact .inl (pop_none_inv hpop).2.symm
  | cons m ms ih =>
    rcases reads_cons.1 h with ⟨r', hpop, hrest⟩
    rcases pop_some_inv hpop with ⟨-, -, -, -, hr⟩
    have hsize : r'.size = r.size := by rw [hr, setSize_size]; rfl
    have hback : r'.backOffset = r.backOffset := by rw [hr, setSize_backOffset]; rfl
    have hfront : r'.frontOffset = (readCopies r.size r.frontOffset m.length).2 := by
      rw [hr, setSize_frontOffset]
      rfl
    have hlen : (records (m :: ms)).length = 4 + m.length + (records ms).length := by simp
    have hk : kBufferHeaderLength = 4 := rfl
    rw [hlen] at hlt ⊢
    simp only [readCopies, hk] at hfront
    split_ifs at hfront with hheader hbody
    · -- the length itself goes around: from there on all is in front
      have hshort := reads_short hrest (by omega)
      exact .inr ⟨m.length, by omega⟩
    · -- the body goes around
      have hshort := reads_short hrest (by omega)
      exact .inr ⟨0, by omega⟩
    · -- this record does not, but a later one may
      rcases ih hrest (by omega) (by omega) with hstraight | ⟨n, hround⟩
      · exact .inl (by omega)
      · exact .inr ⟨n, by omega⟩

/-- Messages that are read between the front and the back of a ring are stored there, and
none of their lengths wraps. -/
theorem stores_of_reads {r : RingBuffer} {ms : List (List UInt8)} (h : reads r ms = true)
    (hle : r.frontOffset ≤ r.size) (hback : r.backOffset = adv r.size r.frontOffset
      (records ms).length) (hlt : (records ms).length < r.size) :
    Stores r ms ∧ LengthsFit r.size r.frontOffset ms := by
  induction ms generalizing r with
  | nil => exact ⟨⟨hle, hback, hlt, rfl, by simp⟩, trivial⟩
  | cons m ms ih =>
    rcases reads_cons.1 h with ⟨r', hpop, hrest⟩
    rcases pop_some_inv hpop with ⟨-, hmax, hpos, -, rfl⟩
    have hlen : (records (m :: ms)).length = 4 + m.length + (records ms).length := by simp
    have hk : kBufferHeaderLength = 4 := rfl
    rw [hlen] at hback hlt
    by_cases hfits : r.frontOffset + 4 ≤ r.size
    · rcases pop_record hpop hfits (by omega) with ⟨hrecord, hnext⟩
      rw [hnext] at hrest
      obtain ⟨hstores, hlater⟩ := ih hrest (adv_le hle (by omega))
        (hback.trans (adv_adv hle hlt).symm) (by show _ < r.size; omega)
      have hbytes : getCyc r.size r.mem (adv r.size r.frontOffset (4 + m.length))
          (records ms).length = records ms := hstores.bytes
      refine ⟨⟨hle, ?_, ?_, ?_, ?_⟩, hfits, hlater⟩
      · rw [hlen]
        exact hback
      · rw [hlen]
        exact hlt
      · rw [hlen, getCyc_append hle hlt.le, hrecord, hbytes, records_cons]
      · intro m' hm'
        rcases List.mem_cons.1 hm' with rfl | hm'
        · exact ⟨hpos, hmax⟩
        · exact hstores.body m' hm'
    · -- the front is left short of the record by the message, and stays so
      exfalso
      have hnext : (readCopies r.size r.frontOffset m.length).2 =
          r.frontOffset + 4 - r.size := by
        simp only [readCopies, hk]
        rw [if_pos (by omega)]
      rw [hnext] at hrest
      unfold adv at hback
      rw [if_neg (by omega)] at hback
      have hreach : r.backOffset = r.frontOffset + 4 - r.size + (records ms).length := by
        refine reads_short hrest ?_
        show r.frontOffset + 4 - r.size + _ ≤ r.size
        omega
      omega

/-- The messages in a ring are read back, all of them and no others, just when none of
their lengths wraps. -/
theorem reads_iff {r : RingBuffer} {ms : List (List UInt8)} (h : Stores r ms) :
    reads r ms = true ↔ LengthsFit r.size r.frontOffset ms := by
  refine ⟨fun hreads => (stores_of_reads hreads h.front_le h.back h.room).2, fun hlengths => ?_⟩
  induction ms generalizing r with
  | nil =>
    refine reads_nil.2 ⟨r, ?_⟩
    rw [pop, if_pos (h.empty_iff.2 rfl)]
  | cons m ms ih =>
    rcases h.pop with ⟨hpop, htail⟩
    rcases hlengths with ⟨hfits, hlater⟩
    have hnext : r.frontAfter m.length = adv r.size r.frontOffset (4 + m.length) := if_pos hfits
    rw [← hnext] at hlater
    refine reads_cons.2 ⟨_, hpop, ih ((htail hfits).setSize _) ?_⟩
    rw [setSize_size, setSize_frontOffset]
    exact hlater

/-- All but the last of the messages in a ring are not all that is read. -/
theorem not_reads_init {r : RingBuffer} {m : List UInt8} {ms : List (List UInt8)}
    (h : Stores r (ms ++ [m])) : reads r ms = false := by
  rw [← Bool.not_eq_true]
  intro hreads
  have hlen : (records (ms ++ [m])).length = (records ms).length + (4 + m.length) := by
    simp [records_append]
  have hle := h.front_le
  have hroom := h.room
  have hback := h.back
  rw [hlen] at hroom hback
  unfold adv at hback
  rcases reads_reach hreads hle (by omega) with hstraight | ⟨n, hround⟩
  all_goals split at hback <;> omega

/-- One more message in front is not read. -/
theorem not_reads_cons {r : RingBuffer} {m : List UInt8} {ms : List (List UInt8)}
    (h : Stores r ms) (hlt : (records (m :: ms)).length < r.size) : reads r (m :: ms) = false := by
  rw [← Bool.not_eq_true]
  intro hreads
  induction ms generalizing r m with
  | nil =>
    rcases reads_cons.1 hreads with ⟨r', hpop, -⟩
    rw [pop, if_pos (h.empty_iff.2 rfl)] at hpop
    cases hpop
  | cons m' ms ih =>
    rcases reads_cons.1 hreads with ⟨r', hpop', hrest⟩
    rcases h.pop with ⟨hpop, htail⟩
    rcases Prod.mk.inj (Except.ok.inj (hpop.symm.trans hpop')) with ⟨rfl, -⟩
    rcases h.head with ⟨-, hroom⟩
    have hlen : (records (m' :: ms)).length = 4 + m'.length + (records ms).length := by simp
    by_cases hfits : r.frontOffset + 4 ≤ r.size
    · exact ih ((htail hfits).setSize _) (by rw [hlen]; exact hroom) hrest
    · -- what is left to read ends behind the back
      have hnext : r.frontAfter m'.length = r.frontOffset + 4 - r.size := by
        unfold frontAfter adv
        rw [if_neg hfits, if_neg hfits]
      have hle := h.front_le
      have hback := h.back
      rw [hlen] at hback
      unfold adv at hback
      rw [if_neg (by omega)] at hback
      have hreach := reads_reach hrest (by show r.frontAfter m'.length ≤ r.size; omega)
        (by rw [hlen]; exact hroom)
      rw [setSize_frontOffset, setSize_backOffset, setSize_size, hlen] at hreach
      have hreach : r.backOffset = r.frontAfter m'.length + (4 + m'.length + (records ms).length) ∨
          ∃ n, r.backOffset + r.size + n =
            r.frontAfter m'.length + (4 + m'.length + (records ms).length) := hreach
      rcases hreach with hstraight | ⟨n, hround⟩ <;> omega

end FxServer.RingBuffer
