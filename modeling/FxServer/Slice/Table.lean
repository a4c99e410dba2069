import FxServer.Slice.Find

/-!
# FxServer.Slice.Table — the table keeps the search within the pattern

Every entry of the table `next` is a border of the pattern up to there, if not always the longest
one. The search rests on that: behind a mismatch it goes on with a shorter start of the pattern,
which still matches, and it leaves neither the pattern nor the table.

A start that the table follows is alive as long as it goes on like the pattern, and an entry is
how far the first one alive has come. So the entries grow as far as something that is followed
goes on, and there an `int` may overflow.

* `TableTo.longest` — the table follows what begins as the pattern does, and misses some of it.
* `table_sound_iff` — the table is sound if and only if nothing that it follows is too long for an
  `int`.
* `replicate_overflows` — the same character, `2^31 + 2` times.
-/

namespace FxServer.Slice

open Border

variable {p buf : List UInt8} {t : Failure} {c : Option UInt8} {n b i m r s pos base : ℕ}

/-! ## The starts that are followed -/

/-- The table follows what begins at `s` as the pattern does, unless the last of what it follows
up to there begins just before `s` or does not go on with the character at `s`. -/
def Followed (p : List UInt8) (s : ℕ) : Prop :=
  2 ≤ s ∧ s < p.length ∧ p[s]? = p[0]? ∧
    ∀ r (_ : r < s), Followed p r → Matches p p r (s - r) →
      (∀ q (_ : q < s), r < q → Followed p q → ¬ Matches p p q (s - q)) →
      r + 1 ≠ s ∧ p[s - r]? = p[s]?
termination_by s

/-- Nothing that is followed goes on like the pattern for more characters than an `int` counts. -/
def Fits (p : List UInt8) : Prop := ∀ s, Followed p s → ¬ Matches p p s (2 ^ 31)

/-- What begins at `s` is followed, and goes on like the pattern up to `n`. -/
def Alive (p : List UInt8) (n s : ℕ) : Prop := s < n ∧ Followed p s ∧ Matches p p s (n - s)

theorem followed_iff : Followed p s ↔ 2 ≤ s ∧ s < p.length ∧ p[s]? = p[0]? ∧
    ∀ r, Alive p s r → (∀ q, r < q → ¬ Alive p s q) → r + 1 ≠ s ∧ p[s - r]? = p[s]? := by
  rw [Followed]
  refine and_congr_right fun _ => and_congr_right fun _ => and_congr_right fun _ => ?_
  constructor
  · rintro h r ⟨hlt, hr, hmatch⟩ hlast
    exact h r hlt hr hmatch fun q hq hrq hq' hmatch' => hlast q hrq ⟨hq, hq', hmatch'⟩
  · intro h r hlt hr hmatch hlast
    exact h r ⟨hlt, hr, hmatch⟩ fun q hrq hq => hlast q hq.1 hrq hq.2.1 hq.2.2

theorem Followed.two_le (h : Followed p s) : 2 ≤ s := (followed_iff.1 h).1

/-- What matches ends within the pattern. -/
theorem Followed.add_le (h : Followed p s) (hmatch : Matches p p s n) : s + n ≤ p.length := by
  rcases followed_iff.1 h with ⟨htwo, hlt, -⟩
  by_contra hlong
  have hend := hmatch (p.length - s) (by omega)
  rw [Nat.add_sub_cancel' hlt.le, List.getElem?_eq_none (Nat.le_refl _),
    List.getElem?_eq_none_iff] at hend
  omega

/-- A followed start is alive as long as it matches. -/
theorem Followed.alive (h : Followed p s) (hmatch : Matches p p s n) (hn : 0 < n) :
    Alive p (s + n) s := by
  refine ⟨by omega, h, ?_⟩
  rwa [Nat.add_sub_cancel_left]

/-- Of the starts alive there is a last one. -/
theorem exists_last (h : Alive p n r) : ∃ q, Alive p n q ∧ ∀ q', q < q' → ¬ Alive p n q' := by
  classical
  refine ⟨Nat.findGreatest (Alive p n) n, Nat.findGreatest_spec h.1.le h, fun q' hlt hq' => ?_⟩
  exact Nat.findGreatest_is_greatest hlt hq'.1.le hq'

/-- What is alive one letter further on was alive and matches, or starts there. -/
theorem alive_succ :
    Alive p (n + 1) s ↔ Alive p n s ∧ p[n - s]? = p[n]? ∨ s = n ∧ Followed p n := by
  unfold Alive
  rcases Nat.lt_trichotomy s n with hlt | rfl | hgt
  · -- a start before `n` has one letter more to match
    rw [Nat.succ_sub hlt.le, matches_succ, Nat.add_sub_cancel' hlt.le]
    constructor
    · rintro ⟨-, hs, hmatch, hc⟩
      exact .inl ⟨⟨hlt, hs, hmatch⟩, hc⟩
    · rintro (⟨⟨-, hs, hmatch⟩, hc⟩ | ⟨rfl, -⟩)
      · exact ⟨by omega, hs, hmatch, hc⟩
      · exact absurd hlt (Nat.lt_irrefl _)
  · constructor
    · rintro ⟨-, hs, -⟩
      exact .inr ⟨rfl, hs⟩
    · rintro (⟨⟨hlt, -⟩, -⟩ | ⟨-, hs⟩)
      · exact absurd hlt (Nat.lt_irrefl _)
      · -- the one at `n` has its first letter to match
        refine ⟨Nat.lt_succ_self _, hs, ?_⟩
        rw [Nat.add_sub_cancel_left]
        exact matches_succ.2 ⟨matches_zero, (followed_iff.1 hs).2.2.1.symm⟩
  · constructor
    · rintro ⟨hlt, -⟩
      omega
    · rintro (⟨⟨hlt, -⟩, -⟩ | ⟨rfl, -⟩) <;> omega

/-- Inside a match the starts alive are those of the matched prefix. -/
theorem alive_add_iff (hmatch : Matches p p r n)
    (hsame : b < n → (Followed p (r + b) ↔ Followed p b)) :
    Alive p (r + n) (r + b) ↔ Alive p n b := by
  unfold Alive
  rw [Nat.add_lt_add_iff_left, Nat.add_sub_add_left]
  refine and_congr_right fun hlt => ?_
  rw [hsame hlt, hmatch.add_iff (by omega)]

/-- Within what is followed the same is followed as within the pattern. -/
theorem followed_add (hr : Followed p r) (hmatch : Matches p p r (b + 1)) (hb : 0 < b) :
    Followed p (r + b) ↔ Followed p b := by
  induction b using Nat.strong_induction_on with
  | _ b ih =>
    have hsame : p[b]? = p[r + b]? := hmatch b (Nat.lt_succ_self b)
    have hwithin := hr.add_le hmatch
    have hbefore : Matches p p r b := hmatch.mono (Nat.le_succ b)
    have hself : Alive p (r + b) r := hr.alive hbefore hb
    have halive : ∀ q, 0 < q → (Alive p (r + b) (r + q) ↔ Alive p b q) := fun q hq =>
      alive_add_iff hbefore fun hlt => ih q hlt (hmatch.mono (by omega)) hq
    constructor
    · intro h
      rcases followed_iff.1 h with ⟨-, -, hfirst, hlast⟩
      -- were it the next character, what begins at `r` would keep it from being followed
      have htwo : 2 ≤ b := by
        rcases exists_last hself with ⟨q, hq, hmax⟩
        have hrq : r ≤ q := Nat.not_lt.1 fun hlt => hmax r hlt hself
        have hne := (hlast q hq hmax).1
        have hlt := hq.1
        omega
      refine followed_iff.2 ⟨htwo, by omega, hsame.trans hfirst, fun q hq hmax => ?_⟩
      have hpos : 0 < q := Nat.lt_of_lt_of_le Nat.zero_lt_two hq.2.1.two_le
      have hq' := hlast (r + q) ((halive q hpos).2 hq) fun q' hlt hq' => by
        obtain ⟨d, rfl⟩ := Nat.exists_eq_add_of_le (show r ≤ q' by omega)
        exact hmax d (by omega) ((halive d (by omega)).1 hq')
      rw [Nat.add_sub_add_left, ← hsame] at hq'
      exact ⟨by omega, hq'.2⟩
    · intro h
      rcases followed_iff.1 h with ⟨htwo, -, hfirst, hlast⟩
      refine followed_iff.2 ⟨by omega, by omega, hsame.symm.trans hfirst, fun q hq hmax => ?_⟩
      -- the last one begins at `r`, or within what begins there
      have hrq : r ≤ q := Nat.not_lt.1 fun hlt => hmax r hlt hself
      obtain ⟨d, rfl⟩ := Nat.exists_eq_add_of_le hrq
      rw [Nat.add_sub_add_left, ← hsame]
      rcases Nat.eq_zero_or_pos d with rfl | hpos
      · exact ⟨by omega, rfl⟩
      · have hd := hlast d ((halive d hpos).1 hq) fun q' hlt hq' =>
          hmax (r + q') (by omega) ((halive q' (by omega)).2 hq')
        exact ⟨by omega, hd.2⟩

theorem alive_add (hr : Followed p r) (hmatch : Matches p p r n) (hb : 0 < b) :
    Alive p (r + n) (r + b) ↔ Alive p n b :=
  alive_add_iff hmatch fun hlt => followed_add hr (hmatch.mono hlt) hb

/-! ## The table follows them -/

/-- The first of what is followed up to `n` has matched `b` characters; for `b = 0` nothing is. -/
structure Longest (p : List UInt8) (n b : ℕ) : Prop where
  /-- the characters are those of something that is followed -/
  alive : b ≠ 0 → ∃ s, Alive p n s ∧ s + b = n
  /-- and nothing that is followed has matched more -/
  le : ∀ s, Alive p n s → n ≤ s + b

/-- The loop falls back from what begins at `r` to the next that goes on with `c`. -/
theorem fall_longest (hentries : ∀ k < base, Longest p (k + 1) (t.next k)) (hr : Followed p r)
    (hmatch : Matches p p r base) (hn : r + base = n) :
    (fall p t c base ≠ 0 →
      ∃ s, Alive p n s ∧ s + fall p t c base = n ∧ p[fall p t c base]? = c) ∧
    ∀ s, r ≤ s → Alive p n s → p[n - s]? = c → n ≤ s + fall p t c base := by
  induction base using Nat.strong_induction_on generalizing r with
  | _ base ih =>
    subst hn
    have hle := t.le (base - 1)
    rw [fall_eq]
    split_ifs with hc hzero
    · refine ⟨fun hne => ⟨r, hr.alive hmatch (Nat.pos_of_ne_zero hne), rfl, hc.symm⟩, ?_⟩
      intro s hrs _ _
      omega
    all_goals
      -- what begins at `r` does not go on with `c`
      have hlater : ∀ s, r ≤ s → Alive p (r + base) s → p[r + base - s]? = c →
          ∃ d, 0 < d ∧ s = r + d ∧ Alive p base d := fun s hrs hs hsc => by
        obtain ⟨d, rfl⟩ := Nat.exists_eq_add_of_le hrs
        rcases Nat.eq_zero_or_pos d with rfl | hpos
        · rw [Nat.add_zero, Nat.add_sub_cancel_left] at hsc
          exact absurd hsc.symm hc
        · exact ⟨d, hpos, rfl, (alive_add hr hmatch hpos).1 hs⟩
    · refine ⟨fun hne => absurd rfl hne, fun s hrs hs hsc => ?_⟩
      rcases hlater s hrs hs hsc with ⟨d, hpos, rfl, hd⟩
      have hlt := hd.1
      have hnext := (hentries (base - 1) (by omega)).le
      rw [Nat.sub_add_cancel (by omega)] at hnext
      have hge := hnext d hd
      omega
    · have hlongest := hentries (base - 1) (by omega)
      rw [Nat.sub_add_cancel (by omega)] at hlongest
      rcases hlongest.alive hzero with ⟨d, hd, hsum⟩
      have hd' := (alive_add hr hmatch (Nat.lt_of_lt_of_le Nat.zero_lt_two hd.2.1.two_le)).2 hd
      have hrest : Matches p p (r + d) (t.next (base - 1)) := by
        rw [show t.next (base - 1) = r + base - (r + d) by omega]
        exact hd'.2.2
      rcases ih (t.next (base - 1)) (by omega) (fun k hk => hentries k (by omega)) hd'.2.1 hrest
        (by omega) with ⟨halive, hmax⟩
      refine ⟨halive, fun s hrs hs hsc => ?_⟩
      rcases hlater s hrs hs hsc with ⟨d', -, rfl, hs'⟩
      have hge := hlongest.le d' hs'
      exact hmax _ (by omega) hs hsc

/-- Where nothing is followed, what begins at `pos` is. -/
theorem Longest.succ_first (h : Longest p pos 0) (hlarge : 2 ≤ pos) (hlt : pos < p.length) :
    Longest p (pos + 1) (if p[pos]? = p[0]? then 1 else 0) := by
  have hnone : ∀ s, ¬ Alive p pos s := fun s hs => by
    have hge := h.le s hs
    have hs' := hs.1
    omega
  split_ifs with hfirst
  · -- nothing is alive, so the position itself is followed if the letter fits
    have hnew : Followed p pos :=
      followed_iff.2 ⟨hlarge, hlt, hfirst, fun r hr => absurd hr (hnone r)⟩
    refine ⟨fun _ => ⟨pos, alive_succ.2 (.inr ⟨rfl, hnew⟩), rfl⟩, fun s hs => ?_⟩
    rcases alive_succ.1 hs with ⟨hs, -⟩ | ⟨rfl, -⟩
    · exact absurd hs (hnone s)
    · exact Nat.le_refl _
  · refine ⟨fun hne => absurd rfl hne, fun s hs => ?_⟩
    rcases alive_succ.1 hs with ⟨hs, -⟩ | ⟨-, hs⟩
    · exact absurd hs (hnone s)
    · exact absurd (followed_iff.1 hs).2.2.1 hfirst

/-- Where something is followed, the first of it that goes on is the longest. -/
theorem Longest.succ_fall (h : Longest p pos base) (hbase : base ≠ 0)
    (hentries : ∀ k < base, Longest p (k + 1) (t.next k)) :
    Longest p (pos + 1)
      (if fall p t p[pos]? base = 0 then 0 else fall p t p[pos]? base + 1) := by
  rcases h.alive hbase with ⟨r, hr, hsum⟩
  have hmatch : Matches p p r base := by
    rw [show base = pos - r by omega]
    exact hr.2.2
  obtain ⟨halive, hmax⟩ := fall_longest (c := p[pos]?) hentries hr.2.1 hmatch hsum
  have hfirst : ∀ s, Alive p pos s → r ≤ s := fun s hs => by
    have hge := h.le s hs
    omega
  split_ifs with hzero
  · refine ⟨fun hne => absurd rfl hne, fun s hs => ?_⟩
    rw [hzero] at hmax
    rcases alive_succ.1 hs with ⟨hs, hc⟩ | ⟨-, hs⟩
    · have hge := hmax s (hfirst s hs) hs hc
      have hs' := hs.1
      omega
    · -- what begins at `pos` is followed only if the last before it goes on
      rcases exists_last hr with ⟨q, hq, hlast⟩
      have hc := ((followed_iff.1 hs).2.2.2 q hq hlast).2
      have hge := hmax q (hfirst q hq) hq hc
      have hq' := hq.1
      omega
  · constructor
    · intro _
      rcases halive hzero with ⟨s, hs, hend, hc⟩
      refine ⟨s, alive_succ.2 (.inl ⟨hs, ?_⟩), by omega⟩
      rw [← hc, show pos - s = fall p t p[pos]? base by omega]
    · intro s hs
      rcases alive_succ.1 hs with ⟨hs, hc⟩ | ⟨rfl, -⟩
      · have hge := hmax s (hfirst s hs) hs hc
        omega
      · omega

/-- An entry is the length of the longest match that is followed. -/
theorem TableTo.longest (h : TableTo p t n) (hpos : pos < n) (hlt : pos < p.length) :
    Longest p (pos + 1) (t.next pos) := by
  induction pos using Nat.strong_induction_on with
  | _ pos ih =>
    rcases Nat.lt_or_ge pos 2 with hsmall | hlarge
    · refine ⟨fun hne => absurd (h.next_small hsmall) hne, fun s hs => ?_⟩
      have htwo := hs.2.1.two_le
      have hs' := hs.1
      omega
    · have hprev := ih (pos - 1) (by omega) (by omega) (by omega)
      have hle := t.le (pos - 1)
      rw [Nat.sub_add_cancel (by omega)] at hprev
      rw [h.entries pos hlarge hpos, entry]
      by_cases hbase : t.next (pos - 1) = 0
      · rw [if_pos hbase]
        rw [hbase] at hprev
        -- the loop begins again from the first letter
        exact hprev.succ_first hlarge hlt
      · rw [if_neg hbase]
        -- or falls back from the last start that it follows
        exact hprev.succ_fall hbase fun k hk => ih k (by omega) (by omega) (by omega)

/-- The table can be built exactly when the pattern fits. -/
theorem failure_isOk_iff : (∃ t, failure p = .ok t) ↔ Fits p := by
  constructor
  · rintro ⟨t, hok⟩ s hs hmatch
    rcases failure_inv hok with ⟨htable, hlt⟩
    have hwithin := hs.add_le hmatch
    have hlongest := htable.longest (show s + (2 ^ 31 - 1) < p.length by omega) (by omega)
    have hle := hlongest.le s (hs.alive hmatch (Nat.two_pow_pos 31))
    have hint := hlt (s + (2 ^ 31 - 1)) (by omega)
    omega
  · intro hfits
    refine failure_isOk fun t i hi htable => ?_
    by_contra hlarge
    rcases (htable.longest (Nat.lt_succ_self i) hi).alive (by omega) with ⟨s, hs, hsum⟩
    exact hfits s hs.2.1 (hs.2.2.mono (by omega))

/-- Short patterns fit. -/
theorem fits_of_length_le (h : p.length ≤ 2 ^ 31 + 1) : Fits p := by
  intro s hs hmatch
  have htwo := hs.two_le
  have hwithin := hs.add_le hmatch
  omega

/-! ## The states of the search -/

/-- The search comes to the condition of its loop with `m` and `i`. -/
inductive Visits (buf p : List UInt8) (t : Failure) : ℕ → ℕ → Prop
  | start : Visits buf p t 0 0
  | next {m i : ℕ} (h : Visits buf p t m i) (hm : m + i < buf.length)
      (hc : charAt p i = .ok buf[m + i]) (hend : i + 1 ≠ p.length) : Visits buf p t m (i + 1)
  | shift {m i : ℕ} {c : UInt8} (h : Visits buf p t m i) (hm : m + i < buf.length)
      (hc : charAt p i = .ok c) (hne : buf[m + i] ≠ c) (hi : i = 0) : Visits buf p t (m + 1) i
  | fall {m i : ℕ} {c : UInt8} (h : Visits buf p t m i) (hm : m + i < buf.length)
      (hc : charAt p i = .ok c) (hne : buf[m + i] ≠ c) (hi : i ≠ 0) :
      Visits buf p t (m + (i - t.next (i - 1))) (t.next (i - 1))

/-- The search of `buf` reads `p` and `next` within the pattern, keeps what it has matched, and
ends, at the end of the slice or of the pattern. -/
structure Searches (buf p : List UInt8) (t : Failure) : Prop where
  /-- the search reads the pattern within its bounds -/
  within : ∀ m i, Visits buf p t m i → i < p.length
  /-- what it takes for matched matches -/
  matched : ∀ m i, Visits buf p t m i → Matches p buf m i
  /-- and it comes to an end -/
  ends : ∃ m i, Visits buf p t m i ∧
    (buf.length ≤ m + i ∧ search buf p t 0 0 = .ok (m, i) ∨
      i + 1 = p.length ∧ Matches p buf m (i + 1) ∧ search buf p t 0 0 = .ok (m, i + 1))

/-- Comparing the letters or the positions is the same within both. -/
theorem charAt_same {c : UInt8} (hm : m + i < buf.length) (hi : i < p.length)
    (hc : charAt p i = .ok c) : buf[m + i]? = p[i]? ↔ buf[m + i] = c := by
  rw [charAt_eq hi, Except.ok.injEq] at hc
  rw [List.getElem?_eq_getElem hm, List.getElem?_eq_getElem hi, hc, Option.some_inj]

/-- What holds of every state, by the borders in the table. -/
theorem Visits.inv (htable : TableTo p t p.length) (hp : p ≠ []) (h : Visits buf p t m i) :
    i < p.length ∧ Matches p buf m i ∧ search buf p t 0 0 = search buf p t m i := by
  induction h with
  | start => exact ⟨List.length_pos_of_ne_nil hp, matches_zero, rfl⟩
  | @next m i _ hm hc hend ih =>
    rcases ih with ⟨hi, hmatch, hsearch⟩
    -- one letter more of the pattern
    have hsame := (charAt_same hm hi hc).2 rfl
    refine ⟨by omega, matches_succ.2 ⟨hmatch, hsame.symm⟩, ?_⟩
    rw [hsearch, search_eq hm hi, if_pos hsame, if_neg hend]
  | @shift m i c _ hm hc hne hzero ih =>
    rcases ih with ⟨hi, -, hsearch⟩
    subst hzero
    -- no letter matched: the next start
    have hdiffer := mt (charAt_same hm hi hc).1 hne
    refine ⟨hi, matches_zero, ?_⟩
    rw [hsearch, search_eq hm hi, if_neg hdiffer, if_pos rfl]
  | @fall m i c _ hm hc hne hpos ih =>
    rcases ih with ⟨hi, hmatch, hsearch⟩
    have hdiffer := mt (charAt_same hm hi hc).1 hne
    -- what has matched has the border of the table matched as well
    have hborder : IsBorder p (i - 1 + 1) (t.next (i - 1)) := htable.isBorder (by omega)
    rw [Nat.sub_add_cancel (by omega)] at hborder
    refine ⟨hborder.1.trans hi, hmatch.shift hborder, ?_⟩
    rw [hsearch, search_eq hm hi, if_neg hdiffer, if_neg hpos]

/-- From every state the search comes to its end: what is left of the slice grows shorter, or
the part of the pattern that matches does. -/
theorem Visits.ends (htable : TableTo p t p.length) (hp : p ≠ []) (h : Visits buf p t m i) :
    ∃ m' i', Visits buf p t m' i' ∧
      (buf.length ≤ m' + i' ∧ search buf p t 0 0 = .ok (m', i') ∨
        i' + 1 = p.length ∧ Matches p buf m' (i' + 1) ∧
          search buf p t 0 0 = .ok (m', i' + 1)) := by
  -- the measure of `le_search`
  induction hmeasure : 2 * (buf.length - (m + i)) + i using Nat.strong_induction_on
    generalizing m i with
  | _ measure ih =>
    subst hmeasure
    rcases h.inv htable hp with ⟨hi, hmatch, hsearch⟩
    by_cases hm : m + i < buf.length
    · have hc := charAt_eq hi
      by_cases hsame : buf[m + i] = p[i]
      · have hsame' := (charAt_same hm hi hc).2 hsame
        rw [← hsame] at hc
        by_cases hend : i + 1 = p.length
        · refine ⟨m, i, h, .inr ⟨hend, matches_succ.2 ⟨hmatch, hsame'.symm⟩, ?_⟩⟩
          rw [hsearch, search_eq hm hi, if_pos hsame', if_pos hend]
        · exact ih _ (by omega) (h.next hm hc hend) rfl
      · by_cases hzero : i = 0
        · exact ih _ (by omega) (h.shift hm hc hsame hzero) rfl
        · have hle := t.le (i - 1)
          exact ih _ (by omega) (h.fall hm hc hsame hzero) rfl
    · have hlen := Nat.not_lt.1 hm
      exact ⟨m, i, h, .inl ⟨hlen, hsearch.trans (search_of_le hlen)⟩⟩

/-- A table that is right leads the search within bounds. -/
theorem TableTo.searches (htable : TableTo p t p.length) (hp : p ≠ []) (buf : List UInt8) :
    Searches buf p t where
  within _ _ h := (h.inv htable hp).1
  matched _ _ h := (h.inv htable hp).2.1
  ends := Visits.start.ends htable hp

/-! ## The result -/

/-- The table is made, its entries are borders, and every search with it is safe. -/
def Sound (p : List UInt8) : Prop :=
  ∃ t, failure p = .ok t ∧ (∀ k < p.length, IsBorder p (k + 1) (t.next k)) ∧
    ∀ buf, Searches buf p t

/-- A pattern has a table of borders, with which every search stays within its bounds and ends, if
and only if nothing that the table follows is too long for an `int`. -/
theorem table_sound_iff (p : List UInt8) (hp : p ≠ []) : Sound p ↔ Fits p := by
  rw [← failure_isOk_iff]
  constructor
  · rintro ⟨t, hok, -⟩
    exact ⟨t, hok⟩
  · rintro ⟨t, hok⟩
    rcases failure_inv hok with ⟨htable, -⟩
    exact ⟨t, hok, fun k hk => htable.isBorder hk, htable.searches hp⟩

/-- A pattern with a border inside. -/
theorem table_sound_run : Sound [97, 98, 97, 97, 98, 99] :=
  (table_sound_iff _ (by decide)).2 (fits_of_length_le (by decide))

/-- The last entry would be `2^31`, one more than the largest `int`. -/
theorem replicate_overflows : ¬ Sound (List.replicate (2 ^ 31 + 2) 97) := by
  rintro ⟨t, hok, -⟩
  obtain ⟨p, hp⟩ : ∃ p : List UInt8, p = List.replicate (2 ^ 31 + 2) 97 := ⟨_, rfl⟩
  -- the list itself is never computed
  rw [← hp] at hok
  have hlen : p.length = 2 ^ 31 + 2 := by rw [hp, List.length_replicate]
  rcases failure_inv hok with ⟨htable, hlt⟩
  have hconst : p.drop 1 <+: p := by
    rw [hp, List.drop_replicate]
    exact ⟨List.replicate 1 97, List.replicate_append_replicate⟩
  have hlast := htable.constant (Nat.le_refl _) hconst (i := 2 ^ 31) (by omega)
  have hint := hlt (2 ^ 31 + 1) (by omega)
  omega

end FxServer.Slice
