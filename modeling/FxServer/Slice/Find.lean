import FxServer.Border
import FxServer.Slice

/-!
# FxServer.Slice.Find — which patterns `find` finds

An entry of the table `next` should be the longest border of the pattern up to there. Two kinds of
borders of one character are missed: the one of the first two characters, which no turn of the
loop looks at, and the one that is left when the loop has fallen back to the start.

The proof follows the table from its first mistake on. Up to the first border that is missed the
entries are the longest borders. Behind it they are those of the start of the pattern, copied
along, as long as the pattern goes on like its start; where it does not, a text is made on which
the search goes wrong.

* `find_correct_iff` — a pattern is found in every slice, just when it begins again wherever such
  a border is missed.
* `find_skips_match` — `aaab` is not found in `aaaab`.
-/

namespace FxServer.Slice

open Border

variable {p buf : List UInt8} {t t' : Failure} {n pos base q i j m : ℕ}

/-! ## The condition -/

/-- The border of one character that ends behind `q` is missed. -/
def Missed (p : List UInt8) (q : ℕ) : Prop :=
  0 < q ∧ border p (q + 1) = 1 ∧ (q = 1 ∨ border p q ≠ 0)

/-- Wherever a border is missed, the rest of the pattern is a start of the pattern. -/
def Restarts (p : List UInt8) : Prop := ∀ q < p.length, Missed p q → p.drop q <+: p

/-- The entries of the table are `int`s: the borders before the first one missed, and, for one
character over and over, all of them. -/
def Narrow (p : List UInt8) : Prop :=
  (∀ k < p.length, (∀ q ≤ k, ¬ Missed p q) → border p (k + 1) < 2 ^ 31) ∧
    (1 < p.length → Missed p 1 → p.length ≤ 2 ^ 31 + 1)

instance (p : List UInt8) : DecidablePred (Missed p) := fun q =>
  inferInstanceAs (Decidable (0 < q ∧ border p (q + 1) = 1 ∧ (q = 1 ∨ border p q ≠ 0)))

instance : DecidablePred Restarts := fun p =>
  inferInstanceAs (Decidable (∀ q < p.length, Missed p q → p.drop q <+: p))

instance : DecidablePred Narrow := fun p => inferInstanceAs (Decidable (
  (∀ k < p.length, (∀ q ≤ k, ¬ Missed p q) → border p (k + 1) < 2 ^ 31) ∧
    (1 < p.length → Missed p 1 → p.length ≤ 2 ^ 31 + 1)))

/-! ## The table -/

/-- Where the loop that falls back from `base` ends, in a pattern that goes on with `c`. -/
def fall (p : List UInt8) (t : Failure) (c : Option UInt8) (base : ℕ) : ℕ :=
  if c = p[base]? then base
  else if h : t.next (base - 1) = 0 then 0
  else
    have hle : t.next (base - 1) ≤ base - 1 := t.le _
    fall p t c (t.next (base - 1))
termination_by base

/-- The entry for `pos`, from the ones before it. -/
def entry (p : List UInt8) (t : Failure) (pos : ℕ) : ℕ :=
  if t.next (pos - 1) = 0 then if p[pos]? = p[0]? then 1 else 0
  else if fall p t p[pos]? (t.next (pos - 1)) = 0 then 0
  else fall p t p[pos]? (t.next (pos - 1)) + 1

/-- The entries before `n` are the ones that the loop makes. -/
structure TableTo (p : List UInt8) (t : Failure) (n : ℕ) : Prop where
  /-- the loop does not come to the entry of the first two characters -/
  one : t.next 1 = 0
  /-- the others are made from those before -/
  entries : ∀ pos, 2 ≤ pos → pos < n → t.next pos = entry p t pos

theorem next_zero (t : Failure) : t.next 0 = 0 := Nat.le_zero.1 (t.le 0)

theorem failure_ext (h : t.next = t'.next) : t = t' := by
  cases t
  cases t'
  cases h
  rfl

/-- One round of the inner loop. -/
theorem fall_eq (p : List UInt8) (t : Failure) (c : Option UInt8) (base : ℕ) :
    fall p t c base =
      if c = p[base]? then base
      else if t.next (base - 1) = 0 then 0
      else fall p t c (t.next (base - 1)) := by
  rw [fall]
  simp only [dite_eq_ite]

/-- Falling back goes to no later state. -/
theorem fall_le (p : List UInt8) (t : Failure) (c : Option UInt8) (base : ℕ) :
    fall p t c base ≤ base := by
  fun_induction fall p t c base with
  | case1 => exact Nat.le_refl _
  | case2 => exact Nat.zero_le _
  | case3 base hne h hle ih => omega

/-- Only entries before `base` are read. -/
theorem fall_congr (c : Option UInt8) (h : ∀ k < base, t.next k = t'.next k) :
    fall p t c base = fall p t' c base := by
  induction base using Nat.strong_induction_on with
  | _ base ih =>
    have hsame : t.next (base - 1) = t'.next (base - 1) := by
      rcases Nat.eq_zero_or_pos base with rfl | hpos
      · exact (next_zero t).trans (next_zero t').symm
      · exact h (base - 1) (by omega)
    rw [fall_eq p t, fall_eq p t', hsame]
    split_ifs with hc hzero
    · rfl
    · rfl
    · have hle := t'.le (base - 1)
      exact ih _ (by omega) fun k hk => h k (by omega)

/-- The loop that narrows its index, on indices that it does not narrow. -/
theorem fallback_eq (hpos : pos < p.length) (hbase : base < p.length) :
    (fallback p t pos base).map Subtype.val = .ok (fall p t p[pos]? base) := by
  induction base using Nat.strong_induction_on with
  | _ base ih =>
    have hle := t.le (base - 1)
    rw [fallback, fall_eq]
    simp only [charAt_eq hpos, charAt_eq hbase, ok_bind, List.getElem?_eq_getElem hpos,
      List.getElem?_eq_getElem hbase, Option.some_inj]
    split_ifs with hc hin hzero
    · rfl
    · rfl
    · -- the border is shorter, so the loop goes on from there and ends
      have hrest := ih (t.next (base - 1)) (by omega) (by omega)
      rcases map_ok.1 hrest with ⟨r, hr, hval⟩
      rw [List.getElem?_eq_getElem hpos] at hval
      rw [hr, ok_bind]
      exact congrArg _ hval
    · omega
    · omega

/-- No entry points forward. -/
theorem entry_le (hpos : 2 ≤ pos) : entry p t pos ≤ pos := by
  have hfall := fall_le p t p[pos]? (t.next (pos - 1))
  have hle := t.le (pos - 1)
  unfold entry
  split_ifs <;> omega

/-- An entry depends on the ones before it alone. -/
theorem entry_congr (hpos : 2 ≤ pos) (h : ∀ k < pos, t.next k = t'.next k) :
    entry p t pos = entry p t' pos := by
  have hle := t.le (pos - 1)
  have hfall : fall p t p[pos]? (t.next (pos - 1)) = fall p t' p[pos]? (t.next (pos - 1)) :=
    fall_congr _ fun k hk => h k (by omega)
  unfold entry
  rw [hfall, h (pos - 1) (by omega)]

/-- The loop does not come to the first two entries. -/
theorem TableTo.next_small (h : TableTo p t n) (hpos : pos < 2) : t.next pos = 0 := by
  rcases Nat.le_one_iff_eq_zero_or_eq_one.1 (Nat.le_of_lt_succ hpos) with rfl | rfl
  · exact next_zero t
  · exact h.one

/-- The table with the entry for `pos`. -/
def extend (p : List UInt8) (t : Failure) (hpos : 2 ≤ pos) : Failure :=
  t.set pos (entry p t pos) (entry_le hpos)

theorem extend_self (hpos : 2 ≤ pos) : (extend p t hpos).next pos = entry p t pos :=
  Function.update_self ..

theorem extend_ne (hpos : 2 ≤ pos) (hne : i ≠ pos) : (extend p t hpos).next i = t.next i :=
  Function.update_of_ne hne ..

/-- One more entry computed as the code does. -/
theorem TableTo.extend (h : TableTo p t pos) (hpos : 2 ≤ pos) :
    TableTo p (extend p t hpos) (pos + 1) where
  one := (extend_ne hpos (by omega)).trans h.one
  entries i hi hlt := by
    have hbefore : ∀ k < i, t.next k = (Slice.extend p t hpos).next k := fun k hk =>
      (extend_ne hpos (by omega)).symm
    rw [← entry_congr hi hbefore]
    by_cases hip : i = pos
    · subst hip
      exact extend_self hpos
    · rw [extend_ne hpos hip]
      exact h.entries i hi (by omega)

/-- An entry that stays zero needs no write. -/
theorem extend_eq_self (hpos : 2 ≤ pos) (hzero : t.next pos = 0) (hentry : entry p t pos = 0) :
    extend p t hpos = t := by
  have hnext : (extend p t hpos).next = t.next := by
    show Function.update t.next pos (entry p t pos) = t.next
    rw [hentry, ← hzero, Function.update_eq_self]
  exact failure_ext hnext

/-- One turn of the loop makes one entry. -/
theorem buildNext_succ {k : ℕ} (hk : k + 2 < p.length) (hzero : t.next (k + 2) = 0) :
    buildNext p (n + 1) k t =
      if entry p t (k + 2) < 2 ^ 31 then
        buildNext p n (k + 1) (extend p t (Nat.le_add_left 2 k))
      else .error .overflow := by
  have hset : ∀ v h, entry p t (k + 2) = v →
      t.set (k + 2) v h = extend p t (Nat.le_add_left 2 k) := fun v h he => by
    subst he
    rfl
  have hle := t.le (k + 1)
  have hfirst : p[k + 2]? = p[0]? ↔ p[k + 2] = p[0] := by
    rw [List.getElem?_eq_getElem hk, List.getElem?_eq_getElem (by omega), Option.some_inj]
  have hfallback : (fallback p t (k + 2) (t.next (k + 1))).map Subtype.val =
      .ok (fall p t p[k + 2]? (t.next (k + 1))) := fallback_eq hk (by omega)
  rcases map_ok.1 hfallback with ⟨r, hr, hval⟩
  have hentry : entry p t (k + 2) = if t.next (k + 1) = 0 then
      if p[k + 2] = p[0] then 1 else 0 else if r.1 = 0 then 0 else r.1 + 1 := by
    rw [entry, hval, if_congr hfirst rfl rfl]
    rfl
  rw [buildNext]
  simp only [show k + 1 < p.length by omega, if_true, charAt_eq hk,
    charAt_eq (show 0 < p.length by omega), ok_bind, hr]
  by_cases hbase : t.next (k + 1) = 0
  · -- there is no border to extend
    rw [if_pos hbase] at hentry ⊢
    rw [hset _ _ hentry, if_pos]
    rw [hentry]
    split <;> omega
  · rw [if_neg hbase] at hentry ⊢
    by_cases hr0 : r.1 = 0
    · rw [if_pos hr0] at hentry ⊢
      rw [extend_eq_self _ hzero hentry, hentry, if_pos (by omega)]
    · rw [if_neg hr0] at hentry ⊢
      rw [hset _ _ hentry, hentry]

/-- The table that the loop leaves. -/
theorem buildNext_inv {k : ℕ} (hk : n + (k + 2) = p.length) (h : TableTo p t (k + 2))
    (hzero : ∀ i, k + 2 ≤ i → t.next i = 0) (hlt : ∀ i < k + 2, t.next i < 2 ^ 31)
    (hok : buildNext p n k t = .ok t') :
    TableTo p t' p.length ∧ ∀ i < p.length, t'.next i < 2 ^ 31 := by
  induction n generalizing k t with
  | zero =>
    cases hok
    rw [Nat.zero_add] at hk
    exact hk ▸ ⟨h, hlt⟩
  | succ n ih =>
    rw [buildNext_succ (by omega) (hzero _ (Nat.le_refl _))] at hok
    -- the entry is stored if it is an `int`
    split at hok
    · rename_i hentry
      refine ih (by omega) (h.extend (Nat.le_add_left 2 k)) (fun i hi => ?_) (fun i hi => ?_) hok
      · rw [extend_ne _ (by omega)]
        exact hzero i (by omega)
      · by_cases hik : i = k + 2
        · subst hik
          rw [extend_self]
          exact hentry
        · rw [extend_ne _ hik]
          exact hlt i (by omega)
    · cases hok

/-- The loop makes a table if no entry can overflow. -/
theorem buildNext_isOk {k : ℕ} (hk : n + (k + 2) = p.length) (h : TableTo p t (k + 2))
    (hzero : ∀ i, k + 2 ≤ i → t.next i = 0)
    (hnarrow : ∀ t i, i < p.length → TableTo p t (i + 1) → t.next i < 2 ^ 31) :
    ∃ t', buildNext p n k t = .ok t' := by
  induction n generalizing k t with
  | zero => exact ⟨t, rfl⟩
  | succ n ih =>
    have hnext := h.extend (Nat.le_add_left 2 k)
    have hentry := hnarrow _ (k + 2) (by omega) hnext
    rw [extend_self] at hentry
    rw [buildNext_succ (by omega) (hzero _ (Nat.le_refl _)), if_pos hentry]
    refine ih (by omega) hnext fun i hi => ?_
    rw [extend_ne _ (by omega)]
    exact hzero i (by omega)

theorem tableTo_zero : TableTo p .zero 2 := ⟨rfl, fun pos hpos hlt => by omega⟩

/-- A table that was built is right, and no entry of it was narrowed. -/
theorem failure_inv (hok : failure p = .ok t) :
    TableTo p t p.length ∧ ∀ i < p.length, t.next i < 2 ^ 31 := by
  unfold failure at hok
  split at hok
  · exact buildNext_inv (by omega) tableTo_zero (fun _ _ => rfl) (fun _ _ => Nat.two_pow_pos 31) hok
  · cases hok
    exact ⟨⟨rfl, fun pos hpos hlt => by omega⟩, fun _ _ => Nat.two_pow_pos 31⟩

/-- It is built if no entry would be. -/
theorem failure_isOk (hnarrow : ∀ t i, i < p.length → TableTo p t (i + 1) → t.next i < 2 ^ 31) :
    ∃ t, failure p = .ok t := by
  unfold failure
  split
  · exact buildNext_isOk (by omega) tableTo_zero (fun _ _ => rfl) hnarrow
  · exact ⟨.zero, rfl⟩

/-! ## Entries are borders -/

/-- The loop goes from a border to shorter ones, up to one that goes on with `c`. -/
theorem fall_isBorder {c : Option UInt8} (hborders : ∀ k < base, IsBorder p (k + 1) (t.next k))
    (hb : IsBorder p pos base) :
    IsBorder p pos (fall p t c base) ∧ (fall p t c base ≠ 0 → p[fall p t c base]? = c) := by
  induction base using Nat.strong_induction_on with
  | _ base ih =>
    have hle := t.le (base - 1)
    rw [fall_eq]
    split_ifs with hc hzero
    · exact ⟨hb, fun _ => hc.symm⟩
    · exact ⟨isBorder_zero (Nat.lt_of_le_of_lt (Nat.zero_le _) hb.1), fun h => absurd rfl h⟩
    · have hborder := hborders (base - 1) (by omega)
      rw [Nat.sub_add_cancel (by omega)] at hborder
      exact ih _ (by omega) (fun k hk => hborders k (by omega)) (hb.trans hborder)

/-- No longer border than the one where it ends goes on with `c`, if it misses none. -/
theorem fall_max {c : Option UInt8} (hexact : ∀ k < base, t.next k = border p (k + 1))
    (hb : IsBorder p pos base) {b : ℕ} (hborder : IsBorder p pos b) (hle : b ≤ base)
    (hlt : fall p t c base < b) : p[b]? ≠ c := by
  induction base using Nat.strong_induction_on with
  | _ base ih =>
    have hnext : t.next (base - 1) = border p base := by
      rw [hexact (base - 1) (by omega), Nat.sub_add_cancel (by omega)]
    rw [fall_eq] at hlt
    split_ifs at hlt with hc hzero
    · omega
    all_goals
      rcases hle.eq_or_lt with rfl | hshort
      · exact Ne.symm hc
      have hwithin := (hb.of_lt hborder hshort).le_border
    · omega
    · have hlonger := border_isBorder (p := p) (n := base) (by omega)
      rw [← hnext] at hwithin hlonger
      -- every shorter border of the prefix is a border of this one
      exact ih _ hlonger.1 (fun k hk => hexact k (hk.trans hlonger.1)) (hb.trans hlonger) hwithin
        hlt

/-- Every entry is a border of its prefix. -/
theorem TableTo.isBorder (h : TableTo p t n) (hpos : pos < n) :
    IsBorder p (pos + 1) (t.next pos) := by
  induction pos using Nat.strong_induction_on with
  | _ pos ih =>
    rcases Nat.lt_or_ge pos 2 with hsmall | hlarge
    · rw [h.next_small hsmall]
      exact isBorder_zero (Nat.succ_pos pos)
    · have hprev := ih (pos - 1) (by omega) (by omega)
      rw [Nat.sub_add_cancel (by omega)] at hprev
      have hlt := hprev.1
      obtain ⟨hfall, hc⟩ := fall_isBorder (c := p[pos]?)
        (fun k hk => ih k (by omega) (by omega)) hprev
      -- each branch of the loop extends a border by one letter, or starts from none
      rw [h.entries pos hlarge hpos, entry]
      split_ifs with hbase hfirst hzero
      · exact isBorder_succ.2 ⟨isBorder_zero (by omega), hfirst.symm⟩
      · exact isBorder_zero (Nat.succ_pos pos)
      · exact isBorder_zero (Nat.succ_pos pos)
      · exact isBorder_succ.2 ⟨hfall, hc hzero⟩

/-- As long as no border is missed, the entries are the longest borders. -/
theorem TableTo.eq_border (h : TableTo p t n) (hpos : pos < n)
    (hnone : ∀ q ≤ pos, ¬ Missed p q) : t.next pos = border p (pos + 1) := by
  induction pos using Nat.strong_induction_on with
  | _ pos ih =>
    have hlt := border_lt (p := p) (n := pos + 1) (Nat.succ_pos pos)
    rcases Nat.lt_or_ge pos 2 with hsmall | hlarge
    · rcases Nat.le_one_iff_eq_zero_or_eq_one.1 (Nat.le_of_lt_succ hsmall) with rfl | rfl
      · rw [next_zero]
        omega
      · have hone := hnone 1 (Nat.le_refl 1)
        rw [h.one]
        by_contra hne
        exact hone ⟨Nat.one_pos, by omega, .inl rfl⟩
    · have hexact : ∀ k < pos, t.next k = border p (k + 1) := fun k hk =>
        ih k hk (by omega) fun q hq => hnone q (by omega)
      have hprev := hexact (pos - 1) (by omega)
      rw [Nat.sub_add_cancel (by omega)] at hprev
      have hborder := border_isBorder (p := p) (n := pos) (by omega)
      have hshort := hborder.1
      have hfirst : IsBorder p pos 0 := isBorder_zero (by omega)
      rw [h.entries pos hlarge hpos, entry, hprev]
      split_ifs with hzero hsame hend
      · refine (border_succ_eq hfirst hsame.symm fun c hc hpos' => ?_).symm
        have := hc.le_border
        omega
      · refine (border_succ_eq_zero fun c hc => ?_).symm
        obtain rfl : c = 0 := by
          have := hc.le_border
          omega
        exact Ne.symm hsame
      · -- the loop ends at the start, which would be the border that is missed
        have hmax : ∀ c, IsBorder p pos c → 0 < c → p[c]? ≠ p[pos]? := fun c hc hc0 =>
          fall_max (fun k hk => hexact k (by omega)) hborder hc hc.le_border (by omega)
        refine (border_succ_eq_zero fun c hc => ?_).symm
        rcases Nat.eq_zero_or_pos c with rfl | hc0
        · intro hsame
          exact hnone pos (Nat.le_refl _)
            ⟨by omega, border_succ_eq hfirst hsame hmax, .inr hzero⟩
        · exact hmax c hc hc0
      · obtain ⟨hfall, hc⟩ := fall_isBorder (c := p[pos]?)
          (fun k hk => h.isBorder (by omega : k < n)) hborder
        refine (border_succ_eq hfall (hc hend) fun b hb hlonger => ?_).symm
        exact fall_max (fun k hk => hexact k (by omega)) hborder hb hb.le_border hlonger

/-! ## Entries behind a missed border -/

/-- From one position to the next an entry grows by one at most. -/
theorem entry_le_succ (p : List UInt8) (t : Failure) (pos : ℕ) :
    entry p t pos ≤ t.next (pos - 1) + 1 := by
  have hfall := fall_le p t p[pos]? (t.next (pos - 1))
  unfold entry
  split_ifs <;> omega

/-- So over several positions it grows by as many at most. -/
theorem TableTo.next_add_le (h : TableTo p t n) (hq : 0 < q) (hlt : q + i < n) :
    t.next (q + i) ≤ t.next q + i := by
  induction i with
  | zero => exact Nat.le_refl _
  | succ i ih =>
    have hstep := entry_le_succ p t (q + (i + 1))
    rw [← h.entries (q + (i + 1)) (by omega) hlt, show q + (i + 1) - 1 = q + i by omega] at hstep
    have hbefore := ih (by omega)
    omega

/-- The first border that is missed is missed by its entry. -/
theorem TableTo.missed (h : TableTo p t n) (hq : q < n) (hmissed : Missed p q)
    (hfirst : ∀ k < q, ¬ Missed p k) : t.next q = 0 := by
  rcases hmissed with ⟨hpos, hone, rfl | hne⟩
  · exact h.one
  · have hlarge : 2 ≤ q := by
      by_contra hsmall
      have hlt := border_lt (p := p) hpos
      omega
    have hprev : t.next (q - 1) = border p (q - 1 + 1) :=
      h.eq_border (by omega) fun k hk => hfirst k (by omega)
    -- the entry before is the border, and not 0, so the loop falls back and tests no start
    rw [Nat.sub_add_cancel hpos] at hprev
    obtain ⟨hfall, hc⟩ := fall_isBorder (c := p[q]?)
      (fun k hk => h.isBorder (by have := border_lt (p := p) hpos; omega : k < n))
      (border_isBorder (p := p) hpos)
    rw [h.entries q hlarge hq, entry, hprev, if_neg hne]
    split_ifs with hzero
    · rfl
    · -- an entry above 0 would be a border of more than one letter
      have hle := (isBorder_succ.2 ⟨hfall, hc hzero⟩).le_border
      omega

/-- A pattern that starts with two equal letters misses a border at once. -/
theorem missed_one (h : p[0]? = p[1]?) : Missed p 1 := by
  refine ⟨Nat.one_pos, ?_, .inl rfl⟩
  refine border_succ_eq (isBorder_zero Nat.one_pos) h fun c hc hlt => ?_
  have := hc.1
  omega

/-- If the pattern restarts, so does the table. -/
theorem TableTo.copy (h : TableTo p t n) (hn : n ≤ p.length) (hq : 2 ≤ q) (hzero : t.next q = 0)
    (hrestart : p.drop q <+: p) (hone : ¬ Missed p 1) (hlt : q + j < n) :
    t.next (q + j) = t.next j := by
  induction j with
  | zero => rw [Nat.add_zero, hzero, next_zero]
  | succ j ih =>
    have hprev := ih (by omega)
    have hchar : p[q + (j + 1)]? = p[j + 1]? := (getElem?_of_starts hrestart (by omega)).symm
    cases j with
    | zero =>
      -- behind the entry 0 the table begins again, and its first entry is 0 too
      have hne : ¬ p[1]? = p[0]? := fun h => hone (missed_one h.symm)
      rw [h.entries _ (by omega) hlt, entry, Nat.zero_add, Nat.add_sub_cancel, if_pos hzero]
      rw [Nat.zero_add] at hchar
      rw [hchar, if_neg hne, h.one]
    | succ j =>
      rw [h.entries _ (by omega) hlt, h.entries (j + 1 + 1) (by omega) (by omega), entry, entry,
        hchar]
      rw [show q + (j + 1 + 1) - 1 = q + (j + 1) by omega, show j + 1 + 1 - 1 = j + 1 by omega,
        hprev]

theorem TableTo.mono (h : TableTo p t n) (hle : i ≤ n) : TableTo p t i :=
  ⟨h.one, fun pos hpos hlt => h.entries pos hpos (Nat.lt_of_lt_of_le hlt hle)⟩

/-! ## What the search may skip -/

/-- Where no start of the pattern can match behind a mismatch at `i`, the table skips it. -/
def Skips (p : List UInt8) (t : Failure) : Prop :=
  ∀ i, 0 < i → i < p.length → ∀ b, IsBorder p i b → t.next (i - 1) < b → p[b]? = p[i]?

/-- The first place at which a border is missed. -/
theorem exists_first (h : ∃ q ≤ i, Missed p q) :
    ∃ q ≤ i, Missed p q ∧ ∀ k < q, ¬ Missed p k := by
  rcases Nat.find_spec h with ⟨hle, hmissed⟩
  refine ⟨Nat.find h, hle, hmissed, fun k hk hm => ?_⟩
  exact Nat.find_min h hk ⟨by omega, hm⟩

/-- One character over and over. -/
theorem constant_of_starts (h : p.drop 1 <+: p) (hi : i < p.length) : p[i]? = p[0]? := by
  induction i with
  | zero => rfl
  | succ i ih =>
    rw [Nat.add_comm, ← getElem?_of_starts h (by omega)]
    exact ih (by omega)

/-- Where the pattern condition holds, falling back skips no occurrence. -/
theorem TableTo.skips (h : TableTo p t p.length) (hrestarts : Restarts p) : Skips p t := by
  intro i
  induction i using Nat.strong_induction_on with
  | _ i ih =>
    intro hi hlen b hb hlt
    by_cases hsome : ∃ q ≤ i - 1, Missed p q
    · rcases exists_first hsome with ⟨q, hle, hmissed, hfirst⟩
      have hrestart := hrestarts q (by omega) hmissed
      have hpos := hmissed.1
      have hone := hmissed.2.1
      have hblt := hb.1
      rcases Nat.lt_or_ge q 2 with hsmall | hlarge
      · obtain rfl : q = 1 := by omega
        rw [constant_of_starts hrestart hlen, constant_of_starts hrestart (hblt.trans hlen)]
      · obtain ⟨j, rfl⟩ : ∃ j, i = q + (j + 1) := ⟨i - q - 1, by omega⟩
        have hzero := h.missed (by omega) hmissed hfirst
        have hcopy := h.copy (Nat.le_refl _) hlarge hzero hrestart (hfirst 1 hlarge)
          (j := j) (by omega)
        -- the longest border of this start is the part behind `q`
        have hlongest : b ≤ j + 1 := by
          by_contra hlonger
          have hborder' : IsBorder p (q + 1 + j) (b - j + j) := by
            rw [Nat.sub_add_cancel (by omega)]
            exact (by omega : q + (j + 1) = q + 1 + j) ▸ hb
          have hle' := hborder'.of_add.le_border
          omega
        have hnext : p[j + 1]? = p[q + (j + 1)]? := getElem?_of_starts hrestart (by omega)
        rw [show q + (j + 1) - 1 = q + j by omega, hcopy] at hlt
        rcases hlongest.eq_or_lt with rfl | hshorter
        · exact hnext
        · have hpart : IsBorder p (q + (j + 1)) (j + 1) := by
            have hpart := isBorder_of_starts hrestart hpos (n := q + (j + 1)) (by omega) hlen.le
            rwa [Nat.add_sub_cancel_left] at hpart
          rw [← hnext]
          exact ih (j + 1) (by omega) (Nat.succ_pos j) (by omega) b (hpart.of_lt hb hshorter) hlt
    · have hexact : t.next (i - 1) = border p (i - 1 + 1) :=
        h.eq_border (by omega) fun q hq hm => hsome ⟨q, hq, hm⟩
      rw [Nat.sub_add_cancel hi] at hexact
      have hle := hb.le_border
      omega

/-! ## Entries that are no `int`s -/

/-- One character over and over has the longest entries. -/
theorem TableTo.constant (h : TableTo p t n) (hn : n ≤ p.length) (hconst : p.drop 1 <+: p)
    (hi : i + 1 < n) : t.next (i + 1) = i := by
  induction i with
  | zero => exact h.one
  | succ i ih =>
    have hprev := ih (by omega)
    have hsame : ∀ k < p.length, p[i + 2]? = p[k]? := fun k hk =>
      (constant_of_starts hconst (by omega)).trans (constant_of_starts hconst hk).symm
    rw [h.entries _ (by omega) hi, entry, show i + 1 + 1 - 1 = i + 1 by omega, hprev]
    split_ifs with hbase hfirst hzero
    · omega
    · exact absurd (hsame 0 (by omega)) hfirst
    all_goals
      rw [fall_eq, if_pos (hsame i (by omega))] at *
    · omega

/-- And where every entry is an `int`, so are the borders that count. -/
theorem TableTo.narrow (h : TableTo p t p.length) (hrestarts : Restarts p)
    (hlt : ∀ i < p.length, t.next i < 2 ^ 31) : Narrow p := by
  refine ⟨fun k hk hnone => ?_, fun hlen hmissed => ?_⟩
  · rw [← h.eq_border hk hnone]
    exact hlt k hk
  · have hlast := h.constant (Nat.le_refl _) (hrestarts 1 hlen hmissed) (i := p.length - 2)
      (by omega)
    have hint := hlt (p.length - 2 + 1) (by omega)
    omega

/-- The other way round, narrow borders keep the entries from being narrowed. -/
theorem TableTo.next_lt (h : TableTo p t (i + 1)) (hi : i < p.length) (hrestarts : Restarts p)
    (hnarrow : Narrow p) : t.next i < 2 ^ 31 := by
  induction i using Nat.strong_induction_on with
  | _ i ih =>
    by_cases hsome : ∃ q ≤ i, Missed p q
    · -- behind the first border missed the table repeats itself
      rcases exists_first hsome with ⟨q, hle, hmissed, hfirst⟩
      have hpos := hmissed.1
      rcases Nat.lt_or_ge q 2 with hsmall | hlarge
      · obtain rfl : q = 1 := by omega
        -- it is missed at once: one character over and over
        have hlen := hnarrow.2 (by omega) hmissed
        have hstep := h.next_add_le Nat.one_pos (i := i - 1) (by omega)
        rw [Nat.add_sub_cancel' hle, h.one] at hstep
        omega
      · have hzero := h.missed (by omega) hmissed hfirst
        have hcopy := h.copy (by omega) hlarge hzero (hrestarts q (by omega) hmissed)
          (hfirst 1 hlarge) (j := i - q) (by omega)
        rw [Nat.add_sub_cancel' hle] at hcopy
        rw [hcopy]
        exact ih (i - q) (by omega) (h.mono (by omega)) (by omega)
    · -- nothing is missed so far, so the entry is the border
      have hnone : ∀ q ≤ i, ¬ Missed p q := fun q hq hm => hsome ⟨q, hq, hm⟩
      rw [h.eq_border (Nat.lt_succ_self i) hnone]
      exact hnarrow.1 i hi hnone

/-- Behind the first missed border, the table skips the first start of the pattern that would go on
with another character. -/
theorem TableTo.restarts (h : TableTo p t p.length) (hskips : Skips p t) : Restarts p := by
  intro q hq hmissed
  by_contra hno
  rcases exists_first ⟨q, Nat.le_refl q, hmissed⟩ with ⟨r, hle, ⟨hpos, hone, hor⟩, hfirst⟩
  have hzero := h.missed (Nat.lt_of_le_of_lt hle hq) ⟨hpos, hone, hor⟩ hfirst
  have hno' : ¬ p.drop r <+: p := fun hrestart => by
    -- from the first on, the borders grow
    have hborder := isBorder_of_starts hrestart hpos (n := q + 1) (by omega) (by omega)
    have hshort := hborder.le_border
    rw [hmissed.2.1] at hshort
    obtain rfl : r = q := by omega
    exact hno hrestart
  rcases exists_mismatch hno' with ⟨j, hlt, hmatch, hne⟩
  have hj : 0 < j := by
    rcases Nat.eq_zero_or_pos j with rfl | hj
    · have hborder := border_isBorder (p := p) (Nat.succ_pos r)
      rw [hone] at hborder
      exact absurd (isBorder_succ.1 hborder).2 hne
    · exact hj
  have hborder : IsBorder p (r + j) j := by
    refine ⟨by omega, ?_⟩
    rwa [Nat.add_sub_cancel]
  have hshort : t.next (r + j - 1) < j := by
    have hle := h.next_add_le hpos (i := j - 1) (by omega)
    rw [show r + (j - 1) = r + j - 1 by omega] at hle
    omega
  exact hne (hskips (r + j) (by omega) hlt j hborder hshort)

/-! ## The search -/

/-- One round of the search. -/
theorem search_eq (hm : m + i < buf.length) (hi : i < p.length) : search buf p t m i =
    if buf[m + i]? = p[i]? then
      if i + 1 = p.length then .ok (m, i + 1) else search buf p t m (i + 1)
    else if i = 0 then search buf p t (m + 1) 0
    else search buf p t (m + (i - t.next (i - 1))) (t.next (i - 1)) := by
  rw [search]
  simp only [hm, dite_true, charAt_eq hi, ok_bind, List.getElem?_eq_getElem hm,
    List.getElem?_eq_getElem hi, Option.some_inj]
  split_ifs with hc hend hzero hin
  · rfl
  · rfl
  · rw [hzero]
  · rfl
  · omega

/-- Where the search ends: behind the first occurrence, or at the end of the slice. -/
def Ended (buf p : List UInt8) (m i : ℕ) : Prop :=
  (i = p.length ∧ m + i ≤ buf.length ∧ Search.first p buf = some m) ∨
    (i < p.length ∧ buf.length ≤ m + i ∧ Search.first p buf = none)

/-- The search ends at the first occurrence or at the end, with nothing before it. -/
theorem search_spec (h : TableTo p t p.length) (hskips : Skips p t) (hi : i < p.length)
    (hmatch : Matches p buf m i) (hbefore : ∀ k < m, ¬ p <+: buf.drop k) :
    ∃ m' i', search buf p t m i = .ok (m', i') ∧ Ended buf p m' i' := by
  induction hmeasure : 2 * (buf.length - (m + i)) + i using Nat.strong_induction_on
    generalizing m i with
  | _ measure ih =>
    subst hmeasure
    by_cases hm : m + i < buf.length
    · rw [search_eq hm hi]
      split_ifs with hc hend hzero
      · have hocc : p <+: buf.drop m := by
          rw [← matches_length, ← hend]
          exact matches_succ.2 ⟨hmatch, hc.symm⟩
        refine ⟨m, i + 1, rfl, .inl ⟨hend, hm, ?_⟩⟩
        exact Search.first_eq_some.2 ⟨by omega, hocc, hbefore⟩
      · exact ih _ (by omega) (by omega) (matches_succ.2 ⟨hmatch, hc.symm⟩) hbefore rfl
      · subst hzero
        refine ih _ (by omega) hi matches_zero (fun k hk => ?_) rfl
        rcases (Nat.le_of_lt_succ hk).eq_or_lt with rfl | hk
        · exact fun hocc => hc (matches_length.2 hocc 0 hi).symm
        · exact hbefore k hk
      · -- the search skips what the table knows not to match
        have hborder : IsBorder p (i - 1 + 1) (t.next (i - 1)) := h.isBorder (by omega)
        rw [Nat.sub_add_cancel (by omega)] at hborder
        have hlt := hborder.1
        refine ih _ (by omega) (by omega) (hmatch.shift hborder) (fun k hk => ?_) rfl
        rcases Nat.lt_or_ge k m with hk' | hk'
        · exact hbefore k hk'
        · have hno := not_matches_of_skips (c := k - m) hmatch hi (Ne.symm hc)
            (hskips i (by omega) hi) (by omega)
          rwa [Nat.add_sub_cancel' hk'] at hno
    · have hlen := Nat.not_lt.1 hm
      refine ⟨m, i, search_of_le hlen, .inr ⟨hi, hlen, ?_⟩⟩
      cases hfirst : Search.first p buf with
      | none => rfl
      | some n =>
        have hle := Search.first_add_le hfirst
        exact absurd (Search.first_eq_some.1 hfirst).2.1 (hbefore n (by omega))

/-- The position in the slice does not go back. -/
theorem le_search {m' i' : ℕ} (hi : i < p.length) (hok : search buf p t m i = .ok (m', i')) :
    m ≤ m' := by
  -- no round goes back in the text, and each lowers this measure
  induction hmeasure : 2 * (buf.length - (m + i)) + i using Nat.strong_induction_on
    generalizing m i with
  | _ measure ih =>
    subst hmeasure
    by_cases hm : m + i < buf.length
    · have hle := t.le (i - 1)
      rw [search_eq hm hi] at hok
      split_ifs at hok with hc hend hzero
      · cases hok
        exact Nat.le_refl _
      · exact ih _ (by omega) (by omega) hok rfl
      · have hnext := ih _ (by omega) (by omega) hok rfl
        omega
      · have hnext := ih _ (by omega) (by omega) hok rfl
        omega
    · rw [search_of_le (Nat.not_lt.1 hm)] at hok
      cases hok
      exact Nat.le_refl _

/-- What matches is read to its end. -/
theorem search_matches (hi : i < p.length) (hmatch : Matches p buf m i)
    (hm : m + i ≤ buf.length) : search buf p t m 0 = search buf p t m i := by
  induction i with
  | zero => rfl
  | succ i ih =>
    rcases matches_succ.1 hmatch with ⟨hmatch, hc⟩
    rw [ih (by omega) hmatch (by omega), search_eq (by omega) (by omega), if_pos hc.symm,
      if_neg (by omega)]

/-! ## The result -/

/-- What the search ends at is what `Find` returns. -/
theorem find_of_search (hlen : p.length ≤ buf.length) (hok : failure p = .ok t)
    (hsearch : search buf p t 0 0 = .ok (m, i)) (hended : Ended buf p m i) :
    find buf p = .ok (Search.first p buf) := by
  have hpos : (if m + i < buf.length ∨ m + i = buf.length ∧ i = p.length then some m else none) =
      Search.first p buf := by
    rcases hended with ⟨hi, hle, hfirst⟩ | ⟨hi, hle, hfirst⟩
    · rw [hfirst, if_pos (by omega)]
    · rw [hfirst, if_neg (by omega)]
  unfold find
  rw [if_neg (Nat.not_lt.2 hlen), hok, ok_bind, hsearch, ok_bind]
  simp only [hpos, check_true, ok_bind]

/-- A table that skips nothing makes `Find` right on every text. -/
theorem find_of_skips (hp : p ≠ []) (hok : failure p = .ok t) (hskips : Skips p t)
    (buf : List UInt8) : find buf p = .ok (Search.first p buf) := by
  rcases Nat.lt_or_ge buf.length p.length with hshort | hlen
  · unfold find
    rw [if_pos hshort, Search.first_of_length_lt hshort]
  · obtain ⟨m, i, hsearch, hended⟩ := search_spec (failure_inv hok).1 hskips
      (List.length_pos_of_ne_nil hp) matches_zero fun k hk => absurd hk (Nat.not_lt_zero k)
    exact find_of_search hlen hok hsearch hended

/-- What is found in every slice is found where a start was skipped. -/
theorem skips_of_find (hok : failure p = .ok t)
    (hfind : ∀ buf, find buf p = .ok (Search.first p buf)) : Skips p t := by
  intro i hi hlen b hb hlt
  by_contra hne
  -- the pattern, behind as much of it as is needed to come to the mismatch at `i`
  have hblt := hb.1
  have hhead : (p.take (i - b)).length = i - b := by
    rw [List.length_take]
    omega
  obtain ⟨buf, hbuf⟩ : ∃ buf, buf = p.take (i - b) ++ p := ⟨_, rfl⟩
  have hbuflen : buf.length = i - b + p.length := by rw [hbuf, List.length_append, hhead]
  have hafter : ∀ k, buf[i - b + k]? = p[k]? := fun k => by
    rw [hbuf, List.getElem?_append_right (by omega), hhead, Nat.add_sub_cancel_left]
  have hmatch : Matches p buf 0 i := fun k hk => by
    rw [Nat.zero_add]
    rcases Nat.lt_or_ge k (i - b) with hin | hout
    · rw [hbuf, List.getElem?_append_left (by omega), List.getElem?_take_of_lt hin]
    · have hsame := hb.2 (k - (i - b)) (by omega)
      rw [Nat.add_sub_cancel' hout] at hsame
      rw [← hsame, ← hafter, Nat.add_sub_cancel' hout]
  have hmismatch : buf[i]? ≠ p[i]? := by
    have hnext := hafter b
    rw [Nat.sub_add_cancel hblt.le] at hnext
    rw [hnext]
    exact hne
  -- the search goes on behind the occurrence
  have hskip : search buf p t 0 0 = search buf p t (i - t.next (i - 1)) (t.next (i - 1)) := by
    rw [search_matches hlen hmatch (by omega), search_eq (by omega) hlen, Nat.zero_add,
      if_neg hmismatch, if_neg hi.ne', Nat.zero_add]
  have hocc : p <+: buf.drop (i - b) := by
    rw [hbuf, List.drop_left' hhead]
  have hresult := hfind buf
  unfold find at hresult
  rw [if_neg (by omega), hok, ok_bind, hskip] at hresult
  rcases bind_ok.1 hresult with ⟨⟨m, i'⟩, hsearch, hresult⟩
  have hle := le_search (Nat.lt_of_le_of_lt (t.le _) (by omega)) hsearch
  rcases bind_ok.1 hresult with ⟨_, hcheck, -⟩
  have hfirst := check_ok.1 hcheck
  cases hn : Search.first p buf with
  | none =>
    exact Search.first_eq_none.1 hn (hocc.isInfix.trans (List.drop_suffix _ _).isInfix)
  | some n =>
    have hn' := Search.first_eq_some.1 hn
    have hnle : n ≤ i - b := by
      by_contra hgt
      exact hn'.2.2 (i - b) (by omega) hocc
    rw [hn] at hfirst
    split at hfirst
    · cases hfirst
      omega
    · cases hfirst

/-- `find` finds the pattern `p` where it first occurs, in every slice, if and only if `p` restarts
wherever a border is missed, and the borders that count are `int`s. -/
theorem find_correct_iff (p : List UInt8) (hp : p ≠ []) :
    (∀ buf, find buf p = .ok (Search.first p buf)) ↔ Restarts p ∧ Narrow p := by
  constructor
  · intro hfind
    have hself := hfind p
    unfold find at hself
    rw [if_neg (Nat.lt_irrefl _)] at hself
    rcases bind_ok.1 hself with ⟨t, hok, -⟩
    rcases failure_inv hok with ⟨htable, hlt⟩
    have hrestarts := htable.restarts (skips_of_find hok hfind)
    exact ⟨hrestarts, htable.narrow hrestarts hlt⟩
  · rintro ⟨hrestarts, hnarrow⟩ buf
    rcases failure_isOk fun t i hi h => h.next_lt hi hrestarts hnarrow with ⟨t, hok⟩
    exact find_of_skips hp hok ((failure_inv hok).1.skips hrestarts) buf

/-- `ABCDABD` is found in `ABCABCDABD`, behind the start that it shares with `ABCABC`. -/
theorem find_correct_run :
    find [65, 66, 67, 65, 66, 67, 68, 65, 66, 68] [65, 66, 67, 68, 65, 66, 68] = .ok (some 3) :=
  (find_correct_iff [65, 66, 67, 68, 65, 66, 68] (by decide)).2 (by decide) _

/-- The border `a` of `aa` is missed: behind the mismatch at the `b` of `aaab` the search goes on
with the third `a`, and the assertion fails. -/
theorem find_skips_match :
    Search.first [97, 97, 97, 98] [97, 97, 97, 97, 98] = some 1 ∧
      find [97, 97, 97, 97, 98] [97, 97, 97, 98] = .error .assertion := by
  refine ⟨by decide, ?_⟩
  decide +kernel

end FxServer.Slice
