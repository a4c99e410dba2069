import Mathlib.Data.Nat.Find
import FxServer.Search

/-!
# Border — where a word begins again within itself

A border of the first `n` elements of a word `p` is a shorter start of `p` that ends there, too.
After a mismatch behind `n` matching elements, an earlier start of `p` cannot match, and a later
one can only where a border ends; what the borders cannot match can be skipped.

Everything is about one word and positions in it, so the lemmas say nothing of texts, tables or
machine integers. Both searches for a slice rest on them: the one with a table of fallbacks,
whose entries are borders, and the one with an automaton, whose states are lengths of borders.

* `IsBorder.trans`, `IsBorder.of_lt` — the borders of a border are the shorter borders.
* `isBorder_succ` — borders grow and shrink by one element.
* `not_matches_of_skips` — a search may skip to the longest border that goes on with another element
  than the one that did not match.
* `next_border`, `next_matches` — the automaton that goes from border to border computes the
  longest border, and skips no occurrence.
-/

namespace Border

variable {α : Type*} {p d : List α} {m n b c i : ℕ}

/-- The first `i` elements of `p` stand in `d` from position `m` on. -/
def Matches (p d : List α) (m i : ℕ) : Prop := ∀ k < i, p[k]? = d[m + k]?

/-- The first `b` elements of `p` end the first `n`, and are less. -/
def IsBorder (p : List α) (n b : ℕ) : Prop := b < n ∧ Matches p p (n - b) b

instance [DecidableEq α] (p d : List α) (m i : ℕ) : Decidable (Matches p d m i) :=
  inferInstanceAs (Decidable (∀ k < i, p[k]? = d[m + k]?))

instance [DecidableEq α] (p : List α) (n : ℕ) : DecidablePred (IsBorder p n) := fun b =>
  inferInstanceAs (Decidable (b < n ∧ Matches p p (n - b) b))

/-- The length of the longest border of the first `n` elements. -/
def border [DecidableEq α] (p : List α) (n : ℕ) : ℕ := Nat.findGreatest (IsBorder p n) n

/-! ## Matches -/

theorem matches_zero : Matches p d m 0 := fun k hk => absurd hk (Nat.not_lt_zero k)

/-- A longer match is the shorter one and one more equal letter. -/
theorem matches_succ : Matches p d m (i + 1) ↔ Matches p d m i ∧ p[i]? = d[m + i]? := by
  unfold Matches
  rw [Nat.forall_lt_succ_right]

/-- A match of a prefix contains the matches of its prefixes. -/
theorem Matches.mono (h : Matches p d m n) (hle : i ≤ n) : Matches p d m i :=
  fun k hk => h k (Nat.lt_of_lt_of_le hk hle)

/-- All of `p` matches where it is a part. -/
theorem matches_length : Matches p d m p.length ↔ p <+: d.drop m := by
  rw [List.prefix_iff_getElem?]
  refine forall_congr' fun k => forall_congr' fun hk => ?_
  rw [List.getElem?_drop, List.getElem?_eq_getElem hk, eq_comm]

/-- Within a match `p` matches what it matches within itself. -/
theorem Matches.add_iff (h : Matches p d m n) (hle : c + b ≤ n) :
    Matches p d (m + c) b ↔ Matches p p c b := by
  refine forall_congr' fun k => forall_congr' fun hk => ?_
  rw [h (c + k) (by omega), Nat.add_assoc]

/-- Within a match the borders match. -/
theorem Matches.shift (h : Matches p d m n) (hb : IsBorder p n b) :
    Matches p d (m + (n - b)) b := by
  rcases hb with ⟨hlt, hmatch⟩
  exact (h.add_iff (by omega)).2 hmatch

/-- What matches within a match is a border. -/
theorem Matches.isBorder (h : Matches p d m n) (hlater : Matches p d (m + c) b) (hc : 0 < c)
    (hn : c + b = n) : IsBorder p n b := by
  refine ⟨by omega, ?_⟩
  rw [show n - b = c by omega]
  exact (h.add_iff hn.le).1 hlater

/-! ## Borders -/

theorem isBorder_zero (hn : 0 < n) : IsBorder p n 0 := ⟨hn, matches_zero⟩

/-- A border of a border is a border. -/
theorem IsBorder.trans (hb : IsBorder p n b) (hc : IsBorder p b c) : IsBorder p n c := by
  have hmatch := hb.2.shift hc
  have hlt := hb.1
  have hlt' := hc.1
  refine ⟨by omega, ?_⟩
  rwa [show n - b + (b - c) = n - c by omega] at hmatch

/-- Of two borders of one prefix, the shorter is a border of the longer. -/
theorem IsBorder.of_lt (hb : IsBorder p n b) (hc : IsBorder p n c) (h : c < b) :
    IsBorder p b c := by
  have hlt := hb.1
  have hmatch := hc.2
  refine hb.2.isBorder (c := b - c) ?_ (by omega) (by omega)
  rwa [show n - b + (b - c) = n - c by omega]

/-- A border grows by one letter exactly when the letter behind it is the letter behind the
prefix. -/
theorem isBorder_succ : IsBorder p (n + 1) (b + 1) ↔ IsBorder p n b ∧ p[b]? = p[n]? := by
  unfold IsBorder
  rw [matches_succ, Nat.add_lt_add_iff_right, Nat.add_sub_add_right, and_assoc]
  refine and_congr_right fun hlt => ?_
  rw [Nat.sub_add_cancel hlt.le]

/-- Dropping the same number of last letters from a prefix and from its border leaves a
border. -/
theorem IsBorder.of_add (h : IsBorder p (n + i) (b + i)) : IsBorder p n b := by
  induction i with
  | zero => exact h
  | succ i ih => exact ih (isBorder_succ.1 h).1

/-! ## Words that begin again -/

/-- Each element is the one `c` positions further. -/
theorem getElem?_of_starts (h : p.drop c <+: p) (hk : c + i < p.length) : p[i]? = p[c + i]? := by
  rcases h with ⟨e, he⟩
  have hlt : i < (p.drop c).length := by
    rw [List.length_drop]
    omega
  have hleft : (p.drop c ++ e)[i]? = (p.drop c)[i]? := List.getElem?_append_left hlt
  rwa [he, List.getElem?_drop] at hleft

/-- A word that begins again at `c` has a border wherever it is cut behind `c`. -/
theorem isBorder_of_starts (h : p.drop c <+: p) (hc : 0 < c) (hle : c ≤ n) (hn : n ≤ p.length) :
    IsBorder p n (n - c) := by
  refine ⟨by omega, fun k hk => ?_⟩
  rw [Nat.sub_sub_self hle]
  exact getElem?_of_starts h (by omega)

/-- A word that does not begin again at `c` does so for a while. -/
theorem exists_mismatch [DecidableEq α] (h : ¬ p.drop c <+: p) :
    ∃ j, c + j < p.length ∧ Matches p p c j ∧ p[j]? ≠ p[c + j]? := by
  have hdiffers : ∃ j, c + j < p.length ∧ p[j]? ≠ p[c + j]? := by
    -- without a mismatch the rest of the pattern would be a start of it
    by_contra hnone
    refine h (List.prefix_iff_getElem?.2 fun k hk => ?_)
    have hk' := hk
    rw [List.length_drop] at hk'
    rw [List.getElem_drop, ← List.getElem?_eq_getElem]
    by_contra hne
    exact hnone ⟨k, by omega, hne⟩
  -- the first mismatch: everything before it matches
  rcases Nat.find_spec hdiffers with ⟨hlt, hne⟩
  refine ⟨Nat.find hdiffers, hlt, fun k hk => ?_, hne⟩
  have hsame := Nat.find_min hdiffers hk
  by_contra hne'
  exact hsame ⟨by omega, hne'⟩

/-! ## The longest border -/

section Longest

variable [DecidableEq α]

/-- The border that `border` computes is one. -/
theorem border_isBorder (hn : 0 < n) : IsBorder p n (border p n) := by
  rcases Nat.eq_zero_or_pos (border p n) with hzero | hpos
  · rw [hzero]
    exact isBorder_zero hn
  · exact Nat.findGreatest_of_ne_zero rfl hpos.ne'

/-- It is the longest. -/
theorem IsBorder.le_border (h : IsBorder p n b) : b ≤ border p n :=
  Nat.le_findGreatest h.1.le h

theorem border_lt (hn : 0 < n) : border p n < n := (border_isBorder hn).1

/-- The longest border is the longest one that goes on. -/
theorem border_succ_eq (hb : IsBorder p n b) (hnext : p[b]? = p[n]?)
    (hmax : ∀ c, IsBorder p n c → b < c → p[c]? ≠ p[n]?) : border p (n + 1) = b + 1 := by
  refine Nat.le_antisymm ?_ (isBorder_succ.2 ⟨hb, hnext⟩).le_border
  cases hc : border p (n + 1) with
  | zero => exact Nat.zero_le _
  | succ c =>
    have hborder := border_isBorder (p := p) (Nat.succ_pos n)
    rw [hc] at hborder
    rcases isBorder_succ.1 hborder with ⟨hborder, hnext'⟩
    by_contra hlt
    exact hmax c hborder (by omega) hnext'

/-- No border goes on. -/
theorem border_succ_eq_zero (hnone : ∀ c, IsBorder p n c → p[c]? ≠ p[n]?) :
    border p (n + 1) = 0 := by
  cases hc : border p (n + 1) with
  | zero => rfl
  | succ c =>
    have hborder := border_isBorder (p := p) (Nat.succ_pos n)
    rw [hc] at hborder
    rcases isBorder_succ.1 hborder with ⟨hborder, hnext⟩
    exact absurd hnext (hnone c hborder)

end Longest

/-! ## Skipping -/

/-- Behind a mismatch the word cannot start where a border would end that goes on with the same
element, and not where no border ends. -/
theorem not_matches_of_skips {skip : ℕ} (hmatch : Matches p d m i) (hi : i < p.length)
    (hne : p[i]? ≠ d[m + i]?) (hskips : ∀ b, IsBorder p i b → skip < b → p[b]? = p[i]?)
    (hk : c < i - skip) : ¬ p <+: d.drop (m + c) := by
  intro hocc
  have hfull := matches_length.2 hocc
  rcases Nat.eq_zero_or_pos c with rfl | hpos
  · exact hne (hfull i hi)
  · have hborder : IsBorder p i (i - c) :=
      hmatch.isBorder (hfull.mono (by omega)) hpos (by omega)
    have hsame := hskips (i - c) hborder (by omega)
    have hnext := hfull (i - c) (by omega)
    rw [show m + c + (i - c) = m + i by omega, hsame] at hnext
    exact hne hnext

/-! ## The automaton of a word -/

section Next

variable [DecidableEq α]

/-- What has matched behind the next element `c`, if the first `i` elements have matched: one more,
or what goes on from the borders of the first `i`, the longest first. -/
def next (p : List α) (i : ℕ) (c : α) : ℕ :=
  if p[i]? = some c then i + 1
  else if h : i = 0 then 0
  else
    have _hlt : border p i < i := border_lt (Nat.pos_of_ne_zero h)
    next p (border p i) c
termination_by i

/-- On the expected letter the automaton goes one state forward. -/
theorem next_of_match {c : α} (hc : p[i]? = some c) : next p i c = i + 1 := by
  rw [next, if_pos hc]

/-- On any other letter it does what the state of its border does. -/
theorem next_of_ne {c : α} (hi : 0 < i) (hc : p[i]? ≠ some c) :
    next p i c = next p (border p i) c := by
  rw [next, if_neg hc, dif_neg hi.ne']

/-- In state 0 there is no shorter border to try. -/
theorem next_zero_of_ne {c : α} (hc : p[0]? ≠ some c) : next p 0 c = 0 := by
  rw [next, if_neg hc, dif_pos rfl]

/-- The automaton, run on from the longest border, gives the next longest border. -/
theorem next_border {c : α} (hn : 0 < n) (hc : p[n]? = some c) :
    next p (border p n) c = border p (n + 1) := by
  have hborder := border_isBorder (p := p) hn
  have hmax : ∀ b, IsBorder p n b → border p n < b → p[b]? ≠ p[n]? := fun b hb hlt => by
    have hle := hb.le_border
    omega
  -- the longer borders have been tried
  generalize border p n = i at hborder hmax ⊢
  induction i using Nat.strong_induction_on with
  | _ i ih =>
    by_cases hi : p[i]? = some c
    · rw [next_of_match hi, border_succ_eq hborder (hi.trans hc.symm) hmax]
    · have hne : p[i]? ≠ p[n]? := fun h => hi (h.trans hc)
      rcases Nat.eq_zero_or_pos i with rfl | hpos
      · rw [next_zero_of_ne hi]
        refine (border_succ_eq_zero fun b hb => ?_).symm
        rcases Nat.eq_zero_or_pos b with rfl | hb0
        · exact hne
        · exact hmax b hb hb0
      · rw [next_of_ne hpos hi]
        have hlongest := border_isBorder (p := p) hpos
        refine ih _ hlongest.1 (hborder.trans hlongest) fun b hb hlt => ?_
        rcases Nat.lt_trichotomy b i with hbi | rfl | hbi
        · have hle := (hborder.of_lt hb hbi).le_border
          omega
        · exact hne
        · exact hmax b hb hbi

/-- What the automaton says has matched matches, and it has skipped no occurrence. -/
theorem next_matches {c : α} (hmatch : Matches p d m i) (hi : i < p.length)
    (hbefore : ∀ k < m, ¬ p <+: d.drop k) (hc : d[m + i]? = some c) :
    next p i c ≤ i + 1 ∧ Matches p d (m + i + 1 - next p i c) (next p i c) ∧
      ∀ k < m + i + 1 - next p i c, ¬ p <+: d.drop k := by
  induction i using Nat.strong_induction_on generalizing m with
  | _ i ih =>
    by_cases hnext : p[i]? = some c
    · rw [next_of_match hnext, show m + i + 1 - (i + 1) = m by omega]
      exact ⟨Nat.le_refl _, matches_succ.2 ⟨hmatch, hnext.trans hc.symm⟩, hbefore⟩
    · have hne : p[i]? ≠ d[m + i]? := fun h => hnext (h.trans hc)
      rcases Nat.eq_zero_or_pos i with rfl | hpos
      · rw [next_zero_of_ne hnext]
        refine ⟨Nat.zero_le _, matches_zero, fun k hk => ?_⟩
        rcases (Nat.le_of_lt_succ hk).eq_or_lt with rfl | hlt
        · exact fun hocc => hne (matches_length.2 hocc 0 hi)
        · exact hbefore k hlt
      · have hborder := border_isBorder (p := p) hpos
        have hlt := hborder.1
        -- no occurrence begins before the longest border does
        have hskips : ∀ k < m + (i - border p i), ¬ p <+: d.drop k := fun k hk => by
          rcases Nat.lt_or_ge k m with hkm | hkm
          · exact hbefore k hkm
          · have hno := not_matches_of_skips (c := k - m) hmatch hi hne
              (fun b hb (hlonger : border p i < b) => by have := hb.le_border; omega) (by omega)
            rwa [Nat.add_sub_cancel' hkm] at hno
        have hsum : m + (i - border p i) + border p i = m + i := by omega
        obtain ⟨hle, hmatches, hnone⟩ := ih _ hlt (hmatch.shift hborder) (by omega) hskips
          (hsum ▸ hc)
        rw [hsum] at hmatches hnone
        rw [next_of_ne hpos hnext]
        exact ⟨by omega, hmatches, hnone⟩

end Next

end Border
