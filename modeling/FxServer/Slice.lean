import Mathlib.Logic.Function.Basic
import FxServer.Basic
import FxServer.Search

/-!
# FxServer.Slice — looking for a pattern with a table of fallbacks

The model of `Slice::find` in `src/src/fx_slice.cc`. An entry of the table `next` is at most its
index, which the type `Failure` says; it is why both loops that fall back come to an end. The
result is asserted to be the one of `std::string::find`.

The table is filled and read by the loops of the source, index by index, with every subscript
checked. What an entry means is left to the modules on the table.

* `find_pair` — a pattern of two different bytes is found where it first occurs.
-/

namespace FxServer.Slice

/-- The table `next`, which is zero at first. -/
structure Failure where
  next : ℕ → ℕ
  le : ∀ k, next k ≤ k

namespace Failure

def zero : Failure := ⟨fun _ => 0, Nat.zero_le⟩

/-- `next[k] = v` -/
def set (t : Failure) (k v : ℕ) (h : v ≤ k) : Failure where
  next := Function.update t.next k v
  le j := by
    by_cases hj : j = k
    · subst hj
      simpa using h
    · simpa [hj] using t.le j

end Failure

/-- `p[i]` of a C string. -/
def charAt (p : List UInt8) (i : ℕ) : Except Fault UInt8 :=
  if i ≤ p.length then .ok (p.getD i 0) else .error .outOfBounds

theorem charAt_eq {p : List UInt8} {i : ℕ} (h : i < p.length) : charAt p i = .ok p[i] := by
  unfold charAt
  rw [if_pos h.le, List.getD_eq_getElem?_getD, List.getElem?_eq_getElem h, Option.getD_some]

/-- The loop that falls back from `base` to shorter borders, for `next[pos]`. -/
def fallback (p : List UInt8) (t : Failure) (pos base : ℕ) : Except Fault {n // n ≤ base} := do
  let a ← charAt p pos
  let b ← charAt p base
  if a = b then .ok ⟨base, Nat.le_refl _⟩
  else if base - 1 < p.length then
    if h : t.next (base - 1) = 0 then .ok ⟨0, Nat.zero_le _⟩
    else
      have hle : t.next (base - 1) ≤ base - 1 := t.le _
      let n ← fallback p t pos (t.next (base - 1))
      .ok ⟨n, by have := n.2; omega⟩
  else .error .outOfBounds
termination_by base

/-- The loop over `pos`, here `k + 2`, with `n` entries to fill. -/
def buildNext (p : List UInt8) : ℕ → ℕ → Failure → Except Fault Failure
  | 0, _, t => .ok t
  | n + 1, k, t => do
    let pos := k + 2
    if k + 1 < p.length then
      let base := t.next (k + 1)
      if base = 0 then
        let a ← charAt p pos
        let b ← charAt p 0
        buildNext p n (k + 1) (t.set pos (if a = b then 1 else 0) (by split <;> omega))
      else
        let base' ← fallback p t pos base
        if base'.1 = 0 then buildNext p n (k + 1) t
        -- `base` is an `int`
        else if base'.1 + 1 < 2 ^ 31 then
          buildNext p n (k + 1) (t.set pos (base'.1 + 1)
            (Nat.succ_le_succ (base'.2.trans (t.le _))))
        else .error .overflow
    else .error .outOfBounds

/-- The table for the pattern, as the loop over `pos` makes it. -/
def failure (p : List UInt8) : Except Fault Failure :=
  if 2 < p.length then buildNext p (p.length - 2) 0 .zero else .ok .zero

/-- The loop of the search: the index `m` in the slice and the index `i` in the pattern at
which it ends. -/
def search (buf p : List UInt8) (t : Failure) (m i : ℕ) : Except Fault (ℕ × ℕ) :=
  if hm : m + i < buf.length then do
    let pc ← charAt p i
    if buf[m + i] = pc then
      if i + 1 = p.length then .ok (m, i + 1) else search buf p t m (i + 1)
    else if hi : i = 0 then search buf p t (m + 1) i
    else if i - 1 < p.length then
      have hle : t.next (i - 1) ≤ i - 1 := t.le _
      search buf p t (m + (i - t.next (i - 1))) (t.next (i - 1))
    else .error .outOfBounds
  else .ok (m, i)
termination_by 2 * (buf.length - (m + i)) + i

/-- `find(p)`; `none` is `npos`. -/
def find (buf p : List UInt8) : Except Fault (Option ℕ) :=
  if buf.length < p.length then .ok none
  else do
    let t ← failure p
    let (m, i) ← search buf p t 0 0
    let pos := if m + i < buf.length ∨ (m + i = buf.length ∧ i = p.length) then some m else none
    check (Search.first p buf = pos)
    .ok pos

/-! ## Two bytes -/

section Pair

variable {buf l : List UInt8} {a b : UInt8} {m i : ℕ}

/-- At the end of the text the search stops. -/
theorem search_of_le {p : List UInt8} {t : Failure} (h : buf.length ≤ m + i) :
    search buf p t m i = .ok (m, i) := by
  unfold search
  rw [dif_neg (Nat.not_lt.2 h)]

/-- One step of the search for two letters, none of which is matched yet. -/
theorem search_pair_zero (hm : m < buf.length) : search buf [a, b] .zero m 0 =
    if buf[m] = a then search buf [a, b] .zero m 1 else search buf [a, b] .zero (m + 1) 0 := by
  rw [search]
  simp [hm, charAt]

/-- One step of the search for two letters, the first of which is matched. -/
theorem search_pair_one (hm : m + 1 < buf.length) : search buf [a, b] .zero m 1 =
    if buf[m + 1] = b then .ok (m, 2) else search buf [a, b] .zero (m + 1) 0 := by
  rw [search]
  simp [hm, charAt, Failure.zero]

/-- From `m` on the search goes to the first occurrence, or to the end of the slice. -/
theorem search_pair (hab : a ≠ b) (hl : buf.drop m = l) :
    match Search.first [a, b] l with
    | some n => search buf [a, b] .zero m 0 = .ok (m + n, 2)
    | none => ∃ m' i', search buf [a, b] .zero m 0 = .ok (m', i') ∧
        buf.length ≤ m' + i' ∧ i' ≠ 2 := by
  induction l generalizing m with
  | nil =>
    have hlen : buf.length ≤ m := List.drop_eq_nil_iff.1 hl
    exact ⟨m, 0, search_of_le hlen, hlen, by decide⟩
  | cons c l ih =>
    have hm : m < buf.length := by
      by_contra hlen
      rw [List.drop_eq_nil_of_le (Nat.not_lt.1 hlen)] at hl
      cases hl
    rw [List.drop_eq_getElem_cons hm, List.cons_eq_cons] at hl
    rcases hl with ⟨hc, hl⟩
    -- what the search finds behind `c` is one position further
    have hskip : ¬ [a, b] <+: c :: l →
        search buf [a, b] .zero m 0 = search buf [a, b] .zero (m + 1) 0 →
        match Search.first [a, b] (c :: l) with
        | some n => search buf [a, b] .zero m 0 = .ok (m + n, 2)
        | none => ∃ m' i', search buf [a, b] .zero m 0 = .ok (m', i') ∧
            buf.length ≤ m' + i' ∧ i' ≠ 2 := by
      intro hp hs
      have hrest := ih hl
      rw [Search.first_cons hp, hs]
      cases hfirst : Search.first [a, b] l with
      | none =>
        rw [hfirst] at hrest
        exact hrest
      | some n =>
        rw [hfirst] at hrest
        rw [Option.map_some]
        exact hrest.trans (by congr 2; omega)
    by_cases hca : c = a
    · subst hca
      have hs := search_pair_zero (a := c) (b := b) hm
      rw [if_pos hc] at hs
      cases l with
      | nil =>
        have hlen : buf.length ≤ m + 1 := List.drop_eq_nil_iff.1 hl
        rw [search_of_le hlen] at hs
        have hnone : Search.first [c, b] [c] = none := by simp [Search.first]
        rw [hnone]
        exact ⟨m, 1, hs, hlen, by decide⟩
      | cons d l =>
        have hm₁ : m + 1 < buf.length := by
          by_contra hlen
          rw [List.drop_eq_nil_of_le (Nat.not_lt.1 hlen)] at hl
          cases hl
        have hd : buf[m + 1] = d := by
          rw [List.drop_eq_getElem_cons hm₁, List.cons_eq_cons] at hl
          exact hl.1
        rw [search_pair_one hm₁, hd] at hs
        by_cases hdb : d = b
        · subst hdb
          rw [if_pos rfl] at hs
          rw [Search.first_at_head (by simp)]
          exact hs
        · rw [if_neg hdb] at hs
          exact hskip (by simp [Ne.symm hdb]) hs
    · refine hskip (by simp [Ne.symm hca]) ?_
      rw [search_pair_zero hm, hc, if_neg hca]

/-- A pattern of two different bytes is found where it first occurs, and the assertion holds. -/
theorem find_pair (hab : a ≠ b) (buf : List UInt8) :
    find buf [a, b] = .ok (Search.first [a, b] buf) := by
  unfold find
  split
  · rename_i hlen
    -- a text that is too short
    rw [Search.first_of_length_lt hlen]
  · have hfailure : failure [a, b] = .ok .zero := rfl
    have hsearch := search_pair (m := 0) hab (List.drop_zero (l := buf))
    rw [hfailure, ok_bind]
    cases hfirst : Search.first [a, b] buf with
    | some n =>
      have hle := Search.first_add_le hfirst
      rw [hfirst] at hsearch
      simp only at hsearch
      rw [hsearch, Nat.zero_add, ok_bind]
      -- found: the two conditions of the source for a match
      have hend : n + 2 < buf.length ∨ n + 2 = buf.length ∧ 2 = [a, b].length := by
        rw [List.length_cons, List.length_cons, List.length_nil] at hle ⊢
        omega
      simp only
      rw [if_pos hend, check_true rfl, ok_bind]
    | none =>
      rw [hfirst] at hsearch
      rcases hsearch with ⟨m', i', hs, hlen, hi⟩
      rw [hs, ok_bind]
      -- not found: the search has stopped at the end
      have hend : ¬ (m' + i' < buf.length ∨ m' + i' = buf.length ∧ i' = [a, b].length) := by
        rw [List.length_cons, List.length_cons, List.length_nil]
        omega
      simp only
      rw [if_neg hend, check_true rfl, ok_bind]

end Pair

end FxServer.Slice
