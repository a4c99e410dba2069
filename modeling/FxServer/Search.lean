import Mathlib.Data.List.Infix

/-!
# Search — the first occurrence of a pattern

`first p d` is the least position of the list `d` at which the pattern `p` starts. What comes
behind an occurrence does not move it, and what comes before does not when the pattern cannot
start there.

The definition is the specification itself, a search from left to right. The lemmas are about
texts that grow at their end and texts that are joined from parts, which is how a stream of lines
comes in.

* `first_eq_some` — what it means that a position is the first.
* `first_append` — more may follow.
* `first_append_of_notMem` — a part without the head of the pattern is skipped.
-/

namespace Search

variable {α : Type*} [DecidableEq α]

/-- The first position at which `p` occurs. -/
def first (p : List α) : List α → Option ℕ
  | [] => if p = [] then some 0 else none
  | a :: d => if p <+: a :: d then some 0 else (first p d).map (· + 1)

/-- The parts between the occurrences of `p`, which is not empty, from left to right. -/
def split (p : List α) (d : List α) : List (List α) :=
  match first p d with
  | none => [d]
  | some n =>
    if d.length - (n + p.length) < d.length then
      d.take n :: split p (d.drop (n + p.length))
    else [d]
termination_by d.length

variable {p d e : List α} {a : α} {n : ℕ}

theorem first_at_head (h : p <+: a :: d) : first p (a :: d) = some 0 := if_pos h

theorem first_cons (h : ¬ p <+: a :: d) : first p (a :: d) = (first p d).map (· + 1) := if_neg h

/-- The pattern lies within the list. -/
theorem first_add_le (h : first p d = some n) : n + p.length ≤ d.length := by
  induction d generalizing n with
  | nil =>
    unfold first at h
    split at h
    · rename_i hp
      cases h
      simp [hp]
    · cases h
  | cons a d ih =>
    by_cases hp : p <+: a :: d
    · rw [first_at_head hp] at h
      cases h
      simpa using hp.length_le
    · rw [first_cons hp, Option.map_eq_some_iff] at h
      rcases h with ⟨m, hm, rfl⟩
      -- the occurrence is the same one, seen from one letter later
      have hle := ih hm
      simp only [List.length_cons]
      omega

/-- A list that is shorter than the pattern does not have it. -/
theorem first_of_length_lt (h : d.length < p.length) : first p d = none := by
  cases hfirst : first p d with
  | none => rfl
  | some n =>
    have hle := first_add_le hfirst
    omega

/-- The first occurrence is at the first position where the pattern is a prefix of the rest.
-/
theorem first_eq_some :
    first p d = some n ↔ n ≤ d.length ∧ p <+: d.drop n ∧ ∀ m < n, ¬ p <+: d.drop m := by
  induction d generalizing n with
  | nil =>
    by_cases hp : p = []
    · subst hp
      rw [first, if_pos rfl, Option.some_inj]
      constructor
      · rintro rfl
        simp
      · rintro ⟨hle, -⟩
        exact (Nat.le_zero.1 hle).symm
    · simp [first, hp]
  | cons a d ih =>
    by_cases hp : p <+: a :: d
    · -- the pattern occurs at the head
      rw [first_at_head hp]
      constructor
      · rintro ⟨rfl⟩
        exact ⟨Nat.zero_le _, hp, by simp⟩
      · rintro ⟨-, -, hfirst⟩
        cases n with
        | zero => rfl
        | succ n => exact absurd hp (hfirst 0 (Nat.succ_pos n))
    · -- it occurs behind the head, if at all
      rw [first_cons hp, Option.map_eq_some_iff]
      constructor
      · rintro ⟨m, hm, rfl⟩
        rcases ih.1 hm with ⟨hle, hat, hfirst⟩
        refine ⟨Nat.succ_le_succ hle, hat, fun k hk => ?_⟩
        cases k with
        | zero => exact hp
        | succ k => exact hfirst k (Nat.lt_of_succ_lt_succ hk)
      · rintro ⟨hle, hat, hfirst⟩
        cases n with
        | zero => exact absurd hat hp
        | succ n =>
          refine ⟨n, ih.2 ⟨Nat.le_of_succ_le_succ hle, hat, fun m hm => ?_⟩, rfl⟩
          exact hfirst (m + 1) (Nat.succ_lt_succ hm)

/-- There is none exactly when the pattern is no infix. -/
theorem first_eq_none : first p d = none ↔ ¬ p <:+: d := by
  induction d with
  | nil => simp [first]
  | cons a d ih =>
    by_cases hp : p <+: a :: d
    · simp [first_at_head hp, hp.isInfix]
    · rw [first_cons hp, Option.map_eq_none_iff, ih, List.infix_cons_iff]
      simp [hp]

/-- What follows does not move the first occurrence. -/
theorem first_append (h : first p d = some n) (e : List α) : first p (d ++ e) = some n := by
  have hlen := first_add_le h
  rw [first_eq_some] at h ⊢
  rcases h with ⟨hle, hat, hfirst⟩
  refine ⟨by rw [List.length_append]; omega, ?_, fun m hm hp => hfirst m hm ?_⟩
  · rw [List.drop_append_of_le_length hle]
    exact hat.trans (List.prefix_append _ _)
  · -- an earlier occurrence would end before the one that was found
    rw [List.drop_append_of_le_length (by omega)] at hp
    refine List.prefix_of_prefix_length_le hp (List.prefix_append _ _) ?_
    rw [List.length_drop]
    omega

/-- A part in which the pattern cannot start is skipped. -/
theorem first_append_of_notMem (ha : a ∉ e) (d : List α) :
    first (a :: p) (e ++ d) = (first (a :: p) d).map (· + e.length) := by
  induction e with
  | nil => simp
  | cons b e ih =>
    rw [List.mem_cons, not_or] at ha
    have hhead : ¬ a :: p <+: b :: (e ++ d) := by
      rw [List.cons_prefix_cons]
      exact fun h => ha.1 h.1
    rw [List.cons_append, first_cons hhead, ih ha.2, Option.map_map]
    rfl

section Pair

variable {b : α}

/-- Two elements that do not occur together before. -/
theorem first_pair (hab : a ≠ b) (he : ¬ [a, b] <:+: e) (d : List α) :
    first [a, b] (e ++ ([a, b] ++ d)) = some e.length := by
  induction e with
  | nil => exact first_at_head (List.prefix_append _ _)
  | cons x e ih =>
    rw [List.infix_cons_iff, not_or] at he
    have hhead : ¬ [a, b] <+: x :: (e ++ ([a, b] ++ d)) := by
      intro hpair
      rcases List.cons_prefix_cons.1 hpair with ⟨rfl, hnext⟩
      cases e with
      | nil =>
        -- what comes next is the first of the pair itself
        exact hab (List.cons_prefix_cons.1 hnext).1.symm
      | cons y e =>
        rcases List.cons_prefix_cons.1 hnext with ⟨rfl, -⟩
        exact he.1 ⟨e, rfl⟩
    rw [List.cons_append, first_cons hhead, ih he.2]
    rfl

omit [DecidableEq α] in
/-- Two elements do not come together when the second is not the head of what is appended. -/
theorem pair_append (he : ¬ [a, b] <:+: e) (hd : ¬ [a, b] <:+: d) (hhead : d.head? ≠ some b) :
    ¬ [a, b] <:+: e ++ d := by
  rw [List.infix_append_iff_ne_nil]
  rintro (h | h | ⟨l₁, l₂, h₁, h₂, heq, -, hd'⟩)
  · exact he h
  · exact hd h
  · -- the pair can only be cut in the middle
    cases l₁ with
    | nil => exact h₁ rfl
    | cons x l₁ =>
      cases l₁ with
      | nil =>
        rcases List.cons.inj heq with ⟨-, rfl⟩
        rcases hd' with ⟨t, rfl⟩
        exact hhead rfl
      | cons y l₁ =>
        have hnil : l₁ = [] ∧ l₂ = [] := by simpa using (List.cons.inj (List.cons.inj heq).2).2
        exact h₂ hnil.2

end Pair

/-! ## Parts, and lists that are made of parts -/

theorem split_none (h : first p d = none) : split p d = [d] := by
  rw [split, h]

/-- With one, the parts are what is before it and the parts of what is behind. -/
theorem split_some (h : first p d = some n) (hp : p ≠ []) :
    split p d = d.take n :: split p (d.drop (n + p.length)) := by
  have hle := first_add_le h
  have hpos := List.length_pos_of_ne_nil hp
  rw [split, h]
  exact if_pos (by omega)

theorem split_ne_nil (p d : List α) : split p d ≠ [] := by
  rw [split]
  split
  · exact List.cons_ne_nil _ _
  · split
    · exact List.cons_ne_nil _ _
    · exact List.cons_ne_nil _ _

/-- A part ends where the pattern starts, or at the end of the list. -/
theorem mem_split {c : List α} (h : c ∈ split p d) :
    ∃ x y, d = x ++ (c ++ y) ∧ (y = [] ∨ p <+: y) := by
  fun_induction split p d with
  | case1 d hnone =>
    rw [List.mem_singleton] at h
    exact ⟨[], [], by simp [h], .inl rfl⟩
  | case2 d n hfirst hlt ih =>
    rcases List.mem_cons.1 h with rfl | hrest
    · exact ⟨[], d.drop n, by simp, .inr (first_eq_some.1 hfirst).2.1⟩
    · rcases ih hrest with ⟨x, y, heq, hy⟩
      -- a later part is a part of the rest behind the occurrence
      refine ⟨d.take (n + p.length) ++ x, y, ?_, hy⟩
      rw [List.append_assoc, ← heq, List.take_append_drop]
  | case3 d n hfirst hlt =>
    rw [List.mem_singleton] at h
    exact ⟨[], [], by simp [h], .inl rfl⟩

/-- Behind a part that has not the head of the pattern comes the pattern. -/
theorem first_part (ha : a ∉ e) (d : List α) :
    first (a :: p) (e ++ (a :: p ++ d)) = some e.length := by
  rw [first_append_of_notMem ha, List.cons_append,
    first_at_head (by simp), Option.map_some, Nat.zero_add]

/-- Parts that have not the head of the pattern come back when they are joined and split. -/
theorem split_intercalate {parts : List (List α)} (hne : parts ≠ [])
    (h : ∀ part ∈ parts, a ∉ part) : split (a :: p) (List.intercalate (a :: p) parts) = parts := by
  induction parts with
  | nil => exact absurd rfl hne
  | cons part parts ih =>
    rw [List.forall_mem_cons] at h
    cases parts with
    | nil =>
      rw [List.intercalate_singleton]
      refine split_none (first_eq_none.2 fun hpart => h.1 (hpart.subset List.mem_cons_self))
    | cons part' parts =>
      rw [List.intercalate_cons_cons, List.append_assoc,
        split_some (first_part h.1 _) (List.cons_ne_nil _ _), List.take_left]
      rw [← List.append_assoc, ← List.length_append, List.drop_left, ih (List.cons_ne_nil _ _) h.2]

section Double

variable {parts : List (List α)}

/-- Behind a part the pattern comes once, and then something else. -/
theorem first_double (ha : a ∉ p) (he : a ∉ e) (hd : d.head? ≠ some a) :
    first (a :: p ++ a :: p) (e ++ (a :: p ++ d)) =
      (first (a :: p ++ a :: p) d).map (· + (e ++ a :: p).length) := by
  have hhead : ¬ a :: p ++ a :: p <+: a :: p ++ d := by
    rw [List.prefix_append_right_inj]
    rintro ⟨l, rfl⟩
    exact hd rfl
  rw [List.cons_append, List.cons_append] at hhead
  rw [List.cons_append, first_append_of_notMem he, List.cons_append, first_cons hhead,
    first_append_of_notMem ha, Option.map_map, Option.map_map]
  refine congrArg (Option.map · _) (funext fun n => ?_)
  rw [List.length_append, List.length_cons]
  exact (by omega : n + p.length + 1 + e.length = n + (e.length + (p.length + 1)))

omit [DecidableEq α] in
theorem head?_append_ne {part : List α} (h : a ∉ part ∧ part ≠ []) (d : List α) :
    (part ++ d).head? ≠ some a := by
  rw [List.head?_append_of_ne_nil _ h.2]
  exact fun hhead => h.1 (List.mem_of_mem_head? hhead)

/-- Joined parts, and the pattern twice behind them. -/
theorem first_intercalate (ha : a ∉ p) (hne : parts ≠ [])
    (h : ∀ part ∈ parts, a ∉ part ∧ part ≠ []) (d : List α) :
    first (a :: p ++ a :: p) (List.intercalate (a :: p) parts ++ (a :: p ++ a :: p ++ d)) =
      some (List.intercalate (a :: p) parts).length := by
  induction parts with
  | nil => exact absurd rfl hne
  | cons part parts ih =>
    rw [List.forall_mem_cons] at h
    cases parts with
    | nil =>
      rw [List.intercalate_singleton]
      exact first_part h.1.1 d
    | cons part' parts =>
      -- the next part does not begin like a separator, so no occurrence begins before it
      have hhead : (List.intercalate (a :: p) (part' :: parts) ++
          (a :: p ++ a :: p ++ d)).head? ≠ some a := by
        have hpart' := h.2 part' List.mem_cons_self
        cases parts with
        | nil =>
          rw [List.intercalate_singleton]
          exact head?_append_ne hpart' _
        | cons part'' parts =>
          rw [List.intercalate_cons_cons, List.append_assoc, List.append_assoc]
          exact head?_append_ne hpart' _
      rw [List.intercalate_cons_cons, List.append_assoc, List.append_assoc part,
        first_double ha h.1.1 hhead, ih (List.cons_ne_nil _ _) h.2, Option.map_some,
        Nat.add_comm, ← List.length_append]

omit [DecidableEq α] in
/-- Ending every part with the separator is joining them and ending the whole. -/
theorem flatten_lines (hne : parts ≠ []) :
    (parts.map (· ++ p)).flatten = List.intercalate p parts ++ p := by
  induction parts with
  | nil => exact absurd rfl hne
  | cons part parts ih =>
    cases parts with
    | nil => simp
    | cons part' parts =>
      rw [List.map_cons, List.flatten_cons, ih (List.cons_ne_nil _ _), List.intercalate_cons_cons,
        List.append_assoc, List.append_assoc, List.append_assoc]

/-- Parts, and the pattern once behind each. -/
theorem first_lines (ha : a ∉ p) (h : ∀ part ∈ parts, a ∉ part ∧ part ≠ []) :
    first (a :: p ++ a :: p) (parts.map (· ++ a :: p)).flatten = none := by
  induction parts with
  | nil => rfl
  | cons part parts ih =>
    rw [List.forall_mem_cons] at h
    have hhead : (parts.map (· ++ a :: p)).flatten.head? ≠ some a := by
      cases parts with
      | nil => exact fun hnone => by cases hnone
      | cons part' parts =>
        rw [List.map_cons, List.flatten_cons, List.append_assoc]
        exact head?_append_ne (h.2 part' List.mem_cons_self) _
    rw [List.map_cons, List.flatten_cons, List.append_assoc, first_double ha h.1.1 hhead, ih h.2,
      Option.map_none]

end Double

end Search
