import FxServer.Machine

/-!
# Fifo — a queue, and what a run of it returns

The abstract queue that a ring of messages is compared with: `push` appends, `pop`
takes the head. `pops_append` says that along every run what comes out is what went
in, in order.

`Ahead first later q` says that in `q` nothing of `later` comes before the first `first`. It
is kept when the head is taken, and when elements join either end in order.

Neither part knows of a ring or of a loop. A component is shown to be a queue by relating its
states to the lists here, call by call.
-/

namespace Fifo

open Machine

variable {α : Type*}

/-- A call on a queue. -/
inductive Op (α : Type*) where
  | push (a : α)
  | pop
deriving DecidableEq, Repr

/-- What a call returns: whether a push was accepted, or the message popped. -/
inductive Out (α : Type*) where
  /-- whether the push was accepted -/
  | pushed (accepted : Bool)
  | popped (a : Option α)
deriving DecidableEq, Repr

/-- A call on the queue, which refuses nothing. -/
def apply (q : List α) : Op α → List α × Out α
  | .push a => (q ++ [a], .pushed true)
  | .pop => (q.tail, .popped q.head?)

/-- The queue behind a call that has returned `out`: a push may be refused. -/
def after (q : List α) : Op α → Out α → List α
  | .push a, .pushed true => q ++ [a]
  | .pop, .popped (some _) => q.tail
  | _, _ => q

/-- The queue behind all the calls of a run. -/
def afterAll (q : List α) : List (Op α) → List (Out α) → List α
  | op :: ops, out :: outs => afterAll (after q op out) ops outs
  | _, _ => q

/-- What the calls push, in order. -/
def pushes (ops : List (Op α)) : List α :=
  ops.filterMap fun | .push a => some a | .pop => none

/-- What the successful pops return, in order. -/
def pops (outs : List (Out α)) : List α :=
  outs.filterMap fun | .popped a => a | .pushed _ => none

/-- What comes out, followed by what is left, is what went in. -/
theorem pops_append (q : List α) (ops : List (Op α)) :
    pops (runTotal apply q ops).2 ++ (runTotal apply q ops).1 = q ++ pushes ops := by
  induction ops generalizing q with
  | nil => simp [runTotal, pops, pushes]
  | cons op ops ih =>
    cases op with
    | push a => simpa [runTotal, apply, pops, pushes] using ih (q ++ [a])
    | pop =>
      cases q with
      | nil => simpa [runTotal, apply, pops, pushes] using ih []
      | cons a q => simpa [runTotal, apply, pops, pushes] using ih q

/-! ## Order -/

/-- No element of `later` comes before the first `first`. -/
def Ahead (first : α) (later : α → Prop) : List α → Prop
  | [] => True
  | a :: q => a = first ∨ ¬ later a ∧ Ahead first later q

section Ahead

variable {first a : α} {later : α → Prop} {q : List α}

/-- While the first is still waiting, no later one is at the head. -/
theorem Ahead.head (h : Ahead first later (a :: q)) (hne : a ≠ first) : ¬ later a :=
  (h.resolve_left hne).1

/-- Taking another from the head leaves the first ahead of the later ones. -/
theorem Ahead.tail (h : Ahead first later (a :: q)) (hne : a ≠ first) : Ahead first later q :=
  (h.resolve_left hne).2

/-- So does putting one that is not later in front. -/
theorem Ahead.cons (h : Ahead first later q) (ha : ¬ later a) : Ahead first later (a :: q) :=
  .inr ⟨ha, h⟩

/-- A later one may only be queued while the first is there. -/
theorem Ahead.append (h : Ahead first later q) (ha : later a → first ∈ q) :
    Ahead first later (q ++ [a]) := by
  induction q with
  | nil =>
    refine .inr ⟨fun hlater => ?_, trivial⟩
    cases ha hlater
  | cons b q ih =>
    rcases h with rfl | ⟨hb, hrest⟩
    · exact .inl rfl
    · by_cases hfirst : b = first
      · exact .inl hfirst
      · refine .inr ⟨hb, ih hrest fun hlater => ?_⟩
        exact (List.mem_cons.1 (ha hlater)).resolve_left (Ne.symm hfirst)

theorem ahead_of_forall (h : ∀ a ∈ q, ¬ later a) : Ahead first later q := by
  induction q with
  | nil => trivial
  | cons a q ih =>
    have htail := ih fun a' ha' => h a' (List.mem_cons_of_mem a ha')
    exact htail.cons (h a List.mem_cons_self)

/-- Only `first` and what must come behind it count. -/
theorem ahead_filter {p : α → Bool} (hfirst : p first = true)
    (hlater : ∀ a, later a → p a = true) :
    Ahead first later (q.filter p) ↔ Ahead first later q := by
  induction q with
  | nil => rfl
  | cons a q ih =>
    by_cases ha : p a = true
    · rw [List.filter_cons_of_pos ha]
      exact or_congr Iff.rfl (and_congr Iff.rfl ih)
    · rw [List.filter_cons_of_neg ha, ih]
      have hne : a ≠ first := fun heq => ha (heq ▸ hfirst)
      exact ⟨fun h => h.cons fun hlate => ha (hlater a hlate), fun h => h.tail hne⟩

end Ahead

end Fifo
