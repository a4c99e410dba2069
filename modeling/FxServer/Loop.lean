import Mathlib.Data.Nat.Notation
import Mathlib.Order.WellFounded
import Mathlib.Tactic.TypeStar

/-!
# Loop — loops whose rounds are answered from outside

A round takes the state and an answer, and stops with a fault, leaves the loop (`none`), or
gives the state of the next round. The answers are chosen by another party, which keeps to what
`allows` says.

The answers of a run are not given in advance, so an infinite loop is a strategy of the other
party and not a list: in each state it has an answer that leads back to such a state.

* `finishes_of_measure` — a loop that comes nearer to its end with every allowed answer is left.
* `finishes_of_rank` — the same with a rank in any well-founded order.
* `not_finishes_of_forever` — a loop in which there is always an answer that keeps it going is
  not.
-/

namespace Loop

variable {σ ι ε : Type*} {round : σ → ι → Except ε (Option σ)} {allows : σ → ι → Prop}

/-- Whatever the answers are, the loop is left after finitely many rounds, without a fault. -/
inductive Finishes (round : σ → ι → Except ε (Option σ)) (allows : σ → ι → Prop) : σ → Prop where
  | intro {s : σ} (ok : ∀ i, allows s i → ∃ next, round s i = .ok next)
    (next : ∀ i s', allows s i → round s i = .ok (some s') → Finishes round allows s') :
    Finishes round allows s

/-- A loop finishes when every round lowers a measure. -/
theorem finishes_of_measure (Inv : σ → Prop) (measure : σ → ℕ)
    (hstep : ∀ s i, Inv s → allows s i → ∃ next, round s i = .ok next ∧
      ∀ s', next = some s' → Inv s' ∧ measure s' < measure s)
    {s : σ} (hs : Inv s) : Finishes round allows s := by
  induction hn : measure s using Nat.strongRecOn generalizing s with
  | _ n ih =>
    refine ⟨fun i hi => ?_, fun i s' hi hround => ?_⟩
    · rcases hstep s i hs hi with ⟨next, hround, -⟩
      exact ⟨next, hround⟩
    · rcases hstep s i hs hi with ⟨next, hround', hnext⟩
      obtain rfl : next = some s' := Except.ok.inj (hround'.symm.trans hround)
      rcases hnext s' rfl with ⟨hs', hless⟩
      exact ih (measure s') (hn ▸ hless) hs' rfl

/-- The same with a rank in any well-founded order. -/
theorem finishes_of_rank {α : Type*} [LT α] [WellFoundedLT α] (Inv : σ → Prop) (rank : σ → α)
    (hstep : ∀ s i, Inv s → allows s i → ∃ next, round s i = .ok next ∧
      ∀ s', next = some s' → Inv s' ∧ rank s' < rank s)
    {s : σ} (hs : Inv s) : Finishes round allows s := by
  induction hr : rank s using WellFoundedLT.induction generalizing s with
  | ind r ih =>
    refine ⟨fun i hi => ?_, fun i s' hi hround => ?_⟩
    · rcases hstep s i hs hi with ⟨next, hround, -⟩
      exact ⟨next, hround⟩
    · rcases hstep s i hs hi with ⟨next, hround', hnext⟩
      obtain rfl : next = some s' := Except.ok.inj (hround'.symm.trans hround)
      rcases hnext s' rfl with ⟨hs', hless⟩
      exact ih (rank s') (hr ▸ hless) hs' rfl

/-- A loop does not finish when some round always leads back to where another one does. -/
theorem not_finishes_of_forever (Stuck : σ → Prop)
    (hstep : ∀ s, Stuck s → ∃ i s', allows s i ∧ round s i = .ok (some s') ∧ Stuck s')
    {s : σ} (hs : Stuck s) : ¬ Finishes round allows s := by
  intro h
  induction h with
  | intro _ _ ih =>
    rcases hstep _ hs with ⟨i, s', hi, hround, hs'⟩
    exact ih i s' hi hround hs'

end Loop
