import Mathlib.Algebra.BigOperators.Group.Finset.Piecewise

/-!
# Headcount — how many threads are at a point of their program

`pcs i` is where the thread `i` is, for finitely many threads. `headcount p pcs` counts those that
are at a point with `p`. A step moves one thread, and so changes the count by what it leaves and
by what it reaches.

A sum over the threads is never computed: only its change by a step matters, which is that of the
one thread that moves.

* `headcount_update` — one thread moves.
-/

namespace Headcount

variable {ι π : Type*} [Fintype ι]

/-- The number of threads at a point with `p`. -/
def headcount (p : π → Bool) (pcs : ι → π) : ℕ := ∑ i, (p (pcs i)).toNat

variable {p : π → Bool} {pcs : ι → π} {i : ι}

/-- When one thread moves on, the count changes by that thread alone. -/
theorem headcount_update [DecidableEq ι] (p : π → Bool) (pcs : ι → π) (i : ι) (pc : π) :
    headcount p (Function.update pcs i pc) + (p (pcs i)).toNat =
      headcount p pcs + (p pc).toNat := by
  have hsplit : ∀ f : ι → π, headcount p f =
      ∑ j ∈ Finset.univ.erase i, (p (f j)).toNat + (p (f i)).toNat := fun f =>
    (Finset.sum_erase_add Finset.univ _ (Finset.mem_univ i)).symm
  have hrest : ∑ j ∈ Finset.univ.erase i, (p (Function.update pcs i pc j)).toNat =
      ∑ j ∈ Finset.univ.erase i, (p (pcs j)).toNat := by
    refine Finset.sum_congr rfl fun j hj => ?_
    rw [Function.update_of_ne (Finset.ne_of_mem_erase hj)]
  rw [hsplit, hsplit pcs, hrest, Function.update_self]
  exact Nat.add_right_comm _ _ _

/-- A move between points that count the same. -/
theorem headcount_update_same [DecidableEq ι] {pc : π} (h : p pc = p (pcs i)) :
    headcount p (Function.update pcs i pc) = headcount p pcs := by
  have hmove := headcount_update p pcs i pc
  rw [h] at hmove
  exact Nat.add_right_cancel hmove

end Headcount
