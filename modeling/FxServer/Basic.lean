import Mathlib.Data.Int.Basic
import Mathlib.Tactic.NormNum

/-!
# FxServer.Basic — faults, assertions and C integers

The code under verification aborts on a failed `assert` or `PCHECK` and has
undefined behavior when it indexes outside an array or an `int` overflows. These end a run of the
model with a `Fault`; a function of the source that can do none of them is a plain
function, any other returns `Except Fault`.
-/

namespace FxServer

/-- How a run of the code goes wrong. -/
inductive Fault where
  /-- an `assert`, `CHECK` or `PCHECK` fails: the process aborts -/
  | assertion
  /-- memory outside the object is accessed -/
  | outOfBounds
  /-- an object is used that has been destroyed -/
  | useAfterFree
  /-- an exception is thrown and not caught -/
  | exception
  /-- the result of an `int` operation is no `int` -/
  | overflow
deriving DecidableEq, Repr

/-- `assert(p)` -/
def check (p : Prop) [Decidable p] : Except Fault Unit :=
  if p then .ok () else .error .assertion

/-- An assertion passes exactly when its condition holds. -/
@[simp] theorem check_ok {p : Prop} [Decidable p] {u : Unit} : check p = .ok u ↔ p := by
  unfold check
  split <;> simp [*]

theorem check_true {p : Prop} [Decidable p] (h : p) : check p = .ok () := if_pos h

theorem check_false {p : Prop} [Decidable p] (h : ¬ p) : check p = .error .assertion := if_neg h

@[simp] theorem ok_bind {ε α β : Type} (a : α) (f : α → Except ε β) :
    (Except.ok a >>= f) = f a := rfl

/-- Peel a step off a computation that does not fault. -/
theorem bind_ok {ε α β : Type} {x : Except ε α} {f : α → Except ε β} {b : β} :
    (x >>= f) = .ok b ↔ ∃ a, x = .ok a ∧ f a = .ok b := by
  cases x with
  | error e => simp [bind, Except.bind]
  | ok a => simp [bind, Except.bind]

theorem map_ok {ε α β : Type} {x : Except ε α} {f : α → β} {b : β} :
    x.map f = .ok b ↔ ∃ a, x = .ok a ∧ f a = b := by
  cases x <;> simp [Except.map]

/-- Conversion of an integer to a 32-bit `int`: the low 32 bits, read as a
two's complement number. -/
def toInt (n : ℤ) : ℤ := n.bmod (2 ^ 32)

/-- Narrowing keeps every number below `2 ^ 31`. -/
theorem toInt_of_lt {n : ℕ} (h : n < 2 ^ 31) : toInt n = n := by
  unfold toInt
  rw [Int.bmod_eq_of_le] <;> omega

theorem toInt_lt (n : ℤ) : toInt n < 2 ^ 31 := by
  unfold toInt
  have := Int.bmod_lt (x := n) (m := 2 ^ 32) (by decide)
  omega

/-- Numbers below `2 ^ 31` are the only ones that narrowing keeps. -/
theorem toInt_eq_self {n : ℕ} : toInt n = n ↔ n < 2 ^ 31 := by
  refine ⟨fun h => ?_, toInt_of_lt⟩
  have hlt := toInt_lt n
  omega

/-- What survives of a difference: at most the difference, when not negative. -/
theorem toInt_le (n : ℕ) : toInt n ≤ n := by
  unfold toInt
  rw [Int.bmod_def]
  have := Int.emod_nonneg (n : ℤ) (show ((2 ^ 32 : ℕ) : ℤ) ≠ 0 by norm_num)
  have := Int.mul_ediv_add_emod (n : ℤ) ((2 ^ 32 : ℕ) : ℤ)
  have : 0 ≤ (n : ℤ) / ((2 ^ 32 : ℕ) : ℤ) := Int.ediv_nonneg (by omega) (by omega)
  split <;> omega

end FxServer
