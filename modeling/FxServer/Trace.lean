import Mathlib.Data.Nat.Notation

/-!
# Trace — computations that leave a trace

A computation may fail, and what it has done up to then stays in its trace. The trace only
grows, so it can be split into what was there before and what has been added.

The entries are not looked at, only collected. A property of all entries is proved along the
structure of the computation, without running it.

* `Gives.bind` — the rule of sequence for what is added, and for the result.
* `Starts.bind` — what is added first stays first.
-/

namespace Trace

variable {ε τ α β : Type}

/-- Computations that may fail with `ε` and leave a trace of `τ`. -/
abbrev Traced (ε τ α : Type) := ExceptT ε (StateM (List τ)) α

/-- An entry is added to the trace: how many were before. -/
def note (e : τ) : Traced ε τ ℕ := do
  let es ← get
  set (es ++ [e])
  return es.length

/-- The result, behind the trace `es`. -/
def outcome (x : Traced ε τ α) (es : List τ) : Except ε α := (x.run.run es).1

/-- The trace, behind the trace `es`. -/
def trace (x : Traced ε τ α) (es : List τ) : List τ := (x.run.run es).2

/-- `x` adds entries that meet `P`, and its result, if it has one, meets `Q`. -/
def Gives (P : τ → Prop) (x : Traced ε τ α) (Q : α → Prop) : Prop :=
  ∀ es, (∃ new, trace x es = es ++ new ∧ ∀ e ∈ new, P e) ∧ ∀ a, outcome x es = .ok a → Q a

/-- The trace only grows. -/
def Grows (x : Traced ε τ α) : Prop := ∀ es, es <+: trace x es

/-- The first entry that `x` adds is `e`. -/
def Starts (e : τ) (x : Traced ε τ α) : Prop := ∀ es, ∃ new, trace x es = es ++ e :: new

section Rules

variable {P : τ → Prop} {Q : α → Prop} {R : β → Prop} {x : Traced ε τ α} {f : α → Traced ε τ β}
  {y : Except ε α} {e : τ} {es : List τ} {a : α}

/-- A successful first part leaves its trace to the second. -/
theorem bind_ok (h : outcome x es = .ok a) :
    trace (x >>= f) es = trace (f a) (trace x es) ∧
      outcome (x >>= f) es = outcome (f a) (trace x es) := by
  have hx : x.run.run es = (.ok a, trace x es) := Prod.ext h rfl
  have hbind : (x >>= f).run.run es = (f a).run.run (trace x es) := by
    rw [ExceptT.run_bind, StateT.run_bind, hx]
    rfl
  exact ⟨congrArg Prod.snd hbind, congrArg Prod.fst hbind⟩

/-- A failing first part leaves out the second. -/
theorem bind_error {fault : ε} (h : outcome x es = .error fault) :
    trace (x >>= f) es = trace x es ∧ outcome (x >>= f) es = .error fault := by
  have hx : x.run.run es = (.error fault, trace x es) := Prod.ext h rfl
  have hbind : (x >>= f).run.run es = (.error fault, trace x es) := by
    rw [ExceptT.run_bind, StateT.run_bind, hx]
    rfl
  exact ⟨congrArg Prod.snd hbind, congrArg Prod.fst hbind⟩

@[simp] theorem outcome_pure : outcome (pure a : Traced ε τ α) es = .ok a := rfl

@[simp] theorem outcome_lift : outcome (liftM y : Traced ε τ α) es = y := rfl

/-- What follows an entry knows how many were before. -/
@[simp] theorem outcome_note_bind {f : ℕ → Traced ε τ β} :
    outcome (note e >>= f) es = outcome (f es.length) (es ++ [e]) := rfl

/-- What follows a computation without a trace. -/
@[simp] theorem outcome_lift_bind :
    outcome ((liftM y : Traced ε τ α) >>= f) es = y >>= fun a => outcome (f a) es := by
  cases y with
  | error fault => rfl
  | ok a => rfl

theorem gives_pure (h : Q a) : Gives P (pure a : Traced ε τ α) Q := fun es =>
  ⟨⟨[], (List.append_nil es).symm, by simp⟩, fun a' ha' => by
    cases ha'
    exact h⟩

/-- A computation without a trace. -/
theorem gives_lift (h : ∀ a, y = .ok a → Q a) : Gives P (liftM y : Traced ε τ α) Q := fun es =>
  ⟨⟨[], (List.append_nil es).symm, by simp⟩, h⟩

theorem gives_note (h : P e) : Gives P (note e : Traced ε τ ℕ) fun _ => True := fun es =>
  ⟨⟨[e], rfl, by simpa using h⟩, fun _ _ => trivial⟩

/-- What both parts give, the whole gives. -/
theorem Gives.bind (hx : Gives P x Q) (hf : ∀ a, Q a → Gives P (f a) R) :
    Gives P (x >>= f) R := by
  intro es
  rcases hx es with ⟨⟨new, hnew, hP⟩, hQ⟩
  cases h : outcome x es with
  | error fault =>
    rcases bind_error (f := f) h with ⟨htrace, hout⟩
    exact ⟨⟨new, htrace.trans hnew, hP⟩, fun b hb => by cases hout.symm.trans hb⟩
  | ok a =>
    rcases bind_ok (f := f) h with ⟨htrace, hout⟩
    rcases hf a (hQ a h) (trace x es) with ⟨⟨new', hnew', hP'⟩, hR⟩
    refine ⟨⟨new ++ new', ?_, ?_⟩, fun b hb => hR b (hout.symm.trans hb)⟩
    · rw [htrace, hnew', hnew, List.append_assoc]
    · intro e he
      rcases List.mem_append.1 he with he | he
      · exact hP e he
      · exact hP' e he

theorem starts_note : Starts e (note e : Traced ε τ ℕ) := fun _ => ⟨[], rfl⟩

theorem grows_pure (a : α) : Grows (pure a : Traced ε τ α) := fun _ => List.prefix_rfl

/-- The trace only grows. -/
theorem Gives.grows (h : Gives P x Q) : Grows x := fun es => by
  rcases h es with ⟨⟨new, hnew, -⟩, -⟩
  exact ⟨new, hnew.symm⟩

/-- What follows only adds to the trace. -/
theorem Starts.bind (hx : Starts e x) (hf : ∀ a, Grows (f a)) : Starts e (x >>= f) := by
  intro es
  rcases hx es with ⟨new, hnew⟩
  cases h : outcome x es with
  | error fault => exact ⟨new, (bind_error (f := f) h).1.trans hnew⟩
  | ok a =>
    rcases hf a (trace x es) with ⟨new', hnew'⟩
    refine ⟨new ++ new', ?_⟩
    rw [(bind_ok (f := f) h).1, ← hnew', hnew, List.append_assoc, List.cons_append]

/-- What comes before adds nothing. -/
theorem starts_lift_bind (hy : y = .ok a) (hf : Starts e (f a)) :
    Starts e ((liftM y : Traced ε τ α) >>= f) := by
  intro es
  have hout : outcome (liftM y : Traced ε τ α) es = .ok a := hy
  rcases hf es with ⟨new, hnew⟩
  exact ⟨new, (bind_ok hout).1.trans hnew⟩

end Rules

end Trace
