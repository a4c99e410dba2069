import Mathlib.Data.List.Basic

/-!
# Machine — runs of a step function with inputs, outputs and faults

A machine is a step function `σ → α → Except ε (σ × β)`: from a state and an
input it either stops with a fault, or gives the next state and an output. The
inputs carry everything the machine does not decide itself (the calls of a
client, the results of system calls, the scheduler's choice), so a run is the
list of its inputs.

Most properties of a program hold only of clients that keep their side of a
contract. `Guarded step guard s as` says that every input of the run meets
`guard` in the state it is given to.

A component of the repository is verified by giving its step function, a guard that
says what its callers promise, and an invariant; the rules turn what is proved of
one step into what holds of every run.

* `run_of_inv` — an invariant that every guarded step keeps (and under which
  none faults) holds after every guarded run.
* `always_iff_guarded` — if a step keeps a property exactly when it meets `guard`, the property
  holds all through a run exactly when the run is guarded.
* `run_refines` — if every guarded step is matched by a step of an abstract,
  fault-free machine, so is every guarded run, output by output.
-/

namespace Machine

variable {σ τ α β γ ε : Type*}

/-- Run the inputs `as` in order from `s`, collecting the outputs. -/
def run (step : σ → α → Except ε (σ × β)) : σ → List α → Except ε (σ × List β)
  | s, [] => .ok (s, [])
  | s, a :: as =>
    match step s a with
    | .error e => .error e
    | .ok (s', b) =>
      match run step s' as with
      | .error e => .error e
      | .ok (s'', bs) => .ok (s'', b :: bs)

/-- Run a machine without faults. -/
def runTotal (step : τ → α → τ × γ) : τ → List α → τ × List γ
  | t, [] => (t, [])
  | t, a :: as =>
    let (t', c) := step t a
    let (t'', cs) := runTotal step t' as
    (t'', c :: cs)

/-- Every input of the run meets `guard` in the state it is given to. -/
def Guarded (step : σ → α → Except ε (σ × β)) (guard : σ → α → Prop) : σ → List α → Prop
  | _, [] => True
  | s, a :: as => guard s a ∧ ∀ s' b, step s a = .ok (s', b) → Guarded step guard s' as

/-- `P` holds in every state that the run reaches, also when a fault ends the run. -/
def Always (step : σ → α → Except ε (σ × β)) (P : σ → Prop) (s : σ) (as : List α) : Prop :=
  ∀ as' s' bs, as' <+: as → run step s as' = .ok (s', bs) → P s'

section Run

variable {step : σ → α → Except ε (σ × β)} {guard : σ → α → Prop}

@[simp] theorem run_nil (s : σ) : run step s [] = .ok (s, []) := rfl

theorem run_cons_ok {s s' s'' : σ} {a : α} {as : List α} {b : β} {bs : List β}
    (ha : step s a = .ok (s', b)) (has : run step s' as = .ok (s'', bs)) :
    run step s (a :: as) = .ok (s'', b :: bs) := by
  simp only [run, ha, has]

/-- Peel the first step off a run that does not fault. -/
theorem run_cons_inv {s s'' : σ} {a : α} {as : List α} {cs : List β}
    (h : run step s (a :: as) = .ok (s'', cs)) :
    ∃ s' b bs, step s a = .ok (s', b) ∧ run step s' as = .ok (s'', bs) ∧ cs = b :: bs := by
  simp only [run] at h
  split at h
  · cases h
  · rename_i s' b ha
    split at h
    · cases h
    · rename_i s₂ bs has
      cases h
      exact ⟨s', b, bs, ha, has, rfl⟩

/-- A run of `as ++ bs` is a run of `as` followed by a run of `bs`. -/
theorem run_append_ok {s s' s'' : σ} {as bs : List α} {xs ys : List β}
    (has : run step s as = .ok (s', xs)) (hbs : run step s' bs = .ok (s'', ys)) :
    run step s (as ++ bs) = .ok (s'', xs ++ ys) := by
  induction as generalizing s xs with
  | nil =>
    cases has
    simpa using hbs
  | cons a as ih =>
    rcases run_cons_inv has with ⟨s₁, b, xs', ha, hrest, rfl⟩
    exact run_cons_ok ha (ih hrest)

/-- Inputs that meet the guard in every state. -/
theorem Guarded.of_forall {as : List α} (h : ∀ a ∈ as, ∀ s, guard s a) (s : σ) :
    Guarded step guard s as := by
  induction as generalizing s with
  | nil => trivial
  | cons a as ih =>
    exact ⟨h a List.mem_cons_self s,
      fun s' _ _ => ih (fun a' ha' => h a' (List.mem_cons_of_mem _ ha')) s'⟩

/-- A guard on a run is a guard on its first step and on the run from there. -/
theorem guarded_cons_ok {s s' : σ} {a : α} {as : List α} {b : β} (ha : step s a = .ok (s', b)) :
    Guarded step guard s (a :: as) ↔ guard s a ∧ Guarded step guard s' as := by
  refine ⟨fun h => ⟨h.1, h.2 s' b ha⟩, fun h => ⟨h.1, fun s₁ b₁ h₁ => ?_⟩⟩
  cases ha.symm.trans h₁
  exact h.2

theorem guarded_cons_error {s : σ} {a : α} {as : List α} {e : ε} (ha : step s a = .error e) :
    Guarded step guard s (a :: as) ↔ guard s a := by
  refine ⟨fun h => h.1, fun h => ⟨h, fun s₁ b₁ h₁ => ?_⟩⟩
  cases ha.symm.trans h₁

instance Guarded.decidable [∀ s, DecidablePred (guard s)] :
    ∀ s as, Decidable (Guarded step guard s as)
  | _, [] => .isTrue trivial
  | s, a :: as =>
    match ha : step s a with
    | .ok (s', _) =>
      have : Decidable (Guarded step guard s' as) := Guarded.decidable s' as
      decidable_of_iff _ (guarded_cons_ok ha).symm
    | .error _ => decidable_of_iff _ (guarded_cons_error ha).symm

/-- Two guards on a run are one. -/
theorem Guarded.and {guard' : σ → α → Prop} {s : σ} {as : List α} (h : Guarded step guard s as)
    (h' : Guarded step guard' s as) : Guarded step (fun s a => guard s a ∧ guard' s a) s as := by
  induction as generalizing s with
  | nil => trivial
  | cons a as ih => exact ⟨⟨h.1, h'.1⟩, fun s' b ha => ih (h.2 s' b ha) (h'.2 s' b ha)⟩

/-- The tail of a guarded run is guarded from the state the head ends in. -/
theorem Guarded.drop {s s' : σ} {as bs : List α} {xs : List β}
    (h : Guarded step guard s (as ++ bs)) (hrun : run step s as = .ok (s', xs)) :
    Guarded step guard s' bs := by
  induction as generalizing s xs with
  | nil =>
    cases hrun
    exact h
  | cons a as ih =>
    rcases run_cons_inv hrun with ⟨s₁, b, xs', ha, hrest, -⟩
    exact ih (h.2 s₁ b ha) hrest

/-- A guard on a run is one on its beginning. -/
theorem Guarded.take {s : σ} {as bs : List α} (h : Guarded step guard s (as ++ bs)) :
    Guarded step guard s as := by
  induction as generalizing s with
  | nil => trivial
  | cons a as ih => exact ⟨h.1, fun s' b hs => ih (h.2 s' b hs)⟩

/-- Invariant rule: a guarded run from an invariant state never faults and ends
in an invariant state. -/
theorem run_of_inv (Inv : σ → Prop)
    (hstep : ∀ s a, Inv s → guard s a → ∃ s' b, step s a = .ok (s', b) ∧ Inv s')
    {s : σ} {as : List α} (hs : Inv s) (hg : Guarded step guard s as) :
    ∃ s' bs, run step s as = .ok (s', bs) ∧ Inv s' := by
  induction as generalizing s with
  | nil => exact ⟨s, [], rfl, hs⟩
  | cons a as ih =>
    rcases hstep s a hs hg.1 with ⟨s₁, b, ha, hs₁⟩
    rcases ih hs₁ (hg.2 s₁ b ha) with ⟨s', bs, has, hs'⟩
    exact ⟨s', b :: bs, run_cons_ok ha has, hs'⟩

/-- Invariant rule for machines that may fault: only the steps that succeed
have to keep the invariant. -/
theorem inv_of_run (Inv : σ → Prop)
    (hstep : ∀ s a s' b, Inv s → guard s a → step s a = .ok (s', b) → Inv s')
    {s s' : σ} {as : List α} {bs : List β} (hs : Inv s) (hg : Guarded step guard s as)
    (hrun : run step s as = .ok (s', bs)) : Inv s' := by
  induction as generalizing s bs with
  | nil =>
    cases hrun
    exact hs
  | cons a as ih =>
    rcases run_cons_inv hrun with ⟨s₁, b, bs', ha, hrest, -⟩
    exact ih (hstep s a s₁ b hs hg.1 ha) (hg.2 s₁ b ha) hrest

/-- Two guards that agree under an invariant admit the same runs. -/
theorem Guarded.iff_of_inv (Inv : σ → Prop) {p q : σ → α → Prop}
    (hstep : ∀ s a s' b, Inv s → guard s a → step s a = .ok (s', b) → Inv s')
    (hiff : ∀ s a, Inv s → guard s a → (p s a ↔ q s a)) {s : σ} {as : List α} (hs : Inv s)
    (hg : Guarded step guard s as) : Guarded step p s as ↔ Guarded step q s as := by
  induction as generalizing s with
  | nil => exact Iff.rfl
  | cons a as ih =>
    refine and_congr (hiff s a hs hg.1) ?_
    exact forall_congr' fun s' => forall_congr' fun b => forall_congr' fun ha =>
      ih (hstep s a s' b hs hg.1 ha) (hg.2 s' b ha)

theorem always_nil {P : σ → Prop} {s : σ} : Always step P s [] ↔ P s := by
  constructor
  · intro h
    exact h [] s [] (List.prefix_refl _) rfl
  · intro hs as' s' bs hprefix hrun
    obtain rfl : as' = [] := List.prefix_nil.1 hprefix
    cases hrun
    exact hs

theorem always_cons {P : σ → Prop} {s : σ} {a : α} {as : List α} :
    Always step P s (a :: as) ↔
      P s ∧ ∀ s' b, step s a = .ok (s', b) → Always step P s' as := by
  constructor
  · intro h
    refine ⟨h [] s [] (List.nil_prefix) rfl, fun s' b ha as' s'' bs hprefix hrun => ?_⟩
    exact h (a :: as') s'' (b :: bs) (List.cons_prefix_cons.2 ⟨rfl, hprefix⟩)
      (run_cons_ok ha hrun)
  · rintro ⟨hs, h⟩ as' s' bs hprefix hrun
    cases as' with
    | nil =>
      cases hrun
      exact hs
    | cons a' as' =>
      rcases List.cons_prefix_cons.1 hprefix with ⟨rfl, hstarts⟩
      rcases run_cons_inv hrun with ⟨s₁, b, bs', ha, hrest, -⟩
      exact h s₁ b ha as' s' bs' hstarts hrest

/-- A property of all states is one that every input finds. -/
theorem Always.guarded {P : σ → Prop} {s : σ} {as : List α} (h : Always step P s as) :
    Guarded step (fun s _ => P s) s as := by
  induction as generalizing s with
  | nil => trivial
  | cons a as ih =>
    rcases always_cons.1 h with ⟨hs, hrest⟩
    exact ⟨hs, fun s' b ha => ih (hrest s' b ha)⟩

instance Always.decidable {P : σ → Prop} [DecidablePred P] :
    ∀ s as, Decidable (Always step P s as)
  | _, [] => decidable_of_iff _ always_nil.symm
  | s, a :: as =>
    match ha : step s a with
    | .ok (s', b) =>
      have : Decidable (Always step P s' as) := Always.decidable s' as
      decidable_of_iff (P s ∧ Always step P s' as) <| by
        rw [always_cons]
        refine and_congr_right fun _ => ⟨fun h s₁ b₁ h₁ => ?_, fun h => h s' b ha⟩
        cases ha.symm.trans h₁
        exact h
    | .error _ =>
      decidable_of_iff (P s) <| by
        rw [always_cons]
        refine (and_iff_left fun s₁ b₁ h₁ => ?_).symm
        cases ha.symm.trans h₁

/-- If a step from a state with `P` leads to a state with `P` exactly when its input meets
`guard`, every state of a run has `P` exactly when every input meets `guard`. -/
theorem always_iff_guarded {P : σ → Prop}
    (hiff : ∀ s a, P s → (guard s a ↔ ∀ s' b, step s a = .ok (s', b) → P s'))
    {s : σ} {as : List α} (hs : P s) : Always step P s as ↔ Guarded step guard s as := by
  induction as generalizing s with
  | nil => exact iff_of_true (always_nil.2 hs) trivial
  | cons a as ih =>
    rw [always_cons, Guarded, hiff s a hs]
    constructor
    · rintro ⟨-, h⟩
      have hnext : ∀ s' b, step s a = .ok (s', b) → P s' := fun s' b ha =>
        h s' b ha [] s' [] List.nil_prefix rfl
      exact ⟨hnext, fun s' b ha => (ih (hnext s' b ha)).1 (h s' b ha)⟩
    · rintro ⟨hnext, h⟩
      exact ⟨hs, fun s' b ha => (ih (hnext s' b ha)).2 (h s' b ha)⟩

/-- Simulation rule: if every guarded step from related states succeeds, is
matched by the abstract step and relates the outputs, then every guarded run
from related states succeeds and is matched by the abstract run. -/
theorem run_refines {astep : τ → α → τ × γ} {R : σ → τ → Prop} {Q : β → γ → Prop}
    (hstep : ∀ s t a, R s t → guard s a →
      ∃ s' b, step s a = .ok (s', b) ∧ R s' (astep t a).1 ∧ Q b (astep t a).2)
    {s : σ} {t : τ} {as : List α} (hR : R s t) (hg : Guarded step guard s as) :
    ∃ s' bs, run step s as = .ok (s', bs) ∧ R s' (runTotal astep t as).1 ∧
      List.Forall₂ Q bs (runTotal astep t as).2 := by
  induction as generalizing s t with
  | nil => exact ⟨s, [], rfl, hR, .nil⟩
  | cons a as ih =>
    rcases hstep s t a hR hg.1 with ⟨s₁, b, ha, hR₁, hb⟩
    rcases ih hR₁ (hg.2 s₁ b ha) with ⟨s', bs, has, hR', hbs⟩
    exact ⟨s', b :: bs, run_cons_ok ha has, hR', .cons hb hbs⟩

end Run

end Machine
