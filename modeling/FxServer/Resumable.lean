import Mathlib.Data.List.Basic

/-!
# Resumable — handlers that are called until they have to wait for more

A handler takes a state and a buffer, and gives a reply and both as it leaves them. A driver
calls it as long as the reply is `go` and the state is not `done`; `Drives` says what comes of
that, a fault included. The elements in a buffer are what `view` shows.

`Stable` is what makes it possible to stop and go on: a handler that has to wait changes
nothing, and any other reply stays the same, with what it leaves in the buffer, when more
elements follow.

Nothing is said of what a handler does. The two rules hold for any handler that is stable, with
any kind of buffer, so a parser needs to show only that each of its functions is.

* `Drives.append` — once the driver does not wait, what follows is left in the buffer.
* `Drives.resume` — while it waits, it is the same to drive now and again with what follows, or
  once with everything.
-/

namespace Resumable

variable {σ β ρ ε α : Type}

/-- What comes of calling the handler until it waits, stops, fails or is done; `r` is the last
reply. -/
inductive Drives (handler : σ → β → Except ε (ρ × σ × β)) (done : σ → Prop) (go : ρ) :
    ρ → σ → β → Except ε (ρ × σ × β) → Prop
  | done {r s b} (hdone : done s) : Drives handler done go r s b (.ok (r, s, b))
  | fault {r s b x} (hdone : ¬ done s) (h : handler s b = .error x) :
    Drives handler done go r s b (.error x)
  | halt {r s b r' s' b'} (hdone : ¬ done s) (h : handler s b = .ok (r', s', b'))
    (hgo : r' ≠ go) : Drives handler done go r s b (.ok (r', s', b'))
  | go {r s b s' b' out} (hdone : ¬ done s) (h : handler s b = .ok (go, s', b'))
    (hrest : Drives handler done go go s' b' out) : Drives handler done go r s b out

/-- The same result, with `e` behind what is left in the buffer. -/
def Extends (view : β → List α) (e : List α) :
    Except ε (ρ × σ × β) → Except ε (ρ × σ × β) → Prop
  | .ok (r, s, b), .ok (r', s', b') => r' = r ∧ s' = s ∧ view b' = view b ++ e
  | .error x, .error y => y = x
  | _, _ => False

/-- The reply is not to wait for more. -/
def Settles (wait : ρ) : Except ε (ρ × σ × β) → Prop
  | .ok (r, _, _) => r ≠ wait
  | .error _ => True

/-- What makes it possible to stop and go on: a handler that waits has changed nothing, and
one that does not wait does the same when more elements follow. -/
structure Stable (handler : σ → β → Except ε (ρ × σ × β)) (view : β → List α) (go wait : ρ) :
    Prop where
  go_ne : go ≠ wait
  /-- nothing is changed while waiting -/
  waits : ∀ s b s' b', handler s b = .ok (wait, s', b') → s' = s ∧ view b' = view b
  /-- the handler sees what is in the buffer, and has seen enough unless it waits -/
  sees : ∀ s b b₂ e, view b₂ = view b ++ e → e = [] ∨ Settles wait (handler s b) →
    Extends view e (handler s b) (handler s b₂)

section Extends

variable {view : β → List α} {e : List α} {r : ρ} {s : σ} {b : β} {x : ε}
  {out out' out'' : Except ε (ρ × σ × β)}

theorem Extends.of_ok (h : Extends view e (.ok (r, s, b)) out) :
    ∃ b', out = .ok (r, s, b') ∧ view b' = view b ++ e := by
  match out with
  | .ok (_, _, b') =>
    rcases h with ⟨rfl, rfl, hview⟩
    exact ⟨b', rfl, hview⟩

theorem Extends.of_error (h : Extends view e (.error x) out) : out = .error x := by
  match out with
  | .error _ =>
    obtain rfl : _ = x := h
    rfl

end Extends

section Drives

variable {handler : σ → β → Except ε (ρ × σ × β)} {view : β → List α} {done : σ → Prop}
  {go wait r r' : ρ} {s s' : σ} {b b' b₂ b₃ : β} {e : List α} {out : Except ε (ρ × σ × β)}

/-- The last reply matters only when there is nothing to do. -/
theorem Drives.reply (h : Drives handler done go r s b out) (hdone : ¬ done s) (r' : ρ) :
    Drives handler done go r' s b out := by
  cases h with
  | done h => exact absurd h hdone
  | fault _ h => exact .fault hdone h
  | halt _ h hgo => exact .halt hdone h hgo
  | go _ h hrest => exact .go hdone h hrest

/-- A loop is driven to one result only. -/
theorem Drives.unique {out' : Except ε (ρ × σ × β)} (h : Drives handler done go r s b out)
    (h' : Drives handler done go r s b out') : out = out' := by
  induction h with
  | done hdone =>
    cases h' with
    | done => rfl
    | fault hnot | halt hnot | go hnot => exact absurd hdone hnot
  | fault hdone h =>
    cases h' with
    | done hdone' => exact absurd hdone' hdone
    | fault _ h' => exact (Except.error.inj (h.symm.trans h')) ▸ rfl
    | halt _ h' | go _ h' => cases h.symm.trans h'
  | halt hdone h hgo =>
    cases h' with
    | done hdone' => exact absurd hdone' hdone
    | fault _ h' => cases h.symm.trans h'
    | halt _ h' =>
      cases h.symm.trans h'
      rfl
    | go _ h' =>
      cases h.symm.trans h'
      exact absurd rfl hgo
  | go hdone h _ ih =>
    cases h' with
    | done hdone' => exact absurd hdone' hdone
    | fault _ h' => cases h.symm.trans h'
    | halt _ h' hgo =>
      cases h.symm.trans h'
      exact absurd rfl hgo
    | go _ h' hrest =>
      cases h.symm.trans h'
      exact ih hrest

/-- The last call, when the driver stops for another reason than that it is done. -/
theorem Drives.last (h : Drives handler done go r s b (.ok (r', s', b'))) :
    done s' ∧ (r' = r ∨ r' = go) ∨
      ∃ s₀ b₀, ¬ done s₀ ∧ handler s₀ b₀ = .ok (r', s', b') ∧ r' ≠ go := by
  generalize hout : Except.ok (r', s', b') = out at h
  induction h with
  | done hdone =>
    cases hout
    -- the loop found its state done
    exact .inl ⟨hdone, .inl rfl⟩
  | fault _ _ => cases hout
  | halt hdone h hgo =>
    cases hout
    -- the last call halted it
    exact .inr ⟨_, _, hdone, h, hgo⟩
  | go _ _ _ ih =>
    rcases ih hout with ⟨hdone, hr⟩ | hlast
    · exact .inl ⟨hdone, .inr (hr.elim id id)⟩
    · exact .inr hlast

/-- What every call keeps of the state, the driver keeps. -/
theorem Drives.inv {Inv : σ → Prop}
    (hstep : ∀ s b r s' b', Inv s → handler s b = .ok (r, s', b') → Inv s')
    (h : Drives handler done go r s b (.ok (r', s', b'))) (hs : Inv s) : Inv s' := by
  generalize hout : Except.ok (r', s', b') = out at h
  induction h with
  | done _ =>
    cases hout
    exact hs
  | fault _ _ => cases hout
  | halt _ h _ =>
    cases hout
    exact hstep _ _ _ _ _ hs h
  | go _ h _ ih => exact ih (hstep _ _ _ _ _ hs h) hout

/-- The driver gets the same from buffers that show the same. -/
theorem Drives.same (hstable : Stable handler view go wait) (h : Drives handler done go r s b out)
    (hview : view b₂ = view b) :
    ∃ out₂, Drives handler done go r s b₂ out₂ ∧ Extends view [] out out₂ := by
  induction h generalizing b₂ with
  | done hdone => exact ⟨_, .done hdone, rfl, rfl, by rw [hview, List.append_nil]⟩
  | @fault _ s b _ hdone h =>
    -- a handler sees the view alone
    have hsees := hstable.sees s b b₂ [] (by rw [hview, List.append_nil]) (.inl rfl)
    rw [h] at hsees
    exact ⟨_, .fault hdone hsees.of_error, rfl⟩
  | @halt _ s b _ _ _ hdone h hgo =>
    have hsees := hstable.sees s b b₂ [] (by rw [hview, List.append_nil]) (.inl rfl)
    rw [h] at hsees
    rcases hsees.of_ok with ⟨b', hb', hview'⟩
    exact ⟨_, .halt hdone hb' hgo, rfl, rfl, hview'⟩
  | @go _ s b _ _ _ hdone h _ ih =>
    have hsees := hstable.sees s b b₂ [] (by rw [hview, List.append_nil]) (.inl rfl)
    rw [h] at hsees
    rcases hsees.of_ok with ⟨b', hb', hview'⟩
    rw [List.append_nil] at hview'
    rcases ih hview' with ⟨out₂, hdrives, hout⟩
    exact ⟨out₂, .go hdone hb' hdrives, hout⟩

/-- A driver that does not wait leaves what follows in the buffer. -/
theorem Drives.append (hstable : Stable handler view go wait)
    (h : Drives handler done go r s b out) (hsettles : Settles wait out)
    (hview : view b₂ = view b ++ e) :
    ∃ out₂, Drives handler done go r s b₂ out₂ ∧ Extends view e out out₂ := by
  induction h generalizing b₂ with
  | done hdone => exact ⟨_, .done hdone, rfl, rfl, hview⟩
  | @fault _ s b _ hdone h =>
    have hsees := hstable.sees s b b₂ e hview (.inr (by rw [h]; trivial))
    rw [h] at hsees
    exact ⟨_, .fault hdone hsees.of_error, rfl⟩
  | @halt _ s b _ _ _ hdone h hgo =>
    -- the last call does not wait, so it ignores what is behind
    have hsees := hstable.sees s b b₂ e hview (.inr (by rw [h]; exact hsettles))
    rw [h] at hsees
    rcases hsees.of_ok with ⟨b', hb', hview'⟩
    exact ⟨_, .halt hdone hb' hgo, rfl, rfl, hview'⟩
  | @go _ s b _ _ _ hdone h _ ih =>
    -- nor does a call that goes on
    have hsees := hstable.sees s b b₂ e hview (.inr (by rw [h]; exact hstable.go_ne))
    rw [h] at hsees
    rcases hsees.of_ok with ⟨b', hb', hview'⟩
    rcases ih hsettles hview' with ⟨out₂, hdrives, hout⟩
    exact ⟨out₂, .go hdone hb' hdrives, hout⟩

/-- A driver that waits can be called again, with what follows behind what it has left. -/
theorem Drives.resume (hstable : Stable handler view go wait)
    (h : Drives handler done go r s b (.ok (wait, s', b'))) (hr : r ≠ wait)
    (hview : view b₂ = view b ++ e) (hview₃ : view b₃ = view b' ++ e)
    (h₃ : Drives handler done go r' s' b₃ out) :
    ∃ out₂, Drives handler done go r s b₂ out₂ ∧ Extends view [] out out₂ := by
  generalize hwait : Except.ok (wait, s', b') = first at h
  induction h generalizing b₂ with
  | done _ =>
    cases hwait
    exact absurd rfl hr
  | fault _ _ => cases hwait
  | halt hdone h _ =>
    cases hwait
    -- the call that waited is made again, with what it left
    rcases hstable.waits _ _ _ _ h with ⟨rfl, hleft⟩
    exact (h₃.reply hdone _).same hstable (by rw [hview, hview₃, hleft])
  | @go _ s b _ _ _ hdone h _ ih =>
    have hsees := hstable.sees s b b₂ e hview (.inr (by rw [h]; exact hstable.go_ne))
    rw [h] at hsees
    rcases hsees.of_ok with ⟨b₁, hb₁, hview₁⟩
    rcases ih hstable.go_ne hview₁ hwait with ⟨out₂, hdrives, hout⟩
    exact ⟨out₂, .go hdone hb₁ hdrives, hout⟩

end Drives

end Resumable
