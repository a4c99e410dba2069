import FxServer.ProcessBus

/-!
# FxServer.ProcessBus.Reopen — a bus that could not be opened

`TryRecover`, `Connect` and `Listen` open the file, may look at its size, and map it. Each returns
as soon as one of these fails, and none gives back what it has got by then. `Inited` asks for the
descriptor alone.

The three calls differ in what they test, but each of them sets the descriptor right behind
`open` and returns from anywhere behind that. So the only thing to be known of a call is whether
its `open` has succeeded.

* `failed_open_iff` — a failed call leaves the bus as it was just when `open` is what has failed.
  Otherwise every further call aborts.
* `recover_blocks_listen` — a `TryRecover` that finds no file, and a `Listen` behind it.
-/

namespace FxServer.ProcessBus

/-- The calls that open a bus. -/
inductive Opening where
  | tryRecover
  | connect
  | listen
deriving DecidableEq, Repr

/-- What such a call does to the bus and the file, and what it returns. -/
def opening (b : ProcessBus) (op : Opening) (file : Option BusFile) (os : Outcome) :
    Except Fault (ProcessBus × Option BusFile × ℤ) :=
  match op with
  | .tryRecover => b.tryRecover file os
  | .connect => b.connect file os
  | .listen => b.listen file os

/-- `open` fails; where `Connect` finds no file, the one that is to create it. -/
def FailsAtOpen (op : Opening) (file : Option BusFile) (os : Outcome) : Prop :=
  os.opens = none ∨ op = .connect ∧ file = none ∧ os.creates = none

variable {b b' : ProcessBus} {f : BusFile} {op : Opening} {file file' : Option BusFile}
  {os : Outcome} {reuse : Bool} {code failed : ℤ} {fd : ℕ}

/-- A call returns from behind `map` with the descriptor. -/
theorem map_fd (hok : b.map f os reuse failed = .ok (b', file', code)) : b'.mmapFd = b.mmapFd := by
  unfold map at hok
  split at hok
  · rcases bind_ok.1 hok with ⟨r, -, hok⟩
    cases hok
    rfl
  · cases hok
    rfl

theorem inited_of_fd (h : b.mmapFd = (fd : ℤ)) : b.inited = true := by
  refine decide_eq_true ?_
  omega

/-- Once the file is open `TryRecover` keeps its descriptor, whatever it returns. -/
theorem tryRecover_fd (hopen : os.opens = some fd)
    (hok : b.tryRecover file os = .ok (b', file', code)) : b'.mmapFd = fd := by
  rcases bind_ok.1 hok with ⟨_, -, hok⟩
  simp only [hopen] at hok
  split at hok
  · cases hok
    rfl
  · split at hok
    · cases hok
      rfl
    · exact map_fd hok

/-- Once the file is open `Listen` keeps its descriptor, whatever it returns. -/
theorem listen_fd (hopen : os.opens = some fd)
    (hok : b.listen file os = .ok (b', file', code)) : b'.mmapFd = fd := by
  rcases bind_ok.1 hok with ⟨_, -, hok⟩
  simp only [hopen] at hok
  exact map_fd hok

/-- Once the file is open or created `Connect` keeps its descriptor. -/
theorem connect_fd (hopen : os.opens = some fd) (hcreate : file = none → os.creates ≠ none)
    (hok : b.connect file os = .ok (b', file', code)) : ∃ fd : ℕ, b'.mmapFd = fd := by
  rcases bind_ok.1 hok with ⟨_, -, hok⟩
  cases file with
  | some f =>
    simp only [hopen] at hok
    exact ⟨fd, map_fd hok⟩
  | none =>
    rcases Option.ne_none_iff_exists'.1 (hcreate rfl) with ⟨fd', hcreates⟩
    simp only [hopen, hcreates] at hok
    exact ⟨fd', map_fd hok⟩

/-- Behind an `open` that succeeds, the bus has a descriptor, whatever comes of the call. -/
theorem opening_fd (hopen : ¬ FailsAtOpen op file os)
    (hok : b.opening op file os = .ok (b', file', code)) : ∃ fd : ℕ, b'.mmapFd = fd := by
  unfold FailsAtOpen at hopen
  rw [not_or] at hopen
  rcases hopen with ⟨hopens, hcreates⟩
  rcases Option.ne_none_iff_exists'.1 hopens with ⟨fd, hopens⟩
  cases op with
  | tryRecover => exact ⟨fd, tryRecover_fd hopens hok⟩
  | listen => exact ⟨fd, listen_fd hopens hok⟩
  | connect =>
    refine connect_fd hopens (fun hfile hnone => ?_) hok
    exact hcreates ⟨rfl, hfile, hnone⟩

/-- An `open` that fails leaves nothing behind. -/
theorem opening_failed (hopen : FailsAtOpen op file os)
    (hok : b.opening op file os = .ok (b', file', code)) : b' = b ∧ code ≠ 0 := by
  rcases hopen with hopens | ⟨rfl, rfl, hcreates⟩
  · cases op with
    | tryRecover | connect | listen =>
      rcases bind_ok.1 hok with ⟨_, -, hok⟩
      simp only [hopens] at hok
      cases hok
      exact ⟨rfl, by decide⟩
  · -- `Connect` could neither open nor create the file
    rcases bind_ok.1 hok with ⟨_, -, hok⟩
    cases hopens : os.opens with
    | none =>
      simp only [hopens] at hok
      cases hok
      exact ⟨rfl, by decide⟩
    | some fd =>
      simp only [hopens, hcreates] at hok
      cases hok
      exact ⟨rfl, by decide⟩

/-- A bus with a descriptor cannot be opened. -/
theorem opening_inited (hinited : b.inited = true) (op : Opening) (file : Option BusFile)
    (os : Outcome) : b.opening op file os = .error .assertion := by
  have hcheck : check (b.inited = false) = .error .assertion := check_false (by simp [hinited])
  cases op with
  | tryRecover =>
    show b.tryRecover file os = _
    rw [tryRecover, hcheck]
    rfl
  | connect =>
    show b.connect file os = _
    unfold connect
    rw [hcheck]
    rfl
  | listen =>
    show b.listen file os = _
    rw [listen, hcheck]
    rfl

/-- A bus that is not open is to be opened. The call fails and leaves the bus as it was if and only
if `open` has failed. Otherwise the bus keeps the descriptor, and all further calls fail their
assertion. -/
theorem failed_open_iff (b b' : ProcessBus) (op : Opening) (file file' : Option BusFile)
    (os : Outcome) (code : ℤ) (hclosed : b.inited = false)
    (hok : b.opening op file os = .ok (b', file', code)) :
    (code ≠ 0 ∧ b' = b ↔ FailsAtOpen op file os) ∧
      (b' ≠ b → ∀ op' file₁ os₁, b'.opening op' file₁ os₁ = .error .assertion) := by
  by_cases hopen : FailsAtOpen op file os
  · rcases opening_failed hopen hok with ⟨hsame, hcode⟩
    exact ⟨iff_of_true ⟨hcode, hsame⟩ hopen, fun hne => absurd hsame hne⟩
  · rcases opening_fd hopen hok with ⟨fd, hfd⟩
    have hinited : b'.inited = true := inited_of_fd hfd
    constructor
    · refine iff_of_false ?_ hopen
      rintro ⟨-, hsame⟩
      rw [hsame, hclosed] at hinited
      cases hinited
    · intro _ op' file₁ os₁
      exact opening_inited hinited op' file₁ os₁

/-- No descriptor is left. -/
def noDescriptor : Outcome := { succeeds with opens := none }

/-- A `Listen` that gets no descriptor. -/
theorem failed_open_run : ∃ b' file', (new 64).opening .listen none noDescriptor =
    .ok (b', file', -1) ∧ b' = new 64 :=
  ⟨new 64, none, rfl,
    ((failed_open_iff (new 64) (new 64) .listen none none noDescriptor (-1) rfl rfl).1.2
      (.inl rfl)).2⟩

/-- `TryRecover` creates the file, finds it empty and returns `-3`. `Listen`, called next, fails
its assertion. -/
theorem recover_blocks_listen : ∃ b' file', (new 64).opening .tryRecover none succeeds =
      .ok (b', file', -3) ∧ b' ≠ new 64 ∧ b'.mmapFd = 3 ∧
    b'.opening .listen file' succeeds = .error .assertion := by
  refine ⟨(new 64).setFd 3, some .created, rfl, fun hsame => ?_, rfl, rfl⟩
  exact absurd (congrArg mmapFd hsame) (by decide)

end FxServer.ProcessBus
