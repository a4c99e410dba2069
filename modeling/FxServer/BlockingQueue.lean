import FxServer.Headcount

/-!
# FxServer.BlockingQueue — a queue between threads

The model of `src/include/fx_blocking_queue.hpp`, with any number of threads that call `Push` and
`Pop` again and again. What a thread does with `queue_op_mutex_` locked is one step: the push, and
each test of `Pop` with what follows from it, be it the pop or the start of a wait. `notify_one`
comes behind the mutex and is a step of its own. A wait may end without a notification.

The threads interleave freely, so the invariant counts instead of looking at single threads: each
push owes one wake-up until its `notify_one`, and a notified consumer owes one test. A
notification that finds nobody waiting is lost without harm, as every consumer that comes later
tests before it waits. `Headcount` supplies the sums.

* `Covered` — while a consumer waits, there is a wake-up on its way for each item in the queue.
* `delivers_once` — what is popped is what was pushed, in order, and no consumer is stranded.
-/

namespace FxServer

/-- The queue itself; the mutex and the condition variable are in the steps. -/
structure BlockingQueue (T : Type) where
  internalQueue : List T
deriving DecidableEq, Repr

namespace BlockingQueue

open Headcount

variable {T P C : Type}

/-- `Push` with the mutex locked. -/
def push (q : BlockingQueue T) (t : T) : BlockingQueue T := ⟨q.internalQueue ++ [t]⟩

/-- `Pop` behind a test of its loop: the front and the rest, or nothing, and it has to wait. -/
def pop (q : BlockingQueue T) : Option (T × BlockingQueue T) :=
  match q.internalQueue with
  | [] => none
  | t :: rest => some (t, ⟨rest⟩)

/-! ## The threads -/

/-- Where a producer is in `Push`. -/
inductive ProducerPc where
  | idle
  /-- the item is in the queue, and `notify_one` comes next -/
  | notifying
deriving DecidableEq, Repr

/-- Where a consumer is in `Pop`. -/
inductive ConsumerPc where
  | idle
  /-- in `wait`, and not notified -/
  | waiting
  /-- notified, and about to test again -/
  | notified
  /-- `wait` has ended by itself, and the test comes next -/
  | woken
deriving DecidableEq, Repr

def ProducerPc.owesNotify : ProducerPc → Bool
  | .notifying => true
  | .idle => false

def ConsumerPc.owesTest : ConsumerPc → Bool
  | .notified => true
  | .idle | .waiting | .woken => false

/-- The queue with its producers `P` and its consumers `C`. -/
structure Threads (T P C : Type) where
  queue : BlockingQueue T
  producers : P → ProducerPc
  consumers : C → ConsumerPc
  /-- history: what has been pushed -/
  pushed : List T
  /-- history: what calls of `Pop` have taken -/
  popped : List T

namespace Threads

/-- An empty queue, and no thread has begun. -/
def init : Threads T P C where
  queue := ⟨[]⟩
  producers := fun _ => .idle
  consumers := fun _ => .idle
  pushed := []
  popped := []

/-- A step of one thread, or a wait that ends by itself. -/
inductive Op (T P C : Type) where
  | push (p : P) (t : T)
  /-- `notify_one`, which wakes a consumer that waits, if there is one -/
  | notify (p : P) (c : Option C)
  /-- `Pop` tests whether the queue is empty, at first or behind `wait` -/
  | test (c : C)
  /-- a spurious wake-up -/
  | spurious (c : C)
deriving DecidableEq, Repr

/-- Some consumer waits. -/
def Waits (s : Threads T P C) : Prop := ∃ c, s.consumers c = .waiting

section Steps

variable [DecidableEq P] [DecidableEq C]

def setProducer (s : Threads T P C) (p : P) (pc : ProducerPc) : Threads T P C :=
  { s with producers := Function.update s.producers p pc }

def setConsumer (s : Threads T P C) (c : C) (pc : ConsumerPc) : Threads T P C :=
  { s with consumers := Function.update s.consumers c pc }

/-- The test of `Pop`, for a consumer that does not wait. -/
def test (s : Threads T P C) (c : C) : Threads T P C :=
  match s.queue.pop with
  | none => s.setConsumer c .waiting
  | some (t, queue) => { s.setConsumer c .idle with queue, popped := s.popped ++ [t] }

variable [Fintype C]

instance (s : Threads T P C) : Decidable s.Waits := inferInstanceAs (Decidable (∃ _, _))

/-- One step; a step that is not enabled changes nothing. -/
def step (s : Threads T P C) : Op T P C → Threads T P C
  | .push p t =>
    match s.producers p with
    | .idle => { s.setProducer p .notifying with
        queue := s.queue.push t
        pushed := s.pushed ++ [t] }
    | .notifying => s
  | .notify p none => if s.producers p = .notifying ∧ ¬ s.Waits then s.setProducer p .idle else s
  | .notify p (some c) =>
    if s.producers p = .notifying ∧ s.consumers c = .waiting then
      (s.setProducer p .idle).setConsumer c .notified
    else s
  | .test c =>
    match s.consumers c with
    | .waiting => s
    | .idle | .notified | .woken => s.test c
  | .spurious c =>
    match s.consumers c with
    | .waiting => s.setConsumer c .woken
    | .idle | .notified | .woken => s

/-- A run: the steps in any order. -/
def run (s : Threads T P C) (ops : List (Op T P C)) : Threads T P C := ops.foldl step s

end Steps

/-! ## The invariant -/

variable [Fintype P] [Fintype C]

/-- The wake-ups that are on their way: pushes that have not notified yet, and notified consumers
that have not tested yet. -/
def outstanding (s : Threads T P C) : ℕ :=
  headcount ProducerPc.owesNotify s.producers + headcount ConsumerPc.owesTest s.consumers

/-- While a consumer waits, no item lacks a wake-up. -/
def Covered (s : Threads T P C) : Prop := s.Waits → s.queue.internalQueue.length ≤ s.outstanding

/-- What holds behind every step: what was popped and what is in the queue are what was
pushed, and no item lacks a wake-up. -/
structure Inv (s : Threads T P C) : Prop where
  /-- what was popped, and behind it what is in the queue, is what was pushed -/
  delivered : s.popped ++ s.queue.internalQueue = s.pushed
  /-- no item lacks a wake-up while a consumer waits -/
  covered : s.Covered

theorem init_inv : Inv (init : Threads T P C) where
  delivered := rfl
  covered _ := Nat.zero_le _

variable [DecidableEq P] [DecidableEq C] {s : Threads T P C} {p : P} {c : C}

omit [DecidableEq C] in
/-- A push adds its value to the queue and to what was pushed, and owes one wake-up. -/
theorem Inv.push (h : Inv s) (hp : s.producers p = .idle) (t : T) :
    Inv { s.setProducer p .notifying with queue := s.queue.push t, pushed := s.pushed ++ [t] } := by
  have hcount := headcount_update ProducerPc.owesNotify s.producers p .notifying
  rw [hp] at hcount
  constructor
  · show s.popped ++ (s.queue.internalQueue ++ [t]) = s.pushed ++ [t]
    rw [← List.append_assoc, h.delivered]
  · -- one more item, and one more producer that is going to notify
    intro hwaits
    have hcovered : s.queue.internalQueue.length ≤ s.outstanding := h.covered hwaits
    show (s.queue.internalQueue ++ [t]).length ≤
      headcount _ (Function.update s.producers p .notifying) + headcount _ s.consumers
    rw [List.length_append, List.length_singleton]
    unfold outstanding at hcovered
    simp only [ProducerPc.owesNotify, Bool.toNat_true, Bool.toNat_false] at hcount
    omega

omit [DecidableEq C] in
/-- A notification that finds nobody waiting gets lost. -/
theorem Inv.notify_none (h : Inv s) (hwaits : ¬ s.Waits) : Inv (s.setProducer p .idle) := by
  constructor
  · exact h.delivered
  · intro hwaits'
    exact absurd hwaits' hwaits

/-- With a notification that reaches a waiter, the wake-up goes over to that consumer. -/
theorem Inv.notify_some (h : Inv s) (hp : s.producers p = .notifying)
    (hc : s.consumers c = .waiting) :
    Inv ((s.setProducer p .idle).setConsumer c .notified) := by
  have hproducers := headcount_update ProducerPc.owesNotify s.producers p .idle
  have hconsumers := headcount_update ConsumerPc.owesTest s.consumers c .notified
  rw [hp] at hproducers
  rw [hc] at hconsumers
  constructor
  · exact h.delivered
  · -- the wake-up goes over from the producer to the consumer
    intro _
    have hcovered : s.queue.internalQueue.length ≤ s.outstanding := h.covered ⟨c, hc⟩
    show s.queue.internalQueue.length ≤ headcount _ (Function.update s.producers p .idle) +
      headcount _ (Function.update s.consumers c .notified)
    unfold outstanding at hcovered
    simp only [ProducerPc.owesNotify, ConsumerPc.owesTest, Bool.toNat_true, Bool.toNat_false]
      at hproducers hconsumers
    omega

omit [Fintype P] [Fintype C] [DecidableEq P] in
/-- A consumer that leaves `waiting` does not make another one wait. -/
theorem waits_of_setConsumer {pc : ConsumerPc} (hpc : pc ≠ .waiting)
    (h : (s.setConsumer c pc).Waits) : s.Waits := by
  rcases h with ⟨c', hc'⟩
  have hc' : Function.update s.consumers c pc c' = .waiting := hc'
  refine ⟨c', ?_⟩
  by_cases hsame : c' = c
  · subst hsame
    rw [Function.update_self] at hc'
    exact absurd hc' hpc
  · rwa [Function.update_of_ne hsame] at hc'

omit [DecidableEq P] in
/-- The test of the loop condition, first or after a wake-up, either takes the head or
sleeps on an empty queue. -/
theorem Inv.test (h : Inv s) (c : C) : Inv (s.test c) := by
  unfold Threads.test pop
  cases hqueue : s.queue.internalQueue with
  | nil =>
    -- the queue is empty, whoever waits
    constructor
    · exact h.delivered
    · intro _
      show s.queue.internalQueue.length ≤ _
      rw [hqueue]
      exact Nat.zero_le _
  | cons t rest =>
    have hcount := headcount_update ConsumerPc.owesTest s.consumers c .idle
    constructor
    · show (s.popped ++ [t]) ++ rest = s.pushed
      rw [List.append_assoc, List.singleton_append, ← hqueue, h.delivered]
    · -- one item less; at most one wake-up is used up
      intro hwaits
      have hcovered : s.queue.internalQueue.length ≤ s.outstanding :=
        h.covered (waits_of_setConsumer (by decide) hwaits)
      show rest.length ≤ headcount _ s.producers +
        headcount _ (Function.update s.consumers c .idle)
      rw [hqueue, List.length_cons] at hcovered
      unfold outstanding at hcovered
      have hle := Bool.toNat_le (s.consumers c).owesTest
      simp only [ConsumerPc.owesTest, Bool.toNat_false] at hcount hle
      omega

omit [DecidableEq P] in
/-- A consumer that wakes up by itself owes nothing. -/
theorem Inv.spurious (h : Inv s) (hc : s.consumers c = .waiting) :
    Inv (s.setConsumer c .woken) := by
  constructor
  · exact h.delivered
  · intro _
    have hcovered : s.queue.internalQueue.length ≤ s.outstanding := h.covered ⟨c, hc⟩
    show s.queue.internalQueue.length ≤
      headcount _ s.producers + headcount _ (Function.update s.consumers c .woken)
    rw [headcount_update_same (by rw [hc]; rfl)]
    exact hcovered

/-- Every step of every thread keeps the invariant. -/
theorem step_inv (h : Inv s) (op : Op T P C) : Inv (s.step op) := by
  unfold step
  split
  · split
    · rename_i hp
      exact h.push hp _
    · exact h
  · split
    · rename_i hnotify
      -- nobody waits: the notification gets lost
      exact h.notify_none hnotify.2
    · exact h
  · split
    · rename_i hnotify
      exact h.notify_some hnotify.1 hnotify.2
    · exact h
  · split
    · exact h
    all_goals exact h.test _
  · split
    · rename_i hc
      -- a spurious wake-up is no notification, but leads to a test all the same
      exact h.spurious hc
    all_goals exact h

/-- So does every run, in whatever order the threads take their steps. -/
theorem run_inv (h : Inv s) (ops : List (Op T P C)) : Inv (s.run ops) := by
  induction ops generalizing s with
  | nil => exact h
  | cons op ops ih => exact ih (step_inv h op)

/-- Whatever the order of the steps: the values popped are a prefix of the values pushed, the
queue holds the others in their order, and while it holds any and a consumer waits, there are as
many wake-ups on their way as items. -/
theorem delivers_once (ops : List (Op T P C)) :
    ((init : Threads T P C).run ops).popped <+: ((init : Threads T P C).run ops).pushed ∧
      ((init : Threads T P C).run ops).popped ++
          ((init : Threads T P C).run ops).queue.internalQueue =
        ((init : Threads T P C).run ops).pushed ∧
      (((init : Threads T P C).run ops).queue.internalQueue ≠ [] →
        ((init : Threads T P C).run ops).Waits →
        ((init : Threads T P C).run ops).queue.internalQueue.length ≤
          ((init : Threads T P C).run ops).outstanding) := by
  have h : Inv ((init : Threads T P C).run ops) := run_inv init_inv ops
  refine ⟨?_, h.delivered, ?_⟩
  · exact ⟨_, h.delivered⟩
  · intro _
    exact h.covered

/-- Two consumers wait and two producers push; one of them has notified, and the consumer that
it woke has taken the first value. -/
def twoPushes : List (Op ℕ Bool Bool) := [
  .test false, .test true, .push false 5, .push true 6, .notify false (some false), .test false]

/-- The second value is in the queue, and the second producer is about to notify the consumer
that waits for it. -/
theorem delivers_once_run :
    ((init : Threads ℕ Bool Bool).run twoPushes).popped = [5] ∧
      [5] ++ ((init : Threads ℕ Bool Bool).run twoPushes).queue.internalQueue = [5, 6] ∧
      ((init : Threads ℕ Bool Bool).run twoPushes).Waits ∧
      1 ≤ ((init : Threads ℕ Bool Bool).run twoPushes).outstanding := by
  have hwaits : ((init : Threads ℕ Bool Bool).run twoPushes).Waits := by decide
  obtain ⟨-, hdelivered, hcovered⟩ := delivers_once twoPushes
  exact ⟨by decide, hdelivered, hwaits, hcovered (by decide) hwaits⟩

end Threads

end BlockingQueue

end FxServer
