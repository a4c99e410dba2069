import Mathlib.Data.List.Basic
import FxServer.Basic

/-!
# FxServer.EventLoop — one iteration after the other

The model of `src/src/fx_event_loop.cc`. `Run` goes through phases: it waits in
`Poll`, runs the handlers of the active channels, the period functor, the pending
functors and the timer callbacks, and starts over. The types `H` of channels and
`F` of functors are left open. The wake-up pipe is the number of unread values in it.

The phase says what can run in the loop thread. With the flags it decides whether `QueueInLoop`
writes to the pipe, which is what the results on wake-ups are about.
-/

namespace FxServer

/-- An active channel: the one of the wake-up pipe, or another. -/
inductive Handler (H : Type) where
  | wakeUp
  | channel (h : H)
deriving DecidableEq, Repr

def Handler.isWakeUp {H : Type} : Handler H → Bool
  | .wakeUp => true
  | .channel _ => false

/-- Where `Run` is. -/
inductive Phase (H F : Type) where
  /-- `Run` has not been called -/
  | idle
  /-- at the test of `quit_` -/
  | head
  | polling
  /-- in the loop over the active channels -/
  | handling (rest : List (Handler H))
  | period
  /-- in the loop of `CallPendingFunctors` -/
  | calling (rest : List F)
  /-- in the loop over the timer callbacks -/
  | timers
  | exited
deriving DecidableEq, Repr

/-- The fields of an `EventLoop` that `Run` and `QueueInLoop` use, and the phase that `Run`
is in. -/
structure EventLoop (H F : Type) where
  functors : List F
  callingFunctors : Bool
  quit : Bool
  started : Bool
  /-- the values in the wake-up pipe that have not been read -/
  wakeUps : ℕ
  phase : Phase H F
deriving DecidableEq, Repr

namespace EventLoop

variable {H F : Type}

def new : EventLoop H F where
  functors := []
  callingFunctors := false
  quit := false
  started := false
  wakeUps := 0
  phase := .idle

/-- `WakeUp`: one more value in the pipe. -/
def wakeUp (l : EventLoop H F) : EventLoop H F := { l with wakeUps := l.wakeUps + 1 }

/-- The first half of `QueueInLoop`. -/
def push (l : EventLoop H F) (f : F) : EventLoop H F := { l with functors := l.functors ++ [f] }

/-- The condition under which `QueueInLoop` calls `WakeUp`. -/
def needsWakeUp (l : EventLoop H F) (inLoopThread : Bool) : Bool :=
  !inLoopThread || l.callingFunctors || !l.started

/-- `QueueInLoop`, by the thread of the loop or by another one. -/
def queueInLoop (l : EventLoop H F) (inLoopThread : Bool) (f : F) : EventLoop H F :=
  if (l.push f).needsWakeUp inLoopThread then (l.push f).wakeUp else l.push f

/-- `Run` up to its loop. -/
def run (l : EventLoop H F) : EventLoop H F := { l with started := true, phase := .head }

/-- `Poll` returns the active channels. -/
def poll (l : EventLoop H F) (active : List (Handler H)) : EventLoop H F :=
  { l with phase := .handling active }

/-- `ProcessWakeUp` reads one value. -/
def processWakeUp (l : EventLoop H F) : EventLoop H F := { l with wakeUps := l.wakeUps - 1 }

/-- The steps of `Run` from one phase to the next. -/
def next (l : EventLoop H F) : EventLoop H F :=
  match l.phase with
  | .head => if l.quit then { l with phase := .exited } else { l with phase := .polling }
  | .handling [] => { l with phase := .period }
  | .period =>
    -- `CallPendingFunctors` sets the flag and swaps the list
    { l with callingFunctors := true, functors := [], phase := .calling l.functors }
  | .calling [] => { l with callingFunctors := false, phase := .timers }
  | .timers => { l with phase := .head }
  | _ => l

/-- Whether user code can run in the loop thread. -/
def inUserCode (l : EventLoop H F) : Bool :=
  match l.phase with
  | .head | .polling | .exited => false
  | _ => true

end EventLoop

end FxServer
