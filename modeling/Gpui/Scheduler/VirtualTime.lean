import Gpui.Lib.PartitionPoint
import Gpui.Lib.StableSort
import Gpui.Scheduler.TestScheduler

/-! # Virtual time: the model

    The clock of the test scheduler stands still while tasks run, and tests move it.
    `advance_clock` runs all there is to run, goes to the next timer, and does so again: the
    tasks that a timer wakes may wait for further timers on the way.

    A timer is known here by its ticket, which the scheduler's expirations do not tell.  A
    call of `advance_clock` sets aside the calls that are running. -/

namespace Gpui

namespace TestScheduler

/-- A timer that waits.  The ticket stands for its channel. -/
structure ScheduledTimer where
  expiration : Nat
  ticket : Nat
deriving DecidableEq, Repr

/-- A call of `advance_clock` that is running. -/
structure AdvanceCall where
  /-- The clock when it was called. -/
  start : Nat
  duration : Nat
  /-- The calls that wait for it. -/
  waiting : List Frame
deriving DecidableEq

def AdvanceCall.nextNow (call : AdvanceCall) : Nat := call.start + call.duration

/-- The scheduler with its timers, the calls of `advance_clock`, the innermost first, and the
    timers that were registered and that were fired so far. -/
structure VirtualTime where
  scheduler : State
  timers : List ScheduledTimer
  calls : List AdvanceCall
  registered : List ScheduledTimer
  fired : List ScheduledTimer

namespace VirtualTime

inductive Action where
  /-- What code and the scheduler do at a time. -/
  | act (action : TestScheduler.Action)
  | advanceClock (duration : Nat)
  | advanceClockToNextTimer
  /-- `advance_clock` goes on. -/
  | next (draw : Nat)

def start (config : Config) : VirtualTime where
  scheduler := .start config
  timers := []
  calls := []
  registered := []
  fired := []

/-- Whether an action calls `step_filtered`. -/
def makesTick : TestScheduler.Action → Bool
  | .tick _               => true
  | .tickBackgroundOnly _ => true
  | .stepAgain _          => true
  | _                     => false

/-- The elapsed timers are drained and dropped, one after the other. -/
def drainElapsed (s : VirtualTime) : VirtualTime :=
  let endIx := PartitionPoint.partitionPoint
    (fun timer => decide (timer.expiration ≤ s.scheduler.now)) s.timers
  { s with timers := s.timers.drop endIx, fired := s.fired ++ s.timers.take endIx }

def timer (s : VirtualTime) (duration : Nat) : VirtualTime :=
  let timer : ScheduledTimer := ⟨s.scheduler.now + duration, s.registered.length⟩
  { s with
    timers := StableSort.sortByKey ScheduledTimer.expiration (s.timers ++ [timer])
    registered := s.registered ++ [timer] }

/-- What an action of the scheduler does to the timers. -/
def onTimers (s : VirtualTime) : TestScheduler.Action → VirtualTime
  | .timer duration => s.timer duration
  | action          => if makesTick action then s.drainElapsed else s

/-- The clock goes to a time; `Instant`s subtract to zero at least. -/
def advanceTo (s : VirtualTime) (time : Nat) : VirtualTime :=
  { s with
    scheduler := { s.scheduler with now := s.scheduler.now + (time - s.scheduler.now) } }

def advanceClockToNextTimer (s : VirtualTime) : VirtualTime :=
  match s.timers with
  | timer :: _ => s.advanceTo timer.expiration
  | []         => s

/-- `advance_clock` before its loop. -/
def advanceClock (s : VirtualTime) (duration : Nat) : VirtualTime :=
  { s with
    scheduler := { s.scheduler with stack := [] }
    calls := ⟨s.scheduler.now, duration, s.scheduler.stack⟩ :: s.calls }

/-- `advance_clock` returns. -/
def endAdvance (s : VirtualTime) (call : AdvanceCall) (calls : List AdvanceCall) : VirtualTime :=
  let s := s.advanceTo call.nextNow
  { s with scheduler := { s.scheduler with stack := call.waiting }, calls := calls }

/-- The loop of `advance_clock` when there is no more to run. -/
def afterRun (s : VirtualTime) (call : AdvanceCall) (calls : List AdvanceCall) : VirtualTime :=
  match s.timers with
  | timer :: _ =>
      if timer.expiration ≤ call.nextNow then s.advanceTo timer.expiration
      else s.endAdvance call calls
  | [] => s.endAdvance call calls

/-- The loop of `advance_clock` makes a tick; without one it goes on with the timers. -/
def next (s : VirtualTime) (call : AdvanceCall) (calls : List AdvanceCall) (draw : Nat) :
    Except SchedulerPanic VirtualTime :=
  (s.scheduler.stepFiltered false draw).map fun (didStep, scheduler) =>
    let s := { s.drainElapsed with scheduler := scheduler }
    if didStep then s else s.afterRun call calls

/-- Only `advance_clock` is at work. -/
def advancing (s : VirtualTime) : Bool := !s.calls.isEmpty && s.scheduler.stack.isEmpty

/-- One step; `none` if the action is not possible. -/
def step (s : VirtualTime) : Action → Option (Except SchedulerPanic VirtualTime)
  | .act action =>
      if s.advancing then none
      else
        (s.scheduler.step action).map fun outcome =>
          outcome.map fun scheduler => { s.onTimers action with scheduler := scheduler }
  | .advanceClock duration =>
      if !s.advancing && s.scheduler.runsCode then some (.ok (s.advanceClock duration)) else none
  | .advanceClockToNextTimer =>
      if !s.advancing && s.scheduler.runsCode then some (.ok s.advanceClockToNextTimer) else none
  | .next draw =>
      match s.calls with
      | call :: calls => if s.advancing then some (s.next call calls draw) else none
      | []            => none

/-- The scheduler with the code that uses it. -/
def machine (config : Config) : Machine SchedulerPanic VirtualTime Action where
  start := start config
  step := step

end VirtualTime

end TestScheduler

end Gpui
