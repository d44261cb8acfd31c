import Gpui.Lib.Machine
import Gpui.Scheduler.Priority

/-! # The test scheduler: the model

    The scheduler keeps the runnables of all tasks in one queue and runs one of them in a
    tick.  Running tasks and futures that are polled call back into it, so a run is
    described by small steps: the state of the scheduler together with the stack of the
    calls that are running.  What the random generator says is part of the action. -/

namespace Gpui

namespace TestScheduler

/-- The ways the scheduler can panic. -/
inductive SchedulerPanic where
  /-- `random_range` of an empty range. -/
  | emptyRange
  | indexOutOfRange
  /-- The sum of the weights does not fit. -/
  | addOverflow
  /-- "Parking forbidden". -/
  | parkingForbidden
  /-- "Test timed out after 15 seconds while parking". -/
  | parkingTimedOut
deriving DecidableEq, Repr

/-- A runnable in the queue.  The ticket tells the calls that scheduled one apart. -/
structure ScheduledRunnable where
  ticket : Nat
  sessionId : Option Nat
  priority : Priority
deriving DecidableEq

/-- The part of the loop of `block` that is running. -/
inductive Phase where
  /-- The future is polled. -/
  | polling
  /-- Ticks are made; whether there was one, and whether one of them did something. -/
  | stepping (stepped : Option Bool)
  /-- A tick had nothing to do; whether one before it had. -/
  | stepped (stepped : Bool)
deriving DecidableEq

structure Block where
  sessionId : Option Nat
  /-- There is a deadline. -/
  deadline : Bool
  /-- The rounds that are left after this one. -/
  ticksLeft : Nat
  phase : Phase
  /-- The blocked sessions when `block` was called. -/
  entered : List Nat
deriving DecidableEq

/-- A call that is running. -/
inductive Frame where
  /-- A runnable, with the flag that is restored after it. -/
  | run (runnable : ScheduledRunnable) (wasMainThread : Bool)
  /-- Expired timers are dropped, which wakes the futures that wait for them. -/
  | wakers
  | block (block : Block)
deriving DecidableEq

structure Config where
  randomizeOrder : Bool
  allowParking : Bool
  timeoutTicks : Nat × Nat

/-- The state of the scheduler, the calls that are running, the innermost first, and what
    was scheduled and what was run so far. -/
structure State where
  runnables : List ScheduledRunnable
  /-- The expirations of the timers. -/
  timers : List Nat
  now : Nat
  blockedSessions : List Nat
  config : Config
  isMainThread : Bool
  stack : List Frame
  scheduled : List ScheduledRunnable
  ran : List ScheduledRunnable

/-- Real time that passes while the thread is parked, and why it goes on. -/
inductive Parked where
  /-- A timer expired, or another thread unparked this one. -/
  | woken (elapsed : Nat)
  | deadline (elapsed : Nat)
  | timedOut

inductive Action where
  | scheduleLocal (sessionId : Nat) (draw : Nat)
  | scheduleBackgroundWithPriority (priority : Priority) (draw : Nat)
  | timer (duration : Nat)
  | advanceClock (duration : Nat)
  | setTimeoutTicks (range : Nat × Nat)
  | setAllowParking (allow : Bool)
  | tick (draw : Nat)
  | tickBackgroundOnly (draw : Nat)
  | block (sessionId : Option Nat) (deadline : Bool) (draw : Nat)
  /-- The future that `block` polls is ready, or not. -/
  | poll (ready : Bool)
  /-- The coin of `block` says that it makes a tick. -/
  | stepAgain (draw : Nat)
  /-- `block` makes no more ticks in this round. -/
  | stopStepping (awoken : Bool) (parked : Parked)
  /-- The running runnable, or the wakers, return. -/
  | returns

/-! ### Random choices -/

/-- `xs[i]`. -/
def index (xs : List Nat) (i : Nat) : Except SchedulerPanic Nat :=
  match xs[i]? with
  | none   => .error .indexOutOfRange
  | some x => .ok x

/-- `random_range` of a range without its end. -/
def randomRange (start stop draw : Nat) : Except SchedulerPanic Nat :=
  if stop ≤ start then .error .emptyRange else .ok (start + draw % (stop - start))

/-- The last position at which a condition holds. -/
def rposition {α : Type} (p : α → Bool) : List α → Option Nat
  | [] => none
  | x :: xs =>
      match rposition p xs with
      | some ix => some (ix + 1)
      | none    => if p x then some 0 else none

/-- The first position a task of a session may take: after the last one of the session. -/
def startIx (sessionId : Nat) (runnables : List ScheduledRunnable) : Nat :=
  ((rposition (fun task => task.sessionId = some sessionId) runnables).map (· + 1)).getD 0

/-- The positions of the tasks that a tick chooses from. -/
def candidateIndices (blockedSessions : List Nat) (backgroundOnly : Bool) :
    Nat → List Nat → List ScheduledRunnable → List Nat
  | _,  _,            [] => []
  | ix, seenSessions, runnable :: rest =>
      match runnable.sessionId with
      | some sessionId =>
          if backgroundOnly || blockedSessions.contains sessionId ||
              seenSessions.contains sessionId then
            candidateIndices blockedSessions backgroundOnly (ix + 1) seenSessions rest
          else
            -- only the first task of a session
            ix :: candidateIndices blockedSessions backgroundOnly (ix + 1)
              (sessionId :: seenSessions) rest
      | none => ix :: candidateIndices blockedSessions backgroundOnly (ix + 1) seenSessions rest

/-- The loop over the weights. -/
def selectWeighted : List Nat → Nat → Option Nat
  | [],             _ => none
  | weight :: rest, target =>
      if target < weight then some 0 else (selectWeighted rest (target - weight)).map (· + 1)

/-- The sum of the weights, a `u32`. -/
def sumWeights (weights : List Nat) : Except SchedulerPanic Nat :=
  if weights.sum < 2 ^ 32 then .ok weights.sum else .error .addOverflow

namespace State

def start (config : Config) : State where
  runnables := []
  timers := []
  now := 0
  blockedSessions := []
  config := config
  isMainThread := true
  stack := []
  scheduled := []
  ran := []

/-- The weights of the tasks at some positions. -/
def weights (s : State) (indices : List Nat) : List Nat :=
  indices.filterMap (fun ix => (s.runnables[ix]?).map (fun task => task.priority.weight))

/-- The position of the task that a tick takes out, if there is one. -/
def chooseRunnable (s : State) (backgroundOnly : Bool) (draw : Nat) :
    Except SchedulerPanic (Option Nat) :=
  let indices := candidateIndices s.blockedSessions backgroundOnly 0 [] s.runnables
  if indices.isEmpty then .ok none
  else if s.config.randomizeOrder then do
    let weights := s.weights indices
    let totalWeight ← sumWeights weights
    if totalWeight = 0 then
      -- every task has the same chance
      let choice ← randomRange 0 indices.length draw
      (index indices choice).map some
    else
      let target ← randomRange 0 totalWeight draw
      (index indices ((selectWeighted weights target).getD 0)).map some
  -- the first candidate, whatever its weight
  else (index indices 0).map some

/-- A runnable is taken out of the queue and runs. -/
def runAt (s : State) (ix : Nat) : Bool × State :=
  match s.runnables[ix]? with
  | none => (false, s)
  | some runnable =>
      (true, { s with
        runnables := s.runnables.eraseIdx ix
        isMainThread := runnable.sessionId.isSome
        stack := .run runnable s.isMainThread :: s.stack
        ran := s.ran ++ [runnable] })

/-- `step_filtered`, up to the code it runs, and what it will return. -/
def stepFiltered (s : State) (backgroundOnly : Bool) (draw : Nat) :
    Except SchedulerPanic (Bool × State) :=
  if (s.timers.takeWhile (· ≤ s.now)).isEmpty then do
    match ← s.chooseRunnable backgroundOnly draw with
    | none    => .ok (false, s)
    | some ix => .ok (s.runAt ix)
  else
    -- timers expired; no task is run
    .ok (true, { s with
      timers := s.timers.dropWhile (· ≤ s.now)
      stack := .wakers :: s.stack })

/-- A runnable is put into the queue. -/
def insert (s : State) (ix : Nat) (sessionId : Option Nat) (priority : Priority) : State :=
  let runnable := ⟨s.scheduled.length, sessionId, priority⟩
  { s with
    runnables := s.runnables.insertIdx ix runnable
    scheduled := s.scheduled ++ [runnable] }

/-- The position of a new task of a session. -/
def localIx (s : State) (sessionId draw : Nat) : Except SchedulerPanic Nat :=
  if s.config.randomizeOrder then
    randomRange (startIx sessionId s.runnables) (s.runnables.length + 1) draw
  else .ok s.runnables.length

def scheduleLocal (s : State) (sessionId draw : Nat) : Except SchedulerPanic State :=
  (s.localIx sessionId draw).map fun ix => s.insert ix (some sessionId) .medium

/-- The position of a new background task. -/
def backgroundIx (s : State) (draw : Nat) : Except SchedulerPanic Nat :=
  if s.config.randomizeOrder then randomRange 0 (s.runnables.length + 1) draw
  else .ok s.runnables.length

def scheduleBackgroundWithPriority (s : State) (priority : Priority) (draw : Nat) :
    Except SchedulerPanic State :=
  (s.backgroundIx draw).map fun ix => s.insert ix none priority

def timer (s : State) (duration : Nat) : State :=
  { s with timers := (s.timers ++ [s.now + duration]).insertionSort (· ≤ ·) }

/-! ### The loop of `block` -/

/-- `block` returns. -/
def endBlock (s : State) (block : Block) (stack : List Frame) : State :=
  { s with
    stack := stack
    blockedSessions :=
      if block.sessionId.isSome then s.blockedSessions.dropLast else s.blockedSessions }

/-- The next round of the loop, or its end. -/
def nextRound (s : State) (block : Block) (stack : List Frame) : State :=
  match block.ticksLeft with
  | 0 => s.endBlock block stack
  | ticks + 1 =>
      { s with stack := .block { block with ticksLeft := ticks, phase := .polling } :: stack }

/-- The number of rounds of a call of `block`. -/
def maxTicks (s : State) (deadline : Bool) (draw : Nat) : Except SchedulerPanic Nat :=
  if deadline then randomRange s.config.timeoutTicks.1 (s.config.timeoutTicks.2 + 1) draw
  else .ok (2 ^ 64 - 1)

/-- `block` up to the first poll. -/
def block (s : State) (sessionId : Option Nat) (deadline : Bool) (draw : Nat) :
    Except SchedulerPanic State :=
  let entered := s.blockedSessions
  let s := { s with blockedSessions := s.blockedSessions ++ sessionId.toList }
  (s.maxTicks deadline draw).map fun ticks =>
    s.nextRound ⟨sessionId, deadline, ticks, .polling, entered⟩ s.stack

/-- `park`: whether the loop goes on. -/
def park (s : State) (block : Block) (parked : Parked) : Except SchedulerPanic (Bool × State) :=
  if s.config.allowParking then
    match parked with
    | .woken elapsed => .ok (true, { s with now := s.now + elapsed })
    | .deadline elapsed =>
        if block.deadline then .ok (false, { s with now := s.now + elapsed })
        else .error .parkingTimedOut
    | .timedOut => .error .parkingTimedOut
  else if block.deadline then .ok (false, s)
  else .error .parkingForbidden

/-- A round of the loop of `block` after its ticks. -/
def afterStepping (s : State) (block : Block) (stack : List Frame) (stepped awoken : Bool)
    (parked : Parked) : Except SchedulerPanic State :=
  if stepped || awoken then .ok (s.nextRound block stack)
  else
    match s.config.allowParking, s.timers with
    -- the clock jumps to the next timer
    | false, expiration :: _ => .ok ({ s with now := max s.now expiration }.nextRound block stack)
    | _, _ =>
        (s.park block parked).map fun (goesOn, s) =>
          if goesOn then s.nextRound block stack else s.endBlock block stack

/-- A tick of `block`. -/
def stepAgain (s : State) (block : Block) (stack : List Frame) (stepped : Option Bool)
    (draw : Nat) : Except SchedulerPanic State :=
  let inBlock (phase : Phase) (s : State) : State :=
    { s with stack := .block { block with phase := phase } :: stack }
  ((inBlock (.stepping (some true)) s).stepFiltered false draw).map fun (didStep, s) =>
    if didStep then s else inBlock (.stepped (stepped.getD false)) s

/-- Code may use the scheduler: no call of the scheduler is at work. -/
def runsCode (s : State) : Bool :=
  match s.stack with
  | [] | .run _ _ :: _ | .wakers :: _ => true
  | .block block :: _ => block.phase == .polling

/-- One step; `none` if the action is not possible. -/
def step (s : State) : Action → Option (Except SchedulerPanic State)
  -- also from another thread, while it is parked
  | .scheduleLocal sessionId draw => some (s.scheduleLocal sessionId draw)
  | .scheduleBackgroundWithPriority priority draw =>
      some (s.scheduleBackgroundWithPriority priority draw)
  | .timer duration => if s.runsCode then some (.ok (s.timer duration)) else none
  | .advanceClock duration =>
      if s.runsCode then some (.ok { s with now := s.now + duration }) else none
  | .setTimeoutTicks range =>
      if s.runsCode then
        some (.ok { s with config := { s.config with timeoutTicks := range } })
      else none
  | .setAllowParking allow =>
      if s.runsCode then
        some (.ok { s with config := { s.config with allowParking := allow } })
      else none
  | .tick draw =>
      if s.runsCode then some ((s.stepFiltered false draw).map Prod.snd) else none
  | .tickBackgroundOnly draw =>
      if s.runsCode then some ((s.stepFiltered true draw).map Prod.snd) else none
  | .block sessionId deadline draw =>
      if s.runsCode then some (s.block sessionId deadline draw) else none
  | .poll ready =>
      match s.stack with
      | .block block :: stack =>
          if block.phase = .polling then
            if ready then some (.ok (s.endBlock block stack))
            else
              some (.ok { s with stack := .block { block with phase := .stepping none } :: stack })
          else none
      | _ => none
  | .stepAgain draw =>
      match s.stack with
      | .block block :: stack =>
          match block.phase with
          | .stepping stepped => some (s.stepAgain block stack stepped draw)
          | _ => none
      | _ => none
  | .stopStepping awoken parked =>
      match s.stack with
      | .block block :: stack =>
          match block.phase with
          | .stepping stepped =>
              -- without a tick the round counts as one that did something
              some (s.afterStepping block stack (stepped.getD true) awoken parked)
          | .stepped stepped => some (s.afterStepping block stack stepped awoken parked)
          | .polling => none
      | _ => none
  | .returns =>
      match s.stack with
      | .run _ wasMainThread :: stack =>
          some (.ok { s with isMainThread := wasMainThread, stack := stack })
      | .wakers :: stack => some (.ok { s with stack := stack })
      | _ => none

/-- The scheduler with the code that uses it. -/
def machine (config : Config) : Machine SchedulerPanic State Action where
  start := start config
  step := step

end State

end TestScheduler

end Gpui
