import Mathlib.Data.List.Intervals
import Gpui.Lib.Machine
import Gpui.Panic

/-! # Collectors of timings

    Completed tasks and drawn frames are recorded in buffers that drop their oldest timings.
    A collector polls them, with cursors that count what was recorded.

    * **`collectors_deliver`**: each poll returns what was recorded since the last one and is
      still there, as long as no running task shifts a buffer that has dropped timings, and no
      cursor dates from before tracing was switched off. -/

namespace Gpui

namespace Collectors

open List

/-! ### Section 1: The model -/

/-- A buffer, and the cursor of a collector for it.  A timing is the number of those that were
    recorded before it: nothing looks into it. -/
structure Stream where
  timings : List Nat
  totalPushed : Nat
  cursor : Nat
  /-- How many were ever recorded, and how many of them before the last poll. -/
  recorded : Nat
  polled : Nat
  /-- The completed timings that polls returned, and those that they should have. -/
  returned : List Nat
  due : List Nat

namespace Stream

def new : Stream := ⟨[], 0, 0, 0, 0, [], []⟩

/-- A new collector. -/
def collector (s : Stream) (cursor polled : Nat) : Stream :=
  { s with cursor, polled, returned := [], due := [] }

def push (max : Nat) (enabled : Bool) (s : Stream) : Stream :=
  if enabled then
    { s with
      timings := (if max ≤ s.timings.length then s.timings.tail else s.timings) ++ [s.recorded]
      totalPushed := s.totalPushed + 1
      recorded := s.recorded + 1 }
  else s

def setEnabled (was enabled : Bool) (s : Stream) : Stream :=
  if was && !enabled then { s with timings := [], totalPushed := 0 } else s

/-- A poll that returns some timings.  It should return those of the buffer that were recorded
    after the last poll. -/
def collect (s : Stream) (unseen : List Nat) : Stream :=
  { s with
    cursor := s.totalPushed
    polled := s.recorded
    returned := s.returned ++ unseen.filter (fun n => decide (n < s.recorded))
    due := s.due ++ s.timings.filter (fun n => decide (s.polled ≤ n)) }

/-- `ProfilingCollector::collect_unseen` on the snapshot of a thread.  The task that runs has the
    number that comes next. -/
def collectTasks (s : Stream) (running : Bool) : Stream :=
  let timings := s.timings ++ if running then [s.recorded] else []
  let bufferStart := s.totalPushed - timings.length
  s.collect (if s.cursor < bufferStart then timings
    else timings.drop (min (s.cursor - bufferStart) timings.length))

/-- `FrameTimingCollector::collect_unseen` -/
def collectFrames (s : Stream) : Stream :=
  let bufferStart := s.totalPushed - s.timings.length
  s.collect (s.timings.drop (min (s.cursor - bufferStart) s.timings.length))

end Stream

structure State (I : Type) where
  traceEnabled : Bool
  threads : I → Stream
  frameTraceEnabled : Bool
  frames : Stream

inductive Action (I : Type) where
  | saveTaskTiming (thread : I)
  /-- `ProfilingCollector::new`, and its `reset`. -/
  | newProfilingCollector
  | setTraceEnabled (enabled : Bool)
  /-- A turn of the loop of a poll.  The snapshot of the thread may show a task that runs. -/
  | collectTasks (thread : I) (running : Bool)
  | recordFrameTiming
  | newFrameTimingCollector
  | setFrameTraceEnabled (enabled : Bool)
  | collectFrames

variable {I : Type}

section Steps

variable [DecidableEq I] (maxTasks maxFrames : Nat)

def State.setThread (s : State I) (thread : I) (timings : Stream) : State I :=
  { s with threads := Function.update s.threads thread timings }

def step (s : State I) : Action I → State I
  | .saveTaskTiming thread => s.setThread thread ((s.threads thread).push maxTasks s.traceEnabled)
  | .newProfilingCollector =>
      { s with threads := fun thread => (s.threads thread).collector 0 0 }
  | .setTraceEnabled enabled =>
      { s with
        traceEnabled := enabled
        threads := fun thread => (s.threads thread).setEnabled s.traceEnabled enabled }
  | .collectTasks thread running => s.setThread thread ((s.threads thread).collectTasks running)
  | .recordFrameTiming => { s with frames := s.frames.push maxFrames s.frameTraceEnabled }
  | .newFrameTimingCollector =>
      { s with frames := s.frames.collector s.frames.totalPushed s.frames.recorded }
  | .setFrameTraceEnabled enabled =>
      { s with
        frameTraceEnabled := enabled
        frames := s.frames.setEnabled s.frameTraceEnabled enabled }
  | .collectFrames => { s with frames := s.frames.collectFrames }

def machine : Machine Panic (State I) (Action I) where
  start := ⟨false, fun _ => .new, false, .new⟩
  step s a := some (.ok (step maxTasks maxFrames s a))

end Steps

/-! ### Section 2: What they should say -/

/-- The polls returned what they should, and nothing twice. -/
structure Stream.Delivered (s : Stream) : Prop where
  all : s.returned.Perm s.due
  once : s.returned.Nodup

/-- A poll that may see a running task.  If tracing was not switched off since the last poll, there
    is none, or nothing was dropped from the buffer, or some timing was before it was seen, or
    nothing is unseen; and if it was, the buffer is empty, or nothing in it is before the cursor. -/
def Stream.Heeds (s : Stream) (running : Nat) : Prop :=
  if s.cursor + (s.recorded - s.polled) = s.totalPushed then
    running = 0 ∨ s.timings.length = s.totalPushed ∨
      s.cursor + s.timings.length < s.totalPushed ∨ s.cursor = s.totalPushed
  else
    s.timings.length = 0 ∨ s.cursor = 0 ∨ s.cursor + s.timings.length + running ≤ s.totalPushed

structure Good (s : State I) : Prop where
  threads : ∀ thread, (s.threads thread).Delivered
  frames : s.frames.Delivered

/-- The condition on the steps. -/
def Heeds (s : State I) : Action I → Prop
  | .collectTasks thread running => (s.threads thread).Heeds running.toNat
  | .collectFrames => s.frames.Heeds 0
  | _ => True

/-! ### Section 3: A buffer -/

namespace Stream

variable {s : Stream}

/-- The buffer has the last timings; and since the last poll all that was recorded has been
    counted, or tracing was switched off, and nothing else is counted. -/
structure Inv (s : Stream) : Prop where
  timings : s.timings <:+ range s.recorded
  length : s.timings.length ≤ s.totalPushed
  pushed : s.totalPushed ≤ s.recorded
  polled : s.polled ≤ s.recorded
  counted : s.cursor + (s.recorded - s.polled) = s.totalPushed ∨
    s.totalPushed ≤ s.recorded - s.polled
  returned : s.returned = s.due
  seen : ∀ n ∈ s.due, n < s.polled
  once : s.due.Nodup

theorem Inv.delivered (h : s.Inv) : s.Delivered :=
  ⟨h.returned ▸ .refl _, h.returned ▸ h.once⟩

theorem inv_new : new.Inv :=
  ⟨suffix_refl _, le_refl _, le_refl _, le_refl _, .inl rfl, rfl, nofun, nodup_nil⟩

theorem Inv.collector (h : s.Inv) {cursor polled : Nat} (hpolled : polled ≤ s.recorded)
    (hcounted : cursor + (s.recorded - polled) = s.totalPushed ∨
      s.totalPushed ≤ s.recorded - polled) : (s.collector cursor polled).Inv :=
  ⟨h.timings, h.length, h.pushed, hpolled, hcounted, rfl, nofun, nodup_nil⟩

theorem Inv.push (h : s.Inv) (max : Nat) (enabled : Bool) : (s.push max enabled).Inv := by
  have hkept : (if max ≤ s.timings.length then s.timings.tail else s.timings) <:+ s.timings := by
    split
    · exact tail_suffix _
    · exact suffix_refl _
  have hpolled := h.polled
  have hcounted := h.counted
  unfold Stream.push
  split
  · refine ⟨?_, ?_, Nat.succ_le_succ h.pushed, Nat.le_succ_of_le hpolled, ?_, h.returned, h.seen,
      h.once⟩
    · rw [range_succ]
      exact suffix_append_self_iff.mpr (hkept.trans h.timings)
    · rw [length_append]
      exact Nat.succ_le_succ (hkept.length_le.trans h.length)
    · dsimp only
      omega
  · exact h

theorem Inv.setEnabled (h : s.Inv) (was enabled : Bool) : (s.setEnabled was enabled).Inv := by
  unfold Stream.setEnabled
  split
  · exact ⟨nil_suffix, le_refl _, Nat.zero_le _, h.polled, .inr (Nat.zero_le _), h.returned,
      h.seen, h.once⟩
  · exact h

theorem drop_Ico (k a b : Nat) : (Ico a b).drop k = Ico (a + k) b := by
  rw [Ico, drop_range', Nat.mul_one, Nat.sub_sub]
  rfl

theorem Inv.timings_eq (h : s.Inv) : s.timings = Ico (s.recorded - s.timings.length) s.recorded := by
  have heq := suffix_iff_eq_drop.mp h.timings
  rwa [length_range, ← Ico.zero_bot, drop_Ico, Nat.zero_add] at heq

/-- A poll is right if it returns all timings from the first one of the buffer on that was
    recorded after the last poll. -/
theorem Inv.collect (h : s.Inv) (first : Nat) {stop : Nat} (hstop : s.recorded ≤ stop) :
    ((s.collect (Ico first stop)).Delivered ↔
        min first s.recorded = max (s.recorded - s.timings.length) s.polled) ∧
      ((s.collect (Ico first stop)).Delivered → (s.collect (Ico first stop)).Inv) := by
  have hpolled := h.polled
  have hreturned : (Ico first stop).filter (fun n => decide (n < s.recorded)) =
      Ico (min first s.recorded) s.recorded := by
    rw [Ico.filter_lt, min_eq_right hstop]
    obtain hle | hle := le_total first s.recorded
    · rw [min_eq_left hle]
    · rw [min_eq_right hle, Ico.eq_nil_of_le hle, Ico.self_empty]
  have hdue : s.timings.filter (fun n => decide (s.polled ≤ n)) =
      Ico (max (s.recorded - s.timings.length) s.polled) s.recorded := by
    rw [← Ico.filter_le, ← h.timings_eq]
  have hright (heq : min first s.recorded = max (s.recorded - s.timings.length) s.polled) :
      (s.collect (Ico first stop)).Inv := by
    unfold Stream.collect
    rw [hreturned, hdue, ← heq, h.returned]
    refine ⟨h.timings, h.length, h.pushed, le_refl _, .inl (by simp), rfl, ?_, ?_⟩
    · intro n hn
      obtain hn | hn := mem_append.mp hn
      · exact (h.seen n hn).trans_le hpolled
      · exact (Ico.mem.mp hn).2
    · refine nodup_append'.mpr ⟨h.once, Ico.nodup _ _, ?_⟩
      intro n hold hnew
      have hlt := h.seen n hold
      have hle := (Ico.mem.mp hnew).1
      omega
  have hwrong (hdelivered : (s.collect (Ico first stop)).Delivered) :
      min first s.recorded = max (s.recorded - s.timings.length) s.polled := by
    have hlength := hdelivered.all.length_eq
    unfold Stream.collect at hlength
    rw [hreturned, hdue, h.returned, length_append, length_append, Ico.length, Ico.length] at hlength
    omega
  exact ⟨⟨hwrong, fun heq => (hright heq).delivered⟩, fun hdelivered => hright (hwrong hdelivered)⟩

theorem Inv.collectTasks (h : s.Inv) (running : Bool) :
    ((s.collectTasks running).Delivered ↔ s.Heeds running.toNat) ∧
      ((s.collectTasks running).Delivered → (s.collectTasks running).Inv) := by
  have hlength := h.length
  have hpushed := h.pushed
  have hpolled := h.polled
  have hcounted := h.counted
  -- the snapshot
  have hsnapshot : s.timings ++ (if running then [s.recorded] else []) =
      Ico (s.recorded - s.timings.length) (s.recorded + running.toNat) := by
    cases running with
    | false => exact (append_nil _).trans h.timings_eq
    | true =>
      refine .trans ?_ (Ico.succ_top (Nat.sub_le _ _)).symm
      rw [← h.timings_eq]
      rfl
  unfold Stream.collectTasks
  dsimp only
  rw [hsnapshot, drop_Ico, Ico.length]
  have hrunning := running.toNat_le
  have hstop : s.recorded ≤ s.recorded + running.toNat := Nat.le_add_right _ _
  unfold Stream.Heeds
  split
  · obtain ⟨hiff, hinv⟩ := h.collect (s.recorded - s.timings.length) hstop
    refine ⟨hiff.trans ?_, hinv⟩
    split <;> omega
  · obtain ⟨hiff, hinv⟩ := h.collect _ hstop
    refine ⟨hiff.trans ?_, hinv⟩
    split <;> omega

theorem Inv.collectFrames (h : s.Inv) :
    (s.collectFrames.Delivered ↔ s.Heeds 0) ∧
      (s.collectFrames.Delivered → s.collectFrames.Inv) := by
  have hcollect : s.collectFrames = s.collectTasks false := by
    unfold Stream.collectFrames Stream.collectTasks
    simp only [Bool.false_eq_true, if_false, append_nil]
    congr 1
    split
    · rw [Nat.sub_eq_zero_of_le (by omega), Nat.zero_min, drop_zero]
    · rfl
  rw [hcollect]
  exact h.collectTasks false

end Stream

/-! ### Section 4: Runs -/

structure Inv (s : State I) : Prop where
  threads : ∀ thread, (s.threads thread).Inv
  frames : s.frames.Inv

variable {s : State I} {maxTasks maxFrames : Nat}

theorem Inv.good (h : Inv s) : Good s :=
  ⟨fun thread => (h.threads thread).delivered, h.frames.delivered⟩

variable [DecidableEq I]

theorem Inv.setThread (h : Inv s) (thread : I) {timings : Stream} (htimings : timings.Inv) :
    Inv (s.setThread thread timings) :=
  ⟨(Function.forall_update_iff _ (fun _ timings => Stream.Inv timings)).mpr
    ⟨htimings, fun other _ => h.threads other⟩, h.frames⟩

/-- A step keeps the invariant if it is no poll, or one that heeds the condition. -/
theorem Inv.step (h : Inv s) (a : Action I) :
    (Good (step maxTasks maxFrames s a) ↔ Heeds s a) ∧
      (Good (step maxTasks maxFrames s a) → Inv (step maxTasks maxFrames s a)) := by
  have kept {s' : State I} (hinv : Inv s') : (Good s' ↔ True) ∧ (Good s' → Inv s') :=
    ⟨iff_of_true hinv.good trivial, fun _ => hinv⟩
  cases a with
  | saveTaskTiming thread => exact kept (h.setThread thread ((h.threads thread).push _ _))
  | newProfilingCollector =>
    exact kept ⟨fun thread => (h.threads thread).collector (Nat.zero_le _)
      (.inr (h.threads thread).pushed), h.frames⟩
  | setTraceEnabled enabled =>
    exact kept ⟨fun thread => (h.threads thread).setEnabled _ _, h.frames⟩
  | collectTasks thread running =>
    obtain ⟨hiff, hinv⟩ := (h.threads thread).collectTasks running
    have hthread (hgood : Good (s.setThread thread ((s.threads thread).collectTasks running))) :
        ((s.threads thread).collectTasks running).Delivered := by
      simpa [State.setThread] using hgood.threads thread
    constructor
    · refine ⟨fun hgood => hiff.mp (hthread hgood), fun hheeds => ?_⟩
      exact (h.setThread thread (hinv (hiff.mpr hheeds))).good
    · exact fun hgood => h.setThread thread (hinv (hthread hgood))
  | recordFrameTiming => exact kept ⟨h.threads, h.frames.push _ _⟩
  | newFrameTimingCollector =>
    exact kept ⟨h.threads, h.frames.collector (le_refl _) (.inl (by simp))⟩
  | setFrameTraceEnabled enabled => exact kept ⟨h.threads, h.frames.setEnabled _ _⟩
  | collectFrames =>
    obtain ⟨hiff, hinv⟩ := h.frames.collectFrames
    refine ⟨⟨fun hgood => hiff.mp hgood.frames, ?_⟩, fun hgood => ⟨h.threads, hinv hgood.frames⟩⟩
    exact fun hheeds => ⟨h.good.threads, hiff.mpr hheeds⟩

/-- In every run whose polls meet the condition each completed timing is returned by exactly one
    poll unless it was dropped or cleared before the next one; and a poll that does not meet it
    does not return what it should. -/
theorem collectors_deliver (I : Type) [DecidableEq I] (maxTasks maxFrames : Nat) :
    (machine maxTasks maxFrames : Machine Panic (State I) _).Exact Heeds Good := by
  have hinv : (machine maxTasks maxFrames : Machine Panic (State I) _).Inductive Heeds Inv := by
    refine ⟨⟨fun _ => Stream.inv_new, Stream.inv_new⟩, ?_⟩
    intro s a s' h hheeds hstep
    cases hstep
    exact (h.step a).2 ((h.step a).1.mpr hheeds)
  apply hinv.exact (fun s h => h.good)
  intro s a s' h hstep hnot
  cases hstep
  -- the poll itself spoils the run
  exact ⟨[], _, trivial, Machine.run_nil _, fun hgood => hnot ((h.step a).1.mp hgood)⟩

/-- A task is completed and collected, tracing is switched off and on, and another one is
    completed: the next poll does not return it.  The buffers have their sizes. -/
theorem second_task_lost :
    ∃ s, (machine 299593 262144).run (machine 299593 262144).start
      [.setTraceEnabled true, .saveTaskTiming (), .collectTasks () false, .setTraceEnabled false,
        .setTraceEnabled true, .saveTaskTiming (), .collectTasks () false] = some (.ok s) ∧
      ¬ Good s := by
  refine ⟨_, rfl, ?_⟩
  intro hgood
  exact absurd (hgood.threads ()).all.length_eq (by decide)

end Collectors

end Gpui
