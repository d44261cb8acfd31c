import Gpui.Scheduler.TestSchedulerSpec
import Gpui.Scheduler.VirtualTime

/-! # Virtual time

    * `stepFiltered_timers`, `step_timers` say what a step of the scheduler does to the
      expirations and to the clock.
    * `Timed` is what holds of the timers in every run: those that were fired and those that
      wait are together one list in the order of their expirations, with the ties as they
      were registered.
    * `Within` is what holds of the clock while `advance_clock` runs, if nothing else moves
      it.
    * `During` are the steps while one call of `advance_clock` is under way, which is found
      again when it returns. -/

namespace Gpui

open List

namespace TestScheduler

open Exec PartitionPoint StableSort

/-! ## The scheduler's expirations and its clock -/

theorem takeWhile_isEmpty {α : Type} {p : α → Bool} {l : List α}
    (h : (l.takeWhile p).isEmpty = true) : l.dropWhile p = l := by
  have hsplit := takeWhile_append_dropWhile (p := p) (l := l)
  rwa [isEmpty_iff.1 h, nil_append] at hsplit

namespace State

/-- A tick drains the timers that have expired, and leaves the clock alone. -/
theorem stepFiltered_timers {s s' : State} {backgroundOnly didStep : Bool} {draw : Nat}
    (h : s.stepFiltered backgroundOnly draw = .ok (didStep, s')) :
    s'.now = s.now ∧ s'.timers = s.timers.dropWhile (· ≤ s.now) ∧
      (didStep = false → s' = s ∧ s.timers.takeWhile (· ≤ s.now) = []) := by
  unfold stepFiltered at h
  split at h
  · next hempty =>
    have hdrop := takeWhile_isEmpty hempty
    obtain ⟨chosen, -, h⟩ := bind_eq_ok.1 h
    cases chosen with
    | none =>
      cases h
      exact ⟨rfl, hdrop.symm, fun _ => ⟨rfl, isEmpty_iff.1 hempty⟩⟩
    | some ix =>
      simp only [runAt, Except.ok.injEq] at h
      split at h
      · cases h
        exact ⟨rfl, hdrop.symm, fun _ => ⟨rfl, isEmpty_iff.1 hempty⟩⟩
      · cases h
        exact ⟨rfl, hdrop.symm, fun hfalse => absurd hfalse (by simp)⟩
  · cases h
    exact ⟨rfl, rfl, fun hfalse => absurd hfalse (by simp)⟩

theorem nextRound_timers (s : State) (block : Block) (stack : List Frame) :
    (s.nextRound block stack).now = s.now ∧ (s.nextRound block stack).timers = s.timers := by
  unfold nextRound endBlock
  split <;> exact ⟨rfl, rfl⟩

/-- The end of a round of `block` may move the clock, but forwards. -/
theorem afterStepping_timers {s s' : State} {block : Block} {stack : List Frame}
    {stepped awoken : Bool} {parked : Parked}
    (h : s.afterStepping block stack stepped awoken parked = .ok s') :
    s.now ≤ s'.now ∧ s'.timers = s.timers := by
  unfold afterStepping at h
  split at h
  · cases h
    obtain ⟨hnow, htimers⟩ := nextRound_timers s block stack
    exact ⟨hnow.ge, htimers⟩
  · split at h
    · next expiration _ _ htimers =>
      cases h
      obtain ⟨hnow, htimers'⟩ :=
        nextRound_timers { s with now := max s.now expiration } block stack
      exact ⟨hnow ▸ Nat.le_max_left _ _, htimers'⟩
    · obtain ⟨⟨goesOn, parkedState⟩, hpark, rfl⟩ := map_eq_ok.1 h
      have hparked : s.now ≤ parkedState.now ∧ parkedState.timers = s.timers := by
        unfold park at hpark
        split at hpark
        · split at hpark
          · cases hpark
            exact ⟨Nat.le_add_right _ _, rfl⟩
          · split at hpark
            · cases hpark
              exact ⟨Nat.le_add_right _ _, rfl⟩
            · cases hpark
          · cases hpark
        · split at hpark
          · cases hpark
            exact ⟨Nat.le_refl _, rfl⟩
          · cases hpark
      obtain ⟨hnow, htimers⟩ := nextRound_timers parkedState block stack
      dsimp only
      split
      · exact ⟨hnow.symm ▸ hparked.1, htimers.trans hparked.2⟩
      · exact hparked

/-- The expirations after an action. -/
def timersAfter (s : State) : Action → List Nat
  | .timer duration => (s.timers ++ [s.now + duration]).insertionSort (· ≤ ·)
  | action =>
      if VirtualTime.makesTick action then s.timers.dropWhile (· ≤ s.now) else s.timers

theorem step_timers {s s' : State} {a : Action} (hstep : s.step a = some (.ok s')) :
    s.now ≤ s'.now ∧ s'.timers = s.timersAfter a := by
  unfold State.step at hstep
  cases a with
  | scheduleLocal _ _ | scheduleBackgroundWithPriority _ _ =>
    obtain ⟨ix, -, rfl⟩ := map_eq_ok.1 (Option.some.inj hstep)
    exact ⟨Nat.le_refl _, rfl⟩
  | timer _ | setTimeoutTicks _ | setAllowParking _ =>
    obtain ⟨-, rfl⟩ := Machine.guarded_ok_iff.1 hstep
    exact ⟨Nat.le_refl _, rfl⟩
  | advanceClock duration =>
    obtain ⟨-, rfl⟩ := Machine.guarded_ok_iff.1 hstep
    exact ⟨Nat.le_add_right _ _, rfl⟩
  | tick _ | tickBackgroundOnly _ =>
    simp only [Option.ite_none_right_eq_some, Option.some.injEq] at hstep
    obtain ⟨⟨didStep, ticked⟩, htick, rfl⟩ := map_eq_ok.1 hstep.2
    obtain ⟨hnow, htimers, -⟩ := stepFiltered_timers htick
    exact ⟨hnow.ge, htimers⟩
  | block sessionId deadline draw =>
    simp only [Option.ite_none_right_eq_some, Option.some.injEq] at hstep
    obtain ⟨ticks, -, rfl⟩ := map_eq_ok.1 hstep.2
    obtain ⟨hnow, htimers⟩ := nextRound_timers
      { s with blockedSessions := s.blockedSessions ++ sessionId.toList }
      ⟨sessionId, deadline, ticks, .polling, s.blockedSessions⟩ s.stack
    exact ⟨hnow.ge, htimers⟩
  | poll ready =>
    dsimp only at hstep
    split at hstep
    · split at hstep
      · split at hstep
        · cases hstep
          exact ⟨Nat.le_refl _, rfl⟩
        · cases hstep
          exact ⟨Nat.le_refl _, rfl⟩
      · cases hstep
    · cases hstep
  | stepAgain draw =>
    dsimp only at hstep
    split at hstep
    · split at hstep
      · obtain ⟨⟨didStep, ticked⟩, htick, rfl⟩ := map_eq_ok.1 (Option.some.inj hstep)
        obtain ⟨hnow, htimers, -⟩ := stepFiltered_timers htick
        dsimp only
        split
        · exact ⟨hnow.ge, htimers⟩
        · exact ⟨hnow.ge, htimers⟩
      · cases hstep
    · cases hstep
  | stopStepping awoken parked =>
    dsimp only at hstep
    split at hstep
    · split at hstep
      · exact afterStepping_timers (Option.some.inj hstep)
      · exact afterStepping_timers (Option.some.inj hstep)
      · cases hstep
    · cases hstep
  | returns =>
    dsimp only at hstep
    split at hstep
    · cases hstep
      exact ⟨Nat.le_refl _, rfl⟩
    · cases hstep
      exact ⟨Nat.le_refl _, rfl⟩
    · cases hstep

end State

namespace VirtualTime

/-! ## The timers -/

/-- The earlier expiration first, and among equal ones the one that was registered first. -/
def Sooner : ScheduledTimer → ScheduledTimer → Prop :=
  ByKey ScheduledTimer.expiration fun a b => a.ticket < b.ticket

theorem Sooner.le {a b : ScheduledTimer} (h : Sooner a b) : a.expiration ≤ b.expiration := by
  rcases h with hlt | ⟨heq, -⟩
  · exact Nat.le_of_lt hlt
  · exact Nat.le_of_eq heq

/-- What holds of the timers in every run. -/
structure Timed (s : VirtualTime) : Prop where
  agrees : s.scheduler.timers = s.timers.map ScheduledTimer.expiration
  order : (s.fired ++ s.timers).Pairwise Sooner
  all : s.registered.Perm (s.fired ++ s.timers)
  tickets : s.registered.map ScheduledTimer.ticket = List.range s.registered.length
  due : ∀ timer ∈ s.fired, timer.expiration ≤ s.scheduler.now

theorem timed_start (config : Config) : Timed (start config) where
  agrees := rfl
  order := List.Pairwise.nil
  all := List.Perm.refl _
  tickets := rfl
  due := fun _ h => absurd h not_mem_nil

namespace Timed

variable {s : VirtualTime} (h : Timed s) {scheduler : State}

include h

theorem waiting : s.timers.Pairwise Sooner := (pairwise_append.1 h.order).2.1

/-- The drained timers are those that have expired. -/
theorem drainElapsed_eq : s.drainElapsed = { s with
    timers := s.timers.dropWhile fun timer => decide (timer.expiration ≤ s.scheduler.now)
    fired := s.fired ++
      s.timers.takeWhile fun timer => decide (timer.expiration ≤ s.scheduler.now) } := by
  have hmono : ∀ a b : ScheduledTimer, Sooner a b →
      decide (b.expiration ≤ s.scheduler.now) = true →
      decide (a.expiration ≤ s.scheduler.now) = true := by
    intro a b hab hb
    rw [decide_eq_true_eq] at hb ⊢
    exact hab.le.trans hb
  unfold drainElapsed
  dsimp only
  rw [take_partitionPoint hmono h.waiting, drop_partitionPoint hmono h.waiting]

/-- The scheduler drains the same timers. -/
theorem expirations_drained :
    (s.drainElapsed.timers.map ScheduledTimer.expiration) =
      s.scheduler.timers.dropWhile (· ≤ s.scheduler.now) := by
  rw [h.drainElapsed_eq, h.agrees, dropWhile_map]
  rfl

theorem drain (htimers : scheduler.timers =
      s.scheduler.timers.dropWhile (· ≤ s.scheduler.now)) (hnow : s.scheduler.now ≤ scheduler.now) :
    Timed { s.drainElapsed with scheduler := scheduler } := by
  have htogether : s.drainElapsed.fired ++ s.drainElapsed.timers = s.fired ++ s.timers := by
    rw [h.drainElapsed_eq]
    rw [append_assoc, takeWhile_append_dropWhile]
  constructor
  · exact htimers.trans h.expirations_drained.symm
  · show (s.drainElapsed.fired ++ s.drainElapsed.timers).Pairwise Sooner
    rw [htogether]
    exact h.order
  · show s.registered.Perm (s.drainElapsed.fired ++ s.drainElapsed.timers)
    rw [htogether]
    exact h.all
  · exact h.tickets
  · intro timer htimer
    rw [h.drainElapsed_eq] at htimer
    rcases mem_append.1 htimer with hfired | helapsed
    · exact (h.due timer hfired).trans hnow
    · have hdue := mem_takeWhile_imp helapsed
      rw [decide_eq_true_eq] at hdue
      exact hdue.trans hnow

/-- A timer is registered. -/
theorem register {duration : Nat} (htimers : scheduler.timers =
      (s.scheduler.timers ++ [s.scheduler.now + duration]).insertionSort (· ≤ ·))
    (hnow : s.scheduler.now ≤ scheduler.now) :
    Timed { s.timer duration with scheduler := scheduler } := by
  have hticket : ∀ timer ∈ s.registered, timer.ticket < s.registered.length := by
    intro timer htimer
    have hmem := mem_map_of_mem (f := ScheduledTimer.ticket) htimer
    rw [h.tickets] at hmem
    exact mem_range.1 hmem
  let timer : ScheduledTimer := ⟨s.scheduler.now + duration, s.registered.length⟩
  have hsorted : (s.timer duration).timers.Pairwise Sooner := by
    -- among equal expirations the new one has the last ticket
    have hties : (s.timers ++ [timer]).Pairwise
        fun a b => a.expiration = b.expiration → a.ticket < b.ticket := by
      rw [pairwise_append]
      refine ⟨h.waiting.imp ?_, pairwise_singleton _ _, ?_⟩
      · rintro a b (hlt | ⟨-, hab⟩) heq
        · omega
        · exact hab
      · intro a ha b hb _
        rw [mem_singleton.1 hb]
        exact hticket a (h.all.mem_iff.2 (mem_append_right _ ha))
    refine (pairwise_sortByKey hties).imp ?_
    rintro a b (hlt | ⟨heq, hab⟩)
    · exact .inl hlt
    · exact .inr ⟨heq, hab heq⟩
  have hperm : (s.timer duration).timers.Perm (s.timers ++ [timer]) := sortByKey_perm _ _
  constructor
  · -- two sorted lists of the same expirations
    have hmap : ((s.timer duration).timers.map ScheduledTimer.expiration).Pairwise (· ≤ ·) :=
      pairwise_map.2 (hsorted.imp Sooner.le)
    have hsame := hperm.map ScheduledTimer.expiration
    rw [map_append, ← h.agrees] at hsame
    rw [htimers]
    apply List.Perm.eq_of_pairwise' (pairwise_insertionSort (· ≤ ·) _) hmap
    exact (perm_insertionSort _ _).trans hsame.symm
  · show (s.fired ++ (s.timer duration).timers).Pairwise Sooner
    rw [pairwise_append]
    refine ⟨(pairwise_append.1 h.order).1, hsorted, ?_⟩
    intro a ha b hb
    rcases mem_append.1 ((hperm.mem_iff).1 hb) with hold | hnew
    · exact (pairwise_append.1 h.order).2.2 a ha b hold
    · -- what was fired was due
      rw [mem_singleton.1 hnew]
      have hdue := h.due a ha
      have hlast := hticket a (h.all.mem_iff.2 (mem_append_left _ ha))
      by_cases heq : a.expiration = s.scheduler.now + duration
      · exact .inr ⟨heq, hlast⟩
      · have hlt : a.expiration < s.scheduler.now + duration := by omega
        exact .inl hlt
  · show (s.registered ++ [_]).Perm (s.fired ++ (s.timer duration).timers)
    have hall := h.all.append_right [timer]
    rw [append_assoc] at hall
    exact hall.trans (hperm.symm.append_left s.fired)
  · show (s.registered ++ [_]).map ScheduledTimer.ticket = List.range (s.registered ++ [_]).length
    rw [map_append, h.tickets, length_append, length_singleton, range_succ]
    rfl
  · intro timer htimer
    exact (h.due timer htimer).trans hnow

/-- Time passes; nothing else is different for the timers. -/
theorem later {s' : VirtualTime} (hscheduler : s'.scheduler.timers = s.scheduler.timers)
    (hnow : s.scheduler.now ≤ s'.scheduler.now) (htimers : s'.timers = s.timers)
    (hregistered : s'.registered = s.registered) (hfired : s'.fired = s.fired) : Timed s' where
  agrees := by rw [hscheduler, htimers, h.agrees]
  order := by rw [hfired, htimers]; exact h.order
  all := by rw [hregistered, hfired, htimers]; exact h.all
  tickets := by rw [hregistered]; exact h.tickets
  due := by
    rw [hfired]
    exact fun timer htimer => (h.due timer htimer).trans hnow

theorem onTimers {action : TestScheduler.Action}
    (htimers : scheduler.timers = s.scheduler.timersAfter action)
    (hnow : s.scheduler.now ≤ scheduler.now) :
    Timed { s.onTimers action with scheduler := scheduler } := by
  cases action with
  | timer duration => exact h.register htimers hnow
  | tick draw => exact h.drain htimers hnow
  | tickBackgroundOnly draw => exact h.drain htimers hnow
  | stepAgain draw => exact h.drain htimers hnow
  | _ => exact h.later htimers hnow rfl rfl rfl

end Timed

theorem advanceTo_now (s : VirtualTime) (time : Nat) :
    (s.advanceTo time).scheduler.now = max s.scheduler.now time := by
  show s.scheduler.now + (time - s.scheduler.now) = _
  omega

/-- What `advance_clock` does when there is no more to run. -/
structure AfterRun (s : VirtualTime) (call : AdvanceCall) (calls : List AdvanceCall)
    (s' : VirtualTime) : Prop where
  expirations : s'.scheduler.timers = s.scheduler.timers
  timers : s'.timers = s.timers
  registered : s'.registered = s.registered
  fired : s'.fired = s.fired
  later : s.scheduler.now ≤ s'.scheduler.now
  /-- It goes to the next timer, or it returns. -/
  goes : s'.calls = s.calls ∧ s'.scheduler.now ≤ max s.scheduler.now call.nextNow ∨
    s'.calls = calls ∧ s'.scheduler.now = max s.scheduler.now call.nextNow ∧
      ∀ timer, s.timers.head? = some timer → call.nextNow < timer.expiration

theorem endAdvance_spec (s : VirtualTime) (call : AdvanceCall) (calls : List AdvanceCall)
    (hhead : ∀ timer, s.timers.head? = some timer → call.nextNow < timer.expiration) :
    AfterRun s call calls (s.endAdvance call calls) where
  expirations := rfl
  timers := rfl
  registered := rfl
  fired := rfl
  later := Nat.le_add_right _ _
  goes := .inr ⟨rfl, advanceTo_now s call.nextNow, hhead⟩

theorem afterRun_spec (s : VirtualTime) (call : AdvanceCall) (calls : List AdvanceCall) :
    AfterRun s call calls (s.afterRun call calls) := by
  unfold afterRun
  split
  · next timer rest htimers =>
    split
    · next hle =>
      have hnow := advanceTo_now s timer.expiration
      refine ⟨rfl, rfl, rfl, rfl, Nat.le_add_right _ _, .inl ⟨rfl, ?_⟩⟩
      rw [hnow]
      exact max_le_max_left _ hle
    · next hgt =>
      apply endAdvance_spec
      intro timer' hhead
      rw [htimers, head?_cons, Option.some.injEq] at hhead
      rw [← hhead]
      exact Nat.lt_of_not_le hgt
  · next htimers =>
    apply endAdvance_spec
    intro timer' hhead
    rw [htimers] at hhead
    cases hhead

/-- What a step is. -/
inductive Steps (s : VirtualTime) : Action → VirtualTime → Prop where
  | act (action : TestScheduler.Action) (scheduler : State)
      (hscheduler : s.scheduler.step action = some (.ok scheduler)) :
      Steps s (.act action) { s.onTimers action with scheduler := scheduler }
  | advanceClock (duration : Nat) : Steps s (.advanceClock duration) (s.advanceClock duration)
  | advanceClockToNextTimer : Steps s .advanceClockToNextTimer s.advanceClockToNextTimer
  /-- `advance_clock` makes a tick. -/
  | ticked (draw : Nat) (scheduler : State)
      (htick : s.scheduler.stepFiltered false draw = .ok (true, scheduler)) :
      Steps s (.next draw) { s.drainElapsed with scheduler := scheduler }
  /-- No tick is left. -/
  | settled (draw : Nat) (call : AdvanceCall) (calls : List AdvanceCall) (s' : VirtualTime)
      (hcalls : s.calls = call :: calls)
      (hnone : s.timers.takeWhile (fun timer => decide (timer.expiration ≤ s.scheduler.now)) = [])
      (hafter : AfterRun s call calls s') : Steps s (.next draw) s'

variable {s' s : VirtualTime} {a : Action} {call : AdvanceCall}

theorem Timed.steps (h : Timed s) (hstep : s.step a = some (.ok s')) : Steps s a s' := by
  unfold step at hstep
  cases a with
  | act action =>
    dsimp only at hstep
    split at hstep
    · cases hstep
    · obtain ⟨outcome, houtcome, hmap⟩ := Option.map_eq_some_iff.1 hstep
      obtain ⟨scheduler, rfl, rfl⟩ := map_eq_ok.1 hmap
      exact .act action scheduler houtcome
  | advanceClock duration =>
    obtain ⟨-, rfl⟩ := Machine.guarded_ok_iff.1 hstep
    exact .advanceClock duration
  | advanceClockToNextTimer =>
    obtain ⟨-, rfl⟩ := Machine.guarded_ok_iff.1 hstep
    exact .advanceClockToNextTimer
  | next draw =>
    dsimp only at hstep
    split at hstep
    · next call calls hcalls =>
      split at hstep
      · obtain ⟨⟨didStep, scheduler⟩, htick, rfl⟩ := map_eq_ok.1 (Option.some.inj hstep)
        cases didStep with
        | true => exact .ticked draw scheduler htick
        | false =>
          -- nothing has expired, so nothing was drained
          obtain ⟨-, -, hfalse⟩ := State.stepFiltered_timers htick
          obtain ⟨rfl, hnone⟩ := hfalse rfl
          rw [h.agrees, takeWhile_map, map_eq_nil_iff] at hnone
          have hdrop : s.timers.dropWhile
              (fun timer => decide (timer.expiration ≤ s.scheduler.now)) = s.timers :=
            takeWhile_isEmpty (isEmpty_iff.2 hnone)
          have hsame : ({ s.drainElapsed with scheduler := s.scheduler } : VirtualTime) = s := by
            rw [h.drainElapsed_eq, hdrop]
            have hempty : s.timers.takeWhile
                (fun timer => decide (timer.expiration ≤ s.scheduler.now)) = [] := hnone
            rw [hempty, append_nil]
          dsimp only
          rw [hsame]
          exact .settled draw call calls _ hcalls hnone (afterRun_spec s call calls)
      · cases hstep
    · cases hstep

/-- **One step.** -/
theorem Timed.step (h : Timed s) (hstep : s.step a = some (.ok s')) : Timed s' := by
  cases h.steps hstep with
  | act action scheduler hscheduler =>
    obtain ⟨hnow, htimers⟩ := State.step_timers hscheduler
    exact h.onTimers htimers hnow
  | advanceClock duration => exact h.later rfl (Nat.le_refl _) rfl rfl rfl
  | advanceClockToNextTimer =>
    unfold advanceClockToNextTimer
    split
    · exact h.later rfl (Nat.le_add_right _ _) rfl rfl rfl
    · exact h
  | ticked draw scheduler htick =>
    obtain ⟨hnow, htimers, -⟩ := State.stepFiltered_timers htick
    exact h.drain htimers hnow.ge
  | settled draw call calls _ hcalls hnone hafter =>
    exact h.later hafter.expirations hafter.later hafter.timers hafter.registered hafter.fired

theorem timed_inductive (config : Config) (Allowed : VirtualTime → Action → Prop) :
    (machine config).Inductive Allowed Timed where
  start := timed_start config
  step := fun _ _ _ h _ hstep => h.step hstep

/-! ## The clock -/

/-- While `advance_clock` runs, nothing but the outermost call of it moves the clock. -/
def Still (s : VirtualTime) (a : Action) : Prop :=
  s.calls = [] ∨ ((∃ draw, a = .next draw) ∧ s.calls.length = 1) ∨
    ∀ s', s.step a = some (.ok s') → s'.scheduler.now = s.scheduler.now

/-- The clock is between the start and the end of every call, and has not moved since the
    start of an inner one. -/
structure Within (s : VirtualTime) : Prop where
  bounds : ∀ call ∈ s.calls, call.start ≤ s.scheduler.now ∧ s.scheduler.now ≤ call.nextNow
  inner : ∀ call ∈ s.calls.dropLast, call.start = s.scheduler.now

theorem within_nil (h : s.calls = []) : Within s where
  bounds := by simp [h]
  inner := by simp [h]

theorem Within.same (h : Within s) (hcalls : s'.calls = s.calls)
    (hnow : s.calls = [] ∨ s'.scheduler.now = s.scheduler.now) : Within s' := by
  rcases hnow with hnil | hnow
  · exact within_nil (hcalls.trans hnil)
  · exact ⟨by rw [hcalls, hnow]; exact h.bounds, by rw [hcalls, hnow]; exact h.inner⟩

/-- A step that is not one of `advance_clock` leaves the clock alone while it runs. -/
theorem Still.now_eq (h : Still s a) (hstep : s.step a = some (.ok s'))
    (ha : ∀ draw, a ≠ .next draw) :
    s.calls = [] ∨ s'.scheduler.now = s.scheduler.now := by
  rcases h with hnil | ⟨⟨draw, hdraw⟩, -⟩ | hstill
  · exact .inl hnil
  · exact absurd hdraw (ha draw)
  · exact .inr (hstill s' hstep)

theorem onTimers_calls (s : VirtualTime) (action : TestScheduler.Action) :
    (s.onTimers action).calls = s.calls := by
  cases action <;> rfl

theorem advanceClockToNextTimer_calls (s : VirtualTime) :
    s.advanceClockToNextTimer.calls = s.calls := by
  unfold advanceClockToNextTimer
  split <;> rfl

/-- When there is no more to run: the outermost call may move the clock up to its end, an
    inner one does not move it. -/
theorem Within.settled (h : Within s) {calls : List AdvanceCall}
    (hcalls : s.calls = call :: calls) (hafter : AfterRun s call calls s')
    (hstill : calls = [] ∨ s'.scheduler.now = s.scheduler.now) : Within s' := by
  have hbounds := h.bounds call (by rw [hcalls]; exact mem_cons_self)
  rcases hstill with rfl | hnow
  · rcases hafter.goes with ⟨hsame, hle⟩ | ⟨hnil, -, -⟩
    · have hlater := hafter.later
      refine ⟨?_, ?_⟩
      · intro call' hcall'
        rw [hsame, hcalls, mem_singleton] at hcall'
        rw [hcall']
        omega
      · rw [hsame, hcalls]
        simp
    · exact within_nil hnil
  · rcases hafter.goes with ⟨hsame, -⟩ | ⟨hrest, -, -⟩
    · exact h.same hsame (.inr hnow)
    · refine ⟨?_, ?_⟩
      · intro call' hcall'
        rw [hrest] at hcall'
        rw [hnow]
        exact h.bounds call' (by rw [hcalls]; exact mem_cons_of_mem _ hcall')
      · intro call' hcall'
        rw [hrest] at hcall'
        rw [hnow]
        have hne : calls ≠ [] := by
          rintro rfl
          cases hcall'
        apply h.inner
        rw [hcalls, dropLast_cons_of_ne_nil hne]
        exact mem_cons_of_mem _ hcall'

/-- Only a lone call of `advance_clock` moves the clock. -/
theorem Still.settled {draw : Nat} (h : Still s (.next draw))
    (hstep : s.step (.next draw) = some (.ok s')) {calls : List AdvanceCall}
    (hcalls : s.calls = call :: calls) : calls = [] ∨ s'.scheduler.now = s.scheduler.now := by
  rcases h with hnil | ⟨-, hlength⟩ | hstill
  · rw [hcalls] at hnil
    cases hnil
  · rw [hcalls, length_cons, Nat.succ_inj, length_eq_zero_iff] at hlength
    exact .inl hlength
  · exact .inr (hstill s' hstep)

/-- **One step** of the clock. -/
theorem Within.step (h : Within s) (htimed : Timed s) (hstill : Still s a)
    (hstep : s.step a = some (.ok s')) : Within s' := by
  cases htimed.steps hstep with
  | act action scheduler hscheduler =>
    exact h.same (onTimers_calls s action) (hstill.now_eq hstep (by simp))
  | advanceClock duration =>
    refine ⟨?_, ?_⟩
    · intro call hcall
      rcases mem_cons.1 hcall with rfl | hcall
      · exact ⟨Nat.le_refl _, Nat.le_add_right _ _⟩
      · exact h.bounds call hcall
    · intro call hcall
      change call ∈ (_ :: s.calls).dropLast at hcall
      cases hcalls : s.calls with
      | nil =>
        rw [hcalls] at hcall
        cases hcall
      | cons outer rest =>
        rw [hcalls, dropLast_cons_of_ne_nil (by simp)] at hcall
        rcases mem_cons.1 hcall with rfl | hcall
        · rfl
        · exact h.inner call (by rw [hcalls]; exact hcall)
  | advanceClockToNextTimer =>
    exact h.same (advanceClockToNextTimer_calls s) (hstill.now_eq hstep (by simp))
  | ticked draw scheduler htick =>
    obtain ⟨hnow, -, -⟩ := State.stepFiltered_timers htick
    exact h.same rfl (.inr hnow)
  | settled draw call calls _ hcalls hnone hafter =>
    exact h.settled hcalls hafter (hstill.settled hstep hcalls)

theorem within_inductive (config : Config) :
    (machine config).Inductive Still fun s => Timed s ∧ Within s where
  start := ⟨timed_start config, within_nil rfl⟩
  step := fun _ _ _ h hstill hstep => ⟨h.1.step hstep, h.2.step h.1 hstill hstep⟩

/-! ## What the steps of a run do -/

/-- No step takes a timer off the list before its time. -/
theorem Timed.not_early (h : Timed s) (hstep : s.step a = some (.ok s')) {timer : ScheduledTimer}
    (hmem : timer ∈ s.timers) (hgone : timer ∉ s'.timers) :
    timer.expiration ≤ s.scheduler.now ∧ timer ∈ s'.fired := by
  -- a step that drains
  have hdrained : timer ∉ s.drainElapsed.timers →
      timer.expiration ≤ s.scheduler.now ∧ timer ∈ s.drainElapsed.fired := by
    intro hnot
    rw [h.drainElapsed_eq] at hnot ⊢
    have hsplit := takeWhile_append_dropWhile (l := s.timers)
      (p := fun timer => decide (timer.expiration ≤ s.scheduler.now))
    rw [← hsplit] at hmem
    rcases mem_append.1 hmem with helapsed | hwaiting
    · have hdue := mem_takeWhile_imp helapsed
      rw [decide_eq_true_eq] at hdue
      exact ⟨hdue, mem_append_right _ helapsed⟩
    · exact absurd hwaiting hnot
  cases h.steps hstep with
  | act action scheduler hscheduler =>
    cases action with
    | timer duration =>
      have hperm : (s.timer duration).timers.Perm (s.timers ++ _) := sortByKey_perm _ _
      exact absurd (hperm.mem_iff.2 (mem_append_left _ hmem)) hgone
    | tick draw => exact hdrained hgone
    | tickBackgroundOnly draw => exact hdrained hgone
    | stepAgain draw => exact hdrained hgone
    | _ => exact absurd hmem hgone
  | advanceClock duration => exact absurd hmem hgone
  | advanceClockToNextTimer =>
    unfold advanceClockToNextTimer at hgone
    split at hgone
    · exact absurd hmem hgone
    · exact absurd hmem hgone
  | ticked draw scheduler htick => exact hdrained hgone
  | settled draw call calls _ hcalls hnone hafter =>
    rw [hafter.timers] at hgone
    exact absurd hmem hgone

/-- A call of `advance_clock` returns: the clock is at its end, and what was due by then was
    fired. -/
theorem Within.returns (h : Within s) (htimed : Timed s) (hstill : Still s a)
    (hstep : s.step a = some (.ok s')) (hcalls : s.calls = call :: s'.calls) :
    s'.scheduler.now = call.nextNow ∧
      ∀ timer ∈ s'.registered, timer ∈ s'.fired ↔ timer.expiration ≤ call.nextNow := by
  have hne : s'.calls ≠ s.calls := by
    rw [hcalls]
    exact (cons_ne_self call s'.calls).symm
  cases htimed.steps hstep with
  | act action scheduler hscheduler => exact absurd (onTimers_calls s action) hne
  | advanceClock duration =>
    have hlength := congrArg List.length hcalls
    change _ = (s.calls.length + 1) + 1 at hlength
    omega
  | advanceClockToNextTimer => exact absurd (advanceClockToNextTimer_calls s) hne
  | ticked draw scheduler htick => exact absurd rfl hne
  | settled draw call' calls _ hcalls' hnone hafter =>
    obtain ⟨rfl, hrest⟩ := List.cons.inj (hcalls.symm.trans hcalls')
    rcases hafter.goes with ⟨hsame, -⟩ | ⟨-, hnow, hhead⟩
    · exact absurd hsame hne
    have hbounds := h.bounds call (by rw [hcalls]; exact mem_cons_self)
    have hend : s'.scheduler.now = call.nextNow := by
      rw [hnow]
      exact Nat.max_eq_right hbounds.2
    -- the timers that wait are later than the first of them
    have hlater : ∀ timer ∈ s'.timers, call.nextNow < timer.expiration := by
      rw [hafter.timers]
      intro timer htimer
      have hwaiting := htimed.waiting
      cases hlist : s.timers with
      | nil =>
        rw [hlist] at htimer
        cases htimer
      | cons first rest =>
        rw [hlist] at htimer hwaiting hhead
        have hfirst := hhead first rfl
        rcases mem_cons.1 htimer with rfl | htimer
        · exact hfirst
        · exact hfirst.trans_le ((pairwise_cons.1 hwaiting).1 timer htimer).le
    have hafterwards := htimed.step hstep
    refine ⟨hend, ?_⟩
    intro timer htimer
    constructor
    · intro hfired
      exact hend ▸ hafterwards.due timer hfired
    · intro hle
      rcases mem_append.1 (hafterwards.all.mem_iff.1 htimer) with hfired | hwaits
      · exact hfired
      · exact absurd (hlater timer hwaits) (Nat.not_lt_of_le hle)

/-- A step calls `advance_clock`, ends a call of it, or does neither. -/
theorem Timed.calls_step (h : Timed s) (hstep : s.step a = some (.ok s')) :
    s'.calls = s.calls ∨ (∃ call, s'.calls = call :: s.calls) ∨ ∃ call, s.calls = call :: s'.calls := by
  cases h.steps hstep with
  | act action scheduler hscheduler => exact .inl (onTimers_calls s action)
  | advanceClock duration => exact .inr (.inl ⟨_, rfl⟩)
  | advanceClockToNextTimer => exact .inl (advanceClockToNextTimer_calls s)
  | ticked draw scheduler htick => exact .inl rfl
  | settled draw call calls _ hcalls hnone hafter =>
    rcases hafter.goes with ⟨hsame, -⟩ | ⟨hrest, -, -⟩
    · exact .inl hsame
    · exact .inr (.inr ⟨call, hrest ▸ hcalls⟩)

/-! ## A call of `advance_clock` -/

/-- A step while a call that was made in `s` is under way: more calls run than before it. -/
def During (s s₁ : VirtualTime) (a : Action) : Prop :=
  Still s₁ a ∧ ∀ s₂, s₁.step a = some (.ok s₂) → s.calls.length < s₂.calls.length

/-- The call stays below those that are made while it is under way. -/
theorem During.spec {config : Config} {duration : Nat} {s₁ s₂ : VirtualTime}
    (hs : (machine config).Reaches Still s)
    (hcall : s.step (.advanceClock duration) = some (.ok s₁))
    (h : { machine config with start := s₁ }.Reaches (During s) s₂) :
    (machine config).Reaches Still s₂ ∧
      ∃ inner, s₂.calls = inner ++ ⟨s.scheduler.now, duration, s.scheduler.stack⟩ :: s.calls := by
  induction h with
  | start =>
    obtain ⟨-, heq⟩ := Machine.guarded_ok_iff.1 hcall
    refine ⟨.step (.advanceClock duration) hs (.inr (.inr ?_)) hcall, [], heq ▸ rfl⟩
    intro s' hstep
    obtain ⟨-, rfl⟩ := Machine.guarded_ok_iff.1 hstep
    rfl
  | step a _ hduring hstep ih =>
    obtain ⟨hreaches, inner, hinner⟩ := ih
    refine ⟨.step a hreaches hduring.1 hstep, ?_⟩
    rcases ((within_inductive config).holds hreaches).1.calls_step hstep with
      hsame | ⟨new, hnew⟩ | ⟨ended, hended⟩
    · exact ⟨inner, hsame.trans hinner⟩
    · exact ⟨new :: inner, by rw [hnew, hinner, cons_append]⟩
    · have hlength := hduring.2 _ hstep
      rw [hinner] at hended
      cases inner with
      | nil =>
        rw [← (List.cons.inj hended).2] at hlength
        exact absurd hlength (Nat.lt_irrefl _)
      | cons _ inner => exact ⟨inner, (List.cons.inj hended).2.symm⟩

/-- In every run the timers are sorted, fire in the order of their expirations and, among
    equal ones, of their registration, and never early.  Where nothing else moves the clock
    while `advance_clock` runs, a call of it returns with the clock as much later as was asked
    for, when just the timers up to there have fired. -/
theorem virtual_time (config : Config) (s : VirtualTime) :
    ((machine config).Reaches (fun _ _ => True) s →
      s.scheduler.timers = s.timers.map ScheduledTimer.expiration ∧
      s.timers.Pairwise (fun a b => a.expiration ≤ b.expiration) ∧
      s.registered.map ScheduledTimer.ticket = List.range s.registered.length ∧
      s.fired.Pairwise Sooner ∧
      ∀ a s', s.step a = some (.ok s') → ∀ timer ∈ s.timers, timer ∉ s'.timers →
        timer.expiration ≤ s.scheduler.now ∧ timer ∈ s'.fired) ∧
    ((machine config).Reaches Still s →
      ∀ duration s₁, s.step (.advanceClock duration) = some (.ok s₁) →
      ∀ s₂, { machine config with start := s₁ }.Reaches (During s) s₂ →
      ∀ a s', Still s₂ a → s₂.step a = some (.ok s') → s'.calls.length ≤ s.calls.length →
        s'.calls = s.calls ∧ s'.scheduler.now = s.scheduler.now + duration ∧
        ∀ timer ∈ s'.registered,
          timer ∈ s'.fired ↔ timer.expiration ≤ s.scheduler.now + duration) := by
  constructor
  · intro hs
    have h := (timed_inductive config _).holds hs
    refine ⟨h.agrees, h.waiting.imp Sooner.le, h.tickets, (pairwise_append.1 h.order).1, ?_⟩
    intro a s' hstep timer hmem hgone
    exact h.not_early hstep hmem hgone
  · intro hs duration s₁ hcall s₂ hduring a s' hstill hstep hlength
    obtain ⟨hreaches, inner, hinner⟩ := During.spec hs hcall hduring
    obtain ⟨htimed, hwithin⟩ := (within_inductive config).holds hreaches
    have hlonger : s₂.calls.length = inner.length + (s.calls.length + 1) := by
      rw [hinner, length_append, length_cons]
    rcases htimed.calls_step hstep with hsame | ⟨new, hnew⟩ | ⟨ended, hended⟩
    · rw [hsame] at hlength
      omega
    · rw [hnew, length_cons] at hlength
      omega
    · have hlast : inner = [] := by
        rw [hended, length_cons] at hlonger
        exact length_eq_zero_iff.1 (by omega)
      rw [hended, hlast, nil_append] at hinner
      obtain ⟨rfl, hrest⟩ := List.cons.inj hinner
      exact ⟨hrest, hwithin.returns htimed hstill hstep hended⟩

instance (a : Action) : Decidable (∃ draw, a = .next draw) :=
  match a with
  | .next draw                                          => .isTrue ⟨draw, rfl⟩
  | .act _ | .advanceClock _ | .advanceClockToNextTimer => .isFalse (by simp)

instance (s : VirtualTime) (a : Action) : Decidable (Still s a) :=
  inferInstanceAs (Decidable (_ ∨ _ ∨ _))

instance (s s₁ : VirtualTime) (a : Action) : Decidable (During s s₁ a) :=
  inferInstanceAs (Decidable (_ ∧ _))

/-- Of two timers one fires, and what it wakes registers a third one that fires as well. -/
theorem virtual_time_threeTimers : ∃ s₁ s₂ s' : VirtualTime,
    s₁.step (.advanceClock 4) = some (.ok s₂) ∧ s'.calls = s₁.calls ∧
    s'.scheduler.now = s₁.scheduler.now + 4 ∧ s'.registered = [⟨5, 0⟩, ⟨3, 1⟩, ⟨4, 2⟩] ∧
    ⟨4, 2⟩ ∈ s'.fired ∧ ⟨5, 0⟩ ∉ s'.fired := by
  let m := machine ⟨false, false, 1, 1⟩
  let woken : List Action := [.next 0, .next 0, .act (.timer 1), .act .returns, .next 0, .next 0,
    .act .returns]
  have hrun : ∃ s₁, m.run m.start [.act (.timer 5), .act (.timer 3)] = some (.ok s₁) ∧
      s₁.scheduler.now = 0 ∧
      ∃ s₂, s₁.step (.advanceClock 4) = some (.ok s₂) ∧
        { m with start := s₂ }.Meets (During s₁) s₂ woken ∧
      ∃ s₃, { m with start := s₂ }.run s₂ woken = some (.ok s₃) ∧ Still s₃ (.next 0) ∧
      ∃ s', s₃.step (.next 0) = some (.ok s') ∧ s'.calls.length ≤ s₁.calls.length ∧
        s'.registered = [⟨5, 0⟩, ⟨3, 1⟩, ⟨4, 2⟩] := by decide +kernel
  obtain ⟨s₁, hs₁, hnow, s₂, hcall, hmeets, s₃, hs₃, hstill, s', hstep, hlength, hregistered⟩ := hrun
  have hreaches : m.Reaches Still s₁ := Machine.Reaches.start.run (by decide +kernel) hs₁
  obtain ⟨hcalls, hend, hfired⟩ := (virtual_time _ s₁).2 hreaches 4 s₂ hcall s₃
    (Machine.Reaches.start.run hmeets hs₃) _ s' hstill hstep hlength
  rw [hregistered, hnow] at hfired
  refine ⟨s₁, s₂, s', hcall, hcalls, hend, hregistered, ?_, ?_⟩
  · exact (hfired ⟨4, 2⟩ (by simp)).2 (by decide)
  · exact mt (hfired ⟨5, 0⟩ (by simp)).1 (by decide)

end VirtualTime

end TestScheduler

end Gpui
