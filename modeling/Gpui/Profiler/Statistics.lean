import Gpui.Lib.Greatest
import Gpui.Lib.Machine
import Gpui.Panic

/-! # Statistics of tasks and actions

    The five worst polls, tasks and actions are remembered, each with a bar that a new one has to
    reach.  The arrays of tasks are filled with placeholders; the one of actions grows.

    * **`keeps_worst`**: the worst ones are remembered as long as no short poll reaches a bar that
      placeholders have lowered, a poll does not meet an array in which the task that is youngest
      is not the one with the shortest poll, and an action does not meet free places and a bar
      that was raised, or a longer action. -/

namespace Gpui

open List

open Exec (ok_bind)

namespace Profiler

/-! ### Section 1: The model -/

/-- Instants are counted in nanoseconds. -/
structure TaskTiming where
  spawned : Nat
  start : Nat
  stop : Nat
  spawned_le : spawned ≤ start
  start_le : start ≤ stop
deriving DecidableEq

namespace TaskTiming

/-- A task timing with a duration of zero. -/
def placeholder (now : Nat) : TaskTiming := ⟨now, now, now, le_refl _, le_refl _⟩

def pollDuration (t : TaskTiming) : Nat := t.stop - t.start

def sinceSpawn (t : TaskTiming) : Nat := t.stop - t.spawned

theorem pollDuration_le (t : TaskTiming) : t.pollDuration ≤ t.sinceSpawn :=
  Nat.sub_le_sub_left t.spawned_le t.stop

end TaskTiming

structure ActionTiming where
  name : String
  start : Nat
  stop : Nat
deriving DecidableEq

def ActionTiming.runtime (a : ActionTiming) : Nat := a.stop - a.start

/-- `Duration::from_micros(100)` -/
def problematic : Nat := 100000

structure TaskStatistics where
  pollTimeToBeat : Nat
  runtimeToBeat : Nat
  longestPollTimes : List TaskTiming
  longestRuntimes : List TaskTiming

structure ActionStatistics where
  runtimeToBeat : Nat
  longestRuntimes : List ActionTiming
  running : Option (String × Nat)

/-- The first place with the least key. -/
def positionMinByKey {α : Type} (key : α → Nat) (xs : List α) : Option Nat :=
  xs.findIdx? (fun x => xs.all (fun y => decide (key x ≤ key y)))

def minimum (durations : List Nat) : Run Nat :=
  match durations.min? with
  | none   => .error .unwrapNone
  | some d => .ok d

/-- A timing that reaches the bar takes the place of the youngest task. -/
def addTiming (measure : TaskTiming → Nat) (toBeat : Nat) (longest : List TaskTiming)
    (task : TaskTiming) : Run (Nat × List TaskTiming) :=
  if toBeat ≤ measure task then
    match positionMinByKey TaskTiming.sinceSpawn longest with
    | none => .error .unwrapNone
    | some toReplace => do
        let toBeat ← minimum ((longest.set toReplace task).map TaskTiming.sinceSpawn)
        .ok (toBeat, longest.set toReplace task)
  else .ok (toBeat, longest)

namespace TaskStatistics

def default (now : Nat) : TaskStatistics where
  pollTimeToBeat := problematic
  runtimeToBeat := problematic
  longestPollTimes := List.replicate 5 (.placeholder now)
  longestRuntimes := List.replicate 5 (.placeholder now)

def addYieldTiming (s : TaskStatistics) (task : TaskTiming) : Run TaskStatistics := do
  let added ← addTiming TaskTiming.pollDuration s.pollTimeToBeat s.longestPollTimes task
  .ok { s with pollTimeToBeat := added.1, longestPollTimes := added.2 }

def addRuntime (s : TaskStatistics) (task : TaskTiming) : Run TaskStatistics := do
  let added ← addTiming TaskTiming.sinceSpawn s.runtimeToBeat s.longestRuntimes task
  .ok { s with runtimeToBeat := added.1, longestRuntimes := added.2 }

end TaskStatistics

namespace ActionStatistics

def new : ActionStatistics := ⟨problematic, [], none⟩

def take (s : ActionStatistics) : ActionStatistics := { new with running := s.running }

def updateRunningAction (s : ActionStatistics) (action : String) (started : Nat) :
    ActionStatistics :=
  { s with running := some (action, started) }

/-- The first action that is longer, if there is one, has the least key. -/
def replaced (longest : List ActionTiming) (runtime : Nat) : Option Nat :=
  if longest.length = 5 then
    positionMinByKey (fun action => if action.runtime ≤ runtime then 1 else 0) longest
  else none

def insertAction (longest : List ActionTiming) (timing : ActionTiming) :
    Run (List ActionTiming) :=
  match replaced longest timing.runtime with
  | some toReplace => .ok (longest.set toReplace timing)
  | none =>
      if longest.length < 5 then .ok (longest ++ [timing]) else .error .unwrapOob

def saveTiming (s : ActionStatistics) (timing : ActionTiming) : Run ActionStatistics :=
  if s.runtimeToBeat ≤ timing.runtime then do
    let longest ← insertAction s.longestRuntimes timing
    let toBeat ← minimum (longest.map ActionTiming.runtime)
    .ok { s with runtimeToBeat := toBeat, longestRuntimes := longest }
  else .ok s

def saveActionTiming (s : ActionStatistics) (now : Nat) : Run ActionStatistics :=
  match s.running with
  | none => .ok s
  | some running => saveTiming { s with running := none } ⟨running.1, running.2, now⟩

end ActionStatistics

structure State where
  tasks : TaskStatistics
  actions : ActionStatistics
  /-- The polls since the last reset, the last one first. -/
  polls : List TaskTiming
  /-- The actions since the last reset, the last one first. -/
  ran : List ActionTiming

inductive Action where
  | poll (task : TaskTiming)
  | resetTasks (now : Nat)
  | updateRunningAction (action : String) (started : Nat)
  | saveActionTiming (now : Nat)
  | resetActions

/-- What `saveActionTiming` records. -/
def ended (s : ActionStatistics) (now : Nat) : Option ActionTiming :=
  s.running.map (fun running => ⟨running.1, running.2, now⟩)

def step (s : State) : Action → Run State
  | .poll task => do
      let tasks ← s.tasks.addYieldTiming task
      let tasks ← tasks.addRuntime task
      .ok { s with tasks := tasks, polls := task :: s.polls }
  | .resetTasks now => .ok { s with tasks := .default now, polls := [] }
  | .updateRunningAction action started =>
      .ok { s with actions := s.actions.updateRunningAction action started }
  | .saveActionTiming now => do
      let actions ← s.actions.saveActionTiming now
      .ok { s with actions := actions, ran := (ended s.actions now).toList ++ s.ran }
  | .resetActions => .ok { s with actions := s.actions.take, ran := [] }

def machine (now : Nat) : Machine Panic State Action where
  start := ⟨.default now, .new, [], []⟩
  step s a := some (step s a)

/-! ### Section 2: What they should say -/

/-- What is not a placeholder. -/
def held (longest : List TaskTiming) : List TaskTiming :=
  longest.filter (fun t => t.sinceSpawn ≠ 0)

structure Good (s : State) : Prop where
  polls   : Greatest 5 problematic TaskTiming.pollDuration s.polls (held s.tasks.longestPollTimes)
  tasks   : Greatest 5 problematic TaskTiming.sinceSpawn s.polls (held s.tasks.longestRuntimes)
  actions : Greatest 5 problematic ActionTiming.runtime s.ran s.actions.longestRuntimes

/-- A timing is added where it should be: no short one reaches the bar; and when there are no
    placeholders left, one that reaches the bar finds that the youngest task measures least, and
    one that does not reach it would not be among the greatest. -/
def Fits (measure : TaskTiming → Nat) (toBeat : Nat) (longest : List TaskTiming)
    (task : TaskTiming) : Prop :=
  (toBeat ≤ measure task → task.sinceSpawn ≠ 0 → problematic ≤ measure task) ∧
    ((∀ t ∈ longest, t.sinceSpawn ≠ 0) →
      if toBeat ≤ measure task then
        ∀ old i, positionMinByKey TaskTiming.sinceSpawn longest = some i →
          longest[i]? = some old →
            measure old ≤ measure task ∧ ∀ t ∈ longest, measure old ≤ measure t
      else problematic ≤ measure task → ∀ t ∈ longest, measure task ≤ measure t)

/-- The same for actions: one that is problematic reaches the bar while there are free places;
    and when there are none, it does not reach it, or none is longer and the first one is the
    shortest. -/
def ActionFits (s : ActionStatistics) (timing : ActionTiming) : Prop :=
  if s.longestRuntimes.length < 5 then
    problematic ≤ timing.runtime → s.runtimeToBeat ≤ timing.runtime
  else s.runtimeToBeat ≤ timing.runtime →
    (∀ a ∈ s.longestRuntimes, a.runtime ≤ timing.runtime) ∧
      ∀ first, s.longestRuntimes.head? = some first →
        ∀ a ∈ s.longestRuntimes, first.runtime ≤ a.runtime

/-- The condition on the steps. -/
def Heeds (s : State) : Action → Prop
  | .poll task =>
      Fits TaskTiming.pollDuration s.tasks.pollTimeToBeat s.tasks.longestPollTimes task ∧
        Fits TaskTiming.sinceSpawn s.tasks.runtimeToBeat s.tasks.longestRuntimes task
  | .saveActionTiming now => ∀ timing, ended s.actions now = some timing →
      ActionFits s.actions timing
  | _ => True

/-! ### Section 3: Places -/

variable {α : Type} {xs : List α} {i : Nat}

theorem positionMinByKey_spec (key : α → Nat) (hne : xs ≠ []) :
    ∃ i x, positionMinByKey key xs = some i ∧ xs[i]? = some x ∧ ∀ y ∈ xs, key x ≤ key y := by
  unfold positionMinByKey
  cases hfind : xs.findIdx? (fun x => xs.all (fun y => decide (key x ≤ key y))) with
  | none =>
    -- there is a least one
    obtain ⟨least, hleast⟩ := exists_mem_of_ne_nil _ (fun h => hne (map_eq_nil_iff.mp h) :
      xs.map key ≠ [])
    rw [findIdx?_eq_none_iff] at hfind
    cases hmin : (xs.map key).min? with
    | none =>
      rw [min?_eq_none_iff] at hmin
      rw [hmin] at hleast
      cases hleast
    | some d =>
      obtain ⟨hmem, hle⟩ := min?_eq_some_iff.mp hmin
      obtain ⟨x, hx, rfl⟩ := mem_map.mp hmem
      have hnot := hfind x hx
      rw [all_eq_false] at hnot
      obtain ⟨y, hy, hlt⟩ := hnot
      exact absurd (decide_eq_true (hle _ (mem_map_of_mem hy))) hlt
  | some i =>
    obtain ⟨hlt, hleast, _⟩ := findIdx?_eq_some_iff_getElem.mp hfind
    refine ⟨i, xs[i], rfl, getElem?_eq_getElem hlt, ?_⟩
    intro y hy
    exact of_decide_eq_true (all_eq_true.mp hleast y hy)

theorem positionMinByKey_head {key : α → Nat} {x : α} (h : ∀ y ∈ x :: xs, key x ≤ key y) :
    positionMinByKey key (x :: xs) = some 0 := by
  unfold positionMinByKey
  rw [findIdx?_cons, if_pos]
  rw [all_eq_true]
  intro y hy
  exact decide_eq_true (h y hy)

theorem minimum_spec {durations : List Nat} (hne : durations ≠ []) :
    ∃ d, minimum durations = .ok d ∧ durations.min? = some d := by
  unfold minimum
  cases hmin : durations.min? with
  | none => exact absurd (min?_eq_none_iff.mp hmin) hne
  | some d => exact ⟨d, rfl, rfl⟩

/-- What is in a place, in front of the rest. -/
theorem perm_eraseIdx {x : α} (h : xs[i]? = some x) : xs.Perm (x :: xs.eraseIdx i) := by
  obtain ⟨hlt, rfl⟩ := List.getElem?_eq_some_iff.mp h
  exact (getElem_cons_eraseIdx_perm hlt).symm

theorem perm_set {old : α} (h : xs[i]? = some old) (x : α) :
    (xs.set i x).Perm (x :: xs.eraseIdx i) :=
  List.set_perm_cons_eraseIdx (List.getElem?_eq_some_iff.mp h).1 x

/-! ### Section 4: Tasks -/

/-- There are five places, and the bar is the first one or the least time since a spawn. -/
structure Slots (toBeat : Nat) (longest : List TaskTiming) : Prop where
  length : longest.length = 5
  toBeat : toBeat = problematic ∨ (longest.map TaskTiming.sinceSpawn).min? = some toBeat

theorem held_of_full {longest : List TaskTiming} (h : ∀ t ∈ longest, t.sinceSpawn ≠ 0) :
    held longest = longest :=
  filter_eq_self.mpr (fun t ht => by simpa using h t ht)

theorem held_cons {t : TaskTiming} {longest : List TaskTiming} :
    held (t :: longest) = if t.sinceSpawn = 0 then held longest else t :: held longest := by
  unfold held
  by_cases h : t.sinceSpawn = 0 <;> simp [h]

section Add

variable {measure : TaskTiming → Nat} {toBeat : Nat} {longest polls : List TaskTiming}
  {task : TaskTiming}

/-- A timing that reaches the bar. -/
theorem greatest_set (hmeasure : ∀ t, measure t ≤ t.sinceSpawn) (h : Slots toBeat longest)
    (hgreatest : Greatest 5 problematic measure polls (held longest))
    (hbar : toBeat ≤ measure task) {old : TaskTiming}
    (hi : positionMinByKey TaskTiming.sinceSpawn longest = some i) (hold : longest[i]? = some old)
    (hleast : ∀ t ∈ longest, old.sinceSpawn ≤ t.sinceSpawn) :
    Greatest 5 problematic measure (task :: polls) (held (longest.set i task)) ↔
      Fits measure toBeat longest task := by
  have hperm : (held longest).Perm (held (old :: longest.eraseIdx i)) :=
    (perm_eraseIdx hold).filter _
  have hset : (held (longest.set i task)).Perm (held (task :: longest.eraseIdx i)) :=
    (perm_set hold task).filter _
  have hmem : old ∈ longest := mem_of_getElem? hold
  have hiff : Greatest 5 problematic measure (task :: polls) (held (longest.set i task)) ↔
      Greatest 5 problematic measure (task :: polls) (held (task :: longest.eraseIdx i)) :=
    ⟨fun h => h.perm hset.symm, fun h => h.perm hset⟩
  have hbefore := hgreatest.perm hperm.symm
  have herase : (held (longest.eraseIdx i)).length ≤ 4 := by
    refine (length_filter_le _ _).trans ?_
    have hlen := (perm_eraseIdx hold).length_eq
    rw [h.length, length_cons] at hlen
    omega
  rw [hiff, held_cons]
  rw [held_cons] at hbefore
  unfold Fits
  rw [if_pos hbar]
  by_cases hzero : task.sinceSpawn = 0
  · -- it looks like a placeholder, and takes the place of one
    have hnone := hmeasure task
    have holdzero : old.sinceSpawn = 0 := by
      obtain rfl | hmin := h.toBeat
      · have hpos : 0 < problematic := by decide
        omega
      · have hle := (min?_eq_some_iff.mp hmin).1
        obtain ⟨t, ht, hbeat⟩ := mem_map.mp hle
        have hlow := hleast t ht
        omega
    rw [if_pos hzero]
    rw [if_pos holdzero] at hbefore
    have hpos : 0 < problematic := by decide
    exact iff_of_true (hbefore.skip_short (by omega))
      ⟨fun _ hne => absurd hzero hne, fun hall => absurd holdzero (hall old hmem)⟩
  rw [if_neg hzero]
  by_cases hshort : problematic ≤ measure task
  · by_cases holdzero : old.sinceSpawn = 0
    · -- a free place
      rw [if_pos holdzero] at hbefore
      exact iff_of_true (hbefore.add (by omega) hshort)
        ⟨fun _ _ => hshort, fun hall => absurd holdzero (hall old hmem)⟩
    · have hall : ∀ t ∈ longest, t.sinceSpawn ≠ 0 := by
        intro t ht
        have hle := hleast t ht
        omega
      have hrest : held (longest.eraseIdx i) = longest.eraseIdx i :=
        held_of_full (fun t ht => hall t (mem_of_mem_eraseIdx ht))
      rw [if_neg holdzero, hrest] at hbefore
      rw [hrest, hbefore.replace_iff hshort (by rw [← (perm_eraseIdx hold).length_eq, h.length])]
      constructor
      · intro hreplace
        refine ⟨fun _ _ => hshort, fun _ old' i' hi' hold' => ?_⟩
        rw [hi] at hi'
        cases hi'
        rw [hold] at hold'
        cases hold'
        refine ⟨hreplace.1, fun t ht => ?_⟩
        obtain rfl | ht := mem_cons.mp ((perm_eraseIdx hold).mem_iff.mp ht)
        · exact le_refl _
        · exact hreplace.2 t ht
      · intro hfits
        obtain ⟨hle, hothers⟩ := hfits.2 hall old i hi hold
        exact ⟨hle, fun t ht => hothers t (mem_of_mem_eraseIdx ht)⟩
  · -- a short one is held
    refine iff_of_false ?_ (fun hfits => hshort (hfits.1 hbar hzero))
    intro hbad
    exact hshort (hbad.reaches mem_cons_self)

/-- A timing that does not reach the bar. -/
theorem greatest_skip (h : Slots toBeat longest)
    (hgreatest : Greatest 5 problematic measure polls (held longest))
    (hbar : ¬ toBeat ≤ measure task) :
    Greatest 5 problematic measure (task :: polls) (held longest) ↔
      Fits measure toBeat longest task := by
  unfold Fits
  rw [if_neg hbar]
  by_cases hshort : problematic ≤ measure task
  · -- the bar was raised, so there are no placeholders
    have hall : ∀ t ∈ longest, t.sinceSpawn ≠ 0 := by
      intro t ht hzero
      obtain rfl | hmin := h.toBeat
      · exact hbar hshort
      · have hle := (min?_eq_some_iff.mp hmin).2 _ (mem_map_of_mem ht)
        omega
    rw [hgreatest.skip_iff hshort, held_of_full hall, h.length]
    constructor
    · intro hskip
      exact ⟨fun hle => absurd hle hbar, fun _ _ => hskip.2⟩
    · intro hfits
      exact ⟨rfl, hfits.2 hall hshort⟩
  · exact iff_of_true (hgreatest.skip_short (by omega))
      ⟨fun hle => absurd hle hbar, fun _ hle => absurd hle hshort⟩

theorem addTiming_spec (hmeasure : ∀ t, measure t ≤ t.sinceSpawn) (h : Slots toBeat longest)
    (hgreatest : Greatest 5 problematic measure polls (held longest)) (task : TaskTiming) :
    ∃ added, addTiming measure toBeat longest task = .ok added ∧ Slots added.1 added.2 ∧
      (Greatest 5 problematic measure (task :: polls) (held added.2) ↔
        Fits measure toBeat longest task) := by
  unfold addTiming
  by_cases hbar : toBeat ≤ measure task
  · rw [if_pos hbar]
    have hne : longest ≠ [] := ne_nil_of_length_eq_add_one h.length
    obtain ⟨i, old, hi, hold, hleast⟩ := positionMinByKey_spec TaskTiming.sinceSpawn hne
    have hlen : (longest.set i task).length = 5 := length_set.trans h.length
    have hset : (longest.set i task).map TaskTiming.sinceSpawn ≠ [] := by
      apply ne_nil_of_length_eq_add_one
      rw [length_map, hlen]
    obtain ⟨d, hd, hmin⟩ := minimum_spec hset
    rw [hi]
    dsimp only
    rw [hd, ok_bind]
    exact ⟨_, rfl, ⟨hlen, .inr hmin⟩, greatest_set hmeasure h hgreatest hbar hi hold hleast⟩
  · rw [if_neg hbar]
    exact ⟨_, rfl, h, greatest_skip h hgreatest hbar⟩

end Add

/-! ### Section 5: Actions -/

/-- There are five places at most, and the bar is the first one or the least time. -/
structure Places (s : ActionStatistics) : Prop where
  length : s.longestRuntimes.length ≤ 5
  toBeat : s.longestRuntimes = [] ∧ s.runtimeToBeat = problematic ∨
    (s.longestRuntimes.map ActionTiming.runtime).min? = some s.runtimeToBeat

section Save

variable {s : ActionStatistics} {ran : List ActionTiming} {timing : ActionTiming}

section

variable (h : Places s)
  (hgreatest : Greatest 5 problematic ActionTiming.runtime ran s.longestRuntimes)
include h hgreatest

theorem Places.problematic_le : problematic ≤ s.runtimeToBeat := by
  obtain ⟨_, hbeat⟩ | hmin := h.toBeat
  · exact hbeat.ge
  · obtain ⟨a, ha, hbeat⟩ := mem_map.mp (min?_eq_some_iff.mp hmin).1
    rw [← hbeat]
    exact hgreatest.reaches ha

/-- An action that reaches the bar. -/
theorem insertAction_spec (hbar : s.runtimeToBeat ≤ timing.runtime) :
    ∃ longest, ActionStatistics.insertAction s.longestRuntimes timing = .ok longest ∧ longest ≠ [] ∧
      longest.length ≤ 5 ∧
      (Greatest 5 problematic ActionTiming.runtime (timing :: ran) longest ↔
        ActionFits s timing) := by
  have hlong := (h.problematic_le hgreatest).trans hbar
  unfold ActionStatistics.insertAction ActionStatistics.replaced ActionFits
  by_cases hfull : s.longestRuntimes.length = 5
  · have hne : s.longestRuntimes ≠ [] := ne_nil_of_length_eq_add_one hfull
    obtain ⟨i, old, hi, hold, hleast⟩ := positionMinByKey_spec
      (fun action : ActionTiming => if action.runtime ≤ timing.runtime then 1 else 0) hne
    have hlen : (s.longestRuntimes.set i timing).length = 5 := length_set.trans hfull
    have hset := perm_set hold timing
    have herase := perm_eraseIdx hold
    have hiff : Greatest 5 problematic ActionTiming.runtime (timing :: ran)
        (s.longestRuntimes.set i timing) ↔ old.runtime ≤ timing.runtime ∧
          ∀ a ∈ s.longestRuntimes.eraseIdx i, old.runtime ≤ a.runtime := by
      rw [← (hgreatest.perm herase.symm).replace_iff hlong (by rw [← herase.length_eq, hfull])]
      exact ⟨fun h => h.perm hset.symm, fun h => h.perm hset⟩
    have hnot : ¬ s.longestRuntimes.length < 5 := by omega
    rw [if_pos hfull, hi, if_neg hnot]
    refine ⟨_, rfl, ne_nil_of_length_eq_add_one hlen, hlen.le, hiff.trans ?_⟩
    rw [if_neg hnot]
    constructor
    · intro hreplace _
      -- no action is longer, or the one that is replaced would be
      have hnone : ∀ a ∈ s.longestRuntimes, a.runtime ≤ timing.runtime := by
        intro a ha
        have hle := hleast a ha
        rw [if_pos hreplace.1] at hle
        by_contra hlonger
        rw [if_neg hlonger] at hle
        omega
      refine ⟨hnone, ?_⟩
      intro first hfirst a ha
      obtain ⟨rest, hrest⟩ := head?_eq_some_iff.mp hfirst
      rw [hrest, positionMinByKey_head] at hi
      · cases hi
        rw [hrest] at hold
        cases hold
        obtain rfl | ha := mem_cons.mp (herase.mem_iff.mp ha)
        · exact le_refl _
        · exact hreplace.2 a ha
      · intro b hb
        rw [← hrest] at hb
        rw [if_pos (hnone b hb), if_pos (hnone first (mem_of_mem_head? hfirst))]
    · intro hfits
      obtain ⟨hnone, hfirst⟩ := hfits hbar
      obtain ⟨first, rest, hrest⟩ := exists_cons_of_ne_nil hne
      have hmem : first ∈ s.longestRuntimes := by
        rw [hrest]
        exact mem_cons_self
      rw [hrest, positionMinByKey_head] at hi
      · cases hi
        have holdfirst : old = first := by
          rw [hrest] at hold
          exact (Option.some.inj hold).symm
        rw [holdfirst]
        refine ⟨hnone first hmem, ?_⟩
        intro a ha
        have hhead : s.longestRuntimes.head? = some first := by
          rw [hrest]
          rfl
        exact hfirst first hhead a (mem_of_mem_eraseIdx ha)
      · intro b hb
        rw [← hrest] at hb
        rw [if_pos (hnone b hb), if_pos (hnone first hmem)]
  · have hlt : s.longestRuntimes.length < 5 := lt_of_le_of_ne h.length hfull
    rw [if_neg hfull, if_pos hlt]
    rw [if_pos hlt]
    refine ⟨_, rfl, append_ne_nil_of_right_ne_nil _ (cons_ne_nil _ _), ?_, ?_⟩
    · rw [length_append, length_singleton]
      omega
    · exact iff_of_true ((hgreatest.add hlt hlong).perm (perm_append_singleton _ _))
        (fun _ => hbar)

theorem saveTiming_spec (timing : ActionTiming) :
    ∃ s', s.saveTiming timing = .ok s' ∧ Places s' ∧
      (Greatest 5 problematic ActionTiming.runtime (timing :: ran) s'.longestRuntimes ↔
        ActionFits s timing) := by
  unfold ActionStatistics.saveTiming
  by_cases hbar : s.runtimeToBeat ≤ timing.runtime
  · rw [if_pos hbar]
    obtain ⟨longest, hlongest, hne, hlen, hiff⟩ := insertAction_spec h hgreatest hbar
    have hmap : longest.map ActionTiming.runtime ≠ [] :=
      fun hnil => hne (map_eq_nil_iff.mp hnil)
    obtain ⟨d, hd, hmin⟩ := minimum_spec hmap
    rw [hlongest, ok_bind, hd, ok_bind]
    exact ⟨_, rfl, ⟨hlen, .inr hmin⟩, hiff⟩
  · rw [if_neg hbar]
    refine ⟨s, rfl, h, ?_⟩
    unfold ActionFits
    by_cases hshort : problematic ≤ timing.runtime
    · rw [hgreatest.skip_iff hshort]
      by_cases hfull : s.longestRuntimes.length = 5
      · rw [if_neg (by omega)]
        refine iff_of_true ⟨hfull, ?_⟩ (fun hle => absurd hle hbar)
        intro a ha
        obtain ⟨hnil, _⟩ | hmin := h.toBeat
        · rw [hnil] at ha
          cases ha
        · have hle := (min?_eq_some_iff.mp hmin).2 _ (mem_map_of_mem ha)
          omega
      · rw [if_pos (lt_of_le_of_ne h.length hfull)]
        exact iff_of_false (fun hskip => hfull hskip.1) (fun hfits => hbar (hfits hshort))
    · refine iff_of_true (hgreatest.skip_short (by omega)) ?_
      split
      · exact fun hle => absurd hle hshort
      · exact fun hle => absurd hle hbar

end

end Save

/-! ### Section 6: Runs -/

structure Inv (s : State) : Prop where
  good    : Good s
  polls   : Slots s.tasks.pollTimeToBeat s.tasks.longestPollTimes
  tasks   : Slots s.tasks.runtimeToBeat s.tasks.longestRuntimes
  actions : Places s.actions

theorem slots_default (now : Nat) :
    Slots problematic (List.replicate 5 (TaskTiming.placeholder now)) :=
  ⟨length_replicate, .inl rfl⟩

theorem held_default (now : Nat) : held (List.replicate 5 (TaskTiming.placeholder now)) = [] := by
  apply filter_eq_nil_iff.mpr
  intro t ht
  rw [eq_of_mem_replicate ht]
  simp [TaskTiming.placeholder, TaskTiming.sinceSpawn]

theorem greatest_default (measure : TaskTiming → Nat) (now : Nat) :
    Greatest 5 problematic measure [] (held (List.replicate 5 (TaskTiming.placeholder now))) := by
  rw [held_default]
  exact Greatest.nil

/-- A step keeps everything but the statistics, and these if it heeds the condition. -/
theorem step_spec {s : State} (h : Inv s) (a : Action) :
    ∃ s', step s a = .ok s' ∧ (Good s' ↔ Heeds s a) ∧ (Good s' → Inv s') := by
  cases a with
  | poll task =>
    obtain ⟨poll, hpoll, hslots, hiff⟩ :=
      addTiming_spec TaskTiming.pollDuration_le h.polls h.good.polls task
    obtain ⟨run, hrun, hslots', hiff'⟩ :=
      addTiming_spec (fun t => le_refl t.sinceSpawn) h.tasks h.good.tasks task
    unfold step TaskStatistics.addYieldTiming TaskStatistics.addRuntime
    dsimp only
    rw [hpoll, ok_bind, ok_bind]
    rw [hrun, ok_bind, ok_bind]
    refine ⟨_, rfl, ?_, fun hgood => ⟨hgood, hslots, hslots', ⟨h.actions.length, h.actions.toBeat⟩⟩⟩
    constructor
    · intro hgood
      exact ⟨hiff.mp hgood.polls, hiff'.mp hgood.tasks⟩
    · intro hfits
      exact ⟨hiff.mpr hfits.1, hiff'.mpr hfits.2, h.good.actions⟩
  | resetTasks now =>
    have hgood : Good { s with tasks := .default now, polls := [] } :=
      ⟨greatest_default _ now, greatest_default _ now, h.good.actions⟩
    exact ⟨_, rfl, iff_of_true hgood trivial,
      fun hgood => ⟨hgood, slots_default now, slots_default now, h.actions⟩⟩
  | updateRunningAction action started =>
    have hgood : Good { s with actions := s.actions.updateRunningAction action started } :=
      ⟨h.good.polls, h.good.tasks, h.good.actions⟩
    exact ⟨_, rfl, iff_of_true hgood trivial,
      fun hgood => ⟨hgood, h.polls, h.tasks, ⟨h.actions.length, h.actions.toBeat⟩⟩⟩
  | saveActionTiming now =>
    unfold step ActionStatistics.saveActionTiming Heeds ended
    cases hrunning : s.actions.running with
    | none =>
      have hgood : Good { s with ran := [] ++ s.ran } := h.good
      exact ⟨_, rfl, iff_of_true hgood (fun timing htiming => nomatch htiming),
        fun hgood => ⟨hgood, h.polls, h.tasks, h.actions⟩⟩
    | some running =>
      have hplaces : Places { s.actions with running := none } :=
        ⟨h.actions.length, h.actions.toBeat⟩
      obtain ⟨actions, hsave, hplaces', hiff⟩ :=
        saveTiming_spec hplaces h.good.actions ⟨running.1, running.2, now⟩
      dsimp only
      rw [hsave, ok_bind]
      refine ⟨_, rfl, ?_, fun hgood => ⟨hgood, h.polls, h.tasks, hplaces'⟩⟩
      constructor
      · intro hgood timing htiming
        cases htiming
        exact hiff.mp hgood.actions
      · intro hfits
        exact ⟨h.good.polls, h.good.tasks, hiff.mpr (hfits _ rfl)⟩
  | resetActions =>
    have hgood : Good { s with actions := s.actions.take, ran := [] } :=
      ⟨h.good.polls, h.good.tasks, Greatest.nil⟩
    exact ⟨_, rfl, iff_of_true hgood trivial,
      fun hgood => ⟨hgood, h.polls, h.tasks, ⟨Nat.zero_le 5, .inl ⟨rfl, rfl⟩⟩⟩⟩

/-- The state after a step. -/
theorem step_eq_some {now : Nat} {s s' next : State} {a : Action} (hnext : step s a = .ok next)
    (hstep : (machine now).step s a = some (.ok s')) : s' = next :=
  (Except.ok.inj (hnext.symm.trans (Option.some.inj hstep))).symm

theorem inv_inductive (now : Nat) : (machine now).Inductive Heeds Inv where
  start := ⟨⟨greatest_default _ now, greatest_default _ now, Greatest.nil⟩, slots_default now,
    slots_default now, ⟨Nat.zero_le 5, .inl ⟨rfl, rfl⟩⟩⟩
  step := by
    intro s a s' h hheeds hstep
    obtain ⟨next, hnext, hgood, hinv⟩ := step_spec h a
    rw [step_eq_some hnext hstep]
    exact hinv (hgood.mpr hheeds)

/-- The worst polls, tasks and actions are remembered in every state of a run if its steps heed
    the condition, and not after one that does not. -/
theorem keeps_worst (now : Nat) : (machine now).Exact Heeds Good := by
  apply (inv_inductive now).exact (fun s h => h.good)
  intro s a s' h hstep hnot
  obtain ⟨next, hnext, hgood, _⟩ := step_spec h a
  -- the step itself spoils the run
  rw [step_eq_some hnext hstep]
  exact ⟨[], next, trivial, Machine.run_nil next, fun hbad => hnot (hgood.mp hbad)⟩

/-- A poll of two hundred microseconds. -/
def longPoll : TaskTiming := ⟨0, 0, 200000, le_refl _, Nat.zero_le _⟩

/-- A poll of one microsecond. -/
def shortPoll : TaskTiming := ⟨0, 200000, 201000, by omega, by omega⟩

/-- The short poll is remembered too. -/
theorem short_poll_remembered :
    ∃ s, (machine 0).run (machine 0).start [.poll longPoll, .poll shortPoll] = some (.ok s) ∧
      ¬ Good s := by
  have hheld : ∀ s, (machine 0).run (machine 0).start [.poll longPoll, .poll shortPoll] =
      some (.ok s) → shortPoll ∈ held s.tasks.longestPollTimes := by
    intro s hs
    cases hs
    decide
  refine ⟨_, rfl, ?_⟩
  intro hgood
  exact absurd (hgood.polls.reaches (hheld _ rfl)) (by decide)

end Profiler

end Gpui
