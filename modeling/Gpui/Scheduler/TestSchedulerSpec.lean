import Gpui.Scheduler.TestScheduler
import Gpui.Lib.Exec

/-! # The order in which the test scheduler runs tasks

    A task is inserted behind the last task of its session, and only the first task of a
    session can be taken out.  So the queue keeps the order of every session, wherever the
    tasks of the others are. -/

open Exec

namespace Gpui

open List

namespace TestScheduler

/-! ### Random choices -/

theorem randomRange_eq_ok {start stop draw x : Nat} (h : randomRange start stop draw = .ok x) :
    start ≤ x ∧ x < stop := by
  unfold randomRange at h
  split at h
  · cases h
  · rename_i hlt
    cases h
    have hmod : draw % (stop - start) < stop - start := Nat.mod_lt _ (by omega)
    omega

theorem index_eq_ok {xs : List Nat} {i x : Nat} (h : index xs i = .ok x) : xs[i]? = some x := by
  unfold index at h
  split at h
  · cases h
  · rename_i y hy
    cases h
    exact hy

/-- Behind the last position at which a condition holds, it does not hold. -/
theorem rposition_spec {α : Type} {p : α → Bool} {l : List α} {n : Nat}
    (h : ((rposition p l).map (· + 1)).getD 0 ≤ n) : ∀ x ∈ l.drop n, p x = false := by
  induction l generalizing n with
  | nil => simp
  | cons a l ih =>
    unfold rposition at h
    cases hpos : rposition p l with
    | some ix =>
      rw [hpos] at h ih
      simp only [Option.map_some, Option.getD_some] at h ih
      obtain ⟨n, rfl⟩ : ∃ m, n = m + 1 := ⟨n - 1, by omega⟩
      exact ih (by omega)
    | none =>
      rw [hpos] at h ih
      have hall : ∀ x ∈ l, p x = false := by
        have hzero := ih (n := 0) (Nat.zero_le _)
        simpa using hzero
      cases n with
      | zero =>
        intro x hx
        cases hpa : p a with
        | true => simp [hpa] at h
        | false =>
          rw [drop_zero, mem_cons] at hx
          obtain rfl | hx := hx
          · exact hpa
          · exact hall x hx
      | succ n =>
        intro x hx
        exact hall x (mem_of_mem_drop hx)

/-- A target below the sum of the weights selects a weight that is not zero. -/
theorem selectWeighted_spec {weights : List Nat} {target : Nat} (h : target < weights.sum) :
    ∃ i weight, selectWeighted weights target = some i ∧ weights[i]? = some weight ∧
      0 < weight := by
  induction weights generalizing target with
  | nil => simp at h
  | cons w rest ih =>
    rw [sum_cons] at h
    unfold selectWeighted
    split
    · exact ⟨0, w, rfl, rfl, by omega⟩
    · obtain ⟨i, weight, hselect, hweight, hpos⟩ := @ih (target - w) (by omega)
      refine ⟨i + 1, weight, ?_, ?_, hpos⟩
      · rw [hselect, Option.map_some]
      · rw [getElem?_cons_succ, hweight]

/-! ### Candidates -/

/-- A tick may run the task. -/
def Eligible (blockedSessions : List Nat) (backgroundOnly : Bool) (task : ScheduledRunnable) :
    Prop :=
  ∀ sessionId, task.sessionId = some sessionId →
    backgroundOnly = false ∧ sessionId ∉ blockedSessions

/-- No task before this one is of its session. -/
def FirstOfSession (before : List ScheduledRunnable) (task : ScheduledRunnable) : Prop :=
  ∀ sessionId, task.sessionId = some sessionId → ∀ q ∈ before, q.sessionId ≠ some sessionId

theorem mem_candidateIndices {blockedSessions seenSessions : List Nat} {backgroundOnly : Bool}
    {start ix : Nat} {tasks : List ScheduledRunnable}
    (h : ix ∈ candidateIndices blockedSessions backgroundOnly start seenSessions tasks) :
    ∃ before task after, tasks = before ++ task :: after ∧ ix = start + before.length ∧
      Eligible blockedSessions backgroundOnly task ∧ FirstOfSession before task ∧
      ∀ sessionId ∈ seenSessions, task.sessionId ≠ some sessionId := by
  -- induction on the tasks; the sessions seen so far are those of the tasks before
  induction tasks generalizing start seenSessions with
  | nil => cases h
  | cons a tasks ih =>
    -- the chosen task is behind `a`
    have hbehind : ∀ seen, (∀ sessionId ∈ seenSessions, sessionId ∈ seen) →
        ix ∈ candidateIndices blockedSessions backgroundOnly (start + 1) seen tasks →
        (∀ task sessionId, Eligible blockedSessions backgroundOnly task →
          (∀ s ∈ seen, task.sessionId ≠ some s) → task.sessionId = some sessionId →
          a.sessionId ≠ some sessionId) →
        ∃ before task after, a :: tasks = before ++ task :: after ∧ ix = start + before.length ∧
          Eligible blockedSessions backgroundOnly task ∧ FirstOfSession before task ∧
          ∀ sessionId ∈ seenSessions, task.sessionId ≠ some sessionId := by
      intro seen hseen hmem hother
      obtain ⟨before, task, after, htasks, hix, heligible, hfirst, hnew⟩ := ih hmem
      refine ⟨a :: before, task, after, ?_, ?_, heligible, ?_, ?_⟩
      · rw [htasks, cons_append]
      · rw [hix, length_cons]
        omega
      · intro sessionId hsession q hq
        obtain rfl | hq := mem_cons.1 hq
        · exact hother task sessionId heligible hnew hsession
        · exact hfirst sessionId hsession q hq
      · exact fun sessionId hmem => hnew sessionId (hseen sessionId hmem)
    unfold candidateIndices at h
    split at h
    · rename_i sessionId hsession
      split at h
      · rename_i hskip
        apply hbehind seenSessions (fun _ hmem => hmem) h
        intro task other heligible hnew hother heq
        -- a task of the session of `a` would be skipped too
        rw [hsession, Option.some.injEq] at heq
        subst heq
        obtain ⟨hforeground, hblocked⟩ := heligible _ hother
        simp only [hforeground, Bool.false_or, Bool.or_eq_true, contains_eq_mem,
          decide_eq_true_eq, hblocked, false_or] at hskip
        exact hnew _ hskip hother
      · rename_i hkeep
        simp only [Bool.or_eq_true, contains_eq_mem, decide_eq_true_eq, not_or,
          Bool.not_eq_true] at hkeep
        obtain rfl | h := mem_cons.1 h
        · refine ⟨[], a, tasks, rfl, rfl, ?_, ?_, ?_⟩
          · intro other hother
            rw [hsession, Option.some.injEq] at hother
            exact hother ▸ hkeep.1
          · intro _ _ q hq
            cases hq
          · intro other hmem heq
            rw [hsession, Option.some.injEq] at heq
            exact hkeep.2 (heq ▸ hmem)
        · apply hbehind (sessionId :: seenSessions) (fun _ hmem => mem_cons_of_mem _ hmem) h
          intro task other _ hnew hother heq
          rw [hsession, Option.some.injEq] at heq
          exact hnew sessionId mem_cons_self (heq ▸ hother)
    · rename_i hnone
      obtain rfl | h := mem_cons.1 h
      · refine ⟨[], a, tasks, rfl, rfl, ?_, ?_, ?_⟩
        · intro other hother
          rw [hnone] at hother
          cases hother
        · intro _ _ q hq
          cases hq
        · intro other _ heq
          rw [hnone] at heq
          cases heq
      · apply hbehind seenSessions (fun _ hmem => hmem) h
        intro task other _ _ _ heq
        rw [hnone] at heq
        cases heq

namespace State

/-- The tasks that a tick chooses from. -/
def candidates (s : State) (backgroundOnly : Bool) : List ScheduledRunnable :=
  (candidateIndices s.blockedSessions backgroundOnly 0 [] s.runnables).filterMap
    (fun ix => s.runnables[ix]?)

theorem weights_eq (s : State) (indices : List Nat) :
    s.weights indices =
      (indices.filterMap (fun ix => s.runnables[ix]?)).map (fun task => task.priority.weight) := by
  unfold weights
  rw [map_filterMap]

/-- The positions of the candidates are positions of the queue. -/
theorem candidates_getElem? (s : State) (backgroundOnly : Bool) (i : Nat) :
    (s.candidates backgroundOnly)[i]? =
      (candidateIndices s.blockedSessions backgroundOnly 0 [] s.runnables)[i]?.bind
        (fun ix => s.runnables[ix]?) := by
  have hall : ∀ ix ∈ candidateIndices s.blockedSessions backgroundOnly 0 [] s.runnables,
      ∃ task, s.runnables[ix]? = some task := by
    intro ix hix
    obtain ⟨before, task, after, htasks, rfl, _⟩ := mem_candidateIndices hix
    refine ⟨task, ?_⟩
    rw [htasks, Nat.zero_add]
    simp
  unfold candidates
  generalize candidateIndices s.blockedSessions backgroundOnly 0 [] s.runnables = indices at hall ⊢
  induction indices generalizing i with
  | nil => rfl
  | cons ix indices ih =>
    obtain ⟨task, htask⟩ := hall ix mem_cons_self
    rw [filterMap_cons_some htask]
    cases i with
    | zero => simp [htask]
    | succ i =>
      exact ih i (fun ix hix => hall ix (mem_cons_of_mem _ hix))

/-- What a tick may choose. -/
structure Chosen (s : State) (backgroundOnly : Bool) (before : List ScheduledRunnable)
    (task : ScheduledRunnable) : Prop where
  eligible : Eligible s.blockedSessions backgroundOnly task
  first : FirstOfSession before task
  /-- A task of weight zero is chosen by chance only if there is no other. -/
  weight : s.config.randomizeOrder = true → task.priority.weight = 0 →
    ∀ other ∈ s.candidates backgroundOnly, other.priority.weight = 0
  /-- Without chance the first candidate is chosen. -/
  head : s.config.randomizeOrder = false → (s.candidates backgroundOnly).head? = some task

variable {s s' : State} {draw sessionId : Nat} {task : ScheduledRunnable} {stack : List Frame}

theorem chooseRunnable_spec {backgroundOnly : Bool} {ix : Nat}
    (h : s.chooseRunnable backgroundOnly draw = .ok (some ix)) :
    ∃ before task after, s.runnables = before ++ task :: after ∧ ix = before.length ∧
      s.Chosen backgroundOnly before task := by
  -- the candidate at a position, if what is asked of its weight holds
  have hpick : ∀ i : Nat, (candidateIndices s.blockedSessions backgroundOnly 0 [] s.runnables)[i]? =
        some ix →
      (∀ task, (s.candidates backgroundOnly)[i]? = some task →
        (s.config.randomizeOrder = true → task.priority.weight = 0 →
          ∀ other ∈ s.candidates backgroundOnly, other.priority.weight = 0) ∧
        (s.config.randomizeOrder = false → (s.candidates backgroundOnly).head? = some task)) →
      ∃ before task after, s.runnables = before ++ task :: after ∧ ix = before.length ∧
        s.Chosen backgroundOnly before task := by
    intro i hi hweight
    obtain ⟨before, task, after, htasks, hix, heligible, hfirst, _⟩ :=
      mem_candidateIndices (mem_of_getElem? hi)
    rw [Nat.zero_add] at hix
    have hcandidate : (s.candidates backgroundOnly)[i]? = some task := by
      rw [candidates_getElem?, hi, Option.bind_some, htasks, hix]
      simp
    obtain ⟨hrandom, hhead⟩ := hweight task hcandidate
    exact ⟨before, task, after, htasks, hix, heligible, hfirst, hrandom, hhead⟩
  unfold chooseRunnable at h
  dsimp only at h
  split at h
  · cases h
  · split at h
    · rename_i hrandomize
      obtain ⟨totalWeight, hsum, h⟩ := bind_eq_ok.1 h
      have htotal : totalWeight = ((s.candidates backgroundOnly).map
          (fun task => task.priority.weight)).sum := by
        unfold sumWeights at hsum
        split at hsum
        · cases hsum
          rw [weights_eq]
          rfl
        · cases hsum
      split at h
      · rename_i hzero
        obtain ⟨choice, _, h⟩ := bind_eq_ok.1 h
        obtain ⟨ix', hindex, heq⟩ := map_eq_ok.1 h
        cases heq
        apply hpick choice (index_eq_ok hindex)
        intro task _
        refine ⟨?_, ?_⟩
        · intro _ _ other hother
          rw [htotal, sum_eq_zero_iff] at hzero
          exact hzero _ (mem_map_of_mem hother)
        · intro hnot
          rw [hrandomize] at hnot
          cases hnot
      · obtain ⟨target, htarget, h⟩ := bind_eq_ok.1 h
        obtain ⟨ix', hindex, heq⟩ := map_eq_ok.1 h
        cases heq
        apply hpick _ (index_eq_ok hindex)
        intro task htask
        refine ⟨?_, ?_⟩
        · intro _ hweight
          -- the selected weight is not zero
          have hlt : target < (s.weights (candidateIndices s.blockedSessions backgroundOnly 0 []
              s.runnables)).sum := by
            rw [weights_eq]
            exact htotal ▸ (randomRange_eq_ok htarget).2
          obtain ⟨i, weight, hselect, hget, hpos⟩ := selectWeighted_spec hlt
          rw [hselect, Option.getD_some] at htask
          rw [weights_eq, getElem?_map] at hget
          have hcandidate : ((candidateIndices s.blockedSessions backgroundOnly 0 []
              s.runnables).filterMap (fun ix => s.runnables[ix]?))[i]? = some task := htask
          rw [hcandidate, Option.map_some, Option.some.injEq] at hget
          omega
        · intro hnot
          rw [hrandomize] at hnot
          cases hnot
    · rename_i hrandomize
      obtain ⟨ix', hindex, heq⟩ := map_eq_ok.1 h
      cases heq
      apply hpick 0 (index_eq_ok hindex)
      intro task htask
      refine ⟨?_, ?_⟩
      · intro hrandom
        exact absurd hrandom hrandomize
      · intro _
        rw [head?_eq_getElem?, htask]

/-! ### The queue -/

/-- The tasks of a session, in order. -/
def ofSession (sessionId : Nat) (tasks : List ScheduledRunnable) : List ScheduledRunnable :=
  tasks.filter (fun task => task.sessionId = some sessionId)

@[simp] theorem ofSession_append (sessionId : Nat) (tasks tasks' : List ScheduledRunnable) :
    ofSession sessionId (tasks ++ tasks') =
      ofSession sessionId tasks ++ ofSession sessionId tasks' := by
  unfold ofSession
  rw [filter_append]

theorem ofSession_cons_self
    (tasks : List ScheduledRunnable) (h : task.sessionId = some sessionId) :
    ofSession sessionId (task :: tasks) = task :: ofSession sessionId tasks := by
  simp [ofSession, h]

theorem ofSession_cons_other
    (tasks : List ScheduledRunnable) (h : task.sessionId ≠ some sessionId) :
    ofSession sessionId (task :: tasks) = ofSession sessionId tasks := by
  simp [ofSession, h]

theorem ofSession_eq_nil {tasks : List ScheduledRunnable}
    (h : ∀ task ∈ tasks, task.sessionId ≠ some sessionId) : ofSession sessionId tasks = [] := by
  unfold ofSession
  rw [filter_eq_nil_iff]
  intro task htask
  simpa using h task htask

@[simp] theorem ofSession_nil (sessionId : Nat) : ofSession sessionId [] = [] := rfl

theorem insertIdx_eq {α : Type} {l : List α} {i : Nat} (x : α) (h : i ≤ l.length) :
    l.insertIdx i x = l.take i ++ x :: l.drop i := by
  induction l generalizing i with
  | nil =>
    have hzero : i = 0 := by simpa using h
    subst hzero
    rfl
  | cons y l ih =>
    cases i with
    | zero => rfl
    | succ i =>
      have hi : i ≤ l.length := by simpa using h
      rw [insertIdx_succ_cons, ih hi]
      rfl

/-- What was scheduled was run or is in the queue, in the order of its session. -/
structure Queued (s : State) : Prop where
  tickets : s.scheduled.map ScheduledRunnable.ticket = List.range s.scheduled.length
  once : s.scheduled.Perm (s.ran ++ s.runnables)
  inOrder : ∀ sessionId, ofSession sessionId s.scheduled =
    ofSession sessionId s.ran ++ ofSession sessionId s.runnables

theorem Queued.same (h : s.Queued) (hrunnables : s'.runnables = s.runnables)
    (hscheduled : s'.scheduled = s.scheduled) (hran : s'.ran = s.ran) : s'.Queued where
  tickets := by
    rw [hscheduled]
    exact h.tickets
  once := by
    rw [hscheduled, hran, hrunnables]
    exact h.once
  inOrder := by
    rw [hscheduled, hran, hrunnables]
    exact h.inOrder

/-- A task is inserted where none of its session follows. -/
theorem Queued.insert (h : s.Queued) {ix : Nat} (sessionId : Option Nat)
    (priority : Priority) (hix : ix ≤ s.runnables.length)
    (hlast : ∀ session, sessionId = some session →
      ∀ task ∈ s.runnables.drop ix, task.sessionId ≠ some session) :
    (s.insert ix sessionId priority).Queued := by
  unfold State.insert
  generalize hnew : ScheduledRunnable.mk s.scheduled.length sessionId priority = new
  have hsplit : s.runnables = s.runnables.take ix ++ s.runnables.drop ix :=
    (take_append_drop ix _).symm
  have hinsert : s.runnables.insertIdx ix new =
      s.runnables.take ix ++ new :: s.runnables.drop ix :=
    insertIdx_eq new hix
  refine ⟨?_, ?_, ?_⟩
  · show (s.scheduled ++ [new]).map ScheduledRunnable.ticket = _
    rw [map_append, h.tickets, length_append, length_singleton, range_succ,
      ← hnew]
    rfl
  · show (s.scheduled ++ [new]).Perm (s.ran ++ s.runnables.insertIdx ix new)
    rw [hinsert, ← append_assoc]
    have hmiddle : (s.ran ++ s.runnables.take ix ++ new :: s.runnables.drop ix).Perm
        (new :: (s.ran ++ s.runnables.take ix ++ s.runnables.drop ix)) := perm_middle
    have honce : (s.scheduled ++ [new]).Perm (new :: s.scheduled) := perm_append_singleton _ _
    apply honce.trans
    apply List.Perm.trans _ hmiddle.symm
    rw [append_assoc, take_append_drop]
    exact h.once.cons new
  · intro session
    show ofSession session (s.scheduled ++ [new]) =
      ofSession session s.ran ++ ofSession session (s.runnables.insertIdx ix new)
    rw [hinsert]
    have horder := h.inOrder session
    rw [hsplit] at horder
    rw [ofSession_append, horder, ofSession_append, ofSession_append]
    have hid : new.sessionId = sessionId := by rw [← hnew]
    by_cases hsession : sessionId = some session
    · -- the tasks behind the new one are of other sessions
      rw [ofSession_eq_nil (hlast session hsession), ofSession_cons_self _ (hid.trans hsession),
        ofSession_cons_self _ (hid.trans hsession), ofSession_eq_nil (hlast session hsession),
        ofSession_nil, append_nil, append_assoc]
    · have hother : new.sessionId ≠ some session := hid ▸ hsession
      rw [ofSession_cons_other _ hother, ofSession_cons_other _ hother, ofSession_nil,
        append_nil]

theorem Queued.scheduleLocal (h : s.Queued)
    (hstep : s.scheduleLocal sessionId draw = .ok s') : s'.Queued := by
  obtain ⟨ix, hix, rfl⟩ := map_eq_ok.1 hstep
  unfold localIx at hix
  split at hix
  · obtain ⟨hstart, hlt⟩ := randomRange_eq_ok hix
    apply h.insert _ _ (by omega)
    intro session hsession task htask
    cases hsession
    have hbehind := rposition_spec hstart task htask
    simpa using hbehind
  · cases hix
    apply h.insert _ _ (Nat.le_refl _)
    intro session _ task htask
    rw [drop_length] at htask
    cases htask

theorem Queued.scheduleBackground (h : s.Queued) {priority : Priority}
    (hstep : s.scheduleBackgroundWithPriority priority draw = .ok s') : s'.Queued := by
  obtain ⟨ix, hix, rfl⟩ := map_eq_ok.1 hstep
  have hle : ix ≤ s.runnables.length := by
    unfold backgroundIx at hix
    split at hix
    · have hrange := randomRange_eq_ok hix
      omega
    · cases hix
      exact Nat.le_refl _
  apply h.insert _ _ hle
  intro session hsession
  cases hsession

/-- The state after a task was taken out of the queue to run. -/
structure RunsTask (s : State) (backgroundOnly : Bool) (task : ScheduledRunnable) (s' : State) :
    Prop where
  chosen : ∃ before after, s.runnables = before ++ task :: after ∧
    s.Chosen backgroundOnly before task ∧ s'.runnables = before ++ after
  ran : s'.ran = s.ran ++ [task]
  scheduled : s'.scheduled = s.scheduled
  blockedSessions : s'.blockedSessions = s.blockedSessions
  stack : s'.stack = .run task s.isMainThread :: s.stack

theorem Queued.runsTask (h : s.Queued) {backgroundOnly : Bool}
    (hrun : s.RunsTask backgroundOnly task s') : s'.Queued := by
  obtain ⟨before, after, hrunnables, hchosen, hrest⟩ := hrun.chosen
  refine ⟨?_, ?_, ?_⟩
  · rw [hrun.scheduled]
    exact h.tickets
  · rw [hrun.scheduled, hrun.ran, hrest, append_assoc]
    apply h.once.trans
    rw [hrunnables]
    exact List.Perm.append_left _ perm_middle
  · intro session
    have horder := h.inOrder session
    rw [hrun.scheduled, hrun.ran, hrest, horder, hrunnables]
    rw [ofSession_append, ofSession_append, ofSession_append]
    by_cases hsession : task.sessionId = some session
    · -- no task before it is of its session
      rw [ofSession_eq_nil (hchosen.first session hsession), ofSession_cons_self _ hsession,
        ofSession_cons_self _ hsession, ofSession_nil, append_assoc]
      rfl
    · rw [ofSession_cons_other _ hsession, ofSession_cons_other _ hsession, ofSession_nil,
        append_nil]

/-- A tick does nothing, drops timers, or runs a task. -/
theorem stepFiltered_spec {backgroundOnly didStep : Bool}
    (h : s.stepFiltered backgroundOnly draw = .ok (didStep, s')) :
    (didStep = false ∧ s' = s) ∨
    (didStep = true ∧ s'.stack = .wakers :: s.stack ∧ s'.runnables = s.runnables ∧
      s'.ran = s.ran ∧ s'.scheduled = s.scheduled ∧ s'.blockedSessions = s.blockedSessions) ∨
    (didStep = true ∧ ∃ task, s.RunsTask backgroundOnly task s') := by
  unfold stepFiltered at h
  split at h
  · obtain ⟨chosen, hchoose, h⟩ := bind_eq_ok.1 h
    cases chosen with
    | none =>
      cases h
      exact .inl ⟨rfl, rfl⟩
    | some ix =>
      obtain ⟨before, task, after, hrunnables, rfl, hchosen⟩ := chooseRunnable_spec hchoose
      have hget : s.runnables[before.length]? = some task := by
        rw [hrunnables]
        simp
      have herase : s.runnables.eraseIdx before.length = before ++ after := by
        rw [hrunnables, eraseIdx_append_of_length_le (Nat.le_refl _), Nat.sub_self,
          eraseIdx_cons_zero]
      simp only [runAt, hget, Except.ok.injEq, Prod.mk.injEq] at h
      obtain ⟨rfl, rfl⟩ := h
      exact .inr (.inr ⟨rfl, task, ⟨before, after, hrunnables, hchosen, herase⟩, rfl, rfl, rfl, rfl⟩)
  · cases h
    exact .inr (.inl ⟨rfl, rfl, rfl, rfl, rfl, rfl⟩)

/-! ### The blocked sessions -/

/-- The sessions of the calls of `block` that are running, the innermost last. -/
def blockedBy : List Frame → List Nat
  | []                     => []
  | .block block :: stack  => blockedBy stack ++ block.sessionId.toList
  | .run _ _ :: stack      => blockedBy stack
  | .wakers :: stack       => blockedBy stack

/-- Each call of `block` was entered over the sessions that are blocked below it. -/
def Entered : List Frame → Prop
  | []                     => True
  | .block block :: stack  => block.entered = blockedBy stack ∧ Entered stack
  | .run _ _ :: stack      => Entered stack
  | .wakers :: stack       => Entered stack

structure Inv (s : State) : Prop where
  queued : s.Queued
  blocked : s.blockedSessions = blockedBy s.stack
  entered : Entered s.stack

/-- A call of `block` is at work on the state; the stack is what is below it. -/
structure InBlock (s : State) (block : Block) (stack : List Frame) : Prop where
  queued : s.Queued
  blocked : s.blockedSessions = blockedBy stack ++ block.sessionId.toList
  entered : block.entered = blockedBy stack
  below : Entered stack

theorem Inv.inBlock (h : s.Inv) {block : Block}
    (hstack : s.stack = .block block :: stack) : s.InBlock block stack := by
  have hblocked := h.blocked
  have hentered := h.entered
  rw [hstack] at hblocked hentered
  exact ⟨h.queued, hblocked, hentered.1, hentered.2⟩

/-- `block` goes on. -/
theorem InBlock.goesOn {block : Block}
    (h : s.InBlock block stack) (ticks : Nat) (phase : Phase) :
    { s with
      stack := .block { block with ticksLeft := ticks, phase := phase } :: stack }.Inv where
  queued := h.queued.same rfl rfl rfl
  blocked := h.blocked
  entered := ⟨h.entered, h.below⟩

/-- The sessions that `block` was entered over are what it leaves. -/
theorem InBlock.restores {block : Block}
    (h : s.InBlock block stack) : (s.endBlock block stack).blockedSessions = block.entered := by
  unfold endBlock
  rw [h.entered, h.blocked]
  cases block.sessionId with
  | none => simp
  | some session => simp

theorem InBlock.ends {block : Block}
    (h : s.InBlock block stack) : (s.endBlock block stack).Inv where
  queued := h.queued.same rfl rfl rfl
  blocked := h.restores.trans h.entered
  entered := h.below

/-- A stack is not one of its own frames above it. -/
theorem stack_ne_cons (frame : Frame) (stack : List Frame) : frame :: stack ≠ stack := by
  intro h
  have hlength := congrArg List.length h
  simp at hlength

/-- What a call of `block` at work leaves: the invariant, the runnables as they were, and
    the blocked sessions restored if it returned. -/
structure Leaves (s : State) (block : Block) (stack : List Frame) (s' : State) : Prop where
  inv : s'.Inv
  ran : s'.ran = s.ran
  restored : s'.stack = stack → s'.blockedSessions = block.entered

theorem InBlock.leaves_end {block : Block}
    (h : s.InBlock block stack) : s.Leaves block stack (s.endBlock block stack) where
  inv := h.ends
  ran := rfl
  restored := fun _ => h.restores

theorem InBlock.nextRound {block : Block}
    (h : s.InBlock block stack) : s.Leaves block stack (s.nextRound block stack) := by
  unfold State.nextRound
  split
  · exact h.leaves_end
  · rename_i ticks _
    exact ⟨h.goesOn ticks .polling, rfl, fun heq => absurd heq (stack_ne_cons _ _)⟩

theorem InBlock.at_time {block : Block}
    (h : s.InBlock block stack) (now : Nat) : { s with now := now }.InBlock block stack :=
  ⟨h.queued.same rfl rfl rfl, h.blocked, h.entered, h.below⟩

theorem InBlock.afterStepping {block : Block}
    (h : s.InBlock block stack) {stepped awoken : Bool} {parked : Parked}
    (hstep : s.afterStepping block stack stepped awoken parked = .ok s') :
    s.Leaves block stack s' := by
  unfold State.afterStepping at hstep
  split at hstep
  · cases hstep
    exact h.nextRound
  · split at hstep
    · rename_i expiration _ _ _
      cases hstep
      have hnext := (h.at_time (max s.now expiration)).nextRound
      exact ⟨hnext.inv, hnext.ran, hnext.restored⟩
    · obtain ⟨⟨goesOn, parkedState⟩, hpark, rfl⟩ := map_eq_ok.1 hstep
      -- parking changes the clock only
      have htime : ∃ now, parkedState = { s with now := now } := by
        unfold park at hpark
        split at hpark
        · split at hpark
          · cases hpark
            exact ⟨_, rfl⟩
          · split at hpark
            · cases hpark
              exact ⟨_, rfl⟩
            · cases hpark
          · cases hpark
        · split at hpark
          · cases hpark
            exact ⟨s.now, rfl⟩
          · cases hpark
      obtain ⟨now, rfl⟩ := htime
      cases goesOn with
      | true =>
        have hnext := (h.at_time now).nextRound
        exact ⟨hnext.inv, hnext.ran, hnext.restored⟩
      | false =>
        have hends := (h.at_time now).leaves_end
        exact ⟨hends.inv, hends.ran, hends.restored⟩

/-! ### Every step -/

/-- The ticks that run background tasks only. -/
def Action.backgroundOnly : Action → Bool
  | .tickBackgroundOnly _ => true
  | _ => false

/-- A step runs a task that was in the queue. -/
structure RunsOne (s : State) (a : Action) (task : ScheduledRunnable) : Prop where
  queued : task ∈ s.runnables
  /-- No call of `block` for its session is running. -/
  notBlocked : ∀ sessionId, task.sessionId = some sessionId → sessionId ∉ blockedBy s.stack
  background : Action.backgroundOnly a = true → task.sessionId = none
  /-- With random order, a task of weight zero is chosen only among tasks of weight zero. -/
  weight : s.config.randomizeOrder = true → task.priority.weight = 0 →
    ∀ other ∈ s.candidates (Action.backgroundOnly a), other.priority.weight = 0
  /-- Without it, the first candidate is chosen. -/
  head : s.config.randomizeOrder = false →
    (s.candidates (Action.backgroundOnly a)).head? = some task

/-- What a step may do to the tasks that were run and to the blocked sessions. -/
structure Proper (s : State) (a : Action) (s' : State) : Prop where
  runs : s'.ran = s.ran ∨ ∃ task, s'.ran = s.ran ++ [task] ∧ s.RunsOne a task
  /-- A call of `block` that returns leaves the blocked sessions as it found them. -/
  returns : ∀ block stack, s.stack = .block block :: stack → s'.stack = stack →
    s'.blockedSessions = block.entered

/-- A step that runs no task and from which no call of `block` returns. -/
theorem Proper.quiet (a : Action) (hran : s'.ran = s.ran)
    (hstack : s'.stack = s.stack ∨ (∃ frame, s'.stack = frame :: s.stack) ∨
      ∀ block stack, s.stack ≠ .block block :: stack) : s.Proper a s' where
  runs := .inl hran
  returns := by
    intro block stack hblock heq
    obtain hsame | ⟨frame, hpush⟩ | hno := hstack
    · rw [hsame, hblock] at heq
      exact absurd heq (stack_ne_cons _ _)
    · rw [hpush, hblock] at heq
      have hlength := congrArg List.length heq
      simp only [length_cons] at hlength
      omega
    · exact absurd hblock (hno block stack)

theorem Leaves.proper {block : Block}
    (h : s.Leaves block stack s') (hstack : s.stack = .block block :: stack) (a : Action) :
    s.Proper a s' where
  runs := .inl h.ran
  returns := by
    intro block' stack' hblock heq
    rw [hstack] at hblock
    cases hblock
    exact h.restored heq

theorem Inv.runsTask (h : s.Inv) {backgroundOnly : Bool}
    (hrun : s.RunsTask backgroundOnly task s') : s'.Inv where
  queued := h.queued.runsTask hrun
  blocked := by
    rw [hrun.blockedSessions, hrun.stack, h.blocked]
    rfl
  entered := by
    rw [hrun.stack]
    exact h.entered

/-- A tick keeps the invariant, and what it runs may be run. -/
theorem Inv.stepFiltered (h : s.Inv) {a : Action} {didStep : Bool}
    (hstep : s.stepFiltered (Action.backgroundOnly a) draw = .ok (didStep, s')) :
    s'.Inv ∧ s.Proper a s' ∧ (didStep = false → s' = s) ∧
      (didStep = true → ∃ frame, s'.stack = frame :: s.stack) := by
  obtain ⟨rfl, rfl⟩ | ⟨rfl, hstack, hrunnables, hran, hscheduled, hblocked⟩ | ⟨rfl, task, hrun⟩ :=
    stepFiltered_spec hstep
  · exact ⟨h, .quiet a rfl (.inl rfl), fun _ => rfl, by simp⟩
  · refine ⟨⟨h.queued.same hrunnables hscheduled hran, ?_, ?_⟩,
      .quiet a hran (.inr (.inl ⟨_, hstack⟩)), by simp, fun _ => ⟨_, hstack⟩⟩
    · rw [hblocked, hstack, h.blocked]
      rfl
    · rw [hstack]
      exact h.entered
  · refine ⟨h.runsTask hrun, ⟨.inr ⟨task, hrun.ran, ?_⟩, ?_⟩, by simp,
      fun _ => ⟨_, hrun.stack⟩⟩
    · obtain ⟨before, after, hrunnables, hchosen, _⟩ := hrun.chosen
      refine ⟨?_, ?_, ?_, hchosen.weight, hchosen.head⟩
      · rw [hrunnables]
        simp
      · intro sessionId hsession
        rw [← h.blocked]
        exact (hchosen.eligible sessionId hsession).2
      · intro hbackground
        cases hsession : task.sessionId with
        | none => rfl
        | some sessionId =>
          have hfalse := (hchosen.eligible sessionId hsession).1
          rw [hbackground] at hfalse
          cases hfalse
    · have hquiet : s.Proper a { s' with ran := s.ran } :=
        Proper.quiet a rfl (.inr (.inl ⟨_, hrun.stack⟩))
      exact hquiet.returns

/-- Inside `block` a tick runs on the state with the frame of `block` in its phase. -/
theorem Inv.stepAgain (h : s.Inv) {block : Block}
    (hstack : s.stack = .block block :: stack) {stepped : Option Bool}
    (hstep : s.stepAgain block stack stepped draw = .ok s') :
    s'.Inv ∧ s.Proper (.stepAgain draw) s' := by
  obtain ⟨⟨didStep, ticked⟩, htick, rfl⟩ := map_eq_ok.1 hstep
  have hin := h.inBlock hstack
  have hstepping := hin.goesOn block.ticksLeft (.stepping (some true))
  obtain ⟨hinv, hproper, hsame, hpush⟩ := hstepping.stepFiltered (a := .stepAgain draw) htick
  have hblocked : blockedBy s.stack = blockedBy stack ++ block.sessionId.toList := by
    rw [hstack]
    rfl
  cases didStep with
  | false =>
    rw [hsame rfl]
    refine ⟨hin.goesOn block.ticksLeft _, ⟨.inl rfl, ?_⟩⟩
    intro block' stack' hblock heq
    rw [hstack] at hblock
    cases hblock
    exact absurd heq (stack_ne_cons _ _)
  | true =>
    refine ⟨hinv, ?_, ?_⟩
    · obtain hran | ⟨task, hran, hone⟩ := hproper.runs
      · exact .inl hran
      · right
        refine ⟨task, hran, hone.queued, ?_, hone.background, hone.weight, hone.head⟩
        intro sessionId hsession
        rw [hblocked]
        exact hone.notBlocked sessionId hsession
    · intro block' stack' hblock heq
      rw [hstack] at hblock
      cases hblock
      obtain ⟨frame, hframe⟩ := hpush rfl
      -- the tick put its call on top of the frame of `block`
      have hlength := congrArg List.length (hframe.symm.trans heq)
      simp only [length_cons] at hlength
      omega

theorem Inv.block (h : s.Inv) {sessionId : Option Nat} {deadline : Bool}
    (hstep : s.block sessionId deadline draw = .ok s') :
    s'.Inv ∧ s.Proper (.block sessionId deadline draw) s' := by
  obtain ⟨ticks, _, rfl⟩ := map_eq_ok.1 hstep
  have hin : { s with
      blockedSessions := s.blockedSessions ++ sessionId.toList }.InBlock
        ⟨sessionId, deadline, ticks, .polling, s.blockedSessions⟩ s.stack := by
    refine ⟨h.queued.same rfl rfl rfl, ?_, h.blocked, h.entered⟩
    show s.blockedSessions ++ sessionId.toList = _
    rw [h.blocked]
  have hnext := hin.nextRound
  refine ⟨hnext.inv, .quiet _ hnext.ran ?_⟩
  cases ticks with
  | zero => exact .inl rfl
  | succ ticks => exact .inr (.inl ⟨_, rfl⟩)

theorem Inv.step {a : Action} (h : s.Inv) (hstep : s.step a = some (.ok s')) :
    s'.Inv ∧ s.Proper a s' := by
  unfold State.step at hstep
  cases a with
  | scheduleLocal sessionId draw =>
    simp only [Option.some.injEq] at hstep
    have hqueued := h.queued.scheduleLocal hstep
    obtain ⟨ix, _, rfl⟩ := map_eq_ok.1 hstep
    exact ⟨⟨hqueued, h.blocked, h.entered⟩, .quiet _ rfl (.inl rfl)⟩
  | scheduleBackgroundWithPriority priority draw =>
    simp only [Option.some.injEq] at hstep
    have hqueued := h.queued.scheduleBackground hstep
    obtain ⟨ix, _, rfl⟩ := map_eq_ok.1 hstep
    exact ⟨⟨hqueued, h.blocked, h.entered⟩, .quiet _ rfl (.inl rfl)⟩
  | timer _ | advanceClock _ | setTimeoutTicks _ | setAllowParking _ =>
    obtain ⟨_, rfl⟩ := Machine.guarded_ok_iff.1 hstep
    exact ⟨⟨h.queued.same rfl rfl rfl, h.blocked, h.entered⟩, .quiet _ rfl (.inl rfl)⟩
  | tick draw =>
    simp only [Option.ite_none_right_eq_some, Option.some.injEq] at hstep
    obtain ⟨⟨didStep, ticked⟩, htick, rfl⟩ := map_eq_ok.1 hstep.2
    obtain ⟨hinv, hproper, _⟩ := h.stepFiltered (a := .tick draw) htick
    exact ⟨hinv, hproper⟩
  | tickBackgroundOnly draw =>
    simp only [Option.ite_none_right_eq_some, Option.some.injEq] at hstep
    obtain ⟨⟨didStep, ticked⟩, htick, rfl⟩ := map_eq_ok.1 hstep.2
    obtain ⟨hinv, hproper, _⟩ := h.stepFiltered (a := .tickBackgroundOnly draw) htick
    exact ⟨hinv, hproper⟩
  | block sessionId deadline draw =>
    simp only [Option.ite_none_right_eq_some, Option.some.injEq] at hstep
    exact h.block hstep.2
  | poll ready =>
    dsimp only at hstep
    split at hstep
    · rename_i block stack hstack
      have hin := h.inBlock hstack
      split at hstep
      · split at hstep
        · cases hstep
          exact ⟨hin.ends, hin.leaves_end.proper hstack _⟩
        · cases hstep
          have hgoes : Leaves s block stack { s with
              stack := .block { block with phase := .stepping none } :: stack } :=
            ⟨hin.goesOn block.ticksLeft (.stepping none), rfl,
              fun heq => absurd heq (stack_ne_cons _ _)⟩
          exact ⟨hgoes.inv, hgoes.proper hstack _⟩
      · cases hstep
    · cases hstep
  | stepAgain draw =>
    dsimp only at hstep
    split at hstep
    · rename_i block stack hstack
      split at hstep
      · exact h.stepAgain hstack (Option.some.inj hstep)
      · cases hstep
    · cases hstep
  | stopStepping awoken parked =>
    dsimp only at hstep
    split at hstep
    · rename_i block stack hstack
      split at hstep
      · have hleaves := (h.inBlock hstack).afterStepping (Option.some.inj hstep)
        exact ⟨hleaves.inv, hleaves.proper hstack _⟩
      · have hleaves := (h.inBlock hstack).afterStepping (Option.some.inj hstep)
        exact ⟨hleaves.inv, hleaves.proper hstack _⟩
      · cases hstep
    · cases hstep
  | returns =>
    dsimp only at hstep
    split at hstep
    · rename_i task wasMainThread stack hstack
      cases hstep
      have hblocked := h.blocked
      have hentered := h.entered
      rw [hstack] at hblocked hentered
      refine ⟨⟨h.queued.same rfl rfl rfl, hblocked, hentered⟩, .quiet _ rfl (.inr (.inr ?_))⟩
      intro block stack' heq
      rw [hstack] at heq
      cases heq
    · rename_i stack hstack
      cases hstep
      have hblocked := h.blocked
      have hentered := h.entered
      rw [hstack] at hblocked hentered
      refine ⟨⟨h.queued.same rfl rfl rfl, hblocked, hentered⟩, .quiet _ rfl (.inr (.inr ?_))⟩
      intro block stack' heq
      rw [hstack] at heq
      cases heq
    · cases hstep

theorem inv_inductive (config : Config) : (machine config).Inductive (fun _ _ => True) Inv where
  start := ⟨⟨rfl, List.Perm.refl _, fun _ => rfl⟩, rfl, trivial⟩
  step := fun _ _ _ h _ hstep => (h.step hstep).1

/-- What holds in every state. -/
structure Ordered (s : State) : Prop where
  tickets : (s.scheduled.map ScheduledRunnable.ticket).Nodup
  /-- What was scheduled was run, once, or is in the queue. -/
  once : s.scheduled.Perm (s.ran ++ s.runnables)
  /-- The runnables of a session are run in the order in which they were scheduled. -/
  inOrder : ∀ sessionId, ofSession sessionId s.scheduled =
    ofSession sessionId s.ran ++ ofSession sessionId s.runnables
  blocked : s.blockedSessions = blockedBy s.stack

theorem Inv.ordered (h : s.Inv) : s.Ordered where
  tickets := by
    rw [h.queued.tickets]
    exact nodup_range
  once := h.queued.once
  inOrder := h.queued.inOrder
  blocked := h.blocked

/-- The order of the scheduler, for every configuration and whatever the generator says.
    The weights count only where the order is random. -/
theorem session_order {config : Config} {s : State}
    (h : (machine config).Reaches (fun _ _ => True) s) :
    s.Ordered ∧ ∀ a s', (machine config).step s a = some (.ok s') → s.Proper a s' := by
  have hinv := (inv_inductive config).holds h
  exact ⟨hinv.ordered, fun a s' hstep => (hinv.step hstep).2⟩

/-- A task of a session that is scheduled and blocked. -/
theorem session_order_blocked :
    ∃ s, (machine ⟨true, false, (1, 1000)⟩).Reaches (fun _ _ => True) s ∧
      s.runnables.length = 1 ∧ s.blockedSessions = [1] ∧ s.Ordered := by
  have hrun : ∃ s, (machine ⟨true, false, (1, 1000)⟩).run (start ⟨true, false, (1, 1000)⟩)
      [.scheduleLocal 1 0, .block (some 1) true 0] = some (.ok s) ∧
        s.runnables.length = 1 ∧ s.blockedSessions = [1] := ⟨_, rfl, rfl, rfl⟩
  obtain ⟨s, hrun, hone, hblocked⟩ := hrun
  have h := Machine.Reaches.start.run (.of_forall (fun _ _ _ => trivial) _) hrun
  exact ⟨s, h, hone, hblocked, (session_order h).1⟩

/-- Without random order a task of weight zero is run before one that has a weight. -/
theorem weightless_first :
    ¬ ∀ config s, (machine config).Reaches (fun _ _ => True) s →
      ∀ a s' task, (machine config).step s a = some (.ok s') → s'.ran = s.ran ++ [task] →
        task.priority.weight = 0 →
          ∀ other ∈ s.candidates (Action.backgroundOnly a), other.priority.weight = 0 := by
  intro h
  have hrun : ∃ s, (machine ⟨false, false, (1, 1000)⟩).run (start ⟨false, false, (1, 1000)⟩)
      [.scheduleBackgroundWithPriority .realtimeAudio 0, .scheduleBackgroundWithPriority .high 0] =
        some (.ok s) ∧
      (∃ s', s.step (.tick 0) = some (.ok s') ∧ s'.ran = s.ran ++ [⟨0, none, .realtimeAudio⟩]) ∧
      ⟨1, none, .high⟩ ∈ s.candidates false := by
    refine ⟨_, rfl, ⟨_, rfl, rfl⟩, ?_⟩
    decide
  obtain ⟨s, hrun, ⟨s', hstep, hran⟩, hcandidate⟩ := hrun
  have hreach := Machine.Reaches.start.run (.of_forall (fun _ _ _ => trivial) _) hrun
  have hzero := h _ s hreach (.tick 0) s' _ hstep hran rfl _ hcandidate
  cases hzero

end State

end TestScheduler

end Gpui
