import Gpui.Queue.Disconnect
import Gpui.Queue.Calloop

/-! # The bridge to the event loop: wake-ups

    A send pings after it has pushed, so a call of `process_events` that drained the ping
    too early is followed by another one.  A drop pings before the number of senders goes
    down.  A call that comes in between drains that ping, finds the queue empty and the
    sender there, and nobody pings again.  This is the only way to miss a wake-up. -/

namespace Gpui

variable {T : Type}

namespace PriorityQueueState

/-! ### The steps of the queue -/

/-- No receiver is in `pop`, so the lock is free and nobody is notified. -/
def Calm (s : PriorityQueueState T) : Prop := ∀ r ∈ s.receivers, r = .idle ∨ r = .dropped

variable {s s' : PriorityQueueState T} {r : Except QueuePanic (PriorityQueueState T)}
variable {receiver : Nat}

theorem Calm.unlocked (h : s.Calm) : s.unlocked = true := by
  unfold PriorityQueueState.unlocked
  rw [Bool.not_eq_true', List.contains_eq_mem, decide_eq_false_iff_not]
  intro hmem
  obtain hr | hr := h _ hmem
  · cases hr
  · cases hr

theorem Calm.setReceiver (h : s.Calm) (receiver : Nat) :
    (s.setReceiver receiver .dropped).Calm := by
  intro r hr
  obtain hr | rfl := List.mem_or_eq_of_mem_set hr
  · exact h r hr
  · exact .inr rfl

theorem step_send {priority : Priority} {item : T}
    (h : s.step (.send priority item) = some (.ok s')) :
    s'.queues = s.queues ∧ s'.receivers = s.receivers ∧ s'.senderCount = s.senderCount := by
  unfold PriorityQueueState.step at h
  simp only [Option.ite_none_left_eq_some, Option.some.injEq, Except.ok.injEq] at h
  obtain ⟨_, rfl⟩ := h
  unfold PriorityQueueState.send
  split
  · exact ⟨rfl, rfl, rfl⟩
  · exact ⟨rfl, rfl, rfl⟩

theorem Calm.notifyOne (h : s.Calm) {woken : Option Nat}
    (hnotify : s.notifyOne woken = some s') : s' = s := by
  unfold PriorityQueueState.notifyOne at hnotify
  split at hnotify
  · split at hnotify
    · cases hnotify
    · exact (Option.some.inj hnotify).symm
  · rename_i receiver
    split at hnotify
    · rename_i hwaiting
      obtain hr | hr := h _ (List.mem_of_getElem? hwaiting)
      · cases hr
      · cases hr
    · cases hnotify

theorem Calm.step_push (h : s.Calm) {send : Nat}
    {woken : Option Nat} (hstep : s.step (.push send woken) = some (.ok s')) :
    s.inFlight ≠ [] ∧ s'.receivers = s.receivers ∧ s'.senderCount = s.senderCount := by
  unfold PriorityQueueState.step at hstep
  simp only [Option.ite_none_right_eq_some] at hstep
  obtain ⟨hsends, hsender⟩ := push_senderCount hstep.2
  refine ⟨hsends, ?_, hsender⟩
  have hpush := hstep.2
  unfold PriorityQueueState.push at hpush
  split at hpush
  · cases hpush
  · split at hpush
    · cases hpush
    · simp only [Option.map_eq_some_iff, Except.ok.injEq, exists_eq_right] at hpush
      rw [Calm.notifyOne (by exact h) hpush]

theorem step_dropSender :
    s.step .dropSender = some r ↔ s.senderCount ≠ 0 ∧ s.inFlight = [] ∧
      r = .ok { s with senderCount := s.senderCount - 1 } := by
  unfold PriorityQueueState.step
  simp only [Option.ite_none_left_eq_some, Option.some.injEq, not_or, not_not, and_assoc]
  rw [eq_comm (a := r)]

theorem step_clone
    (h : s.step (.clone receiver) = some (.ok s')) :
    s' = { s with
      receiverCount := s.receiverCount + 1
      receivers := s.receivers ++ [.idle] } := by
  unfold PriorityQueueState.step at h
  simp only [Option.ite_none_right_eq_some, Option.some.injEq, Except.ok.injEq] at h
  exact h.2.symm

theorem step_dropReceiver :
    s.step (.dropReceiver receiver) = some r ↔ s.receivers[receiver]? = some .idle ∧
      r = .ok { s.setReceiver receiver .dropped with receiverCount := s.receiverCount - 1 } := by
  unfold PriorityQueueState.step
  simp only [Option.ite_none_right_eq_some, Option.some.injEq]
  rw [eq_comm (a := r)]

/-- `try_pop` takes an item if there is one, and otherwise tells whether the sender is
    there. -/
theorem tryPop_cases (s : PriorityQueueState T) (coin : Priority → Bool) :
    (s.queues.isEmpty = true ∧ s.tryPop coin = .ok s ∧
      s.tryPopped coin = if s.senderCount = 0 then .error {} else .ok none) ∨
    (s.queues.isEmpty = false ∧ ∃ drawn priority item, s.queues.Takes drawn ∧
      drawn.1 = some (priority, item) ∧ s.tryPop coin = .ok (s.handOut drawn) ∧
      s.tryPopped coin = .ok (some item)) := by
  unfold tryPop tryPopped tryRecv
  cases hempty : s.queues.isEmpty with
  | true =>
    left
    by_cases hgone : s.senderCount = 0
    · simp [hgone, popReceived]
    · simp [hgone, popReceived]
  | false =>
    right
    obtain ⟨drawn, hdraw, htakes⟩ := PriorityQueues.draw_takes coin hempty
    obtain ⟨priority, item, hsome, hrest⟩ := htakes
    refine ⟨rfl, drawn, priority, item, ⟨priority, item, hsome, hrest⟩, hsome, ?_, ?_⟩
    · simp [popReceived, hdraw, Except.map]
    · simp [hdraw, hsome]

theorem Calm.step_tryPop (h : s.Calm) {coin : Priority → Bool} :
    s.step (.tryPop receiver coin) = some r ↔
      s.receivers[receiver]? = some .idle ∧ r = s.tryPop coin := by
  unfold PriorityQueueState.step
  simp only [Option.ite_none_right_eq_some, Option.some.injEq, h.unlocked, and_true]
  rw [eq_comm (a := r)]

end PriorityQueueState

/-! ### What is promised -/

/-- The call ends, or has ended, without another ping. -/
def Processing.settles : Processing → Bool
  | .idle => true
  | .popped _ isEmpty disconnected => isEmpty && !disconnected
  | .processed clearReadiness disconnected => clearReadiness && !disconnected
  | .popping _ _ | .removed => false

/-- The call has seen that the sender is gone. -/
def Processing.closes : Processing → Bool
  | .popped _ _ true | .processed _ true | .removed => true
  | _ => false

/-- The callback was told that the queue is closed. -/
def Processing.told : Processing → Bool
  | .processed _ true | .removed => true
  | _ => false

/-- The clone that the call pops from. -/
def Processing.clone? : Processing → Option Nat
  | .popping clone _ | .popped clone _ _ => some clone
  | _ => none

namespace PriorityQueueCalloop

/-- While no call of `process_events` is running, a ping is pending for every message that
    is queued, and for the sender that was dropped. -/
structure Wakes (s : PriorityQueueCalloop T) : Prop where
  /-- A send between its push and its ping is going to ping. -/
  messages : s.processing.running = false → s.queue.queues.isEmpty = false → s.pinging = 0 →
    s.pinged = true
  closed : s.processing.running = false → s.sender = .dropped →
    .closed ∈ s.events ∨ s.pinged = true

/-- A call that has not handed out anything does not look into an empty queue while the
    sender is between the body of its `drop` and the drop of its fields, unless the ping of
    that body is still pending. -/
def Heeds (s : PriorityQueueCalloop T) : Action T → Prop
  | .next _ => ∀ clone, s.processing = .popping clone true → s.sender = .pinged →
      s.queue.queues.isEmpty = true → s.pinged = true
  | _ => True

structure Awake (s : PriorityQueueCalloop T) : Prop where
  calm : s.queue.Calm
  count : s.queue.senderCount = if s.sender = .dropped then 0 else 1
  quiet : s.sender ≠ .alive → s.queue.inFlight = [] ∧ s.pinging = 0
  source : s.processing ≠ .removed → s.queue.receivers[0]? = some .idle
  clone : ∀ clone, s.processing.clone? = some clone →
    clone ≠ 0 ∧ s.queue.receivers[clone]? = some .idle
  messages : s.processing.settles = true → s.queue.queues.isEmpty = false →
    0 < s.pinging ∨ s.pinged = true
  drop : s.processing.settles = true → s.sender ≠ .alive → s.pinged = true
  gone : s.processing.closes = true → s.queue.queues.isEmpty = true ∧ s.sender = .dropped
  told : .closed ∈ s.events ↔ s.processing.told = true

variable {s s' : PriorityQueueCalloop T} {queue : PriorityQueueState T} {clone : Nat}
variable {isEmpty : Bool}

theorem Awake.wakes (h : s.Awake) : s.Wakes where
  messages := by
    intro hrunning hfull hpinging
    cases hprocessing : s.processing with
    | idle =>
      obtain hpos | hpinged := h.messages (by rw [hprocessing]; rfl) hfull
      · omega
      · exact hpinged
    | removed =>
      have hempty := (h.gone (by rw [hprocessing]; rfl)).1
      rw [hempty] at hfull
      cases hfull
    | _ =>
      rw [hprocessing] at hrunning
      cases hrunning
  closed := by
    intro hrunning hdropped
    cases hprocessing : s.processing with
    | idle =>
      right
      apply h.drop (by rw [hprocessing]; rfl)
      rw [hdropped]
      decide
    | removed => exact .inl (h.told.2 (by rw [hprocessing]; rfl))
    | _ =>
      rw [hprocessing] at hrunning
      cases hrunning

theorem onQueue_eq {a : PriorityQueueState.Action T}
    {next : PriorityQueueCalloop T → PriorityQueueCalloop T} :
    s.onQueue a next = some (.ok s') ↔
      ∃ queue, s.queue.step a = some (.ok queue) ∧ next { s with queue } = s' := by
  unfold onQueue
  rw [Option.map_eq_some_iff]
  constructor
  · rintro ⟨r, hstep, hr⟩
    cases r with
    | error e => cases hr
    | ok queue => exact ⟨queue, hstep, Except.ok.inj hr⟩
  · rintro ⟨queue, hstep, rfl⟩
    exact ⟨.ok queue, hstep, rfl⟩

/-- A send or a push is the business of a sender that is there. -/
theorem Awake.alive (h : s.Awake)
    (hbusy : s.queue.inFlight ≠ [] ∨ 0 < s.pinging) : s.sender = .alive := by
  by_contra hgone
  obtain ⟨hsends, hpinging⟩ := h.quiet hgone
  obtain hbusy | hbusy := hbusy
  · exact hbusy hsends
  · omega

/-! ### The sender -/

/-- A sender that is there leaves the receivers as they are. -/
theorem Awake.onSender (h : s.Awake) (halive : s.sender = .alive)
    (hreceivers : queue.receivers = s.queue.receivers)
    (hsender : queue.senderCount = s.queue.senderCount) {pinging : Nat}
    (hmessages : s.processing.settles = true → queue.queues.isEmpty = false →
      0 < pinging ∨ s.pinged = true) :
    Awake { s with queue, pinging } := by
  refine ⟨?_, hsender.trans h.count, fun hgone => absurd halive hgone, ?_, ?_, hmessages, h.drop,
    ?_, h.told⟩
  · show ∀ r ∈ queue.receivers, _
    rw [hreceivers]
    exact h.calm
  · show _ → queue.receivers[0]? = _
    rw [hreceivers]
    exact h.source
  · show ∀ clone, _ → _ ∧ queue.receivers[clone]? = _
    rw [hreceivers]
    exact h.clone
  · intro hcloses
    have hdropped := (h.gone hcloses).2
    rw [halive] at hdropped
    cases hdropped

theorem Awake.send (h : s.Awake) {priority : Priority} {item : T} (halive : s.sender = .alive)
    (hstep : s.queue.step (.send priority item) = some (.ok queue)) :
    Awake { s with queue } := by
  obtain ⟨hqueues, hreceivers, hsender⟩ := PriorityQueueState.step_send hstep
  apply h.onSender halive hreceivers hsender
  rw [hqueues]
  exact h.messages

theorem Awake.push (h : s.Awake) {send : Nat} {woken : Option Nat}
    (hstep : s.queue.step (.push send woken) = some (.ok queue)) :
    Awake { s with queue, pinging := s.pinging + 1 } := by
  obtain ⟨hsends, hreceivers, hsender⟩ := h.calm.step_push hstep
  exact h.onSender (h.alive (.inl hsends)) hreceivers hsender
    fun _ _ => .inl (Nat.succ_pos s.pinging)

theorem Awake.ping (h : s.Awake) (hpinging : s.pinging ≠ 0) :
    Awake { s with pinging := s.pinging - 1, pinged := true } := by
  have halive := h.alive (.inr (Nat.pos_of_ne_zero hpinging))
  exact ⟨h.calm, h.count, fun hgone => absurd halive hgone, h.source, h.clone,
    fun _ _ => .inr rfl, fun _ _ => rfl, h.gone, h.told⟩

theorem Awake.dropBody (h : s.Awake) (halive : s.sender = .alive)
    (hsends : s.queue.inFlight = []) (hpinging : s.pinging = 0) :
    Awake { s with sender := .pinged, pinged := true } := by
  refine ⟨h.calm, ?_, fun _ => ⟨hsends, hpinging⟩, h.source, h.clone, fun _ _ => .inr rfl,
    fun _ _ => rfl, ?_, h.told⟩
  · have hcount := h.count
    rw [halive] at hcount
    exact hcount
  · intro hcloses
    have hdropped := (h.gone hcloses).2
    rw [halive] at hdropped
    cases hdropped

theorem Awake.dropFields (h : s.Awake) (hpinged : s.sender = .pinged)
    (hstep : s.queue.step .dropSender = some (.ok queue)) :
    Awake { s with queue, sender := .dropped } := by
  have hgone : s.sender ≠ .alive := by
    rw [hpinged]
    decide
  obtain ⟨_, _, hqueue⟩ := PriorityQueueState.step_dropSender.1 hstep
  obtain rfl := Except.ok.inj hqueue
  refine ⟨h.calm, ?_, fun _ => h.quiet hgone, h.source, h.clone, h.messages,
    fun hsettles _ => h.drop hsettles hgone, fun hcloses => ⟨(h.gone hcloses).1, rfl⟩, h.told⟩
  have hcount := h.count
  rw [hpinged] at hcount
  show s.queue.senderCount - 1 = 0
  rw [hcount]
  rfl

/-! ### The event loop -/

/-- A call begins: nothing is promised until it ends. -/
theorem Awake.processEvents (h : s.Awake) (hidle : s.processing = .idle)
    (hstep : s.queue.step (.clone 0) = some (.ok queue)) :
    Awake { s with
      queue
      pinged := false
      processing := .popping s.queue.receivers.length true } := by
  obtain rfl := PriorityQueueState.step_clone hstep
  have hsource := h.source (by rw [hidle]; decide)
  have hlt := (List.getElem?_eq_some_iff.1 hsource).1
  refine ⟨?_, h.count, h.quiet, ?_, ?_, ?_, ?_, ?_, ?_⟩
  · intro r hr
    obtain hr | hr := List.mem_append.1 hr
    · exact h.calm r hr
    · exact .inl (List.mem_singleton.1 hr)
  · intro _
    show (s.queue.receivers ++ [.idle])[0]? = _
    rw [List.getElem?_append_left hlt, hsource]
  · intro clone hclone
    obtain rfl := Option.some.inj hclone
    refine ⟨by omega, ?_⟩
    show (s.queue.receivers ++ [.idle])[_]? = _
    rw [List.getElem?_append_right (Nat.le_refl _), Nat.sub_self]
    rfl
  · intro hsettles
    cases hsettles
  · intro hsettles
    cases hsettles
  · intro hcloses
    cases hcloses
  · have htold := h.told
    rw [hidle] at htold
    exact htold

/-- The loop goes on with an item: the call is going to ping. -/
theorem Awake.handOut (h : s.Awake)
    (hpopping : s.processing = .popping clone isEmpty) (drawn : PriorityQueues.Drawn T) (item : T) :
    Awake { s with
      queue := s.queue.handOut drawn
      processing := .popping clone false
      events := s.events ++ [.msg item] } := by
  refine ⟨h.calm, h.count, h.quiet, fun _ => h.source (by rw [hpopping]; nofun), ?_, ?_, ?_, ?_,
    ?_⟩
  · intro other hother
    exact h.clone other (by rw [hpopping]; exact hother)
  · intro hsettles
    cases hsettles
  · intro hsettles
    cases hsettles
  · intro hcloses
    cases hcloses
  · have htold := h.told
    rw [hpopping] at htold
    show .closed ∈ s.events ++ [.msg item] ↔ _
    rw [List.mem_append, List.mem_singleton, or_iff_left nofun]
    exact htold

/-- The loop ends over an empty queue. -/
theorem Awake.ended (h : s.Awake) (hpopping : s.processing = .popping clone isEmpty)
    (hempty : s.queue.queues.isEmpty = true) {disconnected : Bool}
    (hgone : disconnected = true → s.sender = .dropped)
    (hthere : disconnected = false → isEmpty = true → s.sender ≠ .alive → s.pinged = true) :
    Awake { s with processing := .popped clone isEmpty disconnected } := by
  refine ⟨h.calm, h.count, h.quiet, fun _ => h.source (by rw [hpopping]; nofun), ?_, ?_, ?_, ?_,
    ?_⟩
  · intro other hother
    exact h.clone other (by rw [hpopping]; exact hother)
  · intro _ hfull
    rw [hempty] at hfull
    cases hfull
  · intro hsettles
    obtain ⟨hclear, hthere'⟩ := Bool.and_eq_true_iff.1 hsettles
    exact hthere (by simpa using hthere') hclear
  · intro hcloses
    cases disconnected with
    | true => exact ⟨hempty, hgone rfl⟩
    | false => cases hcloses
  · have htold := h.told
    rw [hpopping] at htold
    exact htold

theorem Awake.next (h : s.Awake) {coin : Priority → Bool}
    (hheeds : s.Heeds (.next coin)) (hstep : s.step (.next coin) = some (.ok s')) :
    s'.Awake := by
  unfold step at hstep
  dsimp only at hstep
  split at hstep
  · rename_i clone isEmpty hpopping
    obtain ⟨queue, hpop, rfl⟩ := onQueue_eq.1 hstep
    obtain ⟨_, hpop⟩ := h.calm.step_tryPop.1 hpop
    obtain ⟨hempty, hsame, hpopped⟩ | ⟨_, drawn, priority, item, _, _, htook, hpopped⟩ :=
      s.queue.tryPop_cases coin
    · rw [hsame] at hpop
      obtain rfl := Except.ok.inj hpop
      rw [hpopped, h.count]
      by_cases hdropped : s.sender = .dropped
      · rw [if_pos hdropped, if_pos rfl]
        exact h.ended hpopping hempty (fun _ => hdropped) nofun
      · rw [if_neg hdropped, if_neg Nat.one_ne_zero]
        refine h.ended hpopping hempty nofun ?_
        -- the sender has pinged, and is there: its ping is to be pending
        rintro _ rfl hgone
        cases hsender : s.sender with
        | alive => exact absurd hsender hgone
        | dropped => exact absurd hsender hdropped
        | pinged => exact hheeds clone hpopping hsender hempty
    · rw [htook] at hpop
      obtain rfl := Except.ok.inj hpop
      rw [hpopped]
      exact h.handOut hpopping drawn item
  · cases hstep

theorem Awake.finish (h : s.Awake)
    {disconnected : Bool} (hpopped : s.processing = .popped clone isEmpty disconnected)
    (hstep : s.queue.step (.dropReceiver clone) = some (.ok queue)) :
    (onEnded { s with queue } isEmpty disconnected).Awake := by
  obtain ⟨_, hqueue⟩ := PriorityQueueState.step_dropReceiver.1 hstep
  obtain rfl := Except.ok.inj hqueue
  obtain ⟨hclone, _⟩ := h.clone clone (by rw [hpopped]; rfl)
  have hmessages := h.messages
  have hdrop := h.drop
  have hgone := h.gone
  have htold := h.told
  rw [hpopped] at hmessages hdrop hgone htold
  refine ⟨h.calm.setReceiver clone, h.count, h.quiet, ?_, nofun, ?_, ?_, ?_, ?_⟩
  · intro _
    show (s.queue.receivers.set clone .dropped)[0]? = _
    rw [List.getElem?_set_ne hclone]
    exact h.source (by rw [hpopped]; nofun)
  · exact hmessages
  · exact hdrop
  · intro hcloses
    cases disconnected with
    | true => exact hgone rfl
    | false => cases hcloses
  · cases disconnected with
    | true =>
      show .closed ∈ s.events ++ [.closed] ↔ _
      exact iff_of_true (by simp) rfl
    | false => exact htold

/-- The call ends.  Either it removes the source, or the promise was kept all along, or it
    pings. -/
theorem Awake.postAction (h : s.Awake) (hstep : s.step .postAction = some (.ok s')) : s'.Awake := by
  have hsource := h.source
  have hmessages := h.messages
  have hdrop := h.drop
  have hgone := h.gone
  have htold := h.told
  unfold step at hstep
  dsimp only at hstep
  split at hstep
  · rename_i clear hprocessed
    rw [hprocessed] at hgone htold
    obtain ⟨queue, hqueue, rfl⟩ := onQueue_eq.1 hstep
    obtain ⟨_, hqueue⟩ := PriorityQueueState.step_dropReceiver.1 hqueue
    obtain rfl := Except.ok.inj hqueue
    exact ⟨h.calm.setReceiver 0, h.count, h.quiet, fun hnot => absurd rfl hnot, nofun, nofun, nofun,
      fun _ => hgone rfl, htold⟩
  · rename_i hprocessed
    rw [hprocessed] at hsource hmessages hdrop htold
    obtain rfl := Except.ok.inj (Option.some.inj hstep)
    exact ⟨h.calm, h.count, h.quiet, fun _ => hsource nofun, nofun, hmessages, hdrop, nofun, htold⟩
  · rename_i hprocessed
    rw [hprocessed] at hsource htold
    obtain rfl := Except.ok.inj (Option.some.inj hstep)
    exact ⟨h.calm, h.count, h.quiet, fun _ => hsource nofun, nofun, fun _ _ => .inr rfl,
      fun _ _ => rfl, nofun, htold⟩
  · cases hstep

/-! ### Every run -/

theorem Awake.step {a : Action T} (h : s.Awake)
    (ha : s.Heeds a) (hstep : s.step a = some (.ok s')) : s'.Awake := by
  cases a with
  | next coin => exact h.next ha hstep
  | postAction => exact h.postAction hstep
  | send priority item =>
    simp only [PriorityQueueCalloop.step, Option.ite_none_right_eq_some] at hstep
    obtain ⟨queue, hqueue, rfl⟩ := onQueue_eq.1 hstep.2
    exact h.send hstep.1 hqueue
  | push send woken =>
    unfold PriorityQueueCalloop.step at hstep
    obtain ⟨queue, hqueue, rfl⟩ := onQueue_eq.1 hstep
    exact h.push hqueue
  | ping =>
    simp only [PriorityQueueCalloop.step, Option.ite_none_left_eq_some, Option.some.injEq,
      Except.ok.injEq] at hstep
    obtain ⟨hpinging, rfl⟩ := hstep
    exact h.ping hpinging
  | dropBody =>
    simp only [PriorityQueueCalloop.step, Option.ite_none_right_eq_some, Option.some.injEq,
      Except.ok.injEq, List.isEmpty_iff] at hstep
    obtain ⟨⟨halive, hsends, hpinging⟩, rfl⟩ := hstep
    exact h.dropBody halive hsends hpinging
  | dropFields =>
    simp only [PriorityQueueCalloop.step, Option.ite_none_right_eq_some] at hstep
    obtain ⟨queue, hqueue, rfl⟩ := onQueue_eq.1 hstep.2
    exact h.dropFields hstep.1 hqueue
  | processEvents =>
    simp only [PriorityQueueCalloop.step, Option.ite_none_right_eq_some] at hstep
    obtain ⟨queue, hqueue, rfl⟩ := onQueue_eq.1 hstep.2
    exact h.processEvents hstep.1.1 hqueue
  | finish =>
    unfold PriorityQueueCalloop.step at hstep
    dsimp only at hstep
    split at hstep
    · rename_i clone isEmpty disconnected hpopped
      obtain ⟨queue, hqueue, rfl⟩ := onQueue_eq.1 hstep
      exact h.finish hpopped hqueue
    · cases hstep

theorem awake_inductive : (machine T).Inductive Heeds Awake where
  start := by
    refine ⟨?_, rfl, fun hgone => absurd rfl hgone, fun _ => rfl, nofun, nofun,
      fun _ hgone => absurd rfl hgone, nofun, ?_⟩
    · intro r hr
      exact .inl (List.mem_singleton.1 hr)
    · exact iff_of_false nofun nofun
  step := fun _ _ _ h ha hstep => h.step ha hstep

/-! ### When it is not -/

/-- Over an empty queue the iterator ends, with an error once the sender is gone. -/
theorem Awake.next_empty (h : s.Awake)
    (hpopping : s.processing = .popping clone isEmpty) (hempty : s.queue.queues.isEmpty = true)
    (coin : Priority → Bool) :
    s.step (.next coin) =
      some (.ok { s with processing := .popped clone isEmpty (s.sender = .dropped) }) := by
  obtain ⟨_, hclone⟩ := h.clone clone (by rw [hpopping]; rfl)
  obtain ⟨_, hsame, hpopped⟩ | ⟨hfull, _⟩ := s.queue.tryPop_cases coin
  · unfold PriorityQueueCalloop.step
    simp only [hpopping]
    refine onQueue_eq.2 ⟨_, h.calm.step_tryPop.2 ⟨hclone, hsame.symm⟩, ?_⟩
    rw [hpopped, h.count]
    by_cases hdropped : s.sender = .dropped
    · simp [hdropped, onPopped]
    · simp [hdropped, onPopped]
  · rw [hempty] at hfull
    cases hfull

/-- The call ends without a ping, the fields are dropped, and nobody is going to ping. -/
theorem Awake.misses (h : s.Awake)
    (hpopping : s.processing = .popping clone true) (hsender : s.sender = .pinged)
    (hpinged : s.pinged = false) :
    ∃ s', (machine T).run { s with processing := .popped clone true false }
        [.finish, .postAction, .dropFields] = some (.ok s') ∧ ¬ s'.Wakes := by
  obtain ⟨_, hclone⟩ := h.clone clone (by rw [hpopping]; rfl)
  have hgone : s.sender ≠ .alive := by
    rw [hsender]
    decide
  have hcount : s.queue.senderCount ≠ 0 := by
    rw [h.count, hsender]
    decide
  have htold : .closed ∉ s.events := by
    rw [h.told, hpopping]
    nofun
  -- the clone is dropped, the call returns, and then the sender is dropped
  let left := { s.queue.setReceiver clone .dropped with receiverCount := s.queue.receiverCount - 1 }
  let queue := { left with senderCount := left.senderCount - 1 }
  have hleft : s.queue.step (.dropReceiver clone) = some (.ok left) :=
    PriorityQueueState.step_dropReceiver.2 ⟨hclone, rfl⟩
  have hqueue : left.step .dropSender = some (.ok queue) :=
    PriorityQueueState.step_dropSender.2 ⟨hcount, (h.quiet hgone).1, rfl⟩
  have hfinish : (machine T).step { s with processing := .popped clone true false } .finish =
      some (.ok { s with queue := left, processing := .processed true false }) := by
    show onQueue _ (.dropReceiver clone) (fun s => s.onEnded true false) = _
    exact onQueue_eq.2 ⟨left, hleft, rfl⟩
  have hdrop : (machine T).step { s with queue := left, processing := .idle } .dropFields =
      some (.ok { s with queue, processing := .idle, sender := .dropped }) := by
    show PriorityQueueCalloop.step _ Action.dropFields = _
    unfold PriorityQueueCalloop.step
    simp only [hsender, if_true]
    exact onQueue_eq.2 ⟨queue, hqueue, rfl⟩
  refine ⟨{ s with queue, processing := .idle, sender := .dropped }, ?_, ?_⟩
  · rw [Machine.run_cons_ok _ hfinish, Machine.run_cons_ok _ rfl, Machine.run_cons_ok _ hdrop,
      Machine.run_nil]
  · intro hwakes
    obtain hclosed | hping := hwakes.closed rfl rfl
    · exact htold hclosed
    · exact absurd (hpinged.symm.trans hping) nofun

/-- A wake-up can be missed from then on. -/
theorem Awake.spoils {a : Action T} (h : s.Awake)
    (hstep : s.step a = some (.ok s')) (ha : ¬ s.Heeds a) :
    ∃ actions s'', (machine T).Meets Heeds s' actions ∧
      (machine T).run s' actions = some (.ok s'') ∧ ¬ s''.Wakes := by
  cases a with
  | next coin =>
    unfold Heeds at ha
    push Not at ha
    obtain ⟨clone, hpopping, hsender, hempty, hpinged⟩ := ha
    rw [ne_eq, Bool.not_eq_true] at hpinged
    -- the call finds the queue empty and the sender there
    have hthere : decide (s.sender = .dropped) = false := by
      rw [hsender]
      rfl
    rw [h.next_empty hpopping hempty coin, hthere] at hstep
    obtain rfl := Except.ok.inj (Option.some.inj hstep)
    obtain ⟨s'', hrun, hmisses⟩ := h.misses hpopping hsender hpinged
    exact ⟨_, s'', .of_forall (by simp [Heeds]) _, hrun, hmisses⟩
  | _ => exact absurd trivial ha

/-- **No wake-up is missed** in a run in which no call that has not handed out anything
    looks into an empty queue between the two halves of the drop, with the ping of the first
    half drained.  After a call that does, one can be missed. -/
theorem bridge_wakes : (machine T).Exact Heeds Wakes := by
  apply awake_inductive.exact
  · intro s h
    exact h.wakes
  · intro s a s' h hstep ha
    exact h.spoils hstep ha

/-- The event loop looks between the two halves of the drop. -/
theorem bridge_misses :
    ¬ ∀ s : PriorityQueueCalloop Nat, (machine Nat).Reaches (fun _ _ => True) s → s.Wakes := by
  intro h
  have hrun : ∃ s, (machine Nat).run new
      [.dropBody, .processEvents, .next (fun _ => false), .finish, .postAction, .dropFields] =
        some (.ok s) ∧ s.processing.running = false ∧ s.sender = .dropped ∧
        .closed ∉ s.events ∧ s.pinged = false :=
    ⟨_, rfl, rfl, rfl, nofun, rfl⟩
  obtain ⟨s, hrun, hidle, hdropped, hclosed, hpinged⟩ := hrun
  have hwakes := h s (Machine.Reaches.start.run (.of_forall (fun _ _ _ => trivial) _) hrun)
  obtain htold | hping := hwakes.closed hidle hdropped
  · exact hclosed htold
  · rw [hpinged] at hping
    cases hping

end PriorityQueueCalloop

end Gpui
