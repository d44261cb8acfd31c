import Gpui.Lib.Machine

/-! # Assets that are loaded for views

    `Window::use_asset` and `RetainAllImageCache::load`, with the tables of tasks they share.

    The call that makes a task also spawns one that waits for it, in the window of the view
    that is being drawn, and has that view notified in the next frame of this window.  A
    call that finds the task in the table spawns nothing.

    * The load itself runs in the background: it completes at any time while someone holds
      its task, and the tasks that wait for it go on in any order after that.
    * A view is known by the id of its entity, and a window by its own.  An asset is known
      by its type and the hash of its source, an image in a cache by its hash.
    * `asked` and `woken` are not in the source: they keep which views were handed `None`
      for which task, and which were notified after it was done. -/

namespace Gpui

namespace Assets

variable {Out : Type}

/-! ### Section 1: State -/

/-- The key of `App::loading_assets`. -/
structure AssetId where
  typeId : Nat
  hash : Nat
deriving DecidableEq, Repr

inductive ImageCacheItem (Out : Type) where
  | loading (task : Nat)
  | loaded (res : Out)

/-- A spawned task that waits for a load and then has a view notified. -/
structure Waiter where
  task : Nat
  window : Nat
  view : Nat
deriving DecidableEq, Repr

structure State (Out : Type) where
  nextTask : Nat
  /-- What the tasks that are done have returned. -/
  output : Nat → Option Out
  loadingAssets : List (AssetId × Nat)
  /-- The items of the image caches, by cache and hash. -/
  images : List ((Nat × Nat) × ImageCacheItem Out)
  waiting : List Waiter
  /-- The callbacks of `on_next_frame` that notify a view, each with its window. -/
  nextFrameCallbacks : List (Nat × Nat)
  /-- The windows that are closed. -/
  closed : List Nat
  /-- The views that do not exist any more. -/
  released : List Nat
  /-- The views that were handed `None`, each with the task it was for. -/
  asked : List (Nat × Nat)
  /-- The views that were notified after a task was done. -/
  woken : Nat → Nat → Bool

namespace State

/-- Some table or some spawned task holds a clone of a task, so that it is not cancelled. -/
def held (s : State Out) (task : Nat) : Bool :=
  s.loadingAssets.any (fun entry => entry.2 == task) ||
    (s.images.any fun entry =>
      match entry.2 with
      | .loading t => t == task
      | .loaded _  => false) ||
    s.waiting.any fun waiter => waiter.task == task

/-! ### Section 2: The calls -/

/-- A new task.  The background may have run the load before anybody polls it. -/
def startTask (s : State Out) (ready : Option Out) : State Out :=
  { s with
    nextTask := s.nextTask + 1
    output := fun task => if task = s.nextTask then ready else s.output task }

/-- `Window::spawn` of the task that waits. -/
def spawnWaiter (s : State Out) (waiter : Waiter) : State Out :=
  { s with waiting := waiter :: s.waiting }

/-- A view is handed `None`. -/
def handNone (s : State Out) (task view : Nat) : State Out :=
  { s with asked := (task, view) :: s.asked }

/-- `App::fetch_asset`: the task of an asset, and if it is the first call for it. -/
def fetchAsset (s : State Out) (id : AssetId) (ready : Option Out) : State Out × Nat × Bool :=
  match s.loadingAssets.lookup id with
  | some task => (s, task, false)
  | none      =>
      ({ s.startTask ready with loadingAssets := (id, s.nextTask) :: s.loadingAssets },
        s.nextTask, true)

/-- `Window::use_asset`, called while a view is drawn in a window. -/
def useAsset (s : State Out) (id : AssetId) (ready : Option Out) (window view : Nat) :
    State Out × Option Out :=
  let (s, task, isFirst) := s.fetchAsset id ready
  match s.output task with
  | some out => (s, some out)
  | none     =>
      -- only the first call registers its view
      ((if isFirst then s.spawnWaiter ⟨task, window, view⟩ else s).handNone task view, none)

/-- `Window::get_asset`. -/
def getAsset (s : State Out) (id : AssetId) (ready : Option Out) : State Out × Option Out :=
  let (s, task, _) := s.fetchAsset id ready
  (s, s.output task)

/-- `App::remove_asset` -/
def removeAsset (s : State Out) (id : AssetId) : State Out :=
  { s with loadingAssets := s.loadingAssets.filter fun entry => entry.1 != id }

end State

/-- `ImageCacheItem::get`: the item afterwards, and the image. -/
def ImageCacheItem.get (item : ImageCacheItem Out) (output : Nat → Option Out) :
    ImageCacheItem Out × Option Out :=
  match item with
  | .loading task =>
      match output task with
      | none     => (.loading task, none)
      | some res => (.loaded res, some res)
  | .loaded res => (.loaded res, some res)

namespace State

/-- `RetainAllImageCache::load`, called while a view is drawn in a window. -/
def load (s : State Out) (cache hash : Nat) (ready : Option Out) (window view : Nat) :
    State Out × Option Out :=
  match s.images.lookup (cache, hash) with
  | some (.loading task) =>
      let (item, res) := (ImageCacheItem.loading task).get s.output
      let s := { s with
        images := s.images.map fun entry => if entry.1 = (cache, hash) then (entry.1, item) else entry }
      match res with
      | some res => (s, some res)
      -- nobody is registered for a view that shares the task
      | none     => (s.handNone task view, none)
  | some (.loaded res) => (s, some res)
  | none =>
      let task := s.nextTask
      let s := { s.startTask ready with
        images := ((cache, hash), .loading task) :: s.images }
      -- `None` even if the load is done already
      ((s.spawnWaiter ⟨task, window, view⟩).handNone task view, none)

/-- `RetainAllImageCache::remove` -/
def removeImage (s : State Out) (cache hash : Nat) : State Out :=
  { s with images := s.images.filter fun entry => entry.1 != (cache, hash) }

/-- `RetainAllImageCache::clear`, which the release of a cache does too. -/
def clearImages (s : State Out) (cache : Nat) : State Out :=
  { s with images := s.images.filter fun entry => entry.1.1 != cache }

/-! ### Section 3: What happens between the calls -/

/-- `App::notify` -/
def notify (s : State Out) (view : Nat) : State Out :=
  { s with woken := fun task other =>
      s.woken task other || (other == view && (s.output task).isSome) }

/-- A load is done. -/
def complete (s : State Out) (task : Nat) (out : Out) : State Out :=
  { s with output := fun other => if other = task then some out else s.output other }

/-- `AsyncWindowContext::on_next_frame`, which does nothing once the window is gone. -/
def onNextFrame (s : State Out) (window view : Nat) : State Out :=
  if window ∈ s.closed then s
  else { s with nextFrameCallbacks := s.nextFrameCallbacks ++ [(window, view)] }

/-- A task that waits goes on, since the load is done. -/
def wake (s : State Out) (waiter : Waiter) : State Out :=
  { s with waiting := s.waiting.erase waiter }.onNextFrame waiter.window waiter.view

/-- The callbacks of a window are taken, and called in their order. -/
def frame (s : State Out) (window : Nat) : State Out :=
  (s.nextFrameCallbacks.filter fun callback => callback.1 == window).foldl
    (fun s callback => s.notify callback.2)
    { s with nextFrameCallbacks :=
        s.nextFrameCallbacks.filter fun callback => callback.1 != window }

/-- A window is closed, and its callbacks are dropped with it. -/
def closeWindow (s : State Out) (window : Nat) : State Out :=
  { s with
    closed := window :: s.closed
    nextFrameCallbacks := s.nextFrameCallbacks.filter fun callback => callback.1 != window }

/-- The last handle of a view is dropped. -/
def release (s : State Out) (view : Nat) : State Out :=
  { s with released := view :: s.released }

end State

/-! ### Section 4: The machine -/

inductive Action (Out : Type) where
  /-- A view asks for an asset while it is drawn in a window. -/
  | useAsset (id : AssetId) (ready : Option Out) (window view : Nat)
  /-- A view asks for an image of a cache while it is drawn in a window. -/
  | load (cache hash : Nat) (ready : Option Out) (window view : Nat)
  | getAsset (id : AssetId) (ready : Option Out)
  | removeAsset (id : AssetId)
  | removeImage (cache hash : Nat)
  | clearImages (cache : Nat)
  /-- A load that is not cancelled is done. -/
  | complete (task : Nat) (out : Out)
  /-- A task that waited for a load goes on. -/
  | wake (waiter : Waiter)
  /-- The platform asks for the next frame of a window. -/
  | frame (window : Nat)
  /-- A view is notified by something else. -/
  | notify (view : Nat)
  | closeWindow (window : Nat)
  | release (view : Nat)

namespace State

def initial : State Out where
  nextTask := 0
  output := fun _ => none
  loadingAssets := []
  images := []
  waiting := []
  nextFrameCallbacks := []
  closed := []
  released := []
  asked := []
  woken := fun _ _ => false

/-- The state after an action, unless it is not possible. -/
def step (s : State Out) : Action Out → Option (Except Empty (State Out))
  | .useAsset id ready window view =>
      if window ∈ s.closed ∨ view ∈ s.released then none
      else some (.ok (s.useAsset id ready window view).1)
  | .load cache hash ready window view =>
      if window ∈ s.closed ∨ view ∈ s.released then none
      else some (.ok (s.load cache hash ready window view).1)
  | .getAsset id ready => some (.ok (s.getAsset id ready).1)
  | .removeAsset id => some (.ok (s.removeAsset id))
  | .removeImage cache hash => some (.ok (s.removeImage cache hash))
  | .clearImages cache => some (.ok (s.clearImages cache))
  | .complete task out =>
      if (s.output task).isNone ∧ s.held task = true then some (.ok (s.complete task out))
      else none
  | .wake waiter =>
      if waiter ∈ s.waiting ∧ (s.output waiter.task).isSome then some (.ok (s.wake waiter))
      else none
  | .frame window => if window ∈ s.closed then none else some (.ok (s.frame window))
  | .notify view => some (.ok (s.notify view))
  | .closeWindow window =>
      if window ∈ s.closed then none else some (.ok (s.closeWindow window))
  | .release view => if view ∈ s.released then none else some (.ok (s.release view))

end State

def machine (Out : Type) : Machine Empty (State Out) (Action Out) where
  start := State.initial
  step := State.step

end Assets

end Gpui
