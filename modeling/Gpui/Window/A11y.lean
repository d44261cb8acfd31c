import Gpui.Lib.Machine
import Gpui.Window.Element

/-! # The accessibility tree: the model

    While the elements of a frame are prepainted, those with an id and a role push nodes
    into a builder, from which the update for AccessKit is made.  The builder is emptied
    for every frame.  The frame itself is composed in other ways too: cached views and
    deferred draws are reused, and prepaints that failed are taken back.

    A run is described by the calls that are made while a frame is drawn.  The elements of
    a frame are the nodes of its dispatch tree, since every element pushes one; with each
    goes the history that the property is about, which elements it stands in. -/

namespace Gpui

/-! ### The builder -/

/-- A node: what is told of an element, its bounds among it, and its children. -/
structure A11yNode (I B : Type) where
  info : B
  children : List I

structure A11yNodeBuilder (I B : Type) where
  /-- `ids_stack` with `nodes_stack`, the last first. -/
  stack : List (I × A11yNode I B)
  allNodes : List (I × A11yNode I B)
  seenIds : List I

inductive A11yPanic where
  /-- "Duplicate a11y node id". -/
  | duplicateId
  | indexOutOfRange
deriving DecidableEq, Repr

namespace A11yNodeBuilder

variable {I B : Type}

def new : A11yNodeBuilder I B := ⟨[], [], []⟩

/-- `push_child` of the last node of the stack. -/
def pushChild (id : I) : List (I × A11yNode I B) → List (I × A11yNode I B)
  | [] => []
  | (parent, node) :: below =>
      (parent, { node with children := node.children ++ [id] }) :: below

def pop (self : A11yNodeBuilder I B) : A11yNodeBuilder I B :=
  match self.stack with
  | [] => self
  | node :: below => { self with stack := below, allNodes := self.allNodes ++ [node] }

def beginFrame (root : I) (title : B) : A11yNodeBuilder I B where
  stack := [(root, ⟨title, []⟩)]
  allNodes := []
  seenIds := []

variable [DecidableEq I]

/-- With debug assertions a duplicate id stops the program. -/
def canPush (debugAssertions : Bool) (self : A11yNodeBuilder I B) (id : I) :
    Except A11yPanic (Bool × A11yNodeBuilder I B) :=
  if id ∈ self.seenIds then
    if debugAssertions then .error .duplicateId else .ok (false, self)
  else .ok (true, { self with seenIds := id :: self.seenIds })

def push (debugAssertions : Bool) (self : A11yNodeBuilder I B) (id : I) (info : B) :
    Except A11yPanic (Bool × A11yNodeBuilder I B) := do
  let r ← self.canPush debugAssertions id
  if r.1 then .ok (true, { r.2 with stack := (id, ⟨info, []⟩) :: pushChild id r.2.stack })
  else .ok (false, r.2)

def pushLeaf (debugAssertions : Bool) (self : A11yNodeBuilder I B) (id : I) (info : B) :
    Except A11yPanic (Bool × A11yNodeBuilder I B) := do
  let r ← self.canPush debugAssertions id
  if r.1 then
    .ok (true, { r.2 with
      stack := pushChild id r.2.stack
      allNodes := r.2.allNodes ++ [(id, ⟨info, []⟩)] })
  else .ok (false, r.2)

/-- `repair_tree_update`, as far as it changes nodes. -/
def repair (nodes : List (I × A11yNode I B)) : List (I × A11yNode I B) :=
  nodes.map (fun node => (node.1, { node.2 with
    children := node.2.children.filter (fun child => child ∈ nodes.map Prod.fst) }))

/-- The nodes of the update: what is left on the stack is popped. -/
def finalize (self : A11yNodeBuilder I B) : List (I × A11yNode I B) :=
  repair (self.allNodes ++ self.stack)

end A11yNodeBuilder

/-! ### Frames -/

/-- An element of a frame.  After the comment follows its history. -/
structure ShownElement (I B : Type) where
  /-- Its id and what it tells, if it has an id and a role. -/
  node : Option (I × B)
  -- the elements around it that have both, the nearest first
  ancestors : List I

namespace A11yFrame

structure Index where
  elements : Nat
  deferredDraws : Nat

structure Range where
  start : Index
  stop : Index

/-- A deferred draw.  After the comment follows its history. -/
structure Draw (I : Type) where
  /-- Whether it has an element; otherwise its range of the last frame is reused. -/
  hasElement : Bool
  prepaintRange : Range
  -- the elements it is deferred in, and how many the range was prepainted in
  ancestors : List I
  depth : Nat

end A11yFrame

/-- The part of a frame that the accessibility tree should show. -/
structure A11yFrame (I B : Type) where
  elements : List (ShownElement I B)
  deferredDraws : List (A11yFrame.Draw I)

namespace A11yFrame

variable {I B : Type}

def empty : A11yFrame I B := ⟨[], []⟩

/-- `prepaint_index`. -/
def index (frame : A11yFrame I B) : Index :=
  ⟨frame.elements.length, frame.deferredDraws.length⟩

/-- What `transact` does if it fails. -/
def truncate (frame : A11yFrame I B) (index : Index) : A11yFrame I B where
  elements := frame.elements.take index.elements
  deferredDraws := frame.deferredDraws.take index.deferredDraws

/-- What stood in `depth` elements and others stands in those of `around` and the others. -/
def rebase (depth : Nat) (around ancestors : List I) : List I :=
  ancestors.take (ancestors.length - depth) ++ around

/-- The elements of a range: of dispatch nodes `reuse_subtree` skips some and takes some. -/
def elementsIn (rendered : A11yFrame I B) (range : Range) : List (ShownElement I B) :=
  (rendered.elements.drop range.start.elements).take
    (range.stop.elements - range.start.elements)

/-- `reuse_prepaint` of a range that was prepainted in `depth` elements. -/
def reusePrepaint (frame rendered : A11yFrame I B) (range : Range) (depth : Nat)
    (around : List I) : Except A11yPanic (A11yFrame I B) :=
  if range.start.deferredDraws ≤ range.stop.deferredDraws ∧
      range.stop.deferredDraws ≤ rendered.deferredDraws.length then
    .ok {
      elements := frame.elements ++ (rendered.elementsIn range).map (fun element =>
        { element with ancestors := rebase depth around element.ancestors })
      deferredDraws := frame.deferredDraws ++
        ((rendered.deferredDraws.take range.stop.deferredDraws).drop
          range.start.deferredDraws).map (fun draw =>
            { draw with
              hasElement := false
              ancestors := rebase depth around draw.ancestors }) }
  else .error .indexOutOfRange

end A11yFrame

/-! ### The window -/

/-- The state of a cached view.  After the comment follows its history. -/
structure A11yViewState (K : Type) where
  cacheKey : K
  prepaintRange : A11yFrame.Range
  -- how many elements with an id and a role it was prepainted in
  depth : Nat

/-- A call that is running. -/
inductive A11yCall (I V K : Type) where
  /-- The prepaint of an element, and whether it pushed a node. -/
  | element (id : Option I) (pushed : Bool)
  /-- A cached view is drawn. -/
  | view (id : V) (paintedKey : K) (start : A11yFrame.Index) (refreshing : Bool)
  | transaction (index : A11yFrame.Index)
  /-- The element of a deferred draw is prepainted. -/
  | deferred (ix : Nat) (ancestors : List I) (start : A11yFrame.Index)

namespace A11yCall

variable {I V K : Type}

/-- The elements with an id and a role that what is prepainted now stands in. -/
def ancestors : List (A11yCall I V K) → List I
  | []                                => []
  | .element id _ :: calls            => id.toList ++ ancestors calls
  | .deferred _ ancestors _ :: _      => ancestors
  | .view _ _ _ _ :: calls            => ancestors calls
  | .transaction _ :: calls           => ancestors calls

end A11yCall

/-- A window, with the calls that are running while it is drawn.  `I` are the ids of nodes,
    `B` is what is told of them, `V` are the ids of cached views and `N` those of their
    entities, and `K` are cache keys. -/
structure A11yWindow (I B V N K : Type) where
  activeFlag : Bool
  activeThisFrame : Bool
  nodes : A11yNodeBuilder I B
  drawing : Bool
  context : CacheContext N
  refreshing : Bool
  calls : List (A11yCall I V K)
  nextFrame : A11yFrame I B
  nextStates : V → Option (A11yViewState K)
  renderedFrame : A11yFrame I B
  renderedStates : V → Option (A11yViewState K)
  -- the synthetic children of the frame
  synthetic : List I
  /-- The update that was sent with the rendered frame. -/
  update : Option (List (I × A11yNode I B))

namespace A11yWindow

inductive Action (I B V N K : Type) where
  /-- The system activates accessibility, or deactivates it. -/
  | setActive (active : Bool)
  | beginFrame (context : CacheContext N) (title : B)
  /-- `Drawable::prepaint` begins. -/
  | element (node : Option (I × B))
  /-- The prepaint of a cached view, which is reused or drawn. -/
  | view (id : V) (view : N) (key paintedKey : K)
  | deferDraw
  /-- A deferred draw is taken up. -/
  | prepaintDeferred (ix : Nat)
  | transact
  | transactFails
  | syntheticChild (id : I) (info : B)
  /-- What is running ends. -/
  | returns
  /-- The frame is drawn.  The states of some views are carried over with a view around
      them that is reused. -/
  | endFrame (carried : V → Bool)

variable {I B V N K : Type}

def start : A11yWindow I B V N K where
  activeFlag := false
  activeThisFrame := false
  nodes := .new
  drawing := false
  context := ⟨fun _ => false, false⟩
  refreshing := false
  calls := []
  nextFrame := .empty
  nextStates := fun _ => none
  renderedFrame := .empty
  renderedStates := fun _ => none
  synthetic := []
  update := none

/-- `sync_active_flag`. -/
def syncActiveFlag (forceDisabled : Bool) (s : A11yWindow I B V N K) : A11yWindow I B V N K :=
  { s with activeThisFrame := !forceDisabled && s.activeFlag }

/-- `draw_roots` up to the prepaint of the root. -/
def beginFrame (forceDisabled : Bool) (root : I) (s : A11yWindow I B V N K)
    (context : CacheContext N) (title : B) : A11yWindow I B V N K :=
  let s := s.syncActiveFlag forceDisabled
  { s with
    nodes := if s.activeThisFrame then .beginFrame root title else s.nodes
    drawing := true
    context := context
    refreshing := context.refreshing
    nextFrame := .empty
    nextStates := fun _ => none
    synthetic := [] }

def deferDraw (s : A11yWindow I B V N K) : A11yWindow I B V N K :=
  { s with nextFrame := { s.nextFrame with
      deferredDraws := s.nextFrame.deferredDraws ++
        [⟨true, ⟨⟨0, 0⟩, ⟨0, 0⟩⟩, A11yCall.ancestors s.calls, 0⟩] } }

/-- A deferred draw gets its range, which begins at `start`. -/
def setRange (s : A11yWindow I B V N K) (ix : Nat) (start : A11yFrame.Index) :
    A11yWindow I B V N K :=
  { s with nextFrame := { s.nextFrame with
      deferredDraws := s.nextFrame.deferredDraws.modify ix (fun draw =>
        { draw with
          prepaintRange := ⟨start, s.nextFrame.index⟩
          depth := draw.ancestors.length }) } }

/-- A deferred draw is prepainted, or reused. -/
def prepaintDeferred (s : A11yWindow I B V N K) (ix : Nat) (draw : A11yFrame.Draw I) :
    Except A11yPanic (A11yWindow I B V N K) :=
  if draw.hasElement then
    .ok { s with calls := .deferred ix draw.ancestors s.nextFrame.index :: s.calls }
  else do
    let frame ← s.nextFrame.reusePrepaint s.renderedFrame draw.prepaintRange draw.depth
      draw.ancestors
    .ok (({ s with nextFrame := frame }).setRange ix s.nextFrame.index)

variable [DecidableEq I]

/-- The end of `draw_roots`, and of `draw`: the next frame is the rendered one. -/
def endFrame (forceDisabled : Bool) (s : A11yWindow I B V N K) (carried : V → Bool) :
    A11yWindow I B V N K :=
  { s.syncActiveFlag forceDisabled with
    drawing := false
    renderedFrame := s.nextFrame
    renderedStates := fun id =>
      match s.nextStates id with
      | some state => some state
      | none       => if carried id then s.renderedStates id else none
    update :=
      if s.activeThisFrame && (s.syncActiveFlag forceDisabled).activeThisFrame then
        some s.nodes.finalize
      else none }

variable [DecidableEq V]

/-- What is running ends. -/
def returns (s : A11yWindow I B V N K) : A11yCall I V K → List (A11yCall I V K) →
    A11yWindow I B V N K
  | .element _ pushed, calls =>
      { s with nodes := if pushed then s.nodes.pop else s.nodes, calls := calls }
  | .view id paintedKey start refreshing, calls =>
      { s with
        refreshing := refreshing
        nextStates := Function.update s.nextStates id (some {
          cacheKey := paintedKey
          prepaintRange := ⟨start, s.nextFrame.index⟩
          depth := (A11yCall.ancestors calls).length })
        calls := calls }
  | .transaction _, calls => { s with calls := calls }
  | .deferred ix _ start, calls => { s.setRange ix start with calls := calls }

variable [DecidableEq K]

/-- The state under which a view is reused.  It is looked up in the frame that is drawn
    first. -/
def reusable (s : A11yWindow I B V N K) (id : V) (view : N) (key : K) :
    Option (A11yViewState K) :=
  ((s.nextStates id).or (s.renderedStates id)).filter
    (fun state => s.context.reuses state.cacheKey view key s.refreshing)

/-- The prepaint of a cached view. -/
def view (s : A11yWindow I B V N K) (id : V) (view : N) (key paintedKey : K) :
    Except A11yPanic (A11yWindow I B V N K) :=
  match s.reusable id view key with
  | some state => do
      let frame ← s.nextFrame.reusePrepaint s.renderedFrame state.prepaintRange state.depth
        (A11yCall.ancestors s.calls)
      .ok { s with
        nextFrame := frame
        nextStates := Function.update s.nextStates id (some { state with
          prepaintRange := ⟨s.nextFrame.index, frame.index⟩
          depth := (A11yCall.ancestors s.calls).length }) }
  | none =>
      .ok { s with
        -- what is inside is drawn again, whatever its own state
        refreshing := true
        calls := .view id paintedKey s.nextFrame.index s.refreshing :: s.calls }

/-- The node of an element that is pushed, if accessibility is active. -/
def pushElement (debugAssertions : Bool) (s : A11yWindow I B V N K) (node : Option (I × B)) :
    Except A11yPanic (Bool × A11yNodeBuilder I B) :=
  match node with
  | none => .ok (false, s.nodes)
  | some (id, info) =>
      if s.activeThisFrame then s.nodes.push debugAssertions id info else .ok (false, s.nodes)

/-- `Drawable::prepaint` up to the prepaint of its element. -/
def element (debugAssertions : Bool) (s : A11yWindow I B V N K) (node : Option (I × B)) :
    Except A11yPanic (A11yWindow I B V N K) := do
  let r ← s.pushElement debugAssertions node
  .ok { s with
    nodes := r.2
    nextFrame := { s.nextFrame with
      elements := s.nextFrame.elements ++ [⟨node, A11yCall.ancestors s.calls⟩] }
    calls := .element (node.map Prod.fst) r.1 :: s.calls }

/-- `push_child` of the builder for synthetic children. -/
def syntheticChild (debugAssertions : Bool) (s : A11yWindow I B V N K) (id : I) (info : B) :
    Except A11yPanic (A11yWindow I B V N K) := do
  let r ← s.nodes.pushLeaf debugAssertions id info
  .ok { s with
    nodes := r.2
    synthetic := if r.1 then id :: s.synthetic else s.synthetic }

/-- One step; `none` if the action is not possible. -/
def step (debugAssertions forceDisabled : Bool) (root : I) (s : A11yWindow I B V N K) :
    Action I B V N K → Option (Except A11yPanic (A11yWindow I B V N K))
  | .setActive active => some (.ok { s with activeFlag := active })
  | .beginFrame context title =>
      if s.drawing then none else some (.ok (s.beginFrame forceDisabled root context title))
  | .element node => if s.drawing then some (s.element debugAssertions node) else none
  | .view id view key paintedKey =>
      if s.drawing then some (s.view id view key paintedKey) else none
  | .deferDraw => if s.drawing && !s.calls.isEmpty then some (.ok s.deferDraw) else none
  | .prepaintDeferred ix =>
      if s.drawing && s.calls.isEmpty then
        (s.nextFrame.deferredDraws[ix]?).map (s.prepaintDeferred ix)
      else none
  | .transact =>
      if s.drawing then
        some (.ok { s with calls := .transaction s.nextFrame.index :: s.calls })
      else none
  | .transactFails =>
      match s.calls with
      | .transaction index :: calls =>
          some (.ok { s with nextFrame := s.nextFrame.truncate index, calls := calls })
      | _ => none
  | .syntheticChild id info =>
      match s.calls with
      | .element _ true :: _ => some (s.syntheticChild debugAssertions id info)
      | _ => none
  | .returns =>
      match s.calls with
      | []            => none
      | call :: calls => some (.ok (s.returns call calls))
  | .endFrame carried =>
      if s.drawing && s.calls.isEmpty then some (.ok (s.endFrame forceDisabled carried))
      else none

/-- A window, in a build with debug assertions or without.  `root` is `ROOT_NODE_ID`. -/
def machine (B V N K : Type) [DecidableEq V] [DecidableEq K]
    (debugAssertions forceDisabled : Bool) (root : I) :
    Machine A11yPanic (A11yWindow I B V N K) (Action I B V N K) where
  start := start
  step := step debugAssertions forceDisabled root

end A11yWindow

end Gpui
