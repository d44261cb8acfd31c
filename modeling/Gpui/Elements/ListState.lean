import Gpui.Panic
import Gpui.Scene.Geometry

/-! # The state of a list element: the model

    The scroll position of a list is an item and an offset into it.  When the item at
    the scroll top is measured again, an adjustment of the offset stays pending until the
    next layout.

    The items stand in a list; a cursor over them is what lies before it.  Lengths are in
    an ordered field `X`. -/

namespace Gpui

inductive ListAlignment where
  | top
  | bottom
deriving DecidableEq

inductive FollowMode where
  | normal
  | tail
deriving DecidableEq

inductive FollowState where
  | normal
  | tail (isFollowing : Bool)
deriving DecidableEq

def FollowState.stopFollowing : FollowState → FollowState
  | .tail true => .tail false
  | state      => state

inductive ListMeasuringBehavior where
  | measure (hasMeasured : Bool)
  | visible
deriving DecidableEq

def ListMeasuringBehavior.reset : ListMeasuringBehavior → ListMeasuringBehavior
  | .measure _ => .measure false
  | .visible   => .visible

/-- `F` are the focus handles. -/
inductive ListItem (X F : Type) where
  | unmeasured (sizeHint : Option (Size X)) (focusHandle : Option F)
  | measured (size : Size X) (focusHandle : Option F)
deriving DecidableEq

structure ListOffset (X : Type) where
  itemIx : Nat
  offsetInItem : X
deriving DecidableEq

/-- An adjustment of the scroll position that the next layout makes. -/
inductive PendingScroll (X : Type) where
  /-- The same offset into the item. -/
  | absolute (itemIx : Nat) (offset : X)
  /-- The same fraction of the item. -/
  | proportional (itemIx : Nat) (fraction : X)
deriving DecidableEq

inductive ScrollAnchor where
  | absolute
  | proportional
deriving DecidableEq

structure Edges (X : Type) where
  top : X
  right : X
  bottom : X
  left : X

/-- What lies before a cursor. -/
structure ListPosition (X : Type) where
  count : Nat
  height : X

structure StateInner (X F : Type) where
  lastLayoutBounds : Option (Bounds X)
  lastPadding : Option (Edges X)
  items : List (ListItem X F)
  logicalScrollTop : Option (ListOffset X)
  alignment : ListAlignment
  overdraw : X
  reset : Bool
  scrollbarDragStartHeight : Option X
  measuringBehavior : ListMeasuringBehavior
  pendingScroll : Option (PendingScroll X)
  followState : FollowState

variable {X F : Type} [Field X] [LinearOrder X]

/-! ## Items -/

namespace ListItem

def size : ListItem X F → Option (Size X)
  | .measured size _  => some size
  | .unmeasured _ _   => none

def sizeHint : ListItem X F → Option (Size X)
  | .measured size _         => some size
  | .unmeasured sizeHint _   => sizeHint

def focusHandle : ListItem X F → Option F
  | .measured _ focusHandle   => focusHandle
  | .unmeasured _ focusHandle => focusHandle

/-- The height of the item's summary. -/
def height (item : ListItem X F) : X :=
  match item.sizeHint with
  | some size => size.height
  | none      => 0

/-- The item without its size. -/
def invalidate (item : ListItem X F) : ListItem X F :=
  .unmeasured item.sizeHint item.focusHandle

end ListItem

/-- Moves a cursor over all items whose end a target reaches. -/
def seekItems (reaches : ListPosition X → Bool) :
    ListPosition X → List (ListItem X F) → ListPosition X
  | position, [] => position
  | position, item :: rest =>
      let next : ListPosition X := ⟨position.count + 1, position.height + item.height⟩
      if reaches next then seekItems reaches next rest else position

/-- `seek(&Count(count), Bias::Right)` -/
def seekCount (items : List (ListItem X F)) (count : Nat) : ListPosition X :=
  seekItems (fun position => position.count ≤ count) ⟨0, 0⟩ items

/-- `seek(&Height(height), Bias::Right)` -/
def seekHeightRight (items : List (ListItem X F)) (height : X) : ListPosition X :=
  seekItems (fun position => position.height ≤ height) ⟨0, 0⟩ items

/-- `seek(&Height(height), Bias::Left)` -/
def seekHeightLeft (items : List (ListItem X F)) (height : X) : ListPosition X :=
  seekItems (fun position => position.height < height) ⟨0, 0⟩ items

/-- The height of the summary of all items. -/
def totalHeight (items : List (ListItem X F)) : X :=
  (items.map ListItem.height).sum

/-- Replaces a range of the items; a cursor cannot seek backward. -/
def replaceItems (items : List (ListItem X F)) (first last : Nat)
    (replacement : List (ListItem X F)) : Run (List (ListItem X F)) :=
  if last < min first items.length then .error .cannotSeekBackward
  else .ok (items.take first ++ replacement ++ items.drop (max first last))

/-- How far into an item of some height an offset is, between 0 and 1. -/
def fractionOf (offset height : X) : X :=
  max 0 (min (offset / height) 1)

namespace StateInner

variable (state : StateInner X F)

/-- The scroll position, or the one a list starts at. -/
def getLogicalScrollTop : ListOffset X :=
  match state.logicalScrollTop with
  | some scrollTop => scrollTop
  | none =>
      match state.alignment with
      | .top    => ⟨0, 0⟩
      | .bottom => ⟨state.items.length, 0⟩

/-- Anchors a pending adjustment to a new scroll position. -/
def rebasePendingScroll (scrollTop : ListOffset X) : StateInner X F :=
  match state.pendingScroll with
  | none => state
  | some pending =>
      if state.items.length ≤ scrollTop.itemIx then { state with pendingScroll := none }
      else
        match pending with
        | .absolute _ _ =>
            { state with
              pendingScroll := some (.absolute scrollTop.itemIx scrollTop.offsetInItem) }
        | .proportional _ _ =>
            { state with
              pendingScroll :=
                match state.items[scrollTop.itemIx]?.bind ListItem.sizeHint with
                | some size =>
                    if 0 < size.height then
                      some (.proportional scrollTop.itemIx
                        (fractionOf scrollTop.offsetInItem size.height))
                    else none
                | none => none }

/-- Sets the scroll position, and anchors a pending adjustment to it. -/
def rebaseTo (scrollTop : ListOffset X) : StateInner X F :=
  { state.rebasePendingScroll scrollTop with logicalScrollTop := some scrollTop }

/-- The position past the last item. -/
def endOffset : ListOffset X :=
  ⟨state.items.length, 0⟩

def setOffsetFromScrollbar (point : Point X) : StateInner X F :=
  match state.lastLayoutBounds with
  | none => state
  | some bounds =>
      let height := bounds.size.height
      let padding := state.lastPadding.getD ⟨0, 0, 0, 0⟩
      let contentHeight := state.scrollbarDragStartHeight.getD (totalHeight state.items)
      let scrollMax := max (contentHeight + padding.top + padding.bottom - height) 0
      let newScrollTop := min (max (-point.y) 0) scrollMax
      let draggedToEnd := 0 < scrollMax ∧ max (scrollMax - 1) 0 ≤ newScrollTop
      if draggedToEnd ∧ state.followState ≠ .normal then
        { state with
          followState := .tail true
          pendingScroll := none
          logicalScrollTop := some state.endOffset }
      else
        let state := { state with followState := state.followState.stopFollowing }
        if state.alignment = .bottom ∧ newScrollTop = scrollMax then
          { state with pendingScroll := none, logicalScrollTop := none }
        else
          let start := seekHeightRight state.items newScrollTop
          state.rebaseTo ⟨start.count, newScrollTop - start.height⟩

end StateInner

namespace ListState

variable (state : StateInner X F)

/-- The scroll position after the items of a range were replaced by `count` others. -/
def spliceScrollTop (first last count : Nat) (scrollTop : ListOffset X) : Run (ListOffset X) :=
  if first ≤ scrollTop.itemIx ∧ scrollTop.itemIx < last then .ok ⟨first, 0⟩
  else if last ≤ scrollTop.itemIx then
    if last < first then .error .subOverflow
    else .ok { scrollTop with itemIx := scrollTop.itemIx - (last - first) + count }
  else .ok scrollTop

def spliceFocusable (first last : Nat) (focusHandles : List (Option F)) :
    Run (StateInner X F) := do
  let items ← replaceItems state.items first last
    (focusHandles.map (fun focusHandle => .unmeasured none focusHandle))
  let state := { state with items := items }
  match state.logicalScrollTop with
  | none => return state
  | some scrollTop => do
      let scrollTop ← spliceScrollTop first last focusHandles.length scrollTop
      return { state with logicalScrollTop := some scrollTop }

def splice (first last count : Nat) : Run (StateInner X F) :=
  spliceFocusable state first last (List.replicate count none)

def new (itemCount : Nat) (alignment : ListAlignment) (overdraw : X) : Run (StateInner X F) :=
  splice
    { lastLayoutBounds := none
      lastPadding := none
      items := []
      logicalScrollTop := none
      alignment := alignment
      overdraw := overdraw
      reset := false
      scrollbarDragStartHeight := none
      measuringBehavior := .visible
      pendingScroll := none
      followState := .normal } 0 0 itemCount

def reset (elementCount : Nat) : Run (StateInner X F) :=
  splice
    { state with
      reset := true
      measuringBehavior := state.measuringBehavior.reset
      logicalScrollTop := none
      pendingScroll := none
      scrollbarDragStartHeight := none } 0 state.items.length elementCount

/-- The adjustment that stays pending when the item at the scroll top is invalidated. -/
def anchorPendingScroll (scrollTop : ListOffset X) (scrollAnchor : ScrollAnchor) :
    Option (PendingScroll X) :=
  match scrollAnchor with
  | .absolute => some (.absolute scrollTop.itemIx scrollTop.offsetInItem)
  | .proportional =>
      match state.items[scrollTop.itemIx]?.bind ListItem.size with
      | some size =>
          some (.proportional scrollTop.itemIx
            (if 0 < size.height then fractionOf scrollTop.offsetInItem size.height else 0))
      | none => state.pendingScroll

def remeasureItemsWithScrollAnchor (first last : Nat) (scrollAnchor : ScrollAnchor) :
    Run (StateInner X F) := do
  let pendingScroll := match state.logicalScrollTop with
    | some scrollTop =>
        if first ≤ scrollTop.itemIx ∧ scrollTop.itemIx < last then
          anchorPendingScroll state scrollTop scrollAnchor
        else state.pendingScroll
    | none => state.pendingScroll
  let items ← replaceItems state.items first last
    (((state.items.take last).drop first).map ListItem.invalidate)
  return { state with
    pendingScroll := pendingScroll
    items := items
    measuringBehavior := state.measuringBehavior.reset }

def remeasure : Run (StateInner X F) :=
  remeasureItemsWithScrollAnchor state 0 state.items.length .proportional

def remeasureItems (first last : Nat) : Run (StateInner X F) :=
  remeasureItemsWithScrollAnchor state first last .absolute

def scrollBy (distance : X) : Run (StateInner X F) :=
  if distance = 0 then .ok state
  else
    let currentOffset := state.getLogicalScrollTop
    let state := if distance < 0 then
        { state with followState := state.followState.stopFollowing }
      else state
    let start := seekCount state.items currentOffset.itemIx
    let startPixelOffset := start.height + currentOffset.offsetInItem
    let newPixelOffset := max (startPixelOffset + distance) 0
    if startPixelOffset < newPixelOffset ∧ newPixelOffset < start.height then
      .error .cannotSeekBackward
    else
      let position := if startPixelOffset < newPixelOffset then
          seekItems (fun position => position.height ≤ newPixelOffset) start
            (state.items.drop start.count)
        else seekHeightRight state.items newPixelOffset
      .ok (state.rebaseTo ⟨position.count, newPixelOffset - position.height⟩)

def scrollToEnd : StateInner X F :=
  { state with pendingScroll := none, logicalScrollTop := some state.endOffset }

def setFollowMode (mode : FollowMode) : StateInner X F :=
  match mode with
  | .normal => { state with followState := .normal }
  | .tail   =>
      { state with followState := .tail true, logicalScrollTop := some state.endOffset }

def scrollTo (scrollTop : ListOffset X) : StateInner X F :=
  let itemCount := state.items.length
  let scrollTop := if itemCount ≤ scrollTop.itemIx then ⟨itemCount, 0⟩ else scrollTop
  let state := if scrollTop.itemIx < itemCount then
      { state with followState := state.followState.stopFollowing }
    else state
  state.rebaseTo scrollTop

def scrollToRevealItem (ix : Nat) : StateInner X F :=
  let scrollTop := state.getLogicalScrollTop
  let height := (state.lastLayoutBounds.map (fun bounds => bounds.size.height)).getD 0
  let padding := state.lastPadding.getD ⟨0, 0, 0, 0⟩
  let scrollTop : ListOffset X :=
    if ix ≤ scrollTop.itemIx then ⟨ix, 0⟩
    else
      let bottom := (seekCount state.items (ix + 1)).height + padding.top
      let goalTop := max 0 (bottom - height + padding.bottom)
      let start := seekHeightLeft state.items goalTop
      if scrollTop.itemIx ≤ start.count then ⟨start.count, goalTop - start.height⟩
      else scrollTop
  state.rebaseTo scrollTop

/-- An item without a size gets a hint. -/
def applyUniformItemHeight (height : X) : StateInner X F :=
  { state with
    items := state.items.map (fun item =>
      .unmeasured (some (item.sizeHint.getD ⟨0, height⟩)) item.focusHandle) }

def scrollbarDragStarted : StateInner X F :=
  { state with scrollbarDragStartHeight := some (totalHeight state.items) }

def scrollbarDragEnded : StateInner X F :=
  { state with scrollbarDragStartHeight := none }

/-! ## Runs -/

inductive Op (X F : Type) where
  | spliceFocusable (first last : Nat) (focusHandles : List (Option F))
  | reset (elementCount : Nat)
  | remeasure
  | remeasureItems (first last : Nat)
  | scrollBy (distance : X)
  | scrollTo (scrollTop : ListOffset X)
  | scrollToEnd
  | scrollToRevealItem (ix : Nat)
  | setFollowMode (mode : FollowMode)
  | setOffsetFromScrollbar (point : Point X)
  | applyUniformItemHeight (height : X)
  | scrollbarDragStarted
  | scrollbarDragEnded

def apply (state : StateInner X F) : Op X F → Run (StateInner X F)
  | .spliceFocusable first last focusHandles => spliceFocusable state first last focusHandles
  | .reset elementCount                      => reset state elementCount
  | .remeasure                               => remeasure state
  | .remeasureItems first last               => remeasureItems state first last
  | .scrollBy distance                       => scrollBy state distance
  | .scrollTo scrollTop                      => .ok (scrollTo state scrollTop)
  | .scrollToEnd                             => .ok (scrollToEnd state)
  | .scrollToRevealItem ix                   => .ok (scrollToRevealItem state ix)
  | .setFollowMode mode                      => .ok (setFollowMode state mode)
  | .setOffsetFromScrollbar point            => .ok (state.setOffsetFromScrollbar point)
  | .applyUniformItemHeight height           => .ok (applyUniformItemHeight state height)
  | .scrollbarDragStarted                    => .ok (scrollbarDragStarted state)
  | .scrollbarDragEnded                      => .ok (scrollbarDragEnded state)

end ListState

end Gpui
