import Gpui.Elements.ListState
import Gpui.SumTree.Find

/-! # The state of a list element: the tree of the items

    The items of a list lie in a `SumTree`, whose summaries count the items and add up
    their heights.  Here `splice` and `scroll_by` go through that tree with cursors, as
    the code does; `toInner` forgets the tree and leaves the plain list in it. -/

namespace Gpui

/-! ## Summaries and targets -/

@[ext]
structure ListItemSummary (X : Type) where
  count : Nat
  renderedCount : Nat
  unrenderedCount : Nat
  height : X
  hasFocusHandles : Bool
  hasUnknownHeight : Bool

/-- The dimension of a cursor that counts items. -/
@[ext]
structure Count where
  value : Nat
deriving DecidableEq

variable {X F : Type} [Field X]

def ListItem.summary : ListItem X F → ListItemSummary X
  | .unmeasured sizeHint focusHandle =>
      { count := 1
        renderedCount := 0
        unrenderedCount := 1
        height := match sizeHint with
          | some size => size.height
          | none      => 0
        hasFocusHandles := focusHandle.isSome
        hasUnknownHeight := sizeHint.isNone }
  | .measured size focusHandle =>
      { count := 1
        renderedCount := 1
        unrenderedCount := 0
        height := size.height
        hasFocusHandles := focusHandle.isSome
        hasUnknownHeight := false }

instance : Summary (ListItemSummary X) where
  zero := ⟨0, 0, 0, 0, false, false⟩
  addSummary self summary :=
    { count := self.count + summary.count
      renderedCount := self.renderedCount + summary.renderedCount
      unrenderedCount := self.unrenderedCount + summary.unrenderedCount
      height := self.height + summary.height
      hasFocusHandles := self.hasFocusHandles || summary.hasFocusHandles
      hasUnknownHeight := self.hasUnknownHeight || summary.hasUnknownHeight }

instance : Item (ListItem X F) (ListItemSummary X) where
  summary := ListItem.summary

instance : Dimension Count (ListItemSummary X) where
  zero := ⟨0⟩
  addSummary self summary := ⟨self.value + summary.count⟩

/-- `Count(count)`, for a cursor that counts items. -/
def Count.target (count : Nat) : SeekTarget Count :=
  fun position => cmp count position.value

/-- `Count(count)`, for a cursor over the whole summary. -/
def Count.targetSummary (count : Nat) : SeekTarget (ListItemSummary X) :=
  fun position => cmp count position.count

/-- `Height(height)` -/
def Height.targetSummary [LinearOrder X] (height : X) : SeekTarget (ListItemSummary X) :=
  fun position => cmp height position.height

/-! ## The state -/

/-- The fields of a list's state, with the items in their tree. -/
structure ListTree (X F : Type) where
  lastLayoutBounds : Option (Bounds X)
  lastPadding : Option (Edges X)
  items : SumTree (ListItem X F) (ListItemSummary X)
  logicalScrollTop : Option (ListOffset X)
  alignment : ListAlignment
  overdraw : X
  reset : Bool
  scrollbarDragStartHeight : Option X
  measuringBehavior : ListMeasuringBehavior
  pendingScroll : Option (PendingScroll X)
  followState : FollowState

namespace ListTree

/-- The state with the items in a list. -/
def toInner (state : ListTree X F) : StateInner X F where
  lastLayoutBounds := state.lastLayoutBounds
  lastPadding := state.lastPadding
  items := state.items.toList
  logicalScrollTop := state.logicalScrollTop
  alignment := state.alignment
  overdraw := state.overdraw
  reset := state.reset
  scrollbarDragStartHeight := state.scrollbarDragStartHeight
  measuringBehavior := state.measuringBehavior
  pendingScroll := state.pendingScroll
  followState := state.followState

/-- The new tree of `splice_focusable`: a slice up to the range, the new items, and what
    is left behind the range. -/
def spliceItems (items : SumTree (ListItem X F) (ListItemSummary X)) (first last : Nat)
    (replacement : List (ListItem X F)) : Run (SumTree (ListItem X F) (ListItemSummary X)) := do
  let oldItems : Cursor (ListItem X F) (ListItemSummary X) Count := .new items
  let (oldItems, newItems) ← oldItems.slice (Count.target first) .right
  let (oldItems, _) ← oldItems.seekForward (Count.target last) .right
  let newItems ← newItems.extend replacement
  let (_, suffix) ← oldItems.suffix
  newItems.append suffix

def spliceFocusable (state : ListTree X F) (first last : Nat)
    (focusHandles : List (Option F)) : Run (ListTree X F) := do
  let items ← spliceItems state.items first last
    (focusHandles.map (fun focusHandle => .unmeasured none focusHandle))
  let state := { state with items := items }
  match state.logicalScrollTop with
  | none => return state
  | some scrollTop => do
      let scrollTop ← ListState.spliceScrollTop first last focusHandles.length scrollTop
      return { state with logicalScrollTop := some scrollTop }

def splice (state : ListTree X F) (first last count : Nat) : Run (ListTree X F) :=
  spliceFocusable state first last (List.replicate count none)

def new (itemCount : Nat) (alignment : ListAlignment) (overdraw : X) : Run (ListTree X F) :=
  splice
    { lastLayoutBounds := none
      lastPadding := none
      items := .new
      logicalScrollTop := none
      alignment := alignment
      overdraw := overdraw
      reset := false
      scrollbarDragStartHeight := none
      measuringBehavior := .visible
      pendingScroll := none
      followState := .normal } 0 0 itemCount

def getLogicalScrollTop (state : ListTree X F) : ListOffset X :=
  match state.logicalScrollTop with
  | some scrollTop => scrollTop
  | none =>
      match state.alignment with
      | .top    => ⟨0, 0⟩
      | .bottom => ⟨state.items.summary.count, 0⟩

variable [LinearOrder X]

def rebasePendingScroll (state : ListTree X F) (scrollTop : ListOffset X) :
    Run (ListTree X F) :=
  match state.pendingScroll with
  | none => return state
  | some pending =>
      if state.items.summary.count ≤ scrollTop.itemIx then
        return { state with pendingScroll := none }
      else
        match pending with
        | .absolute _ _ =>
            return { state with
              pendingScroll := some (.absolute scrollTop.itemIx scrollTop.offsetInItem) }
        | .proportional _ _ => do
            let cursor : Cursor (ListItem X F) (ListItemSummary X) Count := .new state.items
            let (cursor, _) ← cursor.seek (Count.target scrollTop.itemIx) .right
            let item ← cursor.item
            return { state with
              pendingScroll :=
                match item.bind ListItem.sizeHint with
                | some size =>
                    if 0 < size.height then
                      some (.proportional scrollTop.itemIx
                        (fractionOf scrollTop.offsetInItem size.height))
                    else none
                | none => none }

def scrollBy (state : ListTree X F) (distance : X) : Run (ListTree X F) :=
  if distance = 0 then return state
  else do
    let currentOffset := state.getLogicalScrollTop
    let state := if distance < 0 then
        { state with followState := state.followState.stopFollowing }
      else state
    let cursor : Cursor (ListItem X F) (ListItemSummary X) (ListItemSummary X) := .new state.items
    let (cursor, _) ← cursor.seek (Count.targetSummary currentOffset.itemIx) .right
    let startPixelOffset := cursor.start.height + currentOffset.offsetInItem
    let newPixelOffset := max (startPixelOffset + distance) 0
    let (cursor, _) ←
      if startPixelOffset < newPixelOffset then
        cursor.seekForward (Height.targetSummary newPixelOffset) .right
      else cursor.seek (Height.targetSummary newPixelOffset) .right
    let scrollTop : ListOffset X :=
      ⟨cursor.start.count, newPixelOffset - cursor.start.height⟩
    let state ← state.rebasePendingScroll scrollTop
    return { state with logicalScrollTop := some scrollTop }

def scrollToRevealItem (state : ListTree X F) (ix : Nat) : Run (ListTree X F) := do
  let scrollTop := state.getLogicalScrollTop
  let height := (state.lastLayoutBounds.map (fun bounds => bounds.size.height)).getD 0
  let padding := state.lastPadding.getD ⟨0, 0, 0, 0⟩
  let scrollTop : ListOffset X ←
    if ix ≤ scrollTop.itemIx then pure ⟨ix, 0⟩
    else do
      let cursor : Cursor (ListItem X F) (ListItemSummary X) (ListItemSummary X) :=
        .new state.items
      let (cursor, _) ← cursor.seek (Count.targetSummary (ix + 1)) .right
      let bottom := cursor.start.height + padding.top
      let goalTop := max 0 (bottom - height + padding.bottom)
      let (cursor, _) ← cursor.seek (Height.targetSummary goalTop) .left
      let startIx := cursor.start.count
      let startItemTop := cursor.start.height
      if scrollTop.itemIx ≤ startIx then pure ⟨startIx, goalTop - startItemTop⟩
      else pure scrollTop
  let state ← state.rebasePendingScroll scrollTop
  return { state with logicalScrollTop := some scrollTop }

def maxScrollOffset (state : ListTree X F) : X :=
  let height := state.scrollbarDragStartHeight.getD state.items.summary.height
  max (height - ((state.lastLayoutBounds.map (fun bounds => bounds.size.height)).getD 0)) 0

def scrollPxOffsetForScrollbar (state : ListTree X F) : Run (Point X) :=
  if state.logicalScrollTop = none ∧ state.alignment = .bottom then
    return ⟨0, -state.maxScrollOffset⟩
  else do
    let logicalScrollTop := state.getLogicalScrollTop
    let cursor : Cursor (ListItem X F) (ListItemSummary X) (ListItemSummary X) := .new state.items
    let (_, summary) ← cursor.summary (ListItemSummary X)
      (Count.targetSummary logicalScrollTop.itemIx) .right
    return ⟨0, -(summary.height + logicalScrollTop.offsetInItem)⟩

end ListTree

end Gpui

/-! # A list under the mouse wheel: the model

    A scroll event moves the scroll position that was rendered last, and tells the scroll
    handler which items are visible. -/

namespace Gpui

def FollowState.isFollowing : FollowState → Bool
  | .tail isFollowing => isFollowing
  | .normal           => false

/-- A scroll event in terms of the items.  A range of indices is its start and its end. -/
structure ListScrollEvent where
  visibleRange : Nat × Nat
  count : Nat
  isScrolled : Bool
  isFollowingTail : Bool

variable {X F : Type} [Field X] [LinearOrder X]

namespace ListTree

def visibleRange (items : SumTree (ListItem X F) (ListItemSummary X)) (height : X)
    (scrollTop : ListOffset X) : Run (Nat × Nat) := do
  let cursor : Cursor (ListItem X F) (ListItemSummary X) (ListItemSummary X) := .new items
  let (cursor, _) ← cursor.seek (Count.targetSummary scrollTop.itemIx) .right
  let startY := cursor.start.height + scrollTop.offsetInItem
  let (cursor, _) ← cursor.seekForward (Height.targetSummary (startY + height)) .left
  return (scrollTop.itemIx, cursor.start.count + 1)

/-- The pixel position of a scroll position. -/
def scrollTop (state : ListTree X F) (logicalScrollTop : ListOffset X) : X :=
  let (start, _, _) := state.items.find (D := ListItemSummary X)
    (Count.targetSummary logicalScrollTop.itemIx) .right
  start.height + logicalScrollTop.offsetInItem

/-- How far a list with padding can be scrolled in a viewport. -/
def scrollMax (state : ListTree X F) (height : X) : X :=
  let padding := state.lastPadding.getD ⟨0, 0, 0, 0⟩
  max (state.items.summary.height + padding.top + padding.bottom - height) 0

/-- The pixel position that a scroll event moves the list to. -/
def newScrollTop (state : ListTree X F) (scrollTop : ListOffset X) (height : X)
    (delta : Point X) : X :=
  min (max (state.scrollTop scrollTop - delta.y) 0) (state.scrollMax height)

/-- Moves the list to a pixel position, at its end to none if it is aligned there. -/
def moveTo (state : ListTree X F) (newScrollTop height : X) : Run (ListTree X F) :=
  if state.alignment = .bottom ∧ newScrollTop = state.scrollMax height then
    return { state with pendingScroll := none, logicalScrollTop := none }
  else do
    let (start, _, _) := state.items.find (D := ListItemSummary X)
      (Height.targetSummary newScrollTop) .right
    let scrollTop : ListOffset X := ⟨start.count, newScrollTop - start.height⟩
    let state ← state.rebasePendingScroll scrollTop
    return { state with logicalScrollTop := some scrollTop }

/-- What the scroll handler is told of a list. -/
def scrollEvent (state : ListTree X F) (visibleRange : Nat × Nat) : ListScrollEvent where
  visibleRange := visibleRange
  count := state.items.summary.count
  isScrolled := state.logicalScrollTop.isSome
  isFollowingTail := state.followState.isFollowing

/-- `scroll`, with the event that is handed to the scroll handler. -/
def scroll (state : ListTree X F) (hasScrollHandler : Bool) (scrollTop : ListOffset X)
    (height : X) (delta : Point X) : Run (ListTree X F × Option ListScrollEvent) :=
  -- without the heights of the items there is no new position
  if state.reset then return (state, none)
  else do
    let state ← state.moveTo (state.newScrollTop scrollTop height delta) height
    let state :=
      { state with
        followState :=
          if 0 < delta.y then state.followState.stopFollowing else state.followState }
    if hasScrollHandler then
      -- `scrollTop` is the position before the event
      let visibleRange ← visibleRange state.items height scrollTop
      return (state, some (state.scrollEvent visibleRange))
    else return (state, none)

end ListTree

end Gpui
