import Gpui.Elements.ListTree
import Gpui.SumTree.FilterCursor

/-! # The layout of a list: the model

    `layout_items` renders the items from the scroll position on, until the viewport is
    full; if the items end before that, it takes items from above and moves the scroll
    position up.  On both sides some more items are measured, and all that were measured
    take their places in the tree. -/

namespace Gpui

def FollowState.hasStoppedFollowing : FollowState → Bool
  | .tail isFollowing => !isFollowing
  | .normal           => false

def FollowState.startFollowing : FollowState → FollowState
  | .tail false => .tail true
  | state       => state

open Exec (Next loop)

/-- What the list is drawn with: the element of an item, the size that it takes in some
    width, and whether the focus is within a focus handle. -/
structure ItemRenderer (X F E : Type) where
  renderItem : Nat → E
  layoutAsRoot : E → Option X → Size X
  containsFocused : F → Bool

structure ItemLayout (X E : Type) where
  index : Nat
  element : E
  size : Size X

structure LayoutItemsResponse (X E : Type) where
  maxItemWidth : X
  scrollTop : ListOffset X
  itemLayouts : List (ItemLayout X E)

/-- What `layout_items` has measured and rendered so far. -/
structure ItemsLayout (X F E : Type) where
  measuredItems : List (ListItem X F)
  itemLayouts : List (ItemLayout X E)
  renderedHeight : X
  maxItemWidth : X
  renderedFocusedItem : Bool

variable {X F E : Type} [Field X]

def ListItem.containsFocused (renderer : ItemRenderer X F E) (item : ListItem X F) : Bool :=
  item.focusHandle.any renderer.containsFocused

/-- The size of an item when it is rendered. -/
def ItemRenderer.measure (renderer : ItemRenderer X F E) (availableWidth : Option X)
    (itemIndex : Nat) : Size X :=
  renderer.layoutAsRoot (renderer.renderItem itemIndex) availableWidth

/-- The layout of an item that is rendered. -/
def ItemRenderer.layout (renderer : ItemRenderer X F E) (availableWidth : Option X)
    (itemIndex : Nat) : ItemLayout X E where
  index := itemIndex
  element := renderer.renderItem itemIndex
  size := renderer.measure availableWidth itemIndex

namespace ListTree

variable [LinearOrder X] (renderer : ItemRenderer X F E) (availableWidth : Option X)
  (availableHeight : X)

/-! ## From the scroll position on -/

structure Rendering (X F E : Type) where
  list : ListTree X F
  cursor : Cursor (ListItem X F) (ListItemSummary X) Count
  ix : Nat
  scrollTop : ListOffset X
  layout : ItemsLayout X F E

/-- A pending adjustment is made when the item at the scroll position is measured. -/
def applyPendingScroll (list : ListTree X F) (scrollTop : ListOffset X)
    (elementSize : Size X) : ListTree X F × ListOffset X :=
  match list.pendingScroll with
  | none => (list, scrollTop)
  | some pendingScroll =>
      let list := { list with pendingScroll := none }
      match pendingScroll with
      | .absolute itemIx offset =>
          if itemIx = scrollTop.itemIx then
            let scrollTop := { scrollTop with offsetInItem := min offset elementSize.height }
            ({ list with logicalScrollTop := some scrollTop }, scrollTop)
          else (list, scrollTop)
      | .proportional itemIx fraction =>
          if itemIx = scrollTop.itemIx then
            let scrollTop := { scrollTop with offsetInItem := fraction * elementSize.height }
            ({ list with logicalScrollTop := some scrollTop }, scrollTop)
          else (list, scrollTop)

/-- An item is rendered, because it is visible or has no size. -/
def renderItem (visible : Bool) (item : ListItem X F) (st : Rendering X F E) :
    Rendering X F E × Option (Size X) :=
  let itemIndex := st.scrollTop.itemIx + st.ix
  let elementSize := renderer.measure availableWidth itemIndex
  let (list, scrollTop) :=
    if st.ix = 0 then applyPendingScroll st.list st.scrollTop elementSize
    else (st.list, st.scrollTop)
  let layout :=
    if visible then
      { st.layout with
        itemLayouts := st.layout.itemLayouts ++ [renderer.layout availableWidth itemIndex]
        renderedFocusedItem := st.layout.renderedFocusedItem || item.containsFocused renderer }
    else st.layout
  ({ st with list := list, scrollTop := scrollTop, layout := layout }, some elementSize)

/-- One pass of the loop that renders the items after the scroll top. -/
def renderStep (st : Rendering X F E) : Run (Next (Rendering X F E) (Rendering X F E)) := do
  let (item, cursor) ← st.cursor.iterNext
  let st := { st with cursor := cursor }
  match item with
  | none => return .done st
  | some item =>
      let visibleHeight := st.layout.renderedHeight - st.scrollTop.offsetInItem
      if availableHeight + st.list.overdraw ≤ visibleHeight then return .done st
      else do
        let (st, size) :=
          if visibleHeight < availableHeight ∨ item.size.isNone then
            renderItem renderer availableWidth (visibleHeight < availableHeight) item st
          else (st, item.size)
        match size with
        | none => throw .unwrapNone
        | some size =>
            let layout :=
              { st.layout with
                renderedHeight := st.layout.renderedHeight + size.height
                maxItemWidth := max st.layout.maxItemWidth size.width
                measuredItems := st.layout.measuredItems ++ [.measured size item.focusHandle] }
            return .again { st with ix := st.ix + 1, layout := layout }

/-- Renders the items after the scroll top, including those in the trailing overdraw. -/
def renderItems (list : ListTree X F) (scrollTop : ListOffset X) (padding : Edges X) :
    Run (Rendering X F E) := do
  let cursor : Cursor (ListItem X F) (ListItemSummary X) Count := .new list.items
  let (cursor, _) ← cursor.seek (Count.target scrollTop.itemIx) .right
  loop .loopBound (renderStep renderer availableWidth availableHeight) list.items.size
    { list := list
      cursor := cursor
      ix := 0
      scrollTop := scrollTop
      layout :=
        { measuredItems := []
          itemLayouts := []
          renderedHeight := padding.top
          maxItemWidth := 0
          renderedFocusedItem := false } }

/-! ## From above -/

structure Filling (X F E : Type) where
  cursor : Cursor (ListItem X F) (ListItemSummary X) Count
  layout : ItemsLayout X F E

/-- One pass of the loop that fills the viewport from above. -/
def fillStep (st : Filling X F E) : Run (Next (Filling X F E) (Filling X F E)) :=
  if st.layout.renderedHeight < availableHeight then do
    let cursor ← st.cursor.prev
    match ← cursor.item with
    | none => return .done { st with cursor := cursor }
    | some item =>
        let itemIndex := cursor.start.value
        let elementSize := renderer.measure availableWidth itemIndex
        return .again
          { cursor := cursor
            layout :=
              { st.layout with
                renderedHeight := st.layout.renderedHeight + elementSize.height
                measuredItems := .measured elementSize item.focusHandle :: st.layout.measuredItems
                itemLayouts := renderer.layout availableWidth itemIndex :: st.layout.itemLayouts
                renderedFocusedItem :=
                  st.layout.renderedFocusedItem || item.containsFocused renderer } }
  else return .done st

/-- If the items from the scroll position on do not fill the viewport, the scroll position
    is moved up. -/
def fillViewport (oldItems : SumTree (ListItem X F) (ListItemSummary X)) (list : ListTree X F)
    (scrollTop : ListOffset X) (st : Filling X F E) :
    Run (ListTree X F × ListOffset X × Filling X F E) :=
  if st.layout.renderedHeight - scrollTop.offsetInItem < availableHeight then do
    let st ← loop .loopBound (fillStep renderer availableWidth availableHeight) oldItems.size st
    let offsetInItem := st.layout.renderedHeight - availableHeight
    match list.alignment with
    | .top =>
        let scrollTop : ListOffset X := ⟨st.cursor.start.value, max offsetInItem 0⟩
        return ({ list with logicalScrollTop := some scrollTop }, scrollTop, st)
    | .bottom =>
        let scrollTop : ListOffset X := ⟨st.cursor.start.value, offsetInItem⟩
        return ({ list with logicalScrollTop := none }, scrollTop, st)
  else return (list, scrollTop, st)

structure Leading (X F : Type) where
  cursor : Cursor (ListItem X F) (ListItemSummary X) Count
  measuredItems : List (ListItem X F)
  leadingOverdraw : X

/-- One pass of the loop that measures items in the leading overdraw. -/
def measureStep (overdraw : X) (st : Leading X F) : Run (Next (Leading X F) (Leading X F)) :=
  if st.leadingOverdraw < overdraw then do
    let cursor ← st.cursor.prev
    match ← cursor.item with
    | none => return .done { st with cursor := cursor }
    | some item =>
        let size := match item with
          | .measured size _ => size
          | .unmeasured _ _  => renderer.measure availableWidth cursor.start.value
        return .again
          { cursor := cursor
            measuredItems := .measured size item.focusHandle :: st.measuredItems
            leadingOverdraw := st.leadingOverdraw + size.height }
  else return .done st

/-! ## The new tree -/

/-- The measured items take the places from `first` on. -/
def spliceMeasured (oldItems : SumTree (ListItem X F) (ListItemSummary X)) (first : Nat)
    (measuredItems : List (ListItem X F)) :
    Run (SumTree (ListItem X F) (ListItemSummary X)) := do
  let cursor : Cursor (ListItem X F) (ListItemSummary X) Count := .new oldItems
  let (cursor, newItems) ← cursor.slice (Count.target first) .right
  let newItems ← newItems.extend measuredItems
  let (cursor, _) ← cursor.seek (Count.target (first + measuredItems.length)) .right
  let (_, suffix) ← cursor.suffix
  newItems.append suffix

/-- A list that stopped following its tail follows it again when it shows the end. -/
def resumeFollowing (list : ListTree X F) (scrollTop : ListOffset X) : ListTree X F :=
  if list.followState.hasStoppedFollowing then
    let padding := list.lastPadding.getD ⟨0, 0, 0, 0⟩
    let totalHeight := list.items.summary.height + padding.top + padding.bottom
    let scrollOffset := list.scrollTop scrollTop
    if totalHeight - 1 ≤ scrollOffset + availableHeight then
      { list with followState := list.followState.startFollowing }
    else list
  else list

/-! ## A focused item out of sight -/

abbrev FocusCursor (X F : Type) [Field X] : Type :=
  FilterCursor (ListItem X F) (ListItemSummary X) Count

def focusStep (cursor : FocusCursor X F) :
    Run (Next (FocusCursor X F) (Option (ItemLayout X E))) := do
  match ← cursor.item with
  | none => return .done none
  | some item =>
      if item.containsFocused renderer then
        return .done (some (renderer.layout availableWidth cursor.start.value))
      else do
        let cursor ← cursor.next
        return .again cursor

/-- The focused item, if there is one. -/
def layoutFocused (items : SumTree (ListItem X F) (ListItemSummary X)) :
    Run (Option (ItemLayout X E)) := do
  let cursor ← (FilterCursor.new items (fun summary => summary.hasFocusHandles) :
    FocusCursor X F).next
  loop .loopBound (focusStep renderer availableWidth) items.size cursor

/-! ## `layout_items` -/

/-- The scroll position to start from: the end, while the list follows its tail. -/
def startScrollTop (list : ListTree X F) : ListTree X F × ListOffset X :=
  if list.followState.isFollowing then
    let scrollTop : ListOffset X := ⟨list.items.summary.count, 0⟩
    ({ list with logicalScrollTop := some scrollTop }, scrollTop)
  else (list, list.getLogicalScrollTop)

def layoutItems (list : ListTree X F) (padding : Edges X) :
    Run (ListTree X F × LayoutItemsResponse X E) := do
  let oldItems := list.items
  let (list, scrollTop) := list.startScrollTop
  let rendering ← renderItems renderer availableWidth availableHeight list scrollTop padding
  let scrollTop := rendering.scrollTop
  let layout :=
    { rendering.layout with
      renderedHeight := rendering.layout.renderedHeight + padding.bottom }
  -- the way up starts from the item at the scroll position
  let (cursor, _) ← rendering.cursor.seek (Count.target scrollTop.itemIx) .right
  let (list, scrollTop, filling) ← fillViewport renderer availableWidth availableHeight oldItems
    rendering.list scrollTop ⟨cursor, layout⟩
  let layout := filling.layout
  let leading ← loop .loopBound (measureStep renderer availableWidth list.overdraw) oldItems.size
    ⟨filling.cursor, layout.measuredItems, scrollTop.offsetInItem⟩
  let items ← spliceMeasured oldItems leading.cursor.start.value leading.measuredItems
  let list := resumeFollowing availableHeight { list with items := items } scrollTop
  let focused ←
    if layout.renderedFocusedItem then pure none
    else layoutFocused renderer availableWidth list.items
  return (list,
    { maxItemWidth := layout.maxItemWidth
      scrollTop := scrollTop
      itemLayouts := layout.itemLayouts ++ focused.toList })

end ListTree

end Gpui
