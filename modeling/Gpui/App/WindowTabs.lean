import Gpui.Lib.Machine
import Gpui.Lib.StableSort

/-! # System window tabs: the model

    The windows of an application are tabs, and the controller keeps which tabs are in one
    group.  The groups are the values of a map with numbers as keys.  The map goes through
    its entries in an order of its own, so the entries are a list that may be put into
    another order at any time. -/

namespace Gpui

open StableSort

structure AnyWindowHandle where
  id : Nat
  stateType : Nat
deriving DecidableEq, Repr

structure SystemWindowTab where
  id : Nat
  title : String
  handle : AnyWindowHandle
  lastActiveAt : Nat
deriving DecidableEq, Repr

/-- `tab_groups`: the groups with their keys. -/
abbrev TabGroups := List (Nat × List SystemWindowTab)

namespace TabGroups

/-- The ids of the tabs of a list. -/
def idsOf (tabs : List SystemWindowTab) : List Nat := tabs.map SystemWindowTab.id

/-- The ids of all groups. -/
def ids (groups : TabGroups) : List Nat := groups.flatMap (fun group => idsOf group.2)

/-- `insert`, which replaces the value of a key that is there. -/
def insert (groups : TabGroups) (key : Nat) (tabs : List SystemWindowTab) : TabGroups :=
  (key, tabs) :: groups.filter (fun group => group.1 ≠ key)

/-- The first group that has a tab of the window. -/
def tabs (groups : TabGroups) (id : Nat) : Option (List SystemWindowTab) :=
  (groups.map Prod.snd).find? (fun tabs => tabs.any (fun tab => tab.id = id))

/-- A tab is taken out of its place and put into another. -/
def moveTo (tabs : List SystemWindowTab) (currentPos ix : Nat) : List SystemWindowTab :=
  if ix < tabs.length ∧ currentPos ≠ ix then
    match tabs[currentPos]? with
    | none     => tabs
    | some tab => (tabs.eraseIdx currentPos).insertIdx ix tab
  else tabs

def updateTabPosition (id ix : Nat) : TabGroups → TabGroups
  | []                    => []
  | (key, tabs) :: groups =>
      match tabs.findIdx? (fun tab => tab.id = id) with
      | some currentPos => (key, moveTo tabs currentPos ix) :: groups
      | none            => (key, tabs) :: updateTabPosition id ix groups

/-- The ids of the other tabs, sorted. -/
def expectedTabIds (id : Nat) (tabs : List SystemWindowTab) : List Nat :=
  sortByKey (fun id => id) (idsOf (tabs.filter (fun tab => tab.id ≠ id)))

/-- The key of the first group that has exactly the other tabs. -/
def tabGroupId (groups : TabGroups) (id : Nat) (tabs : List SystemWindowTab) : Option Nat :=
  (groups.find? (fun group => sortByKey (fun id => id) (idsOf group.2) = expectedTabIds id tabs)).map
    Prod.fst

/-- `push` on the value of a key. -/
def pushTab (groups : TabGroups) (key : Nat) (tab : SystemWindowTab) : TabGroups :=
  groups.map (fun group => if group.1 = key then (group.1, group.2 ++ [tab]) else group)

def addTab (groups : TabGroups) (id : Nat) (tabs : List SystemWindowTab) : TabGroups :=
  match tabs.find? (fun tab => tab.id = id) with
  | none     => groups
  | some tab =>
      match groups.tabGroupId id tabs with
      | some tabGroupId => groups.pushTab tabGroupId tab
      -- the new key is the number of groups
      | none            => groups.insert groups.length tabs

/-- `retain`, with the tab it takes out. -/
def removeTab (groups : TabGroups) (id : Nat) : Option SystemWindowTab × TabGroups :=
  (groups.foldl (fun removed group => (group.2.find? (fun tab => tab.id = id)).or removed) none,
    (groups.map (fun group => (group.1, group.2.eraseP (fun tab => tab.id = id)))).filter
      (fun group => !group.2.isEmpty))

def moveTabToNewWindow (groups : TabGroups) (id : Nat) : TabGroups :=
  let removed := groups.removeTab id
  match removed.1 with
  | none     => removed.2
  -- the new key is above all others
  | some tab => removed.2.insert ((removed.2.map Prod.fst).max?.elim 0 (· + 1)) [tab]

def mergeAllWindows (groups : TabGroups) (id : Nat) : TabGroups :=
  match groups.tabs id with
  | none             => groups
  | some initialTabs =>
      [(0, initialTabs ++
        groups.flatMap (fun group => group.2.filter (fun tab => tab ∉ initialTabs)))]

end TabGroups

/-! ### The runs -/

/-- The controller, with the windows that were added and not removed. -/
structure TabController where
  tabGroups : TabGroups
  windows : List Nat

namespace TabController

inductive Action where
  | addTab (id : Nat) (tabs : List SystemWindowTab)
  | removeTab (id : Nat)
  | moveTabToNewWindow (id : Nat)
  | mergeAllWindows (id : Nat)
  | updateTabPosition (id ix : Nat)
  /-- The map has its entries in another order. -/
  | reorder (groups : TabGroups)

/-- How `add_tab` is called: for a window that is in no group, with its own tab and those of
    exactly one group, or of windows that are in none. -/
structure Called (groups : TabGroups) (id : Nat) (tabs : List SystemWindowTab) : Prop where
  new : id ∉ groups.ids
  nodup : (TabGroups.idsOf tabs).Nodup
  own : id ∈ TabGroups.idsOf tabs
  others :
    (∃ group ∈ groups, (TabGroups.idsOf group.2).Perm
      (TabGroups.idsOf (tabs.filter (fun tab => tab.id ≠ id)))) ∨
    ∀ tab ∈ tabs, tab.id ≠ id → tab.id ∉ groups.ids

instance (groups : TabGroups) (id : Nat) (tabs : List SystemWindowTab) :
    Decidable (Called groups id tabs) :=
  decidable_of_iff
    (id ∉ groups.ids ∧ (TabGroups.idsOf tabs).Nodup ∧ id ∈ TabGroups.idsOf tabs ∧
      ((∃ group ∈ groups, (TabGroups.idsOf group.2).Perm
        (TabGroups.idsOf (tabs.filter (fun tab => tab.id ≠ id)))) ∨
      ∀ tab ∈ tabs, tab.id ≠ id → tab.id ∉ groups.ids))
    ⟨fun ⟨hnew, hnodup, hown, hothers⟩ => ⟨hnew, hnodup, hown, hothers⟩,
      fun h => ⟨h.new, h.nodup, h.own, h.others⟩⟩

def new : TabController := ⟨[], []⟩

def apply (s : TabController) : Action → TabController
  | .addTab id tabs          => ⟨s.tabGroups.addTab id tabs, s.windows ++ TabGroups.idsOf tabs⟩
  | .removeTab id            => ⟨(s.tabGroups.removeTab id).2, s.windows.filter (· ≠ id)⟩
  | .moveTabToNewWindow id   => ⟨s.tabGroups.moveTabToNewWindow id, s.windows⟩
  | .mergeAllWindows id      => ⟨s.tabGroups.mergeAllWindows id, s.windows⟩
  | .updateTabPosition id ix => ⟨s.tabGroups.updateTabPosition id ix, s.windows⟩
  | .reorder groups          => ⟨groups, s.windows⟩

/-- The actions that are possible. -/
def possible (s : TabController) : Action → Bool
  | .addTab id tabs => decide (Called s.tabGroups id tabs)
  | .reorder groups => decide (groups.Perm s.tabGroups)
  | _               => true

def step (s : TabController) (a : Action) : Option (Except Empty TabController) :=
  if s.possible a then some (.ok (s.apply a)) else none

def machine : Machine Empty TabController Action where
  start := new
  step := step

/-- No group is empty, and the groups have the windows that were added and not removed,
    each once. -/
structure Kept (s : TabController) : Prop where
  nonempty : ∀ group ∈ s.tabGroups, group.2 ≠ []
  once : s.tabGroups.ids.Nodup
  exact : ∀ id, id ∈ s.tabGroups.ids ↔ id ∈ s.windows

/-- A tab that starts a group is only added while the number of groups is not the key of a
    group. -/
def Heeds (s : TabController) : Action → Prop
  | .addTab id tabs =>
      s.tabGroups.tabGroupId id tabs = none → ∀ group ∈ s.tabGroups, group.1 ≠ s.tabGroups.length
  | _ => True

end TabController

end Gpui
