import Gpui.App.WindowTabs

/-! # No window tab is lost or doubled

    Every operation keeps the groups apart and none of them empty, and changes which windows
    they have as it should, with one exception: `add_tab` takes the number of groups as the
    key of a new one, and once a group is gone that number can be the key of another group,
    which is replaced. -/

namespace Gpui

open List

open StableSort

namespace TabGroups

/-! ### Groups that are apart -/

/-- The keys differ, no group is empty, and no window is in the groups twice. -/
structure Apart (groups : TabGroups) : Prop where
  keys : (groups.map Prod.fst).Nodup
  nonempty : ∀ group ∈ groups, group.2 ≠ []
  once : groups.ids.Nodup

@[simp] theorem ids_nil : ids [] = [] := rfl

@[simp] theorem ids_cons (group : Nat × List SystemWindowTab) (groups : TabGroups) :
    ids (group :: groups) = idsOf group.2 ++ groups.ids := rfl

variable {groups : TabGroups} {id key : Nat} {tabs : List SystemWindowTab}

theorem mem_ids :
    id ∈ groups.ids ↔ ∃ group ∈ groups, id ∈ idsOf group.2 :=
  mem_flatMap

variable {groups' : TabGroups} {group : Nat × List SystemWindowTab}

theorem ids_perm (h : groups.Perm groups') : groups.ids.Perm groups'.ids :=
  h.flatMap_right _

theorem Apart.perm (h : groups.Apart) (hperm : groups.Perm groups') :
    groups'.Apart where
  keys := (hperm.map Prod.fst).nodup_iff.1 h.keys
  nonempty := fun group hgroup => h.nonempty group (hperm.mem_iff.2 hgroup)
  once := (ids_perm hperm).nodup_iff.1 h.once

theorem apart_cons :
    Apart (group :: groups) ↔
      group.1 ∉ groups.map Prod.fst ∧ group.2 ≠ [] ∧ (idsOf group.2).Nodup ∧
        (∀ id ∈ idsOf group.2, id ∉ groups.ids) ∧ groups.Apart := by
  constructor
  · intro h
    have hkeys := nodup_cons.1 h.keys
    have honce := nodup_append.1 h.once
    refine ⟨hkeys.1, h.nonempty group (by simp), honce.1, ?_, hkeys.2, ?_, honce.2.1⟩
    · intro id hid hids
      exact honce.2.2 id hid id hids rfl
    · exact fun other hother => h.nonempty other (by simp [hother])
  · rintro ⟨hkey, hne, hnodup, hdisjoint, h⟩
    refine ⟨nodup_cons.2 ⟨hkey, h.keys⟩, ?_, ?_⟩
    · intro other hother
      rcases mem_cons.1 hother with rfl | hother
      · exact hne
      · exact h.nonempty other hother
    · refine nodup_append.2 ⟨hnodup, h.once, ?_⟩
      rintro id hid id' hid' rfl
      exact hdisjoint id hid hid'

/-- A group that is brought to the front. -/
theorem exists_front (h : group ∈ groups) : ∃ rest, groups.Perm (group :: rest) :=
  ⟨groups.erase group, perm_cons_erase h⟩

/-! ### `insert` and `push` -/

theorem insert_fresh (tabs : List SystemWindowTab)
    (h : key ∉ groups.map Prod.fst) : groups.insert key tabs = (key, tabs) :: groups := by
  unfold insert
  rw [filter_eq_self.2]
  intro group hgroup
  rw [decide_eq_true_eq]
  rintro rfl
  exact h (mem_map_of_mem hgroup)

theorem Apart.insert (h : groups.Apart) (hkey : key ∉ groups.map Prod.fst) (hne : tabs ≠ [])
    (hnodup : (idsOf tabs).Nodup) (hdisjoint : ∀ id ∈ idsOf tabs, id ∉ groups.ids) :
    (groups.insert key tabs).Apart := by
  rw [insert_fresh tabs hkey, apart_cons]
  exact ⟨hkey, hne, hnodup, hdisjoint, h⟩

theorem pushTab_other (tab : SystemWindowTab)
    (h : key ∉ groups.map Prod.fst) : groups.pushTab key tab = groups := by
  conv_rhs => rw [← map_id groups]
  apply map_congr_left
  intro group hgroup
  rw [if_neg]
  · rfl
  · rintro rfl
    exact h (mem_map_of_mem hgroup)

theorem idsOf_append (tabs tabs' : List SystemWindowTab) :
    idsOf (tabs ++ tabs') = idsOf tabs ++ idsOf tabs' :=
  map_append

/-- A tab is put at the end of a group. -/
theorem Apart.pushTab (h : groups.Apart) (hmem : (key, tabs) ∈ groups) {tab : SystemWindowTab}
    (hnew : tab.id ∉ groups.ids) :
    (groups.pushTab key tab).Apart ∧ (groups.pushTab key tab).ids.Perm (tab.id :: groups.ids) := by
  obtain ⟨rest, hrest⟩ := exists_front hmem
  obtain ⟨hkey, hne, hnodup, hdisjoint, hapart⟩ := apart_cons.1 (h.perm hrest)
  -- the group is the one at the front
  have hfront : (groups.pushTab key tab).Perm ((key, tabs ++ [tab]) :: rest) := by
    have hmap : (groups.pushTab key tab).Perm (TabGroups.pushTab ((key, tabs) :: rest) key tab) :=
      hrest.map _
    have hother : TabGroups.pushTab rest key tab = rest := pushTab_other tab hkey
    unfold TabGroups.pushTab at hmap hother ⊢
    rw [map_cons, if_pos rfl, hother] at hmap
    exact hmap
  have hids := ids_perm hrest
  rw [hids.mem_iff, ids_cons, mem_append, not_or] at hnew
  have hidsOf : idsOf (tabs ++ [tab]) = idsOf tabs ++ [tab.id] := idsOf_append ..
  constructor
  · refine Apart.perm ?_ hfront.symm
    rw [apart_cons, hidsOf]
    refine ⟨hkey, by simp, ?_, ?_, hapart⟩
    · rw [nodup_append]
      refine ⟨hnodup, by simp, ?_⟩
      rintro id hid id' hid' rfl
      rw [mem_singleton.1 hid'] at hid
      exact hnew.1 hid
    · intro id hid
      rw [mem_append, mem_singleton] at hid
      rcases hid with hid | rfl
      · exact hdisjoint id hid
      · exact hnew.2
  · refine (ids_perm hfront).trans ?_
    rw [ids_cons, hidsOf]
    refine List.Perm.trans ?_ (hids.symm.cons tab.id)
    rw [ids_cons, append_assoc]
    exact perm_middle

/-! ### `update_tab_position` -/

theorem moveTo_perm (tabs : List SystemWindowTab) (currentPos ix : Nat) :
    (moveTo tabs currentPos ix).Perm tabs := by
  unfold moveTo
  split
  · rename_i hcond
    split
    · exact List.Perm.refl _
    · rename_i tab htab
      obtain ⟨hlt, rfl⟩ := List.getElem?_eq_some_iff.1 htab
      have hlength : ix ≤ (tabs.eraseIdx currentPos).length := by
        rw [length_eraseIdx_of_lt hlt]
        omega
      exact (perm_insertIdx _ _ hlength).trans (getElem_cons_eraseIdx_perm hlt)
  · exact List.Perm.refl _

theorem Apart.updateTabPosition (h : groups.Apart) (id ix : Nat) :
    (groups.updateTabPosition id ix).Apart ∧
      (groups.updateTabPosition id ix).map Prod.fst = groups.map Prod.fst ∧
      (groups.updateTabPosition id ix).ids.Perm groups.ids := by
  induction groups with
  | nil => exact ⟨h, rfl, List.Perm.refl _⟩
  | cons group groups ih =>
    obtain ⟨key, tabs⟩ := group
    obtain ⟨hkey, hne, hnodup, hdisjoint, hapart⟩ := apart_cons.1 h
    unfold TabGroups.updateTabPosition
    split
    · rename_i currentPos _
      have hperm := moveTo_perm tabs currentPos ix
      have hids : (idsOf (moveTo tabs currentPos ix)).Perm (idsOf tabs) := hperm.map _
      refine ⟨?_, rfl, hids.append_right _⟩
      rw [apart_cons]
      refine ⟨hkey, ?_, hids.nodup_iff.2 hnodup, ?_, hapart⟩
      · intro hnil
        change moveTo tabs currentPos ix = [] at hnil
        rw [hnil] at hperm
        exact hne hperm.nil_eq.symm
      · exact fun other hother => hdisjoint other (hids.mem_iff.1 hother)
    · obtain ⟨hupdated, hkeys, hids⟩ := ih hapart
      refine ⟨?_, ?_, hids.append_left _⟩
      · rw [apart_cons, hkeys]
        exact ⟨hkey, hne, hnodup, fun other hother hmem =>
          hdisjoint other hother (hids.mem_iff.1 hmem), hupdated⟩
      · rw [map_cons, map_cons, hkeys]

/-! ### `remove_tab` -/

theorem idsOf_eraseP (tabs : List SystemWindowTab) (id : Nat) :
    idsOf (tabs.eraseP (fun tab => tab.id = id)) = (idsOf tabs).erase id := by
  unfold idsOf
  rw [erase_eq_eraseP', eraseP_map]
  congr 1

/-- The windows that are left are the others, and a tab was taken out if there was one. -/
theorem Apart.removeTab (h : groups.Apart) (id : Nat) :
    (groups.removeTab id).2.Apart ∧
      ∀ other, other ∈ (groups.removeTab id).2.ids ↔ other ∈ groups.ids ∧ other ≠ id := by
  -- induction on the groups
  induction groups with
  | nil => exact ⟨h, fun other => by simp [TabGroups.removeTab]⟩
  | cons group groups ih =>
    obtain ⟨key, tabs⟩ := group
    obtain ⟨hkey, hne, hnodup, hdisjoint, hapart⟩ := apart_cons.1 h
    obtain ⟨hremoved, hids⟩ := ih hapart
    have hkeys : ∀ k, k ∈ (TabGroups.removeTab groups id).2.map Prod.fst → k ∈ groups.map Prod.fst := by
      intro k hk
      obtain ⟨other, hother, rfl⟩ := mem_map.1 hk
      obtain ⟨before, hbefore, rfl⟩ := mem_map.1 (mem_filter.1 hother).1
      exact mem_map.2 ⟨before, hbefore, rfl⟩
    have herase := idsOf_eraseP tabs id
    have hmem : ∀ other, other ∈ (idsOf tabs).erase id ↔ other ≠ id ∧ other ∈ idsOf tabs :=
      fun other => hnodup.mem_erase_iff
    by_cases hempty : tabs.eraseP (fun tab => tab.id = id) = []
    · -- the group had no other tab
      have hcons : (TabGroups.removeTab ((key, tabs) :: groups) id).2 = (TabGroups.removeTab groups id).2 := by
        simp [TabGroups.removeTab, hempty]
      rw [hcons]
      refine ⟨hremoved, ?_⟩
      intro other
      rw [hids, ids_cons, mem_append]
      have hnot : ¬ (other ≠ id ∧ other ∈ idsOf tabs) := by
        rw [← hmem, ← herase, hempty]
        exact not_mem_nil
      tauto
    · have hcons : (TabGroups.removeTab ((key, tabs) :: groups) id).2 =
          (key, tabs.eraseP (fun tab => tab.id = id)) :: (TabGroups.removeTab groups id).2 := by
        simp [TabGroups.removeTab, hempty]
      rw [hcons]
      constructor
      · rw [apart_cons, herase]
        refine ⟨fun hk => hkey (hkeys key hk), hempty, hnodup.erase id, ?_, hremoved⟩
        intro other hother hother'
        exact hdisjoint other ((hmem other).1 hother).2 ((hids other).1 hother').1
      · intro other
        rw [ids_cons, ids_cons, mem_append, mem_append, hids, herase, hmem]
        tauto

theorem removed_fold (id : Nat) (groups : TabGroups) (removed : Option SystemWindowTab) :
    groups.foldl
        (fun removed group => (group.2.find? (fun tab => tab.id = id)).or removed) removed =
      (groups.foldl
        (fun removed group => (group.2.find? (fun tab => tab.id = id)).or removed) none).or
          removed := by
  induction groups generalizing removed with
  | nil => rfl
  | cons group groups ih =>
    rw [foldl_cons, foldl_cons, ih, ih ((group.2.find? _).or none), Option.or_none,
      Option.or_assoc]

/-- The tab that is taken out is one of the window. -/
theorem removeTab_fst (groups : TabGroups) (id : Nat) :
    (∀ tab, (groups.removeTab id).1 = some tab → tab.id = id) ∧
      ((groups.removeTab id).1 = none ↔ id ∉ groups.ids) := by
  unfold TabGroups.removeTab
  induction groups with
  | nil => simp
  | cons group groups ih =>
    obtain ⟨hid, hnone⟩ := ih
    have hfind : group.2.find? (fun tab => tab.id = id) = none ↔ id ∉ idsOf group.2 := by
      unfold idsOf
      simp
    rw [foldl_cons, removed_fold, Option.or_none]
    refine ⟨?_, ?_⟩
    · intro tab htab
      rcases Option.or_eq_some_iff.1 htab with hrest | ⟨_, hhere⟩
      · exact hid tab hrest
      · simpa using find?_some hhere
    · rw [Option.or_eq_none_iff, hnone, hfind, ids_cons, mem_append, not_or]
      exact and_comm

/-! ### `move_tab_to_new_window` -/

theorem lt_of_max {keys : List Nat} (h : key ∈ keys) :
    key < keys.max?.elim 0 (· + 1) := by
  cases hmax : keys.max? with
  | none =>
    rw [max?_eq_none_iff] at hmax
    rw [hmax] at h
    cases h
  | some m =>
    have hle := (max?_eq_some_iff.1 hmax).2 key h
    exact Nat.lt_succ_of_le hle

theorem Apart.moveTabToNewWindow (h : groups.Apart) (id : Nat) :
    (groups.moveTabToNewWindow id).Apart ∧
      ∀ other, other ∈ (groups.moveTabToNewWindow id).ids ↔ other ∈ groups.ids := by
  obtain ⟨hapart, hids⟩ := h.removeTab id
  obtain ⟨hid, hnone⟩ := removeTab_fst groups id
  unfold TabGroups.moveTabToNewWindow
  dsimp only
  cases hremoved : (groups.removeTab id).1 with
  | none =>
    refine ⟨hapart, ?_⟩
    intro other
    rw [hids]
    have hnot := hnone.1 hremoved
    exact and_iff_left_of_imp (fun hmem heq => hnot (heq ▸ hmem))
  | some tab =>
    have hthere : id ∈ groups.ids := by
      by_contra hnot
      rw [hnone.2 hnot] at hremoved
      cases hremoved
    -- the new key is above all others
    have hfresh : ((groups.removeTab id).2.map Prod.fst).max?.elim 0 (· + 1) ∉
        (groups.removeTab id).2.map Prod.fst :=
      fun hmem => Nat.lt_irrefl _ (lt_of_max hmem)
    have hown : idsOf [tab] = [id] := congrArg (fun x => [x]) (hid tab hremoved)
    constructor
    · apply hapart.insert hfresh (by simp)
      · rw [hown]
        exact nodup_singleton id
      · intro other hother hmem
        rw [hown, mem_singleton] at hother
        exact ((hids other).1 hmem).2 hother
    · intro other
      dsimp only
      rw [insert_fresh _ hfresh, ids_cons, mem_append, hown, mem_singleton, hids]
      constructor
      · rintro (rfl | hmem)
        · exact hthere
        · exact hmem.1
      · intro hmem
        by_cases heq : other = id
        · exact .inl heq
        · exact .inr ⟨hmem, heq⟩

/-! ### `merge_all_windows` -/

/-- No tab of the other groups is one of the first group. -/
theorem flatMap_filter_other {initialTabs : List SystemWindowTab}
    (h : ∀ id ∈ idsOf initialTabs, id ∉ groups.ids) :
    groups.flatMap (fun group => group.2.filter (fun tab => tab ∉ initialTabs)) =
      groups.flatMap Prod.snd := by
  apply flatMap_congr
  intro group hgroup
  rw [filter_eq_self]
  intro tab htab
  rw [decide_eq_true_eq]
  intro hinitial
  exact h tab.id (mem_map_of_mem hinitial)
    (mem_ids.2 ⟨group, hgroup, mem_map_of_mem htab⟩)

theorem idsOf_flatMap (groups : TabGroups) : idsOf (groups.flatMap Prod.snd) = groups.ids := by
  unfold idsOf ids
  rw [map_flatMap]
  rfl

theorem Apart.mergeAllWindows (h : groups.Apart) (id : Nat) :
    (groups.mergeAllWindows id).Apart ∧ (groups.mergeAllWindows id).ids.Perm groups.ids := by
  unfold TabGroups.mergeAllWindows
  split
  · exact ⟨h, List.Perm.refl _⟩
  · rename_i initialTabs htabs
    have hmem : initialTabs ∈ groups.map Prod.snd := mem_of_find?_eq_some htabs
    obtain ⟨⟨key, tabs⟩, hgroup, rfl⟩ := mem_map.1 hmem
    obtain ⟨rest, hrest⟩ := exists_front hgroup
    obtain ⟨_, hne, hnodup, hdisjoint, hapart⟩ := apart_cons.1 (h.perm hrest)
    -- the group itself adds nothing, and the others all they have
    have hall : (groups.flatMap (fun group => group.2.filter (fun tab => tab ∉ tabs))).Perm
        (rest.flatMap Prod.snd) := by
      refine (hrest.flatMap_right _).trans ?_
      have hself : tabs.filter (fun tab => tab ∉ tabs) = [] := by
        rw [filter_eq_nil_iff]
        intro tab htab
        simpa using htab
      rw [flatMap_cons, hself, nil_append, flatMap_filter_other hdisjoint]
    have hids : (idsOf (tabs ++ groups.flatMap
        (fun group => group.2.filter (fun tab => tab ∉ tabs)))).Perm groups.ids := by
      rw [idsOf_append]
      refine List.Perm.trans ?_ (ids_perm hrest).symm
      rw [ids_cons, ← idsOf_flatMap rest]
      exact (hall.map _).append_left _
    constructor
    · rw [apart_cons]
      refine ⟨by simp, ?_, hids.nodup_iff.2 h.once, by simp, ⟨nodup_nil, by simp, nodup_nil⟩⟩
      intro hnil
      exact hne (append_eq_nil_iff.1 hnil).1
    · rw [ids_cons, ids_nil, append_nil]
      exact hids

/-! ### `add_tab` -/

theorem sorted_eq_iff (ids ids' : List Nat) :
    sortByKey (fun id => id) ids = sortByKey (fun id => id) ids' ↔ ids.Perm ids' := by
  constructor
  · intro h
    exact (sortByKey_perm _ ids).symm.trans (h ▸ sortByKey_perm _ ids')
  · intro h
    have hperm : (sortByKey (fun id => id) ids).Perm (sortByKey (fun id => id) ids') :=
      ((sortByKey_perm _ ids).trans h).trans (sortByKey_perm _ ids').symm
    exact hperm.eq_of_pairwise (fun _ _ _ _ => Nat.le_antisymm) (pairwise_insertionSort _ ids)
      (pairwise_insertionSort _ ids')

/-- The ids of the other tabs. -/
def otherIds (id : Nat) (tabs : List SystemWindowTab) : List Nat :=
  idsOf (tabs.filter (fun tab => tab.id ≠ id))

theorem mem_otherIds {other : Nat} :
    other ∈ otherIds id tabs ↔ other ∈ idsOf tabs ∧ other ≠ id := by
  unfold otherIds idsOf
  simp only [mem_map, mem_filter, decide_eq_true_eq]
  constructor
  · rintro ⟨tab, ⟨htab, hne⟩, rfl⟩
    exact ⟨⟨tab, htab, rfl⟩, hne⟩
  · rintro ⟨⟨tab, htab, rfl⟩, hne⟩
    exact ⟨tab, ⟨htab, hne⟩, rfl⟩

theorem tabGroupId_some
    (h : groups.tabGroupId id tabs = some key) :
    ∃ group, (key, group) ∈ groups ∧ (idsOf group).Perm (otherIds id tabs) := by
  obtain ⟨⟨key', group⟩, hfind, rfl⟩ := Option.map_eq_some_iff.1 h
  have hsorted := find?_some hfind
  rw [decide_eq_true_eq] at hsorted
  exact ⟨group, mem_of_find?_eq_some hfind, (sorted_eq_iff _ _).1 hsorted⟩

theorem tabGroupId_none
    (h : groups.tabGroupId id tabs = none) :
    ∀ group ∈ groups, ¬ (idsOf group.2).Perm (otherIds id tabs) := by
  intro group hgroup hperm
  have hfind := find?_eq_none.1 (Option.map_eq_none_iff.1 h) group hgroup
  rw [decide_eq_true_eq] at hfind
  exact hfind ((sorted_eq_iff _ _).2 hperm)

end TabGroups

namespace TabController

open TabGroups

variable {groups : TabGroups} {id : Nat} {tabs : List SystemWindowTab} {s : TabController}
variable {a : Action}

theorem Called.tab
    (h : Called groups id tabs) :
    ∃ tab, tabs.find? (fun tab => tab.id = id) = some tab ∧ tab.id = id := by
  obtain ⟨tab, htab, hid⟩ := mem_map.1 h.own
  have hsome : (tabs.find? (fun tab => tab.id = id)).isSome := by
    rw [find?_isSome]
    exact ⟨tab, htab, by simpa using hid⟩
  obtain ⟨found, hfound⟩ := Option.isSome_iff_exists.1 hsome
  exact ⟨found, hfound, by simpa using find?_some hfound⟩

/-- Without a group that has exactly the other tabs, none of the tabs is in a group. -/
theorem Called.disjoint
    (h : Called groups id tabs) (hnone : groups.tabGroupId id tabs = none) :
    ∀ other ∈ idsOf tabs, other ∉ groups.ids := by
  intro other hother
  rcases h.others with ⟨group, hgroup, hperm⟩ | hothers
  · exact absurd hperm (tabGroupId_none hnone group hgroup)
  · by_cases heq : other = id
    · rw [heq]
      exact h.new
    · obtain ⟨tab, htab, rfl⟩ := mem_map.1 hother
      exact hothers tab htab heq

theorem addTab_apart
    (h : groups.Apart) (hcalled : Called groups id tabs)
    (hkey : groups.tabGroupId id tabs = none → ∀ group ∈ groups, group.1 ≠ groups.length) :
    (groups.addTab id tabs).Apart ∧
      ∀ other, other ∈ (groups.addTab id tabs).ids ↔ other ∈ groups.ids ∨ other ∈ idsOf tabs := by
  obtain ⟨tab, hfind, hid⟩ := hcalled.tab
  unfold addTab
  rw [hfind]
  cases hgroup : groups.tabGroupId id tabs with
  | some key =>
    obtain ⟨group, hmem, hperm⟩ := tabGroupId_some hgroup
    have hnew : tab.id ∉ groups.ids := hid ▸ hcalled.new
    obtain ⟨hapart, hids⟩ := h.pushTab hmem hnew
    refine ⟨hapart, ?_⟩
    intro other
    rw [hids.mem_iff, mem_cons, hid]
    -- the other tabs are the group
    have hothers : other ∈ idsOf tabs → other ≠ id → other ∈ groups.ids := by
      intro hother hne
      exact mem_ids.2 ⟨_, hmem, hperm.mem_iff.2 (mem_otherIds.2 ⟨hother, hne⟩)⟩
    constructor
    · rintro (rfl | hother)
      · exact .inr hcalled.own
      · exact .inl hother
    · rintro (hother | hother)
      · exact .inr hother
      · by_cases heq : other = id
        · exact .inl heq
        · exact .inr (hothers hother heq)
  | none =>
    have hfresh : groups.length ∉ groups.map Prod.fst := by
      intro hmem
      obtain ⟨group, hg, heq⟩ := mem_map.1 hmem
      exact hkey hgroup group hg heq
    have hdisjoint := hcalled.disjoint hgroup
    constructor
    · apply h.insert hfresh _ hcalled.nodup hdisjoint
      rintro rfl
      cases hcalled.own
    · intro other
      rw [insert_fresh _ hfresh, ids_cons, mem_append]
      exact or_comm

/-! ### Runs -/

/-- What the runs that meet the condition keep. -/
structure Inv (s : TabController) : Prop where
  apart : s.tabGroups.Apart
  exact : ∀ id, id ∈ s.tabGroups.ids ↔ id ∈ s.windows

theorem Inv.kept (h : s.Inv) : s.Kept :=
  ⟨h.apart.nonempty, h.apart.once, h.exact⟩

theorem Inv.apply (h : s.Inv) (hpossible : s.possible a = true) (ha : s.Heeds a) : (s.apply a).Inv := by
  cases a with
  | addTab id tabs =>
    obtain ⟨hapart, hids⟩ := addTab_apart h.apart (of_decide_eq_true hpossible) ha
    refine ⟨hapart, ?_⟩
    intro other
    show other ∈ (s.tabGroups.addTab id tabs).ids ↔ other ∈ s.windows ++ idsOf tabs
    rw [hids, mem_append, h.exact]
  | removeTab id =>
    obtain ⟨hapart, hids⟩ := h.apart.removeTab id
    refine ⟨hapart, ?_⟩
    intro other
    show other ∈ (s.tabGroups.removeTab id).2.ids ↔ other ∈ s.windows.filter (· ≠ id)
    rw [hids, mem_filter, h.exact, decide_eq_true_eq]
  | moveTabToNewWindow id =>
    obtain ⟨hapart, hids⟩ := h.apart.moveTabToNewWindow id
    exact ⟨hapart, fun other => (hids other).trans (h.exact other)⟩
  | mergeAllWindows id =>
    obtain ⟨hapart, hids⟩ := h.apart.mergeAllWindows id
    exact ⟨hapart, fun other => hids.mem_iff.trans (h.exact other)⟩
  | updateTabPosition id ix =>
    obtain ⟨hapart, _, hids⟩ := h.apart.updateTabPosition id ix
    exact ⟨hapart, fun other => hids.mem_iff.trans (h.exact other)⟩
  | reorder groups =>
    have hperm : groups.Perm s.tabGroups := of_decide_eq_true hpossible
    exact ⟨h.apart.perm hperm.symm, fun other => (ids_perm hperm).mem_iff.trans (h.exact other)⟩

theorem step_eq {s' : TabController} (h : s.step a = some (.ok s')) :
    s.possible a = true ∧ s' = s.apply a := by
  unfold TabController.step at h
  simp only [Option.ite_none_right_eq_some, Option.some.injEq, Except.ok.injEq] at h
  exact ⟨h.1, h.2.symm⟩

theorem inv_inductive : machine.Inductive Heeds Inv where
  start := ⟨⟨nodup_nil, by simp [machine, new], nodup_nil⟩,
    fun id => by simp [machine, new]⟩
  step := by
    intro s a s' h ha hstep
    obtain ⟨hpossible, rfl⟩ := step_eq hstep
    exact h.apply hpossible ha

/-- A group whose key is taken is lost, with all its windows. -/
theorem Inv.spoils (h : s.Inv) (hpossible : s.possible a = true)
    (ha : ¬ s.Heeds a) : ¬ (s.apply a).Kept := by
  cases a with
  | addTab id tabs =>
    unfold Heeds at ha
    push Not at ha
    obtain ⟨hnone, ⟨key, group⟩, hgroup, hkey⟩ := ha
    have hcalled : Called s.tabGroups id tabs := of_decide_eq_true hpossible
    obtain ⟨tab, hfind, _⟩ := hcalled.tab
    -- a window of the lost group
    obtain ⟨lost, hlost⟩ := exists_mem_of_ne_nil _ (h.apart.nonempty _ hgroup)
    have hids : lost.id ∈ s.tabGroups.ids :=
      mem_ids.2 ⟨_, hgroup, mem_map_of_mem hlost⟩
    intro hkept
    have hthere := (hkept.exact lost.id).2 (mem_append_left _ ((h.exact lost.id).1 hids))
    have hadd : (s.apply (.addTab id tabs)).tabGroups =
        s.tabGroups.insert s.tabGroups.length tabs := by
      show s.tabGroups.addTab id tabs = _
      unfold addTab
      rw [hfind, hnone]
    rw [hadd, TabGroups.insert, ids_cons, mem_append] at hthere
    rcases hthere with htabs | hrest
    · exact hcalled.disjoint hnone _ htabs hids
    · -- the other groups do not have it
      obtain ⟨rest, hrest'⟩ := exists_front hgroup
      obtain ⟨_, _, _, hdisjoint, _⟩ := apart_cons.1 (h.apart.perm hrest')
      obtain ⟨other, hother, hmem⟩ := mem_ids.1 hrest
      rw [mem_filter, decide_eq_true_eq] at hother
      have hin := hrest'.mem_iff.1 hother.1
      rcases mem_cons.1 hin with rfl | hin
      · exact hother.2 hkey
      · exact hdisjoint lost.id (mem_map_of_mem hlost) (mem_ids.2 ⟨other, hin, hmem⟩)
  | _ => exact absurd trivial ha

/-- No window tab is lost or doubled in a run in which a tab that starts a group is only
    added while the number of groups is not the key of a group.  In any other call a group is
    lost. -/
theorem tabs_kept (s : TabController) :
    (machine.Reaches Heeds s → s.Kept) ∧
      ∀ a s', machine.Reaches Heeds s → machine.step s a = some (.ok s') → ¬ Heeds s a →
        ¬ s'.Kept := by
  constructor
  · intro hs
    exact (inv_inductive.holds hs).kept
  · intro a s' hs hstep ha
    obtain ⟨hpossible, rfl⟩ := step_eq hstep
    exact (inv_inductive.holds hs).spoils hpossible ha

def tabOf (id : Nat) : SystemWindowTab := ⟨id, "", ⟨id, 0⟩, 0⟩

/-- Three windows, each in a group of its own, of which the first is closed before the third
    is opened. -/
theorem tabs_lost :
    ¬ ∀ s : TabController, machine.Reaches (fun _ _ => True) s → s.Kept := by
  intro h
  have hrun : ∃ s, machine.run new [.addTab 1 [tabOf 1], .addTab 2 [tabOf 2], .removeTab 1,
      .addTab 3 [tabOf 3]] = some (.ok s) ∧ s.tabGroups.ids = [3] ∧ s.windows = [2, 3] :=
    ⟨⟨[(1, [tabOf 3])], [2, 3]⟩, rfl, rfl, rfl⟩
  obtain ⟨s, hrun, hids, hwindows⟩ := hrun
  have hkept := h s (Machine.Reaches.start.run (.of_forall (fun _ _ _ => trivial) _) hrun)
  have htwo := (hkept.exact 2).2 (by simp [hwindows])
  simp [hids] at htwo

end TabController

end Gpui
