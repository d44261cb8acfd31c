import Gpui.App.EntityMap

/-! # Entities: counts, handles and collected entities

    One invariant ties the four structures together: the counts count the strong
    handles, the ids that wait are those with count zero, and an entity that was
    inserted and not collected is either in the map or leased. -/

namespace Gpui

open List

namespace EntityWorld

variable {I V : Type} [DecidableEq I]

/-! ## The invariant -/

structure Inv (world : EntityWorld I V) : Prop where
  counted : ∀ id n, world.map.counts id = some n → n = world.strongCount id ∧ id ∈ world.issued
  uncounted : ∀ id, world.map.counts id = none → world.strongCount id = 0
  nodup_dropped : world.map.droppedEntityIds.Nodup
  mem_dropped : ∀ id, id ∈ world.map.droppedEntityIds ↔ world.map.counts id = some 0
  /-- One slot for an id that is not filled, none for one that is. -/
  slot : ∀ id, world.handles.count (.slot id) ≤ if id ∈ world.inserted then 0 else 1
  inserted_issued : ∀ id ∈ world.inserted, id ∈ world.issued
  /-- In the map or leased. -/
  stored : ∀ id, (if (world.map.entities id).isSome then 1 else 0) + world.leases.count id =
    if id ∈ world.inserted ∧ world.map.counts id ≠ none then 1 else 0
  nodup_returned : world.returned.Nodup
  mem_returned : ∀ id, id ∈ world.returned ↔ id ∈ world.inserted ∧ world.map.counts id = none

variable {world next : EntityWorld I V}

theorem inv_start : (start : EntityWorld I V).Inv where
  counted := by
    intro id n h
    cases h
  uncounted := fun _ _ => rfl
  nodup_dropped := nodup_nil
  mem_dropped := by simp [start, EntityMap.new]
  slot := by simp [start]
  inserted_issued := by simp [start]
  stored := by simp [start, EntityMap.new]
  nodup_returned := nodup_nil
  mem_returned := by simp [start]

theorem Inv.counts_eq (h : world.Inv) {id : I} (hpos : 0 < world.strongCount id) :
    world.map.counts id = some (world.strongCount id) := by
  cases hcount : world.map.counts id with
  | none =>
    rw [h.uncounted id hcount] at hpos
    omega
  | some n => rw [(h.counted id n hcount).1]

theorem strongCount_pos {handle : Handle I} (h : handle ∈ world.handles) :
    0 < world.strongCount handle.id :=
  Multiset.countP_pos_of_mem h rfl

theorem Inv.counts_fresh (h : world.Inv) {id : I} (hfresh : id ∉ world.issued) :
    world.map.counts id = none := by
  cases hcount : world.map.counts id with
  | none => rfl
  | some n => exact absurd (h.counted id n hcount).2 hfresh

omit V in
theorem strongHandles_cons (handle : Handle I) (rest : Multiset (Handle I)) (id : I) :
    strongHandles (handle ::ₘ rest) id =
      strongHandles rest id + if handle.id = id then 1 else 0 :=
  Multiset.countP_cons _ _ _

/-! ## Collecting -/

omit [DecidableEq I] in
theorem nodup_filterMap_fst {ids : List I} (entities : I → Option V) (h : ids.Nodup) :
    ((ids.filterMap (fun id => (entities id).map (fun entity => (id, entity)))).map
      Prod.fst).Nodup := by
  have hfst : (ids.filterMap (fun id => (entities id).map (fun entity => (id, entity)))).map
      Prod.fst = ids.filter (fun id => (entities id).isSome) := by
    induction ids with
    | nil => rfl
    | cons id ids ih =>
      have ih := ih (nodup_cons.mp h).2
      cases hentity : entities id with
      | none => simp [hentity, ih]
      | some entity => simp [hentity, ih]
  rw [hfst]
  exact h.filter _

end EntityWorld

namespace EntityMap

variable {I V : Type} [DecidableEq I]

/-- Collecting distinct ids of count zero takes their counts and entities away. -/
theorem collect_spec (ids : List I) {map : EntityMap I V} (hnodup : ids.Nodup)
    (hzero : ∀ id ∈ ids, map.counts id = some 0) :
    ∃ map', map.collect ids =
        .ok (map', ids.filterMap (fun id => (map.entities id).map (fun entity => (id, entity)))) ∧
      (∀ id, map'.counts id = if id ∈ ids then none else map.counts id) ∧
      (∀ id, map'.entities id = if id ∈ ids then none else map.entities id) ∧
      map'.droppedEntityIds = map.droppedEntityIds := by
  -- induction on the ids, as `collect` takes them off
  induction ids generalizing map with
  | nil => exact ⟨map, rfl, by simp, by simp, rfl⟩
  | cons id ids ih =>
    obtain ⟨hnot, hnodup⟩ := nodup_cons.mp hnodup
    have hcount := hzero id (mem_cons_self ..)
    -- the ids are distinct, so the slot taken away is not looked at again
    have hne : ∀ other ∈ ids, other ≠ id := fun other hother heq => hnot (heq ▸ hother)
    have hrest : ∀ other ∈ ids, Function.update map.counts id none other = some 0 := by
      intro other hother
      rw [Function.update_of_ne (hne other hother)]
      exact hzero other (mem_cons_of_mem _ hother)
    obtain ⟨map', hrun, hcounts, hentities, hdropped⟩ := @ih
      { map with
        counts := Function.update map.counts id none
        accessedEntities := map.accessedEntities.erase id
        entities := Function.update map.entities id none } hnodup hrest
    refine ⟨map', ?_, ?_, ?_, hdropped⟩
    · have hsame : ids.filterMap (fun other => (Function.update map.entities id none other).map
          (fun entity => (other, entity))) =
          ids.filterMap (fun other => (map.entities other).map (fun entity => (other, entity))) := by
        apply filterMap_congr
        intro other hother
        rw [Function.update_of_ne (hne other hother)]
      simp only [collect, hcount, ne_eq, not_true_eq_false, if_false, hrun, hsame]
      rw [filterMap_cons]
      cases map.entities id <;> rfl
    · intro other
      rw [hcounts]
      by_cases heq : other = id
      · simp [heq, hnot]
      · simp [heq]
    · intro other
      rw [hentities]
      by_cases heq : other = id
      · simp [heq, hnot]
      · simp [heq]

/-- What waits can be collected, and collecting it empties the list. -/
theorem takeDropped_spec {map : EntityMap I V} (hnodup : map.droppedEntityIds.Nodup)
    (hzero : ∀ id ∈ map.droppedEntityIds, map.counts id = some 0) :
    ∃ map', map.takeDropped = .ok (map', map.droppedEntityIds.filterMap
        (fun id => (map.entities id).map (fun entity => (id, entity)))) ∧
      (∀ id, map'.counts id = if id ∈ map.droppedEntityIds then none else map.counts id) ∧
      (∀ id, map'.entities id = if id ∈ map.droppedEntityIds then none else map.entities id) ∧
      map'.droppedEntityIds = [] :=
  @collect_spec I V _ map.droppedEntityIds { map with droppedEntityIds := [] } hnodup hzero

end EntityMap

namespace EntityWorld

variable {I V : Type} [DecidableEq I] {world next : EntityWorld I V}

/-! ## The steps -/

section

variable (h : world.Inv)
include h

variable {id : I} {rest : Multiset (Handle I)}

/-- The count of one id changes with its handles. -/
theorem Inv.recount {n : Nat} {handles : Multiset (Handle I)} {dropped : List I}
    {issued : Finset I}
    (hcount : ∀ other, strongHandles handles other = if other = id then n else world.strongCount other)
    (hissued : ∀ other, other ∈ issued ↔ other = id ∨ other ∈ world.issued)
    (hslot : ∀ other, handles.count (.slot other) ≤ if other ∈ world.inserted then 0 else 1)
    (hnodup : dropped.Nodup)
    (hmem : ∀ other, other ∈ dropped ↔ if other = id then n = 0 else other ∈ world.map.droppedEntityIds)
    (hknown : world.map.counts id ≠ none ∨ id ∉ world.inserted) :
    ({ world with
        map := { world.map with
          counts := Function.update world.map.counts id (some n)
          droppedEntityIds := dropped }
        handles := handles
        issued := issued } : EntityWorld I V).Inv where
  counted := by
    intro other m hm
    show m = strongHandles handles other ∧ other ∈ issued
    have hm : Function.update world.map.counts id (some n) other = some m := hm
    rw [hcount, hissued]
    by_cases heq : other = id
    · rw [heq, Function.update_self] at hm
      rw [if_pos heq]
      exact ⟨(Option.some.inj hm).symm, Or.inl heq⟩
    · rw [Function.update_of_ne heq] at hm
      rw [if_neg heq]
      exact ⟨(h.counted other m hm).1, Or.inr (h.counted other m hm).2⟩
  uncounted := by
    intro other hnone
    show strongHandles handles other = 0
    have hnone : Function.update world.map.counts id (some n) other = none := hnone
    by_cases heq : other = id
    · rw [heq, Function.update_self] at hnone
      cases hnone
    · rw [Function.update_of_ne heq] at hnone
      rw [hcount, if_neg heq]
      exact h.uncounted other hnone
  nodup_dropped := hnodup
  mem_dropped := by
    intro other
    show other ∈ dropped ↔ Function.update world.map.counts id (some n) other = some 0
    rw [hmem]
    by_cases heq : other = id
    · rw [if_pos heq, heq, Function.update_self, Option.some.injEq]
    · rw [if_neg heq, Function.update_of_ne heq]
      exact h.mem_dropped other
  slot := hslot
  inserted_issued := fun other hother => (hissued other).mpr (Or.inr (h.inserted_issued other hother))
  stored := by
    intro other
    show _ = if other ∈ world.inserted ∧ Function.update world.map.counts id (some n) other ≠ none
      then 1 else 0
    rw [h.stored other]
    by_cases heq : other = id
    · rw [heq, Function.update_self]
      rcases hknown with hknown | hnot
      · simp [hknown]
      · simp [hnot]
    · rw [Function.update_of_ne heq]
  nodup_returned := h.nodup_returned
  mem_returned := by
    intro other
    show other ∈ world.returned ↔
      other ∈ world.inserted ∧ Function.update world.map.counts id (some n) other = none
    rw [h.mem_returned other]
    by_cases heq : other = id
    · rw [heq, Function.update_self]
      rcases hknown with hknown | hnot
      · simp [hknown]
      · simp [hnot]
    · rw [Function.update_of_ne heq]

theorem Inv.reserve (hfresh : id ∉ world.issued) :
    ({ world with
        map := world.map.reserve id
        handles := .slot id ::ₘ world.handles
        issued := Insert.insert id world.issued } : EntityWorld I V).Inv := by
  have hnone := h.counts_fresh hfresh
  have hinserted : id ∉ world.inserted := fun hmem => hfresh (h.inserted_issued id hmem)
  have hzero : world.strongCount id = 0 := h.uncounted id hnone
  apply h.recount
  · intro other
    rw [strongHandles_cons]
    by_cases heq : other = id
    · rw [if_pos heq, heq, if_pos (show (Handle.slot id).id = id from rfl)]
      show world.strongCount id + 1 = 1
      rw [hzero]
    · rw [if_neg heq, if_neg (fun heq' => heq heq'.symm)]
      rfl
  · intro other
    exact Finset.mem_insert
  · intro other
    rw [Multiset.count_cons]
    by_cases heq : other = id
    · -- no handle of the id is alive yet
      have hcount : world.handles.count (.slot id) = 0 := by
        rw [Multiset.count_eq_zero]
        intro hmem
        have := strongCount_pos hmem
        simp only [Handle.id] at this
        omega
      rw [heq, hcount, if_neg hinserted]
      simp
    · have hne : ¬ Handle.slot other = Handle.slot id := by
        intro heq'
        cases heq'
        exact heq rfl
      rw [if_neg hne]
      exact h.slot other
  · exact h.nodup_dropped
  · intro other
    by_cases heq : other = id
    · rw [if_pos heq, heq, h.mem_dropped, hnone]
      simp
    · rw [if_neg heq]
  · exact Or.inr hinserted

/-- One more strong handle of an id that has some. -/
theorem Inv.addHandle (hpos : 0 < world.strongCount id) :
    ({ world with
        map := { world.map with
          counts := Function.update world.map.counts id (some (world.strongCount id + 1)) }
        handles := .entity id ::ₘ world.handles } : EntityWorld I V).Inv := by
  have hcount := h.counts_eq hpos
  apply h.recount
  · intro other
    rw [strongHandles_cons]
    by_cases heq : other = id
    · rw [if_pos heq, heq, if_pos (show (Handle.entity id).id = id from rfl)]
      rfl
    · rw [if_neg heq, if_neg (fun heq' => heq heq'.symm)]
      rfl
  · intro other
    constructor
    · exact Or.inr
    · intro hor
      rcases hor with heq | hmem
      · rw [heq]
        exact (h.counted id _ hcount).2
      · exact hmem
  · intro other
    rw [Multiset.count_cons_of_ne (by simp)]
    exact h.slot other
  · exact h.nodup_dropped
  · intro other
    by_cases heq : other = id
    · rw [if_pos heq, heq, h.mem_dropped, hcount, Option.some.injEq]
      omega
    · rw [if_neg heq]
  · rw [hcount]
    exact Or.inl (by simp)

/-- One strong handle of an id less; the last one makes the id wait. -/
theorem Inv.dropHandle {handle : Handle I} (halive : world.handles = handle ::ₘ rest) :
    ({ world with
        map := { world.map with
          counts := Function.update world.map.counts handle.id
            (some (world.strongCount handle.id - 1))
          droppedEntityIds := if world.strongCount handle.id = 1 then
            world.map.droppedEntityIds ++ [handle.id] else world.map.droppedEntityIds }
        handles := rest } : EntityWorld I V).Inv := by
  have hmem : handle ∈ world.handles := by
    rw [halive]
    exact Multiset.mem_cons_self _ _
  have hpos := strongCount_pos hmem
  have hcount := h.counts_eq hpos
  -- the handle is alive, so its id does not wait yet
  have hnot : handle.id ∉ world.map.droppedEntityIds := by
    rw [h.mem_dropped, hcount, Option.some.injEq]
    omega
  have hrest : ∀ other, world.strongCount other =
      strongHandles rest other + if handle.id = other then 1 else 0 := by
    intro other
    rw [strongCount, halive]
    exact strongHandles_cons handle rest other
  apply h.recount
  · intro other
    have hother := hrest other
    by_cases heq : other = handle.id
    · rw [heq, if_pos rfl] at hother
      rw [if_pos heq, heq]
      omega
    · rw [if_neg (fun heq' => heq heq'.symm)] at hother
      rw [if_neg heq]
      omega
  · intro other
    constructor
    · exact Or.inr
    · intro hor
      rcases hor with heq | hother
      · rw [heq]
        exact (h.counted _ _ hcount).2
      · exact hother
  · intro other
    have hle := h.slot other
    rw [halive] at hle
    exact (Multiset.count_le_count_cons _ _ _).trans hle
  · split
    · rw [← concat_eq_append]
      exact h.nodup_dropped.concat hnot
    · exact h.nodup_dropped
  · intro other
    by_cases heq : other = handle.id
    · rw [if_pos heq, heq]
      split
      · next hone => simp [hone]
      · next hone =>
        constructor
        · intro hcontra
          exact absurd hcontra hnot
        · intro hzero
          omega
    · rw [if_neg heq]
      split
      · simp [heq]
      · exact Iff.rfl
  · rw [hcount]
    exact Or.inl (by simp)

theorem Inv.insert (entity : V) (halive : world.handles = .slot id ::ₘ rest) :
    ({ world with
        map := world.map.insert id entity
        handles := .entity id ::ₘ rest
        inserted := Insert.insert id world.inserted } : EntityWorld I V).Inv := by
  have hslots := h.slot id
  rw [halive, Multiset.count_cons_self] at hslots
  -- a slot that is alive was not filled
  have hnew : id ∉ world.inserted := by
    intro hmem
    rw [if_pos hmem] at hslots
    omega
  rw [if_neg hnew] at hslots
  have hmem : Handle.slot id ∈ world.handles := by
    rw [halive]
    exact Multiset.mem_cons_self _ _
  have hcount : world.map.counts id = some (world.strongCount id) :=
    h.counts_eq (strongCount_pos hmem)
  have hsame : ∀ other, strongHandles (.entity id ::ₘ rest) other = world.strongCount other := by
    intro other
    rw [strongCount, halive, strongHandles_cons, strongHandles_cons]
    rfl
  refine ⟨?_, ?_, h.nodup_dropped, h.mem_dropped, ?_, ?_, ?_, h.nodup_returned, ?_⟩
  · intro other n hn
    show n = strongHandles (.entity id ::ₘ rest) other ∧ other ∈ world.issued
    rw [hsame]
    exact h.counted other n hn
  · intro other hnone
    show strongHandles (.entity id ::ₘ rest) other = 0
    rw [hsame]
    exact h.uncounted other hnone
  · intro other
    show (Handle.entity id ::ₘ rest).count (.slot other) ≤
      if other ∈ Insert.insert id world.inserted then 0 else 1
    rw [Multiset.count_cons_of_ne (by simp)]
    by_cases heq : other = id
    · rw [heq, if_pos (Finset.mem_insert_self _ _)]
      omega
    · have hle := h.slot other
      have hne : Handle.slot other ≠ Handle.slot id := by
        intro heq'
        cases heq'
        exact heq rfl
      rw [halive, Multiset.count_cons_of_ne hne] at hle
      simpa [heq] using hle
  · intro other hother
    rcases Finset.mem_insert.mp hother with heq | hother
    · rw [heq]
      exact (h.counted _ _ hcount).2
    · exact h.inserted_issued other hother
  · intro other
    show (if (Function.update world.map.entities id (some entity) other).isSome then 1 else 0) +
      world.leases.count other =
      if other ∈ Insert.insert id world.inserted ∧ world.map.counts other ≠ none then 1 else 0
    have hstored := h.stored other
    by_cases heq : other = id
    · rw [heq] at hstored ⊢
      simp only [hnew, false_and, if_false] at hstored
      -- what was never inserted is not leased
      have hleases : world.leases.count id = 0 := by omega
      simp only [hleases, hcount]
      simp
    · rw [Function.update_of_ne heq]
      simpa [heq] using hstored
  · intro other
    show other ∈ world.returned ↔
      other ∈ Insert.insert id world.inserted ∧ world.map.counts other = none
    rw [h.mem_returned other]
    by_cases heq : other = id
    · rw [heq, hcount]
      simp
    · simp [heq]

/-- An entity moves between the map and a lease. -/
theorem Inv.moveEntity {entities : I → Option V} {accessed : Finset I} {leases : Multiset I}
    (hstored : ∀ id, (if (entities id).isSome then 1 else 0) + leases.count id =
      (if (world.map.entities id).isSome then 1 else 0) + world.leases.count id) :
    ({ world with
        map := { world.map with entities := entities, accessedEntities := accessed }
        leases := leases } : EntityWorld I V).Inv where
  counted := h.counted
  uncounted := h.uncounted
  nodup_dropped := h.nodup_dropped
  mem_dropped := h.mem_dropped
  slot := h.slot
  inserted_issued := h.inserted_issued
  stored := fun id => (hstored id).trans (h.stored id)
  nodup_returned := h.nodup_returned
  mem_returned := h.mem_returned

/-- What `take_dropped` returns: the entities of the ids that wait. -/
theorem Inv.takeDropped :
    ∃ map', world.map.takeDropped = .ok (map', world.map.droppedEntityIds.filterMap
        (fun id => (world.map.entities id).map (fun entity => (id, entity)))) ∧
      (∀ id, map'.counts id =
        if id ∈ world.map.droppedEntityIds then none else world.map.counts id) ∧
      (∀ id, map'.entities id =
        if id ∈ world.map.droppedEntityIds then none else world.map.entities id) ∧
      map'.droppedEntityIds = [] :=
  EntityMap.takeDropped_spec h.nodup_dropped (fun id hid => (h.mem_dropped id).mp hid)

/-- The ids of the entities that are collected: those that were inserted, among the
    ids that wait. -/
theorem Inv.mem_collected (id : I) (entity : V) :
    (id, entity) ∈ world.map.droppedEntityIds.filterMap
        (fun id => (world.map.entities id).map (fun entity => (id, entity))) ↔
      world.map.counts id = some 0 ∧ id ∈ world.inserted ∧
        world.map.entities id = some entity := by
  rw [mem_filterMap]
  constructor
  · intro ⟨other, hother, hsome⟩
    obtain ⟨value, hvalue, heq⟩ := Option.map_eq_some_iff.mp hsome
    cases heq
    have hcount := (h.mem_dropped id).mp hother
    refine ⟨hcount, ?_, hvalue⟩
    have hstored := h.stored id
    by_contra hnot
    simp [hvalue, hnot] at hstored
  · intro ⟨hcount, _, hvalue⟩
    exact ⟨id, (h.mem_dropped id).mpr hcount, by rw [hvalue]; rfl⟩

/-- With nothing leased, an entity that was inserted and not collected is in the map. -/
theorem Inv.entities_isSome (hidle : world.leases = 0) (id : I) :
    (world.map.entities id).isSome = true ↔
      id ∈ world.inserted ∧ world.map.counts id ≠ none := by
  have hstored := h.stored id
  rw [hidle, Multiset.count_zero, Nat.add_zero] at hstored
  by_cases hsome : (world.map.entities id).isSome = true
  · rw [if_pos hsome] at hstored
    constructor
    · intro _
      by_contra hnot
      rw [if_neg hnot] at hstored
      cases hstored
    · intro _
      exact hsome
  · rw [if_neg hsome] at hstored
    constructor
    · intro hcontra
      exact absurd hcontra hsome
    · intro hmem
      rw [if_pos hmem] at hstored
      cases hstored

theorem Inv.collected (hidle : world.leases = 0) {map : EntityMap I V} {entities : List (I × V)}
    (hrun : world.map.takeDropped = .ok (map, entities)) :
    ({ world with
        map := map
        returned := world.returned ++ entities.map Prod.fst } : EntityWorld I V).Inv := by
  obtain ⟨map', hrun', hcounts, hentities, hdropped⟩ := h.takeDropped
  rw [hrun'] at hrun
  cases hrun
  have hmemIds : ∀ id, id ∈ (world.map.droppedEntityIds.filterMap
      (fun id => (world.map.entities id).map (fun entity => (id, entity)))).map Prod.fst ↔
      world.map.counts id = some 0 ∧ id ∈ world.inserted := by
    intro id
    rw [mem_map]
    constructor
    · intro ⟨⟨other, entity⟩, hmem, heq⟩
      cases heq
      obtain ⟨hcount, hinserted, _⟩ := (h.mem_collected _ _).mp hmem
      exact ⟨hcount, hinserted⟩
    · intro ⟨hcount, hinserted⟩
      have hsome := (h.entities_isSome hidle id).mpr ⟨hinserted, by rw [hcount]; simp⟩
      obtain ⟨entity, hentity⟩ := Option.isSome_iff_exists.mp hsome
      exact ⟨(id, entity), (h.mem_collected _ _).mpr ⟨hcount, hinserted, hentity⟩, rfl⟩
  have hnodup := nodup_filterMap_fst world.map.entities h.nodup_dropped
  generalize (world.map.droppedEntityIds.filterMap
    (fun id => (world.map.entities id).map (fun entity => (id, entity)))).map Prod.fst = ids
    at hmemIds hnodup ⊢
  -- the new counts: an id that waits has none any more
  have hcounts' : ∀ id, map.counts id =
      if world.map.counts id = some 0 then none else world.map.counts id := by
    intro id
    rw [hcounts]
    simp only [h.mem_dropped id]
  refine ⟨?_, ?_, ?_, ?_, h.slot, h.inserted_issued, ?_, ?_, ?_⟩
  · intro id n hn
    rw [hcounts'] at hn
    split at hn
    · cases hn
    · exact h.counted id n hn
  · intro id hnone
    show world.strongCount id = 0
    rw [hcounts'] at hnone
    split at hnone
    · next hzero => exact (h.counted id 0 hzero).1.symm
    · exact h.uncounted id hnone
  · show map.droppedEntityIds.Nodup
    rw [hdropped]
    exact nodup_nil
  · intro id
    show id ∈ map.droppedEntityIds ↔ map.counts id = some 0
    rw [hdropped, hcounts']
    split
    · simp
    · next hne => simp [hne]
  · intro id
    show (if (map.entities id).isSome then 1 else 0) + world.leases.count id =
      if id ∈ world.inserted ∧ map.counts id ≠ none then 1 else 0
    rw [hentities, hcounts']
    simp only [h.mem_dropped id]
    by_cases hzero : world.map.counts id = some 0
    · simp [hzero, hidle]
    · simp only [if_neg hzero]
      exact h.stored id
  · show (world.returned ++ ids).Nodup
    rw [nodup_append]
    refine ⟨h.nodup_returned, hnodup, ?_⟩
    intro a ha b hb heq
    rw [h.mem_returned] at ha
    rw [hmemIds, ← heq, ha.2] at hb
    cases hb.1
  · intro id
    show id ∈ world.returned ++ ids ↔ id ∈ world.inserted ∧ map.counts id = none
    rw [mem_append, h.mem_returned, hmemIds, hcounts']
    by_cases hzero : world.map.counts id = some 0
    · simp [hzero]
    · simp [hzero]

/-- **Step lemma.**  Every operation keeps the invariant. -/
theorem Inv.step (hstep : Step world next) : next.Inv := by
  cases hstep with
  | reserve fresh => exact h.reserve fresh
  | insert entity alive => exact h.insert entity alive
  -- a handle is alive, so neither `clone` nor `drop` finds the count zero
  | @clone handle map alive run =>
    have hpos := strongCount_pos alive
    rw [EntityMap.clone, h.counts_eq hpos] at run
    simp only [if_neg (Nat.ne_of_gt hpos)] at run
    cases run
    exact h.addHandle hpos
  | @drop handle rest map alive run =>
    have hmem : handle ∈ world.handles := by
      rw [alive]
      exact Multiset.mem_cons_self _ _
    have hpos := strongCount_pos hmem
    rw [EntityMap.drop, h.counts_eq hpos] at run
    simp only [if_neg (Nat.ne_of_gt hpos)] at run
    have hdrop := h.dropHandle alive
    split at run
    · next hone =>
      cases run
      rw [if_pos hone] at hdrop
      exact hdrop
    · next hone =>
      cases run
      rw [if_neg hone] at hdrop
      exact hdrop
  | downgrade alive =>
    exact ⟨h.counted, h.uncounted, h.nodup_dropped, h.mem_dropped, h.slot, h.inserted_issued,
      h.stored, h.nodup_returned, h.mem_returned⟩
  | @upgrade id map alive run =>
    rw [EntityMap.upgrade] at run
    cases hcount : world.map.counts id with
    | none =>
      rw [hcount] at run
      cases run
    | some n =>
      rw [hcount] at run
      have hn := (h.counted id n hcount).1
      by_cases hzero : n = 0
      · simp only [if_pos hzero] at run
        cases run
      · simp only [if_neg hzero, Option.some.injEq] at run
        rw [← run, hn]
        exact h.addHandle (by omega)
  | @lease handle map entity alive run =>
    rw [EntityMap.lease] at run
    cases hentity : world.map.entities handle.id with
    | none =>
      rw [hentity] at run
      cases run
    | some value =>
      rw [hentity] at run
      cases run
      apply h.moveEntity
      intro other
      by_cases heq : other = handle.id
      · rw [heq, Function.update_self, hentity, Multiset.count_cons_self]
        simp [Nat.add_comm]
      · rw [Function.update_of_ne heq, Multiset.count_cons_of_ne heq]
  | @endLease id rest entity alive =>
    apply h.moveEntity
    intro other
    by_cases heq : other = id
    · -- what is leased is not in the map
      have hstored := h.stored id
      rw [alive, Multiset.count_cons_self] at hstored
      rw [heq, Function.update_self, alive, Multiset.count_cons_self]
      have hnone : (world.map.entities id).isSome = false := by
        by_contra hsome
        rw [Bool.not_eq_false] at hsome
        rw [if_pos hsome] at hstored
        split at hstored <;> omega
      simp [hnone, Nat.add_comm]
    · rw [Function.update_of_ne heq, alive, Multiset.count_cons_of_ne heq]
  | takeDropped idle run => exact h.collected idle run

end

theorem Reachable.inv (h : Reachable world) : world.Inv := by
  -- induction on the operations
  induction h with
  | start => exact inv_start
  | step _ hstep ih => exact ih.step hstep

/-! ## Entity reference counting -/

/-- **Entity reference counting.**  Whatever operations went before: a count is the
    number of strong handles; an id waits, once, when its count is zero; a weak handle
    can be upgraded when a strong one exists; no handle is over-released and
    `take_dropped` does not panic; and it returns, with nothing leased, exactly the
    inserted entities without handles that it has not returned before. -/
theorem entity_reference_counting (h : Reachable world) :
    (∀ id n, world.map.counts id = some n → n = world.strongCount id) ∧
    (∀ id, 0 < world.strongCount id → world.map.counts id = some (world.strongCount id)) ∧
    world.map.droppedEntityIds.Nodup ∧
    (∀ id, id ∈ world.map.droppedEntityIds ↔ world.map.counts id = some 0) ∧
    (∀ id, ((world.map.upgrade id).isSome = true ↔ 0 < world.strongCount id) ∧
      (world.map.isUpgradable id = true ↔ 0 < world.strongCount id)) ∧
    (∀ handle ∈ world.handles, (∃ map, world.map.clone handle.id = .ok map) ∧
      ∃ map, world.map.drop handle.id = .ok map) ∧
    (∃ map entities, world.map.takeDropped = .ok (map, entities) ∧
      (world.leases = 0 → (entities.map Prod.fst).Nodup ∧ ∀ id,
        id ∈ entities.map Prod.fst ↔
          id ∈ world.inserted ∧ world.strongCount id = 0 ∧ id ∉ world.returned)) ∧
    world.returned.Nodup ∧
    (∀ id ∈ world.returned, id ∈ world.inserted ∧ world.strongCount id = 0) := by
  have hinv := h.inv
  refine ⟨fun id n hn => (hinv.counted id n hn).1, fun id => hinv.counts_eq, hinv.nodup_dropped,
    hinv.mem_dropped, ?_, ?_, ?_, hinv.nodup_returned, ?_⟩
  · intro id
    rw [EntityMap.upgrade, EntityMap.isUpgradable]
    cases hcount : world.map.counts id with
    | none =>
      rw [hinv.uncounted id hcount]
      simp
    | some n =>
      rw [← (hinv.counted id n hcount).1]
      by_cases hzero : n = 0
      · simp [hzero]
      · simp [hzero, Nat.pos_of_ne_zero hzero]
  · intro handle hmem
    have hpos := strongCount_pos hmem
    rw [EntityMap.clone, EntityMap.drop, hinv.counts_eq hpos]
    simp only [if_neg (Nat.ne_of_gt hpos)]
    refine ⟨⟨_, rfl⟩, ?_⟩
    split
    · exact ⟨_, rfl⟩
    · exact ⟨_, rfl⟩
  · obtain ⟨map, hrun, _, _, _⟩ := hinv.takeDropped
    refine ⟨map, _, hrun, ?_⟩
    intro hidle
    refine ⟨nodup_filterMap_fst world.map.entities hinv.nodup_dropped, ?_⟩
    intro id
    rw [mem_map]
    constructor
    · intro ⟨⟨other, entity⟩, hmem, heq⟩
      cases heq
      obtain ⟨hcount, hinserted, _⟩ := (hinv.mem_collected _ _).mp hmem
      refine ⟨hinserted, (hinv.counted _ _ hcount).1.symm, ?_⟩
      rw [hinv.mem_returned, hcount]
      simp
    · intro ⟨hinserted, hzero, hnot⟩
      -- inserted and not returned, so it has a count, which is zero
      rw [hinv.mem_returned] at hnot
      have hsome : world.map.counts id ≠ none := fun hnone => hnot ⟨hinserted, hnone⟩
      obtain ⟨n, hn⟩ := Option.ne_none_iff_exists'.mp hsome
      have hcount : world.map.counts id = some 0 := by
        rw [hn, (hinv.counted id n hn).1, hzero]
      obtain ⟨entity, hentity⟩ := Option.isSome_iff_exists.mp
        ((hinv.entities_isSome hidle id).mpr ⟨hinserted, hsome⟩)
      exact ⟨(id, entity), (hinv.mem_collected _ _).mpr ⟨hcount, hinserted, hentity⟩, rfl⟩
  · intro id hid
    obtain ⟨hinserted, hnone⟩ := (hinv.mem_returned id).mp hid
    exact ⟨hinserted, hinv.uncounted id hnone⟩

/-- Of three entities one has two handles, one was dropped and returned, and one waits. -/
theorem entity_reference_counting_threeEntities :
    ∃ world : EntityWorld Nat Char, world.Reachable ∧ world.returned = [1] ∧
      world.map.counts 0 = some 2 ∧ world.map.upgrade 1 = none ∧
      ∃ map entities, world.map.takeDropped = .ok (map, entities) ∧ 2 ∈ entities.map Prod.fst := by
  have hrun : ∃ world : EntityWorld Nat Char, world.Reachable ∧ world.returned = [1] ∧
      world.leases = 0 ∧ world.strongCount 0 = 2 ∧ world.strongCount 1 = 0 ∧
      2 ∈ world.inserted ∧ world.strongCount 2 = 0 := by
    have h := Reachable.start.step
      (.reserve (by decide : 0 ∉ (start : EntityWorld Nat Char).issued))
    have h := h.step (.insert 'a' (rfl : _ = Handle.slot 0 ::ₘ 0))
    have h := h.step (.clone (by decide : Handle.entity 0 ∈ _) rfl)
    have h := h.step (.reserve (by decide : 1 ∉ _))
    have h := h.step (.insert 'b' (rfl : _ = Handle.slot 1 ::ₘ .entity 0 ::ₘ .entity 0 ::ₘ 0))
    have h := h.step (.downgrade (by decide : Handle.entity 1 ∈ _))
    have h := h.step (.drop (rfl : _ = Handle.entity 1 ::ₘ .entity 0 ::ₘ .entity 0 ::ₘ 0) rfl)
    have h := h.step (.takeDropped rfl rfl)
    have h := h.step (.reserve (by decide : 2 ∉ _))
    have h := h.step (.insert 'c' (rfl : _ = Handle.slot 2 ::ₘ .entity 0 ::ₘ .entity 0 ::ₘ 0))
    have h := h.step (.drop (rfl : _ = Handle.entity 2 ::ₘ .entity 0 ::ₘ .entity 0 ::ₘ 0) rfl)
    exact ⟨_, h, rfl, rfl, by decide, by decide, by decide, by decide⟩
  obtain ⟨world, h, hreturned, hidle, htwo, hnone, hinserted, hzero⟩ := hrun
  obtain ⟨_, hcounts, _, _, hupgrade, _, ⟨map, entities, htake, hids⟩, _, _⟩ :=
    entity_reference_counting h
  refine ⟨world, h, hreturned, ?_, ?_, map, entities, htake, ?_⟩
  · rw [hcounts 0 (by omega), htwo]
  · have hnot : ¬ (world.map.upgrade 1).isSome = true := by
      rw [(hupgrade 1).1, hnone]
      exact Nat.lt_irrefl 0
    simpa using hnot
  · rw [(hids hidle).2, hreturned]
    exact ⟨hinserted, hzero, by simp⟩

end EntityWorld

end Gpui
