import Mathlib

/-! # Entities: the model

    The entities of an application stand in one map, by id.  Strong handles are
    counted; when the last one of an id goes, the id waits in a list until the
    entity is collected.  A weak handle can be made strong while the count is not
    zero.

    Ids are the keys of a slot map, which gives out each key once.  Counts are
    natural numbers, and the operations on a count are atomic. -/

namespace Gpui

/-- The ways the operations on entities can panic. -/
inductive EntityPanic where
  /-- "detected over-release of a entity". -/
  | overRelease
  /-- "cannot update while it is already being updated". -/
  | doubleLease
  | unwrapNone
  /-- "dropped an entity that was referenced". -/
  | debugAssert
  deriving DecidableEq, Repr

structure EntityMap (I V : Type) where
  entities : I → Option V
  accessedEntities : Finset I
  counts : I → Option Nat
  droppedEntityIds : List I

namespace EntityMap

variable {I V : Type} [DecidableEq I]

def new : EntityMap I V := ⟨fun _ => none, ∅, fun _ => none, []⟩

/-- A new id, with a slot that holds one strong handle. -/
def reserve (map : EntityMap I V) (id : I) : EntityMap I V :=
  { map with counts := Function.update map.counts id (some 1) }

/-- Fills a slot. -/
def insert (map : EntityMap I V) (id : I) (entity : V) : EntityMap I V :=
  { map with
    accessedEntities := Insert.insert id map.accessedEntities
    entities := Function.update map.entities id (some entity) }

/-- `Clone` of a strong handle. -/
def clone (map : EntityMap I V) (id : I) : Except EntityPanic (EntityMap I V) :=
  match map.counts id with
  | none => .error .overRelease
  | some prevCount =>
      if prevCount = 0 then .error .overRelease
      else .ok { map with counts := Function.update map.counts id (some (prevCount + 1)) }

/-- `Drop` of a strong handle. -/
def drop (map : EntityMap I V) (id : I) : Except EntityPanic (EntityMap I V) :=
  match map.counts id with
  | none => .error .overRelease
  | some prevCount =>
      if prevCount = 0 then .error .overRelease
      else
        let map := { map with counts := Function.update map.counts id (some (prevCount - 1)) }
        if prevCount = 1 then
          -- the last handle: the entity waits for `take_dropped`
          .ok { map with droppedEntityIds := map.droppedEntityIds ++ [id] }
        else .ok map

def isUpgradable (map : EntityMap I V) (id : I) : Bool :=
  decide (0 < (map.counts id).getD 0)

/-- Makes a weak handle strong, if the count is not zero. -/
def upgrade (map : EntityMap I V) (id : I) : Option (EntityMap I V) :=
  match map.counts id with
  | none => none
  | some refCount =>
      if refCount = 0 then none
      else some { map with counts := Function.update map.counts id (some (refCount + 1)) }

/-- Moves an entity out of the map. -/
def lease (map : EntityMap I V) (id : I) : Except EntityPanic (EntityMap I V × V) :=
  match map.entities id with
  | none => .error .doubleLease
  | some entity => .ok ({ map with
      accessedEntities := Insert.insert id map.accessedEntities
      entities := Function.update map.entities id none }, entity)

/-- Moves an entity back. -/
def endLease (map : EntityMap I V) (id : I) (entity : V) : EntityMap I V :=
  { map with entities := Function.update map.entities id (some entity) }

/-- Collects the entities of some dropped ids. -/
def collect (map : EntityMap I V) : List I → Except EntityPanic (EntityMap I V × List (I × V))
  | [] => .ok (map, [])
  | id :: ids =>
      match map.counts id with
      | none => .error .unwrapNone
      | some count =>
          if count ≠ 0 then .error .debugAssert
          else do
            let (collected, rest) ← collect
              { map with
                counts := Function.update map.counts id none
                accessedEntities := map.accessedEntities.erase id
                entities := Function.update map.entities id none } ids
            -- a reserved slot may not have been filled
            .ok (collected, ((map.entities id).map (fun entity => (id, entity))).toList ++ rest)

def takeDropped (map : EntityMap I V) : Except EntityPanic (EntityMap I V × List (I × V)) :=
  collect { map with droppedEntityIds := [] } map.droppedEntityIds

end EntityMap

/-! ## The program around the map -/

/-- A strong handle: the one of a slot that is not filled yet, or one of an entity. -/
inductive Handle (I : Type) where
  | slot (id : I)
  | entity (id : I)
  deriving DecidableEq, Repr

def Handle.id {I : Type} : Handle I → I
  | slot id   => id
  | entity id => id

/-- The number of handles of an id. -/
def strongHandles {I : Type} [DecidableEq I] (handles : Multiset (Handle I)) (id : I) : Nat :=
  handles.countP (fun handle => handle.id = id)

/-- A map, with the handles and the leases that are alive.  `issued`, `inserted` and
    `returned` are the history: the ids the slot map gave out, those that were filled
    with an entity, and those that `take_dropped` returned. -/
structure EntityWorld (I V : Type) where
  map : EntityMap I V
  handles : Multiset (Handle I)
  weakHandles : Finset I
  leases : Multiset I
  issued : Finset I
  inserted : Finset I
  returned : List I

namespace EntityWorld

variable {I V : Type} [DecidableEq I]

def start : EntityWorld I V := ⟨EntityMap.new, 0, ∅, 0, ∅, ∅, []⟩

/-- One operation.  A handle or a lease has to be alive to be used, and `take_dropped`
    runs while nothing is leased.  An operation that panics is no step. -/
inductive Step : EntityWorld I V → EntityWorld I V → Prop where
  | reserve {world : EntityWorld I V} {id : I} (fresh : id ∉ world.issued) :
      Step world { world with
        map := world.map.reserve id
        handles := .slot id ::ₘ world.handles
        issued := Insert.insert id world.issued }
  | insert {world : EntityWorld I V} {id : I} {rest : Multiset (Handle I)} (entity : V)
      (alive : world.handles = .slot id ::ₘ rest) :
      Step world { world with
        map := world.map.insert id entity
        handles := .entity id ::ₘ rest
        inserted := Insert.insert id world.inserted }
  | clone {world : EntityWorld I V} {handle : Handle I} {map : EntityMap I V}
      (alive : handle ∈ world.handles) (run : world.map.clone handle.id = .ok map) :
      Step world { world with map := map, handles := .entity handle.id ::ₘ world.handles }
  | drop {world : EntityWorld I V} {handle : Handle I} {rest : Multiset (Handle I)}
      {map : EntityMap I V} (alive : world.handles = handle ::ₘ rest)
      (run : world.map.drop handle.id = .ok map) :
      Step world { world with map := map, handles := rest }
  | downgrade {world : EntityWorld I V} {handle : Handle I} (alive : handle ∈ world.handles) :
      Step world { world with weakHandles := Insert.insert handle.id world.weakHandles }
  | upgrade {world : EntityWorld I V} {id : I} {map : EntityMap I V}
      (alive : id ∈ world.weakHandles) (run : world.map.upgrade id = some map) :
      Step world { world with map := map, handles := .entity id ::ₘ world.handles }
  | lease {world : EntityWorld I V} {handle : Handle I} {map : EntityMap I V} {entity : V}
      (alive : handle ∈ world.handles) (run : world.map.lease handle.id = .ok (map, entity)) :
      Step world { world with map := map, leases := handle.id ::ₘ world.leases }
  | endLease {world : EntityWorld I V} {id : I} {rest : Multiset I} (entity : V)
      (alive : world.leases = id ::ₘ rest) :
      Step world { world with map := world.map.endLease id entity, leases := rest }
  | takeDropped {world : EntityWorld I V} {map : EntityMap I V} {entities : List (I × V)}
      (idle : world.leases = 0) (run : world.map.takeDropped = .ok (map, entities)) :
      Step world { world with
        map := map
        returned := world.returned ++ entities.map Prod.fst }

inductive Reachable : EntityWorld I V → Prop where
  | start : Reachable start
  | step {world next : EntityWorld I V} (h : Reachable world) (hstep : Step world next) :
      Reachable next

/-- The number of strong handles of an id that are alive. -/
def strongCount (world : EntityWorld I V) (id : I) : Nat :=
  strongHandles world.handles id

end EntityWorld

end Gpui
