import Gpui.Lib.Overlay
import Gpui.Refineable.Derive

/-! # The algebra of refinements

    The refinements of a struct are layers, which lie over its values and over each
    other.  For each kind of field this is a matter of one option; a row of fields is
    a pair of a field and the rest, and a nested struct is a field by induction. -/

namespace Gpui

open List

namespace Refineable

open Overlay (Layers)

/-! ## Fields as layers -/

def Field.layers (field : Field) : Layers field.Wrapper where
  apply   := field.refinementRefined
  covers  := field.refinementIsSupersetOf
  empty   := field.default
  isEmpty := field.isEmpty
  minus   := field.refinementSubtract

def Fields.layers (struct : Fields) : Layers struct.Refinement where
  apply   := struct.refinementRefined
  covers  := struct.refinementIsSupersetOf
  empty   := struct.default
  isEmpty := struct.isEmpty
  minus   := struct.refinementSubtract

def Field.action (field : Field) : Overlay.Action field.Value field.Wrapper where
  apply  := field.refined
  covers := field.isSupersetOf

def Fields.action (struct : Fields) : Overlay.Action struct.Value struct.Refinement where
  apply  := struct.refined
  covers := struct.isSupersetOf

section Options

variable {T : Type} [DecidableEq T]

/-- The layers of a field that is an option in the refinement. -/
def optionLayers (T : Type) [DecidableEq T] : Layers (Option T) where
  apply   := assignOptional
  covers  := supersetOptional
  empty   := none
  isEmpty := Option.isNone
  minus   := subtractOptional

theorem supersetOptional_iff (self refinement : Option T) :
    supersetOptional self refinement = true ↔ assignOptional self refinement = self := by
  cases refinement with
  | none => simp [supersetOptional, assignOptional]
  | some value =>
    by_cases h : self = some value
    · simp [supersetOptional, assignOptional, h]
    · simp [supersetOptional, assignOptional, h, Ne.symm h]

theorem supersetOptional_subtract (self refinement : Option T) :
    supersetOptional self (subtractOptional self refinement) = true := by
  unfold subtractOptional
  by_cases h : self = refinement
  · simp [h, supersetOptional]
  · simp [h, supersetOptional]

theorem optionLayers_lawful : (optionLayers T).Lawful where
  apply_apply a b c := by
    cases c with
    | none => rfl
    | some value => rfl
  apply_empty a := rfl
  empty_apply a := by
    cases a with
    | none => rfl
    | some value => rfl
  isEmpty_iff a := Option.isNone_iff_eq_none
  covers_iff := supersetOptional_iff
  isEmpty_minus_iff a b := by
    show (subtractOptional a b).isNone = true ↔ supersetOptional b a = true
    unfold subtractOptional supersetOptional
    by_cases h : a = b
    · simp [h]
    · cases a with
      | none => simp
      | some value => simp [h, Ne.symm h]
  covers_apply_minus a b := by
    show supersetOptional (assignOptional b (subtractOptional a b)) a = true
    unfold subtractOptional
    by_cases h : a = b
    · simp [h, assignOptional, supersetOptional]
    · rw [if_neg h]
      cases a with
      | none | some _ => simp [assignOptional, supersetOptional]
  covers_minus := supersetOptional_subtract

theorem supersetRegular_subtract (self : T) (refinement : Option T) :
    supersetRegular self (subtractRegular self refinement) = true := by
  cases refinement with
  | none => simp [subtractRegular, supersetRegular]
  | some value =>
    by_cases h : self = value
    · simp [subtractRegular, supersetRegular, h]
    · simp [subtractRegular, supersetRegular, h]

theorem regular_lawful :
    (⟨assignRegular, supersetRegular⟩ : Overlay.Action T (Option T)).Lawful (optionLayers T) where
  apply_apply x a b := by
    cases b with
    | none => rfl
    | some value => rfl
  apply_empty x := rfl
  covers_iff x a := by
    show supersetRegular x a = true ↔ assignRegular x a = x
    cases a with
    | none => simp [supersetRegular, assignRegular]
    | some value =>
      by_cases h : x = value
      · simp [supersetRegular, assignRegular, h]
      · simp [supersetRegular, assignRegular, h, Ne.symm h]

end Options

/-! ## Structs as layers -/

mutual
theorem Field.layers_lawful : ∀ field : Field, field.layers.Lawful
  | .refineable struct   => struct.layers_lawful
  | .refinement struct   => struct.layers_lawful
  | @Field.optional T _  => optionLayers_lawful (T := T)
  | @Field.regular T _   => optionLayers_lawful (T := T)

/-- **Refinements are layers**: a monoid with its differences, for every struct. -/
theorem Fields.layers_lawful : ∀ struct : Fields, struct.layers.Lawful
  | .last field      => field.layers_lawful
  | .more field rest => field.layers_lawful.prod rest.layers_lawful
end

mutual
theorem Field.action_lawful : ∀ field : Field, field.action.Lawful field.layers
  | .refineable struct   => struct.action_lawful
  | .refinement struct   => struct.layers_lawful.action
  | @Field.optional T _  => (optionLayers_lawful (T := T)).action
  | @Field.regular T _   => regular_lawful (T := T)

/-- **Refinements lie over values**, for every struct. -/
theorem Fields.action_lawful : ∀ struct : Fields, struct.action.Lawful struct.layers
  | .last field      => field.action_lawful
  | .more field rest => field.action_lawful.prod rest.action_lawful
end

/-! ## In place and by value -/

mutual
theorem Field.refinementRefine_eq : ∀ field : Field,
    field.refinementRefine = field.refinementRefined
  | .refineable struct   => struct.refinementRefine_eq
  | .refinement struct   => struct.refinementRefine_eq
  | @Field.optional _ _  => rfl
  | @Field.regular _ _   => rfl

theorem Fields.refinementRefine_eq : ∀ struct : Fields,
    struct.refinementRefine = struct.refinementRefined
  | .last field      => field.refinementRefine_eq
  | .more field rest => by
      funext self refinement
      exact Prod.ext (congrFun (congrFun field.refinementRefine_eq _) _)
        (congrFun (congrFun rest.refinementRefine_eq _) _)
end

mutual
theorem Field.refine_eq : ∀ field : Field, field.refine = field.refined
  | .refineable struct   => struct.refine_eq
  | .refinement struct   => struct.refinementRefine_eq
  | @Field.optional _ _  => rfl
  | @Field.regular _ _   => rfl

theorem Fields.refine_eq : ∀ struct : Fields, struct.refine = struct.refined
  | .last field      => field.refine_eq
  | .more field rest => by
      funext self refinement
      exact Prod.ext (congrFun (congrFun field.refine_eq _) _)
        (congrFun (congrFun rest.refine_eq _) _)
end

/-! ## What `subtract` takes from a value -/

mutual
theorem Field.isSupersetOf_subtract : ∀ (field : Field) (self : field.Value)
    (refinement : field.Wrapper), field.isSupersetOf self (field.subtract self refinement) = true
  | .refineable struct,  self, refinement => struct.isSupersetOf_subtract self refinement
  | .refinement struct,  self, refinement => struct.layers_lawful.covers_minus self refinement
  | @Field.optional T _, self, refinement => supersetOptional_subtract (T := T) self refinement
  | @Field.regular T _,  self, refinement => supersetRegular_subtract (T := T) self refinement

theorem Fields.isSupersetOf_subtract : ∀ (struct : Fields) (self : struct.Value)
    (refinement : struct.Refinement),
      struct.isSupersetOf self (struct.subtract self refinement) = true
  | .last field,      self, refinement => field.isSupersetOf_subtract self refinement
  | .more field rest, self, refinement => by
      show (field.isSupersetOf self.1 _ && rest.isSupersetOf self.2 _) = true
      rw [Bool.and_eq_true]
      exact ⟨field.isSupersetOf_subtract self.1 refinement.1,
        rest.isSupersetOf_subtract self.2 refinement.2⟩
end

/-! ## Cascades -/

namespace Cascade

variable {struct : Fields}

/-- The cascades that `default`, `reserve`, `base` and `set` build, with what the base was made
    and, in the order of their reservation, the slots with what was stored in each. -/
inductive Built : Cascade struct → struct.Refinement →
    List (CascadeSlot × Option struct.Refinement) → Prop where
  | default : Built default struct.default []
  | reserve {cascade : Cascade struct} {base : struct.Refinement}
      {stored : List (CascadeSlot × Option struct.Refinement)} :
      Built cascade base stored →
      Built cascade.reserve.1 base (stored ++ [(cascade.reserve.2, none)])
  | base {cascade cascade' : Cascade struct} {base : struct.Refinement}
      {stored : List (CascadeSlot × Option struct.Refinement)}
      {f : struct.Refinement → struct.Refinement} :
      Built cascade base stored → cascade.base f = .ok cascade' → Built cascade' (f base) stored
  | set {cascade cascade' : Cascade struct} {base : struct.Refinement}
      {stored : List (CascadeSlot × Option struct.Refinement)} {slot : CascadeSlot}
      {refinement : Option struct.Refinement} :
      Built cascade base stored → slot ∈ stored.map Prod.fst →
      cascade.set slot refinement = .ok cascade' →
      Built cascade' base (stored.map (fun s => if s.1 = slot then (slot, refinement) else s))

/-- The slots hold what was stored in them, behind the base. -/
structure Sound (cascade : Cascade struct) (base : struct.Refinement)
    (stored : List (CascadeSlot × Option struct.Refinement)) : Prop where
  holds : cascade = some base :: stored.map Prod.snd
  slots : stored.map Prod.fst = List.range' 1 stored.length

variable {cascade : Cascade struct} {base : struct.Refinement}
variable {stored : List (CascadeSlot × Option struct.Refinement)}

theorem Sound.slot_lt (sound : Sound cascade base stored) {slot : CascadeSlot}
    (hslot : slot ∈ stored.map Prod.fst) : 0 < slot ∧ slot < cascade.length := by
  rw [sound.slots, mem_range'_1] at hslot
  rw [sound.holds, length_cons, length_map, Nat.add_comm]
  exact hslot

theorem Sound.set (sound : Sound cascade base stored) {slot : CascadeSlot}
    (hslot : slot ∈ stored.map Prod.fst) (refinement : Option struct.Refinement) :
    Sound (List.set cascade slot refinement) base
      (stored.map (fun s => if s.1 = slot then (slot, refinement) else s)) := by
  obtain ⟨slot, rfl⟩ := Nat.exists_eq_succ_of_ne_zero (sound.slot_lt hslot).1.ne'
  constructor
  · rw [sound.holds, set_cons_succ]
    congr 1
    apply ext_getElem?
    intro i
    rw [getElem?_set, length_map, map_map, getElem?_map, getElem?_map]
    cases hs : stored[i]? with
    | none =>
      have hle := getElem?_eq_none_iff.mp hs
      split
      · rw [if_neg (by omega)]
        rfl
      · rfl
    | some s =>
      obtain ⟨hlt, rfl⟩ := List.getElem?_eq_some_iff.mp hs
      have hfst : stored[i].1 = i + 1 := by
        have hget := congrArg (fun slots => slots[i]?) sound.slots
        simpa [hlt, Nat.add_comm] using hget
      by_cases hi : slot = i
      · simp [hi, hlt, hfst]
      · simp [hi, hfst, Ne.symm hi]
  · rw [length_map, ← sound.slots, map_map]
    apply map_congr_left
    intro s _
    dsimp only [Function.comp]
    split
    · next h => exact h.symm
    · rfl

theorem Built.sound (built : Built cascade base stored) : Sound cascade base stored := by
  induction built with
  | default => exact ⟨rfl, rfl⟩
  | reserve _ ih =>
    constructor
    · rw [ih.holds]
      simp [Cascade.reserve]
    · rw [map_append, ih.slots, length_append, length_singleton,
        range'_1_concat, ih.holds]
      simp [Cascade.reserve, Nat.add_comm]
  | base _ hbase ih =>
    rw [ih.holds] at hbase
    obtain rfl := Except.ok.inj hbase
    exact ⟨rfl, ih.slots⟩
  | set _ hslot hset ih =>
    rw [Cascade.set, if_pos (ih.slot_lt hslot).2] at hset
    obtain rfl := Except.ok.inj hset
    exact ih.set hslot _

/-- Nothing that is done with its own slots makes a cascade panic. -/
theorem Sound.returns (sound : Sound cascade base stored) :
    (∀ f, ∃ cascade', cascade.base f = .ok cascade') ∧
      ∀ slot ∈ stored.map Prod.fst, ∀ refinement,
        ∃ cascade', cascade.set slot refinement = .ok cascade' := by
  constructor
  · intro f
    rw [sound.holds]
    exact ⟨_, rfl⟩
  · intro slot hslot refinement
    exact ⟨_, if_pos (sound.slot_lt hslot).2⟩

theorem merged_eq (base : struct.Refinement) (rest : List (Option struct.Refinement)) :
    Cascade.merged (some base :: rest) =
      .ok (rest.reduceOption.foldl struct.refinementRefined base) := by
  rw [← struct.refinementRefine_eq]
  rfl

end Cascade

/-! ## The laws -/

/-- What holds of the code that the macro writes for a struct. -/
structure RefinementAlgebra (struct : Fields) : Prop where
  refine_eq : ∀ x a, struct.refine x a = struct.refined x a
  refinementRefine_eq : ∀ a b, struct.refinementRefine a b = struct.refinementRefined a b
  refined_refined : ∀ x a b,
    struct.refined (struct.refined x a) b = struct.refined x (struct.refinementRefined a b)
  refinementRefined_assoc : ∀ a b c,
    struct.refinementRefined (struct.refinementRefined a b) c =
      struct.refinementRefined a (struct.refinementRefined b c)
  isEmpty_default : struct.isEmpty struct.default = true
  refined_empty : ∀ x e, struct.isEmpty e = true → struct.refined x e = x
  refinementRefined_empty : ∀ a e, struct.isEmpty e = true →
    struct.refinementRefined a e = a ∧ struct.refinementRefined e a = a
  isSupersetOf_iff : ∀ x a, struct.isSupersetOf x a = true ↔ struct.refined x a = x
  refinementIsSupersetOf_iff : ∀ a b,
    struct.refinementIsSupersetOf a b = true ↔ struct.refinementRefined a b = a
  isEmpty_subtract_iff : ∀ a b, struct.isEmpty (struct.refinementSubtract a b) = true ↔
    struct.refinementIsSupersetOf b a = true
  superset_subtract : ∀ a b, struct.refinementIsSupersetOf
    (struct.refinementRefined b (struct.refinementSubtract a b)) a = true
  cascade_returns : ∀ (cascade : Cascade struct) base stored,
    Cascade.Built cascade base stored →
      (∀ f, ∃ cascade', cascade.base f = .ok cascade') ∧
        ∀ slot ∈ stored.map Prod.fst, ∀ refinement,
          ∃ cascade', cascade.set slot refinement = .ok cascade'
  fromCascade : ∀ (cascade : Cascade struct) base stored, Cascade.Built cascade base stored →
    (∀ default, struct.fromCascade default cascade =
      .ok ((stored.map Prod.snd).reduceOption.foldl struct.refined (struct.refined default base))) ∧
    struct.refinementFromCascade cascade =
      .ok ((stored.map Prod.snd).reduceOption.foldl struct.refinementRefined
        (struct.refinementRefined struct.default base))

/-- **Refinements form an algebra**, whatever the struct. -/
theorem refinement_algebra (struct : Fields) : RefinementAlgebra struct where
  refine_eq x a := congrFun (congrFun struct.refine_eq x) a
  refinementRefine_eq a b := congrFun (congrFun struct.refinementRefine_eq a) b
  refined_refined := struct.action_lawful.apply_apply
  refinementRefined_assoc := struct.layers_lawful.apply_apply
  isEmpty_default := (struct.layers_lawful.isEmpty_iff _).mpr rfl
  refined_empty x e hempty := by
    obtain rfl := (struct.layers_lawful.isEmpty_iff e).mp hempty
    exact struct.action_lawful.apply_empty x
  refinementRefined_empty a e hempty := by
    obtain rfl := (struct.layers_lawful.isEmpty_iff e).mp hempty
    exact ⟨struct.layers_lawful.apply_empty a, struct.layers_lawful.empty_apply a⟩
  isSupersetOf_iff := struct.action_lawful.covers_iff
  refinementIsSupersetOf_iff := struct.layers_lawful.covers_iff
  isEmpty_subtract_iff := struct.layers_lawful.isEmpty_minus_iff
  superset_subtract := struct.layers_lawful.covers_apply_minus
  cascade_returns cascade base stored built := built.sound.returns
  fromCascade cascade base stored built := by
    rw [built.sound.holds]
    constructor
    · intro default
      rw [Fields.fromCascade, Cascade.merged_eq]
      exact congrArg Except.ok (struct.action_lawful.apply_foldl default base _)
    · rw [Fields.refinementFromCascade, Cascade.merged_eq]
      exact congrArg Except.ok (struct.layers_lawful.action.apply_foldl struct.default base _)

end Refineable

end Gpui
