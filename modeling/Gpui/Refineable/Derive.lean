import Gpui.Panic

/-! # `#[derive(Refineable)]`

    The macro writes its code field by field.  A struct is modelled by its row of
    fields, each of one of the kinds that the macro tells apart, so that a function
    of the macro is one function on every struct.  A value is the tuple of its
    fields, and so is a refinement. -/

namespace Gpui

namespace Refineable

mutual
/-- A field: what `is_refineable_field` and `is_optional_field` say of it, and its type. -/
inductive Field : Type 1 where
  | regular (T : Type) [DecidableEq T]
  | optional (T : Type) [DecidableEq T]
  /-- `#[refineable]` on a struct `Foo`; the field of the refinement is a `FooRefinement`. -/
  | refineable (struct : Fields)
  /-- `#[refineable]` on a `FooRefinement`, which remains one in the refinement. -/
  | refinement (struct : Fields)

/-- The named fields of a struct; there is at least one. -/
inductive Fields : Type 1 where
  | last (field : Field)
  | more (field : Field) (rest : Fields)
end

mutual
/-- The type of a field. -/
def Field.Value : Field → Type
  | @Field.regular T _  => T
  | @Field.optional T _ => Option T
  | .refineable struct  => struct.Value
  | .refinement struct  => struct.Refinement

/-- `get_wrapper_type`: the type of the field in the refinement. -/
def Field.Wrapper : Field → Type
  | @Field.regular T _  => Option T
  | @Field.optional T _ => Option T
  | .refineable struct  => struct.Refinement
  | .refinement struct  => struct.Refinement

def Fields.Value : Fields → Type
  | .last field      => field.Value
  | .more field rest => field.Value × rest.Value

def Fields.Refinement : Fields → Type
  | .last field      => field.Wrapper
  | .more field rest => field.Wrapper × rest.Refinement
end

/-! ## The code for one field -/

section OneField

variable {T : Type}

/-- `if let Some(value) = refinement.name { self.name = value }`. -/
def assignRegular (self : T) (refinement : Option T) : T :=
  match refinement with
  | some value => value
  | none       => self

/-- `if let Some(value) = refinement.name { self.name = Some(value) }`. -/
def assignOptional (self refinement : Option T) : Option T :=
  match refinement with
  | some value => some value
  | none       => self

variable [DecidableEq T]

/-- `false` where the code returns `false` early. -/
def supersetRegular (self : T) (refinement : Option T) : Bool :=
  match refinement with
  | some refinementValue => if self ≠ refinementValue then false else true
  | none                 => true

def supersetOptional (self refinement : Option T) : Bool :=
  if refinement.isSome ∧ self ≠ refinement then false else true

def subtractRegular (self : T) (refinement : Option T) : Option T :=
  match refinement with
  | some refinementValue => if self = refinementValue then none else some self
  | none                 => some self

def subtractOptional (self refinement : Option T) : Option T :=
  if self = refinement then none else self

end OneField

/-! ## The refinement type

    Its fields are options, or refinements of nested structs. -/

mutual
/-- `refinement_refine_assignments`. -/
def Field.refinementRefine : (field : Field) → field.Wrapper → field.Wrapper → field.Wrapper
  | .refineable struct,  self, refinement => struct.refinementRefine self refinement
  | .refinement struct,  self, refinement => struct.refinementRefine self refinement
  | @Field.optional _ _, self, refinement => assignOptional self refinement
  | @Field.regular _ _,  self, refinement => assignOptional self refinement

def Fields.refinementRefine :
    (struct : Fields) → struct.Refinement → struct.Refinement → struct.Refinement
  | .last field,      self, refinement => field.refinementRefine self refinement
  | .more field rest, self, refinement =>
      (field.refinementRefine self.1 refinement.1, rest.refinementRefine self.2 refinement.2)
end

mutual
/-- `refinement_refined_assignments`. -/
def Field.refinementRefined : (field : Field) → field.Wrapper → field.Wrapper → field.Wrapper
  | .refineable struct,  self, refinement => struct.refinementRefined self refinement
  | .refinement struct,  self, refinement => struct.refinementRefined self refinement
  | @Field.optional _ _, self, refinement => assignOptional self refinement
  | @Field.regular _ _,  self, refinement => assignOptional self refinement

def Fields.refinementRefined :
    (struct : Fields) → struct.Refinement → struct.Refinement → struct.Refinement
  | .last field,      self, refinement => field.refinementRefined self refinement
  | .more field rest, self, refinement =>
      (field.refinementRefined self.1 refinement.1, rest.refinementRefined self.2 refinement.2)
end

mutual
/-- `refinement_is_superset_conditions`. -/
def Field.refinementIsSupersetOf : (field : Field) → field.Wrapper → field.Wrapper → Bool
  | .refineable struct,  self, refinement => struct.refinementIsSupersetOf self refinement
  | .refinement struct,  self, refinement => struct.refinementIsSupersetOf self refinement
  | @Field.optional _ _, self, refinement => supersetOptional self refinement
  | @Field.regular _ _,  self, refinement => supersetOptional self refinement

def Fields.refinementIsSupersetOf :
    (struct : Fields) → struct.Refinement → struct.Refinement → Bool
  | .last field,      self, refinement => field.refinementIsSupersetOf self refinement
  | .more field rest, self, refinement =>
      field.refinementIsSupersetOf self.1 refinement.1 &&
        rest.refinementIsSupersetOf self.2 refinement.2
end

mutual
/-- `refinement_subtract_assignments`. -/
def Field.refinementSubtract : (field : Field) → field.Wrapper → field.Wrapper → field.Wrapper
  | .refineable struct,  self, refinement => struct.refinementSubtract self refinement
  | .refinement struct,  self, refinement => struct.refinementSubtract self refinement
  | @Field.optional _ _, self, refinement => subtractOptional self refinement
  | @Field.regular _ _,  self, refinement => subtractOptional self refinement

def Fields.refinementSubtract :
    (struct : Fields) → struct.Refinement → struct.Refinement → struct.Refinement
  | .last field,      self, refinement => field.refinementSubtract self refinement
  | .more field rest, self, refinement =>
      (field.refinementSubtract self.1 refinement.1, rest.refinementSubtract self.2 refinement.2)
end

mutual
/-- `refinement_is_empty_conditions`. -/
def Field.isEmpty : (field : Field) → field.Wrapper → Bool
  | .refineable struct,  self => struct.isEmpty self
  | .refinement struct,  self => struct.isEmpty self
  | @Field.optional _ _, self => Option.isNone self
  | @Field.regular _ _,  self => Option.isNone self

def Fields.isEmpty : (struct : Fields) → struct.Refinement → Bool
  | .last field,      self => field.isEmpty self
  | .more field rest, self => field.isEmpty self.1 && rest.isEmpty self.2
end

mutual
/-- `Default` of the refinement type. -/
def Field.default : (field : Field) → field.Wrapper
  | .refineable struct  => struct.default
  | .refinement struct  => struct.default
  | @Field.optional _ _ => none
  | @Field.regular _ _  => none

def Fields.default : (struct : Fields) → struct.Refinement
  | .last field      => field.default
  | .more field rest => (field.default, rest.default)
end

/-! ## The struct itself -/

mutual
/-- `refineable_refine_assignments`. -/
def Field.refine : (field : Field) → field.Value → field.Wrapper → field.Value
  | .refineable struct,  self, refinement => struct.refine self refinement
  | .refinement struct,  self, refinement => struct.refinementRefine self refinement
  | @Field.optional _ _, self, refinement => assignOptional self refinement
  | @Field.regular _ _,  self, refinement => assignRegular self refinement

def Fields.refine : (struct : Fields) → struct.Value → struct.Refinement → struct.Value
  | .last field,      self, refinement => field.refine self refinement
  | .more field rest, self, refinement =>
      (field.refine self.1 refinement.1, rest.refine self.2 refinement.2)
end

mutual
/-- `refineable_refined_assignments`. -/
def Field.refined : (field : Field) → field.Value → field.Wrapper → field.Value
  | .refineable struct,  self, refinement => struct.refined self refinement
  | .refinement struct,  self, refinement => struct.refinementRefined self refinement
  | @Field.optional _ _, self, refinement => assignOptional self refinement
  | @Field.regular _ _,  self, refinement => assignRegular self refinement

def Fields.refined : (struct : Fields) → struct.Value → struct.Refinement → struct.Value
  | .last field,      self, refinement => field.refined self refinement
  | .more field rest, self, refinement =>
      (field.refined self.1 refinement.1, rest.refined self.2 refinement.2)
end

mutual
/-- `refineable_is_superset_conditions`. -/
def Field.isSupersetOf : (field : Field) → field.Value → field.Wrapper → Bool
  | .refineable struct,  self, refinement => struct.isSupersetOf self refinement
  | .refinement struct,  self, refinement => struct.refinementIsSupersetOf self refinement
  | @Field.optional _ _, self, refinement => supersetOptional self refinement
  | @Field.regular T _,  self, refinement => supersetRegular (T := T) self refinement

def Fields.isSupersetOf : (struct : Fields) → struct.Value → struct.Refinement → Bool
  | .last field,      self, refinement => field.isSupersetOf self refinement
  | .more field rest, self, refinement =>
      field.isSupersetOf self.1 refinement.1 && rest.isSupersetOf self.2 refinement.2
end

mutual
/-- `refineable_subtract_assignments`. -/
def Field.subtract : (field : Field) → field.Value → field.Wrapper → field.Wrapper
  | .refineable struct,  self, refinement => struct.subtract self refinement
  | .refinement struct,  self, refinement => struct.refinementSubtract self refinement
  | @Field.optional _ _, self, refinement => subtractOptional self refinement
  | @Field.regular T _,  self, refinement => subtractRegular (T := T) self refinement

def Fields.subtract : (struct : Fields) → struct.Value → struct.Refinement → struct.Refinement
  | .last field,      self, refinement => field.subtract self refinement
  | .more field rest, self, refinement =>
      (field.subtract self.1 refinement.1, rest.subtract self.2 refinement.2)
end

end Refineable

end Gpui

/-! # Cascades

    A cascade is a row of slots for refinements, of which the first, the base, is
    always filled.  Later slots take precedence. -/

namespace Gpui

namespace Refineable

/-- `Cascade<S>`, for a struct or for its refinement: both have the same refinements. -/
abbrev Cascade (struct : Fields) := List (Option struct.Refinement)

/-- The position of a slot. -/
abbrev CascadeSlot := Nat

namespace Cascade

variable {struct : Fields}

def default : Cascade struct :=
  [some struct.default]

def reserve (cascade : Cascade struct) : Cascade struct × CascadeSlot :=
  let cascade := cascade ++ [none]
  (cascade, cascade.length - 1)

/-- `base` hands out a mutable reference; `f` is what is done with it. -/
def base (cascade : Cascade struct) (f : struct.Refinement → struct.Refinement) :
    Run (Cascade struct) :=
  match cascade with
  | some base :: rest => .ok (some (f base) :: rest)
  | none :: _         => .error .unwrapNone
  | []                => .error .indexOutOfRange

def set (cascade : Cascade struct) (slot : CascadeSlot) (refinement : Option struct.Refinement) :
    Run (Cascade struct) :=
  if slot < cascade.length then .ok (List.set cascade slot refinement)
  else .error .indexOutOfRange

def merged (cascade : Cascade struct) : Run struct.Refinement := do
  match ← getIndex cascade 0 with
  | some merged => pure ((cascade.drop 1).reduceOption.foldl struct.refinementRefine merged)
  | none        => throw .unwrapNone

end Cascade

variable {struct : Fields}

/-- `from_cascade` of the struct, whose `Default` is its own. -/
def Fields.fromCascade (struct : Fields) (default : struct.Value) (cascade : Cascade struct) :
    Run struct.Value := do
  pure (struct.refined default (← cascade.merged))

/-- `from_cascade` of the refinement. -/
def Fields.refinementFromCascade (struct : Fields) (cascade : Cascade struct) :
    Run struct.Refinement := do
  pure (struct.refinementRefined struct.default (← cascade.merged))

end Refineable

end Gpui
