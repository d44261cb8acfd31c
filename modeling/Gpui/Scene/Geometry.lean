import Mathlib

/-! # Geometry: points, sizes and bounds

    Rectangles over an ordered coordinate type with exact arithmetic.  Widths and
    heights may be negative: the corners are then the other way round. -/

namespace Gpui

structure Point (U : Type) where
  x : U
  y : U
  deriving DecidableEq, Repr

structure Size (U : Type) where
  width : U
  height : U
  deriving DecidableEq, Repr

structure Bounds (U : Type) where
  origin : Point U
  size : Size U
  deriving DecidableEq, Repr

namespace Point

variable {U : Type} [LinearOrder U]

def max (self other : Point U) : Point U where
  x := if self.x > other.x then self.x else other.x
  y := if self.y > other.y then self.y else other.y

def min (self other : Point U) : Point U where
  x := if self.x ≤ other.x then self.x else other.x
  y := if self.y ≤ other.y then self.y else other.y

/-- Neither coordinate of the first point is larger. -/
def Le (p q : Point U) : Prop :=
  p.x ≤ q.x ∧ p.y ≤ q.y

theorem Le.refl (p : Point U) : p.Le p :=
  ⟨le_refl _, le_refl _⟩

theorem Le.trans {p q r : Point U} (hpq : p.Le q) (hqr : q.Le r) : p.Le r :=
  ⟨le_trans hpq.1 hqr.1, le_trans hpq.2 hqr.2⟩

theorem max_eq (p q : Point U) : p.max q = ⟨p.x ⊔ q.x, p.y ⊔ q.y⟩ := by
  simp only [max, gt_iff_lt, mk.injEq]
  constructor
  all_goals
    split
    · next h => exact (sup_eq_left.mpr h.le).symm
    · next h => exact (sup_eq_right.mpr (not_lt.mp h)).symm

theorem min_eq (p q : Point U) : p.min q = ⟨p.x ⊓ q.x, p.y ⊓ q.y⟩ := by
  simp only [min, mk.injEq]
  constructor
  all_goals
    split
    · next h => exact (inf_eq_left.mpr h).symm
    · next h => exact (inf_eq_right.mpr (not_le.mp h).le).symm

end Point

namespace Bounds

variable {U : Type} [AddCommGroup U] [LinearOrder U]

def bottomRight (self : Bounds U) : Point U where
  x := self.origin.x + self.size.width
  y := self.origin.y + self.size.height

def fromCorners (topLeft bottomRight : Point U) : Bounds U where
  origin := topLeft
  size := ⟨bottomRight.x - topLeft.x, bottomRight.y - topLeft.y⟩

/-- Strict on every side: bounds that only touch do not intersect. -/
def intersects (self other : Bounds U) : Bool :=
  self.origin.x < other.bottomRight.x && self.bottomRight.x > other.origin.x &&
    self.origin.y < other.bottomRight.y && self.bottomRight.y > other.origin.y

def intersect (self other : Bounds U) : Bounds U :=
  let upperLeft := self.origin.max other.origin
  fromCorners upperLeft ((self.bottomRight.min other.bottomRight).max upperLeft)

def union (self other : Bounds U) : Bounds U :=
  fromCorners (self.origin.min other.origin) (self.bottomRight.max other.bottomRight)

/-- The least bounds around some bounds. -/
def unionAll : List (Bounds U) → Bounds U
  | [] => ⟨⟨0, 0⟩, ⟨0, 0⟩⟩
  | first :: rest => rest.foldl union first

/-- The same bounds at another place. -/
def moved (v : Point U) (self : Bounds U) : Bounds U where
  origin := ⟨self.origin.x + v.x, self.origin.y + v.y⟩
  size := self.size

def halfPerimeter (self : Bounds U) : U :=
  self.size.width + self.size.height

def isEmpty (self : Bounds U) : Bool :=
  self.size.width ≤ 0 || self.size.height ≤ 0

/-! ## Bounds inside others -/

omit [LinearOrder U] in
theorem bottomRight_fromCorners (p q : Point U) : (fromCorners p q).bottomRight = q := by
  simp [fromCorners, bottomRight]

/-- Both corners of `a` lie between those of `b`. -/
structure Inside (a b : Bounds U) : Prop where
  origin : b.origin.Le a.origin
  bottomRight : a.bottomRight.Le b.bottomRight

theorem Inside.refl (a : Bounds U) : a.Inside a :=
  ⟨Point.Le.refl _, Point.Le.refl _⟩

theorem Inside.trans {a b c : Bounds U} (hab : a.Inside b) (hbc : b.Inside c) : a.Inside c :=
  ⟨hbc.origin.trans hab.origin, hab.bottomRight.trans hbc.bottomRight⟩

theorem inside_union_left (a b : Bounds U) : a.Inside (a.union b) where
  origin := by
    rw [union, fromCorners, Point.min_eq]
    exact ⟨inf_le_left, inf_le_left⟩
  bottomRight := by
    rw [union, bottomRight_fromCorners, Point.max_eq]
    exact ⟨le_sup_left, le_sup_left⟩

theorem inside_union_right (a b : Bounds U) : b.Inside (a.union b) where
  origin := by
    rw [union, fromCorners, Point.min_eq]
    exact ⟨inf_le_right, inf_le_right⟩
  bottomRight := by
    rw [union, bottomRight_fromCorners, Point.max_eq]
    exact ⟨le_sup_right, le_sup_right⟩

theorem intersects_iff (a b : Bounds U) :
    a.intersects b = true ↔
      a.origin.x < b.bottomRight.x ∧ b.origin.x < a.bottomRight.x ∧
        a.origin.y < b.bottomRight.y ∧ b.origin.y < a.bottomRight.y := by
  simp [intersects, and_assoc]

theorem intersects_comm (a b : Bounds U) : a.intersects b = b.intersects a := by
  rw [Bool.eq_iff_iff, intersects_iff, intersects_iff]
  constructor <;> exact fun ⟨h1, h2, h3, h4⟩ => ⟨h2, h1, h4, h3⟩

/-- What meets a rectangle meets every rectangle around it. -/
theorem intersects_of_inside {q a b : Bounds U} (h : q.intersects a = true) (hab : a.Inside b) :
    q.intersects b = true := by
  rw [intersects_iff] at h ⊢
  exact ⟨h.1.trans_le hab.bottomRight.1, hab.origin.1.trans_lt h.2.1,
    h.2.2.1.trans_le hab.bottomRight.2, hab.origin.2.trans_lt h.2.2.2⟩

end Bounds

end Gpui
