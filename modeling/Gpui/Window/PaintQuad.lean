import Gpui.Elements.ListState
import Gpui.Scene.PaintOrder
import Gpui.Window.HitTest

/-! # Painting quads

    A quad is put onto device pixels before it goes into the scene.  One that has a border
    and no background goes there as four quads, which differ in their content masks only: the
    strips along the edges, without the inside.

    Coordinates are in an ordered field.  The colors of a quad, its borders and its radii are
    what the scene draws it with. -/

namespace Gpui

open List

/-! ## Colors -/

structure Hsla (U : Type) where
  h : U
  s : U
  l : U
  a : U
deriving DecidableEq, Repr

inductive BackgroundTag where
  | solid
  | linearGradient
  | patternSlash
  | checkerboard
deriving DecidableEq, Repr

inductive ColorSpace where
  | srgb
  | oklab
deriving DecidableEq, Repr

structure LinearColorStop (U : Type) where
  color : Hsla U
  percentage : U
deriving DecidableEq, Repr

structure Background (U : Type) where
  tag : BackgroundTag
  colorSpace : ColorSpace
  solid : Hsla U
  gradientAngleOrPatternHeight : U
  colors : LinearColorStop U × LinearColorStop U
deriving DecidableEq, Repr

inductive BorderStyle where
  | solid
  | dashed
deriving DecidableEq, Repr

section Colors

variable {U : Type} [Field U] [LinearOrder U]

/-- The same color, but fainter. -/
def Hsla.opacity (self : Hsla U) (factor : U) : Hsla U :=
  { self with a := self.a * max 0 (min factor 1) }

def Hsla.isTransparent (self : Hsla U) : Bool := self.a = 0

def LinearColorStop.opacity (self : LinearColorStop U) (factor : U) : LinearColorStop U :=
  { self with color := self.color.opacity factor }

def Background.opacity (self : Background U) (factor : U) : Background U :=
  { self with
    solid := self.solid.opacity factor
    colors := (self.colors.1.opacity factor, self.colors.2.opacity factor) }

def Background.isTransparent (self : Background U) : Bool :=
  match self.tag with
  | .solid          => self.solid.isTransparent
  | .linearGradient => self.colors.1.color.isTransparent && self.colors.2.color.isTransparent
  | .patternSlash   => self.solid.isTransparent
  | .checkerboard   => self.solid.isTransparent

end Colors

/-! ## Quads -/

structure Corners (U : Type) where
  topLeft : U
  topRight : U
  bottomRight : U
  bottomLeft : U
deriving DecidableEq, Repr

def Corners.scale {U : Type} [Mul U] (self : Corners U) (factor : U) : Corners U :=
  ⟨self.topLeft * factor, self.topRight * factor, self.bottomRight * factor,
    self.bottomLeft * factor⟩

/-- A quad as elements give it. -/
structure PaintQuad (U : Type) where
  bounds : Bounds U
  cornerRadii : Corners U
  background : Background U
  borderWidths : Edges U
  borderColor : Hsla U
  borderStyle : BorderStyle

/-- A quad of the scene, on device pixels. -/
structure Quad (U : Type) where
  borderStyle : BorderStyle
  bounds : Bounds U
  contentMask : Bounds U
  background : Background U
  borderColor : Hsla U
  cornerRadii : Corners U
  borderWidths : Edges U

namespace Quad

section Strips

variable {U : Type} [Field U] [LinearOrder U] (quad : Quad U)

/-- How far the inside is from the top left corner; a pixel more, for antialiasing. -/
def topLeftInset : Point U where
  x := quad.borderWidths.left + 1
  y := max (max quad.borderWidths.top quad.cornerRadii.topLeft) quad.cornerRadii.topRight + 1

def bottomRightInset : Point U where
  x := quad.borderWidths.right + 1
  y := max (max quad.borderWidths.bottom quad.cornerRadii.bottomLeft)
    quad.cornerRadii.bottomRight + 1

def innerBounds : Bounds U :=
  .fromCorners
    ⟨quad.bounds.origin.x + quad.topLeftInset.x, quad.bounds.origin.y + quad.topLeftInset.y⟩
    ⟨quad.bounds.bottomRight.x - quad.bottomRightInset.x,
      quad.bounds.bottomRight.y - quad.bottomRightInset.y⟩

def topStrip : Bounds U :=
  .fromCorners quad.bounds.origin ⟨quad.bounds.bottomRight.x, quad.innerBounds.origin.y⟩

def bottomStrip : Bounds U :=
  .fromCorners ⟨quad.bounds.origin.x, quad.innerBounds.bottomRight.y⟩ quad.bounds.bottomRight

def leftStrip : Bounds U :=
  .fromCorners ⟨quad.bounds.origin.x, quad.innerBounds.origin.y⟩
    ⟨quad.innerBounds.origin.x, quad.innerBounds.bottomRight.y⟩

def rightStrip : Bounds U :=
  .fromCorners ⟨quad.innerBounds.bottomRight.x, quad.innerBounds.origin.y⟩
    ⟨quad.bounds.bottomRight.x, quad.innerBounds.bottomRight.y⟩

def strips : List (Bounds U) :=
  [quad.topStrip, quad.bottomStrip, quad.leftStrip, quad.rightStrip]

/-- The quad, seen through a strip. -/
def onStrip (strip : Bounds U) : Option (Quad U) :=
  let contentMaskBounds := quad.contentMask.intersect strip
  if contentMaskBounds.isEmpty then none else some { quad with contentMask := contentMaskBounds }

/-- The quads that are inserted into the scene. -/
def painted : List (Quad U) :=
  if !quad.background.isTransparent then [quad]
  else if quad.innerBounds.isEmpty then [quad]
  else quad.strips.filterMap quad.onStrip

/-- The quad is split. -/
def Splits : Prop :=
  quad.background.isTransparent = true ∧ quad.innerBounds.isEmpty = false

end Strips

variable {U S : Type}

/-- As a primitive; `style` is what it is drawn with. -/
def primitive (style : Quad U → S) (quad : Quad U) : Primitive U S :=
  .quad ⟨0, quad.bounds, quad.contentMask, style quad⟩

end Quad

/-! ## The window -/

section Window

variable {U S : Type} [Field U] [LinearOrder U] [FloorRing U]

def roundHalfTowardZero (value : U) : U :=
  let rounded : U := ⌈|value| - (0.5 : ℚ)⌉
  if value < 0 then -rounded else rounded

def roundToDevicePixel (logical scaleFactor : U) : U :=
  roundHalfTowardZero (logical * scaleFactor)

/-- A stroke that is not zero is one pixel at least. -/
def roundStrokeToDevicePixel (logical scaleFactor : U) : U :=
  if logical = 0 then 0 else max (roundToDevicePixel (max logical 0) scaleFactor) 1

def floorToDevicePixel (logical scaleFactor : U) : U := (⌊logical * scaleFactor⌋ : U)

def ceilToDevicePixel (logical scaleFactor : U) : U := (⌈logical * scaleFactor⌉ : U)

/-- What a window paints with. -/
structure Painter (U : Type) where
  scaleFactor : U
  elementOpacity : U
  contentMaskStack : List (Bounds U)
  viewportSize : Size U

namespace Painter

def contentMask (window : Painter U) : Bounds U :=
  window.contentMaskStack.getLast?.getD ⟨⟨0, 0⟩, window.viewportSize⟩

def snapBounds (window : Painter U) (bounds : Bounds U) : Bounds U :=
  let left := roundToDevicePixel bounds.origin.x window.scaleFactor
  let top := roundToDevicePixel bounds.origin.y window.scaleFactor
  let right := max (roundToDevicePixel bounds.bottomRight.x window.scaleFactor) left
  let bottom := max (roundToDevicePixel bounds.bottomRight.y window.scaleFactor) top
  .fromCorners ⟨left, top⟩ ⟨right, bottom⟩

def coverBounds (window : Painter U) (bounds : Bounds U) : Bounds U :=
  let left := floorToDevicePixel bounds.origin.x window.scaleFactor
  let top := floorToDevicePixel bounds.origin.y window.scaleFactor
  let right := max (ceilToDevicePixel bounds.bottomRight.x window.scaleFactor) left
  let bottom := max (ceilToDevicePixel bounds.bottomRight.y window.scaleFactor) top
  .fromCorners ⟨left, top⟩ ⟨right, bottom⟩

def snapStroke (window : Painter U) (value : U) : U :=
  roundStrokeToDevicePixel value window.scaleFactor

def snapBorderWidths (window : Painter U) (edges : Edges U) : Edges U :=
  ⟨window.snapStroke edges.top, window.snapStroke edges.right, window.snapStroke edges.bottom,
    window.snapStroke edges.left⟩

def snappedContentMask (window : Painter U) : Bounds U := window.coverBounds window.contentMask

/-- The quad on device pixels. -/
def quad (window : Painter U) (quad : PaintQuad U) : Quad U where
  borderStyle := quad.borderStyle
  bounds := window.snapBounds quad.bounds
  contentMask := window.snappedContentMask
  background := quad.background.opacity window.elementOpacity
  borderColor := quad.borderColor.opacity window.elementOpacity
  cornerRadii := quad.cornerRadii.scale window.scaleFactor
  borderWidths := window.snapBorderWidths quad.borderWidths

def paintQuad (window : Painter U) (style : Quad U → S) (scene : Scene U S)
    (quad : PaintQuad U) : Run (Scene U S) :=
  (window.quad quad).painted.foldlM
    (fun scene quad => scene.insertPrimitive (quad.primitive style)) scene

end Painter

end Window

/-! ## The strips -/

section

variable {U : Type} [AddCommGroup U] [LinearOrder U] [IsOrderedAddMonoid U]

/-- Empty bounds contain nothing, and the others their origin. -/
theorem Bounds.isEmpty_eq_false {bounds : Bounds U} :
    bounds.isEmpty = false ↔ ∃ p, bounds.contains p = true := by
  have hsize : bounds.isEmpty = false ↔ 0 < bounds.size.width ∧ 0 < bounds.size.height := by
    simp [isEmpty]
  rw [hsize]
  constructor
  · rintro ⟨hwidth, hheight⟩
    refine ⟨bounds.origin, (contains_iff _ _).2 ⟨⟨le_refl _, ?_⟩, ⟨le_refl _, ?_⟩⟩⟩
    · exact lt_add_of_pos_right _ hwidth
    · exact lt_add_of_pos_right _ hheight
  · rintro ⟨p, hp⟩
    obtain ⟨⟨hx, hx'⟩, ⟨hy, hy'⟩⟩ := (contains_iff _ _).1 hp
    exact ⟨pos_of_lt_add_right (hx.trans_lt hx'), pos_of_lt_add_right (hy.trans_lt hy')⟩

end

theorem Bounds.contains_fromCorners {U : Type} [AddCommGroup U] [LinearOrder U]
    (topLeft bottomRight p : Point U) :
    (Bounds.fromCorners topLeft bottomRight).contains p = true ↔
      (topLeft.x ≤ p.x ∧ p.x < bottomRight.x) ∧ (topLeft.y ≤ p.y ∧ p.y < bottomRight.y) := by
  rw [contains_iff, bottomRight_fromCorners]
  rfl

namespace Quad

variable {U S : Type} [Field U] [LinearOrder U] {quad : Quad U}

theorem contains_topStrip (quad : Quad U) (p : Point U) : quad.topStrip.contains p = true ↔
    (quad.bounds.origin.x ≤ p.x ∧ p.x < quad.bounds.bottomRight.x) ∧
      (quad.bounds.origin.y ≤ p.y ∧ p.y < quad.innerBounds.origin.y) :=
  Bounds.contains_fromCorners _ _ p

theorem contains_bottomStrip (quad : Quad U) (p : Point U) :
    quad.bottomStrip.contains p = true ↔
      (quad.bounds.origin.x ≤ p.x ∧ p.x < quad.bounds.bottomRight.x) ∧
        (quad.innerBounds.bottomRight.y ≤ p.y ∧ p.y < quad.bounds.bottomRight.y) :=
  Bounds.contains_fromCorners _ _ p

theorem contains_leftStrip (quad : Quad U) (p : Point U) : quad.leftStrip.contains p = true ↔
    (quad.bounds.origin.x ≤ p.x ∧ p.x < quad.innerBounds.origin.x) ∧
      (quad.innerBounds.origin.y ≤ p.y ∧ p.y < quad.innerBounds.bottomRight.y) :=
  Bounds.contains_fromCorners _ _ p

theorem contains_rightStrip (quad : Quad U) (p : Point U) : quad.rightStrip.contains p = true ↔
    (quad.innerBounds.bottomRight.x ≤ p.x ∧ p.x < quad.bounds.bottomRight.x) ∧
      (quad.innerBounds.origin.y ≤ p.y ∧ p.y < quad.innerBounds.bottomRight.y) :=
  Bounds.contains_fromCorners _ _ p

/-- The point is within the width of a border of the edge, or within the square of a radius
    at the corner. -/
structure OnBorder (quad : Quad U) (p : Point U) : Prop where
  inside : quad.bounds.contains p = true
  near : p.x - quad.bounds.origin.x ≤ quad.borderWidths.left ∨
    quad.bounds.bottomRight.x - p.x ≤ quad.borderWidths.right ∨
    p.y - quad.bounds.origin.y ≤ quad.borderWidths.top ∨
    quad.bounds.bottomRight.y - p.y ≤ quad.borderWidths.bottom ∨
    (p.x - quad.bounds.origin.x ≤ quad.cornerRadii.topLeft ∧
      p.y - quad.bounds.origin.y ≤ quad.cornerRadii.topLeft) ∨
    (quad.bounds.bottomRight.x - p.x ≤ quad.cornerRadii.topRight ∧
      p.y - quad.bounds.origin.y ≤ quad.cornerRadii.topRight) ∨
    (quad.bounds.bottomRight.x - p.x ≤ quad.cornerRadii.bottomRight ∧
      quad.bounds.bottomRight.y - p.y ≤ quad.cornerRadii.bottomRight) ∨
    (p.x - quad.bounds.origin.x ≤ quad.cornerRadii.bottomLeft ∧
      quad.bounds.bottomRight.y - p.y ≤ quad.cornerRadii.bottomLeft)

/-- The inside is strictly within the quad. -/
structure Framed (quad : Quad U) : Prop where
  left : quad.bounds.origin.x < quad.innerBounds.origin.x
  width : quad.innerBounds.origin.x < quad.innerBounds.bottomRight.x
  right : quad.innerBounds.bottomRight.x < quad.bounds.bottomRight.x
  top : quad.bounds.origin.y < quad.innerBounds.origin.y
  height : quad.innerBounds.origin.y < quad.innerBounds.bottomRight.y
  bottom : quad.innerBounds.bottomRight.y < quad.bounds.bottomRight.y

theorem innerBounds_origin (quad : Quad U) : quad.innerBounds.origin =
    ⟨quad.bounds.origin.x + quad.topLeftInset.x, quad.bounds.origin.y + quad.topLeftInset.y⟩ := rfl

theorem innerBounds_bottomRight (quad : Quad U) : quad.innerBounds.bottomRight =
    ⟨quad.bounds.bottomRight.x - quad.bottomRightInset.x,
      quad.bounds.bottomRight.y - quad.bottomRightInset.y⟩ :=
  Bounds.bottomRight_fromCorners _ _

section

variable [IsStrictOrderedRing U]

theorem Splits.framed (h : quad.Splits) (hleft : 0 ≤ quad.borderWidths.left)
    (hright : 0 ≤ quad.borderWidths.right) (htop : 0 ≤ quad.borderWidths.top)
    (hbottom : 0 ≤ quad.borderWidths.bottom) : quad.Framed := by
  obtain ⟨hwidth, hheight⟩ : 0 < quad.innerBounds.size.width ∧
      0 < quad.innerBounds.size.height := by
    simpa [Bounds.isEmpty] using h.2
  -- the insets reach over the borders
  have hinsetTop : quad.borderWidths.top ≤ quad.topLeftInset.y - 1 := by
    simp [topLeftInset]
  have hinsetBottom : quad.borderWidths.bottom ≤ quad.bottomRightInset.y - 1 := by
    simp [bottomRightInset]
  constructor
  · rw [innerBounds_origin]
    show _ < _ + (quad.borderWidths.left + 1)
    linarith
  · exact lt_add_of_pos_right _ hwidth
  · rw [innerBounds_bottomRight]
    show _ - (quad.borderWidths.right + 1) < _
    linarith
  · rw [innerBounds_origin]
    linarith
  · exact lt_add_of_pos_right _ hheight
  · rw [innerBounds_bottomRight]
    linarith

end

namespace Framed

variable (h : quad.Framed)

include h

theorem strip_nonneg [IsStrictOrderedRing U] {strip : Bounds U} (hstrip : strip ∈ quad.strips) :
    0 ≤ strip.size.width ∧ 0 ≤ strip.size.height := by
  obtain ⟨hleft, hwidth, hright, htop, hheight, hbottom⟩ := h
  simp only [strips, mem_cons, not_mem_nil, or_false] at hstrip
  rcases hstrip with rfl | rfl | rfl | rfl
  · exact ⟨sub_nonneg.2 (by linarith), sub_nonneg.2 htop.le⟩
  · exact ⟨sub_nonneg.2 (by linarith), sub_nonneg.2 hbottom.le⟩
  · exact ⟨sub_nonneg.2 hleft.le, sub_nonneg.2 hheight.le⟩
  · exact ⟨sub_nonneg.2 hright.le, sub_nonneg.2 hheight.le⟩

/-- The strips and the inside are all of the quad. -/
theorem tiles (p : Point U) : quad.bounds.contains p = true ↔
    quad.innerBounds.contains p = true ∨ ∃ strip ∈ quad.strips, strip.contains p = true := by
  obtain ⟨hleft, hwidth, hright, htop, hheight, hbottom⟩ := h
  rw [Bounds.contains_iff quad.bounds, Bounds.contains_iff quad.innerBounds]
  simp only [strips, mem_cons, not_mem_nil, or_false, exists_eq_or_imp,
    exists_eq_left, contains_topStrip, contains_bottomStrip, contains_leftStrip,
    contains_rightStrip]
  constructor
  · rintro ⟨⟨hx, hx'⟩, ⟨hy, hy'⟩⟩
    rcases lt_or_ge p.y quad.innerBounds.origin.y with habove | hbelow
    · exact .inr (.inl ⟨⟨hx, hx'⟩, ⟨hy, habove⟩⟩)
    rcases lt_or_ge p.y quad.innerBounds.bottomRight.y with hmiddle | hunder
    · -- beside the inside, or in it
      rcases lt_or_ge p.x quad.innerBounds.origin.x with hbefore | hafter
      · exact .inr (.inr (.inr (.inl ⟨⟨hx, hbefore⟩, ⟨hbelow, hmiddle⟩⟩)))
      rcases lt_or_ge p.x quad.innerBounds.bottomRight.x with hin | hbehind
      · exact .inl ⟨⟨hafter, hin⟩, ⟨hbelow, hmiddle⟩⟩
      · exact .inr (.inr (.inr (.inr ⟨⟨hbehind, hx'⟩, ⟨hbelow, hmiddle⟩⟩)))
    · exact .inr (.inr (.inl ⟨⟨hx, hx'⟩, ⟨hunder, hy'⟩⟩))
  · rintro (⟨⟨hx, hx'⟩, ⟨hy, hy'⟩⟩ | ⟨⟨hx, hx'⟩, ⟨hy, hy'⟩⟩ | ⟨⟨hx, hx'⟩, ⟨hy, hy'⟩⟩ |
      ⟨⟨hx, hx'⟩, ⟨hy, hy'⟩⟩ | ⟨⟨hx, hx'⟩, ⟨hy, hy'⟩⟩)
    · exact ⟨⟨hleft.le.trans hx, hx'.trans hright⟩, ⟨htop.le.trans hy, hy'.trans hbottom⟩⟩
    · exact ⟨⟨hx, hx'⟩, ⟨hy, hy'.trans (hheight.trans hbottom)⟩⟩
    · exact ⟨⟨hx, hx'⟩, ⟨(htop.trans hheight).le.trans hy, hy'⟩⟩
    · exact ⟨⟨hx, hx'.trans (hwidth.trans hright)⟩, ⟨htop.le.trans hy, hy'.trans hbottom⟩⟩
    · exact ⟨⟨(hleft.trans hwidth).le.trans hx, hx'⟩, ⟨htop.le.trans hy, hy'.trans hbottom⟩⟩

/-- No point is in two of them. -/
theorem disjoint : (quad.innerBounds :: quad.strips).Pairwise fun a b =>
    ∀ p, ¬ (a.contains p = true ∧ b.contains p = true) := by
  -- the strips at the top and at the bottom are apart from the others by their `y`
  have htop : ∀ p, quad.topStrip.contains p = true → p.y < quad.innerBounds.origin.y :=
    fun p hp => ((quad.contains_topStrip p).1 hp).2.2
  have hbottom : ∀ p, quad.bottomStrip.contains p = true →
      quad.innerBounds.bottomRight.y ≤ p.y :=
    fun p hp => ((quad.contains_bottomStrip p).1 hp).2.1
  have hleft := fun p => (quad.contains_leftStrip p).1
  have hright := fun p => (quad.contains_rightStrip p).1
  have hinner := fun p => (quad.innerBounds.contains_iff p).1
  simp only [strips, pairwise_cons, mem_cons, not_mem_nil, or_false,
    forall_eq_or_imp, forall_eq, List.Pairwise.nil, and_true, false_implies, implies_true]
  refine ⟨⟨?_, ?_, ?_, ?_⟩, ⟨?_, ?_, ?_⟩, ⟨?_, ?_⟩, ?_⟩
  · exact fun p hp => (hinner p hp.1).2.1.not_gt (htop p hp.2)
  · exact fun p hp => (hbottom p hp.2).not_gt (hinner p hp.1).2.2
  · exact fun p hp => (hinner p hp.1).1.1.not_gt (hleft p hp.2).1.2
  · exact fun p hp => (hright p hp.2).1.1.not_gt (hinner p hp.1).1.2
  · exact fun p hp => (h.height.le.trans (hbottom p hp.2)).not_gt (htop p hp.1)
  · exact fun p hp => (hleft p hp.2).2.1.not_gt (htop p hp.1)
  · exact fun p hp => (hright p hp.2).2.1.not_gt (htop p hp.1)
  · exact fun p hp => (hbottom p hp.1).not_gt (hleft p hp.2).2.2
  · exact fun p hp => (hbottom p hp.1).not_gt (hright p hp.2).2.2
  · exact fun p hp => (h.width.le.trans (hright p hp.2).1.1).not_gt (hleft p hp.1).1.2

end Framed

section

variable [IsStrictOrderedRing U]

/-- The inside is further than the border widths and the radii from the edges. -/
theorem OnBorder.not_inner {p : Point U} (h : quad.OnBorder p) :
    ¬ quad.innerBounds.contains p = true := by
  intro hp
  rw [Bounds.contains_iff, innerBounds_bottomRight, innerBounds_origin] at hp
  have hwidthLeft : quad.topLeftInset.x = quad.borderWidths.left + 1 := rfl
  have hwidthRight : quad.bottomRightInset.x = quad.borderWidths.right + 1 := rfl
  -- the insets at the top and at the bottom are over all that is there
  have hinsetTop : quad.borderWidths.top < quad.topLeftInset.y ∧
      quad.cornerRadii.topLeft < quad.topLeftInset.y ∧
      quad.cornerRadii.topRight < quad.topLeftInset.y := by
    refine ⟨?_, ?_, ?_⟩ <;> refine lt_add_of_le_of_pos ?_ one_pos <;> simp
  have hinsetBottom : quad.borderWidths.bottom < quad.bottomRightInset.y ∧
      quad.cornerRadii.bottomLeft < quad.bottomRightInset.y ∧
      quad.cornerRadii.bottomRight < quad.bottomRightInset.y := by
    refine ⟨?_, ?_, ?_⟩ <;> refine lt_add_of_le_of_pos ?_ one_pos <;> simp
  rcases h.near with hnear | hnear | hnear | hnear | ⟨-, hnear⟩ | ⟨-, hnear⟩ | ⟨-, hnear⟩ |
    ⟨-, hnear⟩
  · linarith
  · linarith
  · linarith [hinsetTop.1]
  · linarith [hinsetBottom.1]
  · linarith [hinsetTop.2.1]
  · linarith [hinsetTop.2.2]
  · linarith [hinsetBottom.2.2]
  · linarith [hinsetBottom.2.1]

end

/-! ## The content masks -/

/-- What is seen of a split quad are the strips. -/
theorem Splits.painted_eq (h : quad.Splits) :
    quad.painted = quad.strips.filterMap quad.onStrip := by
  unfold painted
  rw [h.1, h.2]
  rfl

theorem onStrip_eq_some {strip : Bounds U} {part : Quad U} : quad.onStrip strip = some part ↔
    (quad.contentMask.intersect strip).isEmpty = false ∧
      part = { quad with contentMask := quad.contentMask.intersect strip } := by
  unfold onStrip
  dsimp only
  cases (quad.contentMask.intersect strip).isEmpty with
  | false => simp [eq_comm]
  | true => simp

/-- The content masks of the parts are the strips' part of the content mask. -/
theorem Splits.masks [IsStrictOrderedRing U] (h : quad.Splits) (p : Point U) :
    (∃ part ∈ quad.painted, part.contentMask.contains p = true) ↔
      quad.contentMask.contains p = true ∧ ∃ strip ∈ quad.strips, strip.contains p = true := by
  rw [h.painted_eq]
  constructor
  · rintro ⟨part, hpart, hp⟩
    obtain ⟨strip, hstrip, hsome⟩ := mem_filterMap.1 hpart
    obtain ⟨-, rfl⟩ := onStrip_eq_some.1 hsome
    obtain ⟨hmask, hin⟩ := (Bounds.contains_intersect _ _ p).1 hp
    exact ⟨hmask, strip, hstrip, hin⟩
  · rintro ⟨hmask, strip, hstrip, hin⟩
    have hp := (Bounds.contains_intersect quad.contentMask strip p).2 ⟨hmask, hin⟩
    -- a strip of which something is seen is not left out
    have hsome := onStrip_eq_some.2 ⟨Bounds.isEmpty_eq_false.2 ⟨p, hp⟩, rfl⟩
    exact ⟨_, mem_filterMap.2 ⟨strip, hstrip, hsome⟩, hp⟩

/-- A part has all of the quad but its content mask, and is seen. -/
theorem Splits.part [IsStrictOrderedRing U] (h : quad.Splits) (hframed : quad.Framed)
    {part : Quad U} (hpart : part ∈ quad.painted) :
    part = { quad with contentMask := part.contentMask } ∧
      (part.bounds.intersect part.contentMask).isEmpty = false := by
  rw [h.painted_eq] at hpart
  obtain ⟨strip, hstrip, hsome⟩ := mem_filterMap.1 hpart
  obtain ⟨hseen, rfl⟩ := onStrip_eq_some.1 hsome
  refine ⟨rfl, ?_⟩
  obtain ⟨p, hp⟩ := Bounds.isEmpty_eq_false.1 hseen
  have hin := ((Bounds.contains_intersect _ _ p).1 hp).2
  have hbounds := (hframed.tiles p).2 (.inr ⟨strip, hstrip, hin⟩)
  exact Bounds.isEmpty_eq_false.2 ⟨p, (Bounds.contains_intersect _ _ p).2 ⟨hbounds, hp⟩⟩

/-- No point is seen through two parts. -/
theorem Splits.disjoint (h : quad.Splits) (hframed : quad.Framed) :
    quad.painted.Pairwise fun a b =>
      ∀ p, ¬ (a.contentMask.contains p = true ∧ b.contentMask.contains p = true) := by
  rw [h.painted_eq]
  refine List.Pairwise.filterMap _ ?_ (pairwise_cons.1 hframed.disjoint).2
  intro a b hab part hpart part' hpart' p hp
  obtain ⟨-, rfl⟩ := onStrip_eq_some.1 hpart
  obtain ⟨-, rfl⟩ := onStrip_eq_some.1 hpart'
  exact hab p ⟨((Bounds.contains_intersect _ _ p).1 hp.1).2,
    ((Bounds.contains_intersect _ _ p).1 hp.2).2⟩

/-! ## The scene -/

/-- The quad as the scene stores it. -/
def Stored (style : Quad U → S) (quad : Quad U) (stored : Shape U S) : Prop :=
  ∃ order, stored = ⟨order, quad.bounds, quad.contentMask, style quad⟩

theorem insertPrimitive_quads {style : Quad U → S} {scene scene' : Scene U S}
    (hseen : (quad.bounds.intersect quad.contentMask).isEmpty = false)
    (hinsert : scene.insertPrimitive (quad.primitive style) = .ok scene') :
    ∃ stored, scene'.quads = scene.quads ++ [stored] ∧ quad.Stored style stored := by
  unfold Scene.insertPrimitive at hinsert
  have hclipped : (quad.primitive style).clippedBounds.isEmpty = false := hseen
  rw [hclipped, if_neg Bool.false_ne_true] at hinsert
  obtain ⟨⟨tree, order⟩, -, hinsert⟩ := Exec.bind_eq_ok.1 hinsert
  cases hinsert
  exact ⟨_, rfl, order, rfl⟩

/-- All of some quads that are seen are stored. -/
theorem foldlM_quads {style : Quad U → S} {quads : List (Quad U)} {scene scene' : Scene U S}
    (hseen : ∀ quad ∈ quads, (quad.bounds.intersect quad.contentMask).isEmpty = false)
    (hinsert : quads.foldlM
      (fun scene quad => scene.insertPrimitive (quad.primitive style)) scene = .ok scene') :
    ∃ inserted, scene'.quads = scene.quads ++ inserted ∧
      List.Forall₂ (Stored style) quads inserted := by
  induction quads generalizing scene with
  | nil =>
    cases hinsert
    exact ⟨[], (append_nil _).symm, .nil⟩
  | cons quad rest ih =>
    obtain ⟨next, hfirst, hrest⟩ := Exec.bind_eq_ok.1 hinsert
    obtain ⟨stored, hstored, hquad⟩ :=
      insertPrimitive_quads (hseen quad mem_cons_self) hfirst
    obtain ⟨inserted, hinserted, hall⟩ :=
      ih (fun quad hquad => hseen quad (mem_cons_of_mem _ hquad)) hrest
    refine ⟨stored :: inserted, ?_, hall.cons hquad⟩
    rw [hinserted, hstored, append_assoc, singleton_append]

/-- Quads are inserted one after the other. -/
theorem foldlM_eq_build (style : Quad U → S) (quads : List (Quad U)) (scene : Scene U S) :
    quads.foldlM (fun scene quad => scene.insertPrimitive (quad.primitive style)) scene =
      scene.build (quads.map fun quad => .insertPrimitive (quad.primitive style)) := by
  induction quads generalizing scene with
  | nil => rfl
  | cons quad rest ih =>
    rw [foldlM_cons, map_cons, Scene.build]
    exact congrArg _ (funext ih)

end Quad

/-! ## Splitting loses and repeats nothing -/

namespace Painter

variable {U S : Type} [Field U] [LinearOrder U] [IsStrictOrderedRing U] [FloorRing U]

omit [IsStrictOrderedRing U] in
theorem snapStroke_nonneg (window : Painter U) (value : U) : 0 ≤ window.snapStroke value := by
  unfold snapStroke roundStrokeToDevicePixel
  split
  · exact le_refl _
  · exact zero_le_one.trans (le_max_right _ _)

/-- What the splitting of a quad has to be. -/
structure SplitsWell (quad : Quad U) : Prop where
  nonneg : ∀ strip ∈ quad.strips, 0 ≤ strip.size.width ∧ 0 ≤ strip.size.height
  disjoint : (quad.innerBounds :: quad.strips).Pairwise fun a b =>
    ∀ p, ¬ (a.contains p = true ∧ b.contains p = true)
  tiles : ∀ p, quad.bounds.contains p = true ↔
    quad.innerBounds.contains p = true ∨ ∃ strip ∈ quad.strips, strip.contains p = true
  border : ∀ p, quad.OnBorder p → ∃ strip ∈ quad.strips, strip.contains p = true
  parts : ∀ part ∈ quad.painted, part = { quad with contentMask := part.contentMask }
  masks : ∀ p, (∃ part ∈ quad.painted, part.contentMask.contains p = true) ↔
    quad.contentMask.contains p = true ∧ ∃ strip ∈ quad.strips, strip.contains p = true
  once : quad.painted.Pairwise fun a b =>
    ∀ p, ¬ (a.contentMask.contains p = true ∧ b.contentMask.contains p = true)

omit [IsStrictOrderedRing U] in
/-- The scene was built by calls, as the quads of `paintQuad` are inserted by more of them. -/
theorem paintQuad_returns (window : Painter U) (style : Quad U → S) (paint : PaintQuad U)
    {calls : List (SceneCall U S)} {scene : Scene U S}
    (hbuild : Scene.default.build calls = .ok scene) :
    ∃ scene', window.paintQuad style scene paint = .ok scene' := by
  obtain ⟨built, allocations, -, hbuilt, -, -, hpainted⟩ := painted_default.build calls
  rw [hbuild] at hbuilt
  cases hbuilt
  obtain ⟨scene', -, -, hpaint, -⟩ := hpainted.build
    ((window.quad paint).painted.map fun quad => .insertPrimitive (quad.primitive style))
  exact ⟨scene', (Quad.foldlM_eq_build style _ scene).trans hpaint⟩

/-- When a quad is split, none of its border is lost and nothing is painted twice; all of the
    parts go into the scene, whatever it was built of. -/
theorem paintQuad_split (window : Painter U) (style : Quad U → S) (paint : PaintQuad U)
    (h : (window.quad paint).Splits) :
    SplitsWell (window.quad paint) ∧
      (∀ calls (scene : Scene U S), Scene.default.build calls = .ok scene →
        ∃ scene', window.paintQuad style scene paint = .ok scene') ∧
      ∀ scene scene' : Scene U S, window.paintQuad style scene paint = .ok scene' →
        ∃ inserted, scene'.quads = scene.quads ++ inserted ∧
          List.Forall₂ (Quad.Stored style) (window.quad paint).painted inserted := by
  have hframed := h.framed (window.snapStroke_nonneg _) (window.snapStroke_nonneg _)
    (window.snapStroke_nonneg _) (window.snapStroke_nonneg _)
  refine ⟨?_, ?_, ?_⟩
  · exact {
      nonneg := fun strip hstrip => hframed.strip_nonneg hstrip
      disjoint := hframed.disjoint
      tiles := hframed.tiles
      border := fun p hp => ((hframed.tiles p).1 hp.inside).resolve_left hp.not_inner
      parts := fun part hpart => (h.part hframed hpart).1
      masks := h.masks
      once := h.disjoint hframed }
  · intro calls scene hbuild
    exact window.paintQuad_returns style paint hbuild
  · intro scene scene' hpaint
    exact Quad.foldlM_quads (fun part hpart => (h.part hframed hpart).2) hpaint

/-- A window with one pixel to the unit. -/
def unscaled : Painter ℚ := ⟨1, 1, [], ⟨100, 100⟩⟩

/-- The border of a button, with round corners. -/
def buttonBorder : PaintQuad ℚ where
  bounds := ⟨⟨10, 10⟩, ⟨40, 20⟩⟩
  cornerRadii := ⟨4, 4, 4, 4⟩
  background := ⟨.solid, .srgb, ⟨0, 0, 0, 0⟩, 0, (⟨⟨0, 0, 0, 0⟩, 0⟩, ⟨⟨0, 0, 0, 0⟩, 0⟩)⟩
  borderWidths := ⟨1, 1, 1, 1⟩
  borderColor := ⟨0, 0, 0, 1⟩
  borderStyle := .solid

/-- In a layer, after a quad that fills it, the four strips go into the scene. -/
theorem paintQuad_split_button :
    let page : Bounds ℚ := ⟨⟨0, 0⟩, ⟨100, 100⟩⟩
    let calls : List (SceneCall ℚ (Corners ℚ)) :=
      [.pushLayer page, .insertPrimitive (.quad ⟨0, page, page, ⟨0, 0, 0, 0⟩⟩)]
    SplitsWell (unscaled.quad buttonBorder) ∧ ∃ scene scene' first inserted,
      Scene.default.build calls = .ok scene ∧
      unscaled.paintQuad Quad.cornerRadii scene buttonBorder = .ok scene' ∧
      scene'.quads = first :: inserted ∧ inserted.length = 4 ∧
      List.Forall₂ (Quad.Stored Quad.cornerRadii) (unscaled.quad buttonBorder).painted
        inserted := by
  intro page calls
  obtain ⟨hsplits, hreturns, hstores⟩ := paintQuad_split unscaled Quad.cornerRadii buttonBorder
    ⟨by decide +kernel, by decide +kernel⟩
  have hcalls : (Scene.default.build calls).map Scene.quads = .ok [⟨1, page, page, ⟨0, 0, 0, 0⟩⟩] := by
    decide +kernel
  obtain ⟨scene, hbuild, hfirst⟩ := Exec.map_eq_ok.mp hcalls
  obtain ⟨scene', hpaint⟩ := hreturns _ _ hbuild
  obtain ⟨inserted, hquads, hall⟩ := hstores _ scene' hpaint
  rw [hfirst] at hquads
  have hlength : (unscaled.quad buttonBorder).painted.length = 4 := by decide +kernel
  exact ⟨hsplits, scene, scene', _, inserted, hbuild, hpaint, hquads,
    hall.length_eq ▸ hlength, hall⟩

end Painter

end Gpui
