import Gpui.Text.ShapeText
import Gpui.Window.PaintQuad

/-! # Highlights: the model

    A text style says how a text looks that has no style of its own.  A highlight is laid
    over it, or over another highlight: colors blend, fading multiplies, and of everything
    else the highlight on top is seen.  Numbers are in an ordered field. -/

namespace Gpui

/-! ## Colors -/

structure Rgba (X : Type) where
  r : X
  g : X
  b : X
  a : X
deriving DecidableEq, Repr

section Colors

variable {X : Type} [Field X] [LinearOrder X] [FloorRing X]

/-- The remainder of a division, with the sign of the dividend. -/
def fmod (x y : X) : X :=
  x - y * (if 0 ≤ x / y then (⌊x / y⌋ : X) else (⌈x / y⌉ : X))

def remEuclid (x y : X) : X := x - y * (⌊x / y⌋ : X)

omit [FloorRing X] in
/-- `x.clamp(0., 1.)` -/
def clampUnit (x : X) : X := max 0 (min x 1)

def Hsla.toRgba (color : Hsla X) : Rgba X :=
  let c := (1 - |(2 : Nat) * color.l - 1|) * color.s
  let x := c * (1 - |fmod (color.h * 6) (2 : Nat) - 1|)
  let m := color.l - c / (2 : Nat)
  let cm := c + m
  let xm := x + m
  let rgb := fun r g b => (⟨clampUnit r, clampUnit g, clampUnit b, color.a⟩ : Rgba X)
  match ⌊color.h * 6⌋ with
  | 0 | 6 => rgb cm xm m
  | 1     => rgb xm cm m
  | 2     => rgb m cm xm
  | 3     => rgb m xm cm
  | 4     => rgb xm m cm
  | _     => rgb cm m xm

def Rgba.toHsla (color : Rgba X) : Hsla X :=
  let r := color.r
  let g := color.g
  let b := color.b
  let max := Max.max r (Max.max g b)
  let min := Min.min r (Min.min g b)
  let delta := max - min
  let l := (max + min) / (2 : Nat)
  let s :=
    if l = 0 ∨ l = 1 then 0
    else if l < 1 / (2 : Nat) then delta / ((2 : Nat) * l)
    else delta / ((2 : Nat) - (2 : Nat) * l)
  let h :=
    if delta = 0 then 0
    else if max = r then remEuclid ((g - b) / delta) 6 / (6 : Nat)
    else if max = g then ((b - r) / delta + (2 : Nat)) / (6 : Nat)
    else ((r - g) / delta + 4) / (6 : Nat)
  ⟨h, s, l, color.a⟩

omit [FloorRing X] in
/-- `other` on top of this color. -/
def Rgba.blend (self other : Rgba X) : Rgba X :=
  if 1 ≤ other.a then other
  else if other.a ≤ 0 then self
  else {
    r := self.r * (1 - other.a) + other.r * other.a
    g := self.g * (1 - other.a) + other.g * other.a
    b := self.b * (1 - other.a) + other.b * other.a
    a := self.a }

/-- `other` on top of this color. -/
def Hsla.blend (self other : Hsla X) : Hsla X :=
  if 1 ≤ other.a then other
  else if other.a ≤ 0 then self
  else (self.toRgba.blend other.toRgba).toHsla

omit [FloorRing X] in
def Hsla.fadeOut (self : Hsla X) (factor : X) : Hsla X :=
  { self with a := self.a * (1 - clampUnit factor) }

end Colors

/-! ## Fonts -/

inductive FontStyle where
  | normal
  | italic
  | oblique
deriving DecidableEq, Repr

structure Font (X : Type) where
  family : String
  features : List (String × Nat)
  fallbacks : Option (List String)
  weight : X
  style : FontStyle
deriving DecidableEq

/-! ## Ranges of a text -/

/-- `start..stop`, in bytes. -/
structure TextRange where
  start : Nat
  stop : Nat
deriving DecidableEq, Repr

namespace TextRange

def isEmpty (range : TextRange) : Bool := ¬ range.start < range.stop

/-- `range.len()`, which is 0 if the range ends before it starts. -/
def len (range : TextRange) : Nat := range.stop - range.start

instance : Membership Nat TextRange where
  mem range i := range.start ≤ i ∧ i < range.stop

theorem mem_iff {range : TextRange} {i : Nat} : i ∈ range ↔ range.start ≤ i ∧ i < range.stop :=
  Iff.rfl

instance (range : TextRange) (i : Nat) : Decidable (i ∈ range) :=
  inferInstanceAs (Decidable (range.start ≤ i ∧ i < range.stop))

/-- Ranges in a row, of which none ends behind the start of a later one. -/
def InOrder {α : Type} (items : List (TextRange × α)) : Prop :=
  items.Pairwise (fun item item' => item.1.stop ≤ item'.1.start)

end TextRange

/-! ## Styles -/

/-- What a highlight sets. -/
structure HighlightStyle (X : Type) where
  color : Option (Hsla X)
  fontWeight : Option X
  fontStyle : Option FontStyle
  backgroundColor : Option (Hsla X)
  underline : Option (UnderlineStyle X (Hsla X))
  strikethrough : Option (StrikethroughStyle X (Hsla X))
  fadeOut : Option X
deriving DecidableEq

namespace HighlightStyle

variable {X : Type}

/-- `HighlightStyle::default()` -/
def none : HighlightStyle X where
  color := .none
  fontWeight := .none
  fontStyle := .none
  backgroundColor := .none
  underline := .none
  strikethrough := .none
  fadeOut := .none

variable [Field X] [LinearOrder X] [FloorRing X]

/-- The color under a highlight. -/
def blendColor (color other : Option (Hsla X)) : Option (Hsla X) :=
  (other.map (fun otherColor =>
    match color with
    | some color => color.blend otherColor
    | .none      => otherColor)).or color

omit [FloorRing X] in
/-- The fading under a highlight. -/
def blendFade (fadeOut other : Option X) : Option X :=
  (other.map (fun sourceFade =>
    (fadeOut.map (fun destFade => clampUnit (destFade * (1 + sourceFade)))).getD sourceFade)).or
      fadeOut

/-- Another highlight on top of this one. -/
def highlight (self other : HighlightStyle X) : HighlightStyle X where
  color := blendColor self.color other.color
  fontWeight := other.fontWeight.or self.fontWeight
  fontStyle := other.fontStyle.or self.fontStyle
  backgroundColor := other.backgroundColor.or self.backgroundColor
  underline := other.underline.or self.underline
  strikethrough := other.strikethrough.or self.strikethrough
  fadeOut := blendFade self.fadeOut other.fadeOut

end HighlightStyle

namespace Style

/-- The part of a text style that runs are made of. -/
structure TextStyle (X : Type) extends Decoration X (Hsla X) where
  fontFamily : String
  fontFeatures : List (String × Nat)
  fontFallbacks : Option (List String)
  fontWeight : X
  fontStyle : FontStyle
deriving DecidableEq

abbrev TextRun (X : Type) := WindowTextSystem.TextRun X (Hsla X) (Font X)

namespace TextStyle

variable {X : Type}

section

variable [Field X] [LinearOrder X] [FloorRing X]

/-- A highlight on top of this style. -/
def highlight (self : TextStyle X) (style : HighlightStyle X) : TextStyle X :=
  let self := { self with
    fontWeight := style.fontWeight.getD self.fontWeight
    fontStyle := style.fontStyle.getD self.fontStyle }
  let self :=
    match style.color with
    | some color => { self with color := self.color.blend color }
    | none       => self
  let self :=
    match style.fadeOut with
    | some factor => { self with color := self.color.fadeOut factor }
    | none        => self
  { self with
    backgroundColor := style.backgroundColor.or self.backgroundColor
    underline := style.underline.or self.underline
    strikethrough := style.strikethrough.or self.strikethrough }

@[simp] theorem highlight_fontFamily (self : TextStyle X) (style : HighlightStyle X) :
    (self.highlight style).fontFamily = self.fontFamily := by
  unfold highlight
  cases style.color <;> cases style.fadeOut <;> rfl

end

def font (self : TextStyle X) : Font X where
  family := self.fontFamily
  features := self.fontFeatures
  fallbacks := self.fontFallbacks
  weight := self.fontWeight
  style := self.fontStyle

def toRun (self : TextStyle X) (len : Nat) : TextRun X where
  len
  font := self.font
  toDecoration := self.toDecoration

end TextStyle

/-- The style that a run shows. -/
def TextRun.style {X : Type} (run : TextRun X) : TextStyle X where
  toDecoration := run.toDecoration
  fontFamily := run.font.family
  fontFeatures := run.font.features
  fontFallbacks := run.font.fallbacks
  fontWeight := run.font.weight
  fontStyle := run.font.style

end Style

end Gpui
