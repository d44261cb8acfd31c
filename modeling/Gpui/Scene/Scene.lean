import Gpui.Scene.BoundsTree

/-! # Scenes: the model

    A scene takes primitives of eight kinds.  Each gets a draw order: the one of the
    innermost layer, or one of its own from the bounds tree.  When the scene is finished
    the primitives of each kind are sorted, and an iterator merges the kinds into batches.

    A `DrawOrder` is a natural number.  `S` is what a primitive is drawn with, which the scene
    passes on as it is. -/

namespace Gpui

open Exec (Next loop)

/-- `u32::MAX`, the order of a kind that has no primitives left. -/
def u32Max : Nat := 2 ^ 32 - 1

inductive PrimitiveKind where
  | shadow
  | quad
  | path
  | underline
  | monochromeSprite
  | subpixelSprite
  | polychromeSprite
  | surface
deriving DecidableEq, Repr

namespace PrimitiveKind

/-- The place of a kind in the derived order. -/
def rank : PrimitiveKind → Nat
  | shadow           => 0
  | quad             => 1
  | path             => 2
  | underline        => 3
  | monochromeSprite => 4
  | subpixelSprite   => 5
  | polychromeSprite => 6
  | surface          => 7

end PrimitiveKind

inductive AtlasTextureKind where
  | monochrome
  | polychrome
  | subpixel
deriving DecidableEq, Repr

structure AtlasTextureId where
  index : Nat
  kind : AtlasTextureKind
deriving DecidableEq, Repr

/-- Where a sprite is found in the atlas. -/
structure AtlasTile where
  textureId : AtlasTextureId
  tileId : Nat
deriving DecidableEq, Repr

/-- A shadow, a quad, an underline or a surface. -/
structure Shape (U S : Type) where
  order : Nat
  bounds : Bounds U
  contentMask : Bounds U
  style : S
deriving DecidableEq

structure Scene.Path (U S : Type) where
  id : Nat
  order : Nat
  bounds : Bounds U
  contentMask : Bounds U
  style : S
deriving DecidableEq

/-- A monochrome, a subpixel or a polychrome sprite. -/
structure Sprite (U S : Type) where
  order : Nat
  bounds : Bounds U
  contentMask : Bounds U
  tile : AtlasTile
  style : S
deriving DecidableEq

inductive Primitive (U S : Type) where
  | shadow (shadow : Shape U S)
  | quad (quad : Shape U S)
  | path (path : Scene.Path U S)
  | underline (underline : Shape U S)
  | monochromeSprite (sprite : Sprite U S)
  | subpixelSprite (sprite : Sprite U S)
  | polychromeSprite (sprite : Sprite U S)
  | surface (surface : Shape U S)
deriving DecidableEq

inductive PaintOperation (U S : Type) where
  | primitive (primitive : Primitive U S)
  | startLayer (bounds : Bounds U)
  | endLayer
deriving DecidableEq

structure Scene (U S : Type) where
  paintOperations : List (PaintOperation U S)
  primitiveBounds : BoundsTree U
  layerStack : List Nat
  shadows : List (Shape U S)
  quads : List (Shape U S)
  paths : List (Scene.Path U S)
  underlines : List (Shape U S)
  monochromeSprites : List (Sprite U S)
  subpixelSprites : List (Sprite U S)
  polychromeSprites : List (Sprite U S)
  surfaces : List (Shape U S)

variable {U S : Type}

namespace Primitive

def bounds : Primitive U S → Bounds U
  | .shadow s          => s.bounds
  | .quad q            => q.bounds
  | .path p            => p.bounds
  | .underline u       => u.bounds
  | .monochromeSprite s=> s.bounds
  | .subpixelSprite s  => s.bounds
  | .polychromeSprite s=> s.bounds
  | .surface s         => s.bounds

def contentMask : Primitive U S → Bounds U
  | .shadow s          => s.contentMask
  | .quad q            => q.contentMask
  | .path p            => p.contentMask
  | .underline u       => u.contentMask
  | .monochromeSprite s=> s.contentMask
  | .subpixelSprite s  => s.contentMask
  | .polychromeSprite s=> s.contentMask
  | .surface s         => s.contentMask

/-- What can be seen of a primitive. -/
def clippedBounds [AddCommGroup U] [LinearOrder U] (self : Primitive U S) : Bounds U :=
  self.bounds.intersect self.contentMask

end Primitive

namespace Scene

variable [AddCommGroup U] [LinearOrder U]

def default : Scene U S where
  paintOperations := []
  primitiveBounds := .empty
  layerStack := []
  shadows := []
  quads := []
  paths := []
  underlines := []
  monochromeSprites := []
  subpixelSprites := []
  polychromeSprites := []
  surfaces := []

def clear (scene : Scene U S) : Scene U S where
  paintOperations := []
  primitiveBounds := scene.primitiveBounds.clear
  layerStack := []
  shadows := []
  quads := []
  paths := []
  underlines := []
  monochromeSprites := []
  subpixelSprites := []
  polychromeSprites := []
  surfaces := []

def pushLayer (scene : Scene U S) (bounds : Bounds U) : Run (Scene U S) := do
  let (primitiveBounds, order) ← scene.primitiveBounds.insert bounds
  .ok { scene with
    primitiveBounds := primitiveBounds
    layerStack := scene.layerStack ++ [order]
    paintOperations := scene.paintOperations ++ [.startLayer bounds] }

def popLayer (scene : Scene U S) : Scene U S :=
  { scene with
    layerStack := scene.layerStack.dropLast
    paintOperations := scene.paintOperations ++ [.endLayer] }

/-- The order of a primitive: the innermost layer's, or a new one. -/
def drawOrder (scene : Scene U S) (clippedBounds : Bounds U) : Run (BoundsTree U × Nat) :=
  match scene.layerStack.getLast? with
  | some order => .ok (scene.primitiveBounds, order)
  | none       => scene.primitiveBounds.insert clippedBounds

/-- A primitive is put to the others of its kind, with its order. -/
def store (scene : Scene U S) (order : Nat) : Primitive U S → Scene U S × Primitive U S
  | .shadow shadow =>
      let shadow := { shadow with order := order }
      ({ scene with shadows := scene.shadows ++ [shadow] }, .shadow shadow)
  | .quad quad =>
      let quad := { quad with order := order }
      ({ scene with quads := scene.quads ++ [quad] }, .quad quad)
  | .path path =>
      let path := { path with order := order, id := scene.paths.length }
      ({ scene with paths := scene.paths ++ [path] }, .path path)
  | .underline underline =>
      let underline := { underline with order := order }
      ({ scene with underlines := scene.underlines ++ [underline] }, .underline underline)
  | .monochromeSprite sprite =>
      let sprite := { sprite with order := order }
      ({ scene with monochromeSprites := scene.monochromeSprites ++ [sprite] },
        .monochromeSprite sprite)
  | .subpixelSprite sprite =>
      let sprite := { sprite with order := order }
      ({ scene with subpixelSprites := scene.subpixelSprites ++ [sprite] },
        .subpixelSprite sprite)
  | .polychromeSprite sprite =>
      let sprite := { sprite with order := order }
      ({ scene with polychromeSprites := scene.polychromeSprites ++ [sprite] },
        .polychromeSprite sprite)
  | .surface surface =>
      let surface := { surface with order := order }
      ({ scene with surfaces := scene.surfaces ++ [surface] }, .surface surface)

def insertPrimitive (scene : Scene U S) (primitive : Primitive U S) : Run (Scene U S) :=
  if primitive.clippedBounds.isEmpty then .ok scene
  else do
    let (primitiveBounds, order) ← scene.drawOrder primitive.clippedBounds
    let (scene, primitive) := { scene with primitiveBounds := primitiveBounds }.store order primitive
    .ok { scene with paintOperations := scene.paintOperations ++ [.primitive primitive] }

/-- `sort_by_key` of the sprites, by order and tile. -/
def sortSprites (sprites : List (Sprite U S)) : List (Sprite U S) :=
  sprites.insertionSort
    (fun a b => a.order < b.order ∨ a.order = b.order ∧ a.tile.tileId ≤ b.tile.tileId)

def finish (scene : Scene U S) : Scene U S :=
  { scene with
    shadows := scene.shadows.insertionSort (fun a b => a.order ≤ b.order)
    quads := scene.quads.insertionSort (fun a b => a.order ≤ b.order)
    paths := scene.paths.insertionSort (fun a b => a.order ≤ b.order)
    underlines := scene.underlines.insertionSort (fun a b => a.order ≤ b.order)
    monochromeSprites := sortSprites scene.monochromeSprites
    subpixelSprites := sortSprites scene.subpixelSprites
    polychromeSprites := sortSprites scene.polychromeSprites
    surfaces := scene.surfaces.insertionSort (fun a b => a.order ≤ b.order) }

end Scene

/-! ## Batches -/

/-- Primitives of one kind, by their indices. -/
inductive PrimitiveBatch where
  | shadows (start stop : Nat)
  | quads (start stop : Nat)
  | paths (start stop : Nat)
  | underlines (start stop : Nat)
  | monochromeSprites (textureId : AtlasTextureId) (start stop : Nat)
  | subpixelSprites (textureId : AtlasTextureId) (start stop : Nat)
  | polychromeSprites (textureId : AtlasTextureId) (start stop : Nat)
  | surfaces (start stop : Nat)
deriving DecidableEq, Repr

/-- A peekable iterator over the primitives of a kind, and the index it has come to. -/
structure KindIter (P : Type) where
  start : Nat
  rest : List P

namespace KindIter

variable {P : Type}

def ofList (primitives : List P) : KindIter P := ⟨0, primitives⟩

/-- The next primitive, and those after it as long as a condition holds. -/
def take (iter : KindIter P) (more : P → Bool) : KindIter P where
  start := iter.start + 1 + (iter.rest.tail.takeWhile more).length
  rest := iter.rest.tail.dropWhile more

end KindIter

structure BatchIterator (U S : Type) where
  shadows : KindIter (Shape U S)
  quads : KindIter (Shape U S)
  paths : KindIter (Scene.Path U S)
  underlines : KindIter (Shape U S)
  monochromeSprites : KindIter (Sprite U S)
  subpixelSprites : KindIter (Sprite U S)
  polychromeSprites : KindIter (Sprite U S)
  surfaces : KindIter (Shape U S)

/-- `(order, kind) < limit` -/
def isBefore (order : Nat) (kind : PrimitiveKind) (limit : Nat × PrimitiveKind) : Bool :=
  order < limit.1 || order == limit.1 && kind.rank < limit.2.rank

namespace BatchIterator

/-- The order of the next primitive of each kind. -/
def ordersAndKinds (it : BatchIterator U S) : List (Option Nat × PrimitiveKind) :=
  [(it.shadows.rest.head?.map Shape.order, .shadow),
   (it.quads.rest.head?.map Shape.order, .quad),
   (it.paths.rest.head?.map Scene.Path.order, .path),
   (it.underlines.rest.head?.map Shape.order, .underline),
   (it.monochromeSprites.rest.head?.map Sprite.order, .monochromeSprite),
   (it.subpixelSprites.rest.head?.map Sprite.order, .subpixelSprite),
   (it.polychromeSprites.rest.head?.map Sprite.order, .polychromeSprite),
   (it.surfaces.rest.head?.map Shape.order, .surface)]

/-- The order of the keys: a kind that has no primitives left counts as `u32::MAX`. -/
def NoLater (a b : Option Nat × PrimitiveKind) : Prop :=
  a.1.getD u32Max < b.1.getD u32Max ∨
    a.1.getD u32Max = b.1.getD u32Max ∧ a.2.rank ≤ b.2.rank

instance : DecidableRel NoLater :=
  fun a b => inferInstanceAs (Decidable (a.1.getD u32Max < b.1.getD u32Max ∨
    a.1.getD u32Max = b.1.getD u32Max ∧ a.2.rank ≤ b.2.rank))

/-- `sort_by_key` on the order and the kind. -/
def sortKinds (kinds : List (Option Nat × PrimitiveKind)) :
    List (Option Nat × PrimitiveKind) :=
  kinds.insertionSort NoLater

/-- A batch of sprites with one texture. -/
def takeSprites (sprites : KindIter (Sprite U S)) (kind : PrimitiveKind)
    (limit : Nat × PrimitiveKind) : Run (KindIter (Sprite U S) × AtlasTextureId) :=
  match sprites.rest with
  | [] => .error .unwrapNone
  | sprite :: _ =>
      let textureId := sprite.tile.textureId
      .ok (sprites.take
        (fun sprite => isBefore sprite.order kind limit && sprite.tile.textureId == textureId),
        textureId)

/-- A batch of the given kind. -/
def takeKind (it : BatchIterator U S) (kind : PrimitiveKind) (limit : Nat × PrimitiveKind) :
    Run (PrimitiveBatch × BatchIterator U S) :=
  match kind with
  | .shadow =>
      let shadows := it.shadows.take (fun shadow => isBefore shadow.order kind limit)
      .ok (.shadows it.shadows.start shadows.start, { it with shadows := shadows })
  | .quad =>
      let quads := it.quads.take (fun quad => isBefore quad.order kind limit)
      .ok (.quads it.quads.start quads.start, { it with quads := quads })
  | .path =>
      let paths := it.paths.take (fun path => isBefore path.order kind limit)
      .ok (.paths it.paths.start paths.start, { it with paths := paths })
  | .underline =>
      let underlines := it.underlines.take (fun underline => isBefore underline.order kind limit)
      .ok (.underlines it.underlines.start underlines.start, { it with underlines := underlines })
  | .monochromeSprite => do
      let (sprites, textureId) ← takeSprites it.monochromeSprites kind limit
      .ok (.monochromeSprites textureId it.monochromeSprites.start sprites.start,
        { it with monochromeSprites := sprites })
  | .subpixelSprite => do
      let (sprites, textureId) ← takeSprites it.subpixelSprites kind limit
      .ok (.subpixelSprites textureId it.subpixelSprites.start sprites.start,
        { it with subpixelSprites := sprites })
  | .polychromeSprite => do
      let (sprites, textureId) ← takeSprites it.polychromeSprites kind limit
      .ok (.polychromeSprites textureId it.polychromeSprites.start sprites.start,
        { it with polychromeSprites := sprites })
  | .surface =>
      let surfaces := it.surfaces.take (fun surface => isBefore surface.order kind limit)
      .ok (.surfaces it.surfaces.start surfaces.start, { it with surfaces := surfaces })

def next (it : BatchIterator U S) : Run (Option (PrimitiveBatch × BatchIterator U S)) := do
  let kinds := sortKinds it.ordersAndKinds
  let first ← getIndex kinds 0
  let second ← getIndex kinds 1
  if first.1.isSome then
    let taken ← it.takeKind first.2 (second.1.getD u32Max, second.2)
    .ok (some taken)
  else .ok none

/-- How many primitives are left. -/
def remaining (it : BatchIterator U S) : Nat :=
  it.shadows.rest.length + it.quads.rest.length + it.paths.rest.length
    + it.underlines.rest.length + it.monochromeSprites.rest.length
    + it.subpixelSprites.rest.length + it.polychromeSprites.rest.length
    + it.surfaces.rest.length

/-- One turn of the iteration: the batches so far. -/
def batchesBody : BatchIterator U S × List PrimitiveBatch →
    Run (Next (BatchIterator U S × List PrimitiveBatch) (List PrimitiveBatch))
  | (it, batches) => do
      match ← it.next with
      | none             => .ok (.done batches)
      | some (batch, it) => .ok (.again (it, batches ++ [batch]))

end BatchIterator

namespace Scene

def batchIterator (scene : Scene U S) : BatchIterator U S where
  shadows := .ofList scene.shadows
  quads := .ofList scene.quads
  paths := .ofList scene.paths
  underlines := .ofList scene.underlines
  monochromeSprites := .ofList scene.monochromeSprites
  subpixelSprites := .ofList scene.subpixelSprites
  polychromeSprites := .ofList scene.polychromeSprites
  surfaces := .ofList scene.surfaces

def batches (scene : Scene U S) : Run (List PrimitiveBatch) :=
  loop .loopBound BatchIterator.batchesBody (scene.batchIterator.remaining + 1)
    (scene.batchIterator, [])

/-- `xs[start..stop]` -/
def slice {P : Type} (primitives : List P) (start stop : Nat) : List P :=
  (primitives.drop start).take (stop - start)

/-- The primitives of a batch. -/
def primitivesOf (scene : Scene U S) : PrimitiveBatch → List (Primitive U S)
  | .shadows start stop    => (slice scene.shadows start stop).map .shadow
  | .quads start stop      => (slice scene.quads start stop).map .quad
  | .paths start stop      => (slice scene.paths start stop).map .path
  | .underlines start stop => (slice scene.underlines start stop).map .underline
  | .monochromeSprites _ start stop =>
      (slice scene.monochromeSprites start stop).map .monochromeSprite
  | .subpixelSprites _ start stop =>
      (slice scene.subpixelSprites start stop).map .subpixelSprite
  | .polychromeSprites _ start stop =>
      (slice scene.polychromeSprites start stop).map .polychromeSprite
  | .surfaces start stop   => (slice scene.surfaces start stop).map .surface

/-- The primitives in the order in which the batches draw them. -/
def drawn (scene : Scene U S) : Run (List (Primitive U S)) := do
  let batches ← scene.batches
  .ok (batches.flatMap scene.primitivesOf)

end Scene

end Gpui
