import Gpui.Lib.Machine
import Gpui.Scene.Scene

/-! # The sprite atlas: the model

    Tiles of many keys share a few textures.  The area of a tile comes from the allocator
    of its texture, the slot of a texture from a free list, and the bytes of a tile wait in
    a queue for the next frame.  The allocator and the graphics device are not part of the
    repository: what they do is a class each.

    A state has the lock, so an operation is one step. -/

namespace Gpui

namespace Size

variable {U : Type} [LinearOrder U]

def max (self other : Size U) : Size U where
  width := if self.width ≥ other.width then self.width else other.width
  height := if self.height ≥ other.height then self.height else other.height

def min (self other : Size U) : Size U where
  width := if self.width ≥ other.width then other.width else self.width
  height := if self.height ≥ other.height then other.height else self.height

end Size

namespace Atlas

/-! ### Keys and tiles -/

/-- The keys; of their parameters the atlas reads two of a glyph. -/
inductive AtlasKey (Glyph Svg Image : Type) where
  | glyph (isEmoji subpixelRendering : Bool) (params : Glyph)
  | svg (params : Svg)
  | image (params : Image)
deriving DecidableEq

def AtlasKey.textureKind {Glyph Svg Image : Type} : AtlasKey Glyph Svg Image → AtlasTextureKind
  | .glyph isEmoji subpixelRendering _ =>
      if isEmoji then .polychrome else if subpixelRendering then .subpixel else .monochrome
  | .svg _   => .monochrome
  | .image _ => .polychrome

structure AtlasTile (AllocId : Type) where
  textureId : AtlasTextureId
  tileId : AllocId
  padding : Nat
  bounds : Bounds Int
deriving DecidableEq

/-! ### The allocator -/

structure Rectangle where
  min : Point Int
  max : Point Int
deriving DecidableEq, Repr

structure Allocation (AllocId : Type) where
  id : AllocId
  rectangle : Rectangle
deriving DecidableEq

/-- A `BucketedAtlasAllocator`.  An id can be the one of several allocations. -/
class AtlasAllocator (Allocator : Type) (AllocId : outParam Type) where
  new : Size Int → Allocator
  allocate : Allocator → Size Int → Allocator × Option (Allocation AllocId)
  /-- `none`: it panics. -/
  deallocate : Allocator → AllocId → Option Allocator

/-! ### The graphics device -/

inductive TextureFormat where
  | r8Unorm
  | bgra8Unorm
  | rgba8Unorm
  /-- Another one, with the bytes of its texels. -/
  | other (bytes : Nat)
deriving DecidableEq, Repr

/-- The bytes of a texel. -/
def TextureFormat.blockCopySize : TextureFormat → Nat
  | .r8Unorm                  => 1
  | .bgra8Unorm | .rgba8Unorm => 4
  | .other bytes              => bytes

structure TextureDescriptor where
  width : Nat
  height : Nat
  format : TextureFormat
deriving DecidableEq, Repr

/-- An origin and an extent in a texture. -/
structure TextureRegion where
  x : Nat
  y : Nat
  width : Nat
  height : Nat
deriving DecidableEq, Repr

/-- The textures of the device, by their content. -/
class Gpu (Content : Type) where
  createTexture : TextureDescriptor → Content
  writeTexture : TextureDescriptor → Content → TextureRegion → List UInt8 →
    (bytesPerRow : Nat) → Content
  /-- The bytes of a region, row by row. -/
  readTexture : Content → TextureRegion → List UInt8

structure GpuTexture (Content : Type) where
  descriptor : TextureDescriptor
  content : Content

/-! ### The textures of the atlas -/

/-- The ways the atlas can panic. -/
inductive AtlasPanic where
  | outOfBounds
  /-- "texture must exist". -/
  | textureMustExist
  /-- `live_atlas_keys` goes below zero. -/
  | underflow
  /-- The allocator panics. -/
  | deallocate
deriving DecidableEq, Repr

section Textures

variable {Allocator AllocId Content : Type} [AtlasAllocator Allocator AllocId] [Gpu Content]

structure WgpuAtlasTexture (Allocator Content : Type) where
  id : AtlasTextureId
  allocator : Allocator
  texture : GpuTexture Content
  format : TextureFormat
  liveAtlasKeys : Nat

namespace WgpuAtlasTexture

def allocate (self : WgpuAtlasTexture Allocator Content) (size : Size Int) :
    WgpuAtlasTexture Allocator Content × Option (AtlasTile AllocId) :=
  match AtlasAllocator.allocate self.allocator size with
  | (allocator, none) => ({ self with allocator }, none)
  | (allocator, some allocation) =>
      ({ self with allocator, liveAtlasKeys := self.liveAtlasKeys + 1 },
        some {
          textureId := self.id
          tileId := allocation.id
          padding := 0
          bounds := ⟨allocation.rectangle.min, size⟩ })

def bytesPerPixel (self : WgpuAtlasTexture Allocator Content) : Nat :=
  match self.format with
  | .r8Unorm                  => 1
  | .bgra8Unorm | .rgba8Unorm => 4
  | .other _                  => 4

def decrementRefCount (self : WgpuAtlasTexture Allocator Content) :
    Except AtlasPanic (WgpuAtlasTexture Allocator Content) :=
  if self.liveAtlasKeys = 0 then .error .underflow
  else .ok { self with liveAtlasKeys := self.liveAtlasKeys - 1 }

def isUnreferenced (self : WgpuAtlasTexture Allocator Content) : Bool :=
  self.liveAtlasKeys == 0

end WgpuAtlasTexture

structure AtlasTextureList (T : Type) where
  textures : List (Option T)
  freeList : List Nat

/-- The textures from the last one on, up to the first that has room. -/
def findAllocate (size : Size Int) :
    List (Option (WgpuAtlasTexture Allocator Content)) →
      List (Option (WgpuAtlasTexture Allocator Content)) × Option (AtlasTile AllocId)
  | [] => ([], none)
  | slot :: rest =>
      match findAllocate size rest with
      | (rest, some tile) => (slot :: rest, some tile)
      | (rest, none) =>
          match slot with
          | none => (none :: rest, none)
          | some texture =>
              let (texture, tile) := texture.allocate size
              (some texture :: rest, tile)

structure WgpuAtlasStorage (Allocator Content : Type) where
  monochromeTextures : AtlasTextureList (WgpuAtlasTexture Allocator Content)
  subpixelTextures : AtlasTextureList (WgpuAtlasTexture Allocator Content)
  polychromeTextures : AtlasTextureList (WgpuAtlasTexture Allocator Content)

namespace WgpuAtlasStorage

def default : WgpuAtlasStorage Allocator Content := ⟨⟨[], []⟩, ⟨[], []⟩, ⟨[], []⟩⟩

def index (self : WgpuAtlasStorage Allocator Content) :
    AtlasTextureKind → AtlasTextureList (WgpuAtlasTexture Allocator Content)
  | .monochrome => self.monochromeTextures
  | .subpixel   => self.subpixelTextures
  | .polychrome => self.polychromeTextures

/-- What is assigned through `index_mut`. -/
def setIndex (self : WgpuAtlasStorage Allocator Content) (kind : AtlasTextureKind)
    (list : AtlasTextureList (WgpuAtlasTexture Allocator Content)) :
    WgpuAtlasStorage Allocator Content :=
  match kind with
  | .monochrome => { self with monochromeTextures := list }
  | .subpixel   => { self with subpixelTextures := list }
  | .polychrome => { self with polychromeTextures := list }

def get (self : WgpuAtlasStorage Allocator Content) (id : AtlasTextureId) :
    Option (WgpuAtlasTexture Allocator Content) :=
  (self.index id.kind).textures[id.index]?.join

/-- The slot of a texture. -/
def setSlot (self : WgpuAtlasStorage Allocator Content) (id : AtlasTextureId)
    (slot : Option (WgpuAtlasTexture Allocator Content)) : WgpuAtlasStorage Allocator Content :=
  self.setIndex id.kind
    { self.index id.kind with textures := (self.index id.kind).textures.set id.index slot }

end WgpuAtlasStorage

/-! ### The state -/

structure PendingUpload where
  id : AtlasTextureId
  bounds : Bounds Int
  data : List UInt8
deriving DecidableEq

/-- `chunks_exact_mut(4)`, with the first and the third byte of each chunk swapped. -/
def swapChunks : List UInt8 → List UInt8
  | b :: g :: r :: a :: rest => r :: g :: b :: a :: swapChunks rest
  | rest                     => rest

def swizzleUploadData (bytes : List UInt8) : TextureFormat → List UInt8
  | .rgba8Unorm => swapChunks bytes
  | _           => bytes

/-- The region that an upload is written to.  The casts to `u32` change nothing where the
    bounds are those of a tile. -/
def PendingUpload.region (self : PendingUpload) : TextureRegion where
  x := self.bounds.origin.x.toNat
  y := self.bounds.origin.y.toNat
  width := self.bounds.size.width.toNat
  height := self.bounds.size.height.toNat

variable {Key : Type} [DecidableEq Key]

/-- The state behind the lock.  The map is a list of its entries. -/
structure WgpuAtlasState (Key Allocator AllocId Content : Type) where
  maxTextureSize : Nat
  colorTextureFormat : TextureFormat
  storage : WgpuAtlasStorage Allocator Content
  tilesByKey : List (Key × AtlasTile AllocId)
  pendingUploads : List PendingUpload

namespace WgpuAtlasState

/-- `tiles_by_key.get`. -/
def getTile (self : WgpuAtlasState Key Allocator AllocId Content) (key : Key) :
    Option (AtlasTile AllocId) :=
  (self.tilesByKey.find? (·.1 = key)).map Prod.snd

/-- `tiles_by_key.insert`. -/
def insertTile (self : WgpuAtlasState Key Allocator AllocId Content) (key : Key)
    (tile : AtlasTile AllocId) : WgpuAtlasState Key Allocator AllocId Content :=
  { self with tilesByKey := (key, tile) :: self.tilesByKey.filter (·.1 ≠ key) }

/-- `tiles_by_key.remove`, without what it returns. -/
def removeTile (self : WgpuAtlasState Key Allocator AllocId Content) (key : Key) :
    WgpuAtlasState Key Allocator AllocId Content :=
  { self with tilesByKey := self.tilesByKey.filter (·.1 ≠ key) }

/-- The size of a new texture. -/
def textureSize (self : WgpuAtlasState Key Allocator AllocId Content) (minSize : Size Int) :
    Size Int :=
  (minSize.min ⟨self.maxTextureSize, self.maxTextureSize⟩).max ⟨1024, 1024⟩

def textureFormat (self : WgpuAtlasState Key Allocator AllocId Content) :
    AtlasTextureKind → TextureFormat
  | .monochrome             => .r8Unorm
  | .subpixel | .polychrome => self.colorTextureFormat

/-- The new texture of `push_texture`. -/
def newTexture (self : WgpuAtlasState Key Allocator AllocId Content) (minSize : Size Int)
    (id : AtlasTextureId) : WgpuAtlasTexture Allocator Content :=
  let size := self.textureSize minSize
  let format := self.textureFormat id.kind
  let descriptor := ⟨size.width.toNat, size.height.toNat, format⟩
  { id
    allocator := AtlasAllocator.new size
    texture := ⟨descriptor, Gpu.createTexture descriptor⟩
    format
    liveAtlasKeys := 0 }

/-- The state, and the index of the new texture. -/
def pushTexture (self : WgpuAtlasState Key Allocator AllocId Content) (minSize : Size Int)
    (kind : AtlasTextureKind) :
    Except AtlasPanic (WgpuAtlasState Key Allocator AllocId Content × Nat) :=
  let list := self.storage.index kind
  match list.freeList.getLast? with
  | some ix =>
      if ix < list.textures.length then
        .ok ({ self with storage := self.storage.setIndex kind {
                textures := list.textures.set ix (some (self.newTexture minSize ⟨ix, kind⟩))
                freeList := list.freeList.dropLast } }, ix)
      else .error .outOfBounds
  | none =>
      let ix := list.textures.length
      .ok ({ self with storage := self.storage.setIndex kind {
              list with
              textures := list.textures ++ [some (self.newTexture minSize ⟨ix, kind⟩)] } }, ix)

def allocate (self : WgpuAtlasState Key Allocator AllocId Content) (size : Size Int)
    (kind : AtlasTextureKind) :
    Except AtlasPanic
      (WgpuAtlasState Key Allocator AllocId Content × Option (AtlasTile AllocId)) :=
  let list := self.storage.index kind
  let (textures, tile) := findAllocate size list.textures
  let self := { self with storage := self.storage.setIndex kind { list with textures } }
  match tile with
  | some tile => .ok (self, some tile)
  | none => do
      let (self, ix) ← self.pushTexture size kind
      match self.storage.get ⟨ix, kind⟩ with
      | none => .error .textureMustExist
      | some texture =>
          let (texture, tile) := texture.allocate size
          .ok ({ self with storage := self.storage.setSlot ⟨ix, kind⟩ (some texture) }, tile)

def uploadTexture (self : WgpuAtlasState Key Allocator AllocId Content) (id : AtlasTextureId)
    (bounds : Bounds Int) (bytes : List UInt8) : WgpuAtlasState Key Allocator AllocId Content :=
  let data :=
    match self.storage.get id with
    | some texture => swizzleUploadData bytes texture.format
    | none         => bytes
  { self with pendingUploads := self.pendingUploads ++ [⟨id, bounds, data⟩] }

/-- What an upload writes into its texture. -/
def writeUpload (texture : WgpuAtlasTexture Allocator Content) (upload : PendingUpload) :
    WgpuAtlasTexture Allocator Content :=
  { texture with texture := { texture.texture with
      content := Gpu.writeTexture texture.texture.descriptor texture.texture.content
        upload.region upload.data (upload.region.width * texture.bytesPerPixel) } }

/-- The body of the loop of `flush_uploads`. -/
def flushUpload (storage : WgpuAtlasStorage Allocator Content) (upload : PendingUpload) :
    WgpuAtlasStorage Allocator Content :=
  match storage.get upload.id with
  | none         => storage
  | some texture => storage.setSlot upload.id (some (writeUpload texture upload))

def flushUploads (self : WgpuAtlasState Key Allocator AllocId Content) :
    WgpuAtlasState Key Allocator AllocId Content :=
  { self with
    storage := self.pendingUploads.foldl flushUpload self.storage
    pendingUploads := [] }

/-- The end of `remove`, once the slot has been found and emptied. -/
def release (self : WgpuAtlasState Key Allocator AllocId Content) (id : AtlasTextureId)
    (texture : WgpuAtlasTexture Allocator Content) (tileId : AllocId) :
    Except AtlasPanic (WgpuAtlasState Key Allocator AllocId Content) :=
  match AtlasAllocator.deallocate texture.allocator tileId with
  | none => .error .deallocate
  | some allocator => do
      let texture ← { texture with allocator }.decrementRefCount
      if texture.isUnreferenced then
        let storage := self.storage.setSlot id none
        let list := storage.index id.kind
        .ok { self with
          pendingUploads := self.pendingUploads.filter (·.id ≠ texture.id)
          storage := storage.setIndex id.kind
            { list with freeList := list.freeList ++ [texture.id.index] } }
      else
        .ok { self with storage := self.storage.setSlot id (some texture) }

end WgpuAtlasState

/-! ### The operations -/

/-- The error of `get_or_insert_with`: the one of `build`, or "failed to allocate". -/
inductive AtlasError where
  | build
  | failedToAllocate
deriving DecidableEq, Repr

/-- The atlas, with what `build` has returned last for every key. -/
structure WgpuAtlas (Key Allocator AllocId Content : Type) where
  state : WgpuAtlasState Key Allocator AllocId Content
  built : Key → List UInt8

namespace WgpuAtlas

/-- What `build` returns. -/
abbrev Built := Except AtlasError (Option (Size Int × List UInt8))

def new (maxTextureSize : Nat) (colorTextureFormat : TextureFormat) :
    WgpuAtlas Key Allocator AllocId Content where
  state := ⟨maxTextureSize, colorTextureFormat, .default, [], []⟩
  built := fun _ => []

def beforeFrame (self : WgpuAtlas Key Allocator AllocId Content) :
    WgpuAtlas Key Allocator AllocId Content :=
  { self with state := self.state.flushUploads }

def clear (self : WgpuAtlas Key Allocator AllocId Content) :
    WgpuAtlas Key Allocator AllocId Content :=
  { self with state := { self.state with
      storage := .default
      tilesByKey := []
      pendingUploads := [] } }

/-- A key whose tile is not there, once `build` has returned it. -/
def insertWith (self : WgpuAtlas Key Allocator AllocId Content) (textureKind : AtlasTextureKind)
    (key : Key) (size : Size Int) (bytes : List UInt8) :
    Except AtlasPanic (WgpuAtlas Key Allocator AllocId Content ×
      Except AtlasError (Option (AtlasTile AllocId))) := do
  let (state, tile) ← self.state.allocate size textureKind
  match tile with
  | none => .ok ({ self with state }, .error .failedToAllocate)
  | some tile =>
      let state := state.uploadTexture tile.textureId tile.bounds bytes
      .ok ({ state := state.insertTile key tile, built := Function.update self.built key bytes },
        .ok (some tile))

def getOrInsertWith (self : WgpuAtlas Key Allocator AllocId Content)
    (textureKind : Key → AtlasTextureKind) (key : Key) (build : Built) :
    Except AtlasPanic (WgpuAtlas Key Allocator AllocId Content ×
      Except AtlasError (Option (AtlasTile AllocId))) :=
  match self.state.getTile key with
  | some tile => .ok (self, .ok (some tile))
  | none =>
      match build with
      | .error e               => .ok (self, .error e)
      | .ok none               => .ok (self, .ok none)
      | .ok (some (size, bytes)) => self.insertWith (textureKind key) key size bytes

def remove (self : WgpuAtlas Key Allocator AllocId Content) (key : Key) :
    Except AtlasPanic (WgpuAtlas Key Allocator AllocId Content) :=
  match self.state.getTile key with
  | none => .ok self
  | some tile =>
      let state := self.state.removeTile key
      match state.storage.get tile.textureId with
      -- the slot is not there, or is empty
      | none => .ok { self with state }
      | some texture => do
          let state ← state.release tile.textureId texture tile.tileId
          .ok { self with state }

inductive Action (Key : Type) where
  /-- With what `build` returns, if it is called. -/
  | getOrInsertWith (key : Key) (build : Built)
  | remove (key : Key)
  | beforeFrame
  | clear

def step (textureKind : Key → AtlasTextureKind) (self : WgpuAtlas Key Allocator AllocId Content) :
    Action Key → Except AtlasPanic (WgpuAtlas Key Allocator AllocId Content)
  | .getOrInsertWith key build => (self.getOrInsertWith textureKind key build).map Prod.fst
  | .remove key                => self.remove key
  | .beforeFrame               => .ok self.beforeFrame
  | .clear                     => .ok self.clear

/-- The atlas on a device with these limits. -/
def machine (maxTextureSize : Nat) (colorTextureFormat : TextureFormat)
    (textureKind : Key → AtlasTextureKind) :
    Machine AtlasPanic (WgpuAtlas Key Allocator AllocId Content) (Action Key) where
  start := new maxTextureSize colorTextureFormat
  step := fun self action => some (self.step textureKind action)

end WgpuAtlas

end Textures

end Atlas

end Gpui
