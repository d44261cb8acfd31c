import Gpui.Atlas.WgpuAtlas

/-! # The sprite atlas keeps its books

    Uploads are written in the order in which they were queued.  So an upload of a removed
    key can only go below the tiles that were allocated after the removal, and the tiles
    that were there before lie apart from it. -/

open Exec

namespace Gpui

open List

namespace Atlas

/-! ### What is not part of the repository -/

/-- The rectangles have no pixel in common. -/
def Rectangle.Apart (r r' : Rectangle) : Prop :=
  r.max.x ≤ r'.min.x ∨ r'.max.x ≤ r.min.x ∨ r.max.y ≤ r'.min.y ∨ r'.max.y ≤ r.min.y

theorem Rectangle.Apart.symm {r r' : Rectangle} (h : r.Apart r') : r'.Apart r := by
  unfold Rectangle.Apart at *
  omega

/-- A size that is not empty fits into the rectangle, which lies in a texture. -/
structure Rectangle.Holds (r : Rectangle) (size within : Size Int) : Prop where
  positive : 0 < size.width ∧ 0 < size.height
  origin : 0 ≤ r.min.x ∧ 0 ≤ r.min.y
  width : r.min.x + size.width ≤ r.max.x
  height : r.min.y + size.height ≤ r.max.y
  inside : r.max.x ≤ within.width ∧ r.max.y ≤ within.height

def TextureRegion.Apart (r r' : TextureRegion) : Prop :=
  r.x + r.width ≤ r'.x ∨ r'.x + r'.width ≤ r.x ∨ r.y + r.height ≤ r'.y ∨ r'.y + r'.height ≤ r.y

def TextureRegion.Inside (r : TextureRegion) (descriptor : TextureDescriptor) : Prop :=
  r.x + r.width ≤ descriptor.width ∧ r.y + r.height ≤ descriptor.height

section Laws

variable {Allocator AllocId Content : Type} [AtlasAllocator Allocator AllocId] [Gpu Content]

/-- What the atlas relies on: with the allocations that are live, a new one is apart from
    them. -/
structure LawfulAllocator
    (Live : Size Int → Allocator → Multiset (Allocation AllocId) → Prop) : Prop where
  new : ∀ size, Live size (AtlasAllocator.new size) 0
  fails : ∀ {size allocator live requested allocator'}, Live size allocator live →
    AtlasAllocator.allocate allocator requested = (allocator', none) → Live size allocator' live
  allocates : ∀ {size allocator live requested allocator' allocation}, Live size allocator live →
    AtlasAllocator.allocate allocator requested = (allocator', some allocation) →
      Live size allocator' (allocation ::ₘ live)
  holds : ∀ {size allocator live requested allocator' allocation}, Live size allocator live →
    AtlasAllocator.allocate allocator requested = (allocator', some allocation) →
      allocation.rectangle.Holds requested size
  apart : ∀ {size allocator live requested allocator' allocation}, Live size allocator live →
    AtlasAllocator.allocate allocator requested = (allocator', some allocation) →
      ∀ other ∈ live, allocation.rectangle.Apart other.rectangle
  deallocates : ∀ {size allocator live allocation}, Live size allocator (allocation ::ₘ live) →
    ∃ allocator', AtlasAllocator.deallocate allocator allocation.id = some allocator' ∧
      Live size allocator' live

/-- What the atlas relies on: a region that was written as a whole holds what was written,
    and regions apart from it are as before. -/
structure LawfulGpu (Content : Type) [Gpu Content] : Prop where
  read_write : ∀ (descriptor : TextureDescriptor) (content : Content) (region : TextureRegion)
    (data : List UInt8), region.Inside descriptor →
    data.length = region.width * descriptor.format.blockCopySize * region.height →
    Gpu.readTexture (Gpu.writeTexture descriptor content region data
      (region.width * descriptor.format.blockCopySize)) region = data
  read_write_apart : ∀ {descriptor : TextureDescriptor} {content : Content}
    {region region' : TextureRegion} {data : List UInt8} {bytesPerRow : Nat},
    region.Apart region' →
    Gpu.readTexture (Gpu.writeTexture descriptor content region data bytesPerRow) region' =
      Gpu.readTexture content region'

end Laws

/-! ### Slots -/

section Slots

variable {Allocator AllocId Content : Type}

namespace WgpuAtlasStorage

variable (self : WgpuAtlasStorage Allocator Content) {id : AtlasTextureId}

@[simp] theorem index_setIndex_self (kind : AtlasTextureKind)
    (list : AtlasTextureList (WgpuAtlasTexture Allocator Content)) :
    (self.setIndex kind list).index kind = list := by
  cases kind with
  | monochrome => rfl
  | polychrome => rfl
  | subpixel => rfl

theorem index_setIndex_ne {kind kind' : AtlasTextureKind} (h : kind' ≠ kind)
    (list : AtlasTextureList (WgpuAtlasTexture Allocator Content)) :
    (self.setIndex kind list).index kind' = self.index kind' := by
  cases kind with
  | _ =>
    cases kind' with
    | _ => first | rfl | exact absurd rfl h

@[simp] theorem setIndex_setIndex (kind : AtlasTextureKind)
    (list list' : AtlasTextureList (WgpuAtlasTexture Allocator Content)) :
    (self.setIndex kind list).setIndex kind list' = self.setIndex kind list' := by
  cases kind with
  | monochrome => rfl
  | polychrome => rfl
  | subpixel => rfl

theorem get_setIndex_self (kind : AtlasTextureKind) (ix : Nat)
    (list : AtlasTextureList (WgpuAtlasTexture Allocator Content)) :
    (self.setIndex kind list).get ⟨ix, kind⟩ = list.textures[ix]?.join := by
  unfold WgpuAtlasStorage.get
  rw [index_setIndex_self]

theorem get_setIndex_ne {kind : AtlasTextureKind} (h : id.kind ≠ kind)
    (list : AtlasTextureList (WgpuAtlasTexture Allocator Content)) :
    (self.setIndex kind list).get id = self.get id := by
  unfold WgpuAtlasStorage.get
  rw [index_setIndex_ne self h]

variable {self} {texture : WgpuAtlasTexture Allocator Content}

theorem get_eq_some :
    self.get id = some texture ↔ (self.index id.kind).textures[id.index]? = some (some texture) := by
  unfold WgpuAtlasStorage.get
  rw [Option.join_eq_some_iff]

theorem get_setSlot_self (h : self.get id = some texture)
    (slot : Option (WgpuAtlasTexture Allocator Content)) :
    (self.setSlot id slot).get id = slot := by
  obtain ⟨hlt, _⟩ := List.getElem?_eq_some_iff.1 (get_eq_some.1 h)
  unfold setSlot WgpuAtlasStorage.get
  rw [index_setIndex_self, getElem?_set_self hlt]
  rfl

theorem get_setSlot_ne {id' : AtlasTextureId} (h : id' ≠ id)
    (slot : Option (WgpuAtlasTexture Allocator Content)) :
    (self.setSlot id slot).get id' = self.get id' := by
  by_cases hkind : id'.kind = id.kind
  · have hindex : id.index ≠ id'.index := by
      intro hindex
      apply h
      cases id
      cases id'
      simp_all
    unfold setSlot WgpuAtlasStorage.get
    rw [hkind, index_setIndex_self, getElem?_set_ne hindex]
  · exact get_setIndex_ne self hkind _

end WgpuAtlasStorage

/-- The free list has the empty slots, each once. -/
structure AtlasTextureList.Free {T : Type} (list : AtlasTextureList T) : Prop where
  nodup : list.freeList.Nodup
  mem_iff : ∀ i : Nat, i ∈ list.freeList ↔ list.textures[i]? = some none

/-- The same slots are empty. -/
theorem AtlasTextureList.Free.same {T : Type} {list list' : AtlasTextureList T} (h : list.Free)
    (hfree : list'.freeList = list.freeList)
    (htextures : ∀ i : Nat, list'.textures[i]? = some none ↔ list.textures[i]? = some none) :
    list'.Free where
  nodup := by
    rw [hfree]
    exact h.nodup
  mem_iff := by
    intro i
    rw [hfree, h.mem_iff, htextures]

end Slots

/-! ### One texture -/

section Texture

variable {Key Allocator AllocId Content : Type} {key : Key}

/-- The size of a texture. -/
def WgpuAtlasTexture.size (texture : WgpuAtlasTexture Allocator Content) : Size Int :=
  ⟨texture.texture.descriptor.width, texture.texture.descriptor.height⟩

/-- The rectangles of some keys, under the ids of their tiles. -/
def ledger (rect : Key → Rectangle) (entries : List (Key × AtlasTile AllocId)) :
    Multiset (Allocation AllocId) :=
  (entries.map fun entry => (⟨entry.2.tileId, rect entry.1⟩ : Allocation AllocId) : List _)

theorem ledger_congr {rect rect' : Key → Rectangle} {entries : List (Key × AtlasTile AllocId)}
    (h : ∀ entry ∈ entries, rect' entry.1 = rect entry.1) :
    ledger rect' entries = ledger rect entries := by
  unfold ledger
  rw [map_congr_left]
  intro entry hentry
  rw [h entry hentry]

/-- An entry of a map, and the entries without it. -/
theorem perm_filter_ne [DecidableEq Key] {V : Type} {entries : List (Key × V)}
    (hnodup : (entries.map Prod.fst).Nodup) {v : V} (hmem : (key, v) ∈ entries) :
    entries.Perm ((key, v) :: entries.filter (·.1 ≠ key)) := by
  induction entries with
  | nil => cases hmem
  | cons entry entries ih =>
    rw [map_cons, nodup_cons] at hnodup
    obtain ⟨hnot, hnodup⟩ := hnodup
    obtain rfl | hmem := mem_cons.1 hmem
    · have hfilter : entries.filter (·.1 ≠ key) = entries := by
        rw [filter_eq_self]
        intro entry hentry
        rw [decide_eq_true_eq]
        intro hkey
        exact hnot (mem_map.2 ⟨entry, hentry, hkey⟩)
      rw [filter_cons_of_neg (by simp), hfilter]
    · have hne : entry.1 ≠ key := by
        rintro rfl
        exact hnot (mem_map.2 ⟨_, hmem, rfl⟩)
      rw [filter_cons_of_pos (by simpa using hne)]
      exact ((ih hnodup hmem).cons entry).trans (.swap _ _ _)

namespace WgpuAtlasTexture

variable [AtlasAllocator Allocator AllocId] {texture texture' : WgpuAtlasTexture Allocator Content}

/-- A texture that has no room. -/
theorem allocate_none {size : Size Int} (h : texture.allocate size = (texture', none)) :
    ∃ allocator, AtlasAllocator.allocate texture.allocator size = (allocator, none) ∧
      texture' = { texture with allocator } := by
  unfold WgpuAtlasTexture.allocate at h
  split at h
  · rename_i allocator hallocate
    exact ⟨allocator, hallocate, (Prod.mk.inj h).1.symm⟩
  · cases (Prod.mk.inj h).2

/-- A texture that has room. -/
theorem allocate_some {size : Size Int} {tile : AtlasTile AllocId}
    (h : texture.allocate size = (texture', some tile)) :
    ∃ allocator allocation,
      AtlasAllocator.allocate texture.allocator size = (allocator, some allocation) ∧
      texture' = { texture with allocator, liveAtlasKeys := texture.liveAtlasKeys + 1 } ∧
      tile.textureId = texture.id ∧ tile.tileId = allocation.id ∧
      tile.bounds = ⟨allocation.rectangle.min, size⟩ := by
  unfold WgpuAtlasTexture.allocate at h
  split at h
  · cases (Prod.mk.inj h).2
  · rename_i allocator allocation hallocate
    obtain ⟨htexture, htile⟩ := Prod.mk.inj h
    obtain rfl := Option.some.inj htile
    exact ⟨allocator, allocation, hallocate, htexture.symm, rfl, rfl, rfl⟩

end WgpuAtlasTexture

/-- The region of a tile. -/
def AtlasTile.region (tile : AtlasTile AllocId) : TextureRegion where
  x := tile.bounds.origin.x.toNat
  y := tile.bounds.origin.y.toNat
  width := tile.bounds.size.width.toNat
  height := tile.bounds.size.height.toNat

/-- A tile that fits into its rectangle has a region of the texture. -/
theorem Rectangle.Holds.region_inside {r : Rectangle} {tile : AtlasTile AllocId}
    {texture : WgpuAtlasTexture Allocator Content} (h : r.Holds tile.bounds.size texture.size)
    (horigin : tile.bounds.origin = r.min) :
    tile.region.Inside texture.texture.descriptor := by
  obtain ⟨hpositive, hmin, hwidth, hheight, hinside⟩ := h
  simp only [WgpuAtlasTexture.size] at hinside
  unfold TextureRegion.Inside AtlasTile.region
  rw [horigin]
  dsimp only
  omega

variable {r r' : Rectangle} {tile tile' : AtlasTile AllocId} {within within' : Size Int}

/-- The regions of tiles whose rectangles are apart. -/
theorem Rectangle.Apart.region (h : r.Apart r') (hr : r.Holds tile.bounds.size within)
    (hr' : r'.Holds tile'.bounds.size within') (horigin : tile.bounds.origin = r.min)
    (horigin' : tile'.bounds.origin = r'.min) : tile.region.Apart tile'.region := by
  obtain ⟨hpositive, hmin, hwidth, hheight, _⟩ := hr
  obtain ⟨hpositive', hmin', hwidth', hheight', _⟩ := hr'
  unfold Rectangle.Apart at h
  unfold TextureRegion.Apart AtlasTile.region
  rw [horigin, horigin']
  dsimp only
  omega

/-- The tiles themselves do not intersect. -/
theorem Rectangle.Apart.intersects (h : r.Apart r') (hr : r.Holds tile.bounds.size within)
    (hr' : r'.Holds tile'.bounds.size within') (horigin : tile.bounds.origin = r.min)
    (horigin' : tile'.bounds.origin = r'.min) : tile.bounds.intersects tile'.bounds = false := by
  obtain ⟨_, _, hwidth, hheight, _⟩ := hr
  obtain ⟨_, _, hwidth', hheight', _⟩ := hr'
  unfold Rectangle.Apart at h
  unfold Bounds.intersects Bounds.bottomRight
  rw [horigin, horigin', Bool.eq_false_iff]
  intro hmeet
  simp only [Bool.and_eq_true, decide_eq_true_eq] at hmeet
  omega

theorem length_swapChunks (bytes : List UInt8) : (swapChunks bytes).length = bytes.length := by
  fun_induction swapChunks bytes with
  | case1 b g r a rest ih => simp [ih]
  | case2 rest _ => rfl

theorem length_swizzleUploadData (bytes : List UInt8) (format : TextureFormat) :
    (swizzleUploadData bytes format).length = bytes.length := by
  cases format with
  | rgba8Unorm => exact length_swapChunks bytes
  | _ => rfl

variable [Gpu Content]

/-- The content of a texture once its uploads are written. -/
def written (texture : WgpuAtlasTexture Allocator Content) (pending : List PendingUpload) :
    Content :=
  pending.foldl (fun content upload =>
    Gpu.writeTexture texture.texture.descriptor content upload.region upload.data
      (upload.region.width * texture.bytesPerPixel)) texture.texture.content

theorem written_append (texture : WgpuAtlasTexture Allocator Content)
    (pending : List PendingUpload) (upload : PendingUpload) :
    written texture (pending ++ [upload]) =
      Gpu.writeTexture texture.texture.descriptor (written texture pending) upload.region
        upload.data (upload.region.width * texture.bytesPerPixel) := by
  unfold written
  rw [foldl_append]
  rfl

theorem foldl_writeUpload (texture : WgpuAtlasTexture Allocator Content)
    (pending : List PendingUpload) :
    pending.foldl WgpuAtlasState.writeUpload texture =
      { texture with texture := { texture.texture with content := written texture pending } } := by
  induction pending generalizing texture with
  | nil => rfl
  | cons upload pending ih => exact ih (WgpuAtlasState.writeUpload texture upload)

/-- With this content, the area of a tile contains the bytes that were built for its key, if
    these are the texels of a bitmap of its size. -/
def Contains (built : Key → List UInt8) (texture : WgpuAtlasTexture Allocator Content)
    (content : Content) (entry : Key × AtlasTile AllocId) : Prop :=
  texture.format.blockCopySize = texture.bytesPerPixel →
    (built entry.1).length = entry.2.region.width * texture.bytesPerPixel * entry.2.region.height →
    Gpu.readTexture content entry.2.region = swizzleUploadData (built entry.1) texture.format

/-- What holds of a texture, of the keys whose tiles lie in it, and of its uploads. -/
structure TextureSound (Live : Size Int → Allocator → Multiset (Allocation AllocId) → Prop)
    (rect : Key → Rectangle) (built : Key → List UInt8)
    (texture : WgpuAtlasTexture Allocator Content) (entries : List (Key × AtlasTile AllocId))
    (pending : List PendingUpload) : Prop where
  format : texture.texture.descriptor.format = texture.format
  live : Live texture.size texture.allocator (ledger rect entries)
  keys : texture.liveAtlasKeys = entries.length
  origin : ∀ entry ∈ entries, entry.2.bounds.origin = (rect entry.1).min
  holds : ∀ entry ∈ entries, (rect entry.1).Holds entry.2.bounds.size texture.size
  apart : entries.Pairwise fun entry entry' => (rect entry.1).Apart (rect entry'.1)
  contains : ∀ entry ∈ entries, Contains built texture (written texture pending) entry

namespace TextureSound

variable {Live : Size Int → Allocator → Multiset (Allocation AllocId) → Prop}
variable {rect rect' : Key → Rectangle} {built built' : Key → List UInt8}
variable {texture texture' : WgpuAtlasTexture Allocator Content}
variable {entries : List (Key × AtlasTile AllocId)} {pending : List PendingUpload}

/-- Only the keys whose tiles lie in the texture matter. -/
theorem congr (h : TextureSound Live rect built texture entries pending)
    (hrect : ∀ entry ∈ entries, rect' entry.1 = rect entry.1)
    (hbuilt : ∀ entry ∈ entries, built' entry.1 = built entry.1) :
    TextureSound Live rect' built' texture entries pending where
  format := h.format
  live := by
    rw [ledger_congr hrect]
    exact h.live
  keys := h.keys
  origin := by
    intro entry hentry
    rw [hrect entry hentry]
    exact h.origin entry hentry
  holds := by
    intro entry hentry
    rw [hrect entry hentry]
    exact h.holds entry hentry
  apart := by
    refine h.apart.imp_of_mem ?_
    intro entry entry' hentry hentry' hapart
    rw [hrect entry hentry, hrect entry' hentry']
    exact hapart
  contains := by
    intro entry hentry
    unfold Contains
    rw [hbuilt entry hentry]
    exact h.contains entry hentry

/-- The uploads are written. -/
theorem flush (h : TextureSound Live rect built texture entries pending) :
    TextureSound Live rect built (pending.foldl WgpuAtlasState.writeUpload texture) entries [] := by
  rw [foldl_writeUpload]
  exact ⟨h.format, h.live, h.keys, h.origin, h.holds, h.apart, h.contains⟩

variable [AtlasAllocator Allocator AllocId] {size : Size Int} {tile : AtlasTile AllocId}

/-- A texture that has no room. -/
theorem tried (h : TextureSound Live rect built texture entries pending)
    (hlawful : LawfulAllocator Live) (htried : texture.allocate size = (texture', none)) :
    TextureSound Live rect built texture' entries pending := by
  obtain ⟨allocator, hallocate, rfl⟩ := WgpuAtlasTexture.allocate_none htried
  exact ⟨h.format, hlawful.fails h.live hallocate, h.keys, h.origin, h.holds, h.apart, h.contains⟩

/-- A texture that has room: the new tile is apart from the others, and its upload is the
    last one that is queued. -/
theorem insert [DecidableEq Key] (h : TextureSound Live rect built texture entries pending)
    (hlawful : LawfulAllocator Live) (hgpu : LawfulGpu Content)
    (hallocate : texture.allocate size = (texture', some tile))
    (hkey : ∀ entry ∈ entries, entry.1 ≠ key) (bytes : List UInt8) :
    ∃ rectangle, TextureSound Live (Function.update rect key rectangle)
      (Function.update built key bytes) texture' ((key, tile) :: entries)
      (pending ++ [⟨tile.textureId, tile.bounds, swizzleUploadData bytes texture.format⟩]) := by
  obtain ⟨allocator, allocation, hallocates, rfl, _, htileId, hbounds⟩ :=
    WgpuAtlasTexture.allocate_some hallocate
  have horigin : tile.bounds.origin = allocation.rectangle.min := by rw [hbounds]
  have hholds : allocation.rectangle.Holds tile.bounds.size texture.size := by
    rw [hbounds]
    exact hlawful.holds h.live hallocates
  have hrect : ∀ entry ∈ entries,
      Function.update rect key allocation.rectangle entry.1 = rect entry.1 :=
    fun entry hentry => Function.update_of_ne (hkey entry hentry) _ _
  have hbuilt : ∀ entry ∈ entries, Function.update built key bytes entry.1 = built entry.1 :=
    fun entry hentry => Function.update_of_ne (hkey entry hentry) _ _
  have hself := h.congr hrect hbuilt
  have hapart : ∀ entry ∈ entries, allocation.rectangle.Apart (rect entry.1) := by
    intro entry hentry
    exact hlawful.apart h.live hallocates ⟨entry.2.tileId, rect entry.1⟩
      (Multiset.mem_coe.2 (mem_map_of_mem hentry))
  refine ⟨allocation.rectangle, h.format, ?_, ?_, ?_, ?_, ?_, ?_⟩
  · have hledger : ledger (Function.update rect key allocation.rectangle) ((key, tile) :: entries) =
        allocation ::ₘ ledger (Function.update rect key allocation.rectangle) entries := by
      unfold ledger
      rw [map_cons, ← Multiset.cons_coe, Function.update_self, htileId]
    rw [hledger]
    exact hlawful.allocates hself.live hallocates
  · show texture.liveAtlasKeys + 1 = entries.length + 1
    rw [h.keys]
  · intro entry hentry
    obtain rfl | hentry := mem_cons.1 hentry
    · rw [Function.update_self, horigin]
    · exact hself.origin entry hentry
  · intro entry hentry
    obtain rfl | hentry := mem_cons.1 hentry
    · rw [Function.update_self]
      exact hholds
    · exact hself.holds entry hentry
  · refine pairwise_cons.2 ⟨?_, hself.apart⟩
    intro entry hentry
    rw [Function.update_self, hrect entry hentry]
    exact hapart entry hentry
  · intro entry hentry hformat hlength
    rw [written_append]
    obtain rfl | hentry := mem_cons.1 hentry
    · -- the region is written as a whole
      rw [Function.update_self] at hlength ⊢
      have hwrite := hgpu.read_write _ (written texture pending) _
        (swizzleUploadData bytes texture.format) (hholds.region_inside horigin)
      rw [h.format, hformat] at hwrite
      exact hwrite ((length_swizzleUploadData bytes _).trans hlength)
    · -- the region is apart from the one that is written
      have hregion := (hapart entry hentry).region hholds (h.holds entry hentry) horigin
        (h.origin entry hentry)
      exact (hgpu.read_write_apart hregion).trans (hself.contains entry hentry hformat hlength)

/-- A key is removed: its allocation goes back, and the count does not go below zero. -/
theorem remove [DecidableEq Key] (h : TextureSound Live rect built texture entries pending)
    (hlawful : LawfulAllocator Live) (hnodup : (entries.map Prod.fst).Nodup)
    (hmem : (key, tile) ∈ entries) :
    ∃ allocator, AtlasAllocator.deallocate texture.allocator tile.tileId = some allocator ∧
      texture.liveAtlasKeys ≠ 0 ∧
      TextureSound Live rect built
        { texture with allocator, liveAtlasKeys := texture.liveAtlasKeys - 1 }
        (entries.filter (·.1 ≠ key)) pending := by
  have hperm := perm_filter_ne hnodup hmem
  have hlength := hperm.length_eq
  have hledger : ledger rect entries =
      ⟨tile.tileId, rect key⟩ ::ₘ ledger rect (entries.filter (·.1 ≠ key)) := by
    unfold ledger
    rw [Multiset.cons_coe, Multiset.coe_eq_coe]
    exact hperm.map _
  have hlive := h.live
  rw [hledger] at hlive
  obtain ⟨allocator, hdeallocate, hlive'⟩ := hlawful.deallocates hlive
  refine ⟨allocator, hdeallocate, ?_, h.format, hlive', ?_, ?_, ?_, ?_, ?_⟩
  · rw [h.keys, hlength]
    exact Nat.succ_ne_zero _
  · show texture.liveAtlasKeys - 1 = _
    rw [h.keys, hlength]
    rfl
  · exact fun entry hentry => h.origin entry (mem_of_mem_filter hentry)
  · exact fun entry hentry => h.holds entry (mem_of_mem_filter hentry)
  · exact h.apart.filter _
  · exact fun entry hentry => h.contains entry (mem_of_mem_filter hentry)

end TextureSound

end Texture

/-! ### The steps of the storage -/

section Storage

variable {Key Allocator AllocId Content : Type} [AtlasAllocator Allocator AllocId]
  {textures : List (Option (WgpuAtlasTexture Allocator Content))}

/-- A slot whose texture, if there is one, had no room. -/
inductive Tried (size : Size Int) : Option (WgpuAtlasTexture Allocator Content) →
    Option (WgpuAtlasTexture Allocator Content) → Prop where
  | empty : Tried size none none
  | full {texture texture' : WgpuAtlasTexture Allocator Content} :
      texture.allocate size = (texture', none) → Tried size (some texture) (some texture')

/-- Either no texture had room, or one had and those after it had none. -/
theorem findAllocate_cases (size : Size Int)
    (textures : List (Option (WgpuAtlasTexture Allocator Content))) :
    (∃ textures', findAllocate size textures = (textures', none) ∧
      List.Forall₂ (Tried size) textures textures') ∨
    (∃ before texture texture' rest rest' tile,
      textures = before ++ some texture :: rest ∧
      texture.allocate size = (texture', some tile) ∧ List.Forall₂ (Tried size) rest rest' ∧
      findAllocate size textures = (before ++ some texture' :: rest', some tile)) := by
  induction textures with
  | nil => exact .inl ⟨[], rfl, .nil⟩
  | cons slot rest ih =>
    obtain ⟨rest', hrest, htried⟩ | ⟨before, texture, texture', after, after', tile, rfl,
      hallocate, htried, hrest⟩ := ih
    · cases slot with
      | none =>
        left
        refine ⟨none :: rest', ?_, .cons .empty htried⟩
        rw [findAllocate, hrest]
      | some texture =>
        obtain ⟨texture', tile, hallocate⟩ : ∃ texture' tile,
            texture.allocate size = (texture', tile) := ⟨_, _, rfl⟩
        have hfind : findAllocate size (some texture :: rest) = (some texture' :: rest', tile) := by
          rw [findAllocate, hrest]
          simp only [hallocate]
        cases tile with
        | none => exact .inl ⟨_, hfind, .cons (.full hallocate) htried⟩
        | some tile => exact .inr ⟨[], texture, texture', rest, rest', tile, rfl, hallocate, htried, hfind⟩
    · right
      refine ⟨slot :: before, texture, texture', after, after', tile, rfl, hallocate, htried, ?_⟩
      rw [findAllocate, hrest]
      rfl

variable {size : Size Int} {textures' : List (Option (WgpuAtlasTexture Allocator Content))}

theorem Tried.getElem? (h : List.Forall₂ (Tried size) textures textures') (i : Nat) :
    (textures[i]? = none ∧ textures'[i]? = none) ∨
      ∃ slot slot', textures[i]? = some slot ∧ textures'[i]? = some slot' ∧
        Tried size slot slot' := by
  induction h generalizing i with
  | nil => exact .inl ⟨rfl, rfl⟩
  | @cons slot slot' rest rest' hslot hrest ih =>
    cases i with
    | zero => exact .inr ⟨slot, slot', rfl, rfl, hslot⟩
    | succ i => exact ih i

/-- What an allocation leaves in a slot: the texture, or one that had no room. -/
def Left (size : Size Int) (texture texture' : WgpuAtlasTexture Allocator Content) : Prop :=
  texture' = texture ∨ texture.allocate size = (texture', none)

/-- The slots of a list, whose textures were left. -/
structure ListLeft (size : Size Int)
    (textures textures' : List (Option (WgpuAtlasTexture Allocator Content))) : Prop where
  empty_iff : ∀ i : Nat, textures'[i]? = some none ↔ textures[i]? = some none
  texture : ∀ (i : Nat) texture', textures'[i]? = some (some texture') →
    ∃ texture, textures[i]? = some (some texture) ∧ Left size texture texture'
  kept : ∀ (i : Nat) texture, textures[i]? = some (some texture) →
    ∃ texture', textures'[i]? = some (some texture')

theorem Tried.listLeft (h : List.Forall₂ (Tried size) textures textures') :
    ListLeft size textures textures' := by
  refine ⟨?_, ?_, ?_⟩
  · intro i
    obtain ⟨hnone, hnone'⟩ | ⟨slot, slot', hslot, hslot', htried⟩ := Tried.getElem? h i
    · rw [hnone, hnone']
    · rw [hslot, hslot']
      cases htried with
      | empty => exact Iff.rfl
      | full => simp
  · intro i texture' htexture'
    obtain ⟨_, hnone'⟩ | ⟨slot, slot', hslot, hslot', htried⟩ := Tried.getElem? h i
    · rw [htexture'] at hnone'
      cases hnone'
    · rw [htexture'] at hslot'
      cases hslot'
      cases htried with
      | full hallocate => exact ⟨_, hslot, .inr hallocate⟩
  · intro i texture htexture
    obtain ⟨hnone, _⟩ | ⟨slot, slot', hslot, hslot', htried⟩ := Tried.getElem? h i
    · rw [htexture] at hnone
      cases hnone
    · rw [htexture] at hslot
      cases hslot
      cases htried with
      | full => exact ⟨_, hslot'⟩

theorem ListLeft.append {rest rest' : List (Option (WgpuAtlasTexture Allocator Content))}
    (h : ListLeft size rest rest') (before : List (Option (WgpuAtlasTexture Allocator Content))) :
    ListLeft size (before ++ rest) (before ++ rest') := by
  refine ⟨?_, ?_, ?_⟩
  · intro i
    by_cases hlt : i < before.length
    · rw [getElem?_append_left hlt, getElem?_append_left hlt]
    · rw [getElem?_append_right (Nat.not_lt.1 hlt),
        getElem?_append_right (Nat.not_lt.1 hlt)]
      exact h.empty_iff _
  · intro i texture' htexture'
    by_cases hlt : i < before.length
    · rw [getElem?_append_left hlt] at htexture' ⊢
      exact ⟨texture', htexture', .inl rfl⟩
    · rw [getElem?_append_right (Nat.not_lt.1 hlt)] at htexture' ⊢
      exact h.texture _ _ htexture'
  · intro i texture htexture
    by_cases hlt : i < before.length
    · rw [getElem?_append_left hlt] at htexture ⊢
      exact ⟨texture, htexture⟩
    · rw [getElem?_append_right (Nat.not_lt.1 hlt)] at htexture ⊢
      exact h.kept _ _ htexture

variable [Gpu Content]

namespace WgpuAtlasState

variable {state mid : WgpuAtlasState Key Allocator AllocId Content}

/-- The texture of a slot, or the one that is pushed into a slot without one. -/
def Base (state : WgpuAtlasState Key Allocator AllocId Content) (size : Size Int)
    (id : AtlasTextureId) (texture : WgpuAtlasTexture Allocator Content) : Prop :=
  state.storage.get id = some texture ∨
    (state.storage.get id = none ∧ texture = state.newTexture size id)

/-- The state in which the texture that is to be used is there. -/
structure Mid (size : Size Int) (state mid : WgpuAtlasState Key Allocator AllocId Content) :
    Prop where
  tilesByKey : mid.tilesByKey = state.tilesByKey
  pendingUploads : mid.pendingUploads = state.pendingUploads
  free : ∀ kind, (mid.storage.index kind).Free
  texture : ∀ id texture', mid.storage.get id = some texture' →
    ∃ texture, state.Base size id texture ∧ Left size texture texture'
  kept : ∀ id texture, state.storage.get id = some texture →
    ∃ texture', mid.storage.get id = some texture'

variable {size : Size Int} {kind : AtlasTextureKind}

/-- The textures of one kind are left. -/
theorem mid_of_left (hfree : ∀ kind, (state.storage.index kind).Free)
    (hleft : ListLeft size (state.storage.index kind).textures textures) :
    Mid size state { state with
      storage := state.storage.setIndex kind { state.storage.index kind with textures } } where
  tilesByKey := rfl
  pendingUploads := rfl
  free := by
    intro kind'
    show ((state.storage.setIndex kind _).index kind').Free
    by_cases hkind : kind' = kind
    · subst hkind
      rw [WgpuAtlasStorage.index_setIndex_self]
      exact (hfree kind').same rfl hleft.empty_iff
    · rw [WgpuAtlasStorage.index_setIndex_ne _ hkind]
      exact hfree kind'
  texture := by
    intro id texture' htexture'
    rw [WgpuAtlasStorage.get_eq_some] at htexture'
    by_cases hkind : id.kind = kind
    · subst hkind
      rw [WgpuAtlasStorage.index_setIndex_self] at htexture'
      obtain ⟨texture, htexture, hleft'⟩ := hleft.texture _ _ htexture'
      exact ⟨texture, .inl (WgpuAtlasStorage.get_eq_some.2 htexture), hleft'⟩
    · rw [WgpuAtlasStorage.index_setIndex_ne _ hkind] at htexture'
      exact ⟨texture', .inl (WgpuAtlasStorage.get_eq_some.2 htexture'), .inl rfl⟩
  kept := by
    intro id texture htexture
    rw [WgpuAtlasStorage.get_eq_some] at htexture
    by_cases hkind : id.kind = kind
    · subst hkind
      obtain ⟨texture', htexture'⟩ := hleft.kept _ _ htexture
      refine ⟨texture', WgpuAtlasStorage.get_eq_some.2 ?_⟩
      rw [WgpuAtlasStorage.index_setIndex_self]
      exact htexture'
    · refine ⟨texture, ?_⟩
      rw [WgpuAtlasStorage.get_setIndex_ne _ hkind, WgpuAtlasStorage.get_eq_some]
      exact htexture

/-- The slots of a kind, where one gets a texture that was not there. -/
structure Pushed (size : Size Int) (kind : AtlasTextureKind) (ix : Nat)
    (state mid : WgpuAtlasState Key Allocator AllocId Content) : Prop where
  tilesByKey : mid.tilesByKey = state.tilesByKey
  pendingUploads : mid.pendingUploads = state.pendingUploads
  free : ∀ kind, (mid.storage.index kind).Free
  before : state.storage.get ⟨ix, kind⟩ = none
  after : mid.storage.get ⟨ix, kind⟩ = some (state.newTexture size ⟨ix, kind⟩)
  others : ∀ id, id ≠ ⟨ix, kind⟩ → mid.storage.get id = state.storage.get id

theorem pushed_of_list {ix : Nat} (hfree : ∀ kind, (state.storage.index kind).Free)
    {list : AtlasTextureList (WgpuAtlasTexture Allocator Content)} (hlist : list.Free)
    (hbefore : (state.storage.index kind).textures[ix]?.join = none)
    (hafter : list.textures[ix]? = some (some (state.newTexture size ⟨ix, kind⟩)))
    (hothers : ∀ i : Nat, i ≠ ix → list.textures[i]? = (state.storage.index kind).textures[i]?) :
    Pushed size kind ix state { state with storage := state.storage.setIndex kind list } where
  tilesByKey := rfl
  pendingUploads := rfl
  free := by
    intro kind'
    by_cases hkind : kind' = kind
    · subst hkind
      rw [WgpuAtlasStorage.index_setIndex_self]
      exact hlist
    · rw [WgpuAtlasStorage.index_setIndex_ne _ hkind]
      exact hfree kind'
  before := hbefore
  after := by
    rw [WgpuAtlasStorage.get_setIndex_self, hafter]
    rfl
  others := by
    intro id hid
    by_cases hkind : id.kind = kind
    · subst hkind
      have hindex : id.index ≠ ix := by
        rintro rfl
        exact hid rfl
      unfold WgpuAtlasStorage.get
      rw [WgpuAtlasStorage.index_setIndex_self, hothers _ hindex]
    · exact WgpuAtlasStorage.get_setIndex_ne _ hkind _

/-- A texture is pushed into the slot that was emptied last, or behind the others. -/
theorem pushTexture_cases (hfree : ∀ kind, (state.storage.index kind).Free) (size : Size Int)
    (kind : AtlasTextureKind) :
    ∃ mid ix, state.pushTexture size kind = .ok (mid, ix) ∧ Pushed size kind ix state mid := by
  have hlist := hfree kind
  unfold pushTexture
  dsimp only
  split
  · rename_i ix hlast
    obtain ⟨rest, hrest⟩ := getLast?_eq_some_iff.1 hlast
    have hmem : ix ∈ (state.storage.index kind).freeList := mem_of_getLast? hlast
    have hempty := (hlist.mem_iff ix).1 hmem
    obtain ⟨hlt, _⟩ := List.getElem?_eq_some_iff.1 hempty
    have hnodup := hlist.nodup
    rw [hrest] at hnodup
    rw [if_pos hlt]
    refine ⟨_, ix, rfl, pushed_of_list hfree ⟨?_, ?_⟩ ?_ ?_ ?_⟩
    · rw [hrest, dropLast_concat]
      exact (nodup_append.1 hnodup).1
    · intro i
      rw [hrest, dropLast_concat]
      have hiff := hlist.mem_iff i
      rw [hrest, mem_append, mem_singleton] at hiff
      by_cases hi : i = ix
      · subst hi
        rw [getElem?_set_self hlt]
        refine iff_of_false ?_ (by simp)
        intro hin
        exact (nodup_append.1 hnodup).2.2 _ hin _ (mem_singleton.2 rfl) rfl
      · rw [getElem?_set_ne (Ne.symm hi), ← hiff, or_iff_left hi]
    · rw [hempty]
      rfl
    · exact getElem?_set_self hlt
    · exact fun i hi => getElem?_set_ne (Ne.symm hi)
  · rename_i hlast
    refine ⟨_, _, rfl, pushed_of_list hfree ⟨hlist.nodup, ?_⟩ ?_ ?_ ?_⟩
    · intro i
      rw [hlist.mem_iff]
      by_cases hi : i < (state.storage.index kind).textures.length
      · rw [getElem?_append_left hi]
      · rw [getElem?_append_right (Nat.not_lt.1 hi), getElem?_eq_none (Nat.not_lt.1 hi)]
        refine iff_of_false nofun ?_
        intro h
        obtain ⟨_, h⟩ := List.getElem?_eq_some_iff.1 h
        simp at h
    · rw [getElem?_eq_none (Nat.le_refl _)]
      rfl
    · exact getElem?_concat_length
    · intro i hi
      by_cases hlt : i < (state.storage.index kind).textures.length
      · exact getElem?_append_left hlt
      · rw [getElem?_eq_none (by simp; omega), getElem?_eq_none (Nat.not_lt.1 hlt)]

/-- Where a tile is looked for: in a texture of the kind that is there, or in one that is
    pushed when no other one has room. -/
theorem allocate_cases (hfree : ∀ kind, (state.storage.index kind).Free) (size : Size Int)
    (kind : AtlasTextureKind) :
    ∃ mid id texture texture' tile, Mid size state mid ∧ id.kind = kind ∧
      mid.storage.get id = some texture ∧ texture.allocate size = (texture', tile) ∧
      state.allocate size kind =
        .ok ({ mid with storage := mid.storage.setSlot id (some texture') }, tile) := by
  obtain ⟨textures, hfind, htried⟩ | ⟨before, texture, texture', rest, rest', tile, hsplit,
    hallocate, htried, hfind⟩ := findAllocate_cases size (state.storage.index kind).textures
  · have hleft := mid_of_left hfree (Tried.listLeft htried)
    obtain ⟨mid, ix, hpush, hpushed⟩ := pushTexture_cases hleft.free size kind
    obtain ⟨texture, hnew⟩ : ∃ texture, texture = state.newTexture size ⟨ix, kind⟩ := ⟨_, rfl⟩
    have hafter : mid.storage.get ⟨ix, kind⟩ = some texture :=
      hpushed.after.trans (congrArg some hnew.symm)
    obtain ⟨texture', tile, hallocate⟩ : ∃ texture' tile,
        texture.allocate size = (texture', tile) := ⟨_, _, rfl⟩
    refine ⟨mid, ⟨ix, kind⟩, texture, texture', tile, ⟨hpushed.tilesByKey, hpushed.pendingUploads,
      hpushed.free, ?_, ?_⟩, rfl, hafter, hallocate, ?_⟩
    · intro id other hid
      by_cases hself : id = ⟨ix, kind⟩
      · subst hself
        rw [hafter] at hid
        obtain rfl := Option.some.inj hid
        refine ⟨texture, .inr ⟨?_, hnew⟩, .inl rfl⟩
        by_contra hsome
        obtain ⟨texture, htexture⟩ := Option.ne_none_iff_exists'.1 hsome
        obtain ⟨texture', htexture'⟩ := hleft.kept _ _ htexture
        rw [hpushed.before] at htexture'
        cases htexture'
      · rw [hpushed.others id hself] at hid
        exact hleft.texture id other hid
    · intro id other hid
      obtain ⟨other', hid'⟩ := hleft.kept id other hid
      have hself : id ≠ ⟨ix, kind⟩ := by
        rintro rfl
        rw [hpushed.before] at hid'
        cases hid'
      exact ⟨other', (hpushed.others id hself).trans hid'⟩
    · unfold WgpuAtlasState.allocate
      simp only [hfind, hpush, ok_bind, hafter, hallocate]
  · have hleft : ListLeft size (state.storage.index kind).textures
        (before ++ some texture :: rest') := by
      rw [hsplit]
      have hrest := (Tried.listLeft htried).append (before ++ [some texture])
      rw [append_assoc, append_assoc] at hrest
      exact hrest
    refine ⟨_, ⟨before.length, kind⟩, texture, texture', some tile, mid_of_left hfree hleft, rfl,
      ?_, hallocate, ?_⟩
    · dsimp only
      rw [WgpuAtlasStorage.get_setIndex_self, getElem?_append_right (Nat.le_refl _),
        Nat.sub_self]
      rfl
    · unfold WgpuAtlasState.allocate WgpuAtlasStorage.setSlot
      simp only [hfind, WgpuAtlasStorage.index_setIndex_self, WgpuAtlasStorage.setIndex_setIndex]
      rw [set_append_right _ _ (Nat.le_refl _), Nat.sub_self]
      rfl

end WgpuAtlasState

end Storage

end Atlas

end Gpui
