import Gpui.Atlas.WgpuAtlasSpec

/-! # The sprite atlas over runs

    Every operation keeps the books: of each texture with the keys whose tiles lie in it and
    the uploads that wait for it, and of the slots. -/

open Exec

namespace Gpui

open List

namespace Atlas

variable {Key Allocator AllocId Content : Type}

/-- The keys whose tiles lie in a texture. -/
def entriesOf (tiles : List (Key × AtlasTile AllocId)) (id : AtlasTextureId) :
    List (Key × AtlasTile AllocId) :=
  tiles.filter (·.2.textureId = id)

/-- The uploads that wait for a texture. -/
def uploadsOf (pending : List PendingUpload) (id : AtlasTextureId) : List PendingUpload :=
  pending.filter (·.id = id)

variable {id : AtlasTextureId}

theorem mem_entriesOf {tiles : List (Key × AtlasTile AllocId)} {entry : Key × AtlasTile AllocId} :
    entry ∈ entriesOf tiles id ↔ entry ∈ tiles ∧ entry.2.textureId = id := by
  unfold entriesOf
  rw [mem_filter, decide_eq_true_eq]

namespace WgpuAtlasStorage

variable {self : WgpuAtlasStorage Allocator Content}
  {texture : WgpuAtlasTexture Allocator Content}

/-- A texture takes the place of another one. -/
theorem free_setSlot (hfree : ∀ kind, (self.index kind).Free) (hid : self.get id = some texture)
    (texture' : WgpuAtlasTexture Allocator Content) (kind : AtlasTextureKind) :
    ((self.setSlot id (some texture')).index kind).Free := by
  unfold setSlot
  by_cases hkind : kind = id.kind
  · subst hkind
    rw [index_setIndex_self]
    refine (hfree id.kind).same rfl ?_
    intro i
    have hslot := get_eq_some.1 hid
    obtain ⟨hlt, _⟩ := List.getElem?_eq_some_iff.1 hslot
    by_cases hi : id.index = i
    · subst hi
      rw [getElem?_set_self hlt, hslot]
      simp
    · rw [getElem?_set_ne hi]
  · rw [index_setIndex_ne _ hkind]
    exact hfree kind

/-- Only the textures of a list are looked at. -/
theorem get_setIndex_of_textures {kind : AtlasTextureKind}
    {list : AtlasTextureList (WgpuAtlasTexture Allocator Content)}
    (h : list.textures = (self.index kind).textures) (id : AtlasTextureId) :
    (self.setIndex kind list).get id = self.get id := by
  by_cases hkind : id.kind = kind
  · subst hkind
    unfold WgpuAtlasStorage.get
    rw [index_setIndex_self, h]
  · exact get_setIndex_ne self hkind list

/-- A slot is emptied, and its index goes to the free list. -/
theorem free_release (hfree : ∀ kind, (self.index kind).Free) (hid : self.get id = some texture)
    (kind : AtlasTextureKind) :
    (((self.setSlot id none).setIndex id.kind
      { (self.setSlot id none).index id.kind with
        freeList := ((self.setSlot id none).index id.kind).freeList ++ [id.index] }).index
          kind).Free := by
  unfold setSlot
  by_cases hkind : kind = id.kind
  · subst hkind
    rw [index_setIndex_self, index_setIndex_self]
    have hlist := hfree id.kind
    have hslot := get_eq_some.1 hid
    obtain ⟨hlt, _⟩ := List.getElem?_eq_some_iff.1 hslot
    have hnot : id.index ∉ (self.index id.kind).freeList := by
      rw [hlist.mem_iff, hslot]
      simp
    refine ⟨?_, ?_⟩
    · refine nodup_append.2 ⟨hlist.nodup, nodup_singleton _, ?_⟩
      intro i hi j hj
      rw [mem_singleton.1 hj]
      rintro rfl
      exact hnot hi
    · intro i
      rw [mem_append, mem_singleton, hlist.mem_iff]
      by_cases hi : id.index = i
      · subst hi
        rw [getElem?_set_self hlt]
        exact iff_of_true (.inr rfl) rfl
      · rw [getElem?_set_ne hi, or_iff_left (Ne.symm hi)]
  · rw [index_setIndex_ne _ hkind, index_setIndex_ne _ hkind]
    exact hfree kind

variable [Gpu Content]

/-- An upload is written into its texture. -/
theorem get_flushUpload (upload : PendingUpload) (id : AtlasTextureId) :
    (WgpuAtlasState.flushUpload self upload).get id =
      if upload.id = id then (self.get id).map (WgpuAtlasState.writeUpload · upload)
      else self.get id := by
  unfold WgpuAtlasState.flushUpload
  by_cases heq : upload.id = id
  · subst heq
    rw [if_pos rfl]
    cases hupload : self.get upload.id with
    | none => exact hupload
    | some texture => exact get_setSlot_self hupload _
  · rw [if_neg heq]
    cases self.get upload.id with
    | none => rfl
    | some texture => exact get_setSlot_ne (Ne.symm heq) _

/-- Each texture gets its uploads, in order. -/
theorem get_flushUploads (self : WgpuAtlasStorage Allocator Content) (pending : List PendingUpload)
    (id : AtlasTextureId) :
    (pending.foldl WgpuAtlasState.flushUpload self).get id = (self.get id).map
      ((uploadsOf pending id).foldl WgpuAtlasState.writeUpload) := by
  induction pending generalizing self with
  | nil =>
    show self.get id = _
    cases self.get id with
    | none => rfl
    | some texture => rfl
  | cons upload pending ih =>
    rw [foldl_cons, ih, get_flushUpload]
    unfold uploadsOf
    by_cases heq : upload.id = id
    · rw [if_pos heq, filter_cons_of_pos (by simpa using heq), Option.map_map]
      rfl
    · rw [if_neg heq, filter_cons_of_neg (by simpa using heq)]

theorem free_flushUploads (hfree : ∀ kind, (self.index kind).Free) (pending : List PendingUpload) :
    ∀ kind, ((pending.foldl WgpuAtlasState.flushUpload self).index kind).Free := by
  induction pending generalizing self with
  | nil => exact hfree
  | cons upload pending ih =>
    apply ih
    unfold WgpuAtlasState.flushUpload
    cases hupload : self.get upload.id with
    | none => exact hfree
    | some texture => exact free_setSlot hfree hupload _

end WgpuAtlasStorage

/-! ### The books -/

section Books

variable [Gpu Content]

/-- What holds of the state of an atlas, with the rectangles of its keys. -/
structure Sound (Live : Size Int → Allocator → Multiset (Allocation AllocId) → Prop)
    (textureKind : Key → AtlasTextureKind) (rect : Key → Rectangle) (built : Key → List UInt8)
    (state : WgpuAtlasState Key Allocator AllocId Content) : Prop where
  nodup : (state.tilesByKey.map Prod.fst).Nodup
  free : ∀ kind, (state.storage.index kind).Free
  texture : ∀ id texture, state.storage.get id = some texture → texture.id = id ∧
    TextureSound Live rect built texture (entriesOf state.tilesByKey id)
      (uploadsOf state.pendingUploads id)
  tile : ∀ entry ∈ state.tilesByKey, entry.2.textureId.kind = textureKind entry.1 ∧
    ∃ texture, state.storage.get entry.2.textureId = some texture

namespace Sound

variable {Live : Size Int → Allocator → Multiset (Allocation AllocId) → Prop}
variable {textureKind : Key → AtlasTextureKind}
variable {rect : Key → Rectangle} {built : Key → List UInt8}
variable {state : WgpuAtlasState Key Allocator AllocId Content}

theorem empty {maxTextureSize : Nat} {colorTextureFormat : TextureFormat} :
    Sound Live textureKind rect built
      (⟨maxTextureSize, colorTextureFormat, .default, [], []⟩ :
        WgpuAtlasState Key Allocator AllocId Content) where
  nodup := nodup_nil
  free := by
    intro kind
    cases kind with
    | _ => exact ⟨nodup_nil, fun i => iff_of_false not_mem_nil nofun⟩
  texture := by
    intro id texture hid
    rw [WgpuAtlasStorage.get_eq_some] at hid
    cases hkind : id.kind with
    | _ =>
      rw [hkind] at hid
      cases hid
  tile := fun _ hentry => absurd hentry not_mem_nil

variable [AtlasAllocator Allocator AllocId]

/-- No side of a new texture is negative. -/
theorem size_newTexture (size : Size Int) (id : AtlasTextureId) :
    (state.newTexture size id).size = state.textureSize size := by
  have hwidth : 0 ≤ (state.textureSize size).width := by
    unfold WgpuAtlasState.textureSize Size.max
    dsimp only
    split
    · omega
    · decide
  have hheight : 0 ≤ (state.textureSize size).height := by
    unfold WgpuAtlasState.textureSize Size.max
    dsimp only
    split
    · omega
    · decide
  unfold WgpuAtlasTexture.size WgpuAtlasState.newTexture
  rw [Int.toNat_of_nonneg hwidth, Int.toNat_of_nonneg hheight]

section

variable (h : Sound Live textureKind rect built state)
include h

/-- The texture of a slot, or the one that is pushed where there is none. -/
theorem base (hlawful : LawfulAllocator Live) {size : Size Int}
    {texture : WgpuAtlasTexture Allocator Content} (hbase : state.Base size id texture) :
    texture.id = id ∧
      TextureSound Live rect built texture (entriesOf state.tilesByKey id)
        (uploadsOf state.pendingUploads id) := by
  obtain hid | ⟨hnone, rfl⟩ := hbase
  · exact h.texture id texture hid
  · refine ⟨rfl, ?_⟩
    have hentries : entriesOf state.tilesByKey id = [] := by
      rw [eq_nil_iff_forall_not_mem]
      intro entry hentry
      obtain ⟨htile, rfl⟩ := mem_entriesOf.1 hentry
      obtain ⟨_, texture, htexture⟩ := h.tile entry htile
      rw [hnone] at htexture
      cases htexture
    rw [hentries]
    refine ⟨rfl, ?_, rfl, nofun, nofun, .nil, nofun⟩
    rw [size_newTexture]
    exact hlawful.new (state.textureSize size)

/-- The textures that were left by an allocation. -/
theorem mid (hlawful : LawfulAllocator Live) {size : Size Int}
    {mid : WgpuAtlasState Key Allocator AllocId Content}
    (hmid : WgpuAtlasState.Mid size state mid) : Sound Live textureKind rect built mid where
  nodup := by
    rw [hmid.tilesByKey]
    exact h.nodup
  free := hmid.free
  texture := by
    intro id texture' htexture'
    obtain ⟨texture, hbase, hleft⟩ := hmid.texture id texture' htexture'
    obtain ⟨hid, hsound⟩ := h.base hlawful hbase
    rw [hmid.tilesByKey, hmid.pendingUploads]
    obtain rfl | htried := hleft
    · exact ⟨hid, hsound⟩
    · refine ⟨?_, hsound.tried hlawful htried⟩
      obtain ⟨allocator, _, rfl⟩ := WgpuAtlasTexture.allocate_none htried
      exact hid
  tile := by
    intro entry hentry
    rw [hmid.tilesByKey] at hentry
    obtain ⟨hkind, texture, htexture⟩ := h.tile entry hentry
    exact ⟨hkind, hmid.kept _ _ htexture⟩

omit [AtlasAllocator Allocator AllocId] in
/-- A texture takes the place of another one, with its keys and its uploads; the other
    textures keep theirs. -/
theorem replace {state' : WgpuAtlasState Key Allocator AllocId Content} {rect' : Key → Rectangle}
    {built' : Key → List UInt8} {texture texture' : WgpuAtlasTexture Allocator Content}
    (hid : state.storage.get id = some texture)
    (hstorage : state'.storage = state.storage.setSlot id (some texture'))
    (hself : texture'.id = id ∧ TextureSound Live rect' built' texture'
      (entriesOf state'.tilesByKey id) (uploadsOf state'.pendingUploads id))
    (hentries : ∀ other, other ≠ id →
      entriesOf state'.tilesByKey other = entriesOf state.tilesByKey other)
    (huploads : ∀ other, other ≠ id →
      uploadsOf state'.pendingUploads other = uploadsOf state.pendingUploads other)
    (hrect : ∀ entry ∈ state.tilesByKey, entry.2.textureId ≠ id → rect' entry.1 = rect entry.1)
    (hbuilt : ∀ entry ∈ state.tilesByKey, entry.2.textureId ≠ id → built' entry.1 = built entry.1)
    (hnodup : (state'.tilesByKey.map Prod.fst).Nodup)
    (htile : ∀ entry ∈ state'.tilesByKey, entry.2.textureId.kind = textureKind entry.1 ∧
      ∃ texture, state.storage.get entry.2.textureId = some texture) :
    Sound Live textureKind rect' built' state' where
  nodup := hnodup
  free := by
    intro kind
    rw [hstorage]
    exact WgpuAtlasStorage.free_setSlot h.free hid texture' kind
  texture := by
    intro other slot hslot
    rw [hstorage] at hslot
    by_cases hother : other = id
    · subst hother
      rw [WgpuAtlasStorage.get_setSlot_self hid] at hslot
      obtain rfl := Option.some.inj hslot
      exact hself
    · rw [WgpuAtlasStorage.get_setSlot_ne hother] at hslot
      obtain ⟨hslotId, hsound⟩ := h.texture other slot hslot
      rw [hentries other hother, huploads other hother]
      refine ⟨hslotId, hsound.congr ?_ ?_⟩
      · intro entry hentry
        obtain ⟨hmem, heq⟩ := mem_entriesOf.1 hentry
        exact hrect entry hmem (heq ▸ hother)
      · intro entry hentry
        obtain ⟨hmem, heq⟩ := mem_entriesOf.1 hentry
        exact hbuilt entry hmem (heq ▸ hother)
  tile := by
    intro entry hentry
    obtain ⟨hkind, slot, hslot⟩ := htile entry hentry
    refine ⟨hkind, ?_⟩
    rw [hstorage]
    by_cases hother : entry.2.textureId = id
    · rw [hother]
      exact ⟨texture', WgpuAtlasStorage.get_setSlot_self hid _⟩
    · exact ⟨slot, (WgpuAtlasStorage.get_setSlot_ne hother _).trans hslot⟩

end

variable [DecidableEq Key] {key : Key}

section

omit [Gpu Content] [AtlasAllocator Allocator AllocId]

theorem getTile_eq_none : state.getTile key = none ↔ ∀ entry ∈ state.tilesByKey, entry.1 ≠ key := by
  unfold WgpuAtlasState.getTile
  rw [Option.map_eq_none_iff, find?_eq_none]
  simp only [decide_eq_true_eq]

theorem mem_of_getTile {tile : AtlasTile AllocId} (h : state.getTile key = some tile) :
    (key, tile) ∈ state.tilesByKey := by
  unfold WgpuAtlasState.getTile at h
  obtain ⟨⟨key', tile'⟩, hfind, rfl⟩ := Option.map_eq_some_iff.1 h
  have hkey := find?_some hfind
  rw [decide_eq_true_eq] at hkey
  obtain rfl := hkey
  exact mem_of_find?_eq_some hfind

end

section

variable (h : Sound Live textureKind rect built state)
include h

/-- A key is inserted, or there is no room for it. -/
theorem insertWith (hlawful : LawfulAllocator Live) (hgpu : LawfulGpu Content)
    (hkey : state.getTile key = none) (size : Size Int) (bytes : List UInt8) :
    ∃ self r rect', WgpuAtlas.insertWith ⟨state, built⟩ (textureKind key) key size bytes =
      .ok (self, r) ∧ Sound Live textureKind rect' self.built self.state := by
  rw [getTile_eq_none] at hkey
  obtain ⟨mid, id, texture, texture', tile, hmid, hkind, hid, htried, hallocate⟩ :=
    WgpuAtlasState.allocate_cases h.free size (textureKind key)
  have hsound := h.mid hlawful hmid
  obtain ⟨htextureId, htexture⟩ := hsound.texture id texture hid
  unfold WgpuAtlas.insertWith
  simp only [hallocate, ok_bind]
  cases tile with
  | none =>
    refine ⟨_, _, rect, rfl, ?_⟩
    obtain ⟨allocator, _, htexture'⟩ := WgpuAtlasTexture.allocate_none htried
    have hid' : texture'.id = id := by
      rw [htexture']
      exact htextureId
    exact hsound.replace hid rfl ⟨hid', htexture.tried hlawful htried⟩ (fun _ _ => rfl)
      (fun _ _ => rfl) (fun _ _ _ => rfl) (fun _ _ _ => rfl) hsound.nodup hsound.tile
  | some tile =>
    obtain ⟨allocator, allocation, _, htexture', htileId, _⟩ :=
      WgpuAtlasTexture.allocate_some htried
    have hid' : texture'.id = id := by
      rw [htexture']
      exact htextureId
    rw [htextureId] at htileId
    have hkeys : ∀ entry ∈ mid.tilesByKey, entry.1 ≠ key := by
      rw [hmid.tilesByKey]
      exact hkey
    have hfilter : mid.tilesByKey.filter (·.1 ≠ key) = mid.tilesByKey := by
      simpa using hkeys
    obtain ⟨rectangle, hinsert⟩ := htexture.insert hlawful hgpu htried
      (fun entry hentry => hkeys entry (mem_entriesOf.1 hentry).1) bytes
    refine ⟨_, _, Function.update rect key rectangle, rfl, ?_⟩
    have hupload : WgpuAtlasState.uploadTexture
        { mid with storage := mid.storage.setSlot id (some texture') } tile.textureId tile.bounds
          bytes = { mid with
            storage := mid.storage.setSlot id (some texture')
            pendingUploads := mid.pendingUploads ++
              [⟨tile.textureId, tile.bounds, swizzleUploadData bytes texture.format⟩] } := by
      unfold WgpuAtlasState.uploadTexture
      rw [htileId, WgpuAtlasStorage.get_setSlot_self hid]
      rw [htexture']
    rw [hupload]
    unfold WgpuAtlasState.insertTile
    rw [hfilter]
    refine hsound.replace hid rfl ⟨hid', ?_⟩ ?_ ?_ ?_ ?_ ?_ ?_
    · -- the entry and the upload are of this texture
      have hentries : entriesOf ((key, tile) :: mid.tilesByKey) id =
          (key, tile) :: entriesOf mid.tilesByKey id := filter_cons_of_pos (by simpa using htileId)
      have huploads : uploadsOf (mid.pendingUploads ++
            [⟨tile.textureId, tile.bounds, swizzleUploadData bytes texture.format⟩]) id =
          uploadsOf mid.pendingUploads id ++
            [⟨tile.textureId, tile.bounds, swizzleUploadData bytes texture.format⟩] := by
        unfold uploadsOf
        rw [filter_append, filter_cons_of_pos (by simpa using htileId)]
        rfl
      rw [hentries, huploads]
      exact hinsert
    · intro other hother
      exact filter_cons_of_neg (by simpa [htileId] using Ne.symm hother)
    · intro other hother
      unfold uploadsOf
      rw [filter_append, filter_cons_of_neg (by simpa [htileId] using Ne.symm hother)]
      exact append_nil _
    · exact fun entry hentry _ => Function.update_of_ne (hkeys entry hentry) _ _
    · exact fun entry hentry _ => Function.update_of_ne (hkeys entry hentry) _ _
    · rw [map_cons, nodup_cons]
      refine ⟨?_, hsound.nodup⟩
      intro hmem
      obtain ⟨entry, hentry, heq⟩ := mem_map.1 hmem
      exact hkeys entry hentry heq
    · intro entry hentry
      obtain rfl | hentry := mem_cons.1 hentry
      · rw [htileId]
        exact ⟨hkind, texture, hid⟩
      · exact hsound.tile entry hentry

/-- A key is removed, and with the last one its texture. -/
theorem remove (hlawful : LawfulAllocator Live) (key : Key) :
    ∃ self, WgpuAtlas.remove ⟨state, built⟩ key = .ok self ∧
      Sound Live textureKind rect self.built self.state := by
  unfold WgpuAtlas.remove
  split
  · exact ⟨_, rfl, h⟩
  · rename_i tile htile
    have hmem := mem_of_getTile htile
    obtain ⟨_, texture, hid⟩ := h.tile _ hmem
    obtain ⟨htextureId, htexture⟩ := h.texture _ texture hid
    have hnodup : ((entriesOf state.tilesByKey tile.textureId).map Prod.fst).Nodup :=
      h.nodup.sublist (filter_sublist.map _)
    obtain ⟨allocator, hdeallocate, hpos, hremoved⟩ :=
      htexture.remove hlawful hnodup (mem_entriesOf.2 ⟨hmem, rfl⟩)
    -- the map without the key
    have hfilter : ∀ id, entriesOf (state.tilesByKey.filter (·.1 ≠ key)) id =
        (entriesOf state.tilesByKey id).filter (·.1 ≠ key) := by
      intro id
      unfold entriesOf
      rw [filter_filter, filter_filter]
      exact filter_congr fun _ _ => Bool.and_comm _ _
    have hothers : ∀ id, id ≠ tile.textureId →
        entriesOf (state.tilesByKey.filter (·.1 ≠ key)) id = entriesOf state.tilesByKey id := by
      intro id hne
      rw [hfilter, filter_eq_self]
      intro entry hentry
      obtain ⟨hin, rfl⟩ := mem_entriesOf.1 hentry
      rw [decide_eq_true_eq]
      intro hkey
      have hsame : entry = (key, tile) := inj_on_of_nodup_map h.nodup hin hmem hkey
      rw [hsame] at hne
      exact hne rfl
    have hdecrement : WgpuAtlasTexture.decrementRefCount { texture with allocator } =
        .ok { texture with allocator, liveAtlasKeys := texture.liveAtlasKeys - 1 } := if_neg hpos
    have hnodup' : ((state.tilesByKey.filter (·.1 ≠ key)).map Prod.fst).Nodup :=
      h.nodup.sublist (filter_sublist.map _)
    simp only [WgpuAtlasState.removeTile, hid, WgpuAtlasState.release, hdeallocate, hdecrement,
      ok_bind]
    split
    · rename_i hunreferenced
      rw [WgpuAtlasTexture.isUnreferenced, beq_iff_eq] at hunreferenced
      -- no tile lies in the texture any more
      have hentries : entriesOf (state.tilesByKey.filter (·.1 ≠ key)) tile.textureId = [] := by
        rw [hfilter]
        exact length_eq_zero_iff.1 (hremoved.keys.symm.trans hunreferenced)
      refine ⟨_, rfl, hnodup', ?_, ?_, ?_⟩
      · intro kind
        rw [htextureId]
        exact WgpuAtlasStorage.free_release h.free hid kind
      · intro other slot hslot
        rw [WgpuAtlasStorage.get_setIndex_of_textures (by rfl)] at hslot
        have hother : other ≠ tile.textureId := by
          rintro rfl
          rw [WgpuAtlasStorage.get_setSlot_self hid] at hslot
          cases hslot
        rw [WgpuAtlasStorage.get_setSlot_ne hother] at hslot
        have huploads : uploadsOf (state.pendingUploads.filter (·.id ≠ texture.id)) other =
            uploadsOf state.pendingUploads other := by
          unfold uploadsOf
          rw [filter_filter, htextureId]
          refine filter_congr fun upload _ => ?_
          by_cases hupload : upload.id = other
          · simp [hupload, hother]
          · simp [hupload]
        rw [hothers other hother, huploads]
        exact h.texture other slot hslot
      · intro entry hentry
        obtain ⟨hkind, slot, hslot⟩ := h.tile entry (mem_of_mem_filter hentry)
        have hother : entry.2.textureId ≠ tile.textureId := by
          intro heq
          have hin := mem_entriesOf.2 ⟨hentry, heq⟩
          rw [hentries] at hin
          cases hin
        refine ⟨hkind, slot, ?_⟩
        rw [WgpuAtlasStorage.get_setIndex_of_textures (by rfl),
          WgpuAtlasStorage.get_setSlot_ne hother]
        exact hslot
    · refine ⟨_, rfl, h.replace hid rfl ⟨htextureId, ?_⟩ hothers (fun _ _ => rfl)
        (fun _ _ _ => rfl) (fun _ _ _ => rfl) hnodup' ?_⟩
      · dsimp only
        rw [hfilter]
        exact hremoved
      · exact fun entry hentry => h.tile entry (mem_of_mem_filter hentry)

omit [DecidableEq Key] [AtlasAllocator Allocator AllocId] in
/-- The uploads are written. -/
theorem flushUploads :
    Sound Live textureKind rect built state.flushUploads where
  nodup := h.nodup
  free := WgpuAtlasStorage.free_flushUploads h.free _
  texture := by
    intro id texture' hid
    replace hid := (WgpuAtlasStorage.get_flushUploads _ _ id).symm.trans hid
    obtain ⟨texture, htexture, rfl⟩ := Option.map_eq_some_iff.1 hid
    obtain ⟨htextureId, hsound⟩ := h.texture id texture htexture
    refine ⟨?_, hsound.flush⟩
    rw [foldl_writeUpload]
    exact htextureId
  tile := by
    intro entry hentry
    obtain ⟨hkind, texture, htexture⟩ := h.tile entry hentry
    have hget := WgpuAtlasStorage.get_flushUploads state.storage state.pendingUploads
      entry.2.textureId
    rw [htexture] at hget
    exact ⟨hkind, _, hget⟩

end

/-- Every operation returns, and keeps the books. -/
theorem step {self : WgpuAtlas Key Allocator AllocId Content}
    (h : Sound Live textureKind rect self.built self.state) (hlawful : LawfulAllocator Live)
    (hgpu : LawfulGpu Content) (action : WgpuAtlas.Action Key) :
    ∃ self' rect', self.step textureKind action = .ok self' ∧
      Sound Live textureKind rect' self'.built self'.state := by
  cases action with
  | getOrInsertWith key build =>
    unfold WgpuAtlas.step WgpuAtlas.getOrInsertWith
    dsimp only
    cases htile : self.state.getTile key with
    | some tile => exact ⟨self, rect, rfl, h⟩
    | none =>
      cases build with
      | error e => exact ⟨self, rect, rfl, h⟩
      | ok built =>
        cases built with
        | none => exact ⟨self, rect, rfl, h⟩
        | some built =>
          obtain ⟨size, bytes⟩ := built
          obtain ⟨self', r, rect', hinsert, hsound⟩ := h.insertWith hlawful hgpu htile size bytes
          refine ⟨self', rect', ?_, hsound⟩
          dsimp only
          rw [hinsert]
          rfl
  | remove key =>
    obtain ⟨self', hremove, hsound⟩ := h.remove hlawful key
    exact ⟨self', rect, hremove, hsound⟩
  | beforeFrame => exact ⟨_, rect, rfl, h.flushUploads⟩
  | clear => exact ⟨_, rect, rfl, .empty⟩

end Sound

/-! ### What is kept -/

/-- What holds of the books of an atlas. -/
structure Bookkept (textureKind : Key → AtlasTextureKind)
    (state : WgpuAtlasState Key Allocator AllocId Content) : Prop where
  /-- A tile lies in a texture that is there and of the kind of its key. -/
  tile : ∀ key tile, (key, tile) ∈ state.tilesByKey →
    tile.textureId.kind = textureKind key ∧
      ∃ texture, state.storage.get tile.textureId = some texture ∧
        0 ≤ tile.bounds.origin.x ∧ 0 ≤ tile.bounds.origin.y ∧
        tile.bounds.bottomRight.x ≤ texture.size.width ∧
        tile.bounds.bottomRight.y ≤ texture.size.height
  /-- A key has one tile. -/
  keys : (state.tilesByKey.map Prod.fst).Nodup
  disjoint : ∀ key tile key' tile', (key, tile) ∈ state.tilesByKey →
    (key', tile') ∈ state.tilesByKey → key ≠ key' → tile.textureId = tile'.textureId →
      tile.bounds.intersects tile'.bounds = false
  liveAtlasKeys : ∀ id texture, state.storage.get id = some texture →
    texture.liveAtlasKeys = (entriesOf state.tilesByKey id).length
  freeList : ∀ kind, (state.storage.index kind).freeList.Nodup ∧
    ∀ i : Nat, i ∈ (state.storage.index kind).freeList ↔
      (state.storage.index kind).textures[i]? = some none

/-- The area of every tile contains the bytes that were built for its key. -/
def Uploaded (self : WgpuAtlas Key Allocator AllocId Content) : Prop :=
  ∀ key tile, (key, tile) ∈ self.state.tilesByKey →
    ∃ texture, self.state.storage.get tile.textureId = some texture ∧
      Contains self.built texture texture.texture.content (key, tile)

section Kept

variable {Live : Size Int → Allocator → Multiset (Allocation AllocId) → Prop}
variable {textureKind : Key → AtlasTextureKind} {rect : Key → Rectangle}

theorem Sound.bookkept {built : Key → List UInt8}
    {state : WgpuAtlasState Key Allocator AllocId Content}
    (h : Sound Live textureKind rect built state) : Bookkept textureKind state where
  tile := by
    intro key tile hmem
    obtain ⟨hkind, texture, htexture⟩ := h.tile _ hmem
    obtain ⟨_, hsound⟩ := h.texture _ _ htexture
    have hentry := mem_entriesOf.2 ⟨hmem, rfl⟩
    have horigin := hsound.origin _ hentry
    obtain ⟨_, hmin, hwidth, hheight, hinside⟩ := hsound.holds _ hentry
    refine ⟨hkind, texture, htexture, ?_⟩
    unfold Bounds.bottomRight
    dsimp only at horigin hmin hwidth hheight hinside ⊢
    rw [horigin]
    omega
  keys := h.nodup
  disjoint := by
    intro key tile key' tile' hmem hmem' hne heq
    obtain ⟨_, texture, htexture⟩ := h.tile _ hmem
    obtain ⟨_, hsound⟩ := h.texture _ _ htexture
    have hentry := mem_entriesOf.2 ⟨hmem, rfl⟩
    have hentry' := mem_entriesOf.2 ⟨hmem', heq.symm⟩
    have hsymm : Std.Symm fun entry entry' : Key × AtlasTile AllocId =>
        (rect entry.1).Apart (rect entry'.1) := ⟨fun _ _ hapart => hapart.symm⟩
    have hapart := hsound.apart.forall hentry hentry' (fun hsame => hne (congrArg Prod.fst hsame))
    exact hapart.intersects (hsound.holds _ hentry) (hsound.holds _ hentry')
      (hsound.origin _ hentry) (hsound.origin _ hentry')
  liveAtlasKeys := fun id texture htexture => (h.texture id texture htexture).2.keys
  freeList := fun kind => ⟨(h.free kind).nodup, (h.free kind).mem_iff⟩

/-- Where no upload is left, the textures contain what was built. -/
theorem Sound.uploaded {self : WgpuAtlas Key Allocator AllocId Content}
    (h : Sound Live textureKind rect self.built self.state)
    (hpending : self.state.pendingUploads = []) : Uploaded self := by
  intro key tile hmem
  obtain ⟨_, texture, htexture⟩ := h.tile _ hmem
  obtain ⟨_, hsound⟩ := h.texture _ _ htexture
  have hcontains := hsound.contains _ (mem_entriesOf.2 ⟨hmem, rfl⟩)
  rw [hpending] at hcontains
  exact ⟨texture, htexture, hcontains⟩

variable [DecidableEq Key] [AtlasAllocator Allocator AllocId]

theorem sound_inductive (hlawful : LawfulAllocator Live) (hgpu : LawfulGpu Content)
    (maxTextureSize : Nat) (colorTextureFormat : TextureFormat) :
    (WgpuAtlas.machine maxTextureSize colorTextureFormat textureKind :
      Machine _ (WgpuAtlas Key Allocator AllocId Content) _).Inductive (fun _ _ => True)
        (fun self => ∃ rect, Sound Live textureKind rect self.built self.state) where
  start := ⟨fun _ => ⟨⟨0, 0⟩, ⟨0, 0⟩⟩, .empty⟩
  step := by
    rintro self action self' ⟨rect, h⟩ _ hstep
    obtain ⟨self'', rect', hstep', h'⟩ := h.step hlawful hgpu action
    replace hstep : self.step textureKind action = .ok self' := Option.some.inj hstep
    rw [hstep'] at hstep
    obtain rfl := Except.ok.inj hstep
    exact ⟨rect', h'⟩

end Kept

/-- **The atlas keeps its books**, whatever is inserted, removed and cleared, and when: no
    operation panics, and after `before_frame` the area of every tile contains the bytes
    that were built for its key. -/
theorem atlas_sound {Glyph Svg Image : Type} [DecidableEq Glyph] [DecidableEq Svg]
    [DecidableEq Image] [AtlasAllocator Allocator AllocId]
    {Live : Size Int → Allocator → Multiset (Allocation AllocId) → Prop}
    (hlawful : LawfulAllocator Live) (hgpu : LawfulGpu Content) {maxTextureSize : Nat}
    {colorTextureFormat : TextureFormat}
    {self : WgpuAtlas (AtlasKey Glyph Svg Image) Allocator AllocId Content}
    (h : (WgpuAtlas.machine maxTextureSize colorTextureFormat AtlasKey.textureKind).Reaches
      (fun _ _ => True) self) :
    Bookkept AtlasKey.textureKind self.state ∧
      ∀ action, ∃ self', self.step AtlasKey.textureKind action = .ok self' ∧
        (action = .beforeFrame → Uploaded self') := by
  obtain ⟨rect, hsound⟩ :=
    (sound_inductive hlawful hgpu maxTextureSize colorTextureFormat).holds h
  refine ⟨hsound.bookkept, ?_⟩
  intro action
  obtain ⟨self', rect', hstep, hsound'⟩ := hsound.step hlawful hgpu action
  refine ⟨self', hstep, ?_⟩
  rintro rfl
  obtain rfl := Except.ok.inj hstep
  exact hsound.flushUploads.uploaded rfl

end Books

/-! ### A run -/

/-- An allocator with one row, which is freed when all of its allocations are. -/
structure Shelf where
  size : Size Int
  x : Int
  refcount : Nat

namespace Shelf

def allocate (shelf : Shelf) (requested : Size Int) : Shelf × Option (Allocation Nat) :=
  if 0 < requested.width ∧ 0 < requested.height ∧
      shelf.x + requested.width ≤ shelf.size.width ∧ requested.height ≤ shelf.size.height then
    ({ shelf with x := shelf.x + requested.width, refcount := shelf.refcount + 1 },
      some ⟨0, ⟨shelf.x, 0⟩, ⟨shelf.x + requested.width, requested.height⟩⟩)
  else (shelf, none)

def deallocate (shelf : Shelf) : Option Shelf :=
  if shelf.refcount = 0 then none
  else some {
    shelf with
    x := if shelf.refcount = 1 then 0 else shelf.x
    refcount := shelf.refcount - 1 }

instance : AtlasAllocator Shelf Nat where
  new size := ⟨size, 0, 0⟩
  allocate := allocate
  deallocate shelf _ := shelf.deallocate

/-- The allocations lie left of the end of the row. -/
structure Live (size : Size Int) (shelf : Shelf) (live : Multiset (Allocation Nat)) : Prop where
  size : shelf.size = size
  x : 0 ≤ shelf.x
  refcount : shelf.refcount = live.card
  left : ∀ allocation ∈ live, allocation.rectangle.max.x ≤ shelf.x

variable {shelf shelf' : Shelf} {requested : Size Int}

theorem allocate_none (h : shelf.allocate requested = (shelf', none)) : shelf' = shelf := by
  unfold allocate at h
  split at h
  · cases (Prod.mk.inj h).2
  · exact (Prod.mk.inj h).1.symm

theorem allocate_some {allocation : Allocation Nat}
    (h : shelf.allocate requested = (shelf', some allocation)) :
    (0 < requested.width ∧ 0 < requested.height ∧
      shelf.x + requested.width ≤ shelf.size.width ∧ requested.height ≤ shelf.size.height) ∧
    shelf' = { shelf with x := shelf.x + requested.width, refcount := shelf.refcount + 1 } ∧
    allocation.rectangle = ⟨⟨shelf.x, 0⟩, ⟨shelf.x + requested.width, requested.height⟩⟩ := by
  unfold allocate at h
  split at h
  · rename_i hfits
    obtain ⟨hshelf, hallocation⟩ := Prod.mk.inj h
    obtain rfl := Option.some.inj hallocation
    exact ⟨hfits, hshelf.symm, rfl⟩
  · cases (Prod.mk.inj h).2

theorem lawful : LawfulAllocator Live where
  new size := ⟨rfl, Int.le_refl 0, rfl, fun _ h => absurd h (Multiset.notMem_zero _)⟩
  fails := by
    intro size shelf live requested shelf' h hallocate
    obtain rfl := allocate_none hallocate
    exact h
  allocates := by
    intro size shelf live requested shelf' allocation h hallocate
    obtain ⟨hfits, rfl, hrectangle⟩ := allocate_some hallocate
    refine ⟨h.size, ?_, ?_, ?_⟩
    · have hx := h.x
      dsimp only
      omega
    · rw [Multiset.card_cons]
      exact congrArg Nat.succ h.refcount
    · intro other hother
      dsimp only
      obtain rfl | hother := Multiset.mem_cons.1 hother
      · rw [hrectangle]
      · have hleft := h.left other hother
        omega
  holds := by
    intro size shelf live requested shelf' allocation h hallocate
    obtain ⟨⟨hwidth, hheight, hright, hbottom⟩, _, hrectangle⟩ := allocate_some hallocate
    rw [hrectangle, ← h.size]
    exact ⟨⟨hwidth, hheight⟩, ⟨h.x, Int.le_refl 0⟩, Int.le_refl _, by simp, hright, hbottom⟩
  apart := by
    intro size shelf live requested shelf' allocation h hallocate other hother
    obtain ⟨_, _, hrectangle⟩ := allocate_some hallocate
    rw [hrectangle]
    exact .inr (.inl (h.left other hother))
  deallocates := by
    intro size shelf live allocation h
    have hrefcount := h.refcount
    rw [Multiset.card_cons] at hrefcount
    have hpos : shelf.refcount ≠ 0 := by omega
    refine ⟨_, if_neg hpos, h.size, ?_, ?_, ?_⟩
    · have hx := h.x
      split
      · exact Int.le_refl 0
      · exact hx
    · dsimp only
      omega
    · intro other hother
      have hone : shelf.refcount ≠ 1 := by
        have hcard := Multiset.card_pos_iff_exists_mem.2 ⟨other, hother⟩
        omega
      rw [if_neg hone]
      exact h.left other (Multiset.mem_cons_of_mem hother)

end Shelf

/-- A texture by what was written, the last first. -/
abbrev Written := List (TextureRegion × List UInt8)

namespace Written

instance (r r' : TextureRegion) : Decidable (r.Apart r') :=
  inferInstanceAs (Decidable (_ ∨ _ ∨ _ ∨ _))

def read (content : Written) (region : TextureRegion) : List UInt8 :=
  match content.find? (fun write => ¬ write.1.Apart region) with
  | some (region', data) => if region' = region then data else []
  | none                 => []

instance : Gpu Written where
  createTexture _ := []
  writeTexture _ content region data _ := (region, data) :: content
  readTexture := read

theorem read_apart {content : Written} {region region' : TextureRegion} {data : List UInt8}
    (h : region.Apart region') : read
    ((region, data) :: content) region' = read content region' := by
  unfold read
  rw [find?_cons_of_neg]
  simpa using h

theorem read_empty {content : Written} {region : TextureRegion} (h : region.Apart region) :
    read content region = [] := by
  unfold read
  split
  · rename_i region' data hfind
    have hmeets := find?_some hfind
    rw [decide_eq_true_eq] at hmeets
    rw [if_neg]
    rintro rfl
    exact hmeets h
  · rfl

theorem lawful : LawfulGpu Written where
  read_write := by
    intro descriptor content region data _ hlength
    show read ((region, data) :: content) region = data
    by_cases hself : region.Apart region
    · -- no texel is written
      rw [read_empty hself]
      symm
      rw [← length_eq_zero_iff, hlength]
      unfold TextureRegion.Apart at hself
      obtain h | h : region.width = 0 ∨ region.height = 0 := by omega
      · rw [h, Nat.zero_mul, Nat.zero_mul]
      · rw [h, Nat.mul_zero]
    · unfold read
      rw [find?_cons_of_pos (by simpa using hself)]
      exact if_pos rfl
  read_write_apart := read_apart

end Written

/-- Two images and a glyph are inserted in a frame; then an image is replaced by another one,
    and the next frame begins. -/
theorem atlas_sound_frames :
    ∃ self : WgpuAtlas (AtlasKey Nat Unit Nat) Shelf Nat Written,
      self.state.tilesByKey.length = 3 ∧ self.state.pendingUploads.length = 1 ∧
        Bookkept AtlasKey.textureKind self.state ∧ Uploaded self.beforeFrame := by
  have hrun : ∃ self : WgpuAtlas (AtlasKey Nat Unit Nat) Shelf Nat Written,
      (WgpuAtlas.machine 2048 .bgra8Unorm AtlasKey.textureKind).run (.new 2048 .bgra8Unorm)
        [.getOrInsertWith (.image 1) (.ok (some (⟨1, 1⟩, [0, 0, 0, 255]))),
          .getOrInsertWith (.image 2) (.ok (some (⟨1, 2⟩, List.replicate 8 0))),
          .getOrInsertWith (.glyph false false 7) (.ok (some (⟨2, 1⟩, [64, 128]))),
          .beforeFrame, .remove (.image 1),
          .getOrInsertWith (.image 3) (.ok (some (⟨2, 1⟩, List.replicate 8 255)))] =
        some (.ok self) ∧
      self.state.tilesByKey.length = 3 ∧ self.state.pendingUploads.length = 1 := ⟨_, rfl, rfl, rfl⟩
  obtain ⟨self, hrun, htiles, hpending⟩ := hrun
  have hreaches := Machine.Reaches.start.run (.of_forall (fun _ _ _ => trivial) _) hrun
  obtain ⟨hbookkept, hsteps⟩ := atlas_sound Shelf.lawful Written.lawful hreaches
  obtain ⟨self', hstep, huploaded⟩ := hsteps .beforeFrame
  obtain rfl := Except.ok.inj hstep
  exact ⟨self, htiles, hpending, hbookkept, huploaded rfl⟩

end Atlas

end Gpui
