import Gpui.Atlas.WgpuAtlasRuns

/-! # Insertions into the sprite atlas that fail

    A request fails if `build` does, or has no image, or if its image fits into no texture.
    In the last case the atlas has pushed a texture before the allocator of that texture
    says so, and the texture stays.

    * `Slots` holds of the storage whatever the allocator and the device do.
    * **`failed_insertion_unchanged_iff`**: requests for a key leave the atlas as it was,
      whenever and however often they fail, iff the image would have fitted. -/

open Exec

namespace Gpui

namespace Atlas

variable {Key Allocator AllocId Content : Type}

/-! ### The slots -/

/-- The free list has the empty slots, and a texture knows its slot. -/
structure Slots (storage : WgpuAtlasStorage Allocator Content) : Prop where
  free : ∀ kind, (storage.index kind).Free
  ids : ∀ id texture, storage.get id = some texture → texture.id = id

theorem WgpuAtlasTexture.allocate_id [AtlasAllocator Allocator AllocId]
    (texture : WgpuAtlasTexture Allocator Content) (size : Size Int) :
    (texture.allocate size).1.id = texture.id := by
  unfold WgpuAtlasTexture.allocate
  split <;> rfl

namespace Slots

variable {storage : WgpuAtlasStorage Allocator Content} {id : AtlasTextureId}
variable {texture texture' : WgpuAtlasTexture Allocator Content}

theorem default : Slots (.default : WgpuAtlasStorage Allocator Content) where
  free := by
    intro kind
    cases kind with
    | _ => exact ⟨List.nodup_nil, fun i => iff_of_false List.not_mem_nil nofun⟩
  ids := by
    intro id texture hid
    rw [WgpuAtlasStorage.get_eq_some] at hid
    cases hkind : id.kind with
    | _ =>
      rw [hkind] at hid
      cases hid

/-- A texture takes the place of another one in its slot. -/
theorem setSlot (h : Slots storage) (hid : storage.get id = some texture)
    (hsame : texture'.id = texture.id) : Slots (storage.setSlot id (some texture')) where
  free := WgpuAtlasStorage.free_setSlot h.free hid texture'
  ids := by
    intro other slot hslot
    by_cases hother : other = id
    · subst hother
      rw [WgpuAtlasStorage.get_setSlot_self hid] at hslot
      cases hslot
      rw [hsame]
      exact h.ids other texture hid
    · rw [WgpuAtlasStorage.get_setSlot_ne hother] at hslot
      exact h.ids other slot hslot

/-- A slot is emptied. -/
theorem release (h : Slots storage) (hid : storage.get id = some texture) :
    Slots ((storage.setSlot id none).setIndex id.kind
      { (storage.setSlot id none).index id.kind with
        freeList := ((storage.setSlot id none).index id.kind).freeList ++ [id.index] }) where
  free := WgpuAtlasStorage.free_release h.free hid
  ids := by
    intro other slot hslot
    rw [WgpuAtlasStorage.get_setIndex_of_textures (by rfl)] at hslot
    by_cases hother : other = id
    · subst hother
      rw [WgpuAtlasStorage.get_setSlot_self hid] at hslot
      cases hslot
    · rw [WgpuAtlasStorage.get_setSlot_ne hother] at hslot
      exact h.ids other slot hslot

/-- The textures that an allocation leaves know their slots, and so does a new one. -/
theorem mid [AtlasAllocator Allocator AllocId] [Gpu Content]
    {state mid : WgpuAtlasState Key Allocator AllocId Content} {size : Size Int}
    (h : Slots state.storage) (hmid : WgpuAtlasState.Mid size state mid) :
    Slots mid.storage where
  free := hmid.free
  ids := by
    intro id texture' hid
    obtain ⟨texture, hbase, hleft⟩ := hmid.texture id texture' hid
    have hsame : texture'.id = texture.id := by
      rcases hleft with rfl | hallocate
      · rfl
      · have hkept := texture.allocate_id size
        rw [hallocate] at hkept
        exact hkept
    rw [hsame]
    rcases hbase with hget | ⟨_, rfl⟩
    · exact h.ids id texture hget
    · rfl

end Slots

/-! ### What is kept -/

/-- What the atlas keeps of a texture beside its allocator. -/
def WgpuAtlasTexture.held (texture : WgpuAtlasTexture Allocator Content) :
    AtlasTextureId × GpuTexture Content × TextureFormat × Nat :=
  (texture.id, texture.texture, texture.format, texture.liveAtlasKeys)

namespace WgpuAtlas

/-- The atlas is as it was, up to the state of its allocators. -/
structure Unchanged (before after : WgpuAtlas Key Allocator AllocId Content) : Prop where
  textures : ∀ kind, (after.state.storage.index kind).textures.map (Option.map (·.held)) =
    (before.state.storage.index kind).textures.map (Option.map (·.held))
  freeList : ∀ kind, (after.state.storage.index kind).freeList =
    (before.state.storage.index kind).freeList
  tilesByKey : after.state.tilesByKey = before.state.tilesByKey
  pendingUploads : after.state.pendingUploads = before.state.pendingUploads

variable {self self' : WgpuAtlas Key Allocator AllocId Content}

theorem Unchanged.refl (self : WgpuAtlas Key Allocator AllocId Content) :
    Unchanged self self where
  textures := fun _ => rfl
  freeList := fun _ => rfl
  tilesByKey := rfl
  pendingUploads := rfl

/-- The same slots are empty. -/
theorem Unchanged.get_eq_none (h : Unchanged self self') {id : AtlasTextureId}
    (hid : self.state.storage.get id = none) : self'.state.storage.get id = none := by
  have hslot := congrArg (fun slots => slots[id.index]?) (h.textures id.kind)
  simp only [List.getElem?_map] at hslot
  unfold WgpuAtlasStorage.get at hid ⊢
  cases hbefore : (self.state.storage.index id.kind).textures[id.index]? with
  | none =>
    rw [hbefore, Option.map_none, Option.map_eq_none_iff] at hslot
    rw [hslot]
    rfl
  | some slot =>
    rw [hbefore] at hid hslot
    replace hid : slot = none := hid
    rw [hid, Option.map_some, Option.map_none] at hslot
    obtain ⟨slot', hafter, hslot'⟩ := Option.map_eq_some_iff.mp hslot
    rw [hafter, Option.map_eq_none_iff.mp hslot']
    rfl

/-! ### The operations keep the slots -/

section Operations

theorem slots_beforeFrame [Gpu Content] (h : Slots self.state.storage) :
    Slots self.beforeFrame.state.storage where
  free := WgpuAtlasStorage.free_flushUploads h.free _
  ids := by
    intro id texture' hid
    replace hid := (WgpuAtlasStorage.get_flushUploads _ _ id).symm.trans hid
    obtain ⟨texture, htexture, rfl⟩ := Option.map_eq_some_iff.1 hid
    rw [foldl_writeUpload]
    exact h.ids id texture htexture

variable [DecidableEq Key] [AtlasAllocator Allocator AllocId] [Gpu Content] {key : Key}
variable {textureKind : Key → AtlasTextureKind} {build : Built}

theorem slots_getOrInsertWith {r : Except AtlasError (Option (AtlasTile AllocId))}
    (h : Slots self.state.storage)
    (hget : self.getOrInsertWith textureKind key build = .ok (self', r)) :
    Slots self'.state.storage := by
  unfold getOrInsertWith at hget
  split at hget
  · cases hget
    exact h
  · split at hget
    · cases hget
      exact h
    · cases hget
      exact h
    · next size bytes =>
      obtain ⟨mid, id, texture, texture', tile, hmid, _, hid, hallocate, hstate⟩ :=
        WgpuAtlasState.allocate_cases h.free size (textureKind key)
      have hsame : texture'.id = texture.id := by
        have hkept := texture.allocate_id size
        rw [hallocate] at hkept
        exact hkept
      have hslots := (h.mid hmid).setSlot hid hsame
      unfold insertWith at hget
      rw [hstate, ok_bind] at hget
      -- an upload and a tile change nothing in the storage
      cases tile with
      | none =>
        cases hget
        exact hslots
      | some tile =>
        cases hget
        exact hslots

omit [Gpu Content] in
theorem slots_remove (h : Slots self.state.storage) (hremove : self.remove key = .ok self') :
    Slots self'.state.storage := by
  unfold remove at hremove
  split at hremove
  · cases hremove
    exact h
  · next tile _ =>
    dsimp only at hremove
    split at hremove
    · cases hremove
      exact h
    · next texture hid =>
      replace hid : self.state.storage.get tile.textureId = some texture := hid
      unfold WgpuAtlasState.release at hremove
      split at hremove
      · cases hremove
      · next allocator _ =>
        unfold WgpuAtlasTexture.decrementRefCount at hremove
        by_cases hzero : texture.liveAtlasKeys = 0
        · rw [if_pos hzero] at hremove
          cases hremove
        · rw [if_neg hzero, ok_bind] at hremove
          split at hremove
          · cases hremove
            show Slots (WgpuAtlasStorage.setIndex _ _ _)
            rw [show texture.id.index = tile.textureId.index by rw [h.ids _ _ hid]]
            exact h.release hid
          · cases hremove
            exact h.setSlot hid rfl

theorem slots_inductive (maxTextureSize : Nat) (colorTextureFormat : TextureFormat)
    (textureKind : Key → AtlasTextureKind) :
    (machine maxTextureSize colorTextureFormat textureKind :
      Machine _ (WgpuAtlas Key Allocator AllocId Content) _).Inductive (fun _ _ => True)
        (fun self => Slots self.state.storage) where
  start := Slots.default
  step := by
    intro self action self' h _ hstep
    replace hstep : self.step textureKind action = .ok self' := Option.some.inj hstep
    cases action with
    | getOrInsertWith key build =>
      obtain ⟨⟨next, r⟩, hget, rfl⟩ := map_eq_ok.mp hstep
      exact slots_getOrInsertWith h hget
    | remove key => exact slots_remove h hstep
    | beforeFrame =>
      cases hstep
      exact slots_beforeFrame h
    | clear =>
      cases hstep
      exact Slots.default

end Operations

/-! ### Requests that fail -/

section Requests

variable [AtlasAllocator Allocator AllocId]

/-- An allocator has room for a size. -/
def HasRoom (allocator : Allocator) (size : Size Int) : Prop :=
  (AtlasAllocator.allocate allocator size).2 ≠ none

theorem allocate_eq_none {texture : WgpuAtlasTexture Allocator Content} {size : Size Int} :
    (texture.allocate size).2 = none ↔ ¬ HasRoom texture.allocator size := by
  unfold HasRoom
  rw [not_not]
  unfold WgpuAtlasTexture.allocate
  split
  · next allocator hallocate =>
    rw [hallocate]
    exact iff_of_true rfl rfl
  · next allocator allocation hallocate =>
    rw [hallocate]
    exact iff_of_false nofun nofun

variable [Gpu Content]

/-- An image fits into a texture of its kind that is there, or into a new one of the size
    that it would get. -/
def Fits (self : WgpuAtlas Key Allocator AllocId Content) (kind : AtlasTextureKind)
    (size : Size Int) : Prop :=
  (∃ texture, some texture ∈ (self.state.storage.index kind).textures ∧
    HasRoom texture.allocator size) ∨
  HasRoom (AtlasAllocator.new (self.state.textureSize size) : Allocator) size

/-- What fits is allocated, and what does not gets a texture into a slot without one. -/
theorem allocate_of_fits (h : Slots self.state.storage) (kind : AtlasTextureKind)
    (size : Size Int) :
    ∃ state tile, self.state.allocate size kind = .ok (state, tile) ∧
      (self.Fits kind size → tile ≠ none) ∧
      (¬ self.Fits kind size → tile = none ∧ ∃ id, self.state.storage.get id = none ∧
        state.storage.get id ≠ none) := by
  obtain ⟨textures, hfind, htried⟩ | ⟨before, texture, texture', rest, rest', tile, hsplit,
    hallocate, htried, hfind⟩ := findAllocate_cases size (self.state.storage.index kind).textures
  · -- no texture that is there has room
    have hleft := WgpuAtlasState.mid_of_left h.free (Tried.listLeft htried)
    obtain ⟨mid, ix, hpush, hpushed⟩ := WgpuAtlasState.pushTexture_cases hleft.free size kind
    have hfull : ∀ texture, some texture ∈ (self.state.storage.index kind).textures →
        ¬ HasRoom texture.allocator size := by
      intro texture hmem
      obtain ⟨i, hi⟩ := List.getElem?_of_mem hmem
      obtain ⟨hnone, _⟩ | ⟨slot, slot', hslot, _, hslots⟩ := Tried.getElem? htried i
      · rw [hnone] at hi
        cases hi
      · rw [hi] at hslot
        cases hslot
        cases hslots with
        | full hallocate =>
          rw [← allocate_eq_none, hallocate]
    have hfits : self.Fits kind size ↔
        HasRoom (AtlasAllocator.new (self.state.textureSize size) : Allocator) size := by
      constructor
      · intro hfits
        rcases hfits with ⟨texture, hmem, hroom⟩ | hroom
        · exact absurd hroom (hfull texture hmem)
        · exact hroom
      · exact Or.inr
    have hallocate : self.state.allocate size kind = .ok ({ mid with
        storage := mid.storage.setSlot ⟨ix, kind⟩
          (some ((self.state.newTexture size ⟨ix, kind⟩).allocate size).1) },
        ((self.state.newTexture size ⟨ix, kind⟩ :
          WgpuAtlasTexture Allocator Content).allocate size).2) := by
      have hafter : mid.storage.get ⟨ix, kind⟩ = some (self.state.newTexture size ⟨ix, kind⟩) :=
        hpushed.after
      unfold WgpuAtlasState.allocate
      simp only [hfind, hpush, ok_bind, hafter]
    have hnone : ((self.state.newTexture size ⟨ix, kind⟩ :
        WgpuAtlasTexture Allocator Content).allocate size).2 = none ↔ ¬ self.Fits kind size := by
      rw [hfits]
      exact allocate_eq_none
    refine ⟨_, _, hallocate, ?_, ?_⟩
    · intro hroom htile
      exact hnone.mp htile hroom
    · intro hroom
      refine ⟨hnone.mpr hroom, ⟨ix, kind⟩, ?_, ?_⟩
      · by_contra hsome
        obtain ⟨texture, htexture⟩ := Option.ne_none_iff_exists'.1 hsome
        obtain ⟨texture', htexture'⟩ := hleft.kept _ _ htexture
        rw [hpushed.before] at htexture'
        cases htexture'
      · dsimp only
        rw [WgpuAtlasStorage.get_setSlot_self hpushed.after]
        exact Option.some_ne_none _
  · -- a texture that is there has room
    have hroom : HasRoom texture.allocator size := by
      by_contra hfull
      rw [← allocate_eq_none, hallocate] at hfull
      cases hfull
    have hfits : self.Fits kind size := by
      refine Or.inl ⟨texture, ?_, hroom⟩
      rw [hsplit]
      exact List.mem_append_right _ (List.mem_cons_self ..)
    have htile : ∃ state, self.state.allocate size kind = .ok (state, some tile) := by
      unfold WgpuAtlasState.allocate
      simp only [hfind]
      exact ⟨_, rfl⟩
    obtain ⟨state, hstate⟩ := htile
    exact ⟨state, some tile, hstate, fun _ => Option.some_ne_none _,
      fun hnot => absurd hfits hnot⟩

variable [DecidableEq Key]

/-- A request returns an error or nothing. -/
def FailsTo (textureKind : Key → AtlasTextureKind) (key : Key) (build : Built)
    (self self' : WgpuAtlas Key Allocator AllocId Content) : Prop :=
  ∃ r, self.getOrInsertWith textureKind key build = .ok (self', r) ∧ ∀ tile, r ≠ .ok (some tile)

/-- A request that asks for no new area, or for one that fits. -/
def Served (textureKind : Key → AtlasTextureKind)
    (self : WgpuAtlas Key Allocator AllocId Content) (key : Key) (build : Built) : Prop :=
  self.state.getTile key ≠ none ∨
    ∀ size bytes, build = .ok (some (size, bytes)) → self.Fits (textureKind key) size

variable {key : Key} {textureKind : Key → AtlasTextureKind} {build : Built}

/-- A request that is served changes nothing if it fails. -/
theorem FailsTo.eq_of_served (h : Slots self.state.storage)
    (hserved : Served textureKind self key build)
    (hfails : FailsTo textureKind key build self self') : self' = self := by
  obtain ⟨r, hget, hfails⟩ := hfails
  unfold getOrInsertWith at hget
  split at hget
  · cases hget
    rfl
  · next htile =>
    split at hget
    · cases hget
      rfl
    · cases hget
      rfl
    · next size bytes =>
      -- the image fits, so that there is a tile
      have hfits : self.Fits (textureKind key) size := by
        rcases hserved with hsome | hfits
        · exact absurd htile hsome
        · exact hfits size bytes rfl
      obtain ⟨state, tile, hallocate, hroom, _⟩ := allocate_of_fits h (textureKind key) size
      unfold insertWith at hget
      rw [hallocate, ok_bind] at hget
      cases tile with
      | none => exact absurd rfl (hroom hfits)
      | some tile =>
        cases hget
        exact absurd rfl (hfails tile)

/-- A request that is not served fails, with a texture that was not there. -/
theorem exists_failsTo (h : Slots self.state.storage)
    (hserved : ¬ Served textureKind self key build) :
    ∃ self', FailsTo textureKind key build self self' ∧ ¬ Unchanged self self' := by
  unfold Served at hserved
  push Not at hserved
  obtain ⟨htile, size, bytes, hbuild, hfits⟩ := hserved
  obtain ⟨state, tile, hallocate, _, hfull⟩ := allocate_of_fits h (textureKind key) size
  obtain ⟨rfl, id, hbefore, hafter⟩ := hfull hfits
  refine ⟨{ self with state }, ⟨.error .failedToAllocate, ?_, nofun⟩, ?_⟩
  · unfold getOrInsertWith insertWith
    simp only [htile, hbuild, hallocate, ok_bind]
  · intro hsame
    exact hafter (hsame.get_eq_none hbefore)

/-- **Failing requests leave the atlas as it was**, at any reachable state and however often
    they are repeated, iff the key has a tile, or there is no image, or it fits. -/
theorem failed_insertion_unchanged_iff (maxTextureSize : Nat)
    (colorTextureFormat : TextureFormat) (textureKind : Key → AtlasTextureKind)
    (self : WgpuAtlas Key Allocator AllocId Content)
    (hreaches : (machine maxTextureSize colorTextureFormat textureKind).Reaches
      (fun _ _ => True) self) (key : Key) (build : Built) :
    (∀ self', Relation.ReflTransGen (FailsTo textureKind key build) self self' →
      Unchanged self self') ↔ Served textureKind self key build := by
  have h := (slots_inductive maxTextureSize colorTextureFormat textureKind).holds hreaches
  constructor
  · intro hunchanged
    by_contra hserved
    obtain ⟨self', hfails, hchanged⟩ := exists_failsTo h hserved
    exact hchanged (hunchanged self' (.single hfails))
  · intro hserved self' hrepeated
    -- no repetition leaves the state
    have hsame : self' = self := by
      induction hrepeated with
      | refl => rfl
      | tail _ hfails ih =>
        subst ih
        exact hfails.eq_of_served h hserved
    subst hsame
    exact Unchanged.refl self'

/-- Beside an image, the request for another one that cannot be built. -/
theorem failed_insertion_unchanged_iff_error :
    ∃ self : WgpuAtlas (AtlasKey Unit Unit Nat) Shelf Nat Written,
      self.state.tilesByKey.length = 1 ∧
      (∃ self', FailsTo AtlasKey.textureKind (.image 2) (.error .build) self self') ∧
      ∀ self', Relation.ReflTransGen (FailsTo AtlasKey.textureKind (.image 2) (.error .build))
        self self' → Unchanged self self' := by
  have hrun : ∃ self : WgpuAtlas (AtlasKey Unit Unit Nat) Shelf Nat Written,
      (machine 2048 .bgra8Unorm AtlasKey.textureKind).run (.new 2048 .bgra8Unorm)
        [.getOrInsertWith (.image 1) (.ok (some (⟨1, 1⟩, [0, 0, 0, 255])))] = some (.ok self) ∧
      self.state.tilesByKey.length = 1 ∧
      ∃ self', FailsTo AtlasKey.textureKind (.image 2) (.error .build) self self' :=
    ⟨_, rfl, rfl, _, _, rfl, nofun⟩
  obtain ⟨self, hrun, hlength, hfails⟩ := hrun
  have hreaches := Machine.Reaches.start.run (.of_forall (fun _ _ _ => trivial) _) hrun
  refine ⟨self, hlength, hfails, ?_⟩
  exact (failed_insertion_unchanged_iff 2048 .bgra8Unorm _ self hreaches _ _).mpr (.inr nofun)

/-- An image that is wider than a texture can be: the atlas has a texture more. -/
theorem oversized_insertion_grows :
    ¬ ∀ self : WgpuAtlas (AtlasKey Unit Unit Nat) Shelf Nat Written,
      (machine 2048 .bgra8Unorm AtlasKey.textureKind).Reaches (fun _ _ => True) self →
      ∀ key build self', FailsTo AtlasKey.textureKind key build self self' →
        Unchanged self self' := by
  intro h
  have hfails : ∃ self' : WgpuAtlas (AtlasKey Unit Unit Nat) Shelf Nat Written,
      FailsTo AtlasKey.textureKind (.image 1) (.ok (some (⟨4096, 1⟩, [])))
        (.new 2048 .bgra8Unorm) self' ∧
      (self'.state.storage.index .polychrome).textures.length = 1 :=
    ⟨_, ⟨_, rfl, nofun⟩, rfl⟩
  obtain ⟨self', hfails, hlength⟩ := hfails
  have htextures := (h _ .start _ _ self' hfails).textures .polychrome
  have hlengths := congrArg List.length htextures
  rw [List.length_map, List.length_map, hlength] at hlengths
  cases hlengths

end Requests

end WgpuAtlas

end Atlas

end Gpui
