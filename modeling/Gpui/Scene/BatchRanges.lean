import Gpui.Scene.PaintOrder

/-! # Batches: the ranges

    The batches of a scene name ranges of its vectors.  Together the ranges of a kind
    count through the whole vector, and what they name comes in the order of the pairs
    of draw order and kind. -/

namespace Gpui

open List

open Exec (Returns loop bind_eq_ok)

variable {U S : Type}

namespace PrimitiveBatch

def kind : PrimitiveBatch → PrimitiveKind
  | .shadows ..           => .shadow
  | .quads ..             => .quad
  | .paths ..             => .path
  | .underlines ..        => .underline
  | .monochromeSprites .. => .monochromeSprite
  | .subpixelSprites ..   => .subpixelSprite
  | .polychromeSprites .. => .polychromeSprite
  | .surfaces ..          => .surface

def start : PrimitiveBatch → Nat
  | .shadows start _             => start
  | .quads start _               => start
  | .paths start _               => start
  | .underlines start _          => start
  | .monochromeSprites _ start _ => start
  | .subpixelSprites _ start _   => start
  | .polychromeSprites _ start _ => start
  | .surfaces start _            => start

def stop : PrimitiveBatch → Nat
  | .shadows _ stop             => stop
  | .quads _ stop               => stop
  | .paths _ stop               => stop
  | .underlines _ stop          => stop
  | .monochromeSprites _ _ stop => stop
  | .subpixelSprites _ _ stop   => stop
  | .polychromeSprites _ _ stop => stop
  | .surfaces _ stop            => stop

/-- The texture of a batch of sprites. -/
def textureId : PrimitiveBatch → Option AtlasTextureId
  | .monochromeSprites textureId _ _ => some textureId
  | .subpixelSprites textureId _ _   => some textureId
  | .polychromeSprites textureId _ _ => some textureId
  | _                                => none

/-- The indices that a batch names. -/
def indices (batch : PrimitiveBatch) : List Nat :=
  List.range' batch.start (batch.stop - batch.start)

end PrimitiveBatch

namespace Primitive

def textureId : Primitive U S → Option AtlasTextureId
  | .monochromeSprite sprite => some sprite.tile.textureId
  | .subpixelSprite sprite   => some sprite.tile.textureId
  | .polychromeSprite sprite => some sprite.tile.textureId
  | _                        => none

end Primitive

/-- The batches merge the vectors of the scene. -/
structure FaithfulMerge (scene : Scene U S) (batches : List PrimitiveBatch) : Prop where
  enumerates : ∀ kind, (batches.filter (fun batch => batch.kind = kind)).flatMap
    PrimitiveBatch.indices = List.range (scene.ofKind kind).length
  nonempty : ∀ batch ∈ batches, batch.start < batch.stop
  ordered : (batches.flatMap scene.primitivesOf).Pairwise Primitive.NoLater
  textures : ∀ batch ∈ batches, ∀ textureId, batch.textureId = some textureId →
    ∀ p ∈ scene.primitivesOf batch, p.textureId = some textureId

/-- `u32::MAX`, which stands for a kind with nothing left, is the order of no primitive
    but a shadow: the first kind is told from an exhausted one. -/
def Scene.NoSentinel (scene : Scene U S) : Prop :=
  ∀ kind, ∀ p ∈ scene.ofKind kind, p.order ≤ u32Max ∧ (kind ≠ .shadow → p.order ≠ u32Max)

/-! ## What a batch names -/

theorem Scene.primitivesOf_eq (scene : Scene U S) (batch : PrimitiveBatch) :
    scene.primitivesOf batch = slice (scene.ofKind batch.kind) batch.start batch.stop := by
  cases batch <;>
    simp [primitivesOf, ofKind, PrimitiveBatch.kind, PrimitiveBatch.start, PrimitiveBatch.stop,
      slice, map_take, map_drop]

variable {p : Primitive U S}

theorem Scene.kind_of_mem_ofKind {scene : Scene U S} {kind : PrimitiveKind}
    (h : p ∈ scene.ofKind kind) : p.kind = kind := by
  cases kind <;>
  · obtain ⟨_, _, rfl⟩ := mem_map.1 h
    rfl

theorem Scene.kind_of_mem_primitivesOf {scene : Scene U S} {batch : PrimitiveBatch}
    (h : p ∈ scene.primitivesOf batch) : p.kind = batch.kind := by
  rw [primitivesOf_eq] at h
  exact kind_of_mem_ofKind (mem_of_mem_drop (mem_of_mem_take h))

namespace KindIter

variable {P : Type} {iter : KindIter P}

theorem take_lt (more : P → Bool) : iter.start < (iter.take more).start := by
  simp only [take]
  omega

/-- What is taken is counted. -/
theorem take_count (more : P → Bool) (hne : iter.rest ≠ []) :
    (iter.take more).start + (iter.take more).rest.length = iter.start + iter.rest.length := by
  obtain ⟨first, tail, hrest⟩ := exists_cons_of_ne_nil hne
  have hlength := congrArg List.length (takeWhile_append_dropWhile (p := more) (l := tail))
  rw [length_append] at hlength
  simp only [take, hrest, tail_cons, length_cons]
  omega

end KindIter

namespace BatchIterator

variable {scene : Scene U S} {it it' : BatchIterator U S} {kind : PrimitiveKind}
  {limit : Nat × PrimitiveKind} {batch : PrimitiveBatch}

/-- The range of a batch of a kind, and where the iterator stands after it. -/
structure TakesRange (scene : Scene U S) (it : BatchIterator U S) (kind : PrimitiveKind)
    (batch : PrimitiveBatch) (it' : BatchIterator U S) : Prop where
  ofKind : batch.kind = kind
  start : batch.start = it.start kind
  stop : batch.stop = it'.start kind
  lt : it.start kind < it'.start kind
  count : it'.start kind + (it'.rest kind).length = it.start kind + (it.rest kind).length
  others : ∀ k, k ≠ kind → it'.start k = it.start k
  textures : ∀ textureId, batch.textureId = some textureId →
    ∀ p ∈ scene.primitivesOf batch, p.textureId = some textureId

/-- A batch of sprites goes on as long as the texture is that of the first one. -/
theorem takeSprites_textures {vector : List (Sprite U S)} {sprites sprites' : KindIter (Sprite U S)}
    {textureId : AtlasTextureId} {draw : Sprite U S → Primitive U S}
    (hdraw : Function.Injective draw)
    (hcovers : (vector.map draw).drop sprites.start = sprites.rest.map draw)
    (htake : takeSprites sprites kind limit = .ok (sprites', textureId)) :
    sprites.start < sprites'.start ∧
      sprites'.start + sprites'.rest.length = sprites.start + sprites.rest.length ∧
      ∀ s ∈ Scene.slice vector sprites.start sprites'.start, s.tile.textureId = textureId := by
  have hvector : vector.drop sprites.start = sprites.rest := by
    rw [← map_drop] at hcovers
    exact map_injective_iff.2 hdraw hcovers
  unfold takeSprites at htake
  cases hrest : sprites.rest with
  | nil =>
    rw [hrest] at htake
    cases htake
  | cons first tail =>
    rw [hrest] at htake
    obtain ⟨rfl, rfl⟩ := Prod.mk.inj (Except.ok.inj htake)
    refine ⟨KindIter.take_lt _, ?_, ?_⟩
    · rw [KindIter.take_count _ (by rw [hrest]; exact cons_ne_nil _ _), hrest]
    · obtain ⟨hslice, -⟩ := KindIter.take_spec (fun sprite : Sprite U S =>
        isBefore sprite.order kind limit && sprite.tile.textureId == first.tile.textureId)
        hvector hrest
      rw [hslice]
      intro s hs
      rcases mem_cons.1 hs with rfl | hs
      · rfl
      · have hmore := mem_takeWhile_imp hs
        rw [Bool.and_eq_true, beq_iff_eq] at hmore
        exact hmore.2

theorem kind_of_takeKind (htake : it.takeKind kind limit = .ok (batch, it')) :
    batch.kind = kind := by
  cases kind with
  | shadow | quad | path | underline | surface =>
    obtain ⟨rfl, -⟩ := Prod.mk.inj (Except.ok.inj htake)
    rfl
  | monochromeSprite | subpixelSprite | polychromeSprite =>
    obtain ⟨_, -, htake⟩ := bind_eq_ok.1 htake
    obtain ⟨rfl, -⟩ := Prod.mk.inj (Except.ok.inj htake)
    rfl

/-- All kinds are counted in the same way. -/
theorem takeKind_range (hcovers : it.Covers scene) (hne : it.rest kind ≠ [])
    (htake : it.takeKind kind limit = .ok (batch, it')) : TakesRange scene it kind batch it' := by
  have hrest : ∀ {P : Type} {l : List P} {draw : P → Primitive U S}, l.map draw ≠ [] → l ≠ [] :=
    fun h hnil => h (by rw [hnil]; rfl)
  have hkind := hcovers kind
  cases kind with
  | shadow | quad | path | underline | surface =>
    obtain ⟨rfl, rfl⟩ := Prod.mk.inj (Except.ok.inj htake)
    refine ⟨rfl, rfl, rfl, KindIter.take_lt _, ?_, ?_, by intro _ h; cases h⟩
    · simpa [rest, start] using KindIter.take_count _ (hrest hne)
    · intro k hk
      cases k <;> first | exact absurd rfl hk | rfl
  | monochromeSprite | subpixelSprite | polychromeSprite =>
    obtain ⟨⟨sprites, textureId⟩, hsprites, htake⟩ := bind_eq_ok.1 htake
    obtain ⟨rfl, rfl⟩ := Prod.mk.inj (Except.ok.inj htake)
    obtain ⟨hlt, hcount, htextures⟩ := takeSprites_textures (fun _ _ h => by injection h)
      hkind hsprites
    refine ⟨rfl, rfl, rfl, hlt, by simpa [rest, start] using hcount, ?_, ?_⟩
    · intro k hk
      cases k <;> first | exact absurd rfl hk | rfl
    · rintro _ ⟨rfl⟩ p hp
      obtain ⟨s, hs, rfl⟩ := mem_map.1 hp
      exact congrArg some (htextures s hs)

/-- A batch that the iterator gives is taken from one of the kinds. -/
theorem next_takeKind (hnext : it.next = .ok (some (batch, it'))) :
    ∃ kind limit, it.takeKind kind limit = .ok (batch, it') := by
  obtain ⟨first, -, hnext⟩ := bind_eq_ok.1 hnext
  obtain ⟨second, -, hnext⟩ := bind_eq_ok.1 hnext
  split at hnext
  · obtain ⟨taken, htake, hnext⟩ := bind_eq_ok.1 hnext
    cases hnext
    exact ⟨_, _, htake⟩
  · cases hnext

/-! ## The run -/

/-- The batches so far name the vectors up to where the iterator stands. -/
structure Listed (scene : Scene U S) (it : BatchIterator U S) (batches : List PrimitiveBatch) :
    Prop where
  covers : it.Covers scene
  mergeable : it.Mergeable
  count : ∀ kind, it.start kind + (it.rest kind).length = (scene.ofKind kind).length
  indices : ∀ kind, (batches.filter (fun batch => batch.kind = kind)).flatMap
    PrimitiveBatch.indices = List.range (it.start kind)
  nonempty : ∀ batch ∈ batches, batch.start < batch.stop
  ordered : (batches.flatMap scene.primitivesOf).Pairwise Primitive.NoLater
  noLater_rest : ∀ p ∈ batches.flatMap scene.primitivesOf, ∀ kind, ∀ q ∈ it.rest kind,
    p.NoLater q
  textures : ∀ batch ∈ batches, ∀ textureId, batch.textureId = some textureId →
    ∀ p ∈ scene.primitivesOf batch, p.textureId = some textureId

theorem TakesRange.indices (h : TakesRange scene it kind batch it') :
    List.range (it.start kind) ++ batch.indices = List.range (it'.start kind) := by
  rw [PrimitiveBatch.indices, h.start, h.stop, range_eq_range', range_eq_range',
    show it'.start kind = it.start kind + (it'.start kind - it.start kind) by
      have := h.lt
      omega,
    ← range'_append_1, Nat.zero_add, Nat.add_sub_cancel_left]

theorem Listed.takes {batches : List PrimitiveBatch} (h : Listed scene it batches)
    (htakes : Takes scene it kind limit batch it') (hrange : TakesRange scene it kind batch it')
    (hle : ∀ p ∈ scene.primitivesOf batch, ∀ k, ∀ q ∈ it'.rest k, p.NoLater q) :
    Listed scene it' (batches ++ [batch]) := by
  have hmem : ∀ p ∈ scene.primitivesOf batch, p ∈ it.rest kind := by
    intro p hp
    rw [htakes.split]
    exact mem_append_left _ hp
  have hdrawn : (batches ++ [batch]).flatMap scene.primitivesOf =
      batches.flatMap scene.primitivesOf ++ scene.primitivesOf batch := by simp
  constructor
  · exact htakes.covers
  · exact htakes.mergeable h.mergeable
  · intro k
    by_cases hk : k = kind
    · subst hk
      rw [hrange.count]
      exact h.count k
    · rw [hrange.others k hk, htakes.others k hk]
      exact h.count k
  · intro k
    rw [filter_append, flatMap_append, h.indices k]
    by_cases hk : k = kind
    · subst hk
      rw [filter_singleton, hrange.ofKind]
      simpa using hrange.indices
    · have hother : ¬ batch.kind = k := by
        rw [hrange.ofKind]
        exact fun heq => hk heq.symm
      rw [filter_singleton, hrange.others k hk]
      simp [hother]
  · intro b hb
    rcases mem_append.1 hb with hb | hb
    · exact h.nonempty b hb
    · rw [mem_singleton.1 hb, hrange.start, hrange.stop]
      exact hrange.lt
  · rw [hdrawn]
    have hsorted := h.mergeable.sorted kind
    rw [htakes.split] at hsorted
    refine pairwise_append.2 ⟨h.ordered, ?_, fun p hp q hq =>
      h.noLater_rest p hp kind q (hmem q hq)⟩
    refine (pairwise_append.1 hsorted).1.imp_of_mem fun hp hq hpq => ?_
    unfold Primitive.NoLater
    rw [kind_of_mem_rest (hmem _ hp), kind_of_mem_rest (hmem _ hq)]
    omega
  · intro p hp k q hq
    rw [hdrawn] at hp
    rcases mem_append.1 hp with hp | hp
    · exact h.noLater_rest p hp k q ((htakes.sublist k).subset hq)
    · exact hle p hp k q hq
  · intro b hb
    rcases mem_append.1 hb with hb | hb
    · exact h.textures b hb
    · rw [mem_singleton.1 hb]
      exact hrange.textures

/-- A turn of the run. -/
theorem Listed.next {batches : List PrimitiveBatch} (h : Listed scene it batches) :
    (it.next = .ok none ∧ FaithfulMerge scene batches) ∨
    ∃ batch it', it.next = .ok (some (batch, it')) ∧ Listed scene it' (batches ++ [batch]) ∧
      it'.remaining < it.remaining := by
  rcases h.mergeable.next h.covers with ⟨hnext, hnil⟩ | ⟨batch, it', kind, limit, hnext, htakes, hle⟩
  · refine Or.inl ⟨hnext, ⟨fun kind => ?_, h.nonempty, h.ordered, h.textures⟩⟩
    have hcount := h.count kind
    rw [hnil, length_nil, Nat.add_zero] at hcount
    rw [h.indices, hcount]
  · obtain ⟨kind', limit', htake⟩ := next_takeKind hnext
    -- the kind of the batch is the kind of the primitives that were taken
    obtain ⟨p, hp⟩ := exists_mem_of_ne_nil _ htakes.nonempty
    have hmem : p ∈ it.rest kind := by
      rw [htakes.split]
      exact mem_append_left _ hp
    obtain rfl : kind' = kind := by
      rw [← kind_of_takeKind htake, ← Scene.kind_of_mem_primitivesOf hp, kind_of_mem_rest hmem]
    have hrange := takeKind_range h.covers (ne_nil_of_mem hmem) htake
    exact Or.inr ⟨batch, it', hnext, h.takes htakes hrange hle, htakes.remaining_lt⟩

end BatchIterator

/-- Every primitive of a scene is drawn by a faithful merge. -/
theorem FaithfulMerge.mem {scene : Scene U S} {batches : List PrimitiveBatch}
    (h : FaithfulMerge scene batches) {kind : PrimitiveKind} (hp : p ∈ scene.ofKind kind) :
    p ∈ batches.flatMap scene.primitivesOf := by
  obtain ⟨i, hi, rfl⟩ := getElem_of_mem hp
  have hindex : i ∈ List.range (scene.ofKind kind).length := mem_range.2 hi
  rw [← h.enumerates kind] at hindex
  obtain ⟨batch, hbatch, hnamed⟩ := mem_flatMap.1 hindex
  obtain ⟨hmem, hkind⟩ := mem_filter.1 hbatch
  obtain rfl : batch.kind = kind := of_decide_eq_true hkind
  refine mem_flatMap.2 ⟨batch, hmem, ?_⟩
  obtain ⟨hstart, hstop⟩ := mem_range'_1.1 hnamed
  rw [Scene.primitivesOf_eq, Scene.slice, mem_take_iff_getElem]
  refine ⟨i - batch.start, ?_, ?_⟩
  · rw [length_drop]
    omega
  · simp only [getElem_drop]
    congr 1
    omega

namespace Scene

/-- **The batches are a faithful merge** of the vectors of a finished scene in which no
    primitive but a shadow has the order of the sentinel. -/
theorem batches_faithful (scene : Scene U S) (hsentinel : scene.finish.NoSentinel) :
    ∃ batches, scene.finish.batches = .ok batches ∧ FaithfulMerge scene.finish batches := by
  have hstart : BatchIterator.Listed scene.finish scene.finish.batchIterator [] := by
    refine ⟨covers_batchIterator _, ⟨?_, ?_⟩, ?_, ?_, by simp, by simp, by simp, by simp⟩
    · intro kind
      rw [rest_batchIterator]
      exact (scene.finish_spec kind).2
    · intro kind
      rw [rest_batchIterator]
      exact hsentinel kind
    · intro kind
      rw [rest_batchIterator]
      cases kind <;> exact Nat.zero_add _
    · intro kind
      cases kind <;> rfl
  have hrun : Returns (FaithfulMerge scene.finish) scene.finish.batches := by
    unfold batches
    refine Exec.loop_returns (fun st => BatchIterator.Listed scene.finish st.1 st.2)
      (fun st => st.1.remaining) ?_ _ _ hstart (Nat.lt_succ_self _)
    rintro ⟨it, batches⟩ hlisted
    rcases hlisted.next with ⟨hnext, hfaithful⟩ | ⟨batch, it', hnext, hlisted', hlt⟩
    · refine ⟨.done batches, ?_, hfaithful⟩
      simp only [BatchIterator.batchesBody, hnext, Exec.ok_bind]
    · refine ⟨.again (it', batches ++ [batch]), ?_, hlisted', hlt⟩
      simp only [BatchIterator.batchesBody, hnext, Exec.ok_bind]
  exact hrun

/-- Quads below and above a shadow and two glyphs of different textures. -/
def glyphs : Scene ℤ Unit := { default with
  quads := [⟨3, pixel, pixel, ()⟩, ⟨1, pixel, pixel, ()⟩, ⟨1, pixel, pixel, ()⟩]
  shadows := [⟨2, pixel, pixel, ()⟩]
  monochromeSprites := [⟨2, pixel, pixel, ⟨⟨1, .monochrome⟩, 5⟩, ()⟩,
    ⟨2, pixel, pixel, ⟨⟨0, .monochrome⟩, 4⟩, ()⟩] }

theorem batches_faithful_glyphs :
    ∃ batches, glyphs.finish.batches = .ok batches ∧ FaithfulMerge glyphs.finish batches ∧
      batches = [.quads 0 2, .shadows 0 1, .monochromeSprites ⟨0, .monochrome⟩ 0 1,
        .monochromeSprites ⟨1, .monochrome⟩ 1 2, .quads 2 3] := by
  have hsentinel : glyphs.finish.NoSentinel := by
    intro kind
    cases kind <;> decide +kernel
  obtain ⟨batches, hbatches, hfaithful⟩ := batches_faithful glyphs hsentinel
  refine ⟨batches, hbatches, hfaithful, ?_⟩
  have hrun : glyphs.finish.batches = .ok [.quads 0 2, .shadows 0 1,
      .monochromeSprites ⟨0, .monochrome⟩ 0 1, .monochromeSprites ⟨1, .monochrome⟩ 1 2,
      .quads 2 3] := by decide +kernel
  exact Except.ok.inj (hbatches.symm.trans hrun)

/-- Of `u32::MAX` quads on one pixel the last one is named by no batch. -/
theorem batches_sentinel :
    ∃ scene batches,
      Scene.default.build (List.replicate u32Max (.insertPrimitive (quadOn pixel))) = .ok scene ∧
      scene.finish.batches = .ok batches ∧ ¬ FaithfulMerge scene.finish batches := by
  obtain ⟨scene, _, _, _, q, hbuild, hshadows, -, hmem, hmax⟩ := exists_sentinel
  obtain ⟨drawn, hdrawn, hlt⟩ := drawn_lt_max hshadows
  obtain ⟨batches, hbatches, hdrawn⟩ := Exec.bind_eq_ok.1 hdrawn
  cases hdrawn
  refine ⟨scene, batches, hbuild, hbatches, fun hfaithful => ?_⟩
  have hq := hlt q (hfaithful.mem hmem)
  omega

end Scene

end Gpui
