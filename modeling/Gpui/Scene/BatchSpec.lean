import Gpui.Scene.Scene

/-! # Batches: the merge of the kinds

    Every batch takes primitives of one kind off the front, none of which belongs behind
    what the other kinds begin with.  So the batches together draw the primitives of all
    kinds, in the order of their draw orders, as long as no order is `u32::MAX`. -/

namespace Gpui

open List

open Exec (Returns loop ok_bind)

variable {U S : Type}

namespace Primitive

def kind : Primitive U S → PrimitiveKind
  | .shadow _           => .shadow
  | .quad _             => .quad
  | .path _             => .path
  | .underline _        => .underline
  | .monochromeSprite _ => .monochromeSprite
  | .subpixelSprite _   => .subpixelSprite
  | .polychromeSprite _ => .polychromeSprite
  | .surface _          => .surface

def order : Primitive U S → Nat
  | .shadow s           => s.order
  | .quad q             => q.order
  | .path p             => p.order
  | .underline u        => u.order
  | .monochromeSprite s => s.order
  | .subpixelSprite s   => s.order
  | .polychromeSprite s => s.order
  | .surface s          => s.order

/-- The order of the pairs of draw order and kind. -/
def NoLater (p q : Primitive U S) : Prop :=
  p.order < q.order ∨ p.order = q.order ∧ p.kind.rank ≤ q.kind.rank

end Primitive

/-- The primitives of a kind in a scene. -/
def Scene.ofKind (scene : Scene U S) : PrimitiveKind → List (Primitive U S)
  | .shadow           => scene.shadows.map .shadow
  | .quad             => scene.quads.map .quad
  | .path             => scene.paths.map .path
  | .underline        => scene.underlines.map .underline
  | .monochromeSprite => scene.monochromeSprites.map .monochromeSprite
  | .subpixelSprite   => scene.subpixelSprites.map .subpixelSprite
  | .polychromeSprite => scene.polychromeSprites.map .polychromeSprite
  | .surface          => scene.surfaces.map .surface

namespace KindIter

variable {P : Type}

/-- What a batch takes is a slice of the vector, and the rest goes on where it stops. -/
theorem take_spec {primitives tail : List P} {first : P} {iter : KindIter P} (more : P → Bool)
    (hcovers : primitives.drop iter.start = iter.rest) (hrest : iter.rest = first :: tail) :
    Scene.slice primitives iter.start (iter.take more).start = first :: tail.takeWhile more ∧
      iter.rest = (first :: tail.takeWhile more) ++ (iter.take more).rest ∧
      primitives.drop (iter.take more).start = (iter.take more).rest := by
  have htake : (tail.takeWhile more ++ tail.dropWhile more).take (tail.takeWhile more).length
      = tail.takeWhile more := take_left
  have hdrop : (tail.takeWhile more ++ tail.dropWhile more).drop (tail.takeWhile more).length
      = tail.dropWhile more := drop_left
  rw [takeWhile_append_dropWhile] at htake hdrop
  have hstop : (iter.take more).start = iter.start + (1 + (tail.takeWhile more).length) := by
    simp [take, hrest, Nat.add_assoc]
  have hleft : (iter.take more).rest = tail.dropWhile more := by simp [take, hrest]
  refine ⟨?_, ?_, ?_⟩
  · rw [Scene.slice, hstop, hcovers, hrest, Nat.add_sub_cancel_left, Nat.add_comm 1,
      take_succ_cons, htake]
  · rw [hleft, hrest, cons_append, takeWhile_append_dropWhile]
  · rw [hstop, ← drop_drop, hcovers, hrest, hleft, Nat.add_comm 1, drop_succ_cons,
      hdrop]

end KindIter

namespace BatchIterator

/-- The primitives of a kind that are left. -/
def rest (it : BatchIterator U S) : PrimitiveKind → List (Primitive U S)
  | .shadow           => it.shadows.rest.map .shadow
  | .quad             => it.quads.rest.map .quad
  | .path             => it.paths.rest.map .path
  | .underline        => it.underlines.rest.map .underline
  | .monochromeSprite => it.monochromeSprites.rest.map .monochromeSprite
  | .subpixelSprite   => it.subpixelSprites.rest.map .subpixelSprite
  | .polychromeSprite => it.polychromeSprites.rest.map .polychromeSprite
  | .surface          => it.surfaces.rest.map .surface

/-- The index the iterator has come to in a kind. -/
def start (it : BatchIterator U S) : PrimitiveKind → Nat
  | .shadow           => it.shadows.start
  | .quad             => it.quads.start
  | .path             => it.paths.start
  | .underline        => it.underlines.start
  | .monochromeSprite => it.monochromeSprites.start
  | .subpixelSprite   => it.subpixelSprites.start
  | .polychromeSprite => it.polychromeSprites.start
  | .surface          => it.surfaces.start

/-- The iterator stands in the scene's vectors. -/
def Covers (it : BatchIterator U S) (scene : Scene U S) : Prop :=
  ∀ kind, (scene.ofKind kind).drop (it.start kind) = it.rest kind

/-- A batch of a kind was taken. -/
structure Takes (scene : Scene U S) (it : BatchIterator U S) (kind : PrimitiveKind)
    (limit : Nat × PrimitiveKind) (batch : PrimitiveBatch) (it' : BatchIterator U S) :
    Prop where
  covers : it'.Covers scene
  split : it.rest kind = scene.primitivesOf batch ++ it'.rest kind
  others : ∀ k, k ≠ kind → it'.rest k = it.rest k
  nonempty : scene.primitivesOf batch ≠ []
  before : ∀ p ∈ (scene.primitivesOf batch).tail, isBefore p.order kind limit = true

variable {scene : Scene U S} {it it' : BatchIterator U S} {kind : PrimitiveKind}
  {limit : Nat × PrimitiveKind} {batch : PrimitiveBatch}

/-- All kinds are taken from in the same way. -/
theorem Takes.of_take {P : Type} {primitives : List P} {iter : KindIter P} {more : P → Bool}
    {draw : P → Primitive U S} (hdraw : Function.Injective draw) (hcovers : it.Covers scene)
    (hne : it.rest kind ≠ []) (hscene : scene.ofKind kind = primitives.map draw)
    (hrest : it.rest kind = iter.rest.map draw) (hstart : it.start kind = iter.start)
    (hrest' : it'.rest kind = (iter.take more).rest.map draw)
    (hstart' : it'.start kind = (iter.take more).start) (hbatch : scene.primitivesOf batch
      = (Scene.slice primitives iter.start (iter.take more).start).map draw)
    (hmore : ∀ p, more p = true → isBefore (draw p).order kind limit = true)
    (hothers : ∀ k, k ≠ kind → it'.rest k = it.rest k ∧ it'.start k = it.start k) :
    Takes scene it kind limit batch it' := by
  have hprimitives : primitives.drop iter.start = iter.rest := by
    have hkind := hcovers kind
    rw [hscene, hrest, hstart, ← map_drop] at hkind
    exact map_injective_iff.2 hdraw hkind
  have hne : iter.rest ≠ [] := by
    intro hnil
    rw [hrest, hnil] at hne
    exact hne rfl
  obtain ⟨first, tail, hfirst⟩ := exists_cons_of_ne_nil hne
  obtain ⟨hslice, hsplit, hdrop⟩ := KindIter.take_spec more hprimitives hfirst
  rw [hslice] at hbatch
  constructor
  · intro k
    by_cases hk : k = kind
    · subst hk
      rw [hscene, hstart', hrest', ← map_drop, hdrop]
    · rw [(hothers k hk).1, (hothers k hk).2]
      exact hcovers k
  · rw [hrest, hbatch, hrest', ← map_append, ← hsplit]
  · exact fun k hk => (hothers k hk).1
  · rw [hbatch]
    simp
  · rw [hbatch, map_cons, tail_cons]
    intro p hp
    obtain ⟨q, hq, rfl⟩ := mem_map.1 hp
    exact hmore q (mem_takeWhile_imp hq)

theorem takeSprites_spec {sprites : KindIter (Sprite U S)} (kind : PrimitiveKind)
    (limit : Nat × PrimitiveKind) (hne : sprites.rest ≠ []) :
    ∃ textureId, takeSprites sprites kind limit = .ok (sprites.take
      (fun sprite => isBefore sprite.order kind limit && sprite.tile.textureId == textureId),
      textureId) := by
  obtain ⟨sprite, rest, hrest⟩ := exists_cons_of_ne_nil hne
  unfold takeSprites
  rw [hrest]
  exact ⟨_, rfl⟩

/-- A batch of a kind that has primitives left. -/
theorem takeKind_spec (limit : Nat × PrimitiveKind) (hcovers : it.Covers scene)
    (hne : it.rest kind ≠ []) :
    ∃ batch it', it.takeKind kind limit = .ok (batch, it') ∧
      Takes scene it kind limit batch it' := by
  have hsprites : ∀ {sprites : List (Sprite U S)} {draw : Sprite U S → Primitive U S},
      sprites.map draw ≠ [] → sprites ≠ [] := by
    intro sprites draw hmap hnil
    rw [hnil] at hmap
    exact hmap rfl
  have htexture : ∀ {p : Sprite U S} {textureId : AtlasTextureId},
      (isBefore p.order kind limit && p.tile.textureId == textureId) = true →
        isBefore p.order kind limit = true := by
    intro p textureId hp
    rw [Bool.and_eq_true] at hp
    exact hp.1
  have htake : ∀ {sprites : KindIter (Sprite U S)}, sprites.rest ≠ [] → _ :=
    fun hleft => takeSprites_spec kind limit hleft
  cases kind with
  | shadow | quad | path | underline | surface =>
    refine ⟨_, _, rfl, Takes.of_take (fun _ _ h => by injection h) hcovers hne rfl rfl rfl rfl rfl
      rfl (fun _ hp => hp) ?_⟩
    intro k hk
    cases k <;> first | exact absurd rfl hk | exact ⟨rfl, rfl⟩
  | monochromeSprite | subpixelSprite | polychromeSprite =>
    obtain ⟨textureId, htake⟩ := htake (hsprites hne)
    refine ⟨_, _, by rw [takeKind, htake]; rfl, Takes.of_take (fun _ _ h => by injection h)
      hcovers hne rfl rfl rfl rfl rfl rfl (fun _ hp => htexture hp) ?_⟩
    intro k hk
    cases k <;> first | exact absurd rfl hk | exact ⟨rfl, rfl⟩

/-! ## The next kind -/

instance : Std.Total NoLater where
  total a b := by
    unfold NoLater
    omega

instance : IsTrans (Option Nat × PrimitiveKind) NoLater where
  trans a b c hab hbc := by
    unfold NoLater at hab hbc ⊢
    omega

theorem mem_ordersAndKinds {entry : Option Nat × PrimitiveKind} :
    entry ∈ it.ordersAndKinds ↔ entry.1 = (it.rest entry.2).head?.map Primitive.order := by
  obtain ⟨order, kind⟩ := entry
  cases kind <;>
    simp [ordersAndKinds, rest, head?_map, Function.comp_def, Primitive.order]

/-- The first two kinds: no other kind comes before the second one. -/
theorem sortKinds_spec (it : BatchIterator U S) :
    ∃ first second rest, sortKinds it.ordersAndKinds = first :: second :: rest ∧
      first ∈ it.ordersAndKinds ∧ NoLater first second ∧
      ∀ entry ∈ it.ordersAndKinds, entry.2 ≠ first.2 → NoLater second entry := by
  have hlength : (sortKinds it.ordersAndKinds).length = 8 := length_insertionSort _ _
  have hmem : ∀ entry, entry ∈ sortKinds it.ordersAndKinds ↔ entry ∈ it.ordersAndKinds :=
    fun entry => mem_insertionSort _
  have hsorted : (sortKinds it.ordersAndKinds).Pairwise NoLater :=
    pairwise_insertionSort _ _
  generalize sortKinds it.ordersAndKinds = sorted at *
  match sorted with
  | first :: second :: rest =>
    obtain ⟨hfirst, hsecond⟩ := pairwise_cons.1 hsorted
    refine ⟨first, second, rest, rfl, (hmem first).1 mem_cons_self,
      hfirst second mem_cons_self, ?_⟩
    intro entry hentry hne
    rcases mem_cons.1 ((hmem entry).2 hentry) with rfl | hrest
    · exact absurd rfl hne
    · rcases mem_cons.1 hrest with rfl | hrest
      · exact Or.inr ⟨rfl, Nat.le_refl _⟩
      · exact (pairwise_cons.1 hsecond).1 entry hrest

theorem kind_of_mem_rest {p : Primitive U S} (h : p ∈ it.rest kind) : p.kind = kind := by
  cases kind <;>
  · obtain ⟨_, _, rfl⟩ := mem_map.1 h
    rfl

/-- A turn of the iterator: it ends when the first kind has nothing left, and takes a
    batch of the first kind else. -/
theorem next_spec (hcovers : it.Covers scene) :
    ∃ first second, first.1 = (it.rest first.2).head?.map Primitive.order ∧
      NoLater first second ∧
      (∀ k, k ≠ first.2 → NoLater second ((it.rest k).head?.map Primitive.order, k)) ∧
      ((first.1 = none ∧ it.next = .ok none) ∨
        ∃ batch it', it.next = .ok (some (batch, it')) ∧
          Takes scene it first.2 (second.1.getD u32Max, second.2) batch it' ∧
          ∀ p ∈ scene.primitivesOf batch, NoLater (some p.order, first.2) second) := by
  obtain ⟨first, second, rest, hsort, hfirst, hle, hothers⟩ := sortKinds_spec it
  have hfirst := mem_ordersAndKinds.1 hfirst
  refine ⟨first, second, hfirst, hle, fun k hk => hothers _ (mem_ordersAndKinds.2 rfl) hk, ?_⟩
  unfold next
  rw [hsort]
  simp only [getIndex, getElem?_cons_zero, getElem?_cons_succ, ok_bind]
  cases horder : first.1 with
  | none => exact Or.inl ⟨rfl, rfl⟩
  | some order =>
    right
    rw [horder] at hfirst
    have hne : it.rest first.2 ≠ [] := by
      intro hnil
      rw [hnil] at hfirst
      cases hfirst
    obtain ⟨batch, it', htake, htakes⟩ :=
      takeKind_spec (second.1.getD u32Max, second.2) hcovers hne
    refine ⟨batch, it', ?_, htakes, ?_⟩
    · simp only [Option.isSome_some, if_true, htake, ok_bind]
    · intro p hp
      -- the head of the batch is the head of the kind
      obtain ⟨head, tail, hbatch⟩ := exists_cons_of_ne_nil htakes.nonempty
      rw [hbatch] at hp
      rcases mem_cons.1 hp with rfl | hp
      · rw [htakes.split, hbatch] at hfirst
        have hsame : order = p.order := Option.some.inj hfirst
        rw [NoLater, horder, hsame] at hle
        exact hle
      · have hbefore := htakes.before p (by rw [hbatch]; exact hp)
        simp only [isBefore, Bool.or_eq_true, Bool.and_eq_true, decide_eq_true_eq,
          beq_iff_eq] at hbefore
        unfold NoLater
        simp only [Option.getD_some]
        omega

/-! ## The merge -/

/-- The kinds are sorted, and no order is the one of a kind with nothing left. -/
structure Ready (it : BatchIterator U S) : Prop where
  sorted : ∀ kind, (it.rest kind).Pairwise (fun a b => a.order ≤ b.order)
  lt_max : ∀ kind, ∀ p ∈ it.rest kind, p.order < u32Max

/-- The kinds are sorted, and only shadows may have the order of an exhausted kind. -/
structure Mergeable (it : BatchIterator U S) : Prop where
  sorted : ∀ kind, (it.rest kind).Pairwise (fun a b => a.order ≤ b.order)
  noSentinel : ∀ kind, ∀ p ∈ it.rest kind,
    p.order ≤ u32Max ∧ (kind ≠ .shadow → p.order ≠ u32Max)

theorem Ready.mergeable (h : it.Ready) : it.Mergeable :=
  ⟨h.sorted, fun kind p hp => ⟨(h.lt_max kind p hp).le, fun _ => (h.lt_max kind p hp).ne⟩⟩

theorem Takes.sublist (h : Takes scene it kind limit batch it') (k : PrimitiveKind) :
    (it'.rest k).Sublist (it.rest k) := by
  by_cases hk : k = kind
  · subst hk
    rw [h.split]
    exact sublist_append_right _ _
  · rw [h.others k hk]

theorem Takes.ready (h : Takes scene it kind limit batch it') (hready : it.Ready) :
    it'.Ready :=
  ⟨fun k => (hready.sorted k).sublist (h.sublist k),
    fun k p hp => hready.lt_max k p ((h.sublist k).subset hp)⟩

theorem Takes.mergeable (h : Takes scene it kind limit batch it') (hmergeable : it.Mergeable) :
    it'.Mergeable :=
  ⟨fun k => (hmergeable.sorted k).sublist (h.sublist k),
    fun k p hp => hmergeable.noSentinel k p ((h.sublist k).subset hp)⟩

theorem Mergeable.head_le (h : it.Mergeable) {p : Primitive U S} (hp : p ∈ it.rest kind) :
    ∃ head, (it.rest kind).head? = some head ∧ head.order ≤ p.order := by
  have hsorted := h.sorted kind
  cases hrest : it.rest kind with
  | nil =>
    rw [hrest] at hp
    cases hp
  | cons head tail =>
    rw [hrest] at hp hsorted
    refine ⟨head, rfl, ?_⟩
    rcases mem_cons.1 hp with rfl | hp
    · exact Nat.le_refl _
    · exact (pairwise_cons.1 hsorted).1 p hp

/-- A turn of the merge: it ends when nothing is left, and takes primitives that come
    before all others else. -/
theorem Mergeable.next (h : it.Mergeable) (hcovers : it.Covers scene) :
    (it.next = .ok none ∧ ∀ k, it.rest k = []) ∨
    ∃ batch it' kind limit, it.next = .ok (some (batch, it')) ∧
      Takes scene it kind limit batch it' ∧
      ∀ p ∈ scene.primitivesOf batch, ∀ k, ∀ q ∈ it'.rest k, p.NoLater q := by
  obtain ⟨first, second, hfirst, hle, hothers, hnext⟩ := next_spec hcovers
  rcases hnext with ⟨hnone, hnext⟩ | ⟨batch, it', hnext, htakes, hbatch⟩
  · refine Or.inl ⟨hnext, ?_⟩
    intro k
    rw [eq_nil_iff_forall_not_mem]
    intro p hp
    obtain ⟨head, hhead, _⟩ := h.head_le hp
    obtain ⟨hmax, hother⟩ := h.noSentinel k head (mem_of_head? hhead)
    by_cases hk : k = first.2
    · rw [hnone, ← hk, hhead] at hfirst
      cases hfirst
    · -- the first kind would be no first one
      have hsecond := hothers k hk
      rw [hhead] at hsecond
      simp only [BatchIterator.NoLater, hnone, Option.getD_none, Option.map_some,
        Option.getD_some] at hle hsecond
      by_cases hkind : k = .shadow
      · -- no other kind comes before the shadows at the order of the sentinel
        have hrank : PrimitiveKind.rank .shadow = 0 := rfl
        have hpos : 0 < first.2.rank := by
          subst hkind
          cases hfirstKind : first.2 with
          | shadow => exact absurd hfirstKind.symm hk
          | _ => decide
        rw [hkind, hrank] at hsecond
        omega
      · have hne := hother hkind
        omega
  · refine Or.inr ⟨batch, it', first.2, _, hnext, htakes, ?_⟩
    intro p hp k q hq
    have hpKind : p.kind = first.2 := by
      have hmem : p ∈ it.rest first.2 := by
        rw [htakes.split]
        exact mem_append_left _ hp
      exact kind_of_mem_rest hmem
    unfold Primitive.NoLater
    by_cases hk : k = first.2
    · subst hk
      have hsorted := h.sorted first.2
      rw [htakes.split] at hsorted
      have hle := (pairwise_append.1 hsorted).2.2 p hp q hq
      rw [hpKind, kind_of_mem_rest hq]
      omega
    · rw [htakes.others k hk] at hq
      obtain ⟨head, hhead, hheadLe⟩ := h.head_le hq
      have hsecond := hothers k hk
      have hbefore := hbatch p hp
      rw [hhead] at hsecond
      rw [hpKind, kind_of_mem_rest hq]
      simp only [BatchIterator.NoLater, Option.map_some, Option.getD_some] at hbefore hsecond
      omega

/-- A turn of a sorted iterator, as far as the draw orders go. -/
theorem Ready.next (h : it.Ready) (hcovers : it.Covers scene) :
    (it.next = .ok none ∧ ∀ k, it.rest k = []) ∨
    ∃ batch it' kind limit, it.next = .ok (some (batch, it')) ∧
      Takes scene it kind limit batch it' ∧
      ∀ p ∈ scene.primitivesOf batch, ∀ k, ∀ q ∈ it'.rest k, p.order ≤ q.order := by
  rcases h.mergeable.next hcovers with hend | ⟨batch, it', kind, limit, hnext, htakes, hle⟩
  · exact Or.inl hend
  · refine Or.inr ⟨batch, it', kind, limit, hnext, htakes, fun p hp k q hq => ?_⟩
    rcases hle p hp k q hq with hlt | ⟨heq, -⟩
    · exact hlt.le
    · exact heq.le

theorem remaining_eq (it : BatchIterator U S) : it.remaining =
    (it.rest .shadow).length + (it.rest .quad).length + (it.rest .path).length
      + (it.rest .underline).length + (it.rest .monochromeSprite).length
      + (it.rest .subpixelSprite).length + (it.rest .polychromeSprite).length
      + (it.rest .surface).length := by
  simp [remaining, rest]

theorem Takes.remaining_lt (h : Takes scene it kind limit batch it') :
    it'.remaining < it.remaining := by
  have hlt : (it'.rest kind).length < (it.rest kind).length := by
    have hpos := length_pos_of_ne_nil h.nonempty
    rw [h.split, length_append]
    omega
  have hothers : ∀ k, (it'.rest k).length ≤ (it.rest k).length := by
    intro k
    by_cases hk : k = kind
    · subst hk
      exact hlt.le
    · rw [h.others k hk]
  have h1 := hothers .shadow
  have h2 := hothers .quad
  have h3 := hothers .path
  have h4 := hothers .underline
  have h5 := hothers .monochromeSprite
  have h6 := hothers .subpixelSprite
  have h7 := hothers .polychromeSprite
  have h8 := hothers .surface
  rw [remaining_eq, remaining_eq]
  cases kind <;> omega

/-- The batches so far draw what the iterator has left behind, in order. -/
structure Merged (scene : Scene U S) (it : BatchIterator U S) (drawn : List (Primitive U S)) :
    Prop where
  covers : it.Covers scene
  ready : it.Ready
  sorted : drawn.Pairwise (fun a b => a.order ≤ b.order)
  le_rest : ∀ p ∈ drawn, ∀ kind, ∀ q ∈ it.rest kind, p.order ≤ q.order
  whole : ∀ kind, drawn.filter (fun p => p.kind = kind) ++ it.rest kind = scene.ofKind kind

theorem Merged.takes {drawn : List (Primitive U S)} (h : Merged scene it drawn)
    (htakes : Takes scene it kind limit batch it')
    (hle : ∀ p ∈ scene.primitivesOf batch, ∀ k, ∀ q ∈ it'.rest k, p.order ≤ q.order) :
    Merged scene it' (drawn ++ scene.primitivesOf batch) := by
  have hmem : ∀ p ∈ scene.primitivesOf batch, p ∈ it.rest kind := by
    intro p hp
    rw [htakes.split]
    exact mem_append_left _ hp
  have hsorted := h.ready.sorted kind
  rw [htakes.split] at hsorted
  constructor
  · exact htakes.covers
  · exact htakes.ready h.ready
  · exact pairwise_append.2 ⟨h.sorted, (pairwise_append.1 hsorted).1,
      fun p hp q hq => h.le_rest p hp kind q (hmem q hq)⟩
  · intro p hp k q hq
    rcases mem_append.1 hp with hp | hp
    · by_cases hk : k = kind
      · subst hk
        apply h.le_rest p hp k q
        rw [htakes.split]
        exact mem_append_right _ hq
      · rw [htakes.others k hk] at hq
        exact h.le_rest p hp k q hq
    · exact hle p hp k q hq
  · intro k
    rw [filter_append, ← h.whole k]
    by_cases hk : k = kind
    · subst hk
      have hall : (scene.primitivesOf batch).filter (fun p => p.kind = k)
          = scene.primitivesOf batch :=
        filter_eq_self.2 fun p hp => by simp [kind_of_mem_rest (hmem p hp)]
      rw [hall, htakes.split, append_assoc]
    · have hnone : (scene.primitivesOf batch).filter (fun p => p.kind = k) = [] := by
        rw [filter_eq_nil_iff]
        intro p hp
        rw [kind_of_mem_rest (hmem p hp)]
        simpa using Ne.symm hk
      rw [hnone, append_nil, htakes.others k hk]

end BatchIterator

namespace Scene

variable {scene : Scene U S}

theorem covers_batchIterator (scene : Scene U S) : scene.batchIterator.Covers scene := by
  intro kind
  cases kind <;> rfl

theorem rest_batchIterator (scene : Scene U S) (kind : PrimitiveKind) :
    scene.batchIterator.rest kind = scene.ofKind kind := by
  cases kind <;> rfl

/-- **The batches draw everything, in order**: when the kinds are sorted and no order is
    `u32::MAX`, the batches draw the primitives of each kind as they stand in the scene, and
    all of them in the order of their draw orders. -/
theorem drawn_spec (hsorted : ∀ kind, (scene.ofKind kind).Pairwise (fun a b => a.order ≤ b.order))
    (hlt : ∀ kind, ∀ p ∈ scene.ofKind kind, p.order < u32Max) :
    ∃ drawn, scene.drawn = .ok drawn ∧ drawn.Pairwise (fun a b => a.order ≤ b.order) ∧
      ∀ kind, drawn.filter (fun p => p.kind = kind) = scene.ofKind kind := by
  have hstart : BatchIterator.Merged scene scene.batchIterator [] := by
    refine ⟨scene.covers_batchIterator, ⟨?_, ?_⟩, List.Pairwise.nil, ?_, ?_⟩
    · intro kind
      exact hsorted kind
    · intro kind
      exact hlt kind
    · exact fun p hp => by cases hp
    · intro kind
      rfl
  have hrun : Returns (fun batches => ∃ it, (∀ kind, BatchIterator.rest it kind = []) ∧
      BatchIterator.Merged scene it (batches.flatMap scene.primitivesOf)) scene.batches := by
    refine Exec.loop_returns
      (fun st => BatchIterator.Merged scene st.1 (st.2.flatMap scene.primitivesOf))
      (fun st => st.1.remaining) ?_ _ _ hstart (Nat.lt_succ_self _)
    intro st hst
    obtain ⟨it, batches⟩ := st
    rcases hst.ready.next hst.covers with ⟨hnext, hnil⟩ | ⟨batch, it', _, _, hnext, htakes, hle⟩
    · refine ⟨.done batches, ?_, it, hnil, hst⟩
      simp only [BatchIterator.batchesBody, hnext, ok_bind]
    · refine ⟨.again (it', batches ++ [batch]), ?_, ?_, htakes.remaining_lt⟩
      · simp only [BatchIterator.batchesBody, hnext, ok_bind]
      · have hmerged := hst.takes htakes hle
        simpa using hmerged
  obtain ⟨batches, hbatches, it, hnil, hmerged⟩ := hrun
  refine ⟨batches.flatMap scene.primitivesOf, ?_, hmerged.sorted, ?_⟩
  · simp only [drawn, hbatches, ok_bind]
  · intro kind
    have hwhole := hmerged.whole kind
    rw [hnil, append_nil] at hwhole
    exact hwhole

/-- In a scene without shadows no primitive of the order `u32::MAX` is drawn: it would come
    after the kind `Shadow`, which has nothing left. -/
theorem drawn_lt_max (hshadows : scene.shadows = []) :
    ∃ drawn, scene.drawn = .ok drawn ∧ ∀ p ∈ drawn, p.order < u32Max := by
  have hrun : Returns (fun batches => ∀ p ∈ batches.flatMap scene.primitivesOf,
      p.order < u32Max) scene.batches := by
    refine Exec.loop_returns (fun st => st.1.Covers scene ∧ st.1.rest .shadow = [] ∧
      ∀ p ∈ st.2.flatMap scene.primitivesOf, p.order < u32Max) (fun st => st.1.remaining)
      ?_ _ _ ?_ (Nat.lt_succ_self _)
    · intro st hst
      obtain ⟨it, batches⟩ := st
      obtain ⟨hcovers, hshadow, hdrawn⟩ := hst
      obtain ⟨first, second, hfirst, hle, hothers, hnext⟩ := it.next_spec hcovers
      rcases hnext with ⟨_, hnext⟩ | ⟨batch, it', hnext, htakes, hbatch⟩
      · refine ⟨.done batches, ?_, hdrawn⟩
        simp only [BatchIterator.batchesBody, hnext, ok_bind]
      · have hkind : .shadow ≠ first.2 := by
          intro heq
          have hsplit := htakes.split
          rw [← heq, hshadow] at hsplit
          exact htakes.nonempty (append_eq_nil_iff.1 hsplit.symm).1
        -- the second kind comes no later than `Shadow`
        have hsecond := hothers .shadow hkind
        have hshadowRank : PrimitiveKind.shadow.rank = 0 := rfl
        have hrank : 0 < first.2.rank := by
          cases hfirstKind : first.2 with
          | shadow => exact absurd hfirstKind.symm hkind
          | _ => decide
        refine ⟨.again (it', batches ++ [batch]), ?_,
          ⟨htakes.covers, by rw [htakes.others _ hkind, hshadow], ?_⟩, htakes.remaining_lt⟩
        · simp only [BatchIterator.batchesBody, hnext, ok_bind]
        · intro p hp
          rw [flatMap_append, mem_append, flatMap_singleton] at hp
          rcases hp with hp | hp
          · exact hdrawn p hp
          · have hbefore := hbatch p hp
            rw [hshadow] at hsecond
            simp only [BatchIterator.NoLater, Option.getD_some, Option.getD_none, head?_nil,
              Option.map_none, hshadowRank] at hbefore hsecond
            omega
    · refine ⟨scene.covers_batchIterator, ?_, fun p hp => by cases hp⟩
      rw [rest_batchIterator, ofKind, hshadows, map_nil]
  obtain ⟨batches, hbatches, hlt⟩ := hrun
  refine ⟨batches.flatMap scene.primitivesOf, ?_, hlt⟩
  simp only [drawn, hbatches, ok_bind]

theorem pairwise_sortByOrder {P : Type} (order : P → Nat) (primitives : List P) :
    (primitives.insertionSort (fun a b => order a ≤ order b)).Pairwise
      (fun a b => order a ≤ order b) := by
  exact pairwise_insertionSort _ primitives

theorem pairwise_sortSprites (sprites : List (Sprite U S)) :
    (sortSprites sprites).Pairwise (fun a b => a.order ≤ b.order) := by
  have htotal : Std.Total (fun a b : Sprite U S =>
      a.order < b.order ∨ a.order = b.order ∧ a.tile.tileId ≤ b.tile.tileId) :=
    ⟨fun a b => by omega⟩
  have htrans : IsTrans (Sprite U S) (fun a b =>
      a.order < b.order ∨ a.order = b.order ∧ a.tile.tileId ≤ b.tile.tileId) :=
    ⟨fun a b c hab hbc => by omega⟩
  apply (pairwise_insertionSort _ sprites).imp
  intro a b hab
  omega

/-- `finish` sorts each kind. -/
theorem finish_spec (scene : Scene U S) (kind : PrimitiveKind) :
    (scene.finish.ofKind kind).Perm (scene.ofKind kind) ∧
      (scene.finish.ofKind kind).Pairwise (fun a b => a.order ≤ b.order) := by
  cases kind with
  | monochromeSprite | subpixelSprite | polychromeSprite =>
    exact ⟨(perm_insertionSort _ _).map _, pairwise_map.2 (pairwise_sortSprites _)⟩
  | path =>
    exact ⟨(perm_insertionSort _ _).map _,
      pairwise_map.2 (pairwise_sortByOrder Scene.Path.order _)⟩
  | shadow | quad | underline | surface =>
    exact ⟨(perm_insertionSort _ _).map _,
      pairwise_map.2 (pairwise_sortByOrder Shape.order _)⟩

end Scene

end Gpui
