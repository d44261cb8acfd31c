import Gpui.SumTree.SliceSpec
import Gpui.SumTree.BackwardSpec
import Gpui.SumTree.MapKey

/-! # SumTree: reachable trees

    The trees that any sequence of operations can build, cursors on such trees
    included, and the representation invariant that all of them keep. -/

set_option linter.unusedSectionVars false

namespace Gpui

open Exec (Returns Ensures)

variable {T S : Type} [Summary S] [Item T S]

/-! ## Reachable cursors and trees -/

/-- The states of a cursor over `D` on the tree `t`. -/
inductive Visits (t : SumTree T S) {D : Type} [Dimension D S] : Cursor T S D → Prop where
  | new : Visits t (.new t)
  | reset {c : Cursor T S D} : Visits t c → Visits t c.reset
  | seek {c c' : Cursor T S D} {target : SeekTarget D} {bias : Bias} {found : Bool} :
      Visits t c → c.seek target bias = .ok (c', found) → Visits t c'
  | seekForward {c c' : Cursor T S D} {target : SeekTarget D} {bias : Bias} {found : Bool} :
      Visits t c → c.seekForward target bias = .ok (c', found) → Visits t c'
  | next {c c' : Cursor T S D} : Visits t c → c.next = .ok c' → Visits t c'
  | prev {c c' : Cursor T S D} : Visits t c → c.prev = .ok c' → Visits t c'
  | slice {c c' : Cursor T S D} {target : SeekTarget D} {bias : Bias} {r : SumTree T S} :
      Visits t c → c.slice target bias = .ok (c', r) → Visits t c'
  | suffix {c c' : Cursor T S D} {r : SumTree T S} :
      Visits t c → c.suffix = .ok (c', r) → Visits t c'
  | summary {c c' : Cursor T S D} {target : SeekTarget D} {bias : Bias} {O : Type}
      [Dimension O S] {o : O} :
      Visits t c → c.summary O target bias = .ok (c', o) → Visits t c'

/-- The trees that the operations can build. -/
inductive Reachable : SumTree T S → Prop where
  | new : Reachable .new
  | fromItem {x : T} {t : SumTree T S} : SumTree.fromItem x = .ok t → Reachable t
  | fromIter {l : List T} {t : SumTree T S} : SumTree.fromIter l = .ok t → Reachable t
  | fromParIter {l : List T} {t : SumTree T S} : SumTree.fromParIter l = .ok t → Reachable t
  | push {t r : SumTree T S} {x : T} : Reachable t → t.push x = .ok r → Reachable r
  | append {t u r : SumTree T S} : Reachable t → Reachable u → t.append u = .ok r → Reachable r
  | extend {t r : SumTree T S} {l : List T} : Reachable t → t.extend l = .ok r → Reachable r
  | parExtend {t r : SumTree T S} {l : List T} :
      Reachable t → t.parExtend l = .ok r → Reachable r
  | updateFirst {t r : SumTree T S} {f : T → T} :
      Reachable t → t.updateFirst f = .ok r → Reachable r
  | updateLast {t r : SumTree T S} {f : T → T} :
      Reachable t → t.updateLast f = .ok r → Reachable r
  | slice {t r : SumTree T S} {D : Type} [Dimension D S] {c c' : Cursor T S D}
      {target : SeekTarget D} {bias : Bias} :
      Reachable t → Visits t c → c.slice target bias = .ok (c', r) → Reachable r
  | suffix {t r : SumTree T S} {D : Type} [Dimension D S] {c c' : Cursor T S D} :
      Reachable t → Visits t c → c.suffix = .ok (c', r) → Reachable r

/-! ## Reachable cursors -/

section Cursors

variable {D : Type} [Dimension D S] {root : SumTree T S} {c : Cursor T S D}

/-- Nothing is asked of the positions of a dimension that may not be additive. -/
abbrev Anywhere : List T → D → Prop := fun _ _ => True

/-- A cursor between two operations. -/
def Steady (root : SumTree T S) (c : Cursor T S D) : Prop :=
  (∃ before after, c.Standing Anywhere root before after) ∨ c.AtStart Anywhere root

theorem Steady.of_stopped {target : SeekTarget D} {bias : Bias} {before ahead mid after : List T}
    (stopped : c.Stopped Anywhere target bias root before ahead mid after) : Steady root c :=
  .inl ⟨_, _, .inr stopped.pos⟩

theorem Steady.of_atStart {c' : Cursor T S D} (pos : c.AtStart Anywhere root)
    (h : c' = { c with atEnd := true }) : Steady root c' := by
  subst h
  refine .inl ⟨root.toList, [], .inr ⟨pos.tree, pos.didSeek, rfl, ?_, trivial⟩⟩
  show Resting _ root c.stack _ _
  rw [pos.stack]
  exact .finished

variable {target : SeekTarget D} {bias : Bias}

theorem Steady.seekForward (hroot : root.WellFormed) (steady : Steady root c) :
    Ensures (fun r => Steady root r.1) (fun _ => True) (c.seekForward target bias) := by
  rcases steady with ⟨before, ahead, standing⟩ | pos
  · refine (Cursor.seekForward_spec Tracks.trivial hroot standing).imp ?_ (fun _ _ => trivial)
    rintro r ⟨mid, after, stopped, -⟩
    exact .of_stopped stopped
  · unfold Cursor.seekForward
    refine ((Cursor.seekInternal_of_atStart pos ()).imp (fun _ h => h)
      (fun _ _ => trivial)).bind ?_
    rintro ⟨c', _, found⟩ ⟨hc, -⟩
    exact .of_atStart pos hc

theorem Steady.summary {O : Type} [Dimension O S] (hroot : root.WellFormed)
    (steady : Steady root c) :
    Ensures (fun r => Steady root r.1) (fun _ => True) (c.summary O target bias) := by
  rcases steady with ⟨before, ahead, standing⟩ | pos
  · refine (Cursor.summary_spec_any Tracks.trivial hroot standing).imp ?_ (fun _ _ => trivial)
    rintro r ⟨mid, after, stopped⟩
    exact .of_stopped stopped
  · unfold Cursor.summary
    refine ((Cursor.seekInternal_of_atStart pos _).imp (fun _ h => h)
      (fun _ _ => trivial)).bind ?_
    rintro ⟨c', _, found⟩ ⟨hc, -⟩
    exact .of_atStart pos hc

/-- The ways a slice can fail. -/
def SliceFails (e : Panic) : Prop :=
  e = .cannotSeekBackward ∨ e = .stackFull ∨ e = .addOverflow

theorem Steady.slice [LawfulSummary S] (hroot : root.WellFormed) (steady : Steady root c) :
    Ensures (fun r => Steady root r.1 ∧ r.2.WellFormed) SliceFails (c.slice target bias) := by
  rcases steady with ⟨before, ahead, standing⟩ | pos
  · refine (Cursor.slice_spec Tracks.trivial hroot standing).imp ?_ ?_
    · rintro r ⟨mid, after, stopped, wf, -⟩
      exact ⟨.of_stopped stopped, wf⟩
    · rintro e (⟨he, -⟩ | ⟨he, -⟩ | ⟨he, -⟩)
      · exact .inl he
      · exact .inr (.inl he)
      · exact .inr (.inr he)
  · unfold Cursor.slice
    refine ((Cursor.seekInternal_of_atStart pos _).imp (fun _ h => h)
      (fun e he => .inl he.1)).bind ?_
    rintro ⟨c', a, found⟩ ⟨hc, ha⟩
    subst ha
    exact ⟨.of_atStart pos hc, .inl rfl⟩

theorem Steady.suffix [LawfulSummary S] (hroot : root.WellFormed) (steady : Steady root c) :
    Ensures (fun r => Steady root r.1 ∧ r.2.WellFormed) SliceFails c.suffix :=
  Steady.slice hroot steady

theorem Steady.next (hroot : root.WellFormed) (steady : Steady root c) :
    Ensures (fun c' => Steady root c') (fun _ => True) c.next := by
  have hleaving : ∃ start ahead, c.Leaving Anywhere root start ahead := by
    rcases steady with ⟨before, ahead, ⟨rfl, -, -⟩ | pos⟩ | pos
    · exact ⟨_, _, .new⟩
    · cases ahead with
      | nil =>
        have hitems := pos.items
        rw [List.append_nil] at hitems
        exact ⟨_, _, .finished (hitems ▸ pos)⟩
      | cons x ahead => exact ⟨_, _, .item pos⟩
    · exact ⟨_, _, .start pos⟩
  obtain ⟨start, ahead, leaving⟩ := hleaving
  refine (Cursor.searchForward_spec Tracks.trivial hroot prunes_true leaving).imp ?_
    (fun _ _ => trivial)
  rintro c' ⟨skipped, after, forwarded⟩
  exact .inl ⟨_, _, .inr forwarded.pos⟩

theorem Steady.prev (hroot : root.WellFormed) (steady : Steady root c) :
    Ensures (fun c' => Steady root c') (fun _ => True) c.prev := by
  have hreturning : ∃ behind ahead, c.Returning Anywhere root behind ahead := by
    rcases steady with ⟨before, ahead, ⟨rfl, -, -⟩ | pos⟩ | pos
    · exact ⟨_, _, .new⟩
    · exact ⟨_, _, .at pos⟩
    · exact ⟨_, _, .start pos⟩
  obtain ⟨behind, ahead, returning⟩ := hreturning
  refine (Cursor.searchBackward_spec Tracks.trivial hroot prunes_true returning).imp ?_
    (fun _ _ => trivial)
  rintro c' (⟨-, -, pos⟩ | ⟨-, pos⟩ | ⟨-, pos⟩)
  · exact .inl ⟨_, _, .inr pos⟩
  · exact .inr pos
  · exact .inl ⟨_, _, .inr pos⟩

theorem Steady.new : Steady root (Cursor.new root : Cursor T S D) :=
  .inl ⟨[], root.toList, .inl ⟨rfl, rfl, rfl⟩⟩

theorem Steady.tree (steady : Steady root c) : c.tree = root := by
  rcases steady with ⟨before, ahead, ⟨rfl, -, -⟩ | pos⟩ | pos
  · rfl
  · exact pos.tree
  · exact pos.tree

theorem Steady.reset (steady : Steady root c) : Steady root c.reset := by
  obtain rfl := steady.tree
  exact .new

/-- Every state of a cursor on a well-formed tree is a steady one. -/
theorem Visits.steady [LawfulSummary S] (hroot : root.WellFormed) (visits : Visits root c) :
    Steady root c := by
  induction visits with
  | new => exact .new
  | reset _ ih => exact ih.reset
  | seek _ h ih => exact (ih.reset.seekForward hroot).of_ok h
  | seekForward _ h ih => exact (ih.seekForward hroot).of_ok h
  | next _ h ih => exact (ih.next hroot).of_ok h
  | prev _ h ih => exact (ih.prev hroot).of_ok h
  | slice _ h ih => exact ((ih.slice hroot).of_ok h).1
  | suffix _ h ih => exact ((ih.suffix hroot).of_ok h).1
  | summary _ h ih => exact (ih.summary hroot).of_ok h

end Cursors

/-! ## Reachable trees are well formed -/

section Trees

variable [LawfulSummary S]

variable {t : SumTree T S} {h : Nat}

theorem Reachable.wellFormed (reach : Reachable t) : t.WellFormed := by
  induction reach with
  | new => exact .inl rfl
  | fromItem h => exact ((SumTree.fromItem_spec _).ensures (E := fun _ => False)).of_ok h |>.1
  | fromIter h => exact ((SumTree.fromIter_spec _).of_ok h).1
  | fromParIter h =>
    rw [SumTree.fromParIter_eq_fromIter] at h
    exact ((SumTree.fromIter_spec _).of_ok h).1
  | push _ h ih => exact ((SumTree.push_spec ih _).of_ok h).1
  | append _ _ h ih ih' => exact ((SumTree.append_spec ih ih').of_ok h).wf
  | extend _ h ih => exact ((SumTree.extend_spec ih _).of_ok h).1
  | parExtend _ h ih =>
    rw [SumTree.parExtend_eq_extend] at h
    exact ((SumTree.extend_spec ih _).of_ok h).1
  | updateFirst _ h ih =>
    exact ((SumTree.updateFirst_spec _ ih).ensures (E := fun _ => False)).of_ok h |>.1
  | updateLast _ h ih =>
    exact ((SumTree.updateLast_spec _ ih).ensures (E := fun _ => False)).of_ok h |>.1
  | slice _ visits h ih => exact (((visits.steady ih).slice ih).of_ok h).2
  | suffix _ visits h ih => exact (((visits.steady ih).suffix ih).of_ok h).2

/-! ## The representation invariant -/

/-- `u` is `t` or a node below it. -/
inductive Below : SumTree T S → SumTree T S → Prop where
  | self {t : SumTree T S} : Below t t
  | child {u c : SumTree T S} {h : Nat} {s : S} {css : List S} {cts : List (SumTree T S)} :
      c ∈ cts → Below u c → Below u (.internal h s css cts)

/-- A leaf of the tree lies `d` levels down. -/
inductive LeafAt : SumTree T S → Nat → Prop where
  | here {s : S} {its : List T} {iss : List S} : LeafAt (.leaf s its iss) 0
  | under {c : SumTree T S} {h d : Nat} {s : S} {css : List S} {cts : List (SumTree T S)} :
      c ∈ cts → LeafAt c d → LeafAt (.internal h s css cts) (d + 1)

/-- **The representation invariant** of a tree, node by node. -/
structure RepInvariant (t : SumTree T S) : Prop where
  /-- All leaves lie at the same depth. -/
  balanced : ∀ d d', LeafAt t d → LeafAt t d' → d = d'
  height : ∀ h s css cts, Below (.internal h s css cts) t → ∀ c ∈ cts, h = c.height + 1
  capacity : ∀ u, Below u t → u.rootSize ≤ 2 * treeBase
  /-- No node is empty, unless it is a leaf and the root. -/
  occupied : ∀ u, Below u t → u.rootSize ≠ 0 ∨ (u.isLeaf = true ∧ u = t)
  childSummaries : ∀ h s css cts, Below (.internal h s css cts) t →
    css = cts.map SumTree.summary
  itemSummaries : ∀ s its iss, Below (.leaf s its iss) t → iss = its.map Item.summary
  summary : ∀ u, Below u t → u.summary = itemsSum u.toList

theorem SumTree.Wf.ofBelow {u : SumTree T S} (wf : t.Wf h) (below : Below u t) :
    ∃ k, u.Wf k := by
  induction below generalizing h with
  | self => exact ⟨h, wf⟩
  | child hmem _ ih =>
    cases wf with
    | internal _ _ children => exact ih (children _ hmem)

theorem SumTree.Wf.leafAt {d : Nat} (wf : t.Wf h) (leaf : LeafAt t d) :
    d = h := by
  induction leaf generalizing h with
  | here => cases wf; rfl
  | under hmem _ ih =>
    cases wf with
    | internal _ _ children => rw [ih (children _ hmem)]

theorem SumTree.Wf.rootSize_ne_zero (wf : t.Wf h) :
    t.rootSize ≠ 0 := by
  cases wf with
  | leaf ne _ => simpa [SumTree.rootSize] using ne
  | internal ne _ _ => simpa using ne

theorem SumTree.WellFormed.repInvariant (wf : t.WellFormed) :
    RepInvariant t := by
  rcases wf with rfl | ⟨h, _, wf⟩
  · refine ⟨?_, ?_, ?_, ?_, ?_, ?_, ?_⟩
    · rintro d d' ⟨⟩ ⟨⟩
      rfl
    · rintro h s css cts ⟨⟩
    · rintro u ⟨⟩
      simp [SumTree.new, SumTree.rootSize]
    · rintro u ⟨⟩
      exact .inr ⟨rfl, rfl⟩
    · rintro h s css cts ⟨⟩
    · rintro s its iss ⟨⟩
      rfl
    · rintro u ⟨⟩
      rfl
  · refine ⟨?_, ?_, ?_, ?_, ?_, ?_, ?_⟩
    · intro d d' hd hd'
      rw [wf.leafAt hd, wf.leafAt hd']
    · intro hh s css cts below c hc
      obtain ⟨k, wfk⟩ := wf.ofBelow below
      cases wfk with
      | internal _ _ children => rw [(children c hc).height_eq]
    · intro u below
      obtain ⟨k, wfk⟩ := wf.ofBelow below
      exact wfk.rootSize_le
    · intro u below
      obtain ⟨k, wfk⟩ := wf.ofBelow below
      exact .inl wfk.rootSize_ne_zero
    · intro hh s css cts below
      obtain ⟨k, wfk⟩ := wf.ofBelow below
      cases wfk
      rfl
    · intro s its iss below
      obtain ⟨k, wfk⟩ := wf.ofBelow below
      cases wfk
      rfl
    · intro u below
      obtain ⟨k, wfk⟩ := wf.ofBelow below
      exact wfk.summary_eq

/-- **No panic but `u8` overflow**: joining reachable trees never pushes into a full
    array, never takes an unreachable branch and never underflows a height. -/
structure PanicFree (t : SumTree T S) : Prop where
  pushTreeRecursive : ∀ u, Reachable u → t.isEmpty = false → u.isEmpty = false →
    u.height ≤ t.height → ∃ r, t.pushTreeRecursive u = .ok r
  appendLarge : ∀ u, Reachable u → t.isEmpty = false → u.isEmpty = false →
    t.height ≤ u.height → ∃ r, SumTree.appendLarge t u = .ok r
  mergeIntoRight : ∀ u, Reachable u → t.isEmpty = false → u.isEmpty = false →
    t.height = u.height → ∃ r, SumTree.mergeIntoRight t u = .ok r
  append : ∀ u e, Reachable u → t.append u = .error e →
    e = .addOverflow ∧ 255 ≤ max t.height u.height
  push : ∀ x e, t.push x = .error e → e = .addOverflow ∧ 255 ≤ t.height
  extend : ∀ l e, t.extend l = .error e → e = .addOverflow
  updateFirst : ∀ f, ∃ r, t.updateFirst f = .ok r
  updateLast : ∀ f, ∃ r, t.updateLast f = .ok r
  slice : ∀ {D : Type} [Dimension D S] (c : Cursor T S D) (target : SeekTarget D) (bias : Bias)
    (e : Panic), Visits t c → c.slice target bias = .error e → SliceFails e

theorem Reachable.panicFree (reach : Reachable t) : PanicFree t := by
  have wf := reach.wellFormed
  refine ⟨?_, ?_, ?_, ?_, ?_, ?_, ?_, ?_, ?_⟩
  · intro u reach' ht hu hle
    obtain ⟨r, hr, -⟩ :=
      SumTree.pushTreeRecursive_spec (wf.wf ht) (reach'.wellFormed.wf hu) hle
    exact ⟨r, hr⟩
  · intro u reach' ht hu hle
    obtain ⟨r, hr, -⟩ := SumTree.appendLarge_spec (wf.wf ht) (reach'.wellFormed.wf hu) hle
    exact ⟨r, hr⟩
  · intro u reach' ht hu heq
    have wft := wf.wf ht
    rw [heq] at wft
    obtain ⟨r, hr, -⟩ := SumTree.mergeIntoRight_spec wft (reach'.wellFormed.wf hu)
    exact ⟨r, hr⟩
  · intro u e reach' h
    exact (SumTree.append_spec wf reach'.wellFormed).of_error h
  · intro x e h
    exact (SumTree.push_spec wf x).of_error h
  · intro l e h
    exact ((SumTree.extend_spec wf l).of_error h).1
  · intro f
    obtain ⟨r, hr, -⟩ := SumTree.updateFirst_spec f wf
    exact ⟨r, hr⟩
  · intro f
    obtain ⟨r, hr, -⟩ := SumTree.updateLast_spec f wf
    exact ⟨r, hr⟩
  · intro D _ c target bias e visits h
    exact ((visits.steady wf).slice wf).of_error h

/-- **Representation invariant**: every tree that the operations can build keeps it,
    and joining such trees never panics but for heights beyond `u8`. -/
theorem reachable_repInvariant {t : SumTree T S} (reach : Reachable t) :
    RepInvariant t ∧ PanicFree t :=
  ⟨reach.wellFormed.repInvariant, reach.panicFree⟩

end Trees

/-- The tree of one map entry. -/
def oneEntry : SumTree (MapEntry Nat Unit) (MapKey Nat) :=
  .leaf ⟨some 3⟩ [⟨3, ()⟩] [⟨some 3⟩]

theorem reachable_oneEntry : Reachable oneEntry :=
  .fromItem (x := (⟨3, ()⟩ : MapEntry Nat Unit)) rfl

/-- The summary of some integers: how many they are, and whether one is even. -/
structure IntegersSummary where
  count : Nat
  containsEven : Bool
  deriving DecidableEq

instance : Summary IntegersSummary where
  zero := ⟨0, false⟩
  addSummary := fun a b => ⟨a.count + b.count, a.containsEven || b.containsEven⟩

instance : LawfulSummary IntegersSummary where
  add_assoc := fun _ _ _ => congrArg₂ IntegersSummary.mk (Nat.add_assoc ..) (Bool.or_assoc ..)
  zero_add := fun _ => congrArg₂ IntegersSummary.mk (Nat.zero_add _) rfl

instance : Item Nat IntegersSummary where
  summary := fun n => ⟨1, n % 2 = 0⟩

/-- Twelve odd numbers, and the numbers below eight. -/
def integers : List Nat := (List.range 12).map (2 * · + 1) ++ List.range 8

/-- The tree of `integers`. -/
def integersTree : SumTree Nat IntegersSummary :=
  .internal 1 ⟨20, true⟩ [⟨12, false⟩, ⟨8, true⟩]
    [.leaf ⟨12, false⟩ (integers.take 12) ((integers.take 12).map Item.summary),
      .leaf ⟨8, true⟩ (integers.drop 12) ((integers.drop 12).map Item.summary)]

theorem reachable_integersTree : Reachable integersTree :=
  .fromIter (show SumTree.fromIter integers = .ok integersTree from rfl)

/-- The target that lies behind so many items. -/
def atCount (count : Nat) : SeekTarget IntegersSummary :=
  fun position => compare count position.count

theorem reachable_repInvariant_integersTree : ∃ t, integersTree.append integersTree = .ok t ∧
    t.toList = integers ++ integers ∧ RepInvariant t ∧ PanicFree t := by
  obtain ⟨t, happend, hitems⟩ : ∃ t, integersTree.append integersTree = .ok t ∧
      t.toList = integers ++ integers := ⟨_, rfl, rfl⟩
  exact ⟨t, happend, hitems,
    reachable_repInvariant (.append reachable_integersTree reachable_integersTree happend)⟩

end Gpui
