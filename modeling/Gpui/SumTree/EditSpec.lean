import Gpui.Lib.BatchUpdate
import Gpui.SumTree.Zipper
import Gpui.SumTree.KeyOrder
import Gpui.SumTree.Spine

/-! # SumTree: a batch of edits

    `edit` walks the sorted edits and a cursor over the old tree in step.  What it
    builds is the batch update of the list of the items: what the cursor has passed
    and what was inserted so far lie in the new tree and in the buffer behind it. -/

set_option linter.unusedSectionVars false

namespace Gpui

open List

open Exec (Returns Ensures)

/-! ## Room

    What is glued to a tree is a slice of a tree or a few items: it is low, so the
    new tree outgrows neither `u8` nor, at first, the stack of a cursor. -/

namespace SumTree

variable {T S D : Type}

/-- How `n` edits of a tree of `height` levels can run out of room.  With additive keys a
    tree of at most 15 levels has room for any edits there can be. -/
def OutOfRoom (P : List T → D → Prop) (height n : Nat) (e : Panic) : Prop :=
  (e = .stackFull ∧ 15 < height) ∨
    (e = .addOverflow ∧ (Determines P → height ≤ 15 → nodeCapacity ^ 57 < n))

variable {height : Nat} {e : Panic} {P : List T → D → Prop} {n : Nat}

theorem OutOfRoom.of_seek {behind : Prop} (fails : SeekFails P height behind e) (hback : ¬ behind) :
    OutOfRoom P height n e := by
  rcases fails with ⟨-, h⟩ | h | ⟨rfl, h⟩
  · exact absurd h hback
  · exact .inl h
  · exact .inr ⟨rfl, fun det hle => absurd (h det) (by omega)⟩

theorem OutOfRoom.mono {n m : Nat} (out : OutOfRoom P height n e) (hle : n ≤ m) :
    OutOfRoom P height m e :=
  out.imp_right fun h => ⟨h.1, fun det low => (h.2 det low).trans_le hle⟩

/-- Positions that determine each other make no difference. -/
theorem OutOfRoom.of_determines {E : Type} {Q : List T → E → Prop} (out : OutOfRoom P height n e)
    (det : Determines P) : OutOfRoom Q height n e :=
  out.imp_right fun h => ⟨h.1, fun _ => h.2 det⟩

/-- A low tree has room for what can be done to it. -/
theorem returns_of_room {α : Type} {Q : α → Prop} {x : Run α}
    (h : Ensures Q (OutOfRoom P height n) x) (det : Determines P) (low : height ≤ 15)
    (hfew : n ≤ nodeCapacity ^ 57) : Returns Q x := by
  refine (h.imp (fun _ h => h) ?_).returns
  rintro e (⟨-, hdeep⟩ | ⟨-, hmany⟩)
  · omega
  · exact absurd (hmany det low) (Nat.not_lt.mpr hfew)

variable [Summary S] [LawfulSummary S] [Item T S] [Dimension D S] {root : SumTree T S}
  {c : Cursor T S D} {P : List T → D → Prop} {before ahead : List T} {n : Nat}

/-- A slice of a tree with room for it is low. -/
theorem slice_room (tr : Tracks P) (hroot : root.WellFormed)
    (standing : c.Standing P root before ahead) {target : SeekTarget D} (bias : Bias)
    (hback : target c.position ≠ .lt) :
    Ensures (fun r => ∃ after, r.1.Stopped P target bias root before ahead r.2.toList after ∧
        r.2.WellFormed ∧ (Determines P → root.height ≤ 15 → r.2.height ≤ 56))
      (OutOfRoom P root.height n) (c.slice target bias) := by
  refine (Cursor.slice_spec tr hroot standing).with_eq.imp ?_ (fun e he => .of_seek he hback)
  rintro r ⟨⟨mid, after, stopped, hwf, rfl⟩, hrun⟩
  exact ⟨after, stopped, hwf, fun det hle => Cursor.slice_low tr det hroot hle standing hrun⟩

theorem suffix_room (tr : Tracks P) (hroot : root.WellFormed)
    (standing : c.Standing P root before ahead) :
    Ensures (fun r => r.2.WellFormed ∧ r.2.toList = ahead ∧
        (Determines P → root.height ≤ 15 → r.2.height ≤ 56))
      (OutOfRoom P root.height n) c.suffix := by
  refine (Cursor.suffix_spec tr hroot standing).with_eq.imp ?_ (fun e he => .of_seek he id)
  rintro r ⟨⟨-, hwf, hitems⟩, hrun⟩
  exact ⟨hwf, hitems, fun det hle => Cursor.slice_low tr det hroot hle standing hrun⟩

/-- A low tree goes in behind. -/
theorem append_room {a b : SumTree T S} (wfa : a.WellFormed) (wfb : b.WellFormed)
    (grown : Determines P → height ≤ 15 → n ≤ nodeCapacity ^ 57 → Grown (2 * n + 1) a)
    (low : Determines P → height ≤ 15 → b.height ≤ 56) :
    Ensures (fun r => r.WellFormed ∧ r.toList = a.toList ++ b.toList ∧
        (Determines P → height ≤ 15 → n ≤ nodeCapacity ^ 57 → Grown (2 * (n + 1)) r))
      (OutOfRoom P height n) (a.append b) := by
  refine (append_spec wfa wfb).with_eq.imp ?_ ?_
  · rintro r ⟨appended, hr⟩
    exact ⟨appended.wf, appended.items, fun det hle hn =>
      (grown det hle hn).append wfa wfb (low det hle) hr⟩
  · rintro e ⟨rfl, he⟩
    refine .inr ⟨rfl, fun det hle => ?_⟩
    by_contra hn
    have hheight := (grown det hle (by omega)).height_lt wfa (by omega)
    have hlow := low det hle
    omega

end SumTree

variable {T S K : Type} [Summary S] [KeyedItem T S K] [Dimension K S] [LinearOrder K]

/-! ## Keys as positions -/

/-- In strictly increasing order the position behind some items is the last key. -/
abbrev Keyed : List T → K → Prop := fun xs d => SortedKeys xs → d = lastKey xs

theorem Tracks.keyed [LawfulSummary S] [LawfulKeyedItem T S K] :
    Tracks (Keyed : List T → K → Prop) where
  start := fun _ => rfl
  item := by
    intro xs d x _ hsorted
    have hx : Dimension.addSummary d (itemsSum ([] ++ [x]) : S) = KeyedItem.key x :=
      LawfulKeyedItem.add_itemsSum d [] x (by simp [SortedKeys])
    have hsum : (itemsSum [x] : S) = Item.summary x := sum_singleton _
    rw [nil_append, hsum] at hx
    rw [lastKey_concat, hx]
  tree := by
    intro xs d h t wf _ hsorted
    obtain ⟨init, last, hitems⟩ := eq_nil_or_concat' t.toList |>.resolve_left wf.toList_ne_nil
    rw [wf.summary_eq, hitems, ← append_assoc, lastKey_concat]
    rw [hitems] at hsorted
    exact LawfulKeyedItem.add_itemsSum d init last (sortedKeys_append.mp hsorted).2.1

/-- A tracked position that is the last key wherever the keys increase. -/
structure TracksKeys (P : List T → K → Prop) : Prop where
  tracks : Tracks P
  keyed : ∀ {xs d}, P xs d → SortedKeys xs → d = lastKey xs

section Lawful

variable [LawfulSummary S] [LawfulKeyedItem T S K]

theorem TracksKeys.ofKeyed : TracksKeys (Keyed : List T → K → Prop) :=
  ⟨Tracks.keyed, fun h => h⟩

theorem TracksKeys.ofMeasured [LawfulDimension K S] : TracksKeys
    (Measured : List T → K → Prop) := by
  refine ⟨Tracks.measured, ?_⟩
  intro xs d hd sorted
  obtain rfl : d = measure K xs := hd
  rcases eq_nil_or_concat' xs with rfl | ⟨init, last, rfl⟩
  · rfl
  · rw [lastKey_concat, measure, ← addSummary_itemsSum _ (by simp)]
    exact LawfulKeyedItem.add_itemsSum _ init last sorted

end Lawful

section Cursors

variable [LawfulSummary S] [LawfulKeyedItem T S K] {root : SumTree T S} {c : Cursor T S K}
  {P : List T → K → Prop}

/-- The position behind items in order is below a key exactly when all of them are. -/
theorem lastKey_lt_iff {xs : List T} (sorted : SortedKeys xs) (hne : xs ≠ []) {k : K} :
    lastKey xs < k ↔ ∀ x ∈ xs, KeyedItem.key x < k := by
  obtain ⟨init, last, rfl⟩ := eq_nil_or_concat' xs |>.resolve_left hne
  rw [lastKey_concat]
  constructor
  · intro hlt x hx
    rcases mem_append.mp hx with hx | hx
    · exact ((sortedKeys_append.mp sorted).2.2 x hx last (by simp)).trans hlt
    · obtain rfl : x = last := by simpa using hx
      exact hlt
  · exact fun h => h last (by simp)

/-- A cursor on ordered items that has stopped for a key has passed those below it. -/
theorem Cursor.Stopped.below (tk : TracksKeys P) {before ahead mid after : List T} {k : K}
    (stopped : c.Stopped P (keyTarget k) .left root before ahead mid after)
    (sorted : SortedKeys root.toList) :
    (∀ x ∈ mid, KeyedItem.key x < k) ∧ ∀ x ∈ after, k ≤ KeyedItem.key x := by
  have hitems : before ++ mid ++ after = root.toList := stopped.pos.items
  rw [← hitems] at sorted
  obtain ⟨hbefore, hafter, -⟩ := sortedKeys_append.mp sorted
  have hposition : c.position = lastKey (before ++ mid) := tk.keyed stopped.pos.position hbefore
  constructor
  · by_cases hmid : mid = []
    · simp [hmid]
    · have hreached := reached_keyTarget_left.mp (stopped.reached hmid)
      rw [hposition, lastKey_lt_iff hbefore (by simp [hmid])] at hreached
      exact fun x hx => hreached x (by simp [hx])
  · cases after with
    | nil => simp
    | cons y after =>
      have hnext := reached_keyTarget_left_false.mp (stopped.next y rfl)
      have hy : Dimension.addSummary c.position (Item.summary y : S) = KeyedItem.key y := by
        have h := tk.tracks.item (S := S) y stopped.pos.position
        have hsorted : SortedKeys (before ++ mid ++ [y]) := by
          rw [show before ++ mid ++ y :: after = before ++ mid ++ [y] ++ after by simp] at sorted
          exact (sortedKeys_append.mp sorted).1
        rw [tk.keyed h hsorted, lastKey_concat]
      rw [hy] at hnext
      intro x hx
      rcases mem_cons.mp hx with rfl | hx
      · exact hnext
      · exact hnext.trans ((pairwise_cons.mp hafter).1 x hx).le

end Cursors

/-! ## One edit -/

/-- An edit as an update of a list. -/
def Edit.update : Edit T K → K × Option T
  | .insert item => (KeyedItem.key item, some item)
  | .remove key  => (key, none)

@[simp] theorem Edit.update_fst (e : Edit T K) : e.update.1 = e.key := by
  cases e <;> rfl

namespace SumTree

section Steps

variable [LawfulSummary S] [LawfulKeyedItem T S K] {root : SumTree T S} {c : Cursor T S K}
  {P : List T → K → Prop} {before after : List T} {n : Nat}

/-- The item that a cursor stands on is taken when it is at the key. -/
theorem takeItem_spec (tk : TracksKeys P) (hroot : root.WellFormed)
    (sorted : SortedKeys root.toList) (pos : c.At P root before after) {k : K}
    (hafter : ∀ x ∈ after, k ≤ KeyedItem.key x) :
    Ensures (fun r => r.1.At P root (before ++ Batch.equal KeyedItem.key k after)
        (Batch.above KeyedItem.key k after) ∧ r.2.toList = Batch.equal KeyedItem.key k after)
      (fun e => e = .stackFull ∧ 15 < root.height) (takeItem c after.head? k) := by
  rw [← pos.items] at sorted
  have hsorted : Batch.Increasing KeyedItem.key after := (sortedKeys_append.mp sorted).2.1
  cases after with
  | nil => exact ⟨by simpa using pos, rfl⟩
  | cons x after =>
    unfold takeItem
    rw [head?_cons]
    dsimp only
    split
    · next heq =>
      obtain ⟨hequal, habove⟩ := heq ▸ hsorted.at_head
      rw [hequal, habove]
      exact (Cursor.next_spec tk.tracks hroot (.item pos)).bind fun c' pos' => ⟨pos', rfl⟩
    · next hne =>
      have hlt : k < KeyedItem.key x := lt_of_le_of_ne (hafter x (by simp)) (Ne.symm hne)
      obtain ⟨hequal, habove⟩ := hsorted.ahead_of_head hlt
      rw [hequal, habove]
      exact ⟨by simpa using pos, rfl⟩

/-- The variables of `edit` after `n` edits: the new tree with its buffer, and a cursor
    over the old one. -/
structure Editing (P : List T → K → Prop) (root : SumTree T S) (n : Nat) (before after : List T)
    (st : EditState T S K) : Prop where
  pos : st.cursor.At P root before after
  wf : st.newTree.WellFormed
  buffered : st.bufferedItems.length ≤ n
  grown : Determines P → root.height ≤ 15 → n ≤ nodeCapacity ^ 57 → Grown (2 * n) st.newTree

/-- The items of the new tree, those in the buffer included. -/
def EditState.items (st : EditState T S K) : List T :=
  st.newTree.toList ++ st.bufferedItems

variable {st : EditState T S K}

/-- What was inserted lies behind the new tree. -/
theorem Editing.extend (editing : Editing P root n before after st) :
    Ensures (fun r => r.WellFormed ∧ r.toList = st.items ∧
        (Determines P → root.height ≤ 15 → n ≤ nodeCapacity ^ 57 → Grown (2 * n + 1) r))
      (OutOfRoom P root.height n) (st.newTree.extend st.bufferedItems) := by
  have hlen := editing.buffered
  refine ((extend_spec editing.wf st.bufferedItems).with_eq.imp ?_ ?_)
  · rintro r ⟨⟨hwf, hitems⟩, hr⟩
    exact ⟨hwf, hitems, fun det low hn =>
      (editing.grown det low hn).extend editing.wf (by omega) hr⟩
  · rintro e ⟨rfl, he⟩
    refine .inr ⟨rfl, fun det low => ?_⟩
    by_contra hn
    have hgrown := editing.grown det low (by omega)
    have hheight := hgrown.height_lt editing.wf (by omega)
    rcases he with he | ⟨u, hu, he⟩
    · have hpow : nodeCapacity ^ 57 ≤ nodeCapacity ^ 256 :=
        Nat.pow_le_pow_right (by decide) (by decide)
      omega
    · have := fromIter_height (by omega) hu
      omega

/-- A list cut at a key. -/
theorem split_at_key {mid ahead : List T} {k : K} (hmid : ∀ x ∈ mid, KeyedItem.key x < k)
    (hahead : ∀ x ∈ ahead, k ≤ KeyedItem.key x) :
    Batch.below KeyedItem.key k (mid ++ ahead) = mid ∧
      (mid ++ ahead).filter (fun x => k ≤ KeyedItem.key x) = ahead := by
  constructor
  · rw [Batch.below, filter_append, filter_eq_self.mpr (by simpa using hmid),
      filter_eq_nil_iff.mpr (by simpa using hahead), append_nil]
  · rw [filter_append, filter_eq_nil_iff.mpr (by simpa using hmid),
      filter_eq_self.mpr (by simpa using hahead), nil_append]

section

variable (tk : TracksKeys P) (hroot : root.WellFormed) (sorted : SortedKeys root.toList)
include tk hroot sorted

theorem EditState.advance_spec (editing : Editing P root n before after st) (k : K) :
    Ensures (fun r => (r.1.cursor.At P root (before ++ Batch.below KeyedItem.key k after)
          (after.filter fun x => k ≤ KeyedItem.key x) ∧ r.1.newTree.WellFormed ∧
          r.1.bufferedItems.length ≤ n ∧
          (Determines P → root.height ≤ 15 → n ≤ nodeCapacity ^ 57 →
            Grown (2 * (n + 1)) r.1.newTree)) ∧
        r.1.items = st.items ++ Batch.below KeyedItem.key k after ∧
        r.1.removed = st.removed ∧ r.2 = (after.filter fun x => k ≤ KeyedItem.key x).head?)
      (OutOfRoom P root.height n) (st.advance k after.head?) := by
  have hsorted := sorted
  rw [← editing.pos.items] at hsorted
  obtain ⟨hbefore, hsorted, hcross⟩ := sortedKeys_append.mp hsorted
  unfold EditState.advance
  split
  · next hany =>
    obtain ⟨x, hx, hlt⟩ : ∃ x, after.head? = some x ∧ KeyedItem.key x < k := by
      simpa [Option.any_eq_true] using hany
    obtain ⟨rest, rfl⟩ := head?_eq_some_iff.mp hx
    refine editing.extend.bind ?_
    rintro newTree ⟨hwf, hitems, hgrown⟩
    have hback : keyTarget k st.cursor.position ≠ .lt := by
      have hposition : st.cursor.position < k := by
        rw [tk.keyed editing.pos.position hbefore]
        by_cases hnil : before = []
        · subst hnil
          exact lt_of_le_of_lt (LawfulKeyedItem.zero_le x) hlt
        · exact (lastKey_lt_iff hbefore hnil).mpr fun y hy => (hcross y hy x (by simp)).trans hlt
      rw [keyTarget, compare_gt_iff_gt.mpr hposition]
      simp
    refine (slice_room tk.tracks hroot (.inr editing.pos) .left hback).bind ?_
    rintro ⟨c', slice⟩ ⟨ahead, stopped, hslice, hlow⟩
    obtain ⟨hmid, hahead⟩ := stopped.below tk sorted
    have hsplit : x :: rest = slice.toList ++ ahead := stopped.split
    obtain ⟨hbelow, hfrom⟩ := split_at_key hmid hahead
    rw [hsplit, hbelow, hfrom]
    refine (append_room hwf hslice hgrown hlow).bind ?_
    rintro newTree' ⟨hwf', hitems', hgrown'⟩
    rw [stopped.pos.item_eq]
    refine ⟨⟨stopped.pos, hwf', Nat.zero_le _, hgrown'⟩, ?_, rfl, rfl⟩
    show newTree'.toList ++ [] = st.items ++ slice.toList
    rw [hitems', hitems, append_nil]
  · next hany =>
    -- the cursor stays, and no item ahead is below the key
    have hahead : ∀ x ∈ after, k ≤ KeyedItem.key x := by
      cases after with
      | nil => simp
      | cons y after =>
        have hy : k ≤ KeyedItem.key y := by simpa using hany
        intro x hx
        rcases mem_cons.mp hx with rfl | hx
        · exact hy
        · exact hy.trans ((pairwise_cons.mp hsorted).1 x hx).le
    obtain ⟨hbelow, hfrom⟩ : Batch.below KeyedItem.key k ([] ++ after) = [] ∧ _ :=
      split_at_key (by simp) hahead
    rw [nil_append] at hbelow hfrom
    rw [hbelow, hfrom, append_nil]
    exact ⟨⟨editing.pos, editing.wf, editing.buffered, fun det hle hn =>
      (editing.grown det hle hn).mono (by omega)⟩, (append_nil _).symm, rfl, rfl⟩

/-- **One edit** merges the items up to its key into the new tree. -/
theorem editStep_spec (editing : Editing P root n before after st) (e : Edit T K) :
    Ensures (fun st' =>
        (∃ before', Editing P root (n + 1) before' (Batch.above KeyedItem.key e.key after) st') ∧
        st'.items = st.items ++ Batch.below KeyedItem.key e.key after ++ e.update.2.toList ∧
        st'.removed = st.removed ++ Batch.equal KeyedItem.key e.key after)
      (OutOfRoom P root.height n) (editStep st e) := by
  unfold editStep
  rw [editing.pos.item_eq, Exec.ok_bind]
  refine (EditState.advance_spec tk hroot sorted editing e.key).bind ?_
  rintro ⟨st₁, oldItem⟩ ⟨⟨pos₁, hwf, hbuffered, hgrown⟩, hitems, hremoved, rfl⟩
  have hfrom : ∀ x ∈ after.filter (fun x => e.key ≤ KeyedItem.key x), e.key ≤ KeyedItem.key x :=
    fun x hx => by simpa using (mem_filter.mp hx).2
  refine ((takeItem_spec tk hroot sorted pos₁ hfrom).imp (fun _ h => h)
    (fun e he => .inl he)).bind ?_
  rintro ⟨cursor, taken⟩ ⟨pos, htaken⟩
  rw [Batch.equal_filter_le] at htaken pos
  rw [Batch.above_filter_le] at pos
  have hgrown' : Determines P → root.height ≤ 15 → n + 1 ≤ nodeCapacity ^ 57 →
      Grown (2 * (n + 1)) st₁.newTree := fun det hle hn => hgrown det hle (by omega)
  cases e with
  | insert item =>
    refine ⟨⟨_, pos, hwf, ?_, hgrown'⟩, ?_, by rw [← htaken, ← hremoved]⟩
    · show (st₁.bufferedItems ++ [item]).length ≤ n + 1
      rw [length_append, length_singleton]
      exact Nat.succ_le_succ hbuffered
    show st₁.newTree.toList ++ (st₁.bufferedItems ++ [item]) = _
    rw [← append_assoc, show st₁.newTree.toList ++ st₁.bufferedItems = st₁.items from rfl,
      hitems]
    rfl
  | remove key =>
    refine ⟨⟨_, pos, hwf, hbuffered.trans (Nat.le_succ n), hgrown'⟩, ?_, by rw [← htaken, ← hremoved]⟩
    show st₁.items = _
    rw [hitems]
    exact (append_nil _).symm

/-- **A run of edits** is the batch update of what was ahead of the cursor. -/
theorem editRun_spec :
    ∀ (es : List (Edit T K)) {n : Nat} {before after : List T} {st : EditState T S K},
      Editing P root n before after st →
      Ensures (fun st' => ∃ before' after', Editing P root (n + es.length) before' after' st' ∧
          st'.items ++ after' = st.items ++ Batch.apply KeyedItem.key after (es.map Edit.update) ∧
          st'.removed = st.removed ++ Batch.removed KeyedItem.key after (es.map Edit.update))
        (OutOfRoom P root.height (n + es.length)) (es.foldlM editStep st) := by
  intro es
  induction es with
  | nil =>
    intro n before after st editing
    exact ⟨before, after, editing, rfl, (append_nil _).symm⟩
  | cons e es ih =>
    intro n before after st editing
    rw [foldlM_cons, length_cons, Nat.add_comm es.length 1, ← Nat.add_assoc]
    refine ((editStep_spec tk hroot sorted editing e).imp (fun _ h => h)
      (fun e he => he.mono (by omega))).bind ?_
    rintro st₁ ⟨⟨before₁, editing₁⟩, hitems, hremoved⟩
    refine (ih editing₁).imp ?_ (fun _ h => h)
    rintro st' ⟨before', after', editing', hitems', hremoved'⟩
    refine ⟨before', after', editing', ?_, ?_⟩
    · rw [hitems', hitems]
      simp [Batch.apply]
    · rw [hremoved', hremoved]
      simp [Batch.removed]

end

theorem edit_spec (tk : TracksKeys P) (order : UnstableSort T K) {t : SumTree T S}
    (wf : t.WellFormed) (sorted : SortedKeys t.toList) (edits : List (Edit T K)) :
    Ensures (fun r => r.1.WellFormed ∧
        r.1.toList = Batch.apply KeyedItem.key t.toList ((order.sort edits).map Edit.update) ∧
        r.2 = Batch.removed KeyedItem.key t.toList ((order.sort edits).map Edit.update))
      (OutOfRoom P t.height edits.length) (edit order t edits) := by
  unfold edit
  split
  · next hempty =>
    have hnil : order.sort edits = [] := by
      have hperm := order.perm edits
      rw [isEmpty_iff.mp hempty] at hperm ⊢
      exact hperm.eq_nil
    rw [hnil]
    exact ⟨wf, rfl, rfl⟩
  · have hzero : ¬ keyTarget (Dimension.zero S : K) (Dimension.zero S) = .lt := by
      rw [keyTarget, compare_lt_iff_lt]
      exact lt_irrefl _
    refine ((Cursor.seek_spec tk.tracks wf rfl).imp (fun _ h => h)
      (fun e he => .of_seek he hzero)).bind ?_
    rintro ⟨c, found⟩ ⟨mid, after, stopped, -⟩
    -- no key lies below zero, so the seek has passed nothing
    obtain rfl : mid = [] := by
      cases mid with
      | nil => rfl
      | cons x mid =>
        exact absurd ((stopped.below tk sorted).1 x (by simp)) (LawfulKeyedItem.zero_le x).not_gt
    obtain rfl : t.toList = after := stopped.split
    have editing : Editing P t 0 [] t.toList (⟨c, new, [], []⟩ : EditState T S K) :=
      ⟨stopped.pos, wellFormed_new, Nat.le_refl 0, fun _ _ _ => grown_new⟩
    have hrun := editRun_spec tk wf sorted (order.sort edits) editing
    rw [Nat.zero_add, (order.perm edits).length_eq] at hrun
    refine hrun.bind ?_
    rintro st ⟨before', after', editing', hitems, hremoved⟩
    refine editing'.extend.bind ?_
    rintro newTree ⟨hwf, hextend, hgrown⟩
    refine (suffix_room tk.tracks wf (.inr editing'.pos)).bind ?_
    rintro ⟨c', suffix⟩ ⟨hsuffix, hsuffixItems, hlow⟩
    refine (append_room hwf hsuffix hgrown hlow).bind ?_
    rintro r ⟨hwf', hitems', -⟩
    refine ⟨hwf', ?_, ?_⟩
    · rw [hitems', hextend, hsuffixItems]
      exact hitems
    · rw [nil_append] at hremoved
      exact hremoved

end Steps

/-! ## Edits at distinct keys -/

section Distinct
variable {edits : List (Edit T K)}


/-- Sorted, edits at distinct keys increase strictly. -/
theorem sort_increasing (order : UnstableSort T K) (distinct : (edits.map Edit.key).Nodup) :
    (order.sort edits).Pairwise fun a b => a.key < b.key := by
  have hnodup : ((order.sort edits).map Edit.key).Nodup :=
    ((order.perm edits).map Edit.key).nodup_iff.mpr distinct
  rw [List.Nodup, pairwise_map] at hnodup
  exact ((order.sorted edits).and hnodup).imp fun h => lt_of_le_of_ne h.1 h.2

theorem sound_updates (order : UnstableSort T K) (distinct : (edits.map Edit.key).Nodup) :
    Batch.Sound KeyedItem.key ((order.sort edits).map Edit.update) := by
  refine ⟨?_, ?_⟩
  · rw [pairwise_map]
    exact (sort_increasing order distinct).imp fun h => by simpa using h
  · intro u hu x hx
    obtain ⟨e, -, rfl⟩ := mem_map.mp hu
    cases e with
    | insert item =>
      obtain rfl : item = x := by simpa [Edit.update] using hx
      rfl
    | remove key => simp [Edit.update] at hx

/-- At distinct keys there is one way to sort. -/
theorem sort_eq_of_perm (order order' : UnstableSort T K) {edits' : List (Edit T K)}
    (distinct : (edits.map Edit.key).Nodup) (perm : edits'.Perm edits) :
    order'.sort edits' = order.sort edits := by
  have distinct' : (edits'.map Edit.key).Nodup := (perm.map Edit.key).nodup_iff.mpr distinct
  have hasymm : ∀ a b : Edit T K, a ∈ order'.sort edits' → b ∈ order.sort edits →
      a.key < b.key → b.key < a.key → a = b := fun _ _ _ _ hab hba => absurd hab hba.not_gt
  exact List.Perm.eq_of_pairwise hasymm (sort_increasing order' distinct')
    (sort_increasing order distinct)
    ((order'.perm edits').trans (perm.trans (order.perm edits).symm))

theorem edit_eq_of_perm (order order' : UnstableSort T K) (t : SumTree T S)
    {edits' : List (Edit T K)} (distinct : (edits.map Edit.key).Nodup)
    (perm : edits'.Perm edits) : edit order' t edits' = edit order t edits := by
  have hempty : edits'.isEmpty = edits.isEmpty := by
    cases edits' with
    | nil => rw [perm.nil_eq]
    | cons e edits' =>
      cases edits with
      | nil => exact absurd perm.eq_nil (by simp)
      | cons d edits => rfl
  unfold edit
  rw [hempty, sort_eq_of_perm order order' distinct perm]

/-- What edits at distinct keys leave of the items `old`. -/
structure Edited (old : List T) (edits : List (Edit T K)) (new removed : List T) : Prop where
  sorted : SortedKeys new
  mem : ∀ x, x ∈ new ↔
    (x ∈ old ∧ KeyedItem.key x ∉ edits.map Edit.key) ∨ Edit.insert x ∈ edits
  removed : removed = old.filter fun x => KeyedItem.key x ∈ edits.map Edit.key

theorem edited_apply (order : UnstableSort T K) {old : List T} (sorted : SortedKeys old)
    (distinct : (edits.map Edit.key).Nodup) :
    Edited old edits
      (Batch.apply KeyedItem.key old ((order.sort edits).map Edit.update))
      (Batch.removed KeyedItem.key old ((order.sort edits).map Edit.update)) := by
  have sound := sound_updates order distinct
  have hmem : ∀ {e : Edit T K}, e ∈ order.sort edits ↔ e ∈ edits := (order.perm edits).mem_iff
  refine ⟨Batch.increasing_apply sound sorted, fun x => ?_, ?_⟩
  · rw [Batch.mem_apply sound]
    refine or_congr (and_congr_right fun _ => ?_) ?_
    · simp only [mem_map, forall_exists_index, and_imp, forall_apply_eq_imp_iff₂,
        Edit.update_fst, hmem, not_exists, not_and]
    · simp only [mem_map, exists_exists_and_eq_and, hmem]
      constructor
      · rintro ⟨e, he, hx⟩
        cases e with
        | insert item =>
          obtain rfl : item = x := by simpa [Edit.update] using hx
          exact he
        | remove key => simp [Edit.update] at hx
      · exact fun hx => ⟨.insert x, hx, rfl⟩
  · rw [Batch.removed_eq_filter sound.increasing sorted]
    refine filter_congr fun x _ => ?_
    rw [any_map, Bool.eq_iff_iff]
    simp only [any_eq_true, Function.comp, decide_eq_true_eq, Edit.update_fst,
      mem_map, hmem]

/-- **Edits at distinct keys** of a tree in the order of its keys are one simultaneous
    update: whatever `edit` returns is that update, and the order of the edits makes no
    difference.  With additive keys it does return on every tree of at most 15 levels,
    as long as there are no more than `12 ^ 57` edits. -/
theorem edit_simultaneous [LawfulSummary S] [LawfulKeyedItem T S K] {t : SumTree T S}
    (wf : t.WellFormed) (sorted : SortedKeys t.toList) {edits : List (Edit T K)}
    (distinct : (edits.map Edit.key).Nodup) (order : UnstableSort T K) :
    (∀ t' removed, edit order t edits = .ok (t', removed) →
        t'.WellFormed ∧ Edited t.toList edits t'.toList removed) ∧
      (∀ (order' : UnstableSort T K) (edits' : List (Edit T K)), edits'.Perm edits →
        edit order' t edits' = edit order t edits) ∧
      (∀ e, edit order t edits = .error e → (e = .stackFull ∧ 15 < t.height) ∨ e = .addOverflow) ∧
      (LawfulDimension K S → t.height ≤ 15 → edits.length ≤ nodeCapacity ^ 57 →
        ∃ r, edit order t edits = .ok r) := by
  refine ⟨?_, fun order' edits' perm => edit_eq_of_perm order order' t distinct perm, ?_, ?_⟩
  · intro t' removed hrun
    obtain ⟨hwf, hitems, rfl⟩ := (edit_spec TracksKeys.ofKeyed order wf sorted edits).of_ok hrun
    exact ⟨hwf, hitems ▸ edited_apply order sorted distinct⟩
  · intro e hrun
    exact ((edit_spec TracksKeys.ofKeyed order wf sorted edits).of_error hrun).imp_right And.left
  · intro _ hle hfew
    obtain ⟨r, hrun, -⟩ := returns_of_room (edit_spec TracksKeys.ofMeasured order wf sorted edits)
      determines_measured hle hfew
    exact ⟨r, hrun⟩

end Distinct

/-- One way to sort edits. -/
def mergeSorted : UnstableSort T K where
  sort := fun edits => edits.mergeSort fun a b => a.key ≤ b.key
  perm := fun edits => List.mergeSort_perm edits _
  sorted := fun edits => by
    have htrans : ∀ a b c : Edit T K, decide (a.key ≤ b.key) = true → decide (b.key ≤ c.key) = true →
        decide (a.key ≤ c.key) = true := fun a b c hab hbc =>
      decide_eq_true ((of_decide_eq_true hab).trans (of_decide_eq_true hbc))
    have htotal : ∀ a b : Edit T K, (decide (a.key ≤ b.key) || decide (b.key ≤ a.key)) = true :=
      fun a b => by simpa using le_total a.key b.key
    exact (List.pairwise_mergeSort htrans htotal edits).imp of_decide_eq_true

theorem edit_simultaneous_oneEntry : ∃ r,
    edit mergeSorted oneEntry [.remove ⟨some 3⟩, .insert ⟨1, ()⟩] = .ok r :=
  (edit_simultaneous reachable_oneEntry.wellFormed (by decide) (by decide) mergeSorted).2.2.2
    inferInstance (by decide) (by decide)

/-- Some reachable tree in the order of its keys has more than 15 levels. -/
theorem exists_deep_sorted : ∃ t : SumTree (MapEntry Nat Unit) (MapKey Nat),
    Reachable t ∧ SortedKeys t.toList ∧ 16 ≤ t.height := by
  have hlen : ((List.range (12 ^ 16 + 1)).map fun k => (⟨k, ()⟩ : MapEntry Nat Unit)).length =
      12 ^ 16 + 1 := by rw [length_map, length_range]
  have hsorted : SortedKeys ((List.range (12 ^ 16 + 1)).map fun k => (⟨k, ()⟩ : MapEntry Nat Unit)) := by
    rw [sortedKeys_iff, map_map, pairwise_map]
    exact pairwise_lt_range
  generalize (List.range (12 ^ 16 + 1)).map (fun k => (⟨k, ()⟩ : MapEntry Nat Unit)) = l
    at hlen hsorted
  match hrun : fromIter (S := MapKey Nat) l with
  | .error e =>
    obtain ⟨-, hmany⟩ := (fromIter_spec l).of_error hrun
    have hlt : 12 ^ 16 + 1 < 12 ^ 256 := by decide +kernel
    rw [hlen] at hmany
    exact absurd hmany hlt.not_gt
  | .ok t =>
    obtain ⟨wf, hitems⟩ := (fromIter_spec l).of_ok hrun
    refine ⟨t, .fromIter hrun, hitems ▸ hsorted, ?_⟩
    by_contra hlow
    have hle := wf.length_toList_le
    have hpow : nodeCapacity ^ (t.height + 1) ≤ 12 ^ 16 :=
      Nat.pow_le_pow_right (by decide) (by omega)
    rw [hitems, hlen] at hle
    exact absurd (hle.trans hpow) (Nat.lt_succ_self _).not_ge

/-- The first seek of `edit` overflows the stack on such a tree. -/
theorem edit_panics : ∃ t : SumTree (MapEntry Nat Unit) (MapKey Nat), Reachable t ∧
    SortedKeys t.toList ∧ ∀ order : UnstableSort (MapEntry Nat Unit) (MapKey Nat),
      ∃ e, edit order t [.remove ⟨some 0⟩] = .error e := by
  obtain ⟨t, reach, hsorted, hdeep⟩ := exists_deep_sorted
  refine ⟨t, reach, hsorted, fun order => ?_⟩
  obtain ⟨e, he⟩ := Cursor.seek_deep (keyTarget (Dimension.zero (MapKey Nat) : MapKey Nat)) .left
    reach.wellFormed hdeep (reached_keyTarget_left_false.mpr (MapKey.none_le _))
  refine ⟨e, ?_⟩
  rw [edit, if_neg (by simp), he]
  rfl

end SumTree

end Gpui
