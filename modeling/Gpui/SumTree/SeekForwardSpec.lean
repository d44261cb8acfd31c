import Gpui.SumTree.Zipper
import Gpui.SumTree.FindSpec
import Gpui.SumTree.KeyOrder

/-! # SumTree: `seek_forward` and `seek`

    A forward seek goes on from the stack of the cursor, a seek starts over from the
    root.  Under a monotone target both end at the one cut that the target asks for.
    Before the first item the stack is empty, as it is behind the last one, and
    `seek_forward` takes the one state for the other. -/

set_option linter.unusedSectionVars false

namespace Gpui

open List

open Exec (Returns Ensures Next loop)

variable {T S D : Type} [Summary S] [Item T S] [Dimension D S]

namespace Cursor

/-! ## The stack never outgrows its array -/

/-- The stack of the cursor fits its array. -/
def Roomy (c : Cursor T S D) : Prop := c.stack.length ≤ stackCapacity

section Room

variable {c : Cursor T S D}

theorem seek_room (target : SeekTarget D) (bias : Bias) :
    Ensures (fun r => Roomy r.1) (fun _ => True) (c.seek target bias) := by
  have hstack : pushEntry c.reset.stack ⟨c.reset.tree, 0, Dimension.zero S⟩ =
      .ok [⟨c.tree, 0, Dimension.zero S⟩] := rfl
  refine Ensures.bind (Q := fun r : Cursor T S D × Unit × Bool => Roomy r.1) ?_ ?_
  · by_cases hback : target c.reset.position = .lt
    · rw [seekInternal, if_pos hback]
      trivial
    · rw [seekInternal_eq hback (.inr ⟨rfl, hstack⟩)]
      refine (Exec.loop_partial (fun st : SeekState T S D Unit => st.stack.length ≤ stackCapacity)
        (fun st hst => seekStep_room hst) _ _ ?_).bind fun st hst => seekFinish_room hst
      simp [stackCapacity]
  · rintro ⟨c', a, found⟩ hc
    exact hc

theorem next_room (hroom : Roomy c) : Ensures Roomy (fun _ => True) c.next := by
  have hfinish : ∀ {c : Cursor T S D} {e : ForwardEnd T S D}, e.Roomy →
      Roomy (forwardFinish c e) := by
    rintro c (st | st) hst <;> exact hst
  cases hstack : c.stack with
  | nil =>
    rw [next, searchForward_eq_of_nil hstack]
    refine Ensures.bind (Q := ForwardEnd.Roomy) ?_ fun e he => hfinish he
    refine Exec.loop_partial (fun st : WalkState T S D => st.stack.length ≤ stackCapacity)
      (fun st hst => forwardStep_room hst) _ _ ?_
    cases c.atEnd <;> simp [stackCapacity]
  | cons entry rest =>
    rw [next, searchForward_eq_of_ne_nil (by simp [hstack])]
    refine Ensures.bind (Q := ForwardEnd.Roomy) ?_ fun e he => hfinish he
    exact Exec.loop_partial (fun st : WalkState T S D => st.stack.length ≤ stackCapacity)
      (fun st hst => forwardStep_room hst) _ _ hroom

theorem backwardStep_room {filterNode : S → Bool} {st : WalkState T S D}
    (hroom : st.stack.length ≤ stackCapacity) :
    Ensures (Exec.Keeps (fun st : WalkState T S D => st.stack.length ≤ stackCapacity)
      (fun st => st.stack.length ≤ stackCapacity)) (fun _ => True)
      (backwardStep filterNode st) := by
  obtain ⟨stack, position, descend⟩ := st
  match stack with
  | [] => exact hroom
  | e :: rest =>
    have hrest : rest.length ≤ stackCapacity := by
      have : rest.length + 1 ≤ stackCapacity := hroom
      omega
    unfold backwardStep
    dsimp only
    split
    · exact hrest
    · generalize (if descend = true then e.index else e.index - 1) = index
      split
      · trivial
      · refine (ensures_true _).bind fun summary _ => ?_
        split
        · split
          · refine (ensures_true _).bind fun tree _ => (ensures_true _).bind fun last _ => ?_
            exact (pushEntry_room _ _).bind fun st hst => hst
          · exact hroom
        · split <;> exact hroom

theorem prev_room (hroom : Roomy c) : Ensures Roomy (fun _ => True) c.prev := by
  have hfinish : ∀ c' : Cursor T S D, Roomy c' → Ensures Roomy (fun _ => True) (do
      let st ← loop .loopBound (backwardStep fun _ => true) c'.tree.size
        ⟨c'.stack, c'.position, false⟩
      pure { c' with stack := st.stack, position := st.position }) := fun c' hc' =>
    (Exec.loop_partial (fun st : WalkState T S D => st.stack.length ≤ stackCapacity)
      (fun st hst => backwardStep_room hst) c'.tree.size
      ⟨c'.stack, c'.position, false⟩ hc').bind fun st hst => hst
  unfold prev searchBackward
  dsimp only
  generalize (if c.didSeek = true then c.atEnd else true) = atEnd
  split
  · split
    · exact hfinish _ hroom
    · exact (pushEntry_room _ _).bind fun stack hstack => hfinish _ hstack
  · exact hfinish _ hroom

end Room

/-! ## Where moves leave a cursor -/

/-- A cursor that any moves have led to: new, on a cut of the items, or before the
    first of them. -/
inductive Rests (root : SumTree T S) : Cursor T S D → Prop where
  | new : Rests root (.new root)
  | cut {before after : List T} {c : Cursor T S D} (pos : c.At Measured root before after)
      (low : after ≠ [] → root.height ≤ 15) : Rests root c
  | start {c : Cursor T S D} (pos : c.AtStart Measured root) (low : root.height ≤ 15) :
      Rests root c

section Moves

variable [LawfulSummary S] [LawfulDimension D S] {root : SumTree T S} {c : Cursor T S D}

theorem Rests.of_at {before after : List T} (pos : c.At Measured root before after)
    (hroom : Roomy c) : Rests root c :=
  .cut pos fun hne => pos.height_le hne hroom

theorem Rests.roomy (rests : Rests root c) : Roomy c := by
  cases rests with
  | new => exact Nat.zero_le _
  | @cut before after _ pos low =>
    cases after with
    | nil =>
      have hnil : c.stack = [] := by simpa using pos.stack.isEmpty
      simp [Roomy, hnil]
    | cons x after =>
      have hlen := pos.stack.length_le
      have := low (by simp)
      simp only [Roomy, stackCapacity]
      omega
  | start pos _ => simp [Roomy, pos.stack]

theorem Rests.tree (rests : Rests root c) : c.tree = root := by
  cases rests with
  | new => rfl
  | cut pos _ => exact pos.tree
  | start pos _ => exact pos.tree

/-- Both facts about a computation that returned. -/
theorem and_of_ok {α : Type} {Q R : α → Prop} {E E' : Panic → Prop} {x : Run α} {a : α}
    (h : Ensures Q E x) (h' : Ensures R E' x) (hx : x = .ok a) : Q a ∧ R a :=
  ⟨h.of_ok hx, h'.of_ok hx⟩

variable {c' : Cursor T S D}

section

variable (hroot : root.WellFormed) (rests : Rests root c)
include hroot rests

theorem Rests.seek {target : SeekTarget D} {bias : Bias} {found : Bool}
    (h : c.seek target bias = .ok (c', found)) :
    Rests root c' := by
  obtain ⟨⟨mid, after, stopped, -⟩, hroom⟩ :=
    and_of_ok (seek_spec Tracks.measured hroot rests.tree) (seek_room target bias) h
  exact .of_at stopped.pos hroom

theorem Rests.next (h : c.next = .ok c') : Rests root c' := by
  have leaving : ∃ start ahead, c.Leaving Measured root start ahead := by
    cases rests with
    | new => exact ⟨_, _, .new⟩
    | @cut before after _ pos _ =>
      cases after with
      | nil =>
        have hitems := pos.items
        rw [append_nil] at hitems
        exact ⟨_, _, .finished (hitems ▸ pos)⟩
      | cons x after => exact ⟨_, _, .item pos⟩
    | start pos _ => exact ⟨_, _, .start pos⟩
  obtain ⟨start, ahead, leaving⟩ := leaving
  obtain ⟨pos, hroom⟩ :=
    and_of_ok (next_spec Tracks.measured hroot leaving) (next_room rests.roomy) h
  exact .of_at pos hroom

theorem Rests.prev (h : c.prev = .ok c') : Rests root c' := by
  -- the state before the first item is reached from inside the tree only
  have returning : ∃ behind ahead, behind ++ ahead = root.toList ∧
      c.Returning Measured root behind ahead ∧
      (behind = [] → root.isEmpty = false → root.height ≤ 15) := by
    cases rests with
    | new =>
      refine ⟨root.toList, [], by simp, .new, fun hnil hne => ?_⟩
      have := (SumTree.isEmpty_iff_toList hroot).mpr hnil
      rw [hne] at this
      cases this
    | @cut before after _ pos low =>
      refine ⟨before, after, pos.items, .at pos, fun hnil hne => low ?_⟩
      rintro rfl
      have hitems := pos.items
      rw [hnil, nil_append] at hitems
      have := (SumTree.isEmpty_iff_toList hroot).mpr hitems.symm
      rw [hne] at this
      cases this
    | start pos low => exact ⟨[], root.toList, rfl, .start pos, fun _ _ => low⟩
  obtain ⟨behind, ahead, hitems, returning, hlow⟩ := returning
  obtain ⟨stepped, hroom⟩ :=
    and_of_ok (prev_spec Tracks.measured hroot hitems returning) (prev_room rests.roomy) h
  cases stepped with
  | item pos => exact .of_at pos hroom
  | start pos => exact .start pos (hlow rfl pos.nonempty)
  | empty hempty pos => exact .of_at pos hroom

theorem Rests.move {m : Move D} (h : c.move m = .ok c') : Rests root c' := by
  cases m with
  | seek target bias =>
    obtain ⟨⟨c₁, found⟩, hseek, hc⟩ := Exec.bind_eq_ok.mp h
    obtain rfl : c₁ = c' := Except.ok.inj hc
    exact rests.seek hroot hseek
  | next => exact rests.next hroot h
  | prev => exact rests.prev hroot h

end

/-- **Any moves** leave the cursor at rest. -/
theorem Rests.moves (hroot : root.WellFormed) : ∀ (moves : List (Move D)) {c c' : Cursor T S D},
    Rests root c → moves.foldlM Cursor.move c = .ok c' → Rests root c' := by
  intro moves
  induction moves with
  | nil =>
    intro c c' rests h
    obtain rfl : c = c' := Except.ok.inj h
    exact rests
  | cons m ms ih =>
    intro c c' rests h
    obtain ⟨c₁, hm, hms⟩ := Exec.bind_eq_ok.mp h
    exact ih (rests.move hroot hm) hms

end Moves

/-! ## Agreement -/

/-- Two cursors show the same. -/
structure SameView (c c' : Cursor T S D) : Prop where
  start : c.start = c'.start
  item : c.item = c'.item
  prevItem : c.prevItem = c'.prevItem
  nextItem : c.nextItem = c'.nextItem

/-- Two seeks fail alike, or leave cursors that show the same. -/
def Agrees (x y : Run (Cursor T S D × Bool)) : Prop :=
  match x, y with
  | .ok r, .ok r'       => SameView r.1 r'.1
  | .error e, .error e' => e = e'
  | _, _                => False

theorem Agrees.refl (x : Run (Cursor T S D × Bool)) : Agrees x x := by
  cases x with
  | error e => rfl
  | ok r => exact ⟨rfl, rfl, rfl, rfl⟩

theorem SameView.of_at {root : SumTree T S} (hroot : root.WellFormed) {c c' : Cursor T S D}
    {before after : List T} (pos : c.At Measured root before after)
    (pos' : c'.At Measured root before after) : SameView c c' where
  start := pos.position.trans pos'.position.symm
  item := pos.item_eq.trans pos'.item_eq.symm
  prevItem := (pos.prevItem_eq hroot).trans (pos'.prevItem_eq hroot).symm
  nextItem := pos.nextItem_eq.trans pos'.nextItem_eq.symm

/-- The cursor stands before the first item: its stack is empty, and it is not at the end. -/
def BeforeFirst (c : Cursor T S D) : Prop :=
  c.didSeek = true ∧ c.stack = [] ∧ c.atEnd = false

section Agreement

variable {root : SumTree T S} {c : Cursor T S D} {target : SeekTarget D} {bias : Bias}

/-- With an empty stack a forward seek ends at once, at the end. -/
theorem seekForward_of_nil (hseek : c.didSeek = true) (hstack : c.stack = [])
    (hback : target c.position ≠ .lt) :
    ∃ found, c.seekForward target bias = .ok ({ c with atEnd := true }, found) := by
  obtain ⟨n, hn⟩ : ∃ n, c.tree.size = n + 1 :=
    ⟨c.tree.size - 1, by have := c.tree.two_le_size; omega⟩
  unfold seekForward
  rw [seekInternal_eq hback (.inl ⟨hseek, hstack⟩)]
  obtain ⟨tree, stack, position, didSeek, atEnd⟩ := c
  obtain rfl : didSeek = true := hseek
  obtain rfl : stack = [] := hstack
  simp only [hn]
  cases bias <;> exact ⟨_, rfl⟩

variable [LawfulSummary S] [LawfulDimension D S]

/-- A scan all of whose children are in reach of the target passes them all. -/
theorem scanChildren_all {h : Nat} {cts : List (SumTree T S)} (hw : ∀ c ∈ cts, c.Wf h)
    (hall : ∀ passed c ahead, cts = passed ++ c :: ahead →
      Gpui.reached target bias (measure D (SumTree.toListForest (passed ++ [c]))) = true)
    (entry : StackEntry T S D) :
    ∃ entry' position', scanChildren target bias (cts.zip (cts.map SumTree.summary)) entry
      (Dimension.zero S) () = .ok (none, entry', position', ()) := by
  have hspec : Ensures (fun r => ∃ passed ahead, cts = passed ++ ahead ∧
      ChildrenScanned Measured (fun _ _ _ => True) target bias 0 [] [] entry (Dimension.zero S)
        passed ahead r) (fun e => ∃ k, k < 0 + cts.length ∧ False)
      (scanChildren target bias (cts.zip (cts.map SumTree.summary)) entry (Dimension.zero S) ()) :=
    scanChildren_spec Tracks.measured (aggregates_unit h) (Nat.le_refl h) hw rfl trivial
  obtain ⟨⟨child, entry', position', a⟩, hscan, passed, ahead, hcts, scanned⟩ :=
    (hspec.imp (fun _ h => h) fun e he => he.choose_spec.2).returns
  refine ⟨entry', position', ?_⟩
  cases ahead with
  | nil =>
    obtain rfl : child = none := scanned.child
    exact hscan
  | cons b ahead =>
    exfalso
    have hb := hw b (by simp [hcts])
    have hposition : position' = measure D (SumTree.toListForest passed) := scanned.position
    have hstop := scanned.stopped b (by simp)
    have hreach := hall passed b ahead hcts
    rw [SumTree.toListForest_append, SumTree.toListForest_cons, SumTree.toListForest_nil,
      append_nil, measure_append] at hreach
    rw [hposition, hb.summary_eq, addSummary_itemsSum _ hb.toList_ne_nil, hreach] at hstop
    exact Bool.noConfusion hstop

/-- A seek behind the last item fits the stack of a tree of any height. -/
theorem seek_end (hroot : root.WellFormed) (htree : c.tree = root)
    (hzero : target (Dimension.zero S) ≠ .lt) (hall : ∀ p r, root.toList = p ++ r → p ≠ [] →
      Gpui.reached target bias (measure D p) = true) : ∃ r, c.seek target bias = .ok r := by
  by_cases hle : root.height ≤ 15
  · obtain ⟨c', found, _, _, hseek, -⟩ := seek_returns target bias hroot hle htree hzero
    exact ⟨_, hseek⟩
  subst htree
  obtain ⟨h, -, wf⟩ := hroot.resolve_left (by rintro heq; rw [heq] at hle; exact hle (Nat.zero_le _))
  have hpush : pushEntry c.reset.stack ⟨c.reset.tree, 0, Dimension.zero S⟩ =
      .ok [⟨c.tree, 0, Dimension.zero S⟩] := rfl
  unfold seek
  rw [seekInternal_eq (c := c.reset) hzero (.inr ⟨rfl, hpush⟩)]
  obtain ⟨tree, htree⟩ : ∃ tree, c.tree = tree := ⟨_, rfl⟩
  rw [htree] at wf hle
  cases wf with
  | leaf _ _ => exact absurd (by simp [SumTree.height]) hle
  | @internal h cts ne le children =>
    obtain ⟨entry, -, -, -, hstep⟩ := seekStep_eq_scanChildren target bias
      (e := (⟨c.tree, 0, Dimension.zero S⟩ : StackEntry T S D)) [] (l := []) (r := cts)
      (Dimension.zero S) () htree
      (show (if !false then 0 else 0 + 1) = ([] : List (SumTree T S)).length from rfl)
    have hends : ∀ passed b ahead, cts = passed ++ b :: ahead →
        Gpui.reached target bias (measure D (SumTree.toListForest (passed ++ [b]))) = true := by
      intro passed b ahead hcts
      refine hall _ (SumTree.toListForest ahead) ?_ ?_
      · rw [htree, hcts]
        simp
      · have := (children b (by simp [hcts])).toList_ne_nil
        simp [this]
    obtain ⟨entry', position', hscan⟩ := scanChildren_all children hends entry
    rw [hscan] at hstep
    obtain ⟨n, hn⟩ : ∃ n, c.tree.size = n + 2 :=
      ⟨c.tree.size - 2, by have := c.tree.two_le_size; omega⟩
    have hloop : loop .loopBound (seekStep target bias) c.tree.size
        (⟨[⟨c.tree, 0, Dimension.zero S⟩], Dimension.zero S, false, ()⟩ : SeekState T S D Unit) =
        .ok ⟨[], position', true, ()⟩ := by
      rw [hn, loop, hstep]
      rfl
    have hreset : (c.reset : Cursor T S D).tree = c.tree := rfl
    have hposition : (c.reset : Cursor T S D).position = Dimension.zero S := rfl
    rw [hreset, hposition, hloop]
    cases bias <;> exact ⟨_, rfl⟩

/-- A target in reach of the position of a cursor asks for one cut, the whole way from
    the first item. -/
theorem Stopped.whole {before ahead mid after : List T}
    (stopped : c.Stopped Measured target bias root before ahead mid after)
    (mono : MonotoneTarget target root.toList)
    (hahead : before ≠ [] → Gpui.reached target bias (measure D before) = true) :
    reachedFrom target bias (Dimension.zero S) root.toList = before ++ mid := by
  obtain ⟨rfl, pos, hreached, hnext⟩ := stopped
  have hposition : c.position = measure D (before ++ mid) := pos.position
  rw [hposition] at hreached hnext
  have hcut : reachedFrom target bias (measure D ([] : List T)) (before ++ mid ++ after) =
      before ++ mid := by
    refine reachedFrom_eq mono (by simpa using pos.items.symm) (fun hne => ?_) fun x hx => ?_
    · by_cases hmid : mid = []
      · subst hmid
        rw [append_nil] at hne ⊢
        exact hahead hne
      · exact hreached hmid
    · rw [nil_append, measure_concat]
      exact hnext x hx
  rwa [pos.items] at hcut

/-- From a cut a forward seek ends where a seek does. -/
theorem At.sameView {before after : List T} (hroot : root.WellFormed)
    (pos : c.At Measured root before after) (mono : MonotoneTarget target root.toList)
    (hahead : Gpui.reached target bias c.position = true) {r r' : Cursor T S D × Bool}
    (hforward : c.seekForward target bias = .ok r) (hseek : c.seek target bias = .ok r') :
    SameView r.1 r'.1 := by
  have hposition : c.position = measure D before := pos.position
  obtain ⟨mid, rest, stopped, -⟩ :=
    (seekForward_spec Tracks.measured hroot (.inr pos)).of_ok hforward
  obtain ⟨mid', rest', stopped', -⟩ := (seek_spec Tracks.measured hroot pos.tree).of_ok hseek
  have hwhole := stopped.whole mono (fun _ => by rwa [hposition] at hahead)
  rw [stopped'.whole mono (fun hne => absurd rfl hne), nil_append] at hwhole
  have hrest : rest' = rest := by
    have hitems := stopped'.pos.items.trans stopped.pos.items.symm
    rw [nil_append, hwhole] at hitems
    exact append_cancel_left hitems
  have pos' := stopped'.pos
  rw [nil_append, hwhole, hrest] at pos'
  exact .of_at hroot stopped.pos pos'

theorem At.agrees {before after : List T} (hroot : root.WellFormed)
    (pos : c.At Measured root before after) (low : after ≠ [] → root.height ≤ 15)
    (mono : MonotoneTarget target root.toList)
    (hahead : Gpui.reached target bias c.position = true) :
    Agrees (c.seekForward target bias) (c.seek target bias) := by
  have hposition : c.position = measure D before := pos.position
  have hzero : target (Dimension.zero S) ≠ .lt := by
    intro hlt
    have := (mono [] before after (by simp [pos.items])).2 hlt
    rw [nil_append, ← hposition] at this
    rw [Gpui.reached, this] at hahead
    cases hahead
  have hback : target c.position ≠ .lt := by
    intro hlt
    rw [Gpui.reached, hlt] at hahead
    cases hahead
  have hboth : (∃ r, c.seekForward target bias = .ok r) ∧ ∃ r, c.seek target bias = .ok r := by
    cases after with
    | nil =>
      have hnil : c.stack = [] := by simpa using pos.stack.isEmpty
      obtain ⟨found, hforward⟩ := seekForward_of_nil pos.didSeek hnil hback
      refine ⟨⟨_, hforward⟩, seek_end hroot pos.tree hzero fun p r hitems _ => ?_⟩
      -- everything lies before the cursor, which is in reach
      have hbefore := pos.items
      rw [append_nil] at hbefore
      refine mono.reached_of_append (q := r) (r := []) (by simp [hitems]) ?_
      rwa [← hitems, ← hbefore, ← hposition]
    | cons x after =>
      have hle := low (by simp)
      have hspec : Ensures _ _ (c.seekForward target bias) :=
        seekForward_spec Tracks.measured hroot (.inr pos)
      obtain ⟨r, hforward, -⟩ := (hspec.imp (fun _ h => h)
        (fun e he => he.elim hle determines_measured hback)).returns
      obtain ⟨c', found, _, _, hseek, -⟩ :=
        seek_returns target bias hroot hle pos.tree hzero
      exact ⟨⟨r, hforward⟩, _, hseek⟩
  obtain ⟨⟨r, hforward⟩, r', hseek⟩ := hboth
  have hsame := pos.sameView hroot mono hahead hforward hseek
  rw [hforward, hseek]
  exact hsame

/-- Before the first item a forward seek goes to the end, wherever the target lies. -/
theorem AtStart.agrees_iff (hroot : root.WellFormed) (pos : c.AtStart Measured root)
    (low : root.height ≤ 15) (mono : MonotoneTarget target root.toList)
    (hahead : Gpui.reached target bias c.position = true) :
    Agrees (c.seekForward target bias) (c.seek target bias) ↔
      Gpui.reached target bias (root.treeEnd D) = true ∧ root.treeEnd D = Dimension.zero S := by
  have hposition : c.position = Dimension.zero S := pos.position
  have hback : target c.position ≠ .lt := by
    intro hlt
    rw [Gpui.reached, hlt] at hahead
    cases hahead
  have hne : root.toList ≠ [] := by
    intro hnil
    have := (SumTree.isEmpty_iff_toList hroot).mpr hnil
    rw [pos.nonempty] at this
    cases this
  rw [hroot.treeEnd_eq hne]
  obtain ⟨found, hforward⟩ := seekForward_of_nil pos.didSeek pos.stack hback
  obtain ⟨c', found', mid, after, hseek, stopped, -⟩ :=
    seek_returns target bias hroot low pos.tree (hposition ▸ hback)
  have pos' : c'.At Measured root mid after := stopped.pos
  have hstart' : c'.start = measure D mid := pos'.position
  rw [hforward, hseek]
  constructor
  · intro same
    have hitem := same.item
    rw [pos'.item_eq, show ({ c with atEnd := true } : Cursor T S D).item = .ok none by
      simp [item, assertDidSeek, pos.didSeek, pos.stack]] at hitem
    have hafter : after = [] := by
      cases after with
      | nil => rfl
      | cons x after => cases Except.ok.inj hitem
    have hitems := pos'.items
    rw [hafter, append_nil] at hitems
    refine ⟨?_, ?_⟩
    · have hreached := stopped.reached (hitems ▸ hne)
      rwa [show c'.position = measure D mid from hstart', hitems] at hreached
    · rw [← hitems, ← hstart']
      exact same.start.symm.trans hposition
  · rintro ⟨hreached, hmeasure⟩
    have hmid : mid = root.toList := by
      have hwhole := stopped.whole mono (fun hne => absurd rfl hne)
      rw [nil_append] at hwhole
      rw [← hwhole]
      have hall : reachedFrom target bias (measure D ([] : List T)) (root.toList ++ []) =
          root.toList :=
        reachedFrom_eq mono (by simp) (fun _ => by simpa using hreached) (by simp)
      rwa [append_nil] at hall
    have hafter : after = [] := by
      have hitems := pos'.items
      rw [hmid] at hitems
      exact append_right_eq_self.mp hitems
    rw [hmid, hafter] at pos'
    refine .of_at hroot ⟨pos.tree, pos.didSeek, rfl, ?_, ?_⟩ pos'
    · show Resting Measured root c.stack root.toList []
      rw [pos.stack]
      exact .finished
    · show c.position = measure D root.toList
      rw [hmeasure, hposition]

end Agreement

/-- **`seek_forward` and `seek`**: from every state that seeks and steps lead to, and for a
    monotone target that lies ahead, the two agree exactly when the cursor does not stand
    before the first item, or the target lies behind a tree that has no extent. -/
theorem seek_forward_agrees_iff [LawfulSummary S] [LawfulDimension D S] {root : SumTree T S}
    (hroot : root.WellFormed) {moves : List (Move D)} {c : Cursor T S D}
    (hmoves : moves.foldlM Cursor.move (Cursor.new root) = .ok c) {target : SeekTarget D}
    {bias : Bias} (mono : MonotoneTarget target root.toList)
    (hahead : target c.start = .gt ∨ (target c.start = .eq ∧ bias = .right)) :
    Agrees (c.seekForward target bias) (c.seek target bias) ↔
      ¬ c.BeforeFirst ∨ (Gpui.reached target bias (root.treeEnd D) = true ∧
        root.treeEnd D = Dimension.zero S) := by
  have hreached : Gpui.reached target bias c.position = true := by
    show Gpui.reached target bias c.start = true
    unfold Gpui.reached
    rcases hahead with h | ⟨h, rfl⟩ <;> rw [h] <;> rfl
  cases Rests.moves hroot moves .new hmoves with
  | new =>
    refine iff_of_true (Agrees.refl _) (.inl ?_)
    rintro ⟨hseek, -⟩
    cases hseek
  | cut pos low =>
    refine iff_of_true (pos.agrees hroot low mono hreached) (.inl ?_)
    rintro ⟨-, hnil, hend⟩
    have hempty := pos.stack.isEmpty
    rw [← pos.atEnd, hnil, hend] at hempty
    cases hempty
  | start pos low =>
    rw [pos.agrees_iff hroot low mono hreached, or_iff_right]
    exact fun h => h ⟨pos.didSeek, pos.stack, pos.atEnd⟩

/-- From the fourth item a seek goes on into the second leaf. -/
theorem seek_forward_agrees_integersTree :
    ∃ c, [.seek (atCount 3) .left, Move.next].foldlM Cursor.move (Cursor.new integersTree) = .ok c ∧
      Agrees (c.seekForward (atCount 15) .left) (c.seek (atCount 15) .left) := by
  have hmoves : [.seek (atCount 3) .left, Move.next].foldlM Cursor.move (Cursor.new integersTree) =
      .ok _ := rfl
  exact ⟨_, hmoves, (seek_forward_agrees_iff reachable_integersTree.wellFormed hmoves
    (by decide +kernel) (.inl rfl)).mpr (.inl fun h => absurd h.2.1 (by simp))⟩

/-- Stepped back from the first item, the cursor does not find it again. -/
theorem seek_forward_before_first :
    ∃ c : Cursor (MapEntry Nat Unit) (MapKey Nat) (MapKeyRef Nat),
      [Move.next, .prev].foldlM Cursor.move (Cursor.new oneEntry) = .ok c ∧
      MonotoneTarget (TreeMap.keyRef 3) oneEntry.toList ∧ TreeMap.keyRef 3 c.start = .gt ∧
      ¬ Agrees (c.seekForward (TreeMap.keyRef 3) .left) (c.seek (TreeMap.keyRef 3) .left) := by
  refine ⟨_, rfl, keyRef_eq 3 ▸ monotoneTarget_adaptor (monotone_compare 3) (by decide), rfl, ?_⟩
  intro same
  exact absurd same.item (by decide)

end Cursor

end Gpui
