import Gpui.SumTree.Neighbours
import Gpui.SumTree.Deep

/-! # SumTree: the iterator

    `Iter` walks a tree with a stack of its own: no positions, no filter, and the
    entry on top points at the item that was returned last. -/

set_option linter.unusedSectionVars false

namespace Gpui

open List

open Exec (Returns Ensures Next loop)

variable {T S : Type}

structure Iter (T S : Type) where
  tree  : SumTree T S
  stack : List (StackEntry T S Unit)

namespace Iter

def new (tree : SumTree T S) : Iter T S where
  tree  := tree
  stack := []

structure State (T S : Type) where
  stack   : List (StackEntry T S Unit)
  descend : Bool

/-- One pass of the loop of `next`. -/
def nextStep (st : State T S) :
    Run (Next (State T S) (Option T × List (StackEntry T S Unit))) := do
  match st.stack with
  | [] => pure (.done (none, []))
  | entry :: rest =>
    let entry := if st.descend then entry else { entry with index := entry.index + 1 }
    match entry.tree with
    | .internal _ _ _ childTrees =>
      match childTrees[entry.index]? with
      | some subtree =>
        let stack ← pushEntry (entry :: rest) { tree := subtree, index := 0, position := () }
        pure (.again ⟨stack, true⟩)
      | none => pure (.again ⟨rest, false⟩)
    | .leaf _ items _ =>
      match items[entry.index]? with
      | some nextItem => pure (.done (some nextItem, entry :: rest))
      | none          => pure (.again ⟨rest, false⟩)

def next (it : Iter T S) : Run (Option T × Iter T S) := do
  let st : State T S ←
    match it.stack with
    | [] => do
      let stack ← pushEntry it.stack { tree := it.tree, index := 0, position := () }
      pure ⟨stack, true⟩
    | _ :: _ => pure ⟨it.stack, false⟩
  let (item, stack) ← loop .loopBound nextStep it.tree.size st
  pure (item, { it with stack := stack })

/-- `last` does not look at the stack it clears. -/
def last (it : Iter T S) : Run (Option T) := do
  let leaf ← it.tree.rightmostLeaf
  leaf.last

def sizeHint (it : Iter T S) : Run (Nat × Option Nat) := do
  let lowerBound ←
    match it.stack with
    | top :: _ => checkedSub top.tree.childSummaries.length top.index
    | []       => pure it.tree.childSummaries.length
  pure (lowerBound, none)

/-- `k` calls of `next`, and what they returned. -/
def nexts : Nat → Iter T S → Run (List (Option T) × Iter T S)
  | 0,     it => pure ([], it)
  | k + 1, it => do
      let (item, it) ← it.next
      let (items, it) ← nexts k it
      pure (item :: items, it)

/-! ## Where an iterator stands -/

variable [Summary S] [Item T S]

/-- The positions on the stack are of no interest. -/
abbrev Anywhere : List T → Unit → Prop := fun _ _ => True

/-- The iterator has returned the items `before` and has `after` ahead: it is
    fresh, or stands on the item it returned last. -/
inductive At (root : SumTree T S) : List T → List T → Iter T S → Prop where
  | fresh : At root [] root.toList (new root)
  | returned {stack : List (StackEntry T S Unit)} {front after : List T} {x : T}
      (resting : Resting Anywhere root stack front (x :: after))
      (room : stack.length ≤ stackCapacity) :
      At root (front ++ [x]) after { tree := root, stack := stack }

/-- Between two passes of `next`: walking through the tree, or about to leave the
    item returned last. -/
inductive Moving (root : SumTree T S) : List T → List T → State T S → Prop where
  | walking {st : State T S} {before after : List T}
      (walk : Walk Anywhere root st.stack st.descend before after) : Moving root before after st
  | leaving {st : State T S} {front after : List T} {x : T} (turn : st.descend = false)
      (resting : Resting Anywhere root st.stack front (x :: after)) :
      Moving root (front ++ [x]) after st

section

variable {root : SumTree T S} {before after : List T}

variable {it : Iter T S} {e : StackEntry T S Unit} {b : Bool}

theorem At.items (pos : At root before after it) :
    before ++ after = root.toList := by
  cases pos with
  | fresh => rfl
  | returned resting => simpa using resting.items

theorem At.tree_eq (pos : At root before after it) : it.tree = root := by
  cases pos <;> rfl

variable {st : State T S} {rest : List (StackEntry T S Unit)} {s : S}

theorem Moving.cost_lt (moving : Moving root before after st) :
    walkCost st.stack st.descend < root.size := by
  cases moving with
  | walking walk => exact walk.cost_lt
  | leaving _ resting => exact resting.cost_lt st.descend

/-! ## The loop -/

/-- What a pass of `next` keeps. -/
def Kept (root : SumTree T S) (before after : List T) (st : State T S) : Prop :=
  Moving root before after st ∧ st.stack.length ≤ stackCapacity

/-- How the loop of `next` ends: on the first item ahead, or behind the last. -/
def Ended (root : SumTree T S) (before after : List T)
    (r : Option T × List (StackEntry T S Unit)) : Prop :=
  r.1 = after.head? ∧
    match after with
    | []         => r.2 = []
    | x :: after => At root (before ++ [x]) after { tree := root, stack := r.2 }

/-- What a pass of `next` does. -/
def NextPass (root : SumTree T S) (before after : List T) (st : State T S) :
    Next (State T S) (Option T × List (StackEntry T S Unit)) → Prop :=
  Exec.Pass (Kept root before after) (fun st => walkCost st.stack st.descend)
    (walkCost st.stack st.descend) (Ended root before after)

/-- Where a pass points its entry, coming from above or from a child. -/
theorem advance_eq {n : Nat} (hidx : (if b then e.index else e.index + 1) = n) :
    (if b then e else { e with index := e.index + 1 }) = { e with index := n } := by
  subst hidx
  cases b <;> rfl

theorem getElem?_behind {α : Type} (l r : List α) : (l ++ r)[l.length]? = r.head? := by
  rw [getElem?_append_right (Nat.le_refl _), Nat.sub_self, head?_eq_getElem?]

/-- In an internal node the next child is entered, or the node is left. -/
theorem nextStep_internal {hh : Nat} {css : List S} {cts : List (SumTree T S)}
    (walk : Walk Anywhere root (e :: rest) b before after)
    (hroom : (e :: rest).length ≤ stackCapacity) (htree : e.tree = .internal hh s css cts) :
    Ensures (NextPass root before after ⟨e :: rest, b⟩)
      (fun err => err = .stackFull ∧ 15 < root.height) (nextStep ⟨e :: rest, b⟩) := by
  obtain ⟨h, pre, post, l, r, rfl, rfl, -, -, -, path, hidx, rfl, rfl, -⟩ :=
    walk.internal_inv htree
  obtain ⟨tree, index, position⟩ := e
  subst htree
  unfold nextStep
  dsimp only
  rw [advance_eq hidx]
  simp only [getElem?_behind]
  cases r with
  | nil =>
    refine ⟨⟨.walking ?_, Nat.le_of_succ_le hroom⟩, ?_⟩
    · simpa using path.leave
    · show walkCost rest false < walkCost (_ :: rest) b
      rw [walkCost_internal rfl hidx, walkCost_false]
      omega
  | cons c behind =>
    have hchild : Path Anywhere root
        (⟨.internal (h + 1) s css (l ++ c :: behind), l.length, position⟩ :: rest) h
        (pre ++ SumTree.toListForest l) c (SumTree.toListForest behind ++ post) :=
      .child path rfl rfl trivial
    refine ((hchild.pushEntry_spec ⟨c, 0, ()⟩).with_eq).bind ?_
    rintro stack ⟨rfl, hpush⟩
    refine ⟨⟨.walking ?_, (Cursor.pushEntry_room _ _).of_ok hpush⟩, ?_⟩
    · rw [SumTree.toListForest_cons, append_assoc]
      exact hchild.enter trivial
    · have htree : SumTree.internal (h + 1) s css (l ++ c :: behind) =
          .internal (h + 1) s css (l ++ ([] ++ c :: behind)) := rfl
      exact walkCost_descend htree hidx htree rfl

/-- In a leaf the item pointed at is returned, or the leaf is left. -/
theorem nextStep_leaf {pre post l r : List T} {iss : List S}
    (path : Path Anywhere root rest 0 pre (.leaf s (l ++ r) iss) post)
    (hroom : (e :: rest).length ≤ stackCapacity) (htree : e.tree = .leaf s (l ++ r) iss)
    (hidx : (if b then e.index else e.index + 1) = l.length) :
    Ensures (NextPass root (pre ++ l) (r ++ post) ⟨e :: rest, b⟩)
      (fun err => err = .stackFull ∧ 15 < root.height) (nextStep ⟨e :: rest, b⟩) := by
  obtain ⟨tree, index, position⟩ := e
  subst htree
  unfold nextStep
  dsimp only
  rw [advance_eq hidx]
  simp only [getElem?_behind]
  cases r with
  | nil =>
    refine ⟨⟨.walking ?_, Nat.le_of_succ_le hroom⟩, ?_⟩
    · simpa using path.leave
    · show walkCost rest false < walkCost (_ :: rest) b
      rw [walkCost_leaf rfl, walkCost_false]
      omega
  | cons x behind => exact ⟨rfl, .returned (.item path rfl rfl) hroom⟩

theorem nextStep_spec (kept : Kept root before after st) :
    Ensures (NextPass root before after st) (fun e => e = .stackFull ∧ 15 < root.height)
      (nextStep st) := by
  obtain ⟨moving, hroom⟩ := kept
  obtain ⟨stack, descend⟩ := st
  cases moving with
  | walking walk =>
    match stack with
    | [] =>
      cases walk with
      | finished => exact ⟨rfl, rfl⟩
    | e :: rest =>
      match htree : e.tree with
      | .internal hh s css cts => exact nextStep_internal walk hroom htree
      | .leaf s its iss =>
        obtain ⟨pre, post, l, r, rfl, rfl, -, -, path, hidx, rfl, rfl⟩ := walk.leaf_inv htree
        exact nextStep_leaf path hroom htree (by simpa using hidx)
  | @leaving _ front after x turn resting =>
    subst turn
    cases resting with
    | @item rest pre post l r x s iss e path tree index =>
      -- the leaf is cut behind the item that is left
      have hits : l ++ x :: r = (l ++ [x]) ++ r := by simp
      rw [hits] at path tree
      have := nextStep_leaf (b := false) path hroom tree (by simp [index])
      simpa [append_assoc] using this

/-- **`next`** returns the first item ahead. -/
theorem next_spec (hroot : root.WellFormed) (pos : At root before after it) :
    Ensures (fun r => Ended root before after (r.1, r.2.stack) ∧ r.2.tree = root)
      (fun e => e = .stackFull ∧ 15 < root.height) it.next := by
  have hloop : ∀ {st : State T S}, Kept root before after st →
      Ensures (Ended root before after) (fun e => e = .stackFull ∧ 15 < root.height)
        (loop .loopBound nextStep root.size st) := fun kept =>
    Exec.loop_ensures (Kept root before after) (fun st => walkCost st.stack st.descend)
      (fun _ kept => nextStep_spec kept) _ _ kept kept.1.cost_lt
  cases pos with
  | fresh =>
    rcases hroot with rfl | ⟨h, -, wf⟩
    · exact ⟨⟨rfl, rfl⟩, rfl⟩
    · have hwalk : Walk Anywhere root [⟨root, 0, ()⟩] true [] root.toList := by
        simpa using (Path.root wf).enter (d := ()) trivial
      have hkept : Kept root [] root.toList ⟨[⟨root, 0, ()⟩], true⟩ :=
        ⟨.walking hwalk, by simp [stackCapacity]⟩
      exact (hloop hkept).bind fun r ended => ⟨ended, rfl⟩
  | @returned stack front after x resting room =>
    match stack, resting, room with
    | e :: rest, resting, room =>
      exact (hloop ⟨.leaving rfl resting, room⟩).bind fun r ended => ⟨ended, rfl⟩

/-- **A run of `next`**: the items ahead are returned in order. -/
theorem nexts_spec (hroot : root.WellFormed) {k : Nat} :
    ∀ {before after : List T} {it : Iter T S}, At root before after it → k ≤ after.length →
      Ensures (fun r => r.1 = (after.take k).map some ∧
          At root (before ++ after.take k) (after.drop k) r.2)
        (fun e => e = .stackFull ∧ 15 < root.height) (nexts k it) := by
  induction k with
  | zero =>
    intro before after it pos _
    exact ⟨rfl, by simpa using pos⟩
  | succ k ih =>
    intro before after it pos hle
    refine (next_spec hroot pos).bind ?_
    rintro ⟨item, it'⟩ ⟨ended, htree⟩
    match after, ended, hle with
    | x :: after, ended, hle =>
      obtain ⟨hitem, hat⟩ := ended
      have hat : At root (before ++ [x]) after it' := by
        rw [show it' = ⟨root, it'.stack⟩ by rw [← htree]]
        exact hat
      refine (ih hat (Nat.le_of_succ_le_succ hle)).bind ?_
      rintro ⟨items, it''⟩ ⟨hitems, hat'⟩
      refine ⟨?_, by simpa using hat'⟩
      simp only [show item = some x from hitem, show items = (after.take k).map some from hitems,
        take_succ_cons, map_cons]

/-- An iterator that has returned an item found room for the path to it. -/
theorem At.height_le (pos : At root before after it) (hne : before ≠ []) :
    root.height ≤ 15 := by
  cases pos with
  | fresh => exact absurd rfl hne
  | @returned stack front after x resting room =>
    cases resting with
    | item path =>
      have hlen := path.length
      simp only [length_cons, stackCapacity] at room
      omega

end

end Iter

/-! ## The last leaf -/

/-- The items of the rightmost leaf. -/
def SumTree.lastLeaf (t : SumTree T S) : List T :=
  match t.rightmostLeaf with
  | .ok (.leaf _ items _) => items
  | _                     => []

section LastLeaf

variable [Summary S] [Item T S]

theorem SumTree.Wf.lastLeaf_le {h : Nat} {t : SumTree T S} (wf : Wf h t) :
    t.lastLeaf.length ≤ t.toList.length := by
  induction wf with
  | leaf => simp [lastLeaf, SumTree.rightmostLeaf]
  | @internal h cts ne le children ih =>
    obtain ⟨cs, c, rfl⟩ := eq_nil_or_concat' cts |>.resolve_left ne
    have hc := ih c (by simp)
    rw [lastLeaf] at hc ⊢
    rw [SumTree.rightmostLeaf, rightmostLeafForest_append, toList_internal, toListForest_append,
      toListForest_cons, length_append, length_append]
    omega

/-- A leaf with nothing behind it is the last one; otherwise the last one is
    among the items behind it. -/
theorem Path.lastLeaf {D : Type} [Dimension D S] {P : List T → D → Prop}
    {root sub : SumTree T S} {stack : List (StackEntry T S D)} {h : Nat} {pre post : List T}
    (path : Path P root stack h pre sub post) :
    (post = [] ∧ root.rightmostLeaf = sub.rightmostLeaf) ∨
      (post ≠ [] ∧ root.lastLeaf.length ≤ post.length) := by
  induction path with
  | root => exact .inl ⟨rfl, rfl⟩
  | @child stack h pre post s css l r c e path tree index position ih =>
    have hchildren : ∀ c' ∈ l ++ c :: r, c'.Wf h := by
      have wf := path.wf
      cases wf with
      | internal _ _ children => exact children
    rcases ih with ⟨rfl, hlast⟩ | ⟨hne, hle⟩
    · rcases eq_nil_or_concat' r with rfl | ⟨r, d, rfl⟩
      · refine .inl ⟨rfl, ?_⟩
        rw [hlast, SumTree.rightmostLeaf, SumTree.rightmostLeafForest_append]
      · have hd := (hchildren d (by simp)).lastLeaf_le
        have hne := (hchildren d (by simp)).toList_ne_nil
        refine .inr ⟨by simp [hne], ?_⟩
        rw [SumTree.lastLeaf, hlast, SumTree.rightmostLeaf,
          show l ++ c :: (r ++ [d]) = (l ++ c :: r) ++ [d] by simp,
          SumTree.rightmostLeafForest_append]
        rw [SumTree.lastLeaf] at hd
        simp only [SumTree.toListForest_append, SumTree.toListForest_cons,
          SumTree.toListForest_nil, append_nil, length_append]
        omega
    · refine .inr ⟨by simp [hne], ?_⟩
      rw [length_append]
      omega

end LastLeaf

/-! ## The contract of an iterator -/

namespace Iter

variable [Summary S] [Item T S] {root : SumTree T S} {before after : List T}

/-- The size hint after an item counts the item itself, so that it is a lower
    bound only when there are more leaves. -/
theorem At.sizeHint_spec {it : Iter T S} (pos : At root before after it) (hne : before ≠ []) :
    ∃ lower, it.sizeHint = .ok (lower, none) ∧ 0 < lower ∧
      (lower ≤ after.length ↔ before.length + root.lastLeaf.length ≤ root.toList.length) := by
  have hitems := congrArg List.length pos.items
  cases pos with
  | fresh => exact absurd rfl hne
  | @returned stack front after x resting room =>
    cases resting with
    | @item rest pre post l r x s iss e path tree index =>
      have wf := path.wf
      cases wf with
      | leaf ne le =>
        refine ⟨r.length + 1, ?_, Nat.succ_pos _, ?_⟩
        · simp [sizeHint, tree, index, SumTree.childSummaries, checkedSub]
        · simp only [length_append, length_cons, length_nil] at hitems ⊢
          rcases path.lastLeaf with ⟨rfl, hlast⟩ | ⟨hpost, hle⟩
          · have hlen : root.lastLeaf.length = l.length + (r.length + 1) := by
              rw [SumTree.lastLeaf, hlast]
              simp [SumTree.rightmostLeaf]
            simp only [length_nil] at hitems ⊢
            omega
          · have := length_pos_of_ne_nil hpost
            omega

theorem childSummaries_le (hroot : root.WellFormed) :
    root.childSummaries.length ≤ root.toList.length := by
  have hforest : ∀ {h : Nat} (cts : List (SumTree T S)), (∀ c ∈ cts, c.Wf h) →
      cts.length ≤ (SumTree.toListForest cts).length := by
    intro h cts
    induction cts with
    | nil => simp
    | cons c cs ih =>
      intro hw
      have hc := length_pos_of_ne_nil (hw c (by simp)).toList_ne_nil
      have hcs := ih fun b hb => hw b (by simp [hb])
      rw [SumTree.toListForest_cons, length_append, length_cons]
      omega
  rcases hroot with rfl | ⟨h, -, wf⟩
  · exact Nat.le_refl _
  · cases wf with
    | leaf => simp [SumTree.childSummaries]
    | internal _ _ children => simpa [SumTree.childSummaries] using hforest _ children

theorem last_eq (hroot : root.WellFormed) {it : Iter T S} (htree : it.tree = root) :
    it.last = .ok root.toList.getLast? := by
  rw [last, htree]
  rcases hroot with rfl | ⟨h, -, wf⟩
  · simp [SumTree.new, SumTree.rightmostLeaf, SumTree.last, SumTree.nodeItems]
  · obtain ⟨s, its, iss, hleaf, hlast⟩ := wf.rightmostLeaf
    simp [hleaf, SumTree.rightmostLeaf, SumTree.last, SumTree.nodeItems, hlast]

/-- What is asked of the first `k` calls of `next`, and of `size_hint` and `last`
    after them. -/
def Honours (t : SumTree T S) (k : Nat) : Prop :=
  Returns (fun r => r.1 = (t.toList.take k).map some ∧
      Returns (fun hint => hint.1 ≤ t.toList.length - k) r.2.sizeHint ∧
      r.2.last = .ok (t.toList.drop k).getLast?)
    (nexts k (new t))

theorem honours_zero (hroot : root.WellFormed) : Honours root 0 := by
  refine ⟨_, rfl, rfl, ⟨_, rfl, ?_⟩, ?_⟩
  · exact childSummaries_le hroot
  · rw [drop_zero]
    exact last_eq hroot rfl

/-- **The contract of the iterator** holds after `k` calls exactly when no call was
    made yet, or when the path to the items fits the stack and the item returned
    last is not in the last leaf. -/
theorem honours_iff (hroot : root.WellFormed) {k : Nat} (hk : k ≤ root.toList.length) :
    Honours root k ↔
      k = 0 ∨ (root.height ≤ 15 ∧ k + root.lastLeaf.length ≤ root.toList.length) := by
  rcases Nat.eq_zero_or_pos k with rfl | hpos
  · exact ⟨fun _ => .inl rfl, fun _ => honours_zero hroot⟩
  have hspec := nexts_spec hroot (.fresh : At root [] root.toList (new root)) hk
  rw [nil_append] at hspec
  have hlen : (root.toList.take k).length = k := by
    rw [length_take]
    omega
  have hne : root.toList.take k ≠ [] := ne_nil_of_length_pos (by omega)
  have hdrop : (root.toList.drop k).length = root.toList.length - k := length_drop
  constructor
  · rintro ⟨r, hr, -, ⟨hint, hhint, hle⟩, -⟩
    obtain ⟨-, pos⟩ := hspec.of_ok hr
    obtain ⟨lower, hlower, -, hiff⟩ := pos.sizeHint_spec hne
    rw [hhint] at hlower
    cases hlower
    rw [hlen, hdrop] at hiff
    exact .inr ⟨pos.height_le hne, hiff.mp hle⟩
  · rintro (rfl | ⟨hheight, hroom⟩)
    · exact absurd hpos (Nat.lt_irrefl 0)
    · have hreturns := (hspec.imp (fun _ h => h) fun e h => absurd h.2 (by omega)).returns
      refine hreturns.imp ?_
      rintro r ⟨hitems, pos⟩
      obtain ⟨lower, hlower, hlt, hiff⟩ := pos.sizeHint_spec hne
      rw [hlen, hdrop] at hiff
      have hle := hiff.mpr hroom
      refine ⟨hitems, ⟨_, hlower, hle⟩, ?_⟩
      -- an item is left, so that the last item of all is the last one left
      have hleft : root.toList.drop k ≠ [] := ne_nil_of_length_pos (by omega)
      rw [last_eq hroot pos.tree_eq, ← take_append_drop k root.toList,
        getLast?_append_of_ne_nil _ hleft, take_append_drop]

/-- The last leaf has eight of twenty items. -/
theorem honours_iff_integersTree : Honours integersTree 12 ∧ ¬ Honours integersTree 13 :=
  ⟨(honours_iff reachable_integersTree.wellFormed (by decide)).2 (by decide),
    mt (honours_iff reachable_integersTree.wellFormed (by decide)).1 (by decide)⟩

/-- After the only entry there is nothing left, but the size hint is one and `last`
    gives the entry again. -/
theorem honours_overrun :
    oneEntry.toList.length = 1 ∧
      (do let r ← nexts 1 (new oneEntry); pure (r.1, ← r.2.sizeHint, ← r.2.last)) =
        .ok ([some ⟨3, ()⟩], (1, none), some ⟨3, ()⟩) ∧
      ¬ Honours oneEntry 1 := by
  refine ⟨rfl, rfl, ?_⟩
  rintro ⟨r, hr, -, -, hlast⟩
  cases hr
  cases hlast

end Iter

end Gpui
