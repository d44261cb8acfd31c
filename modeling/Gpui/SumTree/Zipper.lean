import Gpui.SumTree.Deep
import Gpui.SumTree.Neighbours

/-! # SumTree: a cursor is a place in a list

    The abstract model of a cursor is a place in the list of the items: before
    the first of them, or behind some number of them.  A cursor that was never
    moved stands nowhere.  `next`, `prev` and `seek` move the cursor as they
    move the place, and what the cursor shows is what lies at the place. -/

set_option linter.unusedSectionVars false

namespace Gpui

open List

open Exec (Returns Ensures)

variable {T S D : Type} [Summary S] [Item T S] [Dimension D S]

/-! ## Places -/

/-- A place in a list: nowhere yet, before the first item, or behind `i` items. -/
inductive Place where
  | fresh
  | start
  | behind (i : Nat)
  deriving DecidableEq, Repr

namespace Place

variable (xs : List T)

def next : Place → Place
  | fresh    => behind 0
  | start    => behind 0
  | behind i => behind (min (i + 1) xs.length)

def prev : Place → Place
  | fresh    => if xs.isEmpty then start else behind (xs.length - 1)
  | start    => start
  | behind 0 => start
  | behind (i + 1) => behind i

/-- The items before the place. -/
def before : Place → List T
  | fresh    => []
  | start    => []
  | behind i => xs.take i

def item : Place → Option T
  | fresh    => none
  | start    => none
  | behind i => xs[i]?

def nextItem : Place → Option T
  | fresh    => none
  | start    => xs[0]?
  | behind i => xs[i + 1]?

def prevItem : Place → Option T
  | fresh    => none
  | start    => none
  | behind i => (xs.take i).getLast?

/-- Where a seek may end: the target was in reach of the items before the place,
    and is not in reach of the next one. -/
def Sought (target : SeekTarget D) (bias : Bias) (i : Nat) : Prop :=
  i ≤ xs.length ∧ (0 < i → reached target bias (measure D (xs.take i)) = true) ∧
    (i < xs.length → reached target bias (measure D (xs.take (i + 1))) = false)

end Place

/-- The operations of a cursor that move it. -/
inductive Move (D : Type) where
  | seek (target : SeekTarget D) (bias : Bias)
  | next
  | prev

/-- What a move does to a place. -/
inductive Place.Step (xs : List T) : Move D → Place → Place → Prop where
  | seek {target : SeekTarget D} {bias : Bias} {p : Place} {i : Nat}
      (sought : Place.Sought xs target bias i) : Place.Step xs (.seek target bias) p (.behind i)
  | next {p : Place} : Place.Step xs .next p (p.next xs)
  | prev {p : Place} : Place.Step xs .prev p (p.prev xs)

/-- What a sequence of moves does to a place. -/
inductive Place.Steps (xs : List T) : List (Move D) → Place → Place → Prop where
  | nil {p : Place} : Place.Steps xs [] p p
  | cons {m : Move D} {ms : List (Move D)} {p q r : Place} :
      Place.Step xs m p q → Place.Steps xs ms q r → Place.Steps xs (m :: ms) p r

def Cursor.move (c : Cursor T S D) : Move D → Run (Cursor T S D)
  | .seek target bias => do
      let (c, _) ← c.seek target bias
      pure c
  | .next => c.next
  | .prev => c.prev

/-- The cursor shows what lies at the place. -/
structure Cursor.Shows (xs : List T) (p : Place) (c : Cursor T S D) : Prop where
  item : c.item = .ok (p.item xs)
  nextItem : c.nextItem = .ok (p.nextItem xs)
  prevItem : c.prevItem = .ok (p.prevItem xs)
  start : c.start = measure D (p.before xs)

/-! ## The cursor simulates the place -/

/-- The cursor stands at the place. -/
inductive Simulates (root : SumTree T S) : Place → Cursor T S D → Prop where
  | fresh : Simulates root .fresh (.new root)
  | start {c : Cursor T S D} (pos : c.AtStart Measured root) : Simulates root .start c
  | behind {before after : List T} {c : Cursor T S D} (pos : c.At Measured root before after) :
      Simulates root (.behind before.length) c
  /-- In an empty tree the places before and behind all items are one. -/
  | empty {c : Cursor T S D} (hempty : root.toList = []) (pos : c.At Measured root [] []) :
      Simulates root .start c

section Simulation

variable [LawfulSummary S] [LawfulDimension D S] {root : SumTree T S} {c : Cursor T S D}
  {p : Place}

section

variable (hroot : root.WellFormed) (hle : root.height ≤ 15) (sim : Simulates root p c)
include hroot hle sim

theorem Simulates.next : ∃ c', c.next = .ok c' ∧ Simulates root (p.next root.toList) c' := by
  have total : ∀ {start ahead : List T}, Cursor.Leaving Measured root start ahead c →
      ∃ c', c.next = .ok c' ∧ c'.At Measured root start ahead := fun leaving =>
    ((Cursor.next_spec Tracks.measured hroot leaving).imp (fun _ h => h)
      (fun e he => by omega)).returns
  cases sim with
  | fresh =>
    obtain ⟨c', hc, pos⟩ := total .new
    exact ⟨c', hc, .behind pos⟩
  | start pos =>
    obtain ⟨c', hc, pos⟩ := total (.start pos)
    exact ⟨c', hc, .behind pos⟩
  | @behind before after _ pos =>
    have hitems := pos.items
    cases after with
    | nil =>
      rw [append_nil] at hitems
      subst hitems
      obtain ⟨c', hc, pos'⟩ := total (.finished pos)
      refine ⟨c', hc, ?_⟩
      rw [Place.next, Nat.min_eq_right (Nat.le_succ _)]
      exact .behind pos'
    | cons x after =>
      obtain ⟨c', hc, pos'⟩ := total (.item pos)
      refine ⟨c', hc, ?_⟩
      have hlen : (before ++ [x]).length = min (before.length + 1) root.toList.length := by
        rw [← hitems]
        simp
      rw [Place.next, ← hlen]
      exact .behind pos'
  | empty hempty pos =>
    have pos' : c.At Measured root root.toList [] := by rwa [hempty]
    obtain ⟨c', hc, pos'⟩ := total (.finished pos')
    refine ⟨c', hc, ?_⟩
    rw [hempty] at pos'
    exact .behind pos'

theorem Simulates.prev : ∃ c', c.prev = .ok c' ∧ Simulates root (p.prev root.toList) c' := by
  have total : ∀ {behind ahead : List T}, behind ++ ahead = root.toList →
      Cursor.Returning Measured root behind ahead c →
      ∃ c', c.prev = .ok c' ∧ Cursor.SteppedBack Measured root behind ahead c' :=
    fun hitems returning => ((Cursor.prev_spec Tracks.measured hroot hitems returning).imp
      (fun _ h => h) (fun e he => by omega)).returns
  cases sim with
  | fresh =>
    obtain ⟨c', hc, stepped⟩ := total (append_nil _) .new
    refine ⟨c', hc, ?_⟩
    generalize hbehind : root.toList = behind at stepped
    cases stepped with
    | @item before _ x _ pos =>
      have hne : (before ++ [x]).isEmpty = false := by simp
      rw [Place.prev, hne, if_neg (by simp), length_append, length_singleton,
        Nat.add_sub_cancel]
      exact .behind pos
    | start pos => exact .start pos
    | empty hempty pos => exact .empty hempty pos
  | start pos =>
    obtain ⟨c', hc, stepped⟩ := total (nil_append _) (.start pos)
    refine ⟨c', hc, ?_⟩
    generalize hbehind : ([] : List T) = behind at stepped
    cases stepped with
    | item pos => simp at hbehind
    | start pos => exact .start pos
    | empty hempty pos => exact .empty hempty pos
  | behind pos =>
    obtain ⟨c', hc, stepped⟩ := total pos.items (.at pos)
    refine ⟨c', hc, ?_⟩
    cases stepped with
    | item pos =>
      rw [length_append, length_singleton]
      exact .behind pos
    | start pos => exact .start pos
    | empty hempty pos => exact .empty hempty pos
  | empty hempty pos =>
    obtain ⟨c', hc, stepped⟩ := total pos.items (.at pos)
    refine ⟨c', hc, ?_⟩
    generalize hbehind : ([] : List T) = behind at stepped
    cases stepped with
    | item pos => simp at hbehind
    | start pos => exact .start pos
    | empty hempty pos => exact .empty hempty pos

theorem Simulates.seek {target : SeekTarget D} (bias : Bias)
    (htarget : target (Dimension.zero S) ≠ .lt) :
    ∃ c' found i, c.seek target bias = .ok (c', found) ∧
      Place.Sought root.toList target bias i ∧ Simulates root (.behind i) c' := by
  have htree : c.tree = root := by
    cases sim with
    | fresh => rfl
    | start pos => exact pos.tree
    | behind pos => exact pos.tree
    | empty _ pos => exact pos.tree
  obtain ⟨c', found, mid, after, hc, ⟨hsplit, pos, hreached, hnext⟩, -⟩ :=
    Cursor.seek_returns target bias hroot hle htree htarget
  have hposition : c'.position = measure D mid := pos.position
  refine ⟨c', found, mid.length, hc, ⟨?_, ?_, ?_⟩, .behind pos⟩
  · rw [hsplit, length_append]
    omega
  · intro hpos
    rw [hsplit, take_left, ← hposition]
    exact hreached (ne_nil_of_length_pos hpos)
  · intro hlt
    cases after with
    | nil => simp [hsplit] at hlt
    | cons x after =>
      have hstop := hnext x rfl
      have htake : root.toList.take (mid.length + 1) = mid ++ [x] := by
        rw [hsplit, take_length_add_append, take_succ_cons, take_zero]
      rw [hposition] at hstop
      rw [htake, measure_append]
      exact hstop

end

/-- A move asks for nothing before the start of the tree. -/
def Move.Ahead : Move D → Prop
  | .seek target _ => target (Dimension.zero S) ≠ .lt
  | .next          => True
  | .prev          => True

/-- **One move** of the cursor is a move of the place. -/
theorem Simulates.move (hroot : root.WellFormed) (hle : root.height ≤ 15)
    (sim : Simulates root p c) {m : Move D} (ahead : m.Ahead (S := S)) :
    ∃ c' p', c.move m = .ok c' ∧ Place.Step root.toList m p p' ∧ p' ≠ .fresh ∧
      Simulates root p' c' := by
  cases m with
  | seek target bias =>
    obtain ⟨c', found, i, hc, sought, sim'⟩ := sim.seek hroot hle bias ahead
    exact ⟨c', _, by simp [Cursor.move, hc], .seek sought, by simp, sim'⟩
  | next =>
    obtain ⟨c', hc, sim'⟩ := sim.next hroot hle
    refine ⟨c', _, hc, .next, ?_, sim'⟩
    cases p <;> simp [Place.next]
  | prev =>
    obtain ⟨c', hc, sim'⟩ := sim.prev hroot hle
    refine ⟨c', _, hc, .prev, ?_, sim'⟩
    cases p with
    | fresh => cases h : root.toList.isEmpty <;> simp [Place.prev, h]
    | start => simp [Place.prev]
    | behind i => cases i <;> simp [Place.prev]

/-- **Any sequence of moves** of the cursor moves the place alike. -/
theorem Simulates.moves (hroot : root.WellFormed) (hle : root.height ≤ 15) :
    ∀ (moves : List (Move D)) {c : Cursor T S D} {p : Place}, Simulates root p c →
      (∀ m ∈ moves, m.Ahead (S := S)) → (moves = [] → p ≠ .fresh) →
      ∃ c' p', moves.foldlM Cursor.move c = .ok c' ∧ Place.Steps root.toList moves p p' ∧
        p' ≠ .fresh ∧ Simulates root p' c' := by
  intro moves
  induction moves with
  | nil =>
    intro c p sim _ hne
    exact ⟨c, p, rfl, .nil, hne rfl, sim⟩
  | cons m ms ih =>
    intro c p sim ahead _
    obtain ⟨c', q, hc, step, hq, sim'⟩ := sim.move hroot hle (ahead m (by simp))
    obtain ⟨c'', r, hcs, steps, hr, sim''⟩ :=
      ih sim' (fun m hm => ahead m (by simp [hm])) (fun _ => hq)
    refine ⟨c'', r, ?_, .cons step steps, hr, sim''⟩
    rw [foldlM_cons, hc]
    exact hcs

theorem Simulates.shows (hroot : root.WellFormed) (sim : Simulates root p c)
    (hp : p ≠ .fresh) : c.Shows root.toList p := by
  have hend : root.toList = [] → c.At Measured root [] [] → c.Shows root.toList .start := by
    intro hempty pos
    exact ⟨pos.item_eq, by rw [pos.nextItem_eq, hempty]; rfl, pos.prevItem_eq hroot, pos.position⟩
  cases sim with
  | fresh => exact absurd rfl hp
  | start pos =>
    refine ⟨pos.item_eq, ?_, pos.prevItem_eq, pos.position⟩
    rw [pos.nextItem_eq hroot, head?_eq_getElem?]
    rfl
  | @behind before after _ pos =>
    have hitems := pos.items
    have hposition : c.position = measure D before := pos.position
    refine ⟨?_, ?_, ?_, ?_⟩
    · rw [pos.item_eq, Place.item, ← hitems, getElem?_append_right (Nat.le_refl _),
        Nat.sub_self, head?_eq_getElem?]
    · rw [pos.nextItem_eq, Place.nextItem, ← hitems, getElem?_append_right (by omega),
        Nat.add_sub_cancel_left, head?_eq_getElem?, getElem?_tail]
    · rw [pos.prevItem_eq hroot, Place.prevItem, ← hitems, take_left]
    · rw [Place.before, ← hitems, take_left]
      exact hposition
  | empty hempty pos => exact hend hempty pos

/-- The iterator goes through the items one by one. -/
theorem Simulates.iterNext (hroot : root.WellFormed) (hle : root.height ≤ 15) {i : Nat}
    (hi : i ≤ root.toList.length) (sim : Simulates root (.behind i) c) :
    ∃ c', c.iterNext = .ok (root.toList[i]?, c') ∧
      Simulates root (.behind (min (i + 1) root.toList.length)) c' := by
  have hitem := (sim.shows hroot (by simp)).item
  have hseek : c.didSeek = true := by
    cases sim with
    | behind pos => exact pos.didSeek
  obtain ⟨c', hnext, sim'⟩ := sim.next hroot hle
  unfold Cursor.iterNext
  cases hat : root.toList[i]? with
  | none =>
    have hend := getElem?_eq_none_iff.mp hat
    have hitem : c.item = .ok none := hitem.trans (congrArg Except.ok hat)
    refine ⟨c, by simp [hseek, hitem], ?_⟩
    rwa [Nat.min_eq_right (by omega), show root.toList.length = i by omega]
  | some item =>
    have hitem : c.item = .ok (some item) := hitem.trans (congrArg Except.ok hat)
    exact ⟨c', by simp [hseek, hitem, hnext], sim'⟩

/-- **A cursor is a place in a list**: whatever moves it has made, the cursor on a tree
    of at most 15 levels shows what lies at the place that the same moves lead to. -/
theorem cursor_shows_place (hroot : root.WellFormed) (hle : root.height ≤ 15)
    {moves : List (Move D)} (hne : moves ≠ []) (ahead : ∀ m ∈ moves, m.Ahead (S := S)) :
    ∃ c p, moves.foldlM Cursor.move (Cursor.new root) = .ok c ∧
      Place.Steps root.toList moves .fresh p ∧ p ≠ .fresh ∧ c.Shows root.toList p := by
  obtain ⟨c, p, hc, steps, hp, sim⟩ :=
    Simulates.moves hroot hle moves Simulates.fresh ahead (fun h => absurd h hne)
  exact ⟨c, p, hc, steps, hp, sim.shows hroot hp⟩

end Simulation

/-- A seek into the second leaf, and steps from there back into the first one. -/
theorem cursor_shows_place_integersTree :
    let moves := [.seek (atCount 13) .left, Move.next, .prev, .prev]
    ∃ c p, moves.foldlM Cursor.move (Cursor.new integersTree) = .ok c ∧
      Place.Steps integers moves .fresh p ∧ p ≠ .fresh ∧ c.Shows integers p ∧
      p.item integers = some 23 := by
  intro moves
  have hne : moves ≠ [] := by simp [moves]
  have hahead : ∀ m ∈ moves, m.Ahead (S := IntegersSummary) := by
    simp only [moves, forall_mem_cons, not_mem_nil, false_implies, implies_true, and_true,
      Move.Ahead]
    decide
  obtain ⟨c, p, hmoves, steps, hp, shows⟩ :=
    cursor_shows_place reachable_integersTree.wellFormed (by decide) hne hahead
  refine ⟨c, p, hmoves, steps, hp, shows, ?_⟩
  have hrun : (moves.foldlM Cursor.move (Cursor.new integersTree)).bind Cursor.item =
      .ok (some 23) := by decide +kernel
  rw [hmoves] at hrun
  exact Except.ok.inj (shows.item.symm.trans hrun)

/-- A cursor that never moved shows nothing, and `prev` takes it to the last item;
    a seek refuses a target before the start and overflows its stack on a deep tree. -/
theorem cursor_place_panics :
    (Cursor.new oneEntry : Cursor _ _ Unit).item = .error .mustSeekFirst ∧
      (do (← (Cursor.new oneEntry : Cursor _ _ Unit).prev).item) = .ok (some ⟨3, ()⟩) ∧
      (Cursor.new oneEntry : Cursor _ _ Unit).move (.seek (fun _ => .lt) .left) =
        .error .cannotSeekBackward ∧
      ∃ t : SumTree (MapEntry Nat Unit) (MapKey Nat), Reachable t ∧
        ∃ e, (Cursor.new t : Cursor _ _ Unit).move (.seek (fun _ => .eq) .left) = .error e := by
  refine ⟨rfl, rfl, rfl, ?_⟩
  obtain ⟨t, reach, hdeep⟩ := exists_deep (⟨3, ()⟩ : MapEntry Nat Unit)
  obtain ⟨e, he⟩ := Cursor.seek_deep (D := Unit) (fun _ => .eq) .left reach.wellFormed hdeep
    rfl
  refine ⟨t, reach, e, ?_⟩
  simp only [Cursor.move, he]
  rfl

end Gpui
