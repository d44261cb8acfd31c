import Gpui.SumTree.Zipper

/-! # SumTree: filter cursors

    A `FilterCursor` moves by searches with a fixed filter.  The abstract model is
    the place of a plain cursor, in the list of the items that the filter keeps:
    where that place lies among all items is what `start` tells. -/

set_option linter.unusedSectionVars false

namespace Gpui

open List

open Exec (Returns Ensures Next loop)

variable {T S D : Type}

structure FilterCursor (T S D : Type) where
  cursor     : Cursor T S D
  filterNode : S → Bool

namespace FilterCursor

variable [Dimension D S]

def new (tree : SumTree T S) (filterNode : S → Bool) : FilterCursor T S D where
  cursor     := Cursor.new tree
  filterNode := filterNode

def start (c : FilterCursor T S D) : D := c.cursor.start

def «end» (c : FilterCursor T S D) : Run D := c.cursor.«end»

def item (c : FilterCursor T S D) : Run (Option T) := c.cursor.item

def itemSummary (c : FilterCursor T S D) : Run (Option S) := c.cursor.itemSummary

def next (c : FilterCursor T S D) : Run (FilterCursor T S D) := do
  let cursor ← c.cursor.searchForward c.filterNode
  pure { c with cursor := cursor }

def prev (c : FilterCursor T S D) : Run (FilterCursor T S D) := do
  let cursor ← c.cursor.searchBackward c.filterNode
  pure { c with cursor := cursor }

/-- `next` of the `Iterator`: the item the cursor stands on, which is then left. -/
def iterNext (c : FilterCursor T S D) : Run (Option T × FilterCursor T S D) := do
  let c ← if c.cursor.didSeek then pure c else c.next
  match ← c.item with
  | some item => do
      let c ← c.next
      pure (some item, c)
  | none => pure (none, c)

end FilterCursor

/-- The two ways a filter cursor moves. -/
inductive Turn where
  | next
  | prev
  deriving DecidableEq, Repr

def FilterCursor.turn [Dimension D S] (c : FilterCursor T S D) : Turn → Run (FilterCursor T S D)
  | .next => c.next
  | .prev => c.prev

def Place.turn (xs : List T) (p : Place) : Turn → Place
  | .next => p.next xs
  | .prev => p.prev xs

/-! ## Kept items -/

/-- The items before the one with index `i` among those kept, or all of them. -/
def leading (keep : T → Bool) : Nat → List T → List T
  | _, [] => []
  | i, x :: xs =>
      if keep x then
        match i with
        | 0     => []
        | i + 1 => x :: leading keep i xs
      else
        x :: leading keep i xs

theorem leading_append {keep : T → Bool} {after : List T}
    (hafter : ∀ x ∈ after.head?, keep x = true) :
    ∀ before : List T, leading keep (before.filter keep).length (before ++ after) = before
  | [] => by
      cases after with
      | nil => rfl
      | cons x after =>
        have hx := hafter x rfl
        simp [leading, hx]
  | x :: before => by
      have ih := leading_append hafter before
      cases hx : keep x with
      | true => simpa [leading, hx] using ih
      | false => simpa [leading, hx] using ih

/-- The items before a place among the items kept. -/
def Place.leading (keep : T → Bool) (xs : List T) : Place → List T
  | fresh    => []
  | start    => []
  | behind i => Gpui.leading keep i xs

variable [Summary S] [Item T S] [Dimension D S]

/-- The filter accepts the item. -/
abbrev accepts (T : Type) [Item T S] (filterNode : S → Bool) (x : T) : Bool :=
  filterNode (Item.summary x)

/-- The filter holds of a sum exactly when it holds of one of the summands. -/
def Distributes (filterNode : S → Bool) : Prop :=
  ∀ s t : S, filterNode (Summary.addSummary s t) = (filterNode s || filterNode t)

theorem Distributes.prunes [LawfulSummary S] {filterNode : S → Bool}
    (distributes : Distributes filterNode) : Prunes T filterNode := by
  -- adding to an accumulator that the filter turns down
  have hfoldl : ∀ (ss : List S) (d : S), filterNode (ss.foldl Summary.addSummary d) = false →
      filterNode d = false ∧ ∀ s ∈ ss, filterNode s = false := by
    intro ss
    induction ss with
    | nil => exact fun d h => ⟨h, by simp⟩
    | cons s ss ih =>
      intro d h
      obtain ⟨hd, hss⟩ := ih _ h
      rw [distributes, Bool.or_eq_false_iff] at hd
      exact ⟨hd.1, fun t ht => (mem_cons.mp ht).elim (fun h => h ▸ hd.2) (hss t)⟩
  intro xs h x hx
  exact (hfoldl _ _ h).2 _ (mem_map_of_mem hx)

/-- The cursor shows what lies at the place.  One that was never moved has no item
    to show. -/
structure FilterCursor.Shows (xs : List T) (p : Place) (c : FilterCursor T S D) : Prop where
  item : p ≠ .fresh → c.item = .ok (p.item (xs.filter (accepts T c.filterNode)))
  start : c.start = measure D (p.leading (accepts T c.filterNode) xs)

/-! ## The filter cursor simulates the place -/

/-- The cursor stands at the place among the items that the filter keeps. -/
inductive Filtering (root : SumTree T S) (filterNode : S → Bool) :
    Place → Cursor T S D → Prop where
  | fresh : Filtering root filterNode .fresh (.new root)
  | start {c : Cursor T S D} (pos : c.AtStart Measured root) : Filtering root filterNode .start c
  | behind {before after : List T} {c : Cursor T S D} (pos : c.At Measured root before after)
      (accepted : ∀ x ∈ after.head?, accepts T filterNode x = true) :
      Filtering root filterNode (.behind (before.filter (accepts T filterNode)).length) c
  /-- In an empty tree the places before and behind all items are one. -/
  | empty {c : Cursor T S D} (hempty : root.toList = []) (pos : c.At Measured root [] []) :
      Filtering root filterNode .start c

section Simulation

variable [LawfulSummary S] [LawfulDimension D S] {root : SumTree T S} {filterNode : S → Bool}
  {c : Cursor T S D} {p : Place}

/-- What a search has skipped holds no item that the filter keeps. -/
theorem filter_skipped {xs : List T} (hturned : ∀ x ∈ xs, filterNode (Item.summary x) = false) :
    xs.filter (accepts T filterNode) = [] :=
  filter_eq_nil_iff.mpr fun x hx => by simp [accepts, hturned x hx]

section

variable (hroot : root.WellFormed) (hle : root.height ≤ 15) (prunes : Prunes T filterNode)
include hroot hle prunes

theorem Filtering.next (sim : Filtering root filterNode p c) :
    ∃ c', c.searchForward filterNode = .ok c' ∧
      Filtering root filterNode (p.next (root.toList.filter (accepts T filterNode))) c' := by
  have total : ∀ {start ahead : List T}, Cursor.Leaving Measured root start ahead c →
      ∃ c', c.searchForward filterNode = .ok c' ∧ Filtering root filterNode
        (.behind (start.filter (accepts T filterNode)).length) c' := by
    intro start ahead leaving
    obtain ⟨c', hc, skipped, after, ⟨-, hturned⟩, pos, accepted⟩ :=
      ((Cursor.searchForward_spec Tracks.measured hroot prunes leaving).imp (fun _ h => h)
        (fun e he => by omega)).returns
    have hbehind := Filtering.behind pos accepted
    rw [filter_append, filter_skipped hturned, append_nil] at hbehind
    exact ⟨c', hc, hbehind⟩
  cases sim with
  | fresh => exact total .new
  | start pos => exact total (.start pos)
  | @behind before after _ pos accepted =>
    have hitems := pos.items
    cases after with
    | nil =>
      rw [append_nil] at hitems
      subst hitems
      rw [Place.next, Nat.min_eq_right (Nat.le_succ _)]
      exact total (.finished pos)
    | cons x after =>
      -- the item that the cursor leaves is one of those kept
      have hx : accepts T filterNode x = true := accepted x rfl
      have hlen : ((before ++ [x]).filter (accepts T filterNode)).length =
          min ((before.filter (accepts T filterNode)).length + 1)
            (root.toList.filter (accepts T filterNode)).length := by
        rw [← hitems]
        simp [hx]
      rw [Place.next, ← hlen]
      exact total (.item pos)
  | empty hempty pos =>
    have pos' : c.At Measured root root.toList [] := by rwa [hempty]
    have htotal := total (.finished pos')
    rwa [hempty] at htotal ⊢

theorem Filtering.prev (sim : Filtering root filterNode p c) :
    ∃ c', c.searchBackward filterNode = .ok c' ∧
      Filtering root filterNode (p.prev (root.toList.filter (accepts T filterNode))) c' := by
  -- the place before `n` kept items, stepping back from behind them
  have total : ∀ {behind ahead : List T} {q : Place},
      Cursor.Returning Measured root behind ahead c →
      (∀ i, (behind.filter (accepts T filterNode)).length = i + 1 → q = .behind i) →
      ((behind.filter (accepts T filterNode)).length = 0 → q = .start) →
      (root.toList = [] → behind = []) →
      ∃ c', c.searchBackward filterNode = .ok c' ∧ Filtering root filterNode q c' := by
    intro behind ahead q returning hitem hstart hnil
    obtain ⟨c', hc, backed⟩ :=
      ((Cursor.searchBackward_spec Tracks.measured hroot prunes returning).imp (fun _ h => h)
        (fun e he => by omega)).returns
    refine ⟨c', hc, ?_⟩
    cases backed with
    | @item remaining skipped x skip accepted pos =>
      have hlen : (behind.filter (accepts T filterNode)).length =
          (remaining.filter (accepts T filterNode)).length + 1 := by
        rw [skip.split, filter_append, filter_skipped skip.turned]
        simp [accepts, accepted]
      rw [hitem _ hlen]
      exact .behind pos (by simpa using accepted)
    | start skip pos =>
      rw [hstart (by rw [filter_skipped skip.turned, length_nil])]
      exact .start pos
    | empty hempty pos =>
      rw [hstart (by rw [hnil hempty]; rfl)]
      exact .empty hempty pos
  cases sim with
  | fresh =>
    refine total .new (fun i hi => ?_) (fun h0 => ?_) id
    · have hne : (root.toList.filter (accepts T filterNode)).isEmpty = false := by
        rw [isEmpty_eq_false_iff_exists_mem]
        exact exists_mem_of_length_pos (by omega)
      rw [Place.prev, hne, if_neg (by simp), hi, Nat.add_sub_cancel]
    · rw [Place.prev, length_eq_zero_iff.mp h0]
      rfl
  | start pos => exact total (.start pos) (fun i hi => by simp at hi) (fun _ => rfl) (fun _ => rfl)
  | behind pos accepted =>
    refine total (.at pos) (fun i hi => ?_) (fun h0 => ?_) (fun hempty => ?_)
    · rw [hi]
      rfl
    · rw [h0]
      rfl
    · have hitems := pos.items
      rw [hempty] at hitems
      exact (append_eq_nil_iff.mp hitems).1
  | empty hempty pos =>
    exact total (.at pos) (fun i hi => by simp at hi) (fun _ => rfl) (fun _ => rfl)

/-- **One turn** of the filter cursor is a turn of the place. -/
theorem Filtering.turn (sim : Filtering root filterNode p c) (t : Turn) :
    ∃ c', FilterCursor.turn ⟨c, filterNode⟩ t = .ok ⟨c', filterNode⟩ ∧
      Filtering root filterNode
        (p.turn (root.toList.filter (accepts T filterNode)) t) c' := by
  cases t with
  | next =>
    obtain ⟨c', hc, sim'⟩ := sim.next hroot hle prunes
    exact ⟨c', by simp [FilterCursor.turn, FilterCursor.next, hc], sim'⟩
  | prev =>
    obtain ⟨c', hc, sim'⟩ := sim.prev hroot hle prunes
    exact ⟨c', by simp [FilterCursor.turn, FilterCursor.prev, hc], sim'⟩

/-- **Any sequence of turns** of the filter cursor turns the place alike. -/
theorem Filtering.turns :
    ∀ (turns : List Turn) {c : Cursor T S D} {p : Place}, Filtering root filterNode p c →
      ∃ c', turns.foldlM FilterCursor.turn ⟨c, filterNode⟩ = .ok ⟨c', filterNode⟩ ∧
        Filtering root filterNode
          (turns.foldl (Place.turn (root.toList.filter (accepts T filterNode))) p) c' := by
  intro turns
  induction turns with
  | nil => exact fun sim => ⟨_, rfl, sim⟩
  | cons t ts ih =>
    intro c p sim
    obtain ⟨c', hc, sim'⟩ := sim.turn hroot hle prunes t
    obtain ⟨c'', hcs, sim''⟩ := ih sim'
    refine ⟨c'', ?_, sim''⟩
    rw [foldlM_cons, hc]
    exact hcs

end

theorem Filtering.shows (sim : Filtering root filterNode p c) :
    FilterCursor.Shows root.toList p ⟨c, filterNode⟩ := by
  cases sim with
  | fresh => exact ⟨fun h => absurd rfl h, rfl⟩
  | start pos => exact ⟨fun _ => pos.item_eq, pos.position⟩
  | @behind before after _ pos accepted =>
    have hitems := pos.items
    have hposition : c.position = measure D before := pos.position
    constructor
    · intro _
      show c.item = _
      rw [pos.item_eq, Place.item, ← hitems, filter_append,
        getElem?_append_right (Nat.le_refl _), Nat.sub_self]
      cases after with
      | nil => rfl
      | cons x after =>
        have hx : accepts T filterNode x = true := accepted x rfl
        rw [filter_cons_of_pos hx]
        rfl
    · show c.position = _
      rw [Place.leading, ← hitems, leading_append accepted]
      exact hposition
  | empty hempty pos =>
    refine ⟨fun _ => ?_, pos.position⟩
    exact pos.item_eq

/-- **A filter cursor is a place among the items kept**: whatever turns it has made, on
    a tree of at most 15 levels it shows what lies at the place that the same turns
    lead to. -/
theorem filterCursor_shows_place (hroot : root.WellFormed) (hle : root.height ≤ 15)
    (distributes : Distributes filterNode) (turns : List Turn) :
    ∃ c : FilterCursor T S D,
      turns.foldlM FilterCursor.turn (FilterCursor.new root filterNode) = .ok c ∧
      c.filterNode = filterNode ∧
      c.Shows root.toList
        (turns.foldl (Place.turn (root.toList.filter (accepts T filterNode))) .fresh) := by
  obtain ⟨c, hc, sim⟩ := Filtering.turns hroot hle distributes.prunes turns (Filtering.fresh (D := D))
  exact ⟨⟨c, filterNode⟩, hc, rfl, sim.shows⟩

end Simulation

/-- The even numbers, past a leaf that has none. -/
theorem filterCursor_shows_place_integersTree :
    ∃ c : FilterCursor Nat IntegersSummary IntegersSummary,
      [Turn.next, .next, .next, .prev].foldlM FilterCursor.turn
        (.new integersTree IntegersSummary.containsEven) = .ok c ∧
      c.filterNode = IntegersSummary.containsEven ∧
      c.Shows integers ([Turn.next, .next, .next, .prev].foldl (Place.turn [0, 2, 4, 6]) .fresh) :=
  filterCursor_shows_place reachable_integersTree.wellFormed (by decide) (fun _ _ => rfl) _

/-! ## Deep trees -/

/-- A filter cursor overflows its stack on a deep tree. -/
theorem filterCursor_panics :
    ∃ t : SumTree (MapEntry Nat Unit) (MapKey Nat), Reachable t ∧
      Distributes (fun _ : MapKey Nat => true) ∧
      ∃ e, (FilterCursor.new t fun _ => true : FilterCursor _ _ Unit).next = .error e := by
  obtain ⟨t, reach, hdeep⟩ := exists_deep (⟨3, ()⟩ : MapEntry Nat Unit)
  refine ⟨t, reach, fun _ _ => rfl, ?_⟩
  -- a filter that keeps everything makes the search a plain `next`
  obtain ⟨e, he⟩ := Cursor.next_deep (D := Unit) reach.wellFormed hdeep
  have hsearch : (Cursor.new t : Cursor _ _ Unit).searchForward (fun _ => true) = .error e := he
  exact ⟨e, by simp [FilterCursor.next, FilterCursor.new, hsearch]⟩

end Gpui
