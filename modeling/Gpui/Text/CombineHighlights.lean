import Gpui.Lib.Sweep
import Gpui.Text.Highlight
import Gpui.Lib.AnyOrder

/-! # Combining highlights: the model

    The endpoints of the ranges of two lists are sorted by position.  An iterator passes them
    and keeps a set of the highlights that are active.  Before it passes an endpoint that lies
    behind the last one it gives out the range between, with the active highlights one on top
    of the other, in the order in which the set is iterated. -/

namespace Gpui

/-- A range with a highlight. -/
abbrev Highlighted (X : Type) := TextRange × HighlightStyle X

namespace CombineHighlights

abbrev Endpoint := Sweep.Endpoint Nat Nat

/-- `sort_unstable_by_key`, by position. -/
structure EndpointSort where
  sort : List Endpoint → List Endpoint
  perm : ∀ endpoints, (sort endpoints).Perm endpoints
  sorted : ∀ endpoints, (sort endpoints).Pairwise (fun a b => a.position ≤ b.position)

/-- The order in which a set is iterated.  It may depend on what was inserted and removed. -/
structure SetOrder where
  iter : List Endpoint → List Nat → List Nat
  perm : ∀ updates ids, (iter updates ids).Perm ids

/-- The variables of the iterator.  After the comment follows the history of the set. -/
structure State (X : Type) where
  endpoints : List Endpoint
  highlights : List (HighlightStyle X)
  activeStyles : List Nat
  ix : Nat
  -- the endpoints at which the set was updated
  updates : List Endpoint

variable {X : Type}

/-- The endpoints of the ranges that are not empty, and their highlights. -/
def collect (items : List (Highlighted X)) : List Endpoint × List (HighlightStyle X) :=
  items.foldl (fun st item =>
    if item.1.isEmpty then st
    else
      let highlightId := st.2.length
      (st.1 ++ [⟨item.1.start, highlightId, true⟩, ⟨item.1.stop, highlightId, false⟩],
        st.2 ++ [item.2])) ([], [])

def combineHighlights (order : EndpointSort) (a b : List (Highlighted X)) : State X where
  endpoints := order.sort (collect (a ++ b)).1
  highlights := (collect (a ++ b)).2
  activeStyles := []
  ix := 0
  updates := []

variable [Field X] [LinearOrder X] [FloorRing X]

/-- The highlights of a set, one on top of the other. -/
def foldStyles (highlights : List (HighlightStyle X)) (ids : List Nat) : Run (HighlightStyle X) :=
  ids.foldlM (fun acc highlightId => do
    let highlight ← getIndex highlights highlightId
    .ok (acc.highlight highlight)) HighlightStyle.none

/-- The loop over the endpoints of `self`. -/
def nextFrom (order : SetOrder) (self : State X) :
    List Endpoint → Run (Option (Highlighted X) × State X)
  | [] => .ok (none, self)
  | endpoint :: rest =>
      let prevIndex := self.ix
      if prevIndex < endpoint.position ∧ self.activeStyles ≠ [] then do
        let currentStyle ← foldStyles self.highlights (order.iter self.updates self.activeStyles)
        .ok (some (⟨prevIndex, endpoint.position⟩, currentStyle),
          { self with ix := endpoint.position })
      else
        nextFrom order { self with
          endpoints := rest
          ix := endpoint.position
          activeStyles :=
            if endpoint.isStart then self.activeStyles.insert endpoint.id
            else self.activeStyles.erase endpoint.id
          updates := self.updates ++ [endpoint] } rest

def next (order : SetOrder) (self : State X) : Run (Option (Highlighted X) × State X) :=
  nextFrom order self self.endpoints

/-- What the iterator gives out until it has nothing more. -/
inductive Yields (order : SetOrder) : State X → List (Highlighted X) → Prop where
  | done {self self' : State X} (h : next order self = .ok (none, self')) : Yields order self []
  | more {self self' : State X} {item : Highlighted X} {items : List (Highlighted X)}
      (h : next order self = .ok (some item, self')) (hrest : Yields order self' items) :
      Yields order self (item :: items)

end CombineHighlights

end Gpui

/-! # Combined highlights are an overlay

    * The ranges that are given out are the stretches between endpoints in which a highlight
      is active (**`yields_stretches`**), whatever the orders.  So they are in order and cover
      the ranges that were combined (**`combineHighlights_ranges`**).
    * The set does not remember in which order highlights came.  The styles are those of the
      highlights from the first to the last iff they are the same in every order
      (**`overlays_iff_agrees`**): of highlights around one position, all that set the weight
      set the same, and so on, and colors and fading come out the same. -/

namespace Gpui

namespace CombineHighlights

open AnyOrder (Independent last)

variable {X : Type}

/-! ## The endpoints -/

/-- The ranges that are not empty. -/
def kept (items : List (Highlighted X)) : List (Highlighted X) :=
  items.filter (fun item => ¬ item.1.isEmpty)

/-- The range with an id, and its highlight. -/
def itemOf (items : List (Highlighted X)) (id : Nat) : Highlighted X :=
  (kept items).getD id (⟨0, 0⟩, HighlightStyle.none)

def lo (items : List (Highlighted X)) (id : Nat) : Nat := (itemOf items id).1.start
def hi (items : List (Highlighted X)) (id : Nat) : Nat := (itemOf items id).1.stop

/-- The ids of the ranges. -/
def ids (items : List (Highlighted X)) : List Nat := List.range (kept items).length

theorem map_itemOf (items : List (Highlighted X)) :
    (ids items).map (itemOf items) = kept items := by
  apply List.ext_getElem
  · simp [ids]
  · intro i hi hi'
    simp [ids, itemOf, List.getElem?_eq_getElem hi']

variable {items : List (Highlighted X)} {id : Nat}

theorem itemOf_append (item : Highlighted X) (hid : id < (kept items).length) :
    itemOf (items ++ [item]) id = itemOf items id := by
  unfold itemOf kept at *
  rw [List.filter_append, List.getD_append _ _ _ _ hid]

/-- The endpoints are those of the ranges, by id. -/
theorem collect_eq (items : List (Highlighted X)) :
    collect items =
      (Sweep.endpoints (lo items) (hi items) (ids items), (kept items).map Prod.snd) := by
  induction items using List.reverseRecOn with
  | nil => rfl
  | append_singleton items item ih =>
    have hstep : collect (items ++ [item]) =
        if item.1.isEmpty then collect items
        else ((collect items).1 ++ [⟨item.1.start, (collect items).2.length, true⟩,
          ⟨item.1.stop, (collect items).2.length, false⟩], (collect items).2 ++ [item.2]) := by
      rw [collect, List.foldl_append]
      rfl
    rw [hstep, ih]
    by_cases hempty : item.1.isEmpty
    · have hkept : kept (items ++ [item]) = kept items := by
        simp [kept, List.filter_append, hempty]
      rw [if_pos hempty]
      unfold lo hi ids itemOf
      rw [hkept]
    · have hkept : kept (items ++ [item]) = kept items ++ [item] := by
        simp [kept, List.filter_append, hempty]
      have hlast : itemOf (items ++ [item]) (kept items).length = item := by
        simp [itemOf, hkept]
      -- the ranges that were there keep their ids
      have hold : Sweep.endpoints (lo (items ++ [item])) (hi (items ++ [item])) (ids items) =
          Sweep.endpoints (lo items) (hi items) (ids items) := by
        refine List.flatMap_congr ?_
        intro id hid
        have hsame := itemOf_append item (List.mem_range.mp hid)
        rw [lo, hi, hsame]
        rfl
      have hids : ids (items ++ [item]) = ids items ++ [(kept items).length] := by
        rw [ids, hkept, List.length_append, List.length_singleton, List.range_succ]
        rfl
      rw [if_neg hempty, hids, hkept]
      unfold Sweep.endpoints at hold ⊢
      rw [List.flatMap_append, hold, List.flatMap_singleton, lo, hi, hlast]
      simp

def NoLater (a b : Endpoint) : Prop := a.position ≤ b.position

instance : DecidableRel NoLater := fun a b => inferInstanceAs (Decidable (a.position ≤ b.position))

instance : Std.Total NoLater := ⟨fun a b => Nat.le_total a.position b.position⟩

instance : IsTrans Endpoint NoLater := ⟨fun _ _ _ => Nat.le_trans⟩

/-- A sort that keeps the order of endpoints of one position. -/
def EndpointSort.insertion : EndpointSort where
  sort endpoints := endpoints.insertionSort NoLater
  perm endpoints := List.perm_insertionSort NoLater endpoints
  sorted endpoints := List.pairwise_insertionSort NoLater endpoints

theorem lo_lt_hi (hid : id ∈ ids items) : lo items id < hi items id := by
  have hmem : itemOf items id ∈ kept items := by
    rw [← map_itemOf]
    exact List.mem_map.mpr ⟨id, hid, rfl⟩
  have hlt : (itemOf items id).1.start < (itemOf items id).1.stop := by
    simpa [TextRange.isEmpty] using (List.mem_filter.mp hmem).2
  exact hlt

/-- The endpoints in the order in which they are passed. -/
theorem from_start (order : EndpointSort) (items : List (Highlighted X)) :
    Sweep.From (lo items) (hi items) (ids items) 0 [] (order.sort (collect items).1) where
  nodup := List.nodup_range
  lo_lt := fun _ hid => lo_lt_hi hid
  perm := by
    rw [collect_eq]
    exact order.perm _
  inOrder := order.sorted _
  passed_le := by simp
  le_rest := by simp

/-! ## What is given out -/

/-- Highlights, each on top of the ones before. -/
def overlay [Field X] [LinearOrder X] [FloorRing X] (styles : List (HighlightStyle X)) :
    HighlightStyle X :=
  styles.foldl HighlightStyle.highlight HighlightStyle.none

section Yields

variable [Field X] [LinearOrder X] [FloorRing X] {order : SetOrder} {items : List (Highlighted X)}
  {l : List Nat}

theorem Yields.of_next_eq {self self' : State X} (h : Yields order self items)
    (hnext : next order self' = next order self) : Yields order self' items := by
  cases h with
  | done h => exact .done (hnext.trans h)
  | more h hrest => exact .more (hnext.trans h) hrest

/-- The iterator gives out one list. -/
theorem Yields.unique {self : State X} {items items' : List (Highlighted X)}
    (h : Yields order self items) (h' : Yields order self items') : items = items' := by
  induction h generalizing items' with
  | done h =>
    cases h' with
    | done _ => rfl
    | more h' _ => simp [h] at h'
  | more h _ ih =>
    cases h' with
    | done h' => simp [h] at h'
    | more h' hrest =>
      obtain ⟨rfl, rfl⟩ : _ ∧ _ := by simpa [h] using h'
      rw [ih hrest]

theorem foldlM_eq_ok (items : List (Highlighted X)) (acc : HighlightStyle X)
    (hl : ∀ id ∈ l, id ∈ ids items) :
    l.foldlM (fun acc highlightId => do
      let highlight ← getIndex ((kept items).map Prod.snd) highlightId
      .ok (acc.highlight highlight)) acc =
      (.ok ((l.map (fun id => (itemOf items id).2)).foldl HighlightStyle.highlight acc) :
        Run (HighlightStyle X)) := by
  induction l generalizing acc with
  | nil => rfl
  | cons id l ih =>
    have hid : id < (kept items).length := List.mem_range.mp (hl id List.mem_cons_self)
    have hget : getIndex ((kept items).map Prod.snd) id = .ok (itemOf items id).2 := by
      apply getIndex_eq_ok
      simp [itemOf, List.getElem?_eq_getElem hid]
    rw [List.foldlM_cons, hget, Exec.ok_bind, Exec.ok_bind,
      ih _ (fun id' hid' => hl id' (List.mem_cons_of_mem _ hid'))]
    rfl

/-- The style of a set is that of its highlights in the order of the set. -/
theorem foldStyles_eq_ok (items : List (Highlighted X)) (hl : ∀ id ∈ l, id ∈ ids items) :
    foldStyles ((kept items).map Prod.snd) l =
      .ok (overlay (l.map (fun id => (itemOf items id).2))) :=
  foldlM_eq_ok items HighlightStyle.none hl

/-- What is given out for a stretch. -/
def emitted (order : SetOrder) (items : List (Highlighted X))
    (stretch : Sweep.Stretch Nat Nat) : Highlighted X :=
  (⟨stretch.start, stretch.stop⟩,
    overlay ((order.iter stretch.passed (Sweep.active stretch.passed)).map
      (fun id => (itemOf items id).2)))

/-- Once for each stretch. -/
theorem yields_from (order : SetOrder) {start : Nat} {passed rest : List Endpoint}
    (h : Sweep.From (lo items) (hi items) (ids items) start passed rest) :
    Yields order ⟨rest, (kept items).map Prod.snd, Sweep.active passed, start, passed⟩
      ((Sweep.stretches start passed rest).map (emitted order items)) := by
  induction rest generalizing start passed with
  | nil => exact .done rfl
  | cons endpoint rest ih =>
    -- behind the endpoint the iterator goes on with the rest
    have hpass : nextFrom order
        ⟨rest, (kept items).map Prod.snd,
          if endpoint.isStart then (Sweep.active passed).insert endpoint.id
          else (Sweep.active passed).erase endpoint.id, endpoint.position, passed ++ [endpoint]⟩
        rest =
        next order ⟨rest, (kept items).map Prod.snd, Sweep.active (passed ++ [endpoint]),
          endpoint.position, passed ++ [endpoint]⟩ := by
      rw [Sweep.active_append]
      rfl
    rw [Sweep.stretches]
    by_cases hstretch : start < endpoint.position ∧ Sweep.active passed ≠ []
    · -- the endpoint is passed by the next call, which begins at its position
      rw [if_pos hstretch, List.map_cons]
      have hstyle := foldStyles_eq_ok items
        (l := order.iter passed (Sweep.active passed)) (by
          intro id hid
          have hactive := (order.perm _ _).mem_iff.mp hid
          exact ((Sweep.mem_active_iff h.toPassing).mp hactive).1)
      have hgive : next order
          ⟨endpoint :: rest, (kept items).map Prod.snd, Sweep.active passed, start, passed⟩ =
          .ok (some (emitted order items ⟨start, endpoint.position, passed⟩),
            ⟨endpoint :: rest, (kept items).map Prod.snd, Sweep.active passed,
              endpoint.position, passed⟩) := by
        rw [next, nextFrom]
        rw [if_pos hstretch, hstyle, Exec.ok_bind]
        rfl
      refine .more hgive ((ih h.next).of_next_eq ?_)
      rw [next, nextFrom]
      rw [if_neg (fun hlt => lt_irrefl _ hlt.1), hpass]
    · rw [if_neg hstretch]
      refine (ih h.next).of_next_eq ?_
      rw [next, nextFrom]
      rw [if_neg hstretch, hpass]

/-- What is given out when two lists are combined. -/
def output (order : EndpointSort) (setOrder : SetOrder) (items : List (Highlighted X)) :
    List (Highlighted X) :=
  (Sweep.stretches 0 [] (order.sort (collect items).1)).map (emitted setOrder items)

theorem yields_stretches (order : EndpointSort) (setOrder : SetOrder) (a b : List (Highlighted X)) :
    Yields setOrder (combineHighlights order a b) (output order setOrder (a ++ b)) := by
  have h := yields_from setOrder (from_start order (a ++ b))
  have hhighlights : (collect (a ++ b)).2 = (kept (a ++ b)).map Prod.snd := by rw [collect_eq]
  rw [← hhighlights] at h
  exact h

end Yields

/-! ## The ranges -/

/-- The highlights around a position, from the first to the last. -/
def around (p : Nat) (items : List (Highlighted X)) : List (HighlightStyle X) :=
  (items.filter (fun item => p ∈ item.1)).map Prod.snd

/-- The highlights of the ranges that contain a range. -/
def containing (range : TextRange) (items : List (Highlighted X)) : List (HighlightStyle X) :=
  (items.filter (fun item =>
    item.1.start ≤ range.start ∧ range.stop ≤ item.1.stop)).map Prod.snd

variable {items : List (Highlighted X)} {p : Nat}

theorem mem_kept_iff {item : Highlighted X} (hp : p ∈ item.1) : item ∈ kept items ↔ item ∈ items := by
  have hlt : item.1.start < item.1.stop := hp.1.trans_lt hp.2
  simp [kept, TextRange.isEmpty, hlt]

/-- The ids around a position. -/
def idsAround (p : Nat) (items : List (Highlighted X)) : List Nat :=
  (ids items).filter (fun id => p ∈ (itemOf items id).1)

theorem around_eq_map (p : Nat) (items : List (Highlighted X)) :
    around p items = (idsAround p items).map (fun id => (itemOf items id).2) := by
  have hfilter : items.filter (fun item => p ∈ item.1) =
      (kept items).filter (fun item => p ∈ item.1) := by
    rw [kept, List.filter_filter]
    refine List.filter_congr ?_
    intro item _
    by_cases hp : p ∈ item.1
    · have hlt : item.1.start < item.1.stop := hp.1.trans_lt hp.2
      simp [hp, TextRange.isEmpty, hlt]
    · simp [hp]
  rw [around, idsAround, hfilter, ← map_itemOf, List.filter_map, List.map_map]
  rfl

theorem mem_idsAround {id : Nat} :
    id ∈ idsAround p items ↔ id ∈ ids items ∧ lo items id ≤ p ∧ p < hi items id := by
  rw [idsAround, List.mem_filter]
  simp only [decide_eq_true_eq]
  rfl

theorem nodup_idsAround (p : Nat) (items : List (Highlighted X)) :
    (idsAround p items).Nodup :=
  List.nodup_range.filter _

/-- An id is around a position iff its range is. -/
theorem exists_around_iff (p : Nat) (items : List (Highlighted X)) :
    (∃ id ∈ ids items, lo items id ≤ p ∧ p < hi items id) ↔ ∃ item ∈ items, p ∈ item.1 := by
  constructor
  · intro h
    obtain ⟨id, hid, hp⟩ := h
    have hmem : itemOf items id ∈ kept items := by
      rw [← map_itemOf]
      exact List.mem_map.mpr ⟨id, hid, rfl⟩
    exact ⟨itemOf items id, (mem_kept_iff hp).mp hmem, hp⟩
  · intro h
    obtain ⟨item, hitem, hp⟩ := h
    have hmem := (mem_kept_iff hp).mpr hitem
    rw [← map_itemOf] at hmem
    obtain ⟨id, hid, rfl⟩ := List.mem_map.mp hmem
    exact ⟨id, hid, hp⟩

variable [Field X] [LinearOrder X] [FloorRing X]

/-- Ranges that are not empty, in order, and together the ranges that were combined. -/
structure Partitions (items : List (Highlighted X)) (out : List (Highlighted X)) : Prop where
  nonempty : ∀ item ∈ out, item.1.start < item.1.stop
  inOrder  : TextRange.InOrder out
  covers   : ∀ p, (∃ item ∈ out, p ∈ item.1) ↔ ∃ item ∈ items, p ∈ item.1

theorem partitions_output (order : EndpointSort) (setOrder : SetOrder)
    (items : List (Highlighted X)) : Partitions items (output order setOrder items) where
  nonempty := by
    intro item hitem
    obtain ⟨stretch, hmem, rfl⟩ := List.mem_map.mp hitem
    exact (Sweep.start_le_of_mem_stretches (from_start order items) hmem).2
  inOrder := List.pairwise_map.mpr (Sweep.stretches_inOrder (from_start order items))
  covers := by
    intro p
    rw [← exists_around_iff p items,
      ← Sweep.mem_stretches_iff (from_start order items) (Nat.zero_le p), output]
    simp only [List.mem_map, exists_exists_and_eq_and]
    rfl

/-! ## The styles -/

/-- Ranges as above, each with the highlights that contain it, from the first to the last. -/
structure Overlays (items : List (Highlighted X)) (out : List (Highlighted X)) : Prop
    extends Partitions items out where
  style : ∀ item ∈ out, item.2 = overlay (containing item.1 items)

section

omit [Field X] [LinearOrder X] [FloorRing X]

/-- Within a stretch, the active highlights are those around a position. -/
theorem active_perm (order : EndpointSort) {stretch : Sweep.Stretch Nat Nat}
    (hmem : stretch ∈ Sweep.stretches 0 [] (order.sort (collect items).1))
    (hstart : stretch.start ≤ p) (hstop : p < stretch.stop) :
    (Sweep.active stretch.passed).Perm (idsAround p items) := by
  rw [List.perm_ext_iff_of_nodup (Sweep.nodup_active _) (nodup_idsAround p items)]
  intro id
  rw [Sweep.mem_active_of_mem_stretches (from_start order items) hmem hstart hstop,
    mem_idsAround]

/-- A range that is around one position of a stretch contains the stretch. -/
theorem containing_eq_around (order : EndpointSort) {stretch : Sweep.Stretch Nat Nat}
    (hmem : stretch ∈ Sweep.stretches 0 [] (order.sort (collect items).1))
    (hstart : stretch.start ≤ p) (hstop : p < stretch.stop) :
    containing ⟨stretch.start, stretch.stop⟩ items = around p items := by
  have hlt := (Sweep.start_le_of_mem_stretches (from_start order items) hmem).2
  unfold containing around
  congr 1
  refine List.filter_congr ?_
  intro item hitem
  rw [decide_eq_decide]
  constructor
  · intro h
    exact ⟨h.1.trans hstart, hstop.trans_le h.2⟩
  · intro hp
    have hkept := (mem_kept_iff hp).mpr hitem
    rw [← map_itemOf] at hkept
    obtain ⟨id, hid, rfl⟩ := List.mem_map.mp hkept
    -- the range is active in the whole stretch, so it is around its first and last position
    have hactive := (Sweep.mem_active_of_mem_stretches (from_start order items) hmem hstart
      hstop).mpr ⟨hid, hp⟩
    have hfirst := (Sweep.mem_active_of_mem_stretches (from_start order items) hmem le_rfl
      hlt).mp hactive
    have hlast := (Sweep.mem_active_of_mem_stretches (from_start order items) hmem
      (Nat.le_sub_one_of_lt hlt) (by omega)).mp hactive
    have hend : stretch.stop - 1 < (itemOf items id).1.stop := hlast.2.2
    exact ⟨hfirst.2.1, show stretch.stop ≤ _ by omega⟩

end

/-- Highlights that give the same in every order. -/
structure Agrees (styles : List (HighlightStyle X)) : Prop where
  color : Independent (fun colors => colors.foldl HighlightStyle.blendColor none)
    (styles.map (·.color))
  fontWeight : ∀ w w', some w ∈ styles.map (·.fontWeight) →
    some w' ∈ styles.map (·.fontWeight) → w = w'
  fontStyle : ∀ s s', some s ∈ styles.map (·.fontStyle) →
    some s' ∈ styles.map (·.fontStyle) → s = s'
  backgroundColor : ∀ c c', some c ∈ styles.map (·.backgroundColor) →
    some c' ∈ styles.map (·.backgroundColor) → c = c'
  underline : ∀ u u', some u ∈ styles.map (·.underline) →
    some u' ∈ styles.map (·.underline) → u = u'
  strikethrough : ∀ s s', some s ∈ styles.map (·.strikethrough) →
    some s' ∈ styles.map (·.strikethrough) → s = s'
  fadeOut : Independent (fun fades => fades.foldl HighlightStyle.blendFade none)
    (styles.map (·.fadeOut))

/-- Each part of a style is made of the same parts. -/
theorem overlay_eq (styles : List (HighlightStyle X)) :
    overlay styles = {
      color := (styles.map (·.color)).foldl HighlightStyle.blendColor none
      fontWeight := last (styles.map (·.fontWeight))
      fontStyle := last (styles.map (·.fontStyle))
      backgroundColor := last (styles.map (·.backgroundColor))
      underline := last (styles.map (·.underline))
      strikethrough := last (styles.map (·.strikethrough))
      fadeOut := (styles.map (·.fadeOut)).foldl HighlightStyle.blendFade none } := by
  induction styles using List.reverseRecOn with
  | nil => rfl
  | append_singleton styles style ih =>
    have hstep : overlay (styles ++ [style]) = (overlay styles).highlight style := by
      rw [overlay, List.foldl_append]
      rfl
    rw [hstep, ih]
    simp only [List.map_append, List.map_cons, List.map_nil, AnyOrder.last_append,
      List.foldl_append, List.foldl_cons, List.foldl_nil]
    rfl

theorem independent_overlay_iff {styles : List (HighlightStyle X)} :
    Independent overlay styles ↔ Agrees styles := by
  constructor
  · intro h
    have hpart : ∀ {β : Type} (part : HighlightStyle X → β) (f : List (HighlightStyle X) → β),
        (∀ styles, part (overlay styles) = f styles) → Independent f styles := by
      intro β part f heq styles' hperm
      rw [← heq, ← heq, h styles' hperm]
    have hlast : ∀ {β : Type} (part : HighlightStyle X → Option β),
        (∀ styles, part (overlay styles) = last (styles.map part)) →
          ∀ b b', some b ∈ styles.map part → some b' ∈ styles.map part → b = b' :=
      fun part heq => AnyOrder.independent_last_iff.mp
        (AnyOrder.independent_map_iff.mp (hpart part (fun styles => last (styles.map part)) heq))
    constructor
    · exact AnyOrder.independent_map_iff.mp (hpart (·.color) _ (fun styles => by rw [overlay_eq]))
    · exact hlast (·.fontWeight) (fun styles => by rw [overlay_eq])
    · exact hlast (·.fontStyle) (fun styles => by rw [overlay_eq])
    · exact hlast (·.backgroundColor) (fun styles => by rw [overlay_eq])
    · exact hlast (·.underline) (fun styles => by rw [overlay_eq])
    · exact hlast (·.strikethrough) (fun styles => by rw [overlay_eq])
    · exact AnyOrder.independent_map_iff.mp
        (hpart (·.fadeOut) _ (fun styles => by rw [overlay_eq]))
  · intro h styles' hperm
    have hlast : ∀ {β : Type} (part : HighlightStyle X → Option β),
        (∀ b b', some b ∈ styles.map part → some b' ∈ styles.map part → b = b') →
          last (styles'.map part) = last (styles.map part) :=
      fun part hsame => AnyOrder.independent_last_iff.mpr hsame _ (hperm.map part)
    have hcolor : (styles'.map (·.color)).foldl HighlightStyle.blendColor none =
        (styles.map (·.color)).foldl HighlightStyle.blendColor none := h.color _ (hperm.map _)
    have hfade : (styles'.map (·.fadeOut)).foldl HighlightStyle.blendFade none =
        (styles.map (·.fadeOut)).foldl HighlightStyle.blendFade none := h.fadeOut _ (hperm.map _)
    rw [overlay_eq, overlay_eq styles, hlast _ h.fontWeight, hlast _ h.fontStyle,
      hlast _ h.backgroundColor, hlast _ h.underline, hlast _ h.strikethrough,
      hcolor, hfade]

/-- The style that is given out is one of the overlays of the highlights around a position. -/
theorem overlays_output {order : EndpointSort} {setOrder : SetOrder}
    (h : ∀ p, Independent overlay (around p items)) :
    Overlays items (output order setOrder items) where
  toPartitions := partitions_output order setOrder items
  style := by
    intro item hitem
    obtain ⟨stretch, hmem, rfl⟩ := List.mem_map.mp hitem
    have hlt := (Sweep.start_le_of_mem_stretches (from_start order items) hmem).2
    have hperm := (setOrder.perm stretch.passed (Sweep.active stretch.passed)).trans
      (active_perm order hmem le_rfl hlt)
    have hstyles := h stretch.start _ (around_eq_map stretch.start items ▸ hperm.map _)
    show overlay _ = overlay (containing ⟨stretch.start, stretch.stop⟩ items)
    rw [containing_eq_around order hmem le_rfl hlt, hstyles]

/-- An order in which one set is iterated in a given way. -/
def SetOrder.of (l : List Nat) : SetOrder where
  iter _ ids := if ids.Perm l then l else ids
  perm _ ids := by
    split
    · next h => exact h.symm
    · exact List.Perm.refl ids

/-- If every order gives an overlay, the order does not matter. -/
theorem independent_of_overlays (order : EndpointSort)
    (h : ∀ setOrder, Overlays items (output order setOrder items)) (p : Nat) :
    Independent overlay (around p items) := by
  intro styles' hperm
  rw [around_eq_map] at hperm
  obtain ⟨l, hl, rfl⟩ := AnyOrder.exists_perm_map hperm
  by_cases hin : ∃ item ∈ items, p ∈ item.1
  · rw [← exists_around_iff, ← Sweep.mem_stretches_iff (from_start order items) (Nat.zero_le p)]
      at hin
    obtain ⟨stretch, hmem, hstart, hstop⟩ := hin
    -- the set is iterated in the order of the permutation
    have hactive := active_perm order hmem hstart hstop
    have hstyle := (h (SetOrder.of l)).style _ (List.mem_map.mpr ⟨stretch, hmem, rfl⟩)
    have hiter : (SetOrder.of l).iter stretch.passed (Sweep.active stretch.passed) = l :=
      if_pos (hactive.trans hl.symm)
    rw [← containing_eq_around order hmem hstart hstop]
    rw [emitted, hiter] at hstyle
    exact hstyle
  · -- no highlight is around the position
    have hnone : idsAround p items = [] := by
      by_contra hne
      obtain ⟨id, hid⟩ := List.exists_mem_of_ne_nil _ hne
      exact hin ((exists_around_iff p items).mp ⟨id, mem_idsAround.mp hid⟩)
    rw [hnone] at hl
    rw [around_eq_map, hnone, hl.eq_nil]

/-- Combined highlights are an overlay, in whatever order the set is iterated, iff the
    highlights around each position agree. -/
theorem overlays_iff_agrees (a b : List (Highlighted X)) :
    (∀ order setOrder, ∃ out, Yields setOrder (combineHighlights order a b) out ∧
      Overlays (a ++ b) out) ↔
      ∀ p, Agrees (around p (a ++ b)) := by
  constructor
  · intro h p
    rw [← independent_overlay_iff]
    refine independent_of_overlays EndpointSort.insertion ?_ p
    intro setOrder
    obtain ⟨out, hyields, hout⟩ := h EndpointSort.insertion setOrder
    rwa [hyields.unique (yields_stretches EndpointSort.insertion setOrder a b)] at hout
  · intro h order setOrder
    exact ⟨_, yields_stretches order setOrder a b,
      overlays_output (fun p => independent_overlay_iff.mpr (h p))⟩

/-- A highlight that sets the weight. -/
def weight (fontWeight : ℚ) : HighlightStyle ℚ :=
  { HighlightStyle.none with fontWeight := some fontWeight }

/-- Three weights for one character.  If the set is iterated with the last highlight before the
    second one, the weight is that of the second one. -/
theorem combineHighlights_forgets_order :
    Yields (SetOrder.of [0, 2, 1])
        (combineHighlights EndpointSort.insertion
          [(⟨0, 1⟩, weight 400), (⟨0, 1⟩, weight 700)] [(⟨0, 1⟩, weight 900)])
        [(⟨0, 1⟩, weight 700)] ∧
      ¬ Overlays [(⟨0, 1⟩, weight 400), (⟨0, 1⟩, weight 700), (⟨0, 1⟩, weight 900)]
        [(⟨0, 1⟩, weight 700)] := by
  constructor
  · have h := yields_stretches EndpointSort.insertion (SetOrder.of [0, 2, 1])
      [(⟨0, 1⟩, weight 400), (⟨0, 1⟩, weight 700)] [(⟨0, 1⟩, weight 900)]
    exact h
  · intro h
    have hstyle := h.style _ List.mem_cons_self
    revert hstyle
    decide

end CombineHighlights

end Gpui
