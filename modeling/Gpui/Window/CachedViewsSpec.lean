import Gpui.Window.CachedViews

/-! # Which entities a frame records

    A frame records what its parts touch: the entities that the code in them accesses, and
    those that were recorded for the views it reuses.  For a view that is drawn, what the
    frame had accessed before is not recorded, nor what its paint and its deferred draws
    access. -/

namespace Gpui

open List

open StableSort

namespace CachedViews

variable {W V E K : Type}

/-! ### Section 1: The log and the record -/

/-- The accesses of a paint, as touches. -/
def touches (paint : List (List V × E)) : List (Touch V E) := paint.map fun a => .entity a.1 a.2

theorem touches_append (paint paint' : List (List V × E)) :
    touches (paint ++ paint') = touches paint ++ touches paint' := map_append

theorem touches_owned (owners : List V) (entities : List E) :
    touches (entities.map (owners, ·)) = entities.map (.entity owners) := by
  unfold touches
  rw [map_map]
  rfl

/-- For a view is recorded what its prepaint accessed, unless the frame had accessed it
    before. -/
def ViewElementState.Noted (state : ViewElementState E K) : Prop :=
  ∀ e, e ∈ state.accessedEntities ↔ e ∈ state.inside ∧ e ∉ state.earlier

/-- The record of a frame follows its log. -/
structure Recorded (rendered : V → Option (ViewElementState E K)) (d : Drawing V E K) : Prop where
  accessed : ∀ e, e ∈ d.accessedEntities ↔ (∃ owners, .entity owners e ∈ d.log) ∨
    ∃ owners id state, .reuse owners id ∈ d.log ∧ rendered id = some state ∧
      e ∈ state.accessedEntities
  states : ∀ id state, d.elementStates id = some state → state.Noted ∨ rendered id = some state
  reused : ∀ owners id, .reuse owners id ∈ d.log → d.elementStates id ≠ none

section Record

variable {rendered : V → Option (ViewElementState E K)}

section Entities

variable [DecidableEq E] {d : Drawing V E K}

theorem Recorded.access (h : Recorded rendered d) (owners : List V) (entities : List E) :
    Recorded rendered (d.access owners entities) where
  accessed := by
    intro e
    show e ∈ d.accessedEntities ∪ entities.toFinset ↔ (∃ o, .entity o e ∈ d.log ++ _) ∨ ∃ o id state,
      .reuse o id ∈ d.log ++ _ ∧ _ ∧ _
    rw [Finset.mem_union, mem_toFinset, h.accessed e]
    constructor
    · rintro ((⟨o, ho⟩ | ⟨o, id, state, ho, hstate⟩) | he)
      · exact .inl ⟨o, mem_append_left _ ho⟩
      · exact .inr ⟨o, id, state, mem_append_left _ ho, hstate⟩
      · exact .inl ⟨owners, mem_append_right _ (mem_map_of_mem he)⟩
    · rintro (⟨o, ho⟩ | ⟨o, id, state, ho, hstate⟩)
      · obtain ho | ho := mem_append.1 ho
        · exact .inl (.inl ⟨o, ho⟩)
        · obtain ⟨e', he', heq⟩ := mem_map.1 ho
          rw [Touch.entity.injEq] at heq
          exact .inr (heq.2 ▸ he')
      · obtain ho | ho := mem_append.1 ho
        · exact .inl (.inr ⟨o, id, state, ho, hstate⟩)
        · obtain ⟨_, _, heq⟩ := mem_map.1 ho
          cases heq
  states := h.states
  reused := by
    intro o id ho
    obtain ho | ho := mem_append.1 ho
    · exact h.reused o id ho
    · obtain ⟨_, _, heq⟩ := mem_map.1 ho
      cases heq

theorem Recorded.paint (h : Recorded rendered d) (paint : List (List V × E)) :
    Recorded rendered (d.paint paint) := by
  induction paint generalizing d with
  | nil => exact h
  | cons a paint ih => exact ih (h.access a.1 [a.2])

theorem log_paint (d : Drawing V E K) (paint : List (List V × E)) :
    (d.paint paint).log = d.log ++ touches paint := by
  unfold Drawing.paint
  induction paint generalizing d with
  | nil => exact (append_nil _).symm
  | cons a paint ih =>
    rw [foldl_cons, ih]
    exact append_assoc _ _ _

theorem mem_accessedSince {start : Drawing V E K} {added : List (Touch V E)}
    (hlog : d.log = start.log ++ added) (e : E) :
    e ∈ d.accessedSince start.log.length ↔ ∃ owners, .entity owners e ∈ added := by
  unfold Drawing.accessedSince
  rw [hlog, drop_left, mem_toFinset, mem_filterMap]
  constructor
  · rintro ⟨touch, hmem, htouch⟩
    cases touch with
    | entity owners entity =>
      rw [Option.some.injEq] at htouch
      exact ⟨owners, htouch ▸ hmem⟩
    | reuse owners id => cases htouch
  · rintro ⟨owners, hmem⟩
    exact ⟨_, hmem, rfl⟩

end Entities

variable [DecidableEq V]

variable {id : V} {state : ViewElementState E K}
  {elementStates : V → Option (ViewElementState E K)}

/-- The state of a view is set. -/
theorem update_states {P : V → ViewElementState E K → Prop}
    (h : ∀ other other', elementStates other = some other' → P other other') (hid : P id state) :
    ∀ other other', Function.update elementStates id (some state) other = some other' →
      P other other' := by
  intro other other' hother
  by_cases heq : other = id
  · rw [heq, Function.update_self, Option.some.injEq] at hother
    rw [heq, ← hother]
    exact hid
  · rw [Function.update_of_ne heq] at hother
    exact h other other' hother

theorem update_ne_none {other : V} (h : elementStates other ≠ none ∨ other = id) :
    Function.update elementStates id (some state) other ≠ none := by
  by_cases heq : other = id
  · rw [heq, Function.update_self]
    exact Option.some_ne_none _
  · rw [Function.update_of_ne heq]
    exact h.resolve_right heq

variable [DecidableEq E]

theorem Recorded.reuse {d : Drawing V E K} (h : Recorded rendered d) (owners : List V)
    (hstate : rendered id = some state) :
    Recorded rendered (d.reuse owners id state) where
  accessed := by
    intro e
    show e ∈ d.accessedEntities ∪ state.accessedEntities ↔
      (∃ o, .entity o e ∈ d.log ++ _) ∨ ∃ o id state, .reuse o id ∈ d.log ++ _ ∧ _ ∧ _
    rw [Finset.mem_union, h.accessed e]
    constructor
    · rintro ((⟨o, ho⟩ | ⟨o, other, state', ho, hstate'⟩) | he)
      · exact .inl ⟨o, mem_append_left _ ho⟩
      · exact .inr ⟨o, other, state', mem_append_left _ ho, hstate'⟩
      · exact .inr ⟨owners, id, state, mem_append_right _ mem_cons_self, hstate, he⟩
    · rintro (⟨o, ho⟩ | ⟨o, other, state', ho, hstate', he⟩)
      · obtain ho | ho := mem_append.1 ho
        · exact .inl (.inl ⟨o, ho⟩)
        · cases mem_singleton.1 ho
      · obtain ho | ho := mem_append.1 ho
        · exact .inl (.inr ⟨o, other, state', ho, hstate', he⟩)
        · have heq := mem_singleton.1 ho
          rw [Touch.reuse.injEq] at heq
          rw [heq.2, hstate, Option.some.injEq] at hstate'
          exact .inr (hstate' ▸ he)
  states := update_states h.states (.inr hstate)
  reused := by
    intro o other ho
    apply update_ne_none
    obtain ho | ho := mem_append.1 ho
    · exact .inl (h.reused o other ho)
    · have heq := mem_singleton.1 ho
      rw [Touch.reuse.injEq] at heq
      exact .inr heq.2

/-- The entities that a drawn view accessed are found as a difference of two records. -/
theorem Recorded.drawn {d start : Drawing V E K} (h : Recorded rendered d)
    (hstart : Recorded rendered start) {added : List (Touch V E)}
    (hlog : d.log = start.log ++ added) (hadded : ∀ owners id, .reuse owners id ∉ added) (id : V)
    (key : K) : Recorded rendered (d.drawn start id key) where
  accessed := h.accessed
  states := by
    apply update_states h.states
    left
    intro e
    show e ∈ d.accessedEntities \ start.accessedEntities ↔
      e ∈ d.accessedSince start.log.length ∧ e ∉ start.accessedEntities
    rw [Finset.mem_sdiff, mem_accessedSince hlog e]
    constructor
    · rintro ⟨he, hnot⟩
      refine ⟨?_, hnot⟩
      rw [h.accessed, hlog] at he
      rw [hstart.accessed] at hnot
      obtain ⟨owners, hmem⟩ | ⟨owners, other, state, hmem, hstate⟩ := he
      · obtain hmem | hmem := mem_append.1 hmem
        · exact absurd (.inl ⟨owners, hmem⟩) hnot
        · exact ⟨owners, hmem⟩
      · obtain hmem | hmem := mem_append.1 hmem
        · exact absurd (.inr ⟨owners, other, state, hmem, hstate⟩) hnot
        · exact absurd hmem (hadded owners other)
    · rintro ⟨⟨owners, hmem⟩, hnot⟩
      refine ⟨?_, hnot⟩
      rw [h.accessed, hlog]
      exact .inl ⟨owners, mem_append_right _ hmem⟩
  reused := by
    intro owners other hmem
    exact update_ne_none (.inl (h.reused owners other hmem))

end Record

variable [DecidableEq K]

/-! ### Section 2: The parts of a frame -/

section Parts

variable (context : CacheContext E) (rendered : V → Option (ViewElementState E K))

mutual

/-- What drawing an element touches, in all phases and in the draws it defers. -/
def parts (owners : List V) (refreshing : Bool) : Element (Accesses E) V E K → List (Touch V E)
  | .plain code children =>
      (code.layout ++ code.prepaint ++ code.paint).map (.entity owners) ++
        partsAll owners refreshing children
  | .cached id view key _ content =>
      match reusable context rendered id view key refreshing with
      | some _ => [.reuse owners id]
      | none   => parts (id :: owners) true content
  | .deferred _ child => parts owners context.refreshing child

def partsAll (owners : List V) (refreshing : Bool) :
    List (Element (Accesses E) V E K) → List (Touch V E)
  | []               => []
  | element :: after => parts owners refreshing element ++ partsAll owners refreshing after

end

/-- What a deferred draw touches. -/
def DeferredDraw.parts (draw : DeferredDraw V E K) : List (Touch V E) :=
  CachedViews.parts context rendered draw.owners context.refreshing draw.element

theorem reusable_refreshing {context : CacheContext E}
    {rendered : V → Option (ViewElementState E K)} (id : V) (view : E) (key : K) :
    reusable context rendered id view key true = none := by
  unfold reusable CacheContext.reuses
  simp

/-- The layout is a part. -/
theorem layout_parts :
    (∀ element : Element (Accesses E) V E K, ∀ owners refreshing, ∀ e ∈ layout element,
      .entity owners e ∈ parts context rendered owners refreshing element) ∧
    ∀ elements : List (Element (Accesses E) V E K), ∀ owners refreshing, ∀ e ∈ layoutAll elements,
      .entity owners e ∈ partsAll context rendered owners refreshing elements := by
  apply Element.induct
  · intro code children ih owners refreshing e he
    rw [layout, mem_append] at he
    rw [parts, mem_append]
    obtain he | he := he
    · left
      apply mem_map_of_mem
      simp [he]
    · exact .inr (ih owners refreshing e he)
  · intro id view key paintedKey content _ owners refreshing e he
    cases he
  · intro priority child ih owners refreshing e he
    exact ih owners context.refreshing e he
  · intro owners refreshing e he
    cases he
  · intro element after ih ihAll owners refreshing e he
    rw [layoutAll, mem_append] at he
    rw [partsAll, mem_append]
    obtain he | he := he
    · exact .inl (ih owners refreshing e he)
    · exact .inr (ihAll owners refreshing e he)

end Parts

/-! ### Section 3: What a prepaint adds -/

section Prepaint

variable {context : CacheContext E} {rendered : V → Option (ViewElementState E K)}

/-- A prepaint after a layout: what it adds to the log, what its paint will, and what the
    draws that it defers will make up all the parts; and these were laid out. -/
structure Traversed (context : CacheContext E) (rendered : V → Option (ViewElementState E K))
    (d : Drawing V E K) (laidOut all : List (Touch V E)) (r : Drawing V E K × List (List V × E))
    (added : List (Touch V E)) (deferred : List (DeferredDraw V E K)) : Prop where
  refreshing : r.1.refreshing = d.refreshing
  log : r.1.log = d.log ++ added
  deferredDraws : r.1.deferredDraws = d.deferredDraws ++ deferred
  covers : ∀ t, t ∈ all ↔ t ∈ laidOut ∨ t ∈ added ∨ t ∈ touches r.2 ∨
    ∃ draw ∈ deferred, t ∈ draw.parts context rendered
  laidOut : ∀ draw ∈ deferred, ∀ e ∈ layout draw.element,
    .entity draw.owners e ∈ laidOut ∨ .entity draw.owners e ∈ added
  /-- While the window is refreshing, nothing is reused. -/
  drawn : d.refreshing = true → ∀ owners id, .reuse owners id ∉ added

/-- The two prepaints of a row, one after the other. -/
theorem Traversed.append {d d' d'' : Drawing V E K} {laidOut laidOut' all all' : List (Touch V E)}
    {paint paint' : List (List V × E)} {added added' : List (Touch V E)}
    {deferred deferred' : List (DeferredDraw V E K)}
    (h : Traversed context rendered d laidOut all (d', paint) added deferred)
    (h' : Traversed context rendered d' laidOut' all' (d'', paint') added' deferred') :
    Traversed context rendered d (laidOut ++ laidOut') (all ++ all') (d'', paint ++ paint')
      (added ++ added') (deferred ++ deferred') where
  refreshing := h'.refreshing.trans h.refreshing
  log := by
    rw [h'.log, h.log, append_assoc]
  deferredDraws := by
    rw [h'.deferredDraws, h.deferredDraws, append_assoc]
  covers := by
    intro t
    have ht := h.covers t
    have ht' := h'.covers t
    simp only [touches_append, mem_append, or_and_right, exists_or]
    grind
  laidOut := by
    intro draw hdraw e he
    simp only [mem_append]
    obtain hdraw | hdraw := mem_append.1 hdraw
    · obtain hlaid | hadded := h.laidOut draw hdraw e he
      · exact .inl (.inl hlaid)
      · exact .inr (.inl hadded)
    · obtain hlaid | hadded := h'.laidOut draw hdraw e he
      · exact .inl (.inr hlaid)
      · exact .inr (.inr hadded)
  drawn := by
    intro hrefreshing owners id hmem
    obtain hmem | hmem := mem_append.1 hmem
    · exact h.drawn hrefreshing owners id hmem
    · exact h'.drawn (h.refreshing.trans hrefreshing) owners id hmem

/-- The parts that a frame has gone over, those that wait for their paint, and those of the
    draws that are pending. -/
structure Pending (context : CacheContext E) (rendered : V → Option (ViewElementState E K))
    (all : List (Touch V E)) (pending : List (DeferredDraw V E K))
    (r : Drawing V E K × List (Nat × List (List V × E))) : Prop where
  recorded : Recorded rendered r.1
  refreshing : r.1.refreshing = context.refreshing
  covers : ∀ t, t ∈ all ↔ t ∈ r.1.log ∨ (∃ paint ∈ r.2, t ∈ touches paint.2) ∨
    ∃ draw ∈ pending, t ∈ draw.parts context rendered
  laidOut : ∀ draw ∈ pending, ∀ e ∈ layout draw.element, .entity draw.owners e ∈ r.1.log

theorem Pending.congr {all : List (Touch V E)} {pending pending' : List (DeferredDraw V E K)}
    {r : Drawing V E K × List (Nat × List (List V × E))}
    (h : Pending context rendered all pending r) (hmem : ∀ draw, draw ∈ pending' ↔ draw ∈ pending) :
    Pending context rendered all pending' r where
  recorded := h.recorded
  refreshing := h.refreshing
  covers := by
    intro t
    rw [h.covers]
    simp only [hmem]
  laidOut := fun draw hdraw => h.laidOut draw ((hmem draw).1 hdraw)

variable [DecidableEq V] [DecidableEq E]

section Elements

variable {owners : List V} {d : Drawing V E K} {added : List (Touch V E)}
  {deferred : List (DeferredDraw V E K)}

/-- An element with code and children. -/
theorem traversed_plain {code : Accesses E} {children : List (Element (Accesses E) V E K)}
    (h : Traversed context rendered (d.access owners code.prepaint)
      ((layoutAll children).map (.entity owners))
      (partsAll context rendered owners d.refreshing children)
      (prepaintAll context rendered owners children (d.access owners code.prepaint)) added
      deferred) :
    Traversed context rendered d ((layout (.plain code children)).map (.entity owners))
      (parts context rendered owners d.refreshing (.plain code children))
      (prepaint context rendered owners (.plain code children) d)
      (code.prepaint.map (.entity owners) ++ added) deferred := by
  rw [prepaint]
  refine ⟨h.refreshing, ?_, h.deferredDraws, ?_, ?_, ?_⟩
  · rw [h.log, ← append_assoc]
    rfl
  · intro t
    have ht := h.covers t
    rw [parts, layout, touches_append, touches_owned]
    simp only [map_append, mem_append]
    rw [ht]
    tauto
  · intro draw hdraw e he
    have := h.laidOut draw hdraw e he
    rw [layout]
    simp only [map_append, mem_append]
    tauto
  · intro hrefreshing owners' id hmem
    rcases mem_append.1 hmem with hmem | hmem
    · obtain ⟨e, _, he⟩ := mem_map.1 hmem
      cases he
    · exact h.drawn hrefreshing owners' id hmem

variable {id : V} {view : E} {key paintedKey : K} {content : Element (Accesses E) V E K}

/-- A view whose state is reused. -/
theorem traversed_reused {state : ViewElementState E K}
    (hstate : reusable context rendered id view key d.refreshing = some state) :
    Traversed context rendered d
      ((layout (.cached id view key paintedKey content)).map (.entity owners))
      (parts context rendered owners d.refreshing (.cached id view key paintedKey content))
      (prepaint context rendered owners (.cached id view key paintedKey content) d)
      [.reuse owners id] [] := by
  rw [prepaint, parts, layout, hstate]
  refine ⟨rfl, rfl, (append_nil _).symm, ?_, ?_, ?_⟩
  · intro t
    simp [touches]
  · intro draw hdraw
    cases hdraw
  · -- a window that is refreshing has no such state
    intro hrefreshing
    rw [hrefreshing, reusable_refreshing] at hstate
    cases hstate

/-- A view that is drawn again, with all that is in it. -/
theorem traversed_drawn (hstate : reusable context rendered id view key d.refreshing = none)
    (h : Traversed context rendered { d.access (id :: owners) (layout content) with refreshing := true } ((layout content).map (.entity (id :: owners))) (parts context rendered (id :: owners) true content) (prepaint context rendered (id :: owners) content { d.access (id :: owners) (layout content) with refreshing := true }) added deferred)
    : Traversed context rendered d
      ((layout (.cached id view key paintedKey content)).map (.entity owners))
      (parts context rendered owners d.refreshing (.cached id view key paintedKey content))
      (prepaint context rendered owners (.cached id view key paintedKey content) d)
      ((layout content).map (.entity (id :: owners)) ++ added) deferred := by
  rw [prepaint, parts, layout, hstate]
  refine ⟨rfl, ?_, ?_, ?_, ?_, ?_⟩
  · show (prepaint context rendered (id :: owners) content _).1.log = _
    rw [h.log, ← append_assoc]
    rfl
  · exact h.deferredDraws
  · intro t
    have ht := h.covers t
    rw [ht]
    simp only [mem_append, map_nil, not_mem_nil, false_or, or_assoc]
  · intro draw hdraw e he
    right
    exact mem_append.2 (h.laidOut draw hdraw e he)
  · intro _ owners' id' hmem
    rcases mem_append.1 hmem with hmem | hmem
    · obtain ⟨e, _, he⟩ := mem_map.1 hmem
      cases he
    · exact h.drawn rfl owners' id' hmem

/-- An element that waits for its priority. -/
theorem traversed_deferred {priority : Nat} {child : Element (Accesses E) V E K} :
    Traversed context rendered d ((layout (.deferred priority child)).map (.entity owners))
      (parts context rendered owners d.refreshing (.deferred priority child))
      (prepaint context rendered owners (.deferred priority child) d) []
      [⟨priority, child, owners⟩] := by
  rw [prepaint, parts, layout]
  refine ⟨rfl, (append_nil _).symm, rfl, ?_, ?_, ?_⟩
  · intro t
    simp only [touches, map_nil, not_mem_nil, false_or, mem_singleton,
      exists_eq_left]
    -- what is laid out is a part of the draw
    have hsub : t ∈ (layout child).map (.entity owners) →
        t ∈ parts context rendered owners context.refreshing child := by
      intro hmem
      obtain ⟨e, he, rfl⟩ := mem_map.1 hmem
      exact (layout_parts context rendered).1 child owners context.refreshing e he
    show t ∈ parts context rendered owners context.refreshing child ↔
      t ∈ (layout child).map (.entity owners) ∨
        t ∈ parts context rendered owners context.refreshing child
    exact ⟨Or.inr, fun h => h.elim hsub id⟩
  · intro draw hdraw e he
    rw [mem_singleton.1 hdraw] at he ⊢
    exact .inl (mem_map_of_mem he)
  · intro _ owners' id hmem
    cases hmem

end Elements

/-- Every prepaint goes over the parts of its element. -/
theorem prepaint_traverses :
    (∀ element : Element (Accesses E) V E K, ∀ owners d, ∃ added deferred,
      Traversed context rendered d ((layout element).map (.entity owners))
        (parts context rendered owners d.refreshing element)
        (prepaint context rendered owners element d) added deferred) ∧
    ∀ elements : List (Element (Accesses E) V E K), ∀ owners d, ∃ added deferred,
      Traversed context rendered d ((layoutAll elements).map (.entity owners))
        (partsAll context rendered owners d.refreshing elements)
        (prepaintAll context rendered owners elements d) added deferred := by
  -- induction on the element and the row of its children, one case for each constructor
  apply Element.induct
  · intro code children ih owners d
    obtain ⟨added, deferred, h⟩ := ih owners (d.access owners code.prepaint)
    exact ⟨_, deferred, traversed_plain h⟩
  · intro id view key paintedKey content ih owners d
    cases hstate : reusable context rendered id view key d.refreshing with
    | some state => exact ⟨_, _, traversed_reused hstate⟩
    | none =>
      obtain ⟨added, deferred, h⟩ := ih (id :: owners)
        { d.access (id :: owners) (layout content) with refreshing := true }
      exact ⟨_, deferred, traversed_drawn hstate h⟩
  · intro priority child _ owners d
    exact ⟨_, _, traversed_deferred⟩
  · intro owners d
    rw [prepaintAll, partsAll, layoutAll]
    refine ⟨[], [], rfl, (append_nil _).symm, (append_nil _).symm, ?_, ?_, ?_⟩
    · intro t
      simp [touches]
    · intro draw hdraw
      cases hdraw
    · intro _ owners' id hmem
      cases hmem
  · intro element after ih ihAll owners d
    obtain ⟨added, deferred, h⟩ := ih owners d
    obtain ⟨added', deferred', h'⟩ := ihAll owners (prepaint context rendered owners element d).1
    rw [prepaintAll, partsAll, layoutAll, map_append]
    rw [h.refreshing] at h'
    exact ⟨added ++ added', deferred ++ deferred', h.append h'⟩

theorem prepaint_spec (context : CacheContext E) (rendered : V → Option (ViewElementState E K))
    (element : Element (Accesses E) V E K) (owners : List V) (d : Drawing V E K) :
    ∃ added deferred, Traversed context rendered d ((layout element).map (.entity owners))
      (parts context rendered owners d.refreshing element)
      (prepaint context rendered owners element d) added deferred :=
  prepaint_traverses.1 element owners d

theorem prepaint_recorded :
    (∀ element : Element (Accesses E) V E K, ∀ owners d, Recorded rendered d →
      Recorded rendered (prepaint context rendered owners element d).1) ∧
    ∀ elements : List (Element (Accesses E) V E K), ∀ owners d, Recorded rendered d →
      Recorded rendered (prepaintAll context rendered owners elements d).1 := by
  apply Element.induct
  · intro code children ih owners d h
    exact ih owners _ (h.access owners code.prepaint)
  · intro id view key paintedKey content ih owners d h
    rw [prepaint]
    cases hstate : reusable context rendered id view key d.refreshing with
    | some state => exact h.reuse owners (Option.filter_eq_some_iff.1 hstate).1
    | none =>
      have hstarted : Recorded rendered
          { d.access (id :: owners) (layout content) with refreshing := true } :=
        ⟨(h.access _ _).accessed, h.states, (h.access _ _).reused⟩
      obtain ⟨added, deferred, htraversed⟩ := prepaint_spec context rendered content (id :: owners)
        { d.access (id :: owners) (layout content) with refreshing := true }
      apply (ih (id :: owners) _ hstarted).drawn h
      · rw [htraversed.log]
        exact append_assoc _ _ _
      · intro owners' other hmem
        obtain hmem | hmem := mem_append.1 hmem
        · obtain ⟨_, _, heq⟩ := mem_map.1 hmem
          cases heq
        · exact htraversed.drawn rfl owners' other hmem
  · intro priority child _ owners d h
    exact ⟨h.accessed, h.states, h.reused⟩
  · intro owners d h
    exact h
  · intro element after ih ihAll owners d h
    exact ihAll owners _ (ih owners d h)

/-! ### Section 4: The deferred draws -/

theorem Recorded.prepaint {d : Drawing V E K} (h : Recorded rendered d)
    (context : CacheContext E) (owners : List V) (element : Element (Accesses E) V E K) :
    Recorded rendered (prepaint context rendered owners element d).1 :=
  prepaint_recorded.1 element owners d h

variable {all : List (Touch V E)} {r : Drawing V E K × List (Nat × List (List V × E))}

/-- A draw is prepainted: the ones it defers are pending with the rest. -/
theorem Pending.prepaintDraw {draw : DeferredDraw V E K} {pending : List (DeferredDraw V E K)}
    (h : Pending context rendered all (draw :: pending) r) :
    ∃ deferred,
      (prepaintDraw context rendered r draw).1.deferredDraws = r.1.deferredDraws ++ deferred ∧
      Pending context rendered all (pending ++ deferred) (prepaintDraw context rendered r draw) := by
  obtain ⟨added, deferred, ht⟩ := prepaint_spec context rendered draw.element draw.owners r.1
  refine ⟨deferred, ht.deferredDraws, h.recorded.prepaint _ _ _,
    ht.refreshing.trans h.refreshing, ?_, ?_⟩
  · intro t
    have hparts := ht.covers t
    rw [h.refreshing] at hparts
    have hdraw : t ∈ draw.parts context rendered ↔ t ∈ parts context rendered draw.owners
      context.refreshing draw.element := Iff.rfl
    have hlaid : t ∈ (layout draw.element).map (.entity draw.owners) → t ∈ r.1.log := by
      intro hmem
      obtain ⟨e, he, rfl⟩ := mem_map.1 hmem
      exact h.laidOut draw mem_cons_self e he
    show t ∈ all ↔ t ∈ (prepaint context rendered draw.owners draw.element r.1).1.log ∨
      (∃ paint ∈ r.2 ++ [(draw.priority, _)], t ∈ touches paint.2) ∨ _
    rw [h.covers, ht.log]
    simp only [mem_append, mem_cons, not_mem_nil, or_false, or_and_right, exists_or,
      exists_eq_left, hdraw, hparts]
    grind
  · intro other hother e he
    show _ ∈ (prepaint context rendered draw.owners draw.element r.1).1.log
    rw [ht.log, mem_append]
    obtain hother | hother := mem_append.1 hother
    · exact .inl (h.laidOut other (mem_cons_of_mem _ hother) e he)
    · obtain hlaid | hadded := ht.laidOut other hother e he
      · obtain ⟨e', he', heq⟩ := mem_map.1 hlaid
        rw [← heq]
        exact .inl (h.laidOut draw mem_cons_self e' he')
      · exact .inr hadded

theorem Pending.foldl {round pending : List (DeferredDraw V E K)}
    (h : Pending context rendered all (round ++ pending) r) :
    ∃ deferred,
      (round.foldl (CachedViews.prepaintDraw context rendered) r).1.deferredDraws =
        r.1.deferredDraws ++ deferred ∧
      Pending context rendered all (pending ++ deferred)
        (round.foldl (CachedViews.prepaintDraw context rendered) r) := by
  induction round generalizing pending r with
  | nil => exact ⟨[], (append_nil _).symm, by rw [append_nil]; exact h⟩
  | cons draw round ih =>
    obtain ⟨deferred, hdraws, hdraw⟩ := h.prepaintDraw
    have hdraw : Pending context rendered all (round ++ (pending ++ deferred)) _ :=
      append_assoc round pending deferred ▸ hdraw
    obtain ⟨deferred', hdraws', hround⟩ := ih hdraw
    refine ⟨deferred ++ deferred', ?_, ?_⟩
    · rw [foldl_cons, hdraws', hdraws, append_assoc]
    · rw [← append_assoc]
      exact hround

omit [DecidableEq V] [DecidableEq E] in
theorem mem_touches_sorted (painted : List (Nat × List (List V × E))) (t : Touch V E) :
    t ∈ touches ((sortByKey Prod.fst painted).flatMap Prod.snd) ↔
      ∃ paint ∈ painted, t ∈ touches paint.2 := by
  unfold touches
  simp only [map_flatMap, mem_flatMap, mem_sortByKey]

theorem Pending.rounds {depthLeft roundStart : Nat}
    {r' : Drawing V E K × List (Nat × List (List V × E))}
    (h : Pending context rendered all (r.1.deferredDraws.drop roundStart) r)
    (hrounds : prepaintRounds context rendered depthLeft roundStart r = .ok r') :
    Pending context rendered all [] r' := by
  induction depthLeft generalizing roundStart r with
  | zero =>
    unfold prepaintRounds at hrounds
    split at hrounds
    · rename_i hend
      cases hrounds
      rw [hend, drop_length] at h
      exact h
    · cases hrounds
  | succ depthLeft ih =>
    unfold prepaintRounds at hrounds
    split at hrounds
    · rename_i hend
      cases hrounds
      rw [hend, drop_length] at h
      exact h
    · -- the order of the round does not matter to what it goes over
      have hsorted : Pending context rendered all
          (sortByKey DeferredDraw.priority (r.1.deferredDraws.drop roundStart) ++ []) r := by
        apply h.congr
        intro draw
        rw [append_nil, mem_sortByKey]
      obtain ⟨deferred, hdraws, hround⟩ := hsorted.foldl
      refine ih ?_ hrounds
      rw [hdraws, drop_left]
      exact hround

end Prepaint

end CachedViews

end Gpui
