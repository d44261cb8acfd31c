import Mathlib

/-! # Sweeping over intervals

    The endpoints of half-open intervals are passed in the order of their positions.  An
    interval is active from its start on, until its end.

    * `active` are the intervals that are active behind some endpoints.  Between these and
      the others they are the intervals around a position (**`mem_active_iff_around`**), in
      whatever order endpoints of one position stand.
    * `stretches` are the parts between endpoints in which an interval is active.  They are in
      order (**`stretches_inOrder`**) and cover the intervals (**`mem_stretches_iff`**). -/

namespace Sweep

open List

structure Endpoint (P : Type u) (ι : Type v) where
  position : P
  id : ι
  isStart : Bool
deriving DecidableEq

variable {P : Type u} {ι : Type v}

/-- The endpoints of intervals from `lo` to `hi`. -/
def endpoints (lo hi : ι → P) (ids : List ι) : List (Endpoint P ι) :=
  ids.flatMap (fun id => [⟨lo id, id, true⟩, ⟨hi id, id, false⟩])

theorem mem_endpoints {lo hi : ι → P} {ids : List ι} {endpoint : Endpoint P ι} :
    endpoint ∈ endpoints lo hi ids ↔
      endpoint.id ∈ ids ∧
        endpoint.position = if endpoint.isStart then lo endpoint.id else hi endpoint.id := by
  unfold endpoints
  rw [mem_flatMap]
  constructor
  · intro h
    obtain ⟨id, hid, h⟩ := h
    obtain rfl | rfl : endpoint = ⟨lo id, id, true⟩ ∨ endpoint = ⟨hi id, id, false⟩ := by
      simpa using h
    · exact ⟨hid, rfl⟩
    · exact ⟨hid, rfl⟩
  · intro h
    obtain ⟨position, id, isStart⟩ := endpoint
    obtain ⟨hid, hposition⟩ := h
    refine ⟨id, hid, ?_⟩
    cases isStart with
    | true => simpa using hposition
    | false => simpa using hposition

theorem nodup_endpoints (lo hi : ι → P) {ids : List ι} (h : ids.Nodup) :
    (endpoints lo hi ids).Nodup := by
  unfold endpoints
  rw [nodup_flatMap]
  constructor
  · intro id _
    simp
  · refine h.imp ?_
    intro id id' hne
    simp [Function.onFun, disjoint_left, hne]

/-! ## Passing endpoints -/

/-- Endpoints in order, some of which were passed. -/
structure Passing [LinearOrder P] (lo hi : ι → P) (ids : List ι)
    (passed rest : List (Endpoint P ι)) : Prop where
  nodup   : ids.Nodup
  lo_lt   : ∀ id ∈ ids, lo id < hi id
  perm    : (passed ++ rest).Perm (endpoints lo hi ids)
  inOrder : (passed ++ rest).Pairwise (fun a b => a.position ≤ b.position)

namespace Passing

variable [LinearOrder P] {lo hi : ι → P} {ids : List ι} {passed rest : List (Endpoint P ι)}

variable {endpoint : Endpoint P ι} {id : ι}

theorem next (h : Passing lo hi ids passed (endpoint :: rest)) :
    Passing lo hi ids (passed ++ [endpoint]) rest where
  nodup := h.nodup
  lo_lt := h.lo_lt
  perm := by simpa using h.perm
  inOrder := by simpa using h.inOrder

theorem last (h : Passing lo hi ids (passed ++ [endpoint]) rest) :
    Passing lo hi ids passed (endpoint :: rest) where
  nodup := h.nodup
  lo_lt := h.lo_lt
  perm := by simpa using h.perm
  inOrder := by simpa using h.inOrder

section

variable (h : Passing lo hi ids passed rest)
include h

theorem mem_or :
    endpoint ∈ passed ∨ endpoint ∈ rest ↔
      endpoint.id ∈ ids ∧
        endpoint.position = if endpoint.isStart then lo endpoint.id else hi endpoint.id := by
  rw [← mem_append, h.perm.mem_iff, mem_endpoints]

theorem lo_mem_or (hid : id ∈ ids) : ⟨lo id, id, true⟩ ∈ passed ∨ ⟨lo id, id, true⟩ ∈ rest :=
  h.mem_or.mpr ⟨hid, rfl⟩

theorem hi_mem_or (hid : id ∈ ids) : ⟨hi id, id, false⟩ ∈ passed ∨ ⟨hi id, id, false⟩ ∈ rest :=
  h.mem_or.mpr ⟨hid, rfl⟩

/-- No endpoint is passed twice. -/
theorem not_mem_rest (hpassed : endpoint ∈ passed) : endpoint ∉ rest := by
  have hnodup : (passed ++ rest).Nodup := h.perm.nodup_iff.mpr (nodup_endpoints lo hi h.nodup)
  exact fun hrest => (nodup_append.mp hnodup).2.2 _ hpassed _ hrest rfl

/-- The end of an interval comes behind its start. -/
theorem hi_mem_rest (hid : id ∈ ids) (hlo : ⟨lo id, id, true⟩ ∈ rest) :
    ⟨hi id, id, false⟩ ∈ rest := by
  obtain hpassed | hrest := h.hi_mem_or hid
  · have hle : hi id ≤ lo id := (pairwise_append.mp h.inOrder).2.2 _ hpassed _ hlo
    exact absurd (h.lo_lt id hid) (not_lt.mpr hle)
  · exact hrest

end

end Passing

/-! ## The intervals that are active -/

variable [DecidableEq ι]

/-- An endpoint is passed. -/
def update (active : List ι) (endpoint : Endpoint P ι) : List ι :=
  if endpoint.isStart then active.insert endpoint.id else active.erase endpoint.id

def active (passed : List (Endpoint P ι)) : List ι := passed.foldl update []

theorem active_append (passed : List (Endpoint P ι)) (endpoint : Endpoint P ι) :
    active (passed ++ [endpoint]) = update (active passed) endpoint := by
  rw [active, foldl_append]
  rfl

theorem nodup_active (passed : List (Endpoint P ι)) : (active passed).Nodup := by
  induction passed using List.reverseRecOn with
  | nil => exact nodup_nil
  | append_singleton passed endpoint ih =>
    rw [active_append, update]
    split
    · exact ih.insert
    · exact ih.erase _

variable [LinearOrder P] {lo hi : ι → P} {ids : List ι} {passed rest : List (Endpoint P ι)}
  {p : P} {id : ι}

/-- The start of an active interval was passed and its end was not. -/
theorem mem_active_iff (h : Passing lo hi ids passed rest) :
    id ∈ active passed ↔
      id ∈ ids ∧ ⟨lo id, id, true⟩ ∈ passed ∧ ⟨hi id, id, false⟩ ∈ rest := by
  induction passed using List.reverseRecOn generalizing rest with
  | nil => simp [active]
  | append_singleton passed endpoint ih =>
    have hbefore := h.last
    have hmem := (hbefore.mem_or).mp (Or.inr (mem_cons_self))
    rw [active_append, update]
    obtain ⟨position, id', isStart⟩ := endpoint
    obtain ⟨hid', hposition⟩ := hmem
    cases isStart with
    | true =>
      obtain rfl : position = lo id' := by simpa using hposition
      rw [if_pos rfl, mem_insert_iff, ih hbefore]
      by_cases hid : id = id'
      · -- this interval becomes active
        subst hid
        have hhi := hbefore.hi_mem_rest hid' mem_cons_self
        simpa [hid'] using hhi
      · simp [hid]
    | false =>
      obtain rfl : position = hi id' := by simpa using hposition
      rw [if_neg (by simp), (nodup_active passed).mem_erase_iff, ih hbefore]
      by_cases hid : id = id'
      · -- the end of this interval is not passed again
        subst hid
        have hend := h.not_mem_rest (mem_append_right passed mem_cons_self)
        simp [hend]
      · simp [hid]

/-- Behind the endpoints that were passed and before the others, the active intervals are those
    around a position. -/
theorem mem_active_iff_around (h : Passing lo hi ids passed rest)
    (hpassed : ∀ endpoint ∈ passed, endpoint.position ≤ p)
    (hrest : ∀ endpoint ∈ rest, p < endpoint.position) :
    id ∈ active passed ↔ id ∈ ids ∧ lo id ≤ p ∧ p < hi id := by
  rw [mem_active_iff h]
  constructor
  · intro hid
    exact ⟨hid.1, hpassed _ hid.2.1, hrest _ hid.2.2⟩
  · intro hid
    obtain ⟨hid, hlo, hhi⟩ := hid
    refine ⟨hid, ?_, ?_⟩
    · obtain hmem | hmem := h.lo_mem_or hid
      · exact hmem
      · exact absurd hlo (not_le.mpr (hrest _ hmem))
    · obtain hmem | hmem := h.hi_mem_or hid
      · exact absurd hhi (not_lt.mpr (hpassed _ hmem))
      · exact hmem

/-! ## The stretches between endpoints -/

/-- Where an interval is active between two endpoints. -/
structure Stretch (P : Type u) (ι : Type v) where
  start : P
  stop : P
  /-- The endpoints before it. -/
  passed : List (Endpoint P ι)

/-- The stretches from `start` on. -/
def stretches (start : P) (passed : List (Endpoint P ι)) :
    List (Endpoint P ι) → List (Stretch P ι)
  | [] => []
  | endpoint :: rest =>
      if start < endpoint.position ∧ active passed ≠ [] then
        ⟨start, endpoint.position, passed⟩ ::
          stretches endpoint.position (passed ++ [endpoint]) rest
      else stretches endpoint.position (passed ++ [endpoint]) rest

/-- Endpoints in order, those that were passed not behind `start` and the others not before. -/
structure From (lo hi : ι → P) (ids : List ι) (start : P) (passed rest : List (Endpoint P ι)) :
    Prop extends Passing lo hi ids passed rest where
  passed_le : ∀ endpoint ∈ passed, endpoint.position ≤ start
  le_rest   : ∀ endpoint ∈ rest, start ≤ endpoint.position

variable {start : P}

section

omit [DecidableEq ι]

theorem From.next {endpoint : Endpoint P ι} (h : From lo hi ids start passed (endpoint :: rest)) :
    From lo hi ids endpoint.position (passed ++ [endpoint]) rest where
  toPassing := h.toPassing.next
  passed_le := by
    intro endpoint' hmem
    obtain hmem | rfl : endpoint' ∈ passed ∨ endpoint' = endpoint := by simpa using hmem
    · exact (h.passed_le _ hmem).trans (h.le_rest _ mem_cons_self)
    · exact le_rfl
  le_rest := (pairwise_cons.mp (pairwise_append.mp h.inOrder).2.1).1

theorem From.lt_rest {endpoint : Endpoint P ι}
    (h : From lo hi ids start passed (endpoint :: rest)) (hp : p < endpoint.position) :
    ∀ endpoint' ∈ endpoint :: rest, p < endpoint'.position := by
  intro endpoint' hmem
  obtain rfl | hrest := mem_cons.mp hmem
  · exact hp
  · exact hp.trans_le (h.next.le_rest _ hrest)

end

section

variable (h : From lo hi ids start passed rest)
include h

theorem start_le_of_mem_stretches {stretch : Stretch P ι}
    (hmem : stretch ∈ stretches start passed rest) :
    start ≤ stretch.start ∧ stretch.start < stretch.stop := by
  induction rest generalizing start passed with
  | nil => simp [stretches] at hmem
  | cons endpoint rest ih =>
    have hle := h.le_rest _ mem_cons_self
    rw [stretches] at hmem
    split at hmem
    · next hlt =>
      obtain rfl | hrest := mem_cons.mp hmem
      · exact ⟨le_rfl, hlt.1⟩
      · have := ih h.next hrest
        exact ⟨hle.trans this.1, this.2⟩
    · have := ih h.next hmem
      exact ⟨hle.trans this.1, this.2⟩

/-- No stretch ends behind the start of a later one. -/
theorem stretches_inOrder :
    (stretches start passed rest).Pairwise (fun a b => a.stop ≤ b.start) := by
  induction rest generalizing start passed with
  | nil => exact List.Pairwise.nil
  | cons endpoint rest ih =>
    rw [stretches]
    split
    · refine pairwise_cons.mpr ⟨?_, ih h.next⟩
      intro stretch hmem
      exact (start_le_of_mem_stretches h.next hmem).1
    · exact ih h.next

/-- Within a stretch the active intervals are those around a position. -/
theorem mem_active_of_mem_stretches {stretch : Stretch P ι}
    (hmem : stretch ∈ stretches start passed rest) (hstart : stretch.start ≤ p)
    (hstop : p < stretch.stop) :
    id ∈ active stretch.passed ↔ id ∈ ids ∧ lo id ≤ p ∧ p < hi id := by
  induction rest generalizing start passed with
  | nil => simp [stretches] at hmem
  | cons endpoint rest ih =>
    rw [stretches] at hmem
    split at hmem
    · obtain rfl | hrest := mem_cons.mp hmem
      · exact mem_active_iff_around h.toPassing
          (fun _ hpassed => (h.passed_le _ hpassed).trans hstart) (h.lt_rest hstop)
      · exact ih h.next hrest
    · exact ih h.next hmem

/-- A position is within a stretch iff an interval is around it. -/
theorem mem_stretches_iff (hp : start ≤ p) :
    (∃ stretch ∈ stretches start passed rest, stretch.start ≤ p ∧ p < stretch.stop) ↔
      ∃ id ∈ ids, lo id ≤ p ∧ p < hi id := by
  induction rest generalizing start passed with
  | nil =>
    -- every endpoint was passed
    have hnone : ¬ ∃ id ∈ ids, lo id ≤ p ∧ p < hi id := by
      intro hid
      obtain ⟨id, hid, _, hlt⟩ := hid
      obtain hmem | hmem := h.hi_mem_or hid
      · exact absurd hlt (not_lt.mpr ((h.passed_le _ hmem).trans hp))
      · simp at hmem
    simpa [stretches] using hnone
  | cons endpoint rest ih =>
    by_cases hbehind : endpoint.position ≤ p
    · -- the first stretch ends before the position
      rw [← ih h.next hbehind, stretches]
      split
      · simp only [mem_cons, exists_eq_or_imp]
        rw [or_iff_right (fun hin => absurd hin.2 (not_lt.mpr hbehind))]
      · rfl
    · have hbefore := not_le.mp hbehind
      have haround : ∀ {id : ι}, id ∈ active passed ↔ id ∈ ids ∧ lo id ≤ p ∧ p < hi id :=
        mem_active_iff_around h.toPassing
          (fun _ hpassed => (h.passed_le _ hpassed).trans hp) (h.lt_rest hbefore)
      constructor
      · intro hin
        obtain ⟨stretch, hmem, hstart, hstop⟩ := hin
        rw [stretches] at hmem
        split at hmem
        · next hactive =>
          obtain ⟨id, hid⟩ := exists_mem_of_ne_nil _ hactive.2
          exact ⟨id, haround.mp hid⟩
        · have hle := (start_le_of_mem_stretches h.next hmem).1
          exact absurd (hle.trans hstart) hbehind
      · intro hin
        obtain ⟨id, hid⟩ := hin
        have hactive : active passed ≠ [] := ne_nil_of_mem (haround.mpr hid)
        rw [stretches, if_pos ⟨hp.trans_lt hbefore, hactive⟩]
        exact ⟨_, mem_cons_self, hp, hbefore⟩

end

end Sweep
