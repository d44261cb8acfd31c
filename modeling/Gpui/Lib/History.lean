import Mathlib

/-! # Histories

    A history is a list that events are added to at the end, so that an event is told by its
    index, the time when it happened.

    * `NoneBetween` and `NoneAfter` say that no event of a kind happened between two times, or
      since one.  Both stay true when an event is added, the second one if the event is of
      another kind. -/

namespace History

variable {α : Type u} {P : α → Prop} {history : List α} {event event' : α} {s t : ℕ}

theorem lt_length (h : history[t]? = some event) : t < history.length :=
  (List.getElem?_eq_some_iff.mp h).1

/-- Events stay where they are. -/
theorem getElem?_concat (h : history[t]? = some event) (event' : α) :
    (history ++ [event'])[t]? = some event := by
  rw [List.getElem?_append_left (lt_length h), h]

/-- An event is an old one or the last one. -/
theorem of_getElem?_concat (h : (history ++ [event])[t]? = some event') :
    history[t]? = some event' ∨ t = history.length ∧ event' = event := by
  rw [List.getElem?_append] at h
  split at h
  · exact Or.inl h
  · next hge =>
    obtain ⟨hlt, heq⟩ := List.getElem?_eq_some_iff.mp h
    rw [List.length_singleton] at hlt
    refine Or.inr ⟨by omega, ?_⟩
    simpa using heq.symm

def NoneBetween (P : α → Prop) (history : List α) (s t : ℕ) : Prop :=
  ∀ r, s < r → r < t → ∀ event, history[r]? = some event → ¬ P event

def NoneAfter (P : α → Prop) (history : List α) (s : ℕ) : Prop :=
  ∀ r, s < r → ∀ event, history[r]? = some event → ¬ P event

theorem NoneBetween.concat (h : NoneBetween P history s t) (ht : t ≤ history.length)
    (event : α) : NoneBetween P (history ++ [event]) s t := by
  intro r hlt hgt event' hevent
  obtain hold | ⟨rfl, _⟩ := of_getElem?_concat hevent
  · exact h r hlt hgt event' hold
  · exact absurd hgt (not_lt.mpr ht)

theorem NoneAfter.concat (h : NoneAfter P history s) (hevent : ¬ P event) :
    NoneAfter P (history ++ [event]) s := by
  intro r hlt event' hevent'
  obtain hold | ⟨_, rfl⟩ := of_getElem?_concat hevent'
  · exact h r hlt event' hold
  · exact hevent

/-- What did not happen since a time did not happen before the next event. -/
theorem NoneAfter.between (h : NoneAfter P history s) (event : α) :
    NoneBetween P (history ++ [event]) s history.length :=
  NoneBetween.concat (fun r hlt _ => h r hlt) le_rfl event

theorem noneAfter_last (P : α → Prop) (history : List α) (event : α) :
    NoneAfter P (history ++ [event]) history.length := by
  intro r hlt event' hevent
  have hbefore := lt_length hevent
  rw [List.length_append, List.length_singleton] at hbefore
  omega

theorem NoneAfter.of_concat (h : NoneAfter P (history ++ [event]) s) : NoneAfter P history s :=
  fun r hlt _ hevent => h r hlt _ (getElem?_concat hevent event)

theorem NoneAfter.not_last (h : NoneAfter P (history ++ [event]) s) (hs : s < history.length) :
    ¬ P event :=
  h history.length hs event List.getElem?_concat_length

theorem exists_of_not_noneAfter (h : ¬ NoneAfter P history s) :
    ∃ r event, s < r ∧ history[r]? = some event ∧ P event := by
  simp only [NoneAfter, not_forall, not_not] at h
  obtain ⟨r, hlt, event, hevent, hP⟩ := h
  exact ⟨r, event, hlt, hevent, hP⟩

theorem NoneBetween.not_at (h : NoneBetween P history s t) {r : ℕ}
    (hevent : history[r]? = some event) (hlt : s < r) (hgt : r < t) : ¬ P event :=
  h r hlt hgt event hevent

end History
