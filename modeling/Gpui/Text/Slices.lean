import Gpui.Text.LineWrapper

/-! # Slices of a text

    A text is cut at indices of bytes.  A cut is at the boundary of two characters, or the
    slice panics. -/

namespace Gpui

/-- `text.get(start..stop)`, which does not panic. -/
def getSlice (text : List Char) (start stop : Nat) : Option (List Char) :=
  match sliceFrom text start with
  | .error _ => none
  | .ok rest =>
      match sliceTo rest (stop - start) with
      | .error _ => none
      | .ok kept => some kept

namespace LineWrapper

@[simp] theorem utf8Len_nil : utf8Len [] = 0 := rfl

@[simp] theorem utf8Len_cons (c : Char) (text : List Char) :
    utf8Len (c :: text) = c.utf8Size + utf8Len text := by
  simp [utf8Len]

@[simp] theorem utf8Len_append (a b : List Char) : utf8Len (a ++ b) = utf8Len a + utf8Len b := by
  simp [utf8Len]

theorem sliceTo_append (kept rest : List Char) :
    sliceTo (kept ++ rest) (utf8Len kept) = .ok kept := by
  induction kept with
  | nil => cases rest <;> rfl
  | cons c kept ih =>
    obtain ⟨n, hn⟩ : ∃ n, c.utf8Size + utf8Len kept = n + 1 :=
      Nat.exists_eq_succ_of_ne_zero (by have := c.utf8Size_pos; omega)
    have hrest : n + 1 - c.utf8Size = utf8Len kept := by omega
    rw [utf8Len_cons, hn, List.cons_append, sliceTo, if_neg (by omega), hrest, ih]
    rfl

theorem sliceFrom_append (removed kept : List Char) :
    sliceFrom (removed ++ kept) (utf8Len removed) = .ok kept := by
  induction removed with
  | nil => cases kept <;> rfl
  | cons c removed ih =>
    obtain ⟨n, hn⟩ : ∃ n, c.utf8Size + utf8Len removed = n + 1 :=
      Nat.exists_eq_succ_of_ne_zero (by have := c.utf8Size_pos; omega)
    have hrest : n + 1 - c.utf8Size = utf8Len removed := by omega
    rw [utf8Len_cons, hn, List.cons_append, sliceFrom, if_neg (by omega), hrest, ih]

theorem sliceFrom_add (removed kept : List Char) (n : Nat) :
    sliceFrom (removed ++ kept) (utf8Len removed + n) = sliceFrom kept n := by
  induction removed with
  | nil => rw [List.nil_append, utf8Len_nil, Nat.zero_add]
  | cons c removed ih =>
    obtain ⟨k, hk⟩ : ∃ k, c.utf8Size + utf8Len removed + n = k + 1 :=
      Nat.exists_eq_succ_of_ne_zero (by have := c.utf8Size_pos; omega)
    have hrest : k + 1 - c.utf8Size = utf8Len removed + n := by omega
    rw [utf8Len_cons, hk, List.cons_append, sliceFrom, if_neg (by omega), hrest, ih]

variable {text kept : List Char} {n : Nat}

theorem exists_removed (h : sliceFrom text n = .ok kept) :
    ∃ removed, text = removed ++ kept ∧ utf8Len removed = n := by
  fun_induction sliceFrom text n with
  | case1 text =>
    injection h with h
    exact ⟨[], h, rfl⟩
  | case2 => cases h
  | case3 => cases h
  | case4 c text n hge ih =>
    obtain ⟨removed, rfl, hlen⟩ := ih h
    exact ⟨c :: removed, rfl, by rw [utf8Len_cons, hlen]; omega⟩

theorem exists_rest (h : sliceTo text n = .ok kept) :
    ∃ rest, text = kept ++ rest ∧ utf8Len kept = n := by
  fun_induction sliceTo text n generalizing kept with
  | case1 text =>
    injection h with h
    subst h
    exact ⟨text, rfl, rfl⟩
  | case2 => cases h
  | case3 => cases h
  | case4 c text n hge ih =>
    cases hcut : sliceTo text (n + 1 - c.utf8Size) with
    | error e =>
      rw [hcut] at h
      cases h
    | ok kept' =>
      rw [hcut] at h
      cases h
      obtain ⟨rest, rfl, hlen⟩ := ih hcut
      exact ⟨rest, rfl, by rw [utf8Len_cons, hlen]; omega⟩

/-- A slice after a part of the text. -/
theorem getSlice_append (before text : List Char) (start stop : Nat) :
    getSlice (before ++ text) (utf8Len before + start) (utf8Len before + stop) =
      getSlice text start stop := by
  unfold getSlice
  rw [sliceFrom_add, Nat.add_sub_add_left]

/-- A slice from the start. -/
theorem getSlice_zero_iff :
    getSlice text 0 n = some kept ↔ ∃ rest, text = kept ++ rest ∧ utf8Len kept = n := by
  have hstart : sliceFrom text 0 = .ok text := by cases text <;> rfl
  unfold getSlice
  rw [hstart, Nat.sub_zero]
  dsimp only
  constructor
  · intro h
    cases hcut : sliceTo text n with
    | error e =>
      rw [hcut] at h
      cases h
    | ok kept' =>
      rw [hcut] at h
      cases h
      exact exists_rest hcut
  · intro h
    obtain ⟨rest, rfl, rfl⟩ := h
    rw [sliceTo_append]

end LineWrapper

end Gpui
