import Mathlib

/-! # Lists of runs

    A list of runs, each with a length and a value, stands for the list in which every
    value is repeated as often as its run is long.

    * `expand` is the list that the runs stand for.
    * **`expand_lengthen_last`**: a run that is lengthened is the run with one behind it.
    * `spans` tells where each run begins, so that a value of the list is one of a run
      (**`getElem?_expand`**, **`exists_span`**).
    * `take` and `drop` cut the runs at a length, through a run if need be, and cutting twice
      is cutting once. -/

namespace RunLength

open List

variable {ρ : Type u} {ν : Type v} (len : ρ → ℕ) (value : ρ → ν)

def expand (runs : List ρ) : List ν :=
  runs.flatMap (fun run => List.replicate (len run) (value run))

@[simp] theorem expand_nil : expand len value [] = [] := rfl

@[simp] theorem expand_cons (run : ρ) (runs : List ρ) :
    expand len value (run :: runs) =
      List.replicate (len run) (value run) ++ expand len value runs := rfl

@[simp] theorem expand_append (runs runs' : List ρ) :
    expand len value (runs ++ runs') = expand len value runs ++ expand len value runs' :=
  flatMap_append

@[simp] theorem length_expand (runs : List ρ) :
    (expand len value runs).length = (runs.map len).sum := by
  induction runs with
  | nil => rfl
  | cons run rest ih =>
    rw [expand_cons, length_append, length_replicate, ih, map_cons, sum_cons]

theorem expand_lengthen_last (front : List ρ) (last last' : ρ) {n : ℕ}
    (hlen : len last' = len last + n) (hvalue : value last' = value last) :
    expand len value (front ++ [last']) =
      expand len value (front ++ [last]) ++ List.replicate n (value last) := by
  simp only [expand_append, expand_cons, expand_nil, append_nil, append_assoc]
  rw [hlen, hvalue, replicate_add]

/-- Runs without length stand for nothing. -/
theorem expand_filter (runs : List ρ) :
    expand len value (runs.filter (fun run => 0 < len run)) = expand len value runs := by
  induction runs with
  | nil => rfl
  | cons run rest ih =>
    by_cases hpos : 0 < len run
    · rw [filter_cons_of_pos (by simpa using hpos), expand_cons, expand_cons, ih]
    · have hzero : len run = 0 := by omega
      rw [filter_cons_of_neg (by simpa using hpos), expand_cons, hzero, ih]
      rfl

/-! ## Where the runs begin -/

/-- The runs, each with the index it begins at. -/
def spans : ℕ → List ρ → List (ℕ × ρ)
  | _, [] => []
  | start, run :: rest => (start, run) :: spans (start + len run) rest

variable {len value}

variable {start : ℕ} {runs : List ρ} {span : ℕ × ρ}

theorem le_of_mem_spans
    (h : span ∈ spans len start runs) : start ≤ span.1 := by
  induction runs generalizing start with
  | nil => simp [spans] at h
  | cons run rest ih =>
    rw [spans, mem_cons] at h
    obtain rfl | hrest := h
    · exact le_rfl
    · exact (Nat.le_add_right _ _).trans (ih hrest)

theorem add_len_le_of_mem_spans
    (h : span ∈ spans len start runs) : span.1 + len span.2 ≤ start + (runs.map len).sum := by
  induction runs generalizing start with
  | nil => simp [spans] at h
  | cons run rest ih =>
    rw [spans, mem_cons] at h
    rw [map_cons, sum_cons, ← Nat.add_assoc]
    obtain rfl | hrest := h
    · exact Nat.le_add_right _ _
    · exact ih hrest

theorem spans_append (start : ℕ) (runs runs' : List ρ) :
    spans len start (runs ++ runs') =
      spans len start runs ++ spans len (start + (runs.map len).sum) runs' := by
  induction runs generalizing start with
  | nil => simp [spans]
  | cons run rest ih => simp [spans, ih, Nat.add_assoc]

/-- Runs that are replaced by others of the same length begin where they did. -/
theorem spans_map (f : ℕ × ρ → ρ) (hlen : ∀ span, len (f span) = len span.2) (start : ℕ)
    (runs : List ρ) :
    spans len start ((spans len start runs).map f) =
      (spans len start runs).map (fun span => (span.1, f span)) := by
  induction runs generalizing start with
  | nil => rfl
  | cons run rest ih => simp [spans, hlen, ih]

theorem map_len_spans (start : ℕ) (runs : List ρ) :
    (spans len start runs).map (fun span => len span.2) = runs.map len := by
  induction runs generalizing start with
  | nil => rfl
  | cons run rest ih => simp [spans, ih]

/-- The value at an index is that of the run around it. -/
theorem getElem?_expand {i : ℕ}
    (h : span ∈ spans len start runs) (hstart : span.1 ≤ i) (hstop : i < span.1 + len span.2) :
    (expand len value runs)[i - start]? = some (value span.2) := by
  induction runs generalizing start with
  | nil => simp [spans] at h
  | cons run rest ih =>
    rw [spans, mem_cons] at h
    rw [expand_cons]
    obtain rfl | hrest := h
    · have hlt : i - start < len run := by
        have : i < start + len run := hstop
        omega
      rw [getElem?_append_left (by simpa using hlt), getElem?_replicate, if_pos hlt]
    · have hle := le_of_mem_spans hrest
      rw [getElem?_append_right (by rw [length_replicate]; omega),
        length_replicate, Nat.sub_sub, ih hrest]

/-- Every index has a run around it. -/
theorem exists_span {i : ℕ} (hstart : start ≤ i) (hstop : i < start + (runs.map len).sum) :
    ∃ span ∈ spans len start runs, span.1 ≤ i ∧ i < span.1 + len span.2 := by
  induction runs generalizing start with
  | nil => rw [map_nil, sum_nil] at hstop; omega
  | cons run rest ih =>
    by_cases hi : i < start + len run
    · exact ⟨(start, run), by simp [spans], hstart, hi⟩
    · rw [map_cons, sum_cons, ← Nat.add_assoc] at hstop
      obtain ⟨span, hspan, hin⟩ := ih (Nat.le_of_not_lt hi) hstop
      exact ⟨span, mem_cons_of_mem _ hspan, hin⟩

variable (len value)

section Cut

variable (setLen : ρ → ℕ → ρ)

/-- The runs up to a length. -/
def take : ℕ → List ρ → List ρ
  | _, [] => []
  | n, run :: rest =>
      if len run ≤ n then run :: take (n - len run) rest
      else if 0 < n then [setLen run n] else []

/-- The runs from a length on. -/
def drop : ℕ → List ρ → List ρ
  | _, [] => []
  | n, run :: rest =>
      if len run ≤ n then drop (n - len run) rest
      else setLen run (len run - n) :: rest

/-- A run can get another length. -/
structure Resizable : Prop where
  len_set : ∀ run n, len (setLen run n) = n
  value_set : ∀ run n, value (setLen run n) = value run
  set_len : ∀ run, setLen run (len run) = run
  set_set : ∀ run m n, setLen (setLen run m) n = setLen run n

variable {len value setLen}

section

variable (h : Resizable len value setLen)
include h

theorem expand_take (n : ℕ) (runs : List ρ) :
    expand len value (take len setLen n runs) = (expand len value runs).take n := by
  induction runs generalizing n with
  | nil => rw [take, expand_nil, take_nil]
  | cons run rest ih =>
    rw [take, expand_cons, take_append, take_replicate, length_replicate]
    split
    · next hle => rw [expand_cons, ih, Nat.min_eq_right hle]
    · next hlt =>
      have hzero : n - len run = 0 := by omega
      rw [hzero, take_zero, append_nil, Nat.min_eq_left (by omega)]
      split
      · rw [expand_cons, expand_nil, append_nil, h.len_set, h.value_set]
      · next hn =>
        obtain rfl : n = 0 := by omega
        rfl

theorem expand_drop (n : ℕ) (runs : List ρ) :
    expand len value (drop len setLen n runs) = (expand len value runs).drop n := by
  induction runs generalizing n with
  | nil => rw [drop, expand_nil, drop_nil]
  | cons run rest ih =>
    rw [drop, expand_cons, drop_append, drop_replicate, length_replicate]
    split
    · next hle =>
      have hzero : len run - n = 0 := by omega
      rw [ih, hzero]
      rfl
    · next hlt =>
      have hzero : n - len run = 0 := by omega
      rw [expand_cons, h.len_set, h.value_set, hzero, drop_zero]

/-- Of the runs up to a length, those up to a smaller one. -/
theorem take_take (n m : ℕ) (runs : List ρ) :
    take len setLen n (take len setLen (n + m) runs) = take len setLen n runs := by
  induction runs generalizing n with
  | nil => rfl
  | cons run rest ih =>
    rw [take.eq_2 len setLen (n + m), take.eq_2 len setLen n]
    by_cases hle : len run ≤ n
    · have hsum : n + m - len run = n - len run + m := by omega
      rw [if_pos (by omega), if_pos hle, hsum, take, if_pos hle, ih]
    · rw [if_neg hle]
      by_cases hle' : len run ≤ n + m
      · rw [if_pos hle', take, if_neg hle]
      · -- the run is cut twice
        rw [if_neg hle']
        by_cases hpos : 0 < n + m
        · rw [if_pos hpos, take, h.len_set]
          by_cases hm : n + m ≤ n
          · obtain rfl : m = 0 := by omega
            rw [if_pos hm, if_pos (by omega), Nat.add_zero]
            rfl
          · rw [if_neg hm, h.set_set]
        · rw [if_neg hpos, if_neg (by omega)]
          rfl

/-- Of the runs from a length on, those from a length on. -/
theorem drop_drop (n m : ℕ) (runs : List ρ) :
    drop len setLen m (drop len setLen n runs) = drop len setLen (n + m) runs := by
  induction runs generalizing n with
  | nil => rfl
  | cons run rest ih =>
    rw [drop.eq_2 len setLen n, drop.eq_2 len setLen (n + m)]
    by_cases hle : len run ≤ n
    · have hsum : n + m - len run = n - len run + m := by omega
      rw [if_pos hle, if_pos (by omega), hsum, ih]
    · rw [if_neg hle, drop, h.len_set]
      by_cases hle' : len run ≤ n + m
      · have hsum : m - (len run - n) = n + m - len run := by omega
        rw [if_pos (by omega), if_pos hle', hsum]
      · have hsum : len run - n - m = len run - (n + m) := by omega
        rw [if_neg (by omega), if_neg hle', h.set_set, hsum]

/-- Of the runs up to a length, those from a smaller one on. -/
theorem drop_take (n m : ℕ) (runs : List ρ) :
    drop len setLen n (take len setLen (n + m) runs) =
      take len setLen m (drop len setLen n runs) := by
  induction runs generalizing n with
  | nil => rfl
  | cons run rest ih =>
    rw [take.eq_2 len setLen (n + m), drop.eq_2 len setLen n]
    by_cases hle : len run ≤ n
    · have hsum : n + m - len run = n - len run + m := by omega
      rw [if_pos (by omega), if_pos hle, hsum, drop, if_pos hle, ih]
    · rw [if_neg hle]
      by_cases hle' : len run ≤ n + m
      · have hsum : n + m - len run = m - (len run - n) := by omega
        rw [if_pos hle', drop, if_neg hle, take.eq_2, h.len_set, if_pos (by omega), hsum]
      · -- the run is cut on both sides
        have hlong : ¬ len run - n ≤ m := by omega
        rw [if_neg hle', take.eq_2, h.len_set, if_neg hlong]
        by_cases hm : 0 < m
        · have hsum : n + m - n = m := by omega
          have hlt : ¬ n + m ≤ n := by omega
          rw [if_pos (Nat.add_pos_right n hm), if_pos hm, drop, h.len_set, if_neg hlt, h.set_set,
            h.set_set, hsum]
        · obtain rfl : m = 0 := by omega
          rw [if_neg hm, Nat.add_zero]
          by_cases hn : 0 < n
          · rw [if_pos hn, drop, h.len_set, if_pos le_rfl]
            rfl
          · rw [if_neg hn]
            rfl

end

end Cut

end RunLength
