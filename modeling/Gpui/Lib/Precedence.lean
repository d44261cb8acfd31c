import Mathlib

/-! # Expressions over infix operators of several precedences

    An `OpTree` is an expression built from operands and left-associative infix
    operators.  Written down without parentheses it is a first operand followed
    by pairs of an operator and an operand; what a reader makes of these is the
    one grouping that is `Layered`: no operator stands under one that binds
    tighter, and equal ones nest to the left.

    * `regroup` turns any tree into a layered one over the same line.
    * `join` puts two layered trees side by side under an operator that binds no
      tighter than theirs. -/

inductive OpTree (O α : Type) where
  | leaf (a : α)
  | node (op : O) (left right : OpTree O α)

namespace OpTree

variable {O α : Type}

/-! ## The line a tree is written as -/

def first : OpTree O α → α
  | leaf a        => a
  | node _ left _ => left.first

def rest : OpTree O α → List (O × α)
  | leaf _             => []
  | node op left right => left.rest ++ (op, right.first) :: right.rest

/-- The operands of a tree, in order. -/
def operands (t : OpTree O α) : List α :=
  t.first :: t.rest.map Prod.snd

theorem operands_node (op : O) (left right : OpTree O α) :
    (node op left right).operands = left.operands ++ right.operands := by
  simp [operands, first, rest]

/-! ## Layered trees -/

variable (prec : O → Nat)

/-- The root operator, if there is one, has precedence at least `n`. -/
def Above (n : Nat) : OpTree O α → Prop
  | leaf _      => True
  | node op _ _ => n ≤ prec op

/-- The grouping a precedence parser gives to left-associative operators. -/
def Layered : OpTree O α → Prop
  | leaf _             => True
  | node op left right =>
      left.Layered ∧ right.Layered ∧ left.Above prec (prec op) ∧ right.Above prec (prec op + 1)

variable {prec}

variable {t : OpTree O α} {op : O}

theorem Above.mono {m n : Nat} (h : t.Above prec n) (hmn : m ≤ n) :
    t.Above prec m := by
  cases t with
  | leaf a => trivial
  | node op left right => exact Nat.le_trans hmn h

/-- The root of a layered tree binds the weakest of all its operators. -/
theorem Layered.above_iff (ht : t.Layered prec) (n : Nat) :
    t.Above prec n ↔ ∀ x ∈ t.rest, n ≤ prec x.1 := by
  induction t with
  | leaf a => simp [Above, rest]
  | node op left right ihl ihr =>
    obtain ⟨hl, hr, hal, har⟩ := ht
    constructor
    · intro h x hx
      have h : n ≤ prec op := h
      rw [rest, List.mem_append, List.mem_cons] at hx
      rcases hx with hx | rfl | hx
      · exact (ihl hl).mp (hal.mono h) x hx
      · exact h
      · exact (ihr hr).mp (har.mono (by omega)) x hx
    · intro h
      exact h (op, right.first) (by simp [rest])

/-! ## Regrouping a line -/

/-- Add an operator and an operand at the end of the line of a layered tree. -/
def insert (prec : O → Nat) (op : O) (a : α) : OpTree O α → OpTree O α
  | leaf b => node op (leaf b) (leaf a)
  | node o left right =>
      if prec o < prec op then node o left (right.insert prec op a)
      else node op (node o left right) (leaf a)

theorem first_insert (op : O) (a : α) (t : OpTree O α) :
    (t.insert prec op a).first = t.first := by
  cases t with
  | leaf b => rfl
  | node o left right => rw [insert]; split <;> rfl

theorem rest_insert (op : O) (a : α) (t : OpTree O α) :
    (t.insert prec op a).rest = t.rest ++ [(op, a)] := by
  induction t with
  | leaf b => rfl
  | node o left right _ ihr =>
    rw [insert]
    split
    · simp [rest, ihr, first_insert]
    · rfl

theorem Above.insert {n : Nat} (a : α) (ht : t.Above prec n)
    (hop : n ≤ prec op) : (t.insert prec op a).Above prec n := by
  cases t with
  | leaf b => exact hop
  | node o left right =>
    rw [OpTree.insert]
    split
    · exact ht
    · exact hop

theorem Layered.insert (ht : t.Layered prec) (op : O) (a : α) :
    (t.insert prec op a).Layered prec := by
  induction t with
  | leaf b => exact ⟨trivial, trivial, trivial, trivial⟩
  | node o left right _ ihr =>
    rw [OpTree.insert]
    split
    · next hlt =>
      exact ⟨ht.1, ihr ht.2.1, ht.2.2.1, ht.2.2.2.insert a (by omega)⟩
    · next hge =>
      exact ⟨ht, trivial, show prec op ≤ prec o by omega, trivial⟩

/-- The layered tree over a line. -/
def group (prec : O → Nat) (t : OpTree O α) (line : List (O × α)) : OpTree O α :=
  line.foldl (fun t x => t.insert prec x.1 x.2) t

theorem group_spec (ht : t.Layered prec) (line : List (O × α)) :
    (t.group prec line).Layered prec ∧ (t.group prec line).first = t.first ∧
      (t.group prec line).rest = t.rest ++ line := by
  induction line generalizing t with
  | nil => exact ⟨ht, rfl, by simp [group]⟩
  | cons x line ih =>
    obtain ⟨hlayered, hfirst, hrest⟩ := ih (ht.insert x.1 x.2)
    refine ⟨hlayered, hfirst.trans (first_insert ..), hrest.trans ?_⟩
    rw [rest_insert, List.append_assoc]
    rfl

def regroup (prec : O → Nat) (t : OpTree O α) : OpTree O α :=
  (leaf t.first).group prec t.rest

theorem layered_regroup (t : OpTree O α) : (t.regroup prec).Layered prec :=
  (group_spec (t := leaf t.first) trivial t.rest).1

theorem first_regroup (t : OpTree O α) : (t.regroup prec).first = t.first :=
  (group_spec (t := leaf t.first) trivial t.rest).2.1

theorem rest_regroup (t : OpTree O α) : (t.regroup prec).rest = t.rest :=
  (group_spec (t := leaf t.first) trivial t.rest).2.2

/-! ## Two trees side by side -/

/-- `x op y`, with the chain of `op` at the root of `y` nested to the left. -/
def join [DecidableEq O] (op : O) (x : OpTree O α) : OpTree O α → OpTree O α
  | leaf a            => node op x (leaf a)
  | node o left right =>
      if o = op then node op (join op x left) right else node op x (node o left right)

variable [DecidableEq O]

theorem first_join (op : O) (x y : OpTree O α) : (join op x y).first = x.first := by
  induction y with
  | leaf a => rfl
  | node o left right ihl _ =>
    rw [join]
    split
    · exact ihl
    · rfl

theorem rest_join (op : O) (x y : OpTree O α) : (join op x y).rest = (node op x y).rest := by
  induction y with
  | leaf a => rfl
  | node o left right ihl _ =>
    rw [join]
    split
    · next heq => simp [rest, first, ihl, heq]
    · rfl

theorem above_join (x y : OpTree O α) : (join op x y).Above prec (prec op) := by
  cases y with
  | leaf a => exact Nat.le_refl _
  | node o left right =>
    rw [join]
    split <;> exact Nat.le_refl _

theorem join_of_above (x : OpTree O α) {y : OpTree O α}
    (hy : y.Above prec (prec op + 1)) : join op x y = node op x y := by
  cases y with
  | leaf a => rfl
  | node o left right =>
    rw [join]
    split
    · next heq =>
      have hy : prec op + 1 ≤ prec o := hy
      rw [heq] at hy
      omega
    · rfl

/-- Two operators of one precedence are taken to be the same one. -/
theorem Layered.join (hinj : ∀ o, prec o = prec op → o = op) {x y : OpTree O α}
    (hx : x.Layered prec) (hy : y.Layered prec) (hax : x.Above prec (prec op))
    (hay : y.Above prec (prec op)) : (join op x y).Layered prec := by
  induction y with
  | leaf a => exact ⟨hx, trivial, hax, trivial⟩
  | node o left right ihl _ =>
    rw [OpTree.join]
    split
    · next heq =>
      subst heq
      exact ⟨ihl hy.1 hy.2.2.1, hy.2.1, above_join x left, hy.2.2.2⟩
    · next hne =>
      have hay : prec op ≤ prec o := hay
      have hlt : prec op ≠ prec o := fun h => hne (hinj o h.symm)
      exact ⟨hx, hy, hax, show prec op + 1 ≤ prec o by omega⟩

end OpTree
