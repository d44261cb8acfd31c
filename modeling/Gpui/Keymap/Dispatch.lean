import Gpui.Keymap.Keymap
import Gpui.Lib.Greedy
import Gpui.Panic

/-! # Key dispatch: pending keystrokes

    Keystrokes that may begin a chord are held back.  When the next one shows
    that no chord will come of them, they are replayed: the longest prefix with a
    complete match first, or one keystroke where no prefix has any.  The newest
    keystroke is then dispatched again after what is left. -/

namespace Gpui

open List

open Exec (ok_bind)

open Greedy

/-! ## The tree -/

structure DispatchNode where
  context : Option KeyContext

structure DispatchTree (A : Type) [Action A] where
  nodes : List DispatchNode
  keymap : Keymap A

structure Replay (A : Type) where
  keystroke : Keystroke
  bindings : List (KeyBinding A)

structure DispatchResult (A : Type) where
  pending : List Keystroke
  pendingHasBinding : Bool
  bindings : List (KeyBinding A)
  toReplay : List (Replay A)
  contextStack : List KeyContext

def DispatchResult.default {A : Type} : DispatchResult A := ⟨[], false, [], [], []⟩

namespace DispatchTree

section

variable {A : Type} [Action A]

def node (tree : DispatchTree A) (nodeId : Nat) : Run DispatchNode :=
  getIndex tree.nodes nodeId

def contextStack (tree : DispatchTree A) : List Nat → Run (List KeyContext)
  | [] => .ok []
  | nodeId :: path => do
      let node ← tree.node nodeId
      let contexts ← tree.contextStack path
      .ok (node.context.toList ++ contexts)

variable [Target]

def bindingsForInput (tree : DispatchTree A) (input : List Keystroke) (dispatchPath : List Nat) :
    Run (List (KeyBinding A) × Bool × List KeyContext) := do
  let contextStack ← tree.contextStack dispatchPath
  let (bindings, pending) := tree.keymap.bindingsForInput input contextStack
  .ok (bindings, pending, contextStack)

/-- The longest of the first `n` prefixes with a complete match, by its last index. -/
def longestMatch (tree : DispatchTree A) (input : List Keystroke) (dispatchPath : List Nat) :
    Nat → Run (Option (Nat × List (KeyBinding A)))
  | 0 => .ok none
  | last + 1 => do
      let (bindings, _, _) ← tree.bindingsForInput (input.take (last + 1)) dispatchPath
      if !bindings.isEmpty then .ok (some (last, bindings))
      else tree.longestMatch input dispatchPath last

/-- Turns the longest prefix of the input into a replay event, and returns the rest. -/
def replayPrefix (tree : DispatchTree A) (input : List Keystroke) (dispatchPath : List Nat) :
    Run (List Keystroke × List (Replay A)) := do
  let longest ← tree.longestMatch input dispatchPath input.length
  match longest with
  | some (last, bindings) =>
      match (input.take (last + 1)).getLast? with
      | none           => .error .unwrapNone
      | some keystroke => .ok (input.drop (last + 1), [⟨keystroke, bindings⟩])
  | none =>
      match input with
      | []                => .error .indexOutOfRange
      | keystroke :: rest => .ok (rest, [⟨keystroke, []⟩])

/-- `dispatch_key`, with a bound on the depth of the recursion. -/
def dispatchKeyBounded (tree : DispatchTree A) (keystroke : Keystroke) (dispatchPath : List Nat) :
    Nat → List Keystroke → Run (DispatchResult A)
  | 0, _ => .error .loopBound
  | bound + 1, input => do
      let typed := input ++ [keystroke]
      let (bindings, pending, contextStack) ← tree.bindingsForInput typed dispatchPath
      if pending then
        .ok { DispatchResult.default with
          pending := typed
          pendingHasBinding := !bindings.isEmpty
          contextStack := contextStack }
      else if !bindings.isEmpty then
        .ok { DispatchResult.default with
          bindings := bindings
          contextStack := contextStack }
      else if typed.length == 1 then
        .ok { DispatchResult.default with
          contextStack := contextStack }
      else do
        -- the newest keystroke waits while a prefix is replayed
        let (suffix, toReplay) ← tree.replayPrefix typed.dropLast dispatchPath
        let result ← tree.dispatchKeyBounded keystroke dispatchPath bound suffix
        .ok { result with toReplay := toReplay ++ result.toReplay }

/-- Processes a keystroke after the pending ones. -/
def dispatchKey (tree : DispatchTree A) (input : List Keystroke) (keystroke : Keystroke)
    (dispatchPath : List Nat) : Run (DispatchResult A) :=
  tree.dispatchKeyBounded keystroke dispatchPath (input.length + 1) input

/-- `flush_dispatch`, with a bound on the depth of the recursion. -/
def flushDispatchBounded (tree : DispatchTree A) (dispatchPath : List Nat) :
    Nat → List Keystroke → Run (List (Replay A))
  | 0, _ => .error .loopBound
  | bound + 1, input => do
      let (suffix, toReplay) ← tree.replayPrefix input dispatchPath
      if !suffix.isEmpty then do
        let more ← tree.flushDispatchBounded dispatchPath bound suffix
        .ok (toReplay ++ more)
      else .ok toReplay

/-- Turns all pending keystrokes into replay events. -/
def flushDispatch (tree : DispatchTree A) (input : List Keystroke) (dispatchPath : List Nat) :
    Run (List (Replay A)) :=
  tree.flushDispatchBounded dispatchPath input.length input

/-! ## Complete matches -/

variable {tree : DispatchTree A} {dispatchPath : List Nat}

/-- The contexts of the nodes on a path. -/
def contextsOf (tree : DispatchTree A) (dispatchPath : List Nat) : List KeyContext :=
  dispatchPath.filterMap (fun nodeId => (tree.nodes[nodeId]?).bind DispatchNode.context)

/-- The bindings that the input completes on a path. -/
def completeMatch (tree : DispatchTree A) (dispatchPath : List Nat) (input : List Keystroke) :
    List (KeyBinding A) :=
  (tree.keymap.bindingsForInput input (tree.contextsOf dispatchPath)).1

/-- More keystrokes after the input might complete a binding on a path. -/
def mayContinue (tree : DispatchTree A) (dispatchPath : List Nat) (input : List Keystroke) :
    Bool :=
  (tree.keymap.bindingsForInput input (tree.contextsOf dispatchPath)).2

/-- Every node of the path is in the tree. -/
def OnTree (tree : DispatchTree A) (dispatchPath : List Nat) : Prop :=
  ∀ nodeId ∈ dispatchPath, nodeId < tree.nodes.length

omit [Target] in
theorem contextStack_eq (h : tree.OnTree dispatchPath) :
    tree.contextStack dispatchPath = .ok (tree.contextsOf dispatchPath) := by
  induction dispatchPath with
  | nil => rfl
  | cons nodeId path ih =>
    obtain ⟨node, hnode⟩ : ∃ node, tree.nodes[nodeId]? = some node :=
      ⟨_, getElem?_eq_getElem (h nodeId (mem_cons_self ..))⟩
    have ih := ih (fun id hid => h id (mem_cons_of_mem _ hid))
    rw [contextStack, DispatchTree.node, getIndex_eq_ok hnode, ok_bind, ih, ok_bind]
    simp only [contextsOf, filterMap_cons, hnode, Option.bind_some]
    cases node.context <;> rfl

theorem bindingsForInput_eq (h : tree.OnTree dispatchPath) (input : List Keystroke) :
    tree.bindingsForInput input dispatchPath = .ok (tree.completeMatch dispatchPath input,
      tree.mayContinue dispatchPath input, tree.contextsOf dispatchPath) := by
  rw [bindingsForInput, contextStack_eq h]
  rfl

/-! ## Replaying a prefix -/

theorem longestMatch_spec (h : tree.OnTree dispatchPath) (input : List Keystroke) (n : Nat) :
    (tree.longestMatch input dispatchPath n = .ok none ∧
      ∀ m < n, tree.completeMatch dispatchPath (input.take (m + 1)) = []) ∨
    ∃ last < n, tree.longestMatch input dispatchPath n =
        .ok (some (last, tree.completeMatch dispatchPath (input.take (last + 1)))) ∧
      tree.completeMatch dispatchPath (input.take (last + 1)) ≠ [] ∧
      ∀ m < n, last < m → tree.completeMatch dispatchPath (input.take (m + 1)) = [] := by
  induction n with
  | zero => exact Or.inl ⟨rfl, fun m hm => absurd hm (Nat.not_lt_zero m)⟩
  | succ n ih =>
    rw [longestMatch, bindingsForInput_eq h, ok_bind]
    by_cases hempty : tree.completeMatch dispatchPath (input.take (n + 1)) = []
    · -- no match here, so the search goes on below
      simp only [hempty, isEmpty_nil, Bool.not_true, Bool.false_eq_true, if_false]
      have hbelow : ∀ m < n + 1, ¬ m < n →
          tree.completeMatch dispatchPath (input.take (m + 1)) = [] := by
        intro m hm hmn
        rw [show m = n by omega]
        exact hempty
      rcases ih with ⟨hrun, hnone⟩ | ⟨last, hlast, hrun, hne, hlonger⟩
      · refine Or.inl ⟨hrun, ?_⟩
        intro m hm
        by_cases hmn : m < n
        · exact hnone m hmn
        · exact hbelow m hm hmn
      · refine Or.inr ⟨last, by omega, hrun, hne, ?_⟩
        intro m hm hlt
        by_cases hmn : m < n
        · exact hlonger m hmn hlt
        · exact hbelow m hm hmn
    · refine Or.inr ⟨n, by omega, ?_, hempty, ?_⟩
      · have hne : (!(tree.completeMatch dispatchPath (input.take (n + 1))).isEmpty) = true := by
          simpa using hempty
        simp only [hne, if_true]
      · intro m hm hlt
        omega

/-- A replay event stands for a piece: it has its last keystroke and its bindings. -/
structure Replays (tree : DispatchTree A) (dispatchPath : List Nat) (piece : List Keystroke)
    (replay : Replay A) : Prop where
  keystroke : piece.getLast? = some replay.keystroke
  bindings : replay.bindings = tree.completeMatch dispatchPath piece

variable {input : List Keystroke}

/-- **Step lemma.**  `replay_prefix` takes one piece off the front. -/
theorem replayPrefix_spec (h : tree.OnTree dispatchPath) (hne : input ≠ []) :
    ∃ piece rest replay, tree.replayPrefix input dispatchPath = .ok (rest, [replay]) ∧
      input = piece ++ rest ∧ piece ≠ [] ∧
      Piece (tree.completeMatch dispatchPath) input piece ∧
      tree.Replays dispatchPath piece replay := by
  rcases tree.longestMatch_spec h input input.length with ⟨hrun, hnone⟩ | ⟨last, hlast, hrun, hmatch, hlonger⟩
  · -- no prefix has a complete match
    cases input with
    | nil => exact absurd rfl hne
    | cons keystroke rest =>
      have hno : NoMatch (tree.completeMatch dispatchPath) (keystroke :: rest) := by
        intro piece hpiece hfront
        have hpos := length_pos_iff.mpr hpiece
        have hle := hfront.length_le
        have hm := hnone (piece.length - 1) (by omega)
        rwa [show piece.length - 1 + 1 = piece.length by omega,
          ← prefix_iff_eq_take.mp hfront] at hm
      have hfront : [keystroke] <+: keystroke :: rest := ⟨rest, rfl⟩
      refine ⟨[keystroke], rest, ⟨keystroke, []⟩, ?_, rfl, by simp, Piece.single hno hfront, rfl,
        (hno _ (by simp) hfront).symm⟩
      rw [replayPrefix, hrun]
      rfl
  · have hlength : (input.take (last + 1)).length = last + 1 := by
      rw [length_take]
      omega
    have hpiece : input.take (last + 1) ≠ [] := by
      intro hnil
      rw [hnil] at hlength
      cases hlength
    have hgetLast := getLast?_eq_some_getLast hpiece
    refine ⟨input.take (last + 1), input.drop (last + 1), ⟨(input.take (last + 1)).getLast hpiece,
      tree.completeMatch dispatchPath (input.take (last + 1))⟩, ?_,
      (take_append_drop _ _).symm, hpiece, Piece.longest ⟨hpiece, take_prefix _ _, hmatch, ?_⟩,
      hgetLast, rfl⟩
    · simp only [replayPrefix, hrun, ok_bind, hgetLast]
    · intro piece hpiece' hfront hknown
      by_contra hlt
      have hle := hfront.length_le
      have hm := hlonger (piece.length - 1) (by omega) (by omega)
      rw [show piece.length - 1 + 1 = piece.length by omega,
        ← prefix_iff_eq_take.mp hfront] at hm
      exact hknown hm

/-! ## Dispatching a key -/

/-- What the last keystrokes come to: they are pending if more keystrokes might complete a
    binding; else they have a complete match, or they are one keystroke without any. -/
inductive Ends (tree : DispatchTree A) (dispatchPath : List Nat) (typed : List Keystroke)
    (result : DispatchResult A) : Prop where
  | pending (continues : tree.mayContinue dispatchPath typed = true)
      (h : result.pending = typed) (ne_nil : typed ≠ []) (bindings : result.bindings = [])
      (hasBinding : result.pendingHasBinding =
        !(tree.completeMatch dispatchPath typed).isEmpty)
  | matched (continues : tree.mayContinue dispatchPath typed = false)
      (pending : result.pending = [])
      (h : result.bindings = tree.completeMatch dispatchPath typed)
      (ne_nil : result.bindings ≠ [])
  | unmatched (continues : tree.mayContinue dispatchPath typed = false)
      (pending : result.pending = []) (bindings : result.bindings = [])
      (h : tree.completeMatch dispatchPath typed = []) (length : typed.length = 1)

theorem dispatchKeyBounded_spec (h : tree.OnTree dispatchPath) (keystroke : Keystroke)
    (bound : Nat) (hbound : input.length < bound) :
    ∃ result pieces rest,
      tree.dispatchKeyBounded keystroke dispatchPath bound input = .ok result ∧
      Split (tree.completeMatch dispatchPath) input pieces rest ∧
      List.Forall₂ (tree.Replays dispatchPath) pieces result.toReplay ∧
      tree.Ends dispatchPath (rest ++ [keystroke]) result := by
  induction bound generalizing input with
  | zero => exact absurd hbound (Nat.not_lt_zero _)
  | succ bound ih =>
    rw [dispatchKeyBounded]
    simp only [bindingsForInput_eq h, ok_bind]
    by_cases hpending : tree.mayContinue dispatchPath (input ++ [keystroke]) = true
    · rw [if_pos hpending]
      exact ⟨_, [], input, rfl, Split.done input, List.Forall₂.nil,
        Ends.pending hpending rfl (by simp) rfl rfl⟩
    · rw [if_neg hpending]
      rw [Bool.not_eq_true] at hpending
      by_cases hmatch : tree.completeMatch dispatchPath (input ++ [keystroke]) = []
      · have hnone : ¬ (!(tree.completeMatch dispatchPath
            (input ++ [keystroke])).isEmpty) = true := by
          simp [hmatch]
        rw [if_neg hnone]
        by_cases hone : input = []
        · -- a single keystroke without a match
          rw [hone] at hmatch hpending ⊢
          refine ⟨_, [], [], rfl, Split.done [], List.Forall₂.nil, ?_⟩
          exact Ends.unmatched hpending rfl rfl hmatch rfl
        · have hlength : ¬ ((input ++ [keystroke]).length == 1) = true := by
            simp
            omega
          rw [if_neg hlength, dropLast_concat]
          -- one piece is replayed, and the rest is shorter
          obtain ⟨piece, rest, replay, hrun, hinput, hne, hpiece, hreplays⟩ :=
            replayPrefix_spec h hone
          have hshort : rest.length < bound := by
            have hpos := length_pos_iff.mpr hne
            have := congrArg List.length hinput
            rw [length_append] at this
            omega
          obtain ⟨result, pieces, last, hrest, hsplit, hforall, hends⟩ := ih hshort
          rw [hrun, ok_bind]
          simp only [hrest, ok_bind]
          rw [hinput] at hpiece ⊢
          refine ⟨_, piece :: pieces, last, rfl, Split.cons hpiece hsplit,
            List.Forall₂.cons hreplays hforall, ?_⟩
          cases hends with
          | pending continues h ne_nil bindings hasBinding =>
            exact Ends.pending continues h ne_nil bindings hasBinding
          | matched continues pending h ne_nil => exact Ends.matched continues pending h ne_nil
          | unmatched continues pending bindings h length =>
            exact Ends.unmatched continues pending bindings h length
      · have hsome : (!(tree.completeMatch dispatchPath
            (input ++ [keystroke])).isEmpty) = true := by
          simpa using hmatch
        rw [if_pos hsome]
        exact ⟨_, [], input, rfl, Split.done input, List.Forall₂.nil,
          Ends.matched hpending rfl rfl hmatch⟩

theorem flushDispatchBounded_spec (h : tree.OnTree dispatchPath) (bound : Nat) (hne : input ≠ [])
    (hbound : input.length ≤ bound) :
    ∃ replays pieces,
      tree.flushDispatchBounded dispatchPath bound input = .ok replays ∧
      Split (tree.completeMatch dispatchPath) input pieces [] ∧
      List.Forall₂ (tree.Replays dispatchPath) pieces replays := by
  induction bound generalizing input with
  | zero =>
    have := length_pos_iff.mpr hne
    omega
  | succ bound ih =>
    obtain ⟨piece, rest, replay, hrun, hinput, hpos, hpiece, hreplays⟩ := replayPrefix_spec h hne
    rw [flushDispatchBounded, hrun, ok_bind]
    rw [hinput] at hpiece ⊢
    by_cases hrest : rest = []
    · rw [hrest] at hpiece ⊢
      exact ⟨_, [piece], rfl, Split.single hpiece, List.Forall₂.cons hreplays List.Forall₂.nil⟩
    · have hshort : rest.length ≤ bound := by
        have := length_pos_iff.mpr hpos
        have hlength := congrArg List.length hinput
        rw [length_append] at hlength
        omega
      obtain ⟨replays, pieces, hmore, hsplit, hforall⟩ := ih hrest hshort
      have hsome : (!rest.isEmpty) = true := by simpa using hrest
      simp only [hsome, if_true, hmore, ok_bind]
      exact ⟨_, piece :: pieces, rfl, Split.cons hpiece hsplit, List.Forall₂.cons hreplays hforall⟩

/-- **Key dispatch loses and doubles no keystroke.**  The pending keystrokes and the
    new one are the replayed pieces, in order, followed by what is pending, matched
    or left alone; each piece is a longest match, or one keystroke where nothing
    matches.  `flush_dispatch` replays all that was pending in the same way. -/
theorem dispatch_partitions (tree : DispatchTree A) (dispatchPath : List Nat)
    (hpath : ∀ nodeId ∈ dispatchPath, nodeId < tree.nodes.length) (pending : List Keystroke)
    (keystroke : Keystroke) :
    (∃ result pieces rest,
      tree.dispatchKey pending keystroke dispatchPath = .ok result ∧
      pending ++ [keystroke] = pieces.flatten ++ (rest ++ [keystroke]) ∧
      Split (tree.completeMatch dispatchPath) pending pieces rest ∧
      List.Forall₂ (tree.Replays dispatchPath) pieces result.toReplay ∧
      tree.Ends dispatchPath (rest ++ [keystroke]) result) ∧
    (pending ≠ [] → ∃ replays pieces,
      tree.flushDispatch pending dispatchPath = .ok replays ∧
      pending = pieces.flatten ∧
      Split (tree.completeMatch dispatchPath) pending pieces [] ∧
      List.Forall₂ (tree.Replays dispatchPath) pieces replays) := by
  constructor
  · obtain ⟨result, pieces, rest, hrun, hsplit, hforall, hends⟩ :=
      dispatchKeyBounded_spec hpath keystroke (pending.length + 1) (Nat.lt_succ_self _)
    refine ⟨result, pieces, rest, hrun, ?_, hsplit, hforall, hends⟩
    rw [← append_assoc, ← hsplit.flatten_append]
  · intro hne
    obtain ⟨replays, pieces, hrun, hsplit, hforall⟩ :=
      flushDispatchBounded_spec hpath pending.length hne (Nat.le_refl _)
    refine ⟨replays, pieces, hrun, ?_, hsplit, hforall⟩
    have := hsplit.flatten_append
    rwa [append_nil] at this

end

/-- With the chord `a b` and a pending `a`, the key `c` replays `a` and stands alone. -/
theorem dispatch_partitions_oneChord :
    letI := Target.unix
    let tree : DispatchTree UnitAction := ⟨[⟨none⟩],
      Keymap.new [KeyBinding.plain ['a', 'b'] (.other ⟨0, ['x']⟩) none]⟩
    ∃ result pieces rest,
      tree.dispatchKey [Keystroke.plain 'a'] (Keystroke.plain 'c') [0] = .ok result ∧
      [Keystroke.plain 'a'] ++ [Keystroke.plain 'c'] =
        pieces.flatten ++ (rest ++ [Keystroke.plain 'c']) ∧
      List.Forall₂ (tree.Replays [0]) pieces result.toReplay := by
  intro tree
  let _ := Target.unix
  obtain ⟨⟨result, pieces, rest, hrun, hparts, _, hforall, _⟩, _⟩ :=
    dispatch_partitions tree [0] (by decide) [Keystroke.plain 'a'] (Keystroke.plain 'c')
  exact ⟨result, pieces, rest, hrun, hparts, hforall⟩

end DispatchTree

end Gpui
