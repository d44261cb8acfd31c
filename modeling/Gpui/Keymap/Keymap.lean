import Gpui.Keymap.Binding

/-! # Keymap: the bindings of an application

    The keymap keeps its bindings in the order they were added, with the indices
    of those for each type of action and of those that disable others.  Input is
    resolved against the bindings that are enabled in the focused contexts:
    the deepest come first, and the last added among those of one depth. -/

namespace Gpui

variable {A : Type}

/-! ## The keymap -/

/-- The indices of the bindings with a property. -/
def indicesOf (bindings : List (KeyBinding A)) (p : KeyBinding A → Bool) : List Nat :=
  (bindings.zipIdx.filter (fun entry => p entry.1)).map Prod.snd

theorem indicesOf_append (bindings : List (KeyBinding A)) (binding : KeyBinding A)
    (p : KeyBinding A → Bool) :
    indicesOf (bindings ++ [binding]) p =
      if p binding then indicesOf bindings p ++ [bindings.length] else indicesOf bindings p := by
  by_cases hp : p binding = true <;>
    simp [indicesOf, List.zipIdx_append, List.filter_append, hp]

/-- Whether the binding runs an action of the given type. -/
def KeyBinding.runsType [Action A] (actionId : Nat) (binding : KeyBinding A) : Bool :=
  match binding.action with
  | .noAction     => false
  | .unbind _     => false
  | .other action => Action.typeId action == actionId

structure Keymap (A : Type) [Action A] where
  bindings : List (KeyBinding A)
  /-- The map from the types of actions; a missing key stands for no indices. -/
  bindingIndicesByActionId : Nat → List Nat
  disabledBindingIndices : List Nat
  version : Nat
  indices_eq : ∀ actionId,
    bindingIndicesByActionId actionId = indicesOf bindings (KeyBinding.runsType actionId)
  disabled_eq : disabledBindingIndices = indicesOf bindings (fun b => b.action.isDisabling)

namespace Keymap

variable [Action A]

def default : Keymap A where
  bindings := []
  bindingIndicesByActionId := fun _ => []
  disabledBindingIndices := []
  version := 0
  indices_eq := fun _ => rfl
  disabled_eq := rfl

/-- The index of a new binding goes to one of the two indices. -/
def addBinding (keymap : Keymap A) (binding : KeyBinding A) : Keymap A where
  bindings := keymap.bindings ++ [binding]
  bindingIndicesByActionId := fun actionId =>
    if binding.runsType actionId then
      keymap.bindingIndicesByActionId actionId ++ [keymap.bindings.length]
    else keymap.bindingIndicesByActionId actionId
  disabledBindingIndices :=
    if binding.action.isDisabling then keymap.disabledBindingIndices ++ [keymap.bindings.length]
    else keymap.disabledBindingIndices
  version := keymap.version
  indices_eq := by
    intro actionId
    rw [indicesOf_append, keymap.indices_eq]
  disabled_eq := by
    rw [indicesOf_append, keymap.disabled_eq]

def addBindings (keymap : Keymap A) (bindings : List (KeyBinding A)) : Keymap A :=
  let keymap := bindings.foldl addBinding keymap
  { keymap with version := keymap.version + 1 }

def new (bindings : List (KeyBinding A)) : Keymap A :=
  default.addBindings bindings

def clear (keymap : Keymap A) : Keymap A :=
  { (default : Keymap A) with version := keymap.version + 1 }

/-- The bindings with their indices, the last one first. -/
def reversed (keymap : Keymap A) : List (Nat × KeyBinding A) :=
  (keymap.bindings.zipIdx.map Prod.swap).reverse

/-! ## The bindings for an action -/

def disabledBindingMatchesContext (disabledBinding binding : KeyBinding A) : Bool :=
  match disabledBinding.contextPredicate, binding.contextPredicate with
  | none, _                                  => true
  | some _, none                             => false
  | some disabledPredicate, some predicate   => disabledPredicate.isSuperset predicate

def bindingIsUnbound (disabledBinding binding : KeyBinding A) : Bool :=
  disabledBinding.keystrokes == binding.keystrokes &&
    match disabledBinding.action with
    | .noAction    => false
    | .unbind name => name == binding.action.name
    | .other _     => false

/-- Whether a disabling binding takes the binding out of the bindings for its
    action. -/
def disables (disabledBinding binding : KeyBinding A) : Bool :=
  if disabledBinding.keystrokes != binding.keystrokes then false
  else if disabledBinding.action.isNoAction then
    disabledBindingMatchesContext disabledBinding binding
  else disabledBinding.action.isUnbind && disabledBindingMatchesContext disabledBinding binding
    && bindingIsUnbound disabledBinding binding

/-- Whether the binding at an index for the type of `action` is one for `action`. -/
def isFor (action : A) (binding : KeyBinding A) : Bool :=
  match binding.action with
  | .noAction    => false
  | .unbind _    => false
  | .other bound => Action.partialEq bound action

/-- Whether the binding at `ix` is left out of the bindings for its action. -/
def isHidden (keymap : Keymap A) (ix : Nat) (binding : KeyBinding A) : Bool :=
  keymap.disabledBindingIndices.any (fun disabledIx =>
    decide (ix < disabledIx) &&
      (keymap.bindings[disabledIx]?).any (fun disabledBinding => disables disabledBinding binding))

/-- The binding at an index for the type of `action`, unless it is left out.  The
    stored indices are those of bindings, so the lookup does not fail. -/
def bindingForAction (keymap : Keymap A) (action : A) (ix : Nat) : Option (KeyBinding A) :=
  match keymap.bindings[ix]? with
  | none         => none
  | some binding =>
      if !isFor action binding then none
      else if keymap.isHidden ix binding then none
      else some binding

/-- The bindings for an action, in the order they were added. -/
def bindingsForAction (keymap : Keymap A) (action : A) : List (KeyBinding A) :=
  (keymap.bindingIndicesByActionId (Action.typeId action)).filterMap
    (keymap.bindingForAction action)

/-! ## Resolving input -/

/-- A binding that matches the input, with its depth and its index. -/
structure Ranked (A : Type) where
  depth : Nat
  index : Nat
  binding : KeyBinding A
  deriving DecidableEq, Repr

/-- Whether `a` stands no later than `b` in the order of precedence. -/
def Ranked.NoLater (a b : Ranked A) : Prop :=
  b.depth < a.depth ∨ b.depth = a.depth ∧ b.index ≤ a.index

instance : DecidableRel (Ranked.NoLater (A := A)) := fun _ _ =>
  inferInstanceAs (Decidable (_ ∨ _))

def Ranked.sort (ranked : List (Ranked A)) : List (Ranked A) :=
  ranked.insertionSort Ranked.NoLater

/-- The depth at which the binding is enabled. -/
def bindingEnabled (binding : KeyBinding A) (contexts : List KeyContext) : Option Nat :=
  match binding.contextPredicate with
  | some predicate => predicate.depthOf contexts
  | none           => some contexts.length

/-- The source of a binding without one counts as the user. -/
def source (binding : KeyBinding A) : Nat := binding.metaIndex.getD 0

/-- What the pass over the matching bindings keeps. -/
structure Scan (A : Type) where
  /-- The strongest source of the `NoAction` bindings so far. -/
  noActionMeta : Option Nat
  unboundBindings : List (KeyBinding A)
  bindings : List (Nat × KeyBinding A)
  firstBindingIndex : Option Nat

def Scan.start : Scan A := ⟨none, [], [], none⟩

def Scan.pass (scan : Scan A) (ranked : Ranked A) : Scan A :=
  let binding := ranked.binding
  if binding.action.isNoAction then
    let strongest := match scan.noActionMeta with
      | none          => source binding
      | some existing => min existing (source binding)
    { scan with noActionMeta := some strongest }
  else if scan.noActionMeta.any (fun noActionMeta => decide (noActionMeta ≤ source binding)) then
    scan
  else if binding.action.isUnbind then
    { scan with unboundBindings := scan.unboundBindings ++ [binding] }
  else if scan.unboundBindings.any (fun disabled => bindingIsUnbound disabled binding) then
    scan
  else
    { scan with
      bindings := scan.bindings ++ [(ranked.index, binding)]
      firstBindingIndex := some (scan.firstBindingIndex.getD ranked.index) }

/-- One binding that needs more input goes through the set of pending keystrokes. -/
def pendingPass (firstBindingIndex : Option Nat) (pending : Finset (List KeybindingKeystroke))
    (entry : Nat × KeyBinding A) : Finset (List KeybindingKeystroke) :=
  if firstBindingIndex.any (fun bindingIx => decide (entry.1 < bindingIx)) then pending
  else if entry.2.action.isNoAction || entry.2.action.isUnbind then
    pending.erase entry.2.keystrokes
  else insert entry.2.keystrokes pending

variable [Target]

/-- The enabled bindings that the input completes. -/
def matchedBindings (input : List Keystroke) (contextStack : List KeyContext)
    (keymapBindings : List (Nat × KeyBinding A)) : List (Ranked A) :=
  keymapBindings.filterMap (fun (ix, binding) =>
    match bindingEnabled binding contextStack, binding.matchKeystrokes input with
    | some depth, some false => some ⟨depth, ix, binding⟩
    | _, _                   => none)

/-- The enabled bindings that need more input. -/
def pendingBindings (input : List Keystroke) (contextStack : List KeyContext)
    (keymapBindings : List (Nat × KeyBinding A)) : List (Nat × KeyBinding A) :=
  keymapBindings.filter (fun (_, binding) =>
    (bindingEnabled binding contextStack).isSome && binding.matchKeystrokes input == some true)

/-- The bindings to dispatch, with their indices, and whether more input may match
    more.  `keymapBindings` is in reverse order of the keymap. -/
def resolveBindingsForInput (input : List Keystroke) (contextStack : List KeyContext)
    (keymapBindings : List (Nat × KeyBinding A)) : List (Nat × KeyBinding A) × Bool :=
  let scan := (Ranked.sort (matchedBindings input contextStack keymapBindings)).foldl
    Scan.pass Scan.start
  let pending := (pendingBindings input contextStack keymapBindings).reverse.foldl
    (pendingPass scan.firstBindingIndex) ∅
  (scan.bindings, decide pending.Nonempty)

def bindingsForInput (keymap : Keymap A) (input : List Keystroke)
    (contextStack : List KeyContext) : List (KeyBinding A) × Bool :=
  let (bindings, pending) := resolveBindingsForInput input contextStack keymap.reversed
  (bindings.map Prod.snd, pending)

/-! ## What may follow the input -/

/-- The bindings that begin with the input and go on; the disabling ones are kept. -/
def bindingsExtendingInput (keymap : Keymap A) (input : List Keystroke) :
    List (Nat × KeyBinding A) :=
  keymap.reversed.filter (fun (_, binding) => binding.matchKeystrokes input == some true)

/-- The bindings that dispatch would run for their full keystrokes, in precedence
    order. -/
def possibleNextCandidates (keymap : Keymap A) (input : List Keystroke)
    (contextStack : List KeyContext) : List (Ranked A) :=
  let extending := keymap.bindingsExtendingInput input
  Ranked.sort ((extending.filter (fun (_, binding) =>
      !binding.action.isNoAction && !binding.action.isUnbind)).filterMap (fun (ix, binding) =>
    match bindingEnabled binding contextStack with
    | none => none
    | some depth =>
        -- the typed input, not the binding's own keystrokes
        let fullInput := input ++ binding.remaining input
        let (dispatched, _) := resolveBindingsForInput fullInput contextStack extending
        if dispatched.any (fun (dispatchedIx, _) => dispatchedIx == ix) then
          some ⟨depth, ix, binding⟩
        else none))

def possibleNextBindingsForInput (keymap : Keymap A) (input : List Keystroke)
    (contextStack : List KeyContext) : List (KeyBinding A) :=
  (keymap.possibleNextCandidates input contextStack).map Ranked.binding

end Keymap

end Gpui
