import Gpui.Keymap.Keymap

/-! # Keymap: the rules of precedence

    Resolving input sorts the matching bindings and passes over them once.  Here
    the rules are stated without the pass: a binding is silenced by a `NoAction`
    binding that outranks it and whose source is no weaker, and by an `Unbind`
    that outranks it and is not silenced by such a `NoAction` itself.  The pass
    returns the bindings that nothing silences. -/

namespace Gpui

open List

variable {A : Type}

/-! ## The order of precedence -/

namespace Keymap

/-- `a` takes precedence over `b`. -/
def Outranks (a b : Ranked A) : Prop :=
  b.depth < a.depth ∨ b.depth = a.depth ∧ b.index < a.index

theorem not_outranks_self (a : Ranked A) : ¬ Outranks a a := by
  intro h
  rcases h with h | h <;> omega

theorem not_outranks_of_outranks {a b : Ranked A} (h : Outranks a b) : ¬ Outranks b a := by
  intro h'
  rcases h with h | h <;> rcases h' with h' | h' <;> omega

instance : Std.Total (Ranked.NoLater (A := A)) where
  total := by
    intro a b
    simp only [Ranked.NoLater]
    omega

instance : IsTrans (Ranked A) Ranked.NoLater where
  trans := by
    intro a b c hab hbc
    simp only [Ranked.NoLater] at hab hbc ⊢
    omega

variable {ranked : List (Ranked A)} {r : Ranked A}

theorem mem_sort : r ∈ Ranked.sort ranked ↔ r ∈ ranked :=
  mem_insertionSort _

/-- Bindings with distinct indices are put into a strict order. -/
theorem pairwise_sort (h : ranked.Pairwise (fun a b => a.index ≠ b.index)) :
    (Ranked.sort ranked).Pairwise Outranks := by
  have hperm : (Ranked.sort ranked).Perm ranked := perm_insertionSort _ _
  have hne : (Ranked.sort ranked).Pairwise (fun a b => a.index ≠ b.index) :=
    hperm.symm.pairwise h (fun hab => Ne.symm hab)
  have hle : (Ranked.sort ranked).Pairwise Ranked.NoLater := pairwise_insertionSort _ _
  apply (hle.and hne).imp
  intro a b ⟨hle, hne⟩
  simp only [Ranked.NoLater] at hle
  simp only [Outranks]
  omega

/-- In a list in the order of precedence, what outranks an element stands before it. -/
theorem outranks_iff_mem {before after : List (Ranked A)}
    (h : (before ++ r :: after).Pairwise Outranks) {n : Ranked A} (hn : n ∈ before ++ r :: after) :
    Outranks n r ↔ n ∈ before := by
  obtain ⟨_, hafter, hbefore⟩ := pairwise_append.mp h
  constructor
  · intro hout
    rcases mem_append.mp hn with hmem | hmem
    · exact hmem
    · rcases mem_cons.mp hmem with heq | hmem
      · rw [heq] at hout
        exact absurd hout (not_outranks_self r)
      · exact absurd hout (not_outranks_of_outranks ((pairwise_cons.mp hafter).1 n hmem))
  · intro hmem
    exact hbefore n hmem r (mem_cons_self ..)

/-! ## The rules -/

/-- A `NoAction` that takes `r` away. -/
structure Nullifies (n r : Ranked A) : Prop where
  noAction : n.binding.action.isNoAction = true
  outranks : Outranks n r
  source_le : source n.binding ≤ source r.binding

variable [Action A]

/-- An `Unbind` that takes `r` away, given the bindings that compete with it. -/
structure Unbinds (among : Ranked A → Prop) (u r : Ranked A) : Prop where
  unbound : bindingIsUnbound u.binding r.binding = true
  outranks : Outranks u r
  active : ∀ n, among n → ¬ Nullifies n u

def Silenced (among : Ranked A → Prop) (r : Ranked A) : Prop :=
  (∃ n, among n ∧ Nullifies n r) ∨ ∃ u, among u ∧ Unbinds among u r

/-- Dispatch runs `r`, given the bindings that compete with it. -/
def Survives (among : Ranked A → Prop) (r : Ranked A) : Prop :=
  r.binding.action.isDisabling = false ∧ ¬ Silenced among r

theorem isUnbind_of_bindingIsUnbound {u b : KeyBinding A} (h : bindingIsUnbound u b = true) :
    u.action.isUnbind = true := by
  rw [bindingIsUnbound, Bool.and_eq_true] at h
  cases haction : u.action with
  | unbind name => rfl
  | noAction | other _ => rw [haction] at h; exact absurd h.2 Bool.false_ne_true

/-! ## The pass -/

open scoped Classical in
/-- What the pass knows once it has read `before`, out of `all`. -/
structure Scan.Reads (all before : List (Ranked A)) (scan : Scan A) : Prop where
  noActionMeta : ∀ k, (scan.noActionMeta.any (fun m => decide (m ≤ k)) = true) ↔
    ∃ n ∈ before, n.binding.action.isNoAction = true ∧ source n.binding ≤ k
  unbound : ∀ b, b ∈ scan.unboundBindings ↔ ∃ u ∈ before, u.binding = b ∧
    u.binding.action.isUnbind = true ∧ ∀ n ∈ all, ¬ Nullifies n u
  bindings : scan.bindings =
    (before.filter (fun r => decide (Survives (· ∈ all) r))).map (fun r => (r.index, r.binding))
  first : scan.firstBindingIndex = scan.bindings.head?.map Prod.fst

theorem Scan.reads_start (all : List (Ranked A)) : Scan.Reads all [] Scan.start where
  noActionMeta := by simp [Scan.start]
  unbound := by simp [Scan.start]
  bindings := rfl
  first := rfl

open scoped Classical in
theorem filter_survives_concat (all before : List (Ranked A)) (r : Ranked A) :
    (before ++ [r]).filter (fun r => decide (Survives (· ∈ all) r)) =
      before.filter (fun r => decide (Survives (· ∈ all) r)) ++
        (if Survives (· ∈ all) r then [r] else []) := by
  rw [filter_append]
  congr 1
  by_cases h : Survives (· ∈ all) r <;> simp [h]

section Step

variable {all before after : List (Ranked A)} {r : Ranked A} {scan : Scan A}

section

variable (h : Scan.Reads all before scan)
include h

/-- What outranks the next binding was read: a `NoAction` that takes it away is known by its
    source. -/
theorem Scan.Reads.nullified_iff (hall : before ++ r :: after = all)
    (hsorted : all.Pairwise Outranks) :
    (∃ n ∈ all, Nullifies n r) ↔
      scan.noActionMeta.any (fun m => decide (m ≤ source r.binding)) = true := by
  rw [h.noActionMeta]
  rw [← hall] at hsorted ⊢
  constructor
  · intro hsome
    obtain ⟨n, hn, hnr⟩ := hsome
    exact ⟨n, (outranks_iff_mem hsorted hn).mp hnr.outranks, hnr.noAction, hnr.source_le⟩
  · intro hsome
    obtain ⟨n, hn, hno, hle⟩ := hsome
    have hmem : n ∈ before ++ r :: after := mem_append_left _ hn
    exact ⟨n, hmem, hno, (outranks_iff_mem hsorted hmem).mpr hn, hle⟩

/-- The same for an `Unbind` that takes it away. -/
theorem Scan.Reads.unbound_iff (hall : before ++ r :: after = all)
    (hsorted : all.Pairwise Outranks) :
    (∃ u ∈ all, Unbinds (· ∈ all) u r) ↔
      scan.unboundBindings.any (fun disabled => bindingIsUnbound disabled r.binding) = true := by
  rw [any_eq_true]
  rw [← hall] at hsorted h ⊢
  constructor
  · intro hsome
    obtain ⟨u, hu, hur⟩ := hsome
    refine ⟨u.binding, (h.unbound _).mpr ?_, hur.unbound⟩
    exact ⟨u, (outranks_iff_mem hsorted hu).mp hur.outranks, rfl,
      isUnbind_of_bindingIsUnbound hur.unbound, hur.active⟩
  · intro hsome
    obtain ⟨b, hb, hbr⟩ := hsome
    obtain ⟨u, hu, rfl, _, hactive⟩ := (h.unbound b).mp hb
    have hmem : u ∈ before ++ r :: after := mem_append_left _ hu
    exact ⟨u, hmem, hbr, (outranks_iff_mem hsorted hmem).mpr hu, hactive⟩

/-- The sources of the `NoAction`s after another binding was read. -/
theorem Scan.Reads.noActionMeta_snoc (hno : ¬ r.binding.action.isNoAction = true) (k : Nat) :
    (scan.noActionMeta.any (fun m => decide (m ≤ k)) = true) ↔
      ∃ n ∈ before ++ [r], n.binding.action.isNoAction = true ∧ source n.binding ≤ k := by
  rw [h.noActionMeta k]
  simp [or_and_right, exists_or, hno]

/-- The active `Unbind`s after a binding was read that is none of them. -/
theorem Scan.Reads.unbound_snoc
    (hnot : r.binding.action.isUnbind = true → ∃ n ∈ all, Nullifies n r) (b : KeyBinding A) :
    b ∈ scan.unboundBindings ↔ ∃ u ∈ before ++ [r], u.binding = b ∧
      u.binding.action.isUnbind = true ∧ ∀ n ∈ all, ¬ Nullifies n u := by
  rw [h.unbound]
  constructor
  · intro hsome
    obtain ⟨u, hu, hrest⟩ := hsome
    exact ⟨u, mem_append_left _ hu, hrest⟩
  · intro hsome
    obtain ⟨u, hu, hub, hunbind, hactive⟩ := hsome
    rcases mem_append.mp hu with hu | hu
    · exact ⟨u, hu, hub, hunbind, hactive⟩
    · rw [mem_singleton.mp hu] at hunbind hactive
      obtain ⟨n, hn, hnr⟩ := hnot hunbind
      exact absurd hnr (hactive n hn)

/-- The result after a binding was read that something silences. -/
theorem Scan.Reads.bindings_snoc (hnot : ¬ Survives (· ∈ all) r) :
    scan.bindings = ((before ++ [r]).filter (fun r => @decide (Survives (· ∈ all) r)
      (Classical.propDecidable _))).map (fun r => (r.index, r.binding)) := by
  rw [filter_survives_concat, if_neg hnot, append_nil]
  exact h.bindings

/-- **Step lemma.**  The pass reads one more binding. -/
theorem Scan.Reads.pass (hall : before ++ r :: after = all) (hsorted : all.Pairwise Outranks) :
    Scan.Reads all (before ++ [r]) (scan.pass r) := by
  have hnull := h.nullified_iff hall hsorted
  have hunbound := h.unbound_iff hall hsorted
  rw [Scan.pass]
  by_cases hno : r.binding.action.isNoAction = true
  · -- a `NoAction` is remembered by its source
    have hnotUnbind : r.binding.action.isUnbind = false := by
      cases haction : r.binding.action <;> rw [haction] at hno <;>
        first | rfl | exact absurd hno Bool.false_ne_true
    simp only [if_pos hno]
    refine ⟨?_, h.unbound_snoc ?_, h.bindings_snoc (fun hs => ?_), h.first⟩
    · intro k
      have hk := h.noActionMeta k
      simp only [mem_append, mem_singleton, or_and_right, exists_or, exists_eq_left,
        ← hk, hno, true_and]
      cases scan.noActionMeta with
      | none => simp
      | some existing => simp
    · intro hunbind
      rw [hnotUnbind] at hunbind
      cases hunbind
    · have := hs.1
      simp [DynAction.isDisabling, hno] at this
  rw [if_neg hno]
  have hmeta := h.noActionMeta_snoc hno
  by_cases hnulled : scan.noActionMeta.any (fun m => decide (m ≤ source r.binding)) = true
  · -- a stronger `NoAction` was read
    rw [if_pos hnulled]
    have hsome := hnull.mpr hnulled
    exact ⟨hmeta, h.unbound_snoc fun _ => hsome, h.bindings_snoc fun hs => hs.2 (Or.inl hsome),
      h.first⟩
  rw [if_neg hnulled]
  have hactive : ∀ n ∈ all, ¬ Nullifies n r := by
    intro n hn hnr
    exact hnulled (hnull.mp ⟨n, hn, hnr⟩)
  by_cases hunbind : r.binding.action.isUnbind = true
  · -- an active `Unbind` is remembered
    rw [if_pos hunbind]
    refine ⟨hmeta, ?_, h.bindings_snoc (fun hs => ?_), h.first⟩
    · intro b
      rw [mem_append, h.unbound, mem_singleton]
      constructor
      · intro hb
        rcases hb with ⟨u, hu, hrest⟩ | hb
        · exact ⟨u, mem_append_left _ hu, hrest⟩
        · exact ⟨r, by simp, hb.symm, hunbind, hactive⟩
      · intro hsome
        obtain ⟨u, hu, hub, hrest⟩ := hsome
        rcases mem_append.mp hu with hu | hu
        · exact Or.inl ⟨u, hu, hub, hrest⟩
        · rw [mem_singleton.mp hu] at hub
          exact Or.inr hub.symm
    · have := hs.1
      simp [DynAction.isDisabling, hunbind] at this
  rw [if_neg hunbind]
  have hunboundEq := h.unbound_snoc (r := r) fun hu => absurd hu hunbind
  by_cases htaken : scan.unboundBindings.any
      (fun disabled => bindingIsUnbound disabled r.binding) = true
  · rw [if_pos htaken]
    exact ⟨hmeta, hunboundEq,
      h.bindings_snoc fun hs => hs.2 (Or.inr (hunbound.mpr htaken)), h.first⟩
  -- nothing silences the binding
  rw [if_neg htaken]
  have hs : Survives (· ∈ all) r := by
    refine ⟨by simp [DynAction.isDisabling, hno, hunbind], ?_⟩
    intro hsilenced
    rcases hsilenced with ⟨n, hn, hnr⟩ | hun
    · exact hactive n hn hnr
    · exact htaken (hunbound.mp hun)
  refine ⟨hmeta, hunboundEq, ?_, ?_⟩
  · show scan.bindings ++ _ = _
    rw [filter_survives_concat, if_pos hs, map_append, ← h.bindings]
    rfl
  · show some _ = _
    rw [h.first]
    cases scan.bindings <;> rfl

end

end Step

/-- **Run lemma.**  The pass reads the whole list. -/
theorem Scan.reads_foldl {all : List (Ranked A)} (hsorted : all.Pairwise Outranks) :
    Scan.Reads all all (all.foldl Scan.pass Scan.start) := by
  have hrun : ∀ (after before : List (Ranked A)) (scan : Scan A), before ++ after = all →
      Scan.Reads all before scan → Scan.Reads all all (after.foldl Scan.pass scan) := by
    intro after
    induction after with
    | nil =>
      intro before scan hall h
      rw [append_nil] at hall
      rw [hall] at h
      exact h
    | cons r after ih =>
      intro before scan hall h
      exact ih (before ++ [r]) (scan.pass r) (by rw [← hall]; simp) (h.pass hall hsorted)
  exact hrun all [] Scan.start rfl (Scan.reads_start all)

/-! ## The bindings of the whole keymap -/

variable {entries : List (Nat × KeyBinding A)} {ix : Nat} {binding : KeyBinding A} {r : Ranked A}

omit [Action A] in
theorem pairwise_of_filterMap (h : entries.Pairwise (fun a b => b.1 < a.1))
    {f : Nat × KeyBinding A → Option (Ranked A)}
    (hf : ∀ entry r, f entry = some r → r.index = entry.1) :
    (entries.filterMap f).Pairwise (fun a b => a.index ≠ b.index) := by
  apply List.Pairwise.filterMap f _ h
  intro a b hlt r hr r' hr'
  rw [hf a r hr, hf b r' hr']
  exact Nat.ne_of_gt hlt

theorem mem_reversed {keymap : Keymap A} :
    (ix, binding) ∈ keymap.reversed ↔ keymap.bindings[ix]? = some binding := by
  simp [reversed, mem_zipIdx_iff_getElem?]

theorem pairwise_reversed (keymap : Keymap A) :
    keymap.reversed.Pairwise (fun a b => b.1 < a.1) := by
  rw [reversed, pairwise_reverse, pairwise_map]
  have h := pairwise_lt_range' (s := 0) (n := keymap.bindings.length)
  rw [← zipIdx_map_snd, pairwise_map] at h
  exact h

variable [Target]

/-- The binding of the keymap is enabled and the input completes it. -/
structure Completes (keymap : Keymap A) (input : List Keystroke) (contextStack : List KeyContext)
    (r : Ranked A) : Prop where
  stored : keymap.bindings[r.index]? = some r.binding
  enabled : bindingEnabled r.binding contextStack = some r.depth
  complete : r.binding.matchKeystrokes input = some false

/-- Dispatch of `typed` does not run `r`: a `NoAction` or an `Unbind` that `typed`
    completes too silences it. -/
def SilencedOn (keymap : Keymap A) (typed : List Keystroke) (contextStack : List KeyContext)
    (r : Ranked A) : Prop :=
  Silenced (keymap.Completes typed contextStack) r

variable {keymap : Keymap A} {input : List Keystroke} {contextStack : List KeyContext}

omit [Action A] in
theorem mem_matchedBindings :
    r ∈ matchedBindings input contextStack entries ↔ (r.index, r.binding) ∈ entries ∧
      bindingEnabled r.binding contextStack = some r.depth ∧
      r.binding.matchKeystrokes input = some false := by
  rw [matchedBindings, mem_filterMap]
  constructor
  · intro ⟨⟨ix, binding⟩, hmem, hr⟩
    dsimp only at hr
    split at hr
    · next depth henabled hmatch =>
      cases hr
      exact ⟨hmem, henabled, hmatch⟩
    · cases hr
  · intro ⟨hmem, henabled, hmatch⟩
    refine ⟨(r.index, r.binding), hmem, ?_⟩
    simp only [henabled, hmatch]

/-- The matching bindings of the keymap, in the order of precedence. -/
def competing (keymap : Keymap A) (input : List Keystroke) (contextStack : List KeyContext) :
    List (Ranked A) :=
  Ranked.sort (matchedBindings input contextStack keymap.reversed)

theorem mem_competing :
    r ∈ keymap.competing input contextStack ↔ keymap.Completes input contextStack r := by
  rw [competing, mem_sort, mem_matchedBindings, mem_reversed]
  exact ⟨fun ⟨h1, h2, h3⟩ => ⟨h1, h2, h3⟩, fun ⟨h1, h2, h3⟩ => ⟨h1, h2, h3⟩⟩

theorem pairwise_competing : (keymap.competing input contextStack).Pairwise Outranks := by
  apply pairwise_sort
  apply pairwise_of_filterMap keymap.pairwise_reversed
  intro ⟨ix, binding⟩ r hr
  dsimp only at hr
  split at hr
  · cases hr
    rfl
  · cases hr

theorem reads_competing : Scan.Reads (keymap.competing input contextStack)
    (keymap.competing input contextStack)
    ((keymap.competing input contextStack).foldl Scan.pass Scan.start) :=
  Scan.reads_foldl pairwise_competing

/-- **What resolving input returns**: the bindings that the input completes and
    that nothing silences. -/
theorem mem_resolve :
    (ix, binding) ∈ (resolveBindingsForInput input contextStack keymap.reversed).1 ↔
      ∃ depth, keymap.Completes input contextStack ⟨depth, ix, binding⟩ ∧
        Survives (keymap.Completes input contextStack) ⟨depth, ix, binding⟩ := by
  have hamong : (· ∈ keymap.competing input contextStack) =
      keymap.Completes input contextStack := funext (fun r => propext mem_competing)
  have hbindings : (resolveBindingsForInput input contextStack keymap.reversed).1 = _ :=
    reads_competing.bindings
  rw [hbindings, hamong]
  constructor
  · intro h
    obtain ⟨r, hr, heq⟩ := mem_map.mp h
    obtain ⟨hmem, hs⟩ := mem_filter.mp hr
    cases heq
    exact ⟨r.depth, mem_competing.mp hmem, by simpa using hs⟩
  · intro ⟨depth, hcompletes, hs⟩
    apply mem_map.mpr
    refine ⟨_, mem_filter.mpr ⟨mem_competing.mpr hcompletes, ?_⟩, rfl⟩
    simpa using hs

/-- **What `bindings_for_input` returns**: in strictly decreasing order of depth and
    index, the bindings that the input completes and that nothing silences. -/
theorem bindingsForInput_spec (keymap : Keymap A) (input : List Keystroke)
    (contextStack : List KeyContext) :
    ∃ dispatched : List (Ranked A), dispatched.Pairwise Outranks ∧
      (keymap.bindingsForInput input contextStack).1 = dispatched.map Ranked.binding ∧
      ∀ r, r ∈ dispatched ↔ keymap.Completes input contextStack r ∧
        Survives (keymap.Completes input contextStack) r := by
  classical
  have hamong : (· ∈ keymap.competing input contextStack) =
      keymap.Completes input contextStack := funext (fun r => propext mem_competing)
  refine ⟨(keymap.competing input contextStack).filter
    (fun r => decide (Survives (· ∈ keymap.competing input contextStack) r)), ?_, ?_, ?_⟩
  · exact pairwise_competing.sublist filter_sublist
  · have hbindings : (resolveBindingsForInput input contextStack keymap.reversed).1 = _ :=
      reads_competing.bindings
    show List.map Prod.snd (resolveBindingsForInput input contextStack keymap.reversed).1 = _
    rw [hbindings, map_map]
    congr!
  · intro r
    rw [mem_filter, mem_competing, hamong]
    simp

end Keymap

end Gpui
