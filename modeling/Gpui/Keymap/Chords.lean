import Gpui.Keymap.Resolve

/-! # Keymap: what may follow the input

    `possible_next_bindings_for_input` resolves each chord that extends the input
    against the bindings that extend it too, and so agrees with dispatch.  The
    pending flag of `bindings_for_input` looks at the order of the keymap and at
    equal keystrokes only. -/

namespace Gpui

open List

namespace Keymap

section

variable {A : Type} [Action A] [Target]
variable {keymap : Keymap A} {input : List Keystroke} {contextStack : List KeyContext}

/-! ## The filtered bindings -/

variable {entries : List (Nat × KeyBinding A)} {p : Nat × KeyBinding A → Bool}

section

variable (h : ∀ entry ∈ entries, entry.2.matchKeystrokes input ≠ none → p entry = true)
include h

omit [Action A] in
theorem matchedBindings_filter :
    matchedBindings input contextStack (entries.filter p) =
      matchedBindings input contextStack entries := by
  rw [matchedBindings, matchedBindings, filterMap_filter]
  apply filterMap_congr
  intro entry hmem
  obtain ⟨ix, binding⟩ := entry
  by_cases hp : p (ix, binding) = true
  · rw [if_pos hp]
  · rw [if_neg hp]
    -- the input does not match what was filtered out
    have hnone : binding.matchKeystrokes input = none := by
      by_contra hne
      exact hp (h _ hmem hne)
    simp only [hnone]
    cases bindingEnabled binding contextStack <;> rfl

omit [Action A] in
theorem pendingBindings_filter :
    pendingBindings input contextStack (entries.filter p) =
      pendingBindings input contextStack entries := by
  rw [pendingBindings, pendingBindings, filter_filter]
  apply filter_congr
  intro ⟨ix, binding⟩ hmem
  by_cases hp : p (ix, binding) = true
  · rw [hp, Bool.and_true]
  · have hnone : binding.matchKeystrokes input = none := by
      by_contra hne
      exact hp (h _ hmem hne)
    simp only [hnone]
    simp

theorem resolve_filter :
    resolveBindingsForInput input contextStack (entries.filter p) =
      resolveBindingsForInput input contextStack entries := by
  rw [resolveBindingsForInput, matchedBindings_filter h, pendingBindings_filter h]
  rfl

end

/-- Whatever matches a longer input extends the input, so the filter keeps all that
    competes for the longer one. -/
theorem resolve_extending {rest : List Keystroke} (hrest : rest ≠ []) :
    resolveBindingsForInput (input ++ rest) contextStack (keymap.bindingsExtendingInput input) =
      resolveBindingsForInput (input ++ rest) contextStack keymap.reversed := by
  apply resolve_filter
  intro ⟨ix, binding⟩ _ hne
  obtain ⟨pending, hmatch⟩ := Option.ne_none_iff_exists'.mp hne
  have hbegins := (KeyBinding.matchKeystrokes_eq_some.mp hmatch).1
  have hlength := hbegins.1
  have hpos := length_pos_iff.mpr hrest
  rw [length_append] at hlength
  dsimp only at hlength
  rw [beq_iff_eq, KeyBinding.matchKeystrokes_pending]
  exact ⟨hbegins.of_append, by omega⟩

/-! ## Chords -/

/-- A binding at `ix`, enabled in the contexts, that begins with the input and has
    more keystrokes. -/
structure Extends (keymap : Keymap A) (input : List Keystroke) (contextStack : List KeyContext)
    (r : Ranked A) : Prop where
  stored : keymap.bindings[r.index]? = some r.binding
  enabled : bindingEnabled r.binding contextStack = some r.depth
  pending : r.binding.matchKeystrokes input = some true

/-- A chord that may follow the input: neither null nor `Unbind`. -/
structure Chord (keymap : Keymap A) (input : List Keystroke) (contextStack : List KeyContext)
    (r : Ranked A) : Prop extends Extends keymap input contextStack r where
  normal : r.binding.action.isDisabling = false

/-- The input followed by the rest of the chord. -/
def fullInput (input : List Keystroke) (binding : KeyBinding A) : List Keystroke :=
  input ++ binding.remaining input

omit [Action A] in
theorem remaining_ne_nil {binding : KeyBinding A}
    (h : binding.matchKeystrokes input = some true) : binding.remaining input ≠ [] := by
  have hlt := (KeyBinding.matchKeystrokes_pending.mp h).2
  intro hnil
  have := congrArg List.length hnil
  simp [KeyBinding.remaining] at this
  omega

theorem Extends.completes {r : Ranked A} (h : keymap.Extends input contextStack r) :
    keymap.Completes (fullInput input r.binding) contextStack r where
  stored := h.stored
  enabled := h.enabled
  complete := (KeyBinding.matchKeystrokes_pending.mp h.pending).1.append_remaining

theorem mem_possibleNextCandidates {r : Ranked A} :
    r ∈ keymap.possibleNextCandidates input contextStack ↔
      keymap.Chord input contextStack r ∧ (r.index, r.binding) ∈
        (resolveBindingsForInput (fullInput input r.binding) contextStack keymap.reversed).1 := by
  rw [possibleNextCandidates, mem_sort, mem_filterMap]
  constructor
  · intro hmem
    obtain ⟨⟨ix, binding⟩, hmem, hr⟩ := hmem
    obtain ⟨hext, hnormal⟩ := mem_filter.mp hmem
    obtain ⟨hrev, hpending⟩ := mem_filter.mp hext
    rw [beq_iff_eq] at hpending
    have hstored := mem_reversed.mp hrev
    dsimp only at hr hpending
    split at hr
    · cases hr
    · next depth henabled =>
      rw [resolve_extending (remaining_ne_nil hpending)] at hr
      split at hr
      · next hany =>
        cases hr
        obtain ⟨⟨ix', binding'⟩, hdispatched, hix⟩ := any_eq_true.mp hany
        rw [beq_iff_eq] at hix
        have hix : ix' = ix := hix
        obtain ⟨_, hcompletes, _⟩ := mem_resolve.mp hdispatched
        have heq : binding' = binding := by
          have hstored' := hcompletes.stored
          rw [hix] at hstored'
          exact Option.some.inj (hstored'.symm.trans hstored)
        rw [hix, heq] at hdispatched
        refine ⟨⟨⟨hstored, henabled, hpending⟩, ?_⟩, hdispatched⟩
        rw [DynAction.isDisabling]
        simpa using hnormal
      · cases hr
  · intro hmem
    obtain ⟨hchord, hdispatched⟩ := hmem
    refine ⟨(r.index, r.binding), ?_, ?_⟩
    · apply mem_filter.mpr
      refine ⟨mem_filter.mpr ⟨mem_reversed.mpr hchord.stored, ?_⟩, ?_⟩
      · rw [beq_iff_eq]
        exact hchord.pending
      · have hnormal := hchord.normal
        rw [DynAction.isDisabling] at hnormal
        simpa using hnormal
    · dsimp only
      rw [hchord.enabled]
      dsimp only
      rw [resolve_extending (remaining_ne_nil hchord.pending), if_pos]
      apply any_eq_true.mpr
      exact ⟨_, hdispatched, by simp⟩

theorem pairwise_possibleNextCandidates :
    (keymap.possibleNextCandidates input contextStack).Pairwise Outranks := by
  apply pairwise_sort
  apply pairwise_of_filterMap
  · exact (keymap.pairwise_reversed.filter _).filter _
  · intro ⟨ix, binding⟩ r hr
    dsimp only at hr
    split at hr
    · cases hr
    · split at hr
      · cases hr
        rfl
      · cases hr

/-- **What may follow the input agrees with dispatch.**  A binding is returned exactly
    when it is an enabled chord that dispatch on the whole keymap runs for its full
    keystrokes; the filtered keymap resolves these like the whole one, and the
    results stand in the order of precedence. -/
theorem possibleNext_agrees_with_dispatch (keymap : Keymap A) (input : List Keystroke)
    (contextStack : List KeyContext) :
    (∀ ix binding, (∃ depth,
        (⟨depth, ix, binding⟩ : Ranked A) ∈ keymap.possibleNextCandidates input contextStack) ↔
      keymap.bindings[ix]? = some binding ∧ (bindingEnabled binding contextStack).isSome ∧
      binding.action.isNoAction = false ∧ binding.action.isUnbind = false ∧
      binding.matchKeystrokes input = some true ∧
      (ix, binding) ∈ (resolveBindingsForInput (input ++ binding.remaining input) contextStack
        keymap.reversed).1) ∧
    (∀ binding, binding ∈ keymap.bindings → binding.matchKeystrokes input = some true →
      resolveBindingsForInput (input ++ binding.remaining input) contextStack
          (keymap.bindingsExtendingInput input) =
        resolveBindingsForInput (input ++ binding.remaining input) contextStack
          keymap.reversed) ∧
    keymap.possibleNextBindingsForInput input contextStack =
      (keymap.possibleNextCandidates input contextStack).map Ranked.binding ∧
    (keymap.possibleNextCandidates input contextStack).Pairwise Outranks := by
  refine ⟨?_, ?_, rfl, pairwise_possibleNextCandidates⟩
  · intro ix binding
    constructor
    · intro hruns
      obtain ⟨depth, hmem⟩ := hruns
      obtain ⟨hchord, hdispatched⟩ := mem_possibleNextCandidates.mp hmem
      have hnormal := hchord.normal
      rw [DynAction.isDisabling, Bool.or_eq_false_iff] at hnormal
      exact ⟨hchord.stored, by rw [hchord.enabled]; rfl, hnormal.1, hnormal.2, hchord.pending,
        hdispatched⟩
    · intro hruns
      obtain ⟨hstored, henabled, hno, hunbind, hpending, hdispatched⟩ := hruns
      obtain ⟨depth, hdepth⟩ := Option.isSome_iff_exists.mp henabled
      refine ⟨depth, mem_possibleNextCandidates.mpr ⟨⟨⟨hstored, hdepth, hpending⟩, ?_⟩, hdispatched⟩⟩
      rw [DynAction.isDisabling, hno, hunbind]
      rfl
  · intro binding _ hpending
    exact resolve_extending (remaining_ne_nil hpending)

/-! ## The pending flag -/

/-- A disabling binding that stands later in the keymap, with the same keystrokes. -/
def StruckOut (keymap : Keymap A) (input : List Keystroke) (contextStack : List KeyContext)
    (r : Ranked A) : Prop :=
  ∃ d, keymap.Extends input contextStack d ∧ r.index < d.index ∧
    d.binding.action.isDisabling = true ∧ d.binding.keystrokes = r.binding.keystrokes

omit [Action A] [Target] in
/-- Some keystrokes are pending after the pass when a binding has them that no later
    one takes away.  The bindings come in the order of the keymap. -/
theorem mem_pendingPass {keystrokes : List KeybindingKeystroke}
    (h : entries.Pairwise (fun a b => a.1 < b.1)) :
    keystrokes ∈ entries.foldl (pendingPass none) ∅ ↔
      ∃ entry ∈ entries, entry.2.action.isDisabling = false ∧ entry.2.keystrokes = keystrokes ∧
        ∀ d ∈ entries, entry.1 < d.1 → d.2.action.isDisabling = true →
          d.2.keystrokes ≠ keystrokes := by
  induction entries using List.reverseRecOn with
  | nil => simp
  | append_singleton entries last ih =>
    obtain ⟨hinit, _, hlast⟩ := pairwise_append.mp h
    have ih := ih hinit
    rw [foldl_append, foldl_cons, foldl_nil, pendingPass]
    have hfirst : (none : Option Nat).any (fun ix => decide (last.1 < ix)) = false := rfl
    rw [hfirst, if_neg Bool.false_ne_true]
    by_cases hdis : last.2.action.isDisabling = true
    · -- the last binding takes its keystrokes away
      have hcond : (last.2.action.isNoAction || last.2.action.isUnbind) = true := hdis
      rw [if_pos hcond, Finset.mem_erase, ih]
      constructor
      · intro ⟨hne, entry, hmem, hnormal, heq, hlater⟩
        refine ⟨entry, mem_append_left _ hmem, hnormal, heq, ?_⟩
        intro d hd hlt hdd
        rcases mem_append.mp hd with hd | hd
        · exact hlater d hd hlt hdd
        · rw [mem_singleton.mp hd]
          exact fun hks => hne hks.symm
      · intro ⟨entry, hmem, hnormal, heq, hlater⟩
        rcases mem_append.mp hmem with hmem | hmem
        · have hlt := hlast entry hmem last (mem_singleton_self _)
          refine ⟨fun hks => hlater last (by simp) hlt hdis hks.symm, entry, hmem, hnormal, heq, ?_⟩
          intro d hd
          exact hlater d (mem_append_left _ hd)
        · rw [mem_singleton.mp hmem, hdis] at hnormal
          cases hnormal
    · have hcond : ¬ (last.2.action.isNoAction || last.2.action.isUnbind) = true := hdis
      rw [if_neg hcond, Finset.mem_insert, ih]
      have hnormal := Bool.eq_false_of_not_eq_true hdis
      constructor
      · intro hmem
        rcases hmem with hks | ⟨entry, hmem, hentry, heq, hlater⟩
        · -- nothing is later than the last binding
          refine ⟨last, by simp, hnormal, hks.symm, ?_⟩
          intro d hd hlt _
          rcases mem_append.mp hd with hd | hd
          · have := hlast d hd last (mem_singleton_self _)
            omega
          · rw [mem_singleton.mp hd] at hlt
            omega
        · refine ⟨entry, mem_append_left _ hmem, hentry, heq, ?_⟩
          intro d hd hlt hdd
          rcases mem_append.mp hd with hd | hd
          · exact hlater d hd hlt hdd
          · rw [mem_singleton.mp hd] at hdd
            exact absurd hdd hdis
      · intro ⟨entry, hmem, hentry, heq, hlater⟩
        rcases mem_append.mp hmem with hmem | hmem
        · exact Or.inr ⟨entry, hmem, hentry, heq,
            fun d hd => hlater d (mem_append_left _ hd)⟩
        · rw [mem_singleton.mp hmem] at heq
          exact Or.inl heq.symm

theorem mem_pendingBindings {ix : Nat} {binding : KeyBinding A} :
    (ix, binding) ∈ pendingBindings input contextStack keymap.reversed ↔
      ∃ depth, keymap.Extends input contextStack ⟨depth, ix, binding⟩ := by
  rw [pendingBindings, mem_filter, mem_reversed, Bool.and_eq_true, beq_iff_eq,
    Option.isSome_iff_exists]
  constructor
  · intro ⟨hstored, ⟨depth, henabled⟩, hpending⟩
    exact ⟨depth, hstored, henabled, hpending⟩
  · intro ⟨depth, h⟩
    exact ⟨h.stored, ⟨depth, h.enabled⟩, h.pending⟩

/-- Without a complete match, the flag says that some chord is not struck out. -/
theorem pending_iff (hnone : (keymap.bindingsForInput input contextStack).1 = []) :
    (keymap.bindingsForInput input contextStack).2 = true ↔
      ∃ r, keymap.Chord input contextStack r ∧ ¬ keymap.StruckOut input contextStack r := by
  have hscan : ((keymap.competing input contextStack).foldl Scan.pass Scan.start).bindings = [] :=
    map_eq_nil_iff.mp hnone
  have hfirst := (@reads_competing A _ _ keymap input contextStack).first
  rw [hscan] at hfirst
  have hflag : (keymap.bindingsForInput input contextStack).2 =
      decide ((pendingBindings input contextStack keymap.reversed).reverse.foldl
        (pendingPass none) ∅).Nonempty := by
    rw [← show _ = none from hfirst]
    rfl
  have hsorted : (pendingBindings input contextStack keymap.reversed).reverse.Pairwise
      (fun a b => a.1 < b.1) := by
    rw [pairwise_reverse]
    exact keymap.pairwise_reversed.filter _
  rw [hflag, decide_eq_true_iff]
  constructor
  · intro ⟨keystrokes, hmem⟩
    obtain ⟨⟨ix, binding⟩, hentry, hnormal, rfl, hlater⟩ := (mem_pendingPass hsorted).mp hmem
    obtain ⟨depth, hext⟩ := mem_pendingBindings.mp (mem_reverse.mp hentry)
    refine ⟨⟨depth, ix, binding⟩, ⟨hext, hnormal⟩, ?_⟩
    intro ⟨d, hd, hlt, hdis, heq⟩
    exact hlater (d.index, d.binding)
      (mem_reverse.mpr (mem_pendingBindings.mpr ⟨d.depth, hd⟩)) hlt hdis heq
  · intro ⟨r, hchord, hnot⟩
    refine ⟨r.binding.keystrokes, (mem_pendingPass hsorted).mpr ?_⟩
    refine ⟨(r.index, r.binding), mem_reverse.mpr (mem_pendingBindings.mpr
      ⟨r.depth, hchord.toExtends⟩), hchord.normal, rfl, ?_⟩
    intro ⟨ix, d⟩ hd hlt hdis heq
    obtain ⟨depth, hext⟩ := mem_pendingBindings.mp (mem_reverse.mp hd)
    exact hnot ⟨⟨depth, ix, d⟩, hext, hlt, hdis, heq⟩

theorem possibleNext_ne_nil_iff :
    keymap.possibleNextBindingsForInput input contextStack ≠ [] ↔
      ∃ r, keymap.Chord input contextStack r ∧
        ¬ keymap.SilencedOn (fullInput input r.binding) contextStack r := by
  have hdispatched : ∀ r, keymap.Chord input contextStack r →
      ((r.index, r.binding) ∈ (resolveBindingsForInput (fullInput input r.binding) contextStack
        keymap.reversed).1 ↔ ¬ keymap.SilencedOn (fullInput input r.binding) contextStack r) := by
    intro r hchord
    rw [mem_resolve]
    constructor
    · intro ⟨depth, hcompletes, hsurvives⟩
      have hdepth : depth = r.depth :=
        Option.some.inj (hcompletes.enabled.symm.trans hchord.enabled)
      rw [hdepth] at hsurvives
      exact hsurvives.2
    · intro hnot
      exact ⟨r.depth, hchord.completes, hchord.normal, hnot⟩
  rw [possibleNextBindingsForInput, Ne, map_eq_nil_iff]
  constructor
  · intro hne
    obtain ⟨r, hr⟩ := exists_mem_of_ne_nil _ hne
    obtain ⟨hchord, hmem⟩ := mem_possibleNextCandidates.mp hr
    exact ⟨r, hchord, (hdispatched r hchord).mp hmem⟩
  · intro ⟨r, hchord, hnot⟩
    exact ne_nil_of_mem
      (mem_possibleNextCandidates.mpr ⟨hchord, (hdispatched r hchord).mpr hnot⟩)

/-- A longer input runs some binding when a chord is not silenced on it. -/
theorem longer_dispatches_iff :
    (∃ rest, rest ≠ [] ∧ (keymap.bindingsForInput (input ++ rest) contextStack).1 ≠ []) ↔
      ∃ r, keymap.Chord input contextStack r ∧
        ¬ ∀ rest, r.binding.matchKeystrokes (input ++ rest) = some false →
          keymap.SilencedOn (input ++ rest) contextStack r := by
  constructor
  · intro ⟨rest, hrest, hne⟩
    rw [bindingsForInput, Ne, map_eq_nil_iff] at hne
    obtain ⟨⟨ix, binding⟩, hmem⟩ := exists_mem_of_ne_nil _ hne
    obtain ⟨depth, hcompletes, hsurvives⟩ := mem_resolve.mp hmem
    obtain ⟨hbegins, hlength⟩ := KeyBinding.matchKeystrokes_complete.mp hcompletes.complete
    have hpos := length_pos_iff.mpr hrest
    rw [length_append] at hlength
    dsimp only at hlength
    have hpending : binding.matchKeystrokes input = some true :=
      KeyBinding.matchKeystrokes_pending.mpr ⟨hbegins.of_append, by omega⟩
    refine ⟨⟨depth, ix, binding⟩,
      ⟨⟨hcompletes.stored, hcompletes.enabled, hpending⟩, hsurvives.1⟩, ?_⟩
    intro hall
    exact hsurvives.2 (hall rest hcompletes.complete)
  · intro ⟨r, hchord, hnot⟩
    obtain ⟨rest, hrest⟩ := not_forall.mp hnot
    obtain ⟨hcomplete, hnot⟩ := Classical.not_imp.mp hrest
    refine ⟨rest, ?_, ?_⟩
    · intro hnil
      rw [hnil, append_nil, hchord.pending] at hcomplete
      cases hcomplete
    · rw [bindingsForInput, Ne, map_eq_nil_iff]
      apply ne_nil_of_mem (a := (r.index, r.binding))
      exact mem_resolve.mpr
        ⟨r.depth, ⟨hchord.stored, hchord.enabled, hcomplete⟩, hchord.normal, hnot⟩

/-- **When the pending flag is right.**  The flag asks whether every chord is struck
    out, dispatch whether every chord is silenced when it is typed to its end. -/
theorem pending_agrees_iff (keymap : Keymap A) (input : List Keystroke)
    (contextStack : List KeyContext) (hnone : (keymap.bindingsForInput input contextStack).1 = []) :
    (((keymap.bindingsForInput input contextStack).2 = true ↔
        keymap.possibleNextBindingsForInput input contextStack ≠ []) ∧
      ((keymap.bindingsForInput input contextStack).2 = true ↔
        ∃ rest, rest ≠ [] ∧ (keymap.bindingsForInput (input ++ rest) contextStack).1 ≠ [])) ↔
    (((∀ r, keymap.Chord input contextStack r → keymap.StruckOut input contextStack r) ↔
        ∀ r, keymap.Chord input contextStack r →
          keymap.SilencedOn (fullInput input r.binding) contextStack r) ∧
      ((∀ r, keymap.Chord input contextStack r → keymap.StruckOut input contextStack r) ↔
        ∀ r, keymap.Chord input contextStack r →
          ∀ rest, r.binding.matchKeystrokes (input ++ rest) = some false →
            keymap.SilencedOn (input ++ rest) contextStack r)) := by
  have hexists : ∀ P Q : Ranked A → Prop, (∃ r, P r ∧ ¬ Q r) ↔ ¬ ∀ r, P r → Q r := by
    intro P Q
    rw [not_forall]
    exact exists_congr (fun r => Classical.not_imp.symm)
  rw [pending_iff hnone, possibleNext_ne_nil_iff, longer_dispatches_iff, hexists, hexists, hexists,
    not_iff_not, not_iff_not]

end

/-- A keymap with the chord `a b`. -/
def oneChord : Keymap UnitAction :=
  new [KeyBinding.plain ['a', 'b'] (.other ⟨0, ['x']⟩) none]

/-- With one chord the flag is right, so the chord is struck out if it is silenced. -/
theorem pending_agrees_oneChord :
    letI := Target.unix
    (∀ r, oneChord.Chord [Keystroke.plain 'a'] [] r →
        oneChord.StruckOut [Keystroke.plain 'a'] [] r) ↔
      ∀ r, oneChord.Chord [Keystroke.plain 'a'] [] r →
        oneChord.SilencedOn (fullInput [Keystroke.plain 'a'] r.binding) [] r := by
  let _ := Target.unix
  have h := pending_agrees_iff oneChord [Keystroke.plain 'a'] [] (by decide)
  apply (h.mp ⟨by decide, ?_⟩).1
  constructor
  · intro _
    exact ⟨[Keystroke.plain 'b'], by decide, by decide⟩
  · intro _
    decide

/-- `a` begins the chord `a b`, and an `Unbind` of another action has the same
    keystrokes: the flag is off, and `a b` runs the chord. -/
theorem pending_drops_chord :
    ¬ ∀ (_ : Target) (keymap : Keymap UnitAction) (input : List Keystroke)
      (contextStack : List KeyContext),
      (keymap.bindingsForInput input contextStack).1 = [] →
        ((keymap.bindingsForInput input contextStack).2 = true ↔
          keymap.possibleNextBindingsForInput input contextStack ≠ []) := by
  intro h
  have hflag := h Target.unix (new [KeyBinding.plain ['a', 'b'] (.other ⟨0, ['x']⟩) none,
    KeyBinding.plain ['a', 'b'] (.unbind ['y']) none]) [Keystroke.plain 'a'] [] (by decide)
  exact absurd (hflag.mpr (by decide)) (by decide)

end Keymap

end Gpui
