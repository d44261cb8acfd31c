import Gpui.Window.DeferredDraws
import Gpui.Lib.Exec

/-! # Hit tests and the painting of deferred draws

    Prepaint orders the deferred draws by their round, then by priority; paint orders them
    by priority alone.  The two agree on the draws that insert hitboxes exactly when no
    draw of a later round has a lower priority than one of an earlier round. -/

open Exec

namespace Gpui

open List

open StableSort

namespace DeferredFrame

variable {U : Type}

/-! ### The two orders -/

/-- The draws that are prepainted in a round, counted from some draws on. -/
def level : List (DeferredDraw U) → Nat → List (DeferredDraw U)
  | draws, 0     => draws
  | draws, n + 1 => level (draws.flatMap DeferredDraw.deferred) n

/-- No draw of a later round has a lower priority than one of an earlier round, as far as
    they insert hitboxes. -/
def Rising (draws : List (DeferredDraw U)) : Prop :=
  ∀ i j, i < j → ∀ a ∈ level draws i, ∀ b ∈ level draws j,
    a.hitboxes ≠ [] → b.hitboxes ≠ [] → a.priority ≤ b.priority

/-- If a draw is painted before another, its hitboxes precede those of the other. -/
def InOrder (frame : DeferredFrame U) : Prop :=
  ∀ a b, Before frame.deferredDrawTraversalOrder a b →
    frame.hitboxes.Pairwise (fun p q => ¬ (p.insertedBy = some b ∧ q.insertedBy = some a))

/-! ### One round -/

/-- The hitboxes a draw inserts. -/
def boxesOf (frame : DeferredFrame U) (ix : Nat) : List (Hitbox U) :=
  ((frame.deferredDraws[ix]?.map DeferredDraw.hitboxes).getD []).map
    (fun hitbox => { hitbox with insertedBy := some ix })

/-- The draws a draw defers. -/
def deferredOf (frame : DeferredFrame U) (ix : Nat) : List (DeferredDraw U) :=
  (frame.deferredDraws[ix]?.map DeferredDraw.deferred).getD []

theorem getElem?_eq_of_starts {α : Type} {l l' : List α} {i : Nat} (h : l <+: l')
    (hi : i < l.length) : l'[i]? = l[i]? := by
  obtain ⟨rest, rfl⟩ := h
  rw [getElem?_append_left hi]

variable {f g : DeferredFrame U} {ix start : Nat} {order : List Nat}
variable {draws : List (DeferredDraw U)} {depth : Nat → Nat} {hitbox : Hitbox U}

/-- The draws of a frame stay where they are when others are added. -/
theorem same_of_starts
    (h : f.deferredDraws <+: g.deferredDraws) (hix : ix < f.deferredDraws.length) :
    g.boxesOf ix = f.boxesOf ix ∧ g.deferredOf ix = f.deferredOf ix ∧
      g.priorityOf ix = f.priorityOf ix := by
  unfold boxesOf deferredOf priorityOf
  rw [getElem?_eq_of_starts h hix]
  exact ⟨rfl, rfl, rfl⟩

theorem prepaintDraw_eq_ok (h : f.prepaintDraw ix = .ok g) :
    g.hitboxes = f.hitboxes ++ f.boxesOf ix ∧
      g.deferredDraws = f.deferredDraws ++ f.deferredOf ix := by
  unfold prepaintDraw at h
  unfold boxesOf deferredOf
  split at h
  · cases h
  · rename_i draw hdraw
    cases h
    rw [hdraw]
    exact ⟨rfl, rfl⟩

theorem foldlM_prepaintDraw
    (horder : ∀ ix ∈ order, ix < f.deferredDraws.length) (h : order.foldlM prepaintDraw f = .ok g) :
    g.hitboxes = f.hitboxes ++ order.flatMap f.boxesOf ∧
      g.deferredDraws = f.deferredDraws ++ order.flatMap f.deferredOf := by
  -- induction on the draws that are left; those that were added do not matter to them
  induction order generalizing f with
  | nil =>
    cases h
    simp
  | cons ix order ih =>
    obtain ⟨next, hdraw, h⟩ := bind_eq_ok.1 h
    obtain ⟨hhitboxes, hdraws⟩ := prepaintDraw_eq_ok hdraw
    have hstarts : f.deferredDraws <+: next.deferredDraws := ⟨_, hdraws.symm⟩
    have hrest : ∀ jx ∈ order, jx < f.deferredDraws.length :=
      fun jx hjx => horder jx (mem_cons_of_mem _ hjx)
    obtain ⟨hboxes, hdeferred⟩ := ih (fun jx hjx => by
      have hlt := hrest jx hjx
      have hle := hstarts.length_le
      omega) h
    have hsameBoxes : order.flatMap next.boxesOf = order.flatMap f.boxesOf :=
      flatMap_congr fun jx hjx => (same_of_starts hstarts (hrest jx hjx)).1
    have hsameDeferred : order.flatMap next.deferredOf = order.flatMap f.deferredOf :=
      flatMap_congr fun jx hjx => (same_of_starts hstarts (hrest jx hjx)).2.1
    refine ⟨?_, ?_⟩
    · rw [hboxes, hhitboxes, hsameBoxes, flatMap_cons, append_assoc]
    · rw [hdeferred, hdraws, hsameDeferred, flatMap_cons, append_assoc]

theorem mem_roundOrder {roundStart : Nat} (hstart : roundStart ≤ f.deferredDraws.length) :
    ix ∈ f.roundOrder roundStart ↔ roundStart ≤ ix ∧ ix < f.deferredDraws.length := by
  unfold roundOrder
  rw [mem_sortByKey, mem_range'_1]
  omega

theorem pairwise_roundOrder (f : DeferredFrame U) (roundStart : Nat) :
    (f.roundOrder roundStart).Pairwise (ByKey f.priorityOf (· < ·)) := by
  exact pairwise_sortByKey pairwise_lt_range'

/-! ### All rounds -/

/-- What the rounds from one on did: `order` is the order of all their draws, and `depth`
    the round of each. -/
structure Rounds (f g : DeferredFrame U) (start : Nat) (draws : List (DeferredDraw U))
    (order : List Nat) (depth : Nat → Nat) : Prop where
  deferredDraws : f.deferredDraws <+: g.deferredDraws
  hitboxes : g.hitboxes = f.hitboxes ++ order.flatMap g.boxesOf
  mem : ∀ ix, ix ∈ order ↔ start ≤ ix ∧ ix < g.deferredDraws.length
  ordered : order.Pairwise (ByKey depth (ByKey g.priorityOf (· < ·)))
  mono : ∀ a b, start ≤ a → a ≤ b → depth a ≤ depth b
  level : ∀ ix draw, start ≤ ix → g.deferredDraws[ix]? = some draw →
    draw ∈ level draws (depth ix)
  reached : ∀ n, ∀ draw ∈ DeferredFrame.level draws n,
    ∃ ix, start ≤ ix ∧ g.deferredDraws[ix]? = some draw ∧ depth ix = n

theorem level_eq_nil (n : Nat) : level ([] : List (DeferredDraw U)) n = [] := by
  induction n with
  | zero => rfl
  | succ n ih =>
    exact ih

theorem level_congr {draws' : List (DeferredDraw U)} (h : ∀ draw, draw ∈ draws ↔ draw ∈ draws')
    (n : Nat) : ∀ draw, draw ∈ level draws n ↔ draw ∈ level draws' n := by
  induction n generalizing draws draws' with
  | zero => exact h
  | succ n ih =>
    apply ih
    intro draw
    rw [mem_flatMap, mem_flatMap]
    constructor
    · rintro ⟨parent, hparent, hdraw⟩
      exact ⟨parent, (h parent).1 hparent, hdraw⟩
    · rintro ⟨parent, hparent, hdraw⟩
      exact ⟨parent, (h parent).2 hparent, hdraw⟩

/-- The draws that a round adds are those that its draws defer. -/
theorem mem_deferred_round
    (hstart : start ≤ f.deferredDraws.length) (draw : DeferredDraw U) :
    draw ∈ (f.roundOrder start).flatMap f.deferredOf ↔
      draw ∈ (f.deferredDraws.drop start).flatMap DeferredDraw.deferred := by
  rw [mem_flatMap, mem_flatMap]
  constructor
  · rintro ⟨ix, hix, hdraw⟩
    obtain ⟨hle, hlt⟩ := (mem_roundOrder hstart).1 hix
    refine ⟨f.deferredDraws[ix], ?_, ?_⟩
    · rw [mem_drop_iff_getElem]
      exact ⟨ix - start, by omega, by simp [Nat.add_sub_cancel' hle]⟩
    · unfold deferredOf at hdraw
      rw [getElem?_eq_getElem hlt] at hdraw
      exact hdraw
  · rintro ⟨parent, hparent, hdraw⟩
    obtain ⟨i, hi, rfl⟩ := mem_drop_iff_getElem.1 hparent
    refine ⟨start + i, (mem_roundOrder hstart).2 ⟨by omega, by omega⟩, ?_⟩
    unfold deferredOf
    rw [getElem?_eq_getElem (by omega)]
    exact hdraw

/-- The rounds counted from one round earlier. -/
def laterDepth (added : Nat) (depth : Nat → Nat) (ix : Nat) : Nat :=
  if ix < added then 0 else depth ix + 1

theorem laterDepth_lt {added : Nat} (depth : Nat → Nat) (h : ix < added) :
    laterDepth added depth ix = 0 := by
  exact if_pos h

theorem laterDepth_ge {added : Nat} (depth : Nat → Nat) (h : added ≤ ix) :
    laterDepth added depth ix = depth ix + 1 := by
  exact if_neg (by omega)

/-- A round, and the rounds after it. -/
theorem Rounds.cons {next : DeferredFrame U} (hstart : start ≤ f.deferredDraws.length)
    (hboxes : next.hitboxes = f.hitboxes ++ (f.roundOrder start).flatMap f.boxesOf)
    (hdraws : next.deferredDraws = f.deferredDraws ++ (f.roundOrder start).flatMap f.deferredOf)
    (h : Rounds next g f.deferredDraws.length (next.deferredDraws.drop f.deferredDraws.length)
      order depth) :
    Rounds f g start (f.deferredDraws.drop start) (f.roundOrder start ++ order)
      (laterDepth f.deferredDraws.length depth) := by
  have hstarts : f.deferredDraws <+: g.deferredDraws :=
    List.IsPrefix.trans ⟨_, hdraws.symm⟩ h.deferredDraws
  have hround : ∀ ix ∈ f.roundOrder start, ix < f.deferredDraws.length :=
    fun ix hix => ((mem_roundOrder hstart).1 hix).2
  have hlater : ∀ ix ∈ order, f.deferredDraws.length ≤ ix :=
    fun ix hix => ((h.mem ix).1 hix).1
  have hadded : next.deferredDraws.drop f.deferredDraws.length =
      (f.roundOrder start).flatMap f.deferredOf := by
    rw [hdraws, drop_left]
  refine ⟨hstarts, ?_, ?_, ?_, ?_, ?_, ?_⟩
  · have hsame : (f.roundOrder start).flatMap f.boxesOf = (f.roundOrder start).flatMap g.boxesOf :=
      flatMap_congr fun ix hix => ((same_of_starts hstarts (hround ix hix)).1).symm
    rw [h.hitboxes, hboxes, flatMap_append, hsame, append_assoc]
  · intro ix
    have hle := hstarts.length_le
    rw [mem_append, mem_roundOrder hstart, h.mem]
    omega
  · rw [pairwise_append]
    refine ⟨?_, ?_, ?_⟩
    · apply (f.pairwise_roundOrder start).imp_of_mem
      intro a b ha hb hab
      right
      rw [laterDepth_lt depth (hround a ha), laterDepth_lt depth (hround b hb)]
      refine ⟨rfl, ?_⟩
      unfold ByKey at hab ⊢
      rw [(same_of_starts hstarts (hround a ha)).2.2, (same_of_starts hstarts (hround b hb)).2.2]
      exact hab
    · apply h.ordered.imp_of_mem
      intro a b ha hb hab
      obtain hlt | ⟨heq, hab⟩ := hab
      · left
        rw [laterDepth_ge depth (hlater a ha), laterDepth_ge depth (hlater b hb)]
        omega
      · right
        rw [laterDepth_ge depth (hlater a ha), laterDepth_ge depth (hlater b hb), heq]
        exact ⟨rfl, hab⟩
    · intro a ha b hb
      left
      rw [laterDepth_lt depth (hround a ha), laterDepth_ge depth (hlater b hb)]
      omega
  · intro a b _ hab
    by_cases ha : a < f.deferredDraws.length
    · rw [laterDepth_lt depth ha]
      exact Nat.zero_le _
    · have hmono := h.mono a b (by omega) hab
      rw [laterDepth_ge depth (by omega), laterDepth_ge depth (by omega)]
      omega
  · intro ix draw hix hdraw
    by_cases hlt : ix < f.deferredDraws.length
    · rw [laterDepth_lt depth hlt]
      show draw ∈ f.deferredDraws.drop start
      rw [getElem?_eq_of_starts hstarts hlt] at hdraw
      rw [mem_iff_getElem?]
      refine ⟨ix - start, ?_⟩
      rw [getElem?_drop, Nat.add_sub_cancel' hix, hdraw]
    · have hlevel := h.level ix draw (by omega) hdraw
      rw [hadded] at hlevel
      rw [laterDepth_ge depth (by omega)]
      exact (level_congr (mem_deferred_round hstart) _ draw).1 hlevel
  · intro n draw hdraw
    cases n with
    | zero =>
      have hmem : draw ∈ f.deferredDraws.drop start := hdraw
      obtain ⟨i, hi, rfl⟩ := mem_drop_iff_getElem.1 hmem
      refine ⟨start + i, by omega, ?_, laterDepth_lt depth (by omega)⟩
      rw [getElem?_eq_of_starts hstarts (by omega), getElem?_eq_getElem (by omega)]
    | succ n =>
      have hlevel := (level_congr (mem_deferred_round hstart) n draw).2 hdraw
      rw [← hadded] at hlevel
      obtain ⟨ix, hix, hget, hdepth⟩ := h.reached n draw hlevel
      refine ⟨ix, by omega, hget, ?_⟩
      rw [laterDepth_ge depth hix, hdepth]

/-- After the last round there is nothing to do. -/
theorem Rounds.nil (f : DeferredFrame U) :
    Rounds f f f.deferredDraws.length (f.deferredDraws.drop f.deferredDraws.length) []
      (fun _ => 0) where
  deferredDraws := prefix_refl _
  hitboxes := by simp
  mem := by
    intro ix
    simp
  ordered := List.Pairwise.nil
  mono := fun _ _ _ _ => Nat.le_refl _
  level := by
    intro ix draw hix hdraw
    rw [getElem?_eq_none hix] at hdraw
    cases hdraw
  reached := by
    intro n draw hdraw
    rw [drop_length, level_eq_nil] at hdraw
    cases hdraw

theorem prepaintRounds_spec {n : Nat}
    (hstart : start ≤ f.deferredDraws.length) (h : prepaintRounds n f start = .ok g) :
    ∃ order depth, Rounds f g start (f.deferredDraws.drop start) order depth := by
  -- induction on the depth that is left
  induction n generalizing f start with
  | zero =>
    unfold prepaintRounds at h
    split at h
    · rename_i heq
      cases h
      rw [heq]
      exact ⟨[], _, .nil _⟩
    · cases h
  | succ n ih =>
    unfold prepaintRounds at h
    split at h
    · rename_i heq
      cases h
      rw [heq]
      exact ⟨[], _, .nil _⟩
    · dsimp only at h
      obtain ⟨next, hround, h⟩ := bind_eq_ok.1 h
      obtain ⟨hboxes, hdraws⟩ :=
        foldlM_prepaintDraw (fun ix hix => ((mem_roundOrder hstart).1 hix).2) hround
      have hle : f.deferredDraws.length ≤ next.deferredDraws.length := by
        rw [hdraws, length_append]
        omega
      obtain ⟨order, depth, hrounds⟩ := ih hle h
      exact ⟨_, _, hrounds.cons hstart hboxes hdraws⟩

/-! ### The two orders agree -/

theorem insertedBy_of_mem_boxesOf
    (h : hitbox ∈ g.boxesOf ix) : hitbox.insertedBy = some ix := by
  obtain ⟨_, _, rfl⟩ := mem_map.1 h
  rfl

/-- Of a draw that inserts hitboxes, one is in the frame. -/
theorem exists_boxesOf {draw : DeferredDraw U}
    (hdraw : g.deferredDraws[ix]? = some draw) (h : draw.hitboxes ≠ []) :
    ∃ hitbox, hitbox ∈ g.boxesOf ix := by
  obtain ⟨hitbox, hmem⟩ := exists_mem_of_ne_nil _ h
  refine ⟨{ hitbox with insertedBy := some ix }, ?_⟩
  unfold boxesOf
  rw [hdraw]
  exact mem_map_of_mem hmem

theorem draw_of_mem_boxesOf
    (h : hitbox ∈ g.boxesOf ix) :
    ∃ draw, g.deferredDraws[ix]? = some draw ∧ draw.hitboxes ≠ [] := by
  unfold boxesOf at h
  cases hdraw : g.deferredDraws[ix]? with
  | none => simp [hdraw] at h
  | some draw =>
    refine ⟨draw, rfl, ?_⟩
    rintro hnil
    simp [hdraw, hnil] at h

theorem priorityOf_eq {draw : DeferredDraw U}
    (hdraw : g.deferredDraws[ix]? = some draw) : g.priorityOf ix = draw.priority := by
  unfold priorityOf
  rw [hdraw]
  rfl

/-- What is painted before what. -/
theorem before_traversal_iff {a b : Nat}
    (ha : a < g.deferredDraws.length) (hb : b < g.deferredDraws.length) :
    Before g.deferredDrawTraversalOrder a b ↔ ByKey g.priorityOf (· < ·) a b := by
  apply before_iff (pairwise_sortByKey pairwise_lt_range)
  · intro a b
    exact ByKey.asymm (fun a b hab hba => by omega) a b
  · simpa using ha
  · simpa using hb

theorem lt_of_before_traversal {a b : Nat} (h : Before g.deferredDrawTraversalOrder a b) :
    a < g.deferredDraws.length ∧ b < g.deferredDraws.length := by
  have hmem := h.mem
  unfold deferredDrawTraversalOrder at hmem
  simpa using hmem

section

variable (h : Rounds f g 0 draws order depth)
  (hroot : ∀ hitbox ∈ f.hitboxes, hitbox.insertedBy = none)
include h hroot

/-- A hitbox that a draw inserted is one of the hitboxes of that draw. -/
theorem Rounds.mem_hitboxes (hmem : hitbox ∈ g.hitboxes) (hix : hitbox.insertedBy = some ix) :
    ix ∈ order ∧ hitbox ∈ g.boxesOf ix := by
  rw [h.hitboxes, mem_append, mem_flatMap] at hmem
  obtain hmem | ⟨jx, hjx, hmem⟩ := hmem
  · rw [hroot hitbox hmem] at hix
    cases hix
  · have hsame := insertedBy_of_mem_boxesOf hmem
    rw [hix, Option.some.injEq] at hsame
    subst hsame
    exact ⟨hjx, hmem⟩

/-- The hitboxes are in the order in which their draws were prepainted. -/
theorem Rounds.pairwise_hitboxes :
    g.hitboxes.Pairwise (fun p q => ∀ a b, p.insertedBy = some a → q.insertedBy = some b →
      a = b ∨ ByKey depth (ByKey g.priorityOf (· < ·)) a b) := by
  rw [h.hitboxes, pairwise_append, pairwise_flatMap]
  refine ⟨?_, ⟨?_, ?_⟩, ?_⟩
  · apply pairwise_of_forall_mem_list
    intro p hp q _ a b ha
    rw [hroot p hp] at ha
    cases ha
  · intro ix _
    apply pairwise_of_forall_mem_list
    intro p hp q hq a b ha hb
    rw [insertedBy_of_mem_boxesOf hp, Option.some.injEq] at ha
    rw [insertedBy_of_mem_boxesOf hq, Option.some.injEq] at hb
    exact .inl (ha.symm.trans hb)
  · apply h.ordered.imp
    intro x y hxy p hp q hq a b ha hb
    rw [insertedBy_of_mem_boxesOf hp, Option.some.injEq] at ha
    rw [insertedBy_of_mem_boxesOf hq, Option.some.injEq] at hb
    subst ha
    subst hb
    exact .inr hxy
  · intro p hp q _ a b ha
    rw [hroot p hp] at ha
    cases ha

/-- While the priorities rise with the rounds, a draw that is painted first was prepainted
    first. -/
theorem Rounds.inOrder (hrising : Rising draws) : g.InOrder := by
  intro a b hbefore
  obtain ⟨halt, hblt⟩ := lt_of_before_traversal hbefore
  have hpainted := (before_traversal_iff halt hblt).1 hbefore
  apply (h.pairwise_hitboxes hroot).imp_of_mem
  rintro p q hp hq hpq ⟨hpb, hqa⟩
  obtain ⟨drawB, hdrawB, hboxesB⟩ := draw_of_mem_boxesOf (h.mem_hitboxes hroot hp hpb).2
  obtain ⟨drawA, hdrawA, hboxesA⟩ := draw_of_mem_boxesOf (h.mem_hitboxes hroot hq hqa).2
  dsimp only [ByKey] at hpainted
  obtain heq | hlt | ⟨heq, hprepainted⟩ := hpq b a hpb hqa
  · rw [heq] at hpainted
    omega
  · -- `b` is of an earlier round, so its index and its priority are lower too
    have hrise := hrising _ _ hlt drawB (h.level b drawB (Nat.zero_le _) hdrawB) drawA
      (h.level a drawA (Nat.zero_le _) hdrawA) hboxesB hboxesA
    rw [← priorityOf_eq hdrawA, ← priorityOf_eq hdrawB] at hrise
    have hindex : b < a := by
      by_contra hnot
      have hmono := h.mono a b (Nat.zero_le _) (by omega)
      omega
    omega
  · dsimp only [ByKey] at hprepainted
    omega

end

/-- A draw of a later round with a lower priority is painted first and prepainted last. -/
theorem Rounds.rising (h : Rounds f g 0 draws order depth) (hinOrder : g.InOrder) : Rising draws := by
  intro i j hij drawA hA drawB hB hboxesA hboxesB
  by_contra hlower
  obtain ⟨a, _, hdrawA, hdepthA⟩ := h.reached i drawA hA
  obtain ⟨b, _, hdrawB, hdepthB⟩ := h.reached j drawB hB
  have halt : a < g.deferredDraws.length := (List.getElem?_eq_some_iff.1 hdrawA).1
  have hblt : b < g.deferredDraws.length := (List.getElem?_eq_some_iff.1 hdrawB).1
  have hpainted : Before g.deferredDrawTraversalOrder b a := by
    rw [before_traversal_iff hblt halt]
    left
    rw [priorityOf_eq hdrawA, priorityOf_eq hdrawB]
    omega
  have hprepainted : Before order a b := by
    rw [before_iff h.ordered]
    · left
      omega
    · exact ByKey.asymm (ByKey.asymm (fun a b hab hba => by omega))
    · exact (h.mem a).2 ⟨Nat.zero_le _, halt⟩
    · exact (h.mem b).2 ⟨Nat.zero_le _, hblt⟩
  -- the hitboxes of `a` are all before those of `b`
  have hpairwise := hinOrder b a hpainted
  rw [h.hitboxes, pairwise_append, pairwise_flatMap] at hpairwise
  obtain ⟨p, hp⟩ := exists_boxesOf hdrawA hboxesA
  obtain ⟨q, hq⟩ := exists_boxesOf hdrawB hboxesB
  exact hpairwise.2.1.2.forall_sublist hprepainted p hp q hq
    ⟨insertedBy_of_mem_boxesOf hp, insertedBy_of_mem_boxesOf hq⟩

/-- The deferred draws are hit-tested in the order in which they are painted if and only
    if no draw of a later round has a lower priority than one of an earlier round, of
    those that insert hitboxes. -/
theorem hit_order {hitboxes : List (Hitbox U)} {draws : List (DeferredDraw U)}
    {frame : DeferredFrame U} (h : prepaintDeferredDraws (ofRoot hitboxes draws) = .ok frame) :
    frame.InOrder ↔ Rising draws := by
  obtain ⟨order, depth, hrounds⟩ := prepaintRounds_spec (Nat.zero_le _) h
  rw [drop_zero] at hrounds
  have hroot : ∀ hitbox ∈ (ofRoot hitboxes draws).hitboxes, hitbox.insertedBy = none := by
    intro hitbox hmem
    obtain ⟨_, _, rfl⟩ := mem_map.1 hmem
    rfl
  exact ⟨fun hinOrder => hrounds.rising hinOrder, fun hrising => hrounds.inOrder hroot hrising⟩

/-- A hitbox at the origin. -/
def originHitbox : Hitbox Int := ⟨0, ⟨⟨0, 0⟩, ⟨1, 1⟩⟩, ⟨⟨0, 0⟩, ⟨1, 1⟩⟩, .normal, none⟩

/-- A draw of priority one in which one of priority two is deferred. -/
theorem hit_order_rising :
    ∃ frame, prepaintDeferredDraws
        (ofRoot [originHitbox] [.mk 1 [originHitbox] [.mk 2 [originHitbox] []]]) = .ok frame ∧
      frame.hitboxes.map Hitbox.insertedBy = [none, some 0, some 1] ∧
      (frame.InOrder ↔ Rising [.mk 1 [originHitbox] [.mk 2 [originHitbox] []]]) := by
  have hprepaint : ∃ frame, prepaintDeferredDraws
        (ofRoot [originHitbox] [.mk 1 [originHitbox] [.mk 2 [originHitbox] []]]) = .ok frame ∧
      frame.hitboxes.map Hitbox.insertedBy = [none, some 0, some 1] := ⟨_, rfl, rfl⟩
  obtain ⟨frame, hframe, hboxes⟩ := hprepaint
  exact ⟨frame, hframe, hboxes, hit_order hframe⟩

/-- In a draw of priority one, one of priority zero is deferred: it is painted below and
    hit first. -/
theorem hit_order_differs :
    ¬ ∀ (hitboxes : List (Hitbox Int)) (draws : List (DeferredDraw Int))
      (frame : DeferredFrame Int),
      prepaintDeferredDraws (ofRoot hitboxes draws) = .ok frame → frame.InOrder := by
  intro h
  have hprepaint : ∃ frame, prepaintDeferredDraws
        (ofRoot [] [.mk 1 [originHitbox] [.mk 0 [originHitbox] []]]) = .ok frame ∧
      frame.deferredDrawTraversalOrder = [1, 0] ∧
      frame.hitboxes = [{ originHitbox with insertedBy := some 0 },
        { originHitbox with insertedBy := some 1 }] := ⟨_, rfl, by decide, rfl⟩
  obtain ⟨frame, hframe, horder, hboxes⟩ := hprepaint
  have hpairwise := h _ _ frame hframe 1 0 (horder ▸ List.Sublist.refl _)
  rw [hboxes] at hpairwise
  simp at hpairwise

end DeferredFrame

end Gpui
