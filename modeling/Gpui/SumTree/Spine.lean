import Gpui.SumTree.BuildSpec

/-! # SumTree: how fast a tree grows

    A tree grows by a level when its root is split, and a node is split when it
    has gained six children since it was split off.  So appending counts on the
    right spine as on a counter in base six: the weight of the spine grows by
    what is appended, and a new level takes six times the weight of the last. -/

set_option linter.unusedSectionVars false

namespace Gpui

open List

open Exec (Returns Ensures bind_eq_ok ok_bind)
open Chunks (chunks)

variable {T S : Type}

namespace SumTree

/-! ## The weight of the right spine -/

mutual
/-- Each node of the right spine counts its children but one, six times as much as
    those of the node below. -/
def spine : SumTree T S → Nat
  | .internal h _ _ cts => (cts.length - 1) * treeBase ^ h + spineLast cts
  | .leaf _ its _       => its.length - 1

/-- The spine of the last tree of a row. -/
def spineLast : List (SumTree T S) → Nat
  | [] => 0
  | c :: cs =>
      match cs with
      | []     => spine c
      | _ :: _ => spineLast cs
end

@[simp] theorem spine_internal (h : Nat) (s : S) (css : List S) (cts : List (SumTree T S)) :
    (internal h s css cts).spine = (cts.length - 1) * treeBase ^ h + spineLast cts := by
  rw [spine]

@[simp] theorem spine_leaf (s : S) (its : List T) (iss : List S) :
    (leaf s its iss).spine = its.length - 1 := by rw [spine]

@[simp] theorem spineLast_concat (cs : List (SumTree T S)) (c : SumTree T S) :
    spineLast (cs ++ [c]) = c.spine := by
  induction cs with
  | nil => simp [spineLast]
  | cons b cs ih =>
    cases cs with
    | nil => simp [spineLast]
    | cons d cs =>
      exact ih

theorem spineLast_append (cs : List (SumTree T S)) {ds : List (SumTree T S)} (hne : ds ≠ []) :
    spineLast (cs ++ ds) = spineLast ds := by
  obtain ⟨es, e, rfl⟩ := eq_nil_or_concat' ds |>.resolve_left hne
  rw [← append_assoc, spineLast_concat, spineLast_concat]

theorem spineLast_drop {n : Nat} {cs : List (SumTree T S)} (hlt : n < cs.length) :
    spineLast (cs.drop n) = spineLast cs := by
  have hne : cs.drop n ≠ [] := ne_nil_of_length_pos (by rw [length_drop]; omega)
  conv_rhs => rw [← take_append_drop n cs]
  exact (spineLast_append _ hne).symm

section Weight

variable [Summary S] [Item T S]

/-- A spine of full nodes bounds the weight. -/
theorem Wf.spine_le {h : Nat} {t : SumTree T S} (wf : Wf h t) :
    5 * t.spine + 11 ≤ 11 * treeBase ^ (h + 1) := by
  induction wf with
  | leaf ne le =>
    simp only [spine_leaf, treeBase, nodeCapacity] at le ⊢
    omega
  | @internal h cts ne le children ih =>
    obtain ⟨cs, c, rfl⟩ := eq_nil_or_concat' cts |>.resolve_left ne
    have hc := ih c (by simp)
    simp only [spine_internal, spineLast_concat, length_append, length_singleton,
      Nat.add_sub_cancel, treeBase, nodeCapacity] at le hc ⊢
    have hmul : cs.length * 6 ^ (h + 1) ≤ 11 * 6 ^ (h + 1) := Nat.mul_le_mul_right _ (by omega)
    omega

/-- A root that is no bare link makes the weight at least a level. -/
theorem Wf.le_spine {h : Nat} {t : SumTree T S} (wf : Wf h t) (hroot : 2 ≤ t.rootSize) :
    treeBase ^ h ≤ t.spine := by
  cases wf with
  | leaf ne le =>
    simp only [rootSize] at hroot
    simp only [spine_leaf, Nat.pow_zero]
    omega
  | @internal h cts ne le children =>
    simp only [rootSize_internal] at hroot
    rw [spine_internal]
    have := Nat.mul_le_mul_right (treeBase ^ (h + 1)) (show 1 ≤ cts.length - 1 by omega)
    omega

end Weight

/-! ## Pushing on the right -/

section Push

variable [Summary S] {α : Type} {s : S} {r : SumTree T S × Option (SumTree T S)}

theorem collect_eq_ok {xs ys : List α} (h : ArrayVec.collect xs = .ok ys) : ys = xs := by
  unfold ArrayVec.collect ArrayVec.extend at h
  split at h
  · exact (Except.ok.inj h).symm
  · cases h

theorem extend_eq_ok {xs ys zs : List α} (h : ArrayVec.extend xs ys = .ok zs) : zs = xs ++ ys := by
  unfold ArrayVec.extend at h
  split at h
  · exact (Except.ok.inj h).symm
  · cases h

/-- What a push into a node weighs: a node keeps within `weight`, or hands a sibling up
    whose weight, with the place it takes one level up, does. -/
structure PushWeight (h size weight : Nat) (r : SumTree T S × Option (SumTree T S)) : Prop where
  kept : r.2 = none → r.1.spine ≤ weight ∧ size ≤ r.1.rootSize
  split : ∀ s ∈ r.2, treeBase ^ (h + 1) + s.spine ≤ weight

theorem pushChildren_weight {h : Nat} {css ss : List S} {cts new : List (SumTree T S)}
    {extra : Nat} (hne : cts ≠ [])
    (hextra : new.length * treeBase ^ h + spineLast (cts ++ new) ≤ extra)
    (hr : pushChildren h s css cts ss new = .ok r) :
    PushWeight h cts.length ((cts.length - 1) * treeBase ^ h + extra) r := by
  have hpos : 0 < cts.length := length_pos_iff.mpr hne
  unfold pushChildren at hr
  dsimp only at hr
  split at hr
  · next hlt =>
    rw [midpoint_eq] at hr
    obtain ⟨ls, -, hr⟩ := bind_eq_ok.mp hr
    obtain ⟨rs, -, hr⟩ := bind_eq_ok.mp hr
    obtain ⟨lt, -, hr⟩ := bind_eq_ok.mp hr
    obtain ⟨rt, hrt, hr⟩ := bind_eq_ok.mp hr
    obtain rfl := collect_eq_ok hrt
    obtain rfl := Except.ok.inj hr
    refine ⟨fun h => (by cases h), fun t ht => ?_⟩
    obtain rfl := Option.some.inj ht
    simp only [nodeCapacity, treeBase] at hlt hextra ⊢
    have hlen : (cts ++ new).length = cts.length + new.length := length_append
    rw [spine_internal, spineLast_drop (by omega), length_drop, hlen]
    -- the sibling keeps less than half, which leaves six children for the level above
    have hsplit : 6 + (cts.length + new.length - (cts.length + new.length + 1) / 2 - 1) ≤
        cts.length - 1 + new.length := by omega
    have hmul := Nat.mul_le_mul_right (6 ^ h) hsplit
    simp only [Nat.add_mul] at hmul
    simp only [treeBase]
    omega
  · obtain ⟨css', -, hr⟩ := bind_eq_ok.mp hr
    obtain ⟨cts', hcts, hr⟩ := bind_eq_ok.mp hr
    obtain rfl := extend_eq_ok hcts
    obtain rfl := Except.ok.inj hr
    refine ⟨fun _ => ⟨?_, ?_⟩, fun t ht => (by cases ht)⟩
    · rw [spine_internal, length_append,
        show cts.length + new.length - 1 = cts.length - 1 + new.length by omega, Nat.add_mul]
      omega
    · simp

theorem pushItems_weight {its : List T} {iss : List S} {other : SumTree T S}
    (hother : other.isEmpty = false) (hr : pushItems s its iss other = .ok r) :
    PushWeight 0 its.length (its.length - 1 + (treeBase + other.spine)) r := by
  unfold pushItems at hr
  cases other with
  | internal => cases hr
  | leaf s' new iss' =>
    simp only [nodeItems, ok_bind, spine_leaf] at hr ⊢
    split at hr
    · next hlt =>
      rw [midpoint_eq] at hr
      obtain ⟨li, -, hr⟩ := bind_eq_ok.mp hr
      obtain ⟨ri, hri, hr⟩ := bind_eq_ok.mp hr
      obtain ⟨ls, -, hr⟩ := bind_eq_ok.mp hr
      obtain ⟨rs, -, hr⟩ := bind_eq_ok.mp hr
      obtain rfl := collect_eq_ok hri
      obtain rfl := Except.ok.inj hr
      refine ⟨fun h => (by cases h), fun t ht => ?_⟩
      obtain rfl := Option.some.inj ht
      simp only [nodeCapacity, treeBase] at hlt ⊢
      rw [spine_leaf, length_drop, length_append]
      omega
    · obtain ⟨is, his, hr⟩ := bind_eq_ok.mp hr
      obtain ⟨ss, -, hr⟩ := bind_eq_ok.mp hr
      obtain rfl := extend_eq_ok his
      obtain rfl := Except.ok.inj hr
      refine ⟨fun _ => ⟨?_, ?_⟩, fun t ht => (by cases ht)⟩
      · rw [spine_leaf, length_append]
        simp only [treeBase]
        omega
      · simp [rootSize]

end Push

section Recursion

variable [Summary S] [LawfulSummary S] [Item T S]

/-- What a tree adds to the weight of a tree that it is pushed into. -/
def pushCost (h : Nat) (other : SumTree T S) : Nat :=
  treeBase ^ (h + 1) + other.spine

/-- **A push** adds its cost to the weight of the right spine. -/
theorem pushTreeRecursive_weight {n : Nat} : ∀ {m : Nat} {self other : SumTree T S}
    {r : SumTree T S × Option (SumTree T S)}, Wf n self → Wf m other → m ≤ n →
      pushTreeRecursive self other = .ok r →
      PushWeight n self.rootSize (self.spine + pushCost m other) r := by
  induction n with
  | zero =>
    intro m self other r wf wfo hle hr
    obtain rfl : m = 0 := by omega
    cases wf with
    | leaf _ _ =>
      have := pushItems_weight wfo.isEmpty_eq hr
      simpa [pushCost, rootSize] using this
  | succ h ih =>
    intro m self other r wf wfo hle hr
    cases wf with
    | @internal _ cts hne hlen hw =>
      rw [pushTreeRecursive, wfo.height_eq, checkedSub_of_le hle, ok_bind] at hr
      rw [spine_internal, rootSize_internal, Nat.add_assoc]
      by_cases h0 : h + 1 - m = 0
      · -- the children of `other` come in behind, and its spine is the new one
        obtain rfl : m = h + 1 := by omega
        cases wfo with
        | @internal _ ots hne' _ _ =>
          rw [if_pos h0] at hr
          obtain ⟨ss, -, hr⟩ := bind_eq_ok.mp hr
          rw [show (internal (h + 1) (itemsSum (toListForest ots)) (ots.map summary) ots).childTrees =
            .ok ots from rfl, ok_bind] at hr
          obtain ⟨new, hnew, hr⟩ := bind_eq_ok.mp hr
          rw [collect_eq_ok hnew] at hr
          have hpos : 0 < ots.length := length_pos_iff.mpr hne'
          refine pushChildren_weight hne ?_ hr
          rw [spineLast_append _ hne', pushCost, spine_internal]
          have hsplit : ots.length * treeBase ^ (h + 1) =
              (ots.length - 1) * treeBase ^ (h + 1) + treeBase ^ (h + 1) := by
            rw [← Nat.succ_mul, Nat.succ_eq_add_one, Nat.sub_add_cancel hpos]
          have hpow : treeBase ^ (h + 1) ≤ treeBase ^ (h + 1 + 1) :=
            Nat.pow_le_pow_right (by decide) (Nat.le_succ _)
          omega
      · rw [if_neg h0] at hr
        by_cases h1 : h + 1 - m = 1 ∧ other.isUnderflowing = false
        · -- `other` becomes the last child
          obtain rfl : m = h := by omega
          rw [if_pos h1] at hr
          obtain ⟨ss, -, hr⟩ := bind_eq_ok.mp hr
          rw [ArrayVec.push_nil, ok_bind] at hr
          refine pushChildren_weight hne ?_ hr
          rw [spineLast_concat, length_singleton, Nat.one_mul, pushCost]
          omega
        · rw [if_neg h1] at hr
          obtain ⟨l, c, rfl⟩ := eq_nil_or_concat' cts |>.resolve_left hne
          rw [pushTreeLast_append] at hr
          obtain ⟨⟨cs', lastSummary, split⟩, hrec, hr⟩ := bind_eq_ok.mp hr
          obtain ⟨⟨c', split'⟩, hpush, heq⟩ := Exec.map_eq_ok.mp hrec
          obtain ⟨rfl, rfl, rfl⟩ : l ++ [c'] = cs' ∧ c'.summary = lastSummary ∧ split' = split := by
            simpa using heq
          have weight := ih (hw c (by simp)) wfo (by omega) hpush
          obtain ⟨css, -, hr⟩ := bind_eq_ok.mp hr
          rw [spineLast_concat, show (l ++ [c]).length = (l ++ [c']).length by simp]
          cases split' with
          | none =>
            have hkept : c'.spine ≤ c.spine + pushCost m other := (weight.kept rfl).1
            refine pushChildren_weight (by simp) ?_ hr
            rw [append_nil, spineLast_concat, length_nil, Nat.zero_mul]
            omega
          | some t =>
            have hsplit := weight.split t rfl
            obtain ⟨ss, -, hr⟩ := bind_eq_ok.mp hr
            rw [ArrayVec.push_nil, ok_bind] at hr
            refine pushChildren_weight (by simp) ?_ hr
            rw [spineLast_concat, length_singleton, Nat.one_mul]
            omega

end Recursion

/-! ## Appending low trees -/

section Grown

variable [Summary S] [LawfulSummary S] [Item T S]

/-- A tree that `n` appends of trees of at most 56 levels have led to. -/
structure Grown (n : Nat) (t : SumTree T S) : Prop where
  root : t.height ≤ 57 ∨ 2 ≤ t.rootSize
  weight : t.spine ≤ (n + 1) * treeBase ^ 59

theorem grown_new : Grown 0 (new : SumTree T S) :=
  ⟨.inl (Nat.zero_le _), by simp [new]⟩

variable {n : Nat} {t r : SumTree T S}

theorem Grown.mono {m : Nat} (grown : Grown n t) (hle : n ≤ m) : Grown m t :=
  ⟨grown.root, grown.weight.trans (Nat.mul_le_mul_right _ (by omega))⟩

/-- A tree of at most 57 levels has grown by itself. -/
theorem Grown.of_height_le (n : Nat) (wf : t.WellFormed) (hle : t.height ≤ 57) :
    Grown n t := by
  refine ⟨.inl hle, ?_⟩
  rcases wf with rfl | ⟨h, -, wf⟩
  · simp [new]
  · rw [wf.height_eq] at hle
    have hspine := wf.spine_le
    have hpow : treeBase ^ (h + 1) ≤ treeBase ^ 58 := Nat.pow_le_pow_right (by decide) (by omega)
    have hbase : treeBase ^ 59 = 6 * treeBase ^ 58 := by rw [Nat.pow_succ, Nat.mul_comm]; rfl
    have hone := Nat.mul_le_mul_right (treeBase ^ 59) (show 1 ≤ n + 1 by omega)
    omega

theorem pushCost_le {h : Nat} {other : SumTree T S} (wf : Wf h other) (hle : h ≤ 56) :
    pushCost h other ≤ treeBase ^ 59 := by
  have hspine := wf.spine_le
  have hpow : treeBase ^ (h + 1) ≤ treeBase ^ 57 := Nat.pow_le_pow_right (by decide) (by omega)
  have hbase : treeBase ^ 59 = 36 * treeBase ^ 57 := by
    rfl
  rw [pushCost]
  omega

theorem fromChildTrees_spine {h : Nat} {left right : SumTree T S} (wf : Wf h left)
    (hr : fromChildTrees left right = .ok r) :
    r.height = h + 1 ∧ r.rootSize = 2 ∧ r.spine = treeBase ^ (h + 1) + right.spine := by
  obtain ⟨height, hheight, hr⟩ := bind_eq_ok.mp hr
  obtain rfl := Except.ok.inj hr
  unfold succHeight at hheight
  split at hheight
  · obtain rfl := Except.ok.inj hheight
    rw [wf.height_eq]
    exact ⟨rfl, rfl, by simp [spineLast]⟩
  · cases hheight

/-- **Growth**: one more append of a low tree. -/
theorem Grown.append {a b : SumTree T S} (grown : Grown n a) (wfa : a.WellFormed)
    (wfb : b.WellFormed) (hb : b.height ≤ 56) (hr : a.append b = .ok r) : Grown (n + 1) r := by
  have appended := (append_spec wfa wfb).of_ok hr
  unfold SumTree.append at hr
  split at hr
  · obtain rfl := Except.ok.inj hr
    exact .of_height_le _ wfb (by omega)
  next hea =>
  split at hr
  · obtain rfl := Except.ok.inj hr
    exact grown.mono (Nat.le_succ n)
  next heb =>
  split at hr
  · -- the lower tree goes into a tree of at most 56 levels
    exact .of_height_le _ appended.wf (by have := appended.height; omega)
  next hlt =>
  have wa := wfa.wf (by simpa using hea)
  have wb := wfb.wf (by simpa using heb)
  obtain ⟨⟨self, res⟩, hrun, hr⟩ := bind_eq_ok.mp hr
  have weight := pushTreeRecursive_weight wa wb (by omega) hrun
  have wself : Wf a.height self := by
    obtain ⟨r', hrun', hwf, -⟩ := pushTreeRecursive_spec wa wb (by omega)
    rw [hrun] at hrun'
    obtain rfl := Except.ok.inj hrun'
    exact hwf
  have hcost := pushCost_le wb hb
  have hbound : a.spine + pushCost b.height b ≤ (n + 1 + 1) * treeBase ^ 59 := by
    have := grown.weight
    rw [Nat.add_mul (n + 1)]
    omega
  cases res with
  | none =>
    obtain rfl := Except.ok.inj hr
    obtain ⟨hspine, hsize⟩ := weight.kept rfl
    refine ⟨?_, hspine.trans hbound⟩
    rw [wself.height_eq]
    exact grown.root.imp_right fun h => h.trans hsize
  | some split =>
    obtain ⟨-, hsize, hspine⟩ := fromChildTrees_spine wself hr
    exact ⟨.inr hsize.ge, by rw [hspine]; exact (weight.split split rfl).trans hbound⟩

/-- To outgrow `u8` takes more appends than can be made. -/
theorem Grown.height_lt (grown : Grown n t) (wf : t.WellFormed)
    (hn : n ≤ 2 * nodeCapacity ^ 57 + 2) : t.height < 255 := by
  by_contra hge
  have hroot : 2 ≤ t.rootSize := grown.root.resolve_left (by omega)
  have hne : t.isEmpty = false := by
    rcases wf with rfl | ⟨h, -, wf⟩
    · cases hroot
    · exact wf.isEmpty_eq
  have hle := (wf.wf hne).le_spine hroot
  have hpow : treeBase ^ 255 ≤ treeBase ^ t.height := Nat.pow_le_pow_right (by decide) (by omega)
  have hmul := Nat.mul_le_mul_right (treeBase ^ 59) (show n + 1 ≤ 2 * nodeCapacity ^ 57 + 3 by omega)
  have hlt : (2 * nodeCapacity ^ 57 + 3) * treeBase ^ 59 < treeBase ^ 255 := by decide +kernel
  exact absurd ((hpow.trans hle).trans (grown.weight.trans hmul)) hlt.not_ge

/-- `from_iter` of a list that fits in 56 levels. -/
theorem fromIter_height {l : List T} (hle : l.length ≤ nodeCapacity ^ 57)
    (ht : fromIter l = .ok t) : t.height ≤ 56 := by
  have hleaves := Row.leaves (S := S) l
  have hstack : Ensures
      (fun nodes : List (SumTree T S) => ∃ h, h ≤ 56 ∧ ∀ c ∈ nodes, Wf h c)
      (fun _ => True) (stack (S := S) parentNodes ((chunks nodeCapacity l).map mkLeaf)) := by
    refine Exec.loop_partial (fun s : Nat × List (SumTree T S) =>
      (∀ c ∈ s.2, Wf s.1 c) ∧ s.1 ≤ 56 ∧ s.2.length ≤ nodeCapacity ^ (56 - s.1)) ?_ _ _ ?_
    · rintro ⟨height, nodes⟩ ⟨hwf, hheight, hlen⟩
      dsimp only at hwf hheight hlen ⊢
      by_cases hmore : 1 < nodes.length
      · -- a row of one node is the root: with more there is a level to come
        have hlt : height < 56 := by
          by_contra hge
          rw [show 56 - height = 0 by omega, Nat.pow_zero] at hlen
          omega
        have row : Row (toListForest nodes) height nodes :=
          ⟨hwf, rfl, by omega, fun _ => hlen.trans (Nat.pow_le_pow_right (by decide) (by omega))⟩
        rw [if_pos hmore]
        unfold succHeight
        simp only [if_pos (show height < 255 by omega), ok_bind, parentNodes_eq]
        refine ⟨(row.parents (by omega)).wf, by dsimp only; omega, ?_⟩
        rw [length_map]
        refine Chunks.length_chunks_le nodeCapacity_pos nodes _ ?_
        rwa [← Nat.pow_succ', show (56 - (height + 1)).succ = 56 - height by omega]
      · rw [if_neg hmore]
        exact ⟨height, hheight, hwf⟩
    · refine ⟨hleaves.wf, Nat.zero_le _, ?_⟩
      rw [length_map]
      exact Chunks.length_chunks_le nodeCapacity_pos l _ (by rwa [← Nat.pow_succ'])
  unfold fromIter at ht
  rw [leafNodes_eq, ok_bind] at ht
  obtain ⟨nodes, hnodes, ht⟩ := bind_eq_ok.mp ht
  obtain ⟨h, hh, hwf⟩ := hstack.of_ok hnodes
  cases nodes with
  | nil =>
    obtain rfl := Except.ok.inj ht
    exact Nat.zero_le _
  | cons node nodes =>
    cases nodes with
    | nil =>
      obtain rfl := Except.ok.inj ht
      rw [(hwf node (by simp)).height_eq]
      exact hh
    | cons other nodes => cases ht

theorem Grown.extend (grown : Grown n t) (wf : t.WellFormed)
    {l : List T} (hle : l.length ≤ nodeCapacity ^ 57) (hr : t.extend l = .ok r) :
    Grown (n + 1) r := by
  obtain ⟨u, hu, hr⟩ := bind_eq_ok.mp hr
  exact grown.append wf ((fromIter_spec l).of_ok hu).1 (fromIter_height hle hu) hr

end Grown

end SumTree

end Gpui
