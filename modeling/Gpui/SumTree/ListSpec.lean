import Gpui.SumTree.Zipper

/-! # SumTree: trees are lists

    The abstract model of a tree is the list of its items.  What the operations do
    to a tree, they do to this list. -/

set_option linter.unusedSectionVars false

namespace Gpui

open Exec (Returns Ensures Next loop)

variable {T S : Type} [Summary S] [Item T S]

/-! ## `items` -/

namespace SumTree

theorem length_toList_lt (t : SumTree T S) : t.toList.length < t.size := by
  -- the children together have no more items than their sizes
  refine @SumTree.rec T S (fun t => t.toList.length < t.size)
    (fun cts => (toListForest cts).length ≤ sizeForest cts) ?_ ?_ ?_ ?_ t
  · intro _ _ _ cts hcts
    simp
    omega
  · intro _ its _
    simp
  · simp
  · intro c cs hc hcs
    simp
    omega

/-- **`items`** walks a cursor over the whole tree. -/
theorem items_spec [LawfulSummary S] {t : SumTree T S} (wf : t.WellFormed) :
    Ensures (fun l => l = t.toList) (fun e => e = .stackFull ∧ 15 < t.height) t.items := by
  refine (Cursor.next_spec (D := Unit) Tracks.measured wf .new).bind fun c pos => ?_
  refine Exec.loop_ensures (fun st : Cursor T S Unit × List T =>
    ∃ after, t.toList = st.2 ++ after ∧ st.1.At Measured t st.2 after)
    (fun st => t.toList.length - st.2.length)
    ?_ _ _ ⟨t.toList, rfl, pos⟩ ?_
  · rintro ⟨c, items⟩ ⟨after, hitems, pos⟩
    dsimp only
    rw [pos.item_eq, Exec.ok_bind]
    cases after with
    | nil =>
      rw [List.append_nil] at hitems
      exact hitems.symm
    | cons x after =>
      refine (Cursor.next_spec Tracks.measured wf (.item pos)).bind fun c' pos' => ?_
      refine ⟨⟨after, by simp [hitems], pos'⟩, ?_⟩
      simp only [hitems, List.length_append, List.length_cons, List.length_nil]
      omega
  · have := length_toList_lt t
    simpa using this

end SumTree

/-! ## The operations -/

/-- **Trees refine lists**: what the operations on reachable trees do to the items.
    Each that returns does it; none but a height beyond `u8` keeps one from
    returning, and `items` needs the room for a cursor. -/
structure RefinesLists (T S : Type) [Summary S] [Item T S] : Prop where
  append : ∀ a b r : SumTree T S, Reachable a → Reachable b → a.append b = .ok r →
    r.toList = a.toList ++ b.toList ∧ (a.isEmpty = false → b.isEmpty = false →
      r.summary = Summary.addSummary a.summary b.summary)
  append_returns : ∀ a b : SumTree T S, Reachable a → Reachable b → a.height < 255 →
    b.height < 255 → ∃ r, a.append b = .ok r
  fromParIter : ∀ l : List T, SumTree.fromParIter (S := S) l = SumTree.fromIter l
  fromIter : ∀ (l : List T) (t : SumTree T S), SumTree.fromIter l = .ok t → t.toList = l
  fromIter_returns : ∀ l : List T, l.length ≤ nodeCapacity ^ 256 →
    ∃ t, SumTree.fromIter (S := S) l = .ok t
  push : ∀ (t r : SumTree T S) (x : T), Reachable t → t.push x = .ok r →
    r.toList = t.toList ++ [x]
  push_returns : ∀ (t : SumTree T S) (x : T), Reachable t → t.height < 255 →
    ∃ r, t.push x = .ok r
  extend : ∀ (t r : SumTree T S) (l : List T), Reachable t → t.extend l = .ok r →
    r.toList = t.toList ++ l
  extend_returns : ∀ (t u : SumTree T S) (l : List T), Reachable t → t.height < 255 →
    SumTree.fromIter l = .ok u → u.height < 255 → ∃ r, t.extend l = .ok r
  items : ∀ t : SumTree T S, Reachable t → t.height ≤ 15 → t.items = .ok t.toList

theorem sumTree_refinesLists [LawfulSummary S] : RefinesLists T S where
  append := by
    intro a b r ra rb hr
    have appended := (SumTree.append_spec ra.wellFormed rb.wellFormed).of_ok hr
    refine ⟨appended.items, fun hea heb => ?_⟩
    have wfa := ra.wellFormed.wf hea
    have wfb := rb.wellFormed.wf heb
    have hne : r.isEmpty = false := by
      by_contra he
      have hnil := (SumTree.isEmpty_iff_toList appended.wf).mp (by simpa using he)
      rw [appended.items] at hnil
      exact wfa.toList_ne_nil (List.append_eq_nil_iff.mp hnil).1
    rw [(appended.wf.wf hne).summary_eq, wfa.summary_eq, wfb.summary_eq, appended.items,
      itemsSum_append _ wfb.toList_ne_nil]
  append_returns := by
    intro a b ra rb ha hb
    obtain ⟨r, hr, -⟩ := ((SumTree.append_spec ra.wellFormed rb.wellFormed).imp (fun _ h => h)
      (fun e he => by omega)).returns
    exact ⟨r, hr⟩
  fromParIter := SumTree.fromParIter_eq_fromIter
  fromIter := fun l t h => ((SumTree.fromIter_spec l).of_ok h).2
  fromIter_returns := by
    intro l hl
    obtain ⟨t, ht, -⟩ := ((SumTree.fromIter_spec (S := S) l).imp (fun _ h => h)
      (fun e he => absurd hl (Nat.not_le.mpr he.2))).returns
    exact ⟨t, ht⟩
  push := fun t r x reach h => ((SumTree.push_spec reach.wellFormed x).of_ok h).2.1
  push_returns := by
    intro t x reach hlt
    obtain ⟨r, hr, -⟩ := ((SumTree.push_spec reach.wellFormed x).imp (fun _ h => h)
      (fun e he => by omega)).returns
    exact ⟨r, hr⟩
  extend := fun t r l reach h => ((SumTree.extend_spec reach.wellFormed l).of_ok h).2
  extend_returns := by
    intro t u l reach ht hu hlt
    obtain ⟨wfu, -⟩ := (SumTree.fromIter_spec l).of_ok hu
    obtain ⟨r, hr, -⟩ := ((SumTree.append_spec reach.wellFormed wfu).imp (fun _ h => h)
      (fun e he => by omega)).returns
    refine ⟨r, ?_⟩
    unfold SumTree.extend
    rw [hu]
    exact hr
  items := by
    intro t reach hle
    obtain ⟨l, hl, rfl⟩ := ((SumTree.items_spec reach.wellFormed).imp (fun _ h => h)
      (fun e he => by omega)).returns
    exact hl

theorem sumTree_refinesLists_mapEntry : RefinesLists (MapEntry Nat Unit) (MapKey Nat) :=
  sumTree_refinesLists

/-- Some reachable tree can not be appended to itself, and some can not be read. -/
theorem sumTree_list_panics :
    (∃ t : SumTree (MapEntry Nat Unit) (MapKey Nat), Reachable t ∧
      t.append t = .error .addOverflow) ∧
    ∃ t : SumTree (MapEntry Nat Unit) (MapKey Nat), Reachable t ∧ ∃ e, t.items = .error e := by
  refine ⟨exists_append_overflow (⟨3, ()⟩ : MapEntry Nat Unit), ?_⟩
  obtain ⟨t, reach, hdeep⟩ := exists_deep (⟨3, ()⟩ : MapEntry Nat Unit)
  obtain ⟨e, he⟩ := Cursor.next_deep (D := Unit) reach.wellFormed hdeep
  refine ⟨t, reach, e, ?_⟩
  unfold SumTree.items
  rw [he]
  rfl

end Gpui
