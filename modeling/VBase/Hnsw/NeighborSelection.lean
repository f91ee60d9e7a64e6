import VBase.Foundation.PriorityQueue
import VBase.Foundation.Pruning
import Mathlib.Data.Prod.Lex
import Mathlib.Order.OrderDual

/-! # The selection of neighbours

`getNeighborsByHeuristic2` thins out the candidates for the links of an element. The
closest come first, and a candidate is dropped if it is closer to one that was selected
than to the element itself. What is left over is covered by a selected candidate.
-/

namespace VBase.Hnsw

open PriorityQueue

variable {Q : {T K : Type} → [LinearOrder K] → (T → K) → Type} [PriorityQueue Q]
variable {D : Type} [LinearOrder D]

/-- `queue_closest` compares pairs of a negated distance and an id, by both. -/
def closestRank (candidate : D × Nat) : Dᵒᵈ ×ₗ Nat :=
  toLex (OrderDual.toDual candidate.1, candidate.2)

/-- `curdist < dist_to_query`: a selected candidate is closer to another than the element is. -/
def Shadows (between : Nat → Nat → D) (selected candidate : D × Nat) : Prop :=
  between selected.2 candidate.2 < candidate.1

instance (between : Nat → Nat → D) : DecidableRel (Shadows between) :=
  fun selected candidate => inferInstanceAs (Decidable (between selected.2 candidate.2 < _))

/-- The candidates in the order in which `queue_closest` delivers them. -/
def closestFirst (topCandidates : Q (Prod.fst : D × Nat → D)) : List (D × Nat) :=
  drain (pushAll PriorityQueue.empty (drain topCandidates) :
    Q (closestRank : D × Nat → Dᵒᵈ ×ₗ Nat))

/-- `getNeighborsByHeuristic2`, which changes `top_candidates` in place. `between` is the distance
of two elements. -/
def getNeighborsByHeuristic2 (between : Nat → Nat → D)
    (topCandidates : Q (Prod.fst : D × Nat → D)) (M : Nat) : Q (Prod.fst : D × Nat → D) :=
  if size topCandidates < M then topCandidates
  else
    let returnList := Pruning.select (Shadows between) M [] (closestFirst topCandidates)
    pushAll PriorityQueue.empty returnList

theorem coe_closestFirst (topCandidates : Q (Prod.fst : D × Nat → D)) :
    (↑(closestFirst topCandidates) : Multiset (D × Nat)) = elems topCandidates := by
  rw [closestFirst, coe_drain, elems_pushAll, elems_empty, zero_add, coe_drain]

theorem closestFirst_pairwise (topCandidates : Q (Prod.fst : D × Nat → D)) :
    (closestFirst topCandidates).Pairwise (DescendingBy closestRank) :=
  drain_pairwise _

omit [PriorityQueue Q] in
/-- A higher rank is no greater distance. -/
theorem fst_le_of_closestRank_le {first second : D × Nat}
    (hle : closestRank second ≤ closestRank first) : first.1 ≤ second.1 := by
  rcases Prod.Lex.toLex_le_toLex.mp hle with hlt | ⟨heq, -⟩
  · exact le_of_lt (OrderDual.toDual_lt_toDual.mp hlt)
  · exact le_of_eq (OrderDual.toDual.injective heq).symm

/-- Of two candidates, the one before the other is no farther. -/
theorem fst_le_of_before {topCandidates : Q (Prod.fst : D × Nat → D)} {first second : D × Nat}
    (hbefore : [first, second].Sublist (closestFirst topCandidates)) : first.1 ≤ second.1 := by
  have hpair := (closestFirst_pairwise topCandidates).sublist hbefore
  exact fst_le_of_closestRank_le ((List.pairwise_cons.mp hpair).1 second List.mem_cons_self)

/-- What the heuristic leaves, when it has enough candidates to choose from. -/
theorem elems_getNeighborsByHeuristic2 (between : Nat → Nat → D)
    {topCandidates : Q (Prod.fst : D × Nat → D)} {M : Nat} (henough : M ≤ size topCandidates) :
    elems (getNeighborsByHeuristic2 between topCandidates M) =
      ↑(Pruning.select (Shadows between) M [] (closestFirst topCandidates)) := by
  rw [getNeighborsByHeuristic2, if_neg (not_lt.mpr henough), elems_pushAll, elems_empty, zero_add]

/-- The candidates that are left are some of those there were. -/
theorem getNeighborsByHeuristic2_le (between : Nat → Nat → D)
    (topCandidates : Q (Prod.fst : D × Nat → D)) (M : Nat) :
    elems (getNeighborsByHeuristic2 between topCandidates M) ≤ elems topCandidates := by
  rcases Nat.lt_or_ge (size topCandidates) M with hfew | henough
  · rw [getNeighborsByHeuristic2, if_pos hfew]
  · rw [elems_getNeighborsByHeuristic2 between henough, ← coe_closestFirst topCandidates]
    exact (Pruning.select_selects _ M _).sublist.subperm

theorem size_getNeighborsByHeuristic2_le (between : Nat → Nat → D)
    (topCandidates : Q (Prod.fst : D × Nat → D)) (M : Nat) :
    size (getNeighborsByHeuristic2 between topCandidates M) ≤ M := by
  rcases Nat.lt_or_ge (size topCandidates) M with hfew | henough
  · rw [getNeighborsByHeuristic2, if_pos hfew]
    exact hfew.le
  · rw [size, elems_getNeighborsByHeuristic2 between henough, Multiset.coe_card]
    exact (Pruning.select_selects _ M _).length_le

/-- Some candidate is left, if there was one. -/
theorem size_getNeighborsByHeuristic2_pos (between : Nat → Nat → D)
    {topCandidates : Q (Prod.fst : D × Nat → D)} {M : Nat} (hM : 0 < M)
    (hsome : 0 < size topCandidates) :
    0 < size (getNeighborsByHeuristic2 between topCandidates M) := by
  rcases Nat.lt_or_ge (size topCandidates) M with hfew | henough
  · rwa [getNeighborsByHeuristic2, if_pos hfew]
  · rw [size, elems_getNeighborsByHeuristic2 between henough, Multiset.coe_card]
    have hcard : (closestFirst topCandidates).length = size topCandidates := by
      rw [size, ← coe_closestFirst, Multiset.coe_card]
    cases horder : closestFirst topCandidates with
    | nil =>
        rw [horder, List.length_nil] at hcard
        omega
    | cons first rest =>
        exact List.length_pos_of_mem (Pruning.head_mem_select hM first rest)

/-! ## The ids of the selected -/

section

variable (between : Nat → Nat → D) (candidates : Q (Prod.fst : D × Nat → D)) (M : Nat)

/-- A loop that pops the selected candidates and takes their ids. -/
def selectedIds : List Nat :=
  (drain (getNeighborsByHeuristic2 between candidates M)).map Prod.snd

theorem coe_selectedIds : (↑(selectedIds between candidates M) : Multiset Nat) =
    (elems (getNeighborsByHeuristic2 between candidates M)).map Prod.snd := by
  rw [selectedIds, ← Multiset.map_coe, coe_drain]

theorem length_selectedIds :
    (selectedIds between candidates M).length =
      size (getNeighborsByHeuristic2 between candidates M) := by
  rw [← Multiset.coe_card, coe_selectedIds, Multiset.card_map, size]

theorem length_selectedIds_le : (selectedIds between candidates M).length ≤ M := by
  rw [length_selectedIds]
  exact size_getNeighborsByHeuristic2_le between candidates M

variable {candidates} in
theorem selectedIds_nodup (hnodup : ((elems candidates).map Prod.snd).Nodup) :
    (selectedIds between candidates M).Nodup := by
  rw [← Multiset.coe_nodup, coe_selectedIds]
  exact Multiset.nodup_of_le
    (Multiset.map_le_map (getNeighborsByHeuristic2_le between candidates M)) hnodup

variable {between candidates M} in
theorem mem_selectedIds {id : Nat} (hid : id ∈ selectedIds between candidates M) :
    ∃ candidate ∈ elems candidates, candidate.2 = id := by
  rw [← Multiset.mem_coe, coe_selectedIds, Multiset.mem_map] at hid
  obtain ⟨candidate, hmem, heq⟩ := hid
  exact ⟨candidate,
    Multiset.mem_of_le (getNeighborsByHeuristic2_le between candidates M) hmem, heq⟩

end

/-! ## Which candidates are selected -/

/-- Of two selected candidates, the one of higher rank does not shadow the other. -/
theorem not_shadows_of_mem (between : Nat → Nat → D) (topCandidates : Q (Prod.fst : D × Nat → D))
    (M : Nat) {first second : D × Nat}
    (hfirst : first ∈ Pruning.select (Shadows between) M [] (closestFirst topCandidates))
    (hsecond : second ∈ Pruning.select (Shadows between) M [] (closestFirst topCandidates))
    (hrank : closestRank second < closestRank first) : ¬ Shadows between first second := by
  have hselects := Pruning.select_selects (Shadows between) M (closestFirst topCandidates)
  have hordered := hselects.undominated.and
    ((closestFirst_pairwise topCandidates).sublist hselects.sublist)
  have hne : first ≠ second := fun heq => hrank.ne (congrArg closestRank heq.symm)
  rcases Pruning.pairwise_or hordered hfirst hsecond hne with hbefore | hafter
  · exact hbefore.1
  · exact absurd hafter.2 (not_le.mpr hrank)

/-- The candidates that the heuristic selects: at most `M` of those there were, none of which is
shadowed by a closer selected one. One that is not selected is shadowed by a closer selected one,
unless `M` selected ones are no farther than it. With fewer than `M` candidates all are selected. -/
theorem getNeighborsByHeuristic2_selects (between : Nat → Nat → D)
    (topCandidates : Q (Prod.fst : D × Nat → D)) (M : Nat) :
    let selected := elems (getNeighborsByHeuristic2 between topCandidates M)
    (size topCandidates < M → selected = elems topCandidates) ∧
    (M ≤ size topCandidates →
      selected ≤ elems topCandidates ∧ selected.card ≤ M ∧
      (∀ first ∈ selected, ∀ second ∈ selected, closestRank second < closestRank first →
        ¬ Shadows between first second) ∧
      ∀ candidate ∈ elems topCandidates, candidate ∈ selected ∨
        (∃ closer ∈ selected, closer.1 ≤ candidate.1 ∧ Shadows between closer candidate) ∨
        selected.card = M ∧ ∀ closer ∈ selected, closer.1 ≤ candidate.1) := by
  intro selected
  have hselected : M ≤ size topCandidates → selected = ↑(Pruning.select (Shadows between) M []
      (closestFirst topCandidates)) := elems_getNeighborsByHeuristic2 between
  refine ⟨?_, fun henough => ⟨getNeighborsByHeuristic2_le between topCandidates M,
    size_getNeighborsByHeuristic2_le between topCandidates M, ?_, ?_⟩⟩
  · intro hfew
    simp only [selected, getNeighborsByHeuristic2, if_pos hfew]
  · intro first hfirst second hsecond hrank
    rw [hselected henough, Multiset.mem_coe] at hfirst hsecond
    exact not_shadows_of_mem between topCandidates M hfirst hsecond hrank
  · have hselects := Pruning.select_selects (Shadows between) M (closestFirst topCandidates)
    intro candidate hcandidate
    rw [← coe_closestFirst, Multiset.mem_coe] at hcandidate
    rw [hselected henough]
    simp only [Multiset.mem_coe, Multiset.coe_card]
    rcases hselects.covered candidate hcandidate with hkept | ⟨closer, hcloser, hbefore, hdom⟩ |
      ⟨hfull, hall⟩
    · exact Or.inl hkept
    · exact Or.inr (Or.inl ⟨closer, hcloser, fst_le_of_before hbefore, hdom⟩)
    · exact Or.inr (Or.inr ⟨hfull, fun closer hcloser => fst_le_of_before (hall closer hcloser)⟩)

end VBase.Hnsw
