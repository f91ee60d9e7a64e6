import VBase.Hnsw.Enumeration

/-! # Iterators that will return the same

What a search does depends on which elements are marked, not on the tag that
marks them. So iterators over different visited lists, in different pools, are
alike as soon as the same elements are marked and the same are queued.
-/

namespace VBase.Hnsw

open PriorityQueue

variable {Q : {T K : Type} → [LinearOrder K] → (T → K) → Type} [PriorityQueue Q]
variable {D : Type} [LinearOrder D]

/-- Equal up to the tag that the marks are made with. -/
structure Search.Similar (search other : Search Q D) : Prop where
  visited : ∀ id, search.vl.Visited id ↔ other.vl.Visited id
  candidateSet : search.candidateSet = other.candidateSet
  queryResult : search.queryResult = other.queryResult

namespace HierarchicalNSW

variable (index : HierarchicalNSW D) (query : List D)

theorem foldl_visitNeighbor_similar (links : List Nat) {vl vl' : VisitedList}
    (hvisited : ∀ id, vl.Visited id ↔ vl'.Visited id) (queue : CandidateSet Q D) :
    (∀ id, (links.foldl (index.visitNeighbor query) (vl, queue)).1.Visited id ↔
        (links.foldl (index.visitNeighbor query) (vl', queue)).1.Visited id) ∧
      (links.foldl (index.visitNeighbor query) (vl, queue)).2 =
        (links.foldl (index.visitNeighbor query) (vl', queue)).2 := by
  induction links generalizing vl vl' queue with
  | nil => exact ⟨hvisited, rfl⟩
  | cons link rest ih =>
      simp only [List.foldl_cons, visitNeighbor, hvisited link]
      split
      · exact ih hvisited queue
      · apply ih
        intro id
        rw [VisitedList.mark_visited, VisitedList.mark_visited, hvisited]

theorem iterativeStep_similar {search other : Search Q D} (hsimilar : search.Similar other) :
    Option.Rel Search.Similar (index.iterativeStep query search)
      (index.iterativeStep query other) := by
  unfold iterativeStep
  rw [hsimilar.queryResult, hsimilar.candidateSet]
  split
  · exact Option.Rel.none
  split
  · exact Option.Rel.none
  next current _ =>
    have hmarked : ∀ id, (search.vl.mark current.2).Visited id ↔
        (other.vl.mark current.2).Visited id := by
      intro id
      rw [VisitedList.mark_visited, VisitedList.mark_visited, hsimilar.visited]
    obtain ⟨hvisited, hqueue⟩ := index.foldl_visitNeighbor_similar query
      (index.getLinklist0 current.2) hmarked (pop other.candidateSet)
    exact Option.Rel.some ⟨hvisited, hqueue, rfl⟩

theorem searchKnnIterative_similar {search other : Search Q D} (hsimilar : search.Similar other)
    (isFirst : Bool) :
    (index.searchKnnIterative query search isFirst).Similar
      (index.searchKnnIterative query other isFirst) := by
  unfold searchKnnIterative
  split
  · exact hsimilar
  · apply Loop.run_rel (index.iterativeStep_decreases query) (index.iterativeStep_decreases query)
    · exact fun _ _ hrel => index.iterativeStep_similar query hrel
    · unfold queueEntry
      split
      · exact ⟨hsimilar.visited, by rw [hsimilar.candidateSet], hsimilar.queryResult⟩
      · exact hsimilar

theorem foldl_visitNeighbor_current (links : List Nat) (state : VisitedList × CandidateSet Q D)
    (hcurrent : state.1.Current) :
    (links.foldl (index.visitNeighbor query) state).1.Current := by
  induction links generalizing state with
  | nil => exact hcurrent
  | cons link rest ih =>
      rw [List.foldl_cons]
      apply ih
      unfold visitNeighbor
      split
      · exact hcurrent
      · exact VisitedList.mark_current hcurrent link

/-- A search leaves no mark ahead of the tag. -/
theorem searchKnnIterative_current {search : Search Q D} (hcurrent : search.vl.Current)
    (isFirst : Bool) : (index.searchKnnIterative query search isFirst).vl.Current := by
  unfold searchKnnIterative
  split
  · exact hcurrent
  refine Loop.run_invariant (index.iterativeStep_decreases query)
    (motive := fun search => search.vl.Current) ?_ _ ?_
  · intro before after hbefore hstep
    unfold iterativeStep at hstep
    split at hstep
    · simp at hstep
    split at hstep
    · simp at hstep
    next current _ =>
      obtain rfl := Option.some.inj hstep
      apply index.foldl_visitNeighbor_current query
      exact VisitedList.mark_current hbefore current.2
  · unfold queueEntry
    split <;> exact hcurrent

end HierarchicalNSW

namespace ResultIterator

variable (index : HierarchicalNSW D)

/-- The two iterators, each with its own pool, will return the same results. -/
structure Alike (iter : ResultIterator Q D) (lists : VisitedListPool)
    (other : ResultIterator Q D) (lists' : VisitedListPool) : Prop where
  target : iter.target = other.target
  isFirstResult : iter.isFirstResult = other.isFirstResult
  workspace : Option.Rel (fun ws ws' => (resume ws lists).Similar (resume ws' lists'))
    iter.workspace other.workspace

/-- Iterators opened for one target are alike, whatever the pools were used for before. -/
theorem new_alike (target : List D) {lists lists' : VisitedListPool} {held held' : Set Nat}
    (hsound : lists.Sound held) (hsound' : lists'.Sound held') :
    (new (Q := Q) target lists).1.Alike (new (Q := Q) target lists).2
      (new (Q := Q) target lists').1 (new (Q := Q) target lists').2 := by
  refine ⟨rfl, rfl, Option.Rel.some ⟨?_, rfl, rfl⟩⟩
  intro id
  exact iff_of_false (hsound.getFreeVisitedList.2.2.1 id) (hsound'.getFreeVisitedList.2.2.1 id)

/-- Alike iterators return the same and stay alike, or both fault. -/
theorem Alike.next {iter other : ResultIterator Q D} {lists lists' : VisitedListPool}
    (halike : iter.Alike lists other lists') :
    Option.Rel (fun left right => left.1 = right.1 ∧
        left.2.1.Alike left.2.2 right.2.1 right.2.2)
      (ResultIterator.next index iter lists) (ResultIterator.next index other lists') := by
  obtain ⟨target, workspace, isFirstResult⟩ := iter
  obtain ⟨_, workspace', _⟩ := other
  obtain ⟨rfl, rfl, hworkspace⟩ := halike
  unfold ResultIterator.next
  cases hworkspace with
  | none =>
      simp only
      split
      · exact Option.Rel.some ⟨rfl, rfl, rfl, Option.Rel.none⟩
      · exact Option.Rel.none
  | @some ws ws' hsimilar =>
      have hafter := index.searchKnnIterative_similar target hsimilar isFirstResult
      refine Option.Rel.some ⟨hafter.queryResult, rfl, rfl, Option.Rel.some ⟨?_, ?_, rfl⟩⟩
      · simpa [resume] using hafter.visited
      · exact hafter.candidateSet

omit [PriorityQueue Q] in
theorem Alike.close {iter other : ResultIterator Q D} {lists lists' : VisitedListPool}
    (halike : iter.Alike lists other lists') :
    (ResultIterator.close iter lists).1.Alike (ResultIterator.close iter lists).2
      (ResultIterator.close other lists').1 (ResultIterator.close other lists').2 := by
  obtain ⟨target, workspace, isFirstResult⟩ := iter
  obtain ⟨_, workspace', _⟩ := other
  obtain ⟨rfl, rfl, hworkspace⟩ := halike
  cases hworkspace with
  | none => exact ⟨rfl, rfl, Option.Rel.none⟩
  | some _ => exact ⟨rfl, rfl, Option.Rel.none⟩

omit [PriorityQueue Q] in
/-- Only the list that the iterator holds matters. -/
theorem Alike.frame {iter other : ResultIterator Q D} {lists lists' after : VisitedListPool}
    (halike : iter.Alike lists other lists')
    (hsame : ∀ ws ∈ iter.workspace, after.memory ws.vl = lists.memory ws.vl) :
    iter.Alike after other lists' := by
  refine ⟨halike.target, halike.isFirstResult, ?_⟩
  have hworkspace := halike.workspace
  generalize hleft : iter.workspace = left at hworkspace hsame
  generalize other.workspace = right at hworkspace
  cases hworkspace with
  | none => exact Option.Rel.none
  | @some ws ws' hsimilar =>
      refine Option.Rel.some ⟨?_, hsimilar.candidateSet, rfl⟩
      have hvisited := hsimilar.visited
      simpa only [resume, hsame ws rfl] using hvisited

end ResultIterator

end VBase.Hnsw
