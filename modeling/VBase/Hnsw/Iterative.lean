import VBase.Hnsw.VisitedList
import VBase.Foundation.PriorityQueue

/-! # Iterative search

`searchKnnIterative` suspends a best-first search of the base layer after every
result. The entry is queued without a mark and every other element is marked
when it is queued. The invariant is that the queue is the frontier of a
best-first order and the marks are what that order has seen.
-/

namespace VBase.Hnsw

open BestFirst PriorityQueue

/-- `candidate_set`: pairs of a negated distance and an id, compared by the first.
Negation reverses the order of distances and does nothing else here. -/
abbrev CandidateSet (Q : {T K : Type} → [LinearOrder K] → (T → K) → Type) (D : Type)
    [LinearOrder D] : Type :=
  Q (Prod.fst : Dᵒᵈ × Nat → Dᵒᵈ)

variable {Q : {T K : Type} → [LinearOrder K] → (T → K) → Type} [PriorityQueue Q]
variable {D : Type} [LinearOrder D]

/-- The state of the search loop. `queryResult` is `none` while `HasResult()` is false. -/
structure Search (Q : {T K : Type} → [LinearOrder K] → (T → K) → Type) (D : Type)
    [LinearOrder D] where
  vl : VisitedList
  candidateSet : CandidateSet Q D
  queryResult : Option (UInt64 × D)

namespace HierarchicalNSW

variable (index : HierarchicalNSW D) (query : List D)

/-- The pair queued for an element. -/
def candidate (id : Nat) : Dᵒᵈ × Nat := (OrderDual.toDual (index.dist query id), id)

/-- One turn of the loop over the links of the current node. -/
def visitNeighbor (state : VisitedList × CandidateSet Q D) (id : Nat) :
    VisitedList × CandidateSet Q D :=
  if state.1.Visited id then state
  else (state.1.mark id, push state.2 (index.candidate query id))

/-- Whether a popped node is reported: `!has_deletions || !isMarkedDeleted(node)`, with
`has_deletions` chosen by `num_deleted_`. -/
def reports (node : Nat) : Bool := index.numDeleted == 0 || !index.isMarkedDeleted node

/-- One turn of the loop of `searchBaseLayerSTIterative`, left when a result was set. -/
def iterativeStep (search : Search Q D) : Option (Search Q D) :=
  if search.queryResult.isSome then none
  else
    match top search.candidateSet with
    | none => none
    | some current =>
        let node := current.2
        let expanded := (index.getLinklist0 node).foldl (index.visitNeighbor query)
          (search.vl.mark node, pop search.candidateSet)
        some {
          vl := expanded.1
          candidateSet := expanded.2
          queryResult :=
            if index.reports node then
              some (index.getExternalLabel node, index.dist query node)
            else none }

/-- The elements without a mark. -/
def unvisited (vl : VisitedList) : Finset Nat :=
  (Finset.range index.curElementCount).filter (fun id => ¬ vl.Visited id)

/-- Unmarked and queued elements, of which every turn uses one up. -/
def pending (search : Search Q D) : Nat :=
  (index.unvisited search.vl).card + size search.candidateSet

def searchBaseLayerSTIterative (search : Search Q D) : Search Q D :=
  Loop.run (index.pending) (index.iterativeStep query) search

/-- The `isFirst` branch of `searchKnnIterative`: queue the entry that the descent finds. -/
def queueEntry (search : Search Q D) (isFirst : Bool) : Search Q D :=
  if isFirst then
    { search with
      candidateSet := push search.candidateSet
        (index.candidate query (index.baseLayerEntry query)) }
  else search

def searchKnnIterative (search : Search Q D) (isFirst : Bool) : Search Q D :=
  if index.curElementCount = 0 then search
  else index.searchBaseLayerSTIterative query (index.queueEntry query search isFirst)

end HierarchicalNSW

/-- `WorkSpace`: the address of a visited list and the queue. -/
structure WorkSpace (Q : {T K : Type} → [LinearOrder K] → (T → K) → Type) (D : Type)
    [LinearOrder D] where
  vl : Nat
  candidateSet : CandidateSet Q D

/-- `ResultIterator`, closed once its workspace is gone. -/
structure ResultIterator (Q : {T K : Type} → [LinearOrder K] → (T → K) → Type) (D : Type)
    [LinearOrder D] where
  target : List D
  workspace : Option (WorkSpace Q D)
  isFirstResult : Bool

namespace ResultIterator

variable (index : HierarchicalNSW D)

/-- The constructor, with `getFreeWorkSpace`. -/
def new (target : List D) (lists : VisitedListPool) : ResultIterator Q D × VisitedListPool :=
  (⟨target, some ⟨lists.getFreeVisitedList.1, PriorityQueue.empty⟩, true⟩,
    lists.getFreeVisitedList.2)

/-- The search state that `Next` hands to `searchKnnIterative`. -/
def resume (workspace : WorkSpace Q D) (lists : VisitedListPool) : Search Q D :=
  ⟨lists.memory workspace.vl, workspace.candidateSet, none⟩

/-- `Next`; `none` is the dereference of a null workspace. -/
def next (iter : ResultIterator Q D) (lists : VisitedListPool) :
    Option (Option (UInt64 × D) × ResultIterator Q D × VisitedListPool) :=
  match iter.workspace with
  | none =>
      if index.curElementCount = 0 then some (none, { iter with isFirstResult := false }, lists)
      else none
  | some workspace =>
      let search := index.searchKnnIterative iter.target (resume workspace lists)
        iter.isFirstResult
      some (search.queryResult,
        ⟨iter.target, some ⟨workspace.vl, search.candidateSet⟩, false⟩,
        lists.store workspace.vl search.vl)

/-- `Close`, and the destructor, which does the same. -/
def close (iter : ResultIterator Q D) (lists : VisitedListPool) :
    ResultIterator Q D × VisitedListPool :=
  match iter.workspace with
  | none => (iter, lists)
  | some workspace =>
      ({ iter with workspace := none }, lists.releaseVisitedList workspace.vl)

/-- The results of `count` calls of `Next`, with what they leave behind. -/
def results : Nat → ResultIterator Q D → VisitedListPool →
    Option (List (Option (UInt64 × D)) × ResultIterator Q D × VisitedListPool)
  | 0, iter, lists => some ([], iter, lists)
  | count + 1, iter, lists => do
      let (first, iter, lists) ← next index iter lists
      let (rest, iter, lists) ← results count iter lists
      return (first :: rest, iter, lists)

end ResultIterator

/-! ## Termination -/

namespace HierarchicalNSW

variable (index : HierarchicalNSW D) (query : List D)

omit [LinearOrder D] in
theorem unvisited_mark_subset (vl : VisitedList) (id : Nat) :
    index.unvisited (vl.mark id) ⊆ index.unvisited vl := by
  intro other hother
  obtain ⟨hrange, hnot⟩ := Finset.mem_filter.mp hother
  refine Finset.mem_filter.mpr ⟨hrange, fun hvisited => hnot ?_⟩
  exact VisitedList.mark_visited.mpr (Or.inr hvisited)

omit [LinearOrder D] in
theorem unvisited_mark_card_lt {vl : VisitedList} {id : Nat} (hid : id < index.curElementCount)
    (hvl : ¬ vl.Visited id) :
    (index.unvisited (vl.mark id)).card < (index.unvisited vl).card := by
  apply Finset.card_lt_card
  rw [Finset.ssubset_iff_of_subset (index.unvisited_mark_subset vl id)]
  refine ⟨id, Finset.mem_filter.mpr ⟨Finset.mem_range.mpr hid, hvl⟩, ?_⟩
  intro hmem
  exact (Finset.mem_filter.mp hmem).2 (VisitedList.mark_visited.mpr (Or.inl rfl))

/-- Queuing a neighbour takes it out of the unmarked elements. -/
theorem visitNeighbor_pending (state : VisitedList × CandidateSet Q D) (id : Nat)
    (hid : id < index.curElementCount) :
    (index.unvisited (index.visitNeighbor query state id).1).card +
        size (index.visitNeighbor query state id).2 ≤
      (index.unvisited state.1).card + size state.2 := by
  unfold visitNeighbor
  split
  · exact le_rfl
  next hvl =>
    have hlt := index.unvisited_mark_card_lt hid hvl
    simp only [size_push]
    omega

theorem foldl_visitNeighbor_pending (links : List Nat)
    (hlinks : ∀ link ∈ links, link < index.curElementCount)
    (state : VisitedList × CandidateSet Q D) :
    (index.unvisited (links.foldl (index.visitNeighbor query) state).1).card +
        size (links.foldl (index.visitNeighbor query) state).2 ≤
      (index.unvisited state.1).card + size state.2 := by
  induction links generalizing state with
  | nil => exact le_rfl
  | cons link rest ih =>
      rw [List.foldl_cons]
      refine (ih (fun other hother => hlinks other (List.mem_cons_of_mem _ hother)) _).trans ?_
      exact index.visitNeighbor_pending query state link (hlinks link List.mem_cons_self)

theorem iterativeStep_decreases :
    Loop.Decreases (index.pending) (index.iterativeStep query : Search Q D → _) := by
  intro search after hstep
  unfold iterativeStep at hstep
  split at hstep
  · simp at hstep
  · split at hstep
    · simp at hstep
    next current htop =>
      obtain rfl := Option.some.inj hstep
      have hfold := index.foldl_visitNeighbor_pending query (index.getLinklist0 current.2)
        (index.linklist0_lt current.2) (search.vl.mark current.2, pop search.candidateSet)
      have hmark := Finset.card_le_card (index.unvisited_mark_subset search.vl current.2)
      have hpop := size_pop htop
      simp only [pending] at hfold ⊢
      omega

/-- The loop ends, with a result or with an empty queue. -/
theorem searchBaseLayerSTIterative_done (search : Search Q D) :
    index.iterativeStep query (index.searchBaseLayerSTIterative query search) = none :=
  Loop.run_done (index.iterativeStep_decreases query) search

end HierarchicalNSW

end VBase.Hnsw
