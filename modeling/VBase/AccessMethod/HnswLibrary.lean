import VBase.AccessMethod.ScanDesc
import VBase.Hnsw.Interleaving

/-! # The hnsw iterators as a library

An access method holds an iterator between its construction and its `Close`, so
the iterators it calls are open. What the library keeps elsewhere is the pool of
visited lists of the index.
-/

namespace VBase.AccessMethod

open VBase.Hnsw PriorityQueue

variable {Q : {T K : Type} → [LinearOrder K] → (T → K) → Type} [PriorityQueue Q]
variable {D : Type} [LinearOrder D]

/-- A `ResultIterator` that has not been closed. -/
def OpenIterator (Q : {T K : Type} → [LinearOrder K] → (T → K) → Type) (D : Type)
    [LinearOrder D] : Type :=
  { iter : ResultIterator Q D // iter.workspace.isSome }

namespace OpenIterator

variable (index : HierarchicalNSW D)

theorem next_isSome (iter : OpenIterator Q D) (lists : VisitedListPool) :
    (iter.1.next index lists).isSome := by
  obtain ⟨workspace, hopen⟩ := Option.isSome_iff_exists.mp iter.2
  simp only [ResultIterator.next, hopen]
  rfl

theorem next_workspace {iter after : ResultIterator Q D} {lists lists' : VisitedListPool}
    {value : Option (UInt64 × D)} (hnext : iter.next index lists = some (value, after, lists'))
    (hopen : iter.workspace.isSome) : after.workspace.isSome := by
  obtain ⟨workspace, hopen⟩ := Option.isSome_iff_exists.mp hopen
  simp only [ResultIterator.next, hopen, Option.some.injEq, Prod.mk.injEq] at hnext
  rw [← hnext.2.1]
  rfl

/-- `Next` on an open iterator, which is left open. -/
def next (iter : OpenIterator Q D) (lists : VisitedListPool) :
    Option (UInt64 × D) × OpenIterator Q D × VisitedListPool :=
  let after := (iter.1.next index lists).get (iter.next_isSome index lists)
  (after.1, ⟨after.2.1, next_workspace index
    (Option.some_get (iter.next_isSome index lists)).symm iter.2⟩, after.2.2)

theorem next_eq (iter : OpenIterator Q D) (lists : VisitedListPool) :
    iter.1.next index lists =
      some ((iter.next index lists).1, (iter.next index lists).2.1.1,
        (iter.next index lists).2.2) :=
  (Option.some_get (iter.next_isSome index lists)).symm

/-- What the loop can still pop when `Next` is called. -/
def remaining (iter : OpenIterator Q D) (lists : VisitedListPool) : Nat :=
  match iter.1.workspace with
  | none => 0
  | some workspace => index.pending (iter.1.loopStart index workspace lists)

/-- A result is popped from what remained. -/
theorem loopEnd_pending {iter : ResultIterator Q D} {workspace : WorkSpace Q D}
    {lists : VisitedListPool} {result : UInt64 × D}
    (hresult : (iter.loopEnd index workspace lists).queryResult = some result) :
    index.pending (iter.loopEnd index workspace lists) <
      index.pending (iter.loopStart index workspace lists) := by
  have hstart : (iter.loopStart index workspace lists).queryResult = none := by
    unfold ResultIterator.loopStart HierarchicalNSW.queueEntry
    split <;> rfl
  cases hstep : index.iterativeStep iter.target (iter.loopStart index workspace lists) with
  | none =>
      rw [ResultIterator.loopEnd, HierarchicalNSW.searchBaseLayerSTIterative,
        Loop.run_of_none hstep, hstart] at hresult
      cases hresult
  | some after =>
      exact Loop.run_measure_lt (index.iterativeStep_decreases iter.target) hstep

theorem next_remaining (iter : OpenIterator Q D) (lists : VisitedListPool)
    (result : UInt64 × D) (hresult : (iter.next index lists).1 = some result) :
    (iter.next index lists).2.1.remaining index (iter.next index lists).2.2 <
      iter.remaining index lists := by
  have hnext := iter.next_eq index lists
  obtain ⟨workspace, hopen⟩ := Option.isSome_iff_exists.mp iter.2
  generalize iter.next index lists = after at hnext hresult
  obtain ⟨value, after, lists'⟩ := after
  rcases Nat.eq_zero_or_pos index.curElementCount with hzero | hcount
  · -- an empty index has no results
    simp only [ResultIterator.next, hopen, HierarchicalNSW.searchKnnIterative, if_pos hzero,
      Option.some.injEq, Prod.mk.injEq] at hnext
    rw [← hnext.1] at hresult
    cases hresult
  · rw [ResultIterator.next_of_open hopen hcount] at hnext
    simp only [Option.some.injEq, Prod.mk.injEq] at hnext
    obtain ⟨hvalue, hafter, rfl⟩ := hnext
    simp only [remaining, ← hafter, hopen, ResultIterator.loopStart_store]
    exact loopEnd_pending index (hvalue.trans hresult)

end OpenIterator

/-- `hnswlib`, as the access method uses it. -/
def hnswLibrary (index : HierarchicalNSW D) :
    IteratorLibrary D (OpenIterator Q D) VisitedListPool where
  create := fun target lists =>
    (⟨(ResultIterator.new target lists).1, rfl⟩, (ResultIterator.new (Q := Q) target lists).2)
  next := OpenIterator.next index
  close := fun iter lists => (iter.1.close lists).2
  remaining := OpenIterator.remaining index
  next_remaining := OpenIterator.next_remaining index

/-- The results of the library are those of its iterators. -/
theorem hnswLibrary_results (index : HierarchicalNSW D) (count : Nat) {iter : OpenIterator Q D}
    {lists lists' : VisitedListPool} {values : List (Option (UInt64 × D))}
    {iter' : ResultIterator Q D}
    (hresults : iter.1.results index count lists = some (values, iter', lists')) :
    (hnswLibrary index).results count iter lists = values := by
  induction count generalizing iter lists values with
  | zero =>
      simp only [ResultIterator.results, Option.some.injEq, Prod.mk.injEq] at hresults
      exact hresults.1
  | succ count ih =>
      rw [ResultIterator.results, iter.next_eq index lists, Option.bind_eq_bind,
        Option.bind_some] at hresults
      obtain ⟨⟨rest, last⟩, hrest, heq⟩ := Option.bind_eq_some_iff.mp hresults
      obtain ⟨rfl, rfl⟩ : _ ∧ _ := by simpa [pure] using heq
      rw [IteratorLibrary.results]
      exact congrArg _ (ih hrest)

end VBase.AccessMethod
