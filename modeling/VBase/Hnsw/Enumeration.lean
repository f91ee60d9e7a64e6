import VBase.Hnsw.Exploration

/-! # What an iterator enumerates

Each `Next` pops on until it meets a node that it reports, so the results of an
iterator are the reported nodes of one complete best-first order, and afterwards
nothing.
-/

namespace VBase.Hnsw

open BestFirst PriorityQueue

variable {Q : {T K : Type} → [LinearOrder K] → (T → K) → Type} [PriorityQueue Q]
variable {D : Type} [LinearOrder D]

namespace ResultIterator

variable (index : HierarchicalNSW D)

/-- The loop state in which the next call of `Next` starts its search. -/
def loopStart (iter : ResultIterator Q D) (workspace : WorkSpace Q D) (lists : VisitedListPool) :
    Search Q D :=
  index.queueEntry iter.target (resume workspace lists) iter.isFirstResult

/-- The loop state in which that search ends. -/
def loopEnd (iter : ResultIterator Q D) (workspace : WorkSpace Q D) (lists : VisitedListPool) :
    Search Q D :=
  index.searchBaseLayerSTIterative iter.target (iter.loopStart index workspace lists)

theorem next_of_open {index : HierarchicalNSW D} {iter : ResultIterator Q D}
    {workspace : WorkSpace Q D} (hopen : iter.workspace = some workspace)
    (hcount : 0 < index.curElementCount) (lists : VisitedListPool) :
    next index iter lists = some ((iter.loopEnd index workspace lists).queryResult,
      ⟨iter.target, some ⟨workspace.vl, (iter.loopEnd index workspace lists).candidateSet⟩, false⟩,
      lists.store workspace.vl (iter.loopEnd index workspace lists).vl) := by
  have hsearch : index.searchKnnIterative iter.target (resume workspace lists)
      iter.isFirstResult = iter.loopEnd index workspace lists := by
    rw [HierarchicalNSW.searchKnnIterative, if_neg (by omega)]
    rfl
  simp only [next, hopen, hsearch]

/-- After a call the workspace holds what the loop left. -/
theorem loopStart_store (target : List D) (address : Nat) (search : Search Q D)
    (lists : VisitedListPool) :
    loopStart index ⟨target, some ⟨address, search.candidateSet⟩, false⟩
        ⟨address, search.candidateSet⟩ (lists.store address search.vl) =
      { search with queryResult := none } := by
  simp [loopStart, resume, HierarchicalNSW.queueEntry]

/-- An open iterator that has popped `popped`: its next search starts from there. -/
def Stands (iter : ResultIterator Q D) (lists : VisitedListPool) (popped : List Nat) : Prop :=
  ∃ workspace, iter.workspace = some workspace ∧
    index.Explores iter.target (index.baseLayerEntry iter.target)
      (iter.loopStart index workspace lists) popped

/-- A list fresh from the pool is unmarked, so a new iterator stands at the start. -/
theorem new_stands (target : List D) {lists : VisitedListPool} {held : Set Nat}
    (hsound : lists.Sound held) :
    Stands index (new target lists : ResultIterator Q D × _).1
      (new target lists : ResultIterator Q D × _).2 [] := by
  refine ⟨_, rfl, Order.init, ?_, Or.inr ⟨rfl, ?_⟩⟩
  · simp [loopStart, resume, HierarchicalNSW.queueEntry, new]
  · exact hsound.getFreeVisitedList.2.2.1

/-- What one call of `Next` does to the order. -/
theorem Stands.advances {index : HierarchicalNSW D} {iter : ResultIterator Q D}
    {lists : VisitedListPool} {popped : List Nat} (hstands : iter.Stands index lists popped)
    (hcount : 0 < index.curElementCount) :
    ∃ workspace skipped reported iter' lists',
      iter.workspace = some workspace ∧
      index.Advances iter.target (index.baseLayerEntry iter.target)
        (iter.loopStart index workspace lists) (iter.loopEnd index workspace lists)
        popped skipped reported ∧
      next index iter lists = some (reported.map (index.report iter.target), iter', lists') ∧
      iter'.target = iter.target ∧
      iter'.Stands index lists' (popped ++ skipped ++ reported.toList) := by
  obtain ⟨workspace, hopen, hexp⟩ := hstands
  have hresult : (iter.loopStart index workspace lists).queryResult = none := by
    unfold loopStart HierarchicalNSW.queueEntry
    split <;> rfl
  obtain ⟨skipped, reported, hadv⟩ := hexp.advances _ popped hresult
  have hnext := next_of_open hopen hcount lists
  have hfound : (iter.loopEnd index workspace lists).queryResult =
      reported.map (index.report iter.target) := hadv.result
  rw [hfound] at hnext
  refine ⟨workspace, skipped, reported, _, _, hopen, hadv, hnext, ?_, ?_⟩
  · rfl
  · refine ⟨_, rfl, ?_⟩
    rw [loopStart_store]
    exact ⟨hadv.explores.order, hadv.explores.queue, hadv.explores.visited⟩

/-- The iterator will report exactly `ids`, each popped as the least queued one. -/
inductive Delivers : ResultIterator Q D → VisitedListPool → List Nat → Prop
  | finished {iter : ResultIterator Q D} {lists : VisitedListPool}
      (hnone : ∀ count, ∃ iter' lists',
        results index count iter lists = some (List.replicate count none, iter', lists')) :
      Delivers iter lists []
  | found {iter iter' : ResultIterator Q D} {lists lists' : VisitedListPool} {id : Nat}
      {rest : List Nat} {workspace : WorkSpace Q D} {later : Search Q D}
      (hopen : iter.workspace = some workspace)
      (hturns : index.Turns iter.target (iter.loopStart index workspace lists) later)
      (hleast : index.PopsLeast iter.target later id)
      (hnext : next index iter lists = some (some (index.report iter.target id), iter', lists'))
      (htarget : iter'.target = iter.target)
      (hrest : Delivers iter' lists' rest) :
      Delivers iter lists (id :: rest)

/-- With nothing left to pop there is no result, however often `Next` is called. -/
theorem Stands.results_none {index : HierarchicalNSW D}
    (hcount : 0 < index.curElementCount) (count : Nat) {iter : ResultIterator Q D}
    {lists : VisitedListPool} {popped : List Nat} (hstands : iter.Stands index lists popped)
    (hdone : frontier index.getLinklist0 (index.baseLayerEntry iter.target) popped = ∅) :
    ∃ iter' lists',
      results index count iter lists = some (List.replicate count none, iter', lists') := by
  induction count generalizing iter lists popped with
  | zero => exact ⟨iter, lists, rfl⟩
  | succ count ih =>
      obtain ⟨workspace, skipped, reported, after, lists', -, hadv, hnext, htarget, hafter⟩ :=
        hstands.advances hcount
      -- anything popped now would have been in the empty frontier
      have hmore : skipped ++ reported.toList = [] := by
        cases hlist : skipped ++ reported.toList with
        | nil => rfl
        | cons id rest =>
            have horder := hadv.explores.order
            rw [List.append_assoc, hlist] at horder
            have htake := horder.take (popped.length + 1)
            rw [List.take_length_add_append] at htake
            have hmem := htake.of_concat.2.1
            rw [hdone] at hmem
            exact absurd hmem (Finset.notMem_empty id)
      obtain ⟨rfl, hnone⟩ := List.append_eq_nil_iff.mp hmore
      obtain rfl : reported = none := by simpa using hnone
      rw [← htarget] at hdone
      obtain ⟨iter', lists'', hrest⟩ := ih (by simpa using hafter) hdone
      refine ⟨iter', lists'', ?_⟩
      simp [results, hnext, hrest, List.replicate_succ]

/-- From wherever it stands, an iterator reports the rest of one complete order. -/
theorem Stands.delivers {index : HierarchicalNSW D} (hcount : 0 < index.curElementCount)
    {iter : ResultIterator Q D} {lists : VisitedListPool} {popped : List Nat}
    (hstands : iter.Stands index lists popped) :
    ∃ rest, index.BaseOrder iter.target (index.baseLayerEntry iter.target) (popped ++ rest) ∧
      frontier index.getLinklist0 (index.baseLayerEntry iter.target) (popped ++ rest) = ∅ ∧
      Delivers index iter lists (rest.filter index.reports) := by
  -- every call with a result pops at least one more of the finitely many elements
  induction hleft : index.curElementCount - popped.length using Nat.strongRecOn
    generalizing iter lists popped with
  | ind left ih =>
      obtain ⟨workspace, skipped, reported, after, lists', hopen, hadv, hnext, htarget, hafter⟩ :=
        hstands.advances hcount
      have hskipped : skipped.filter index.reports = [] := by
        rw [List.filter_eq_nil_iff]
        intro id hid
        simp [hadv.skipped_not id hid]
      cases reported with
      | none =>
          have horder := hadv.explores.order
          refine ⟨skipped, by simpa using horder, hadv.exhausted rfl, ?_⟩
          rw [hskipped]
          refine Delivers.finished (fun count => ?_)
          cases count with
          | zero => exact ⟨iter, lists, rfl⟩
          | succ count =>
              obtain ⟨iter', lists'', hrest⟩ := hafter.results_none hcount count (by
                rw [htarget]
                simpa using hadv.exhausted rfl)
              exact ⟨iter', lists'', by simp [results, hnext, hrest, List.replicate_succ]⟩
      | some id =>
          have hlength := HierarchicalNSW.BaseOrder.length_le hadv.explores.order
            (index.baseLayerEntry_lt iter.target hcount)
          simp only [Option.toList_some, List.length_append, List.length_singleton] at hlength
          obtain ⟨rest, horder, hdone, hrest⟩ := ih
            (index.curElementCount - (popped ++ skipped ++ [id]).length)
            (by simp only [List.length_append, List.length_singleton]; omega) hafter rfl
          have hsplit : popped ++ (skipped ++ id :: rest) = popped ++ skipped ++ [id] ++ rest := by
            simp
          rw [htarget] at horder hdone
          refine ⟨skipped ++ id :: rest, hsplit ▸ horder, hsplit ▸ hdone, ?_⟩
          obtain ⟨later, hturns, hleast⟩ := hadv.least id rfl
          rw [List.filter_append, hskipped, List.nil_append,
            List.filter_cons_of_pos (hadv.reported_yes id rfl)]
          exact Delivers.found hopen hturns hleast hnext htarget hrest

/-- The results of any number of calls, and that the next one is the least queued. -/
theorem Delivers.results {index : HierarchicalNSW D} {iter : ResultIterator Q D}
    {lists : VisitedListPool} {ids : List Nat} (hdelivers : Delivers index iter lists ids)
    (calls : Nat) :
    ∃ iter' lists', ResultIterator.results index calls iter lists =
        some ((List.range calls).map (fun call => ids[call]?.map (index.report iter.target)),
          iter', lists') ∧
      ∀ id, ids[calls]? = some id → ∃ workspace later, iter'.workspace = some workspace ∧
        index.Turns iter.target (iter'.loopStart index workspace lists') later ∧
        index.PopsLeast iter.target later id := by
  induction hdelivers generalizing calls with
  | finished hnone =>
      obtain ⟨iter', lists', hresults⟩ := hnone calls
      refine ⟨iter', lists', ?_, by simp⟩
      simpa using hresults
  | @found iter after lists lists' id rest workspace later hopen hturns hleast hnext htarget _ ih =>
      cases calls with
      | zero =>
          refine ⟨iter, lists, rfl, ?_⟩
          intro other hother
          obtain rfl : id = other := by simpa using hother
          exact ⟨workspace, later, hopen, hturns, hleast⟩
      | succ calls =>
          obtain ⟨iter', lists'', hresults, hthen⟩ := ih calls
          rw [htarget] at hresults hthen
          refine ⟨iter', lists'', ?_, by simpa using hthen⟩
          simp [ResultIterator.results, hnext, hresults, List.range_succ_eq_map]

theorem results_of_empty {index : HierarchicalNSW D} (hcount : index.curElementCount = 0)
    (calls : Nat) (iter : ResultIterator Q D) (lists : VisitedListPool) :
    ∃ iter' lists',
      results index calls iter lists = some (List.replicate calls none, iter', lists') := by
  induction calls generalizing iter lists with
  | zero => exact ⟨iter, lists, rfl⟩
  | succ calls ih =>
      obtain ⟨after, lists', hnext⟩ : ∃ after lists', next index iter lists =
          some (none, after, lists') := by
        unfold next
        cases iter.workspace with
        | none => exact ⟨_, _, if_pos hcount⟩
        | some workspace =>
            simp only [HierarchicalNSW.searchKnnIterative, if_pos hcount]
            exact ⟨_, _, rfl⟩
      obtain ⟨iter', lists'', hrest⟩ := ih after lists'
      exact ⟨iter', lists'', by simp [results, hnext, hrest, List.replicate_succ]⟩

/-- A new iterator reports the elements of one complete order of the base layer. -/
theorem new_delivers (hcount : 0 < index.curElementCount) (target : List D)
    {lists : VisitedListPool} {held : Set Nat} (hsound : lists.Sound held) :
    ∃ order, index.BaseOrder target (index.baseLayerEntry target) order ∧
      frontier index.getLinklist0 (index.baseLayerEntry target) order = ∅ ∧
      Delivers index (new target lists : ResultIterator Q D × _).1
        (new target lists : ResultIterator Q D × _).2 (order.filter index.reports) :=
  (new_stands index target hsound).delivers hcount

end ResultIterator

namespace HierarchicalNSW

/-- `num_deleted_` counts the elements marked deleted. -/
def CountsDeleted (index : HierarchicalNSW D) : Prop :=
  index.numDeleted =
    ((Finset.range index.curElementCount).filter (fun id => index.isMarkedDeleted id)).card

instance (index : HierarchicalNSW D) : Decidable index.CountsDeleted :=
  inferInstanceAs (Decidable (index.numDeleted = _))

omit [LinearOrder D] in
theorem CountsDeleted.reports_iff {index : HierarchicalNSW D} (hdeleted : index.CountsDeleted)
    {id : Nat} (hid : id < index.curElementCount) :
    index.reports id = true ↔ index.isMarkedDeleted id = false := by
  simp only [reports, Bool.or_eq_true, beq_iff_eq, Bool.not_eq_true']
  refine or_iff_right_of_imp ?_
  intro hzero
  rw [hdeleted, Finset.card_eq_zero, Finset.filter_eq_empty_iff] at hzero
  simpa using hzero (Finset.mem_range.mpr hid)

end HierarchicalNSW

/-- An iterator enumerates exactly the reachable elements that are not deleted: `Next`
always returns, reports each of them once as the least candidate then queued, and
after the last of them reports nothing. -/
theorem next_enumerates_reachable (index : HierarchicalNSW D) (hdeleted : index.CountsDeleted)
    (target : List D) {lists : VisitedListPool} {held : Set Nat} (hsound : lists.Sound held) :
    (∃ ids : List Nat, ids.Nodup ∧
      (∀ id, id ∈ ids ↔ id < index.curElementCount ∧
        index.Reachable (index.baseLayerEntry target) id ∧ index.isMarkedDeleted id = false) ∧
      ∀ calls, ∃ (iter : ResultIterator Q D) (lists' : VisitedListPool),
        ResultIterator.results index calls (ResultIterator.new target lists).1
            (ResultIterator.new target lists : ResultIterator Q D × _).2 =
          some ((List.range calls).map (fun call => ids[call]?.map (index.report target)),
            iter, lists') ∧
        ∀ id, ids[calls]? = some id → ∃ workspace later, iter.workspace = some workspace ∧
          index.Turns target (iter.loopStart index workspace lists') later ∧
          index.PopsLeast target later id) ∧
    (∀ level walk, index.descendStep target level (index.descendLevel target level walk) = none) ∧
    ∀ search : Search Q D,
      index.iterativeStep target (index.searchBaseLayerSTIterative target search) = none := by
  refine ⟨?_, index.descendLevel_done target, index.searchBaseLayerSTIterative_done target⟩
  rcases Nat.eq_zero_or_pos index.curElementCount with hzero | hcount
  · refine ⟨[], List.nodup_nil, ?_, ?_⟩
    · intro id
      simp [hzero]
    · intro calls
      obtain ⟨iter, lists', hresults⟩ := ResultIterator.results_of_empty hzero calls
        (ResultIterator.new target lists : ResultIterator Q D × _).1
        (ResultIterator.new target lists : ResultIterator Q D × _).2
      exact ⟨iter, lists', by simpa using hresults, by simp⟩
  · obtain ⟨order, horder, hdone, hdelivers⟩ :=
      ResultIterator.new_delivers (Q := Q) index hcount target hsound
    refine ⟨order.filter index.reports, horder.nodup.filter _, ?_, hdelivers.results⟩
    intro id
    have hentry := index.baseLayerEntry_lt target hcount
    rw [List.mem_filter, horder.mem_iff_reachable hdone]
    constructor
    · rintro ⟨hreach, hreports⟩
      have hid := index.reachable_lt hentry hreach
      exact ⟨hid, hreach, (hdeleted.reports_iff hid).mp hreports⟩
    · rintro ⟨hid, hreach, hnot⟩
      exact ⟨hreach, (hdeleted.reports_iff hid).mpr hnot⟩

/-- Three elements on a directed cycle with self-loops, the second of them deleted. -/
def cycleIndex : HierarchicalNSW Int where
  maxElements := 4
  curElementCount := 3
  numDeleted := 1
  maxlevel := 1
  enterpointNode := 0
  getLinklist0 := fun id => [id % 3, (id + 1) % 3, (id + 1) % 3]
  getLinklist := fun id _ => [(id + 2) % 3]
  isMarkedDeleted := fun id => id == 1
  getExternalLabel := UInt64.ofNat
  getDataByInternalId := fun id => [(id : Int)]
  fstdistfunc := fun query data => (query.headD 0 - data.headD 0) ^ 2
  maxElements_lt := by decide
  count_le := by decide
  enterpoint_lt := by decide
  linklist0_lt := by
    intro id link hlink
    simp only [List.mem_cons, List.not_mem_nil, or_false] at hlink
    omega
  linklist_lt := by
    intro id level link hlink
    simp only [List.mem_cons, List.not_mem_nil, or_false] at hlink
    omega

theorem cycleIndex_enumerated :
    cycleIndex.CountsDeleted ∧ (VisitedListPool.new fun _ _ => 0).Sound ∅ ∧
      ∃ ids : List Nat, ids.Nodup ∧
        ∀ id, id ∈ ids ↔ id < 3 ∧ cycleIndex.Reachable (cycleIndex.baseLayerEntry [5]) id ∧
          cycleIndex.isMarkedDeleted id = false := by
  have hdeleted : cycleIndex.CountsDeleted := by decide
  have hsound := VisitedListPool.new_sound (fun _ _ => 0)
  obtain ⟨⟨ids, hnodup, hmem, -⟩, -⟩ :=
    next_enumerates_reachable (Q := @SortedQueue) cycleIndex hdeleted [5] hsound
  exact ⟨hdeleted, hsound, ids, hnodup, hmem⟩

end VBase.Hnsw
