import VBase.Foundation.Carrying
import VBase.Sptag.SearchEnds

/-! # The search with the hash table

A search may be run without a hash table, on a log of the calls it makes: a plain set
answers them. What the search with the table does is what these calls do to the table. It
returns exactly if they all do, and then answers like the set.
-/

namespace VBase.Sptag

open Carrying OptHashPosVector

variable {D : Type} [LinearOrder D]

/-! ## The log -/

/-- The ids in a table before and after a call. The inner key of -1 is zero, which is never
stored. -/
def record (seen : Finset UInt32) : Call → Finset UInt32
  | .clear => ∅
  | .checkAndSet idx => if idx + 1 = 0 then seen else insert idx seen

/-- The ids in a table after some calls. -/
def recorded (calls : List Call) : Finset UInt32 := calls.foldl record ∅

theorem recorded_concat (calls : List Call) (call : Call) :
    recorded (calls ++ [call]) = record (recorded calls) call := by
  rw [recorded, List.foldl_append]
  rfl

/-- A log in place of the table, which is answered by the set of its ids. -/
def logVisited : VisitedSet (List Call) where
  clear := fun calls => calls ++ [.clear]
  checkAndSet := fun calls id => some (decide (UInt32.ofInt id ∈ recorded calls),
    calls ++ [.checkAndSet (UInt32.ofInt id)])

theorem logVisited_total : logVisited.Total := fun _ _ => ⟨_, rfl⟩

/-- The log has the ids of samples. -/
def LogsSamples (samples : Nat) (calls : List Call) (seen : Finset Int) : Prop :=
  recorded calls = seen.image UInt32.ofInt ∧ seen ⊆ BKTIndex.sampleIds samples

theorem logVisited_lawful {samples : Nat} (hsamples : samples < 2 ^ 31) :
    logVisited.Lawful samples (LogsSamples samples) where
  clear_holds := by
    intro calls seen _
    refine ⟨?_, Finset.empty_subset _⟩
    rw [logVisited, recorded_concat, record, Finset.image_empty]
  check_holds := by
    intro calls seen id there next hholds hid hcheck
    obtain ⟨hrecorded, hseen⟩ := hholds
    obtain ⟨rfl, rfl⟩ := Prod.mk.inj (Option.some.inj hcheck)
    refine ⟨?_, ?_, Finset.insert_subset hid hseen⟩
    · rw [hrecorded]
      exact decide_eq_decide.mpr (ofInt_mem_image hsamples hid hseen)
    · rw [recorded_concat, record, if_neg (ofInt_add_one_ne_zero hsamples hid), hrecorded,
        Finset.image_insert]

/-! ## The table of a log -/

/-- The table that calls lead to, if they all return. -/
def tableAfter (depth : Nat) (start : OptHashPosVector) (calls : List Call) :
    Option OptHashPosVector :=
  (run depth start calls).map Prod.snd

section Table

variable {depth : Nat} {start : OptHashPosVector} {calls : List Call}

variable (depth start calls) in
theorem tableAfter_clear :
    tableAfter depth start (calls ++ [.clear]) =
      (tableAfter depth start calls).map OptHashPosVector.clear := by
  rw [tableAfter, tableAfter, run_append]
  rcases run depth start calls with _ | ⟨answers, self⟩
  · rfl
  · rfl

variable (depth start calls) in
theorem tableAfter_checkAndSet (idx : UInt32) :
    tableAfter depth start (calls ++ [.checkAndSet idx]) =
      (tableAfter depth start calls).bind fun self =>
        (checkAndSet depth self idx).map Prod.snd := by
  rw [tableAfter, tableAfter, run_append]
  rcases run depth start calls with _ | ⟨answers, self⟩
  · rfl
  · simp only [Option.bind_some, Option.map_some, run]
    rcases checkAndSet depth self idx with _ | ⟨answer, after⟩
    · rfl
    · rfl

/-- Every id is answered by the set, also -1. -/
theorem checkAndSet_record {self after : OptHashPosVector} {seen : Finset UInt32} {idx : UInt32}
    {answer : Bool} (hholds : self.HoldsIds seen)
    (hcall : checkAndSet depth self idx = some (answer, after)) :
    answer = decide (idx ∈ seen) ∧ after.HoldsIds (record seen (.checkAndSet idx)) := by
  rw [record]
  split
  next hzero =>
    have hkey := checkAndSet_eq_some.mp hcall
    rw [hzero] at hkey
    obtain ⟨hanswer, hafter⟩ := hholds.1.checkAndSetKey_zero hholds.2 hkey
    have hnot : idx ∉ seen := by
      intro hmem
      exact hholds.2 (hzero ▸ add_one_mem_image.mpr hmem)
    refine ⟨?_, hafter, hholds.2⟩
    rw [decide_eq_false hnot]
    exact Bool.not_eq_true' _ ▸ hanswer
  next hkey => exact hholds.checkAndSet hkey hcall

theorem holdsIds_tableAfter (hstart : start.HoldsIds ∅) {self : OptHashPosVector}
    (htable : tableAfter depth start calls = some self) : self.HoldsIds (recorded calls) := by
  induction calls using List.reverseRecOn generalizing self with
  | nil =>
      obtain rfl := Option.some.inj htable
      exact hstart
  | append_singleton calls call ih =>
      rw [recorded_concat]
      cases call with
      | clear =>
          rw [tableAfter_clear] at htable
          obtain ⟨before, hbefore, rfl⟩ := Option.map_eq_some_iff.mp htable
          exact (ih hbefore).clear
      | checkAndSet idx =>
          rw [tableAfter_checkAndSet] at htable
          obtain ⟨before, hbefore, hnext⟩ := Option.bind_eq_some_iff.mp htable
          obtain ⟨⟨answer, after⟩, hcall, rfl⟩ := Option.map_eq_some_iff.mp hnext
          exact (checkAndSet_record (ih hbefore) hcall).2

end Table

/-! ## Where the log is -/

def spaceView : View (WorkSpace (List Call) D) (WorkSpace OptHashPosVector D) (List Call)
    OptHashPosVector where
  log := WorkSpace.nodeCheckStatus
  put := fun space status =>
    ⟨status, space.numberOfCheckedLeaves, space.ngQueue, space.sptQueue⟩

def spreadingView : View (Spreading (List Call) D) (Spreading OptHashPosVector D) (List Call)
    OptHashPosVector where
  log := fun state => state.space.nodeCheckStatus
  put := fun state status => ⟨state.queue, spaceView.put state.space status⟩

def iteratingView : View (Iterating (List Call) D) (Iterating OptHashPosVector D) (List Call)
    OptHashPosVector where
  log := fun state => state.space.nodeCheckStatus
  put := fun state status => ⟨spaceView.put state.space status, state.results, state.count⟩

def searchedView : View (WorkSpace (List Call) D × QueryResultSet D)
    (WorkSpace OptHashPosVector D × QueryResultSet D) (List Call) OptHashPosVector where
  log := fun state => state.1.nodeCheckStatus
  put := fun state status => (spaceView.put state.1 status, state.2)

def iteratorView : View (ResultIterator (List Call) D) (ResultIterator OptHashPosVector D)
    (List Call) OptHashPosVector where
  log := fun iter => iter.space.nodeCheckStatus
  put := fun iter status =>
    ⟨spaceView.put iter.space status, iter.queryResult, iter.isFirstResult⟩

/-! ## Steps without the table -/

section Steps

variable (index : BKTIndex) (metric : Metric D)

omit [LinearOrder D] in
/-- A queue of the trees does not depend on the table. -/
theorem setTrees_steady (queue : Heap (NodeDistPair D)) :
    Steady spaceView spaceView
      (fun space : WorkSpace (List Call) D => { space with sptQueue := queue })
      fun space : WorkSpace OptHashPosVector D => { space with sptQueue := queue } :=
  ⟨fun _ => rfl, fun _ _ => rfl⟩

theorem spread_steady (position : Int) :
    Steady spreadingView spreadingView
      (fun state : Spreading (List Call) D => spread index metric state position)
      fun state : Spreading OptHashPosVector D => spread index metric state position := by
  constructor
  · intro state
    dsimp only [spread]
    split <;> rfl
  · intro state status
    dsimp only [spread, spreadingView]
    split <;> rfl

theorem drainLevel_steady (count : Nat) (level : Heap (NodeDistPair D)) :
    Steady spaceView spaceView
      (fun space : WorkSpace (List Call) D => drainLevel count level space)
      fun space : WorkSpace OptHashPosVector D => drainLevel count level space := by
  induction count generalizing level with
  | zero => exact Steady.refl spaceView
  | succ count ih =>
      let popped := level.pop NodeDistPair.distance
      have hpush : Steady spaceView spaceView
          (fun space : WorkSpace (List Call) D => { space with
            sptQueue := space.sptQueue.insert NodeDistPair.distance popped.1 })
          fun space : WorkSpace OptHashPosVector D => { space with
            sptQueue := space.sptQueue.insert NodeDistPair.distance popped.1 } :=
        ⟨fun _ => rfl, fun _ _ => rfl⟩
      exact hpush.comp (ih popped.2)

theorem report_steady (searchDeleted : Bool) (gnode : NodeDistPair D) :
    Steady iteratingView iteratingView
      (fun state : Iterating (List Call) D => report index searchDeleted gnode state)
      fun state : Iterating OptHashPosVector D => report index searchDeleted gnode state := by
  constructor
  · intro state
    dsimp only [report]
    split <;> rfl
  · intro state status
    dsimp only [report]
    split <;> rfl

/-- What `visit` makes of an answer of the table. -/
def answered {S : Type} (space : WorkSpace S D) (pair : NodeDistPair D) (there : Bool)
    (status : S) : Bool × WorkSpace S D :=
  if there then (false, { space with nodeCheckStatus := status })
  else
    (true, { space with
      nodeCheckStatus := status
      ngQueue := space.ngQueue.insert NodeDistPair.distance pair })

theorem answered_carry (table : List Call → Option OptHashPosVector)
    (space : WorkSpace (List Call) D) (pair : NodeDistPair D) (there : Bool) (log : List Call) :
    (spaceView.beside Bool).carry table (answered space pair there log) =
      (table log).map fun status => answered (spaceView.put space status) pair there status := by
  cases there <;> rfl

end Steps

/-! ## The search -/

section Search

variable (depth : Nat) {start : OptHashPosVector} (hstart : start.HoldsIds ∅)
  (index : BKTIndex) (metric : Metric D)

variable (start) in
omit [LinearOrder D] in
/-- `Reset` clears the table. -/
theorem reset_carries :
    Carries (tableAfter depth start) (spaceView (D := D)) spaceView
      (fun space => some (space.reset logVisited))
      fun space => some (space.reset (OptHashPosVector.visited depth)) := by
  intro space
  rw [Option.bind_some, View.carry, View.carry, Option.bind_map]
  change Option.map _ (tableAfter depth start (space.nodeCheckStatus ++ [.clear])) = _
  rw [tableAfter_clear, Option.map_map, Option.map_eq_bind]
  rfl

include hstart

/-- One call of `CheckAndSet`. -/
theorem visit_carries (pair : NodeDistPair D) :
    Carries (tableAfter depth start) spaceView (spaceView.beside Bool)
      (fun space => visit logVisited space pair)
      fun space => visit (visited depth) space pair := by
  intro space
  let idx := UInt32.ofInt pair.node
  let there := decide (idx ∈ recorded space.nodeCheckStatus)
  have hlogged : visit logVisited space pair =
      some (answered space pair there (space.nodeCheckStatus ++ [.checkAndSet idx])) := rfl
  dsimp only
  rw [hlogged, Option.bind_some, answered_carry, tableAfter_checkAndSet, View.carry]
  change _ = Option.bind (Option.map _ (tableAfter depth start space.nodeCheckStatus)) _
  cases htable : tableAfter depth start space.nodeCheckStatus with
  | none => rfl
  | some self =>
      have hvisit : visit (visited depth) (spaceView.put space self) pair =
          (checkAndSet depth self idx).map fun result =>
            answered (spaceView.put space self) pair result.1 result.2 := rfl
      rw [Option.bind_some, Option.map_some, Option.bind_some, hvisit]
      cases hcall : checkAndSet depth self idx with
      | none => rfl
      | some result =>
          obtain ⟨answer, after⟩ := result
          obtain ⟨hanswer, -⟩ := checkAndSet_record (holdsIds_tableAfter hstart htable) hcall
          have hsame : there = answer := hanswer.symm
          rw [hsame]
          cases answer <;> rfl

theorem visitLeaf_carries (pair : NodeDistPair D) :
    Carries (tableAfter depth start) spaceView spaceView
      (fun space => visitLeaf logVisited space pair)
      fun space => visitLeaf (visited depth) space pair := by
  apply (visit_carries depth hstart pair).map
  constructor
  · rintro ⟨new, space⟩
    cases new <;> rfl
  · rintro ⟨new, space⟩ status
    cases new <;> rfl

/-! ### The trees -/

theorem searchTreesStep_carries (limits : Nat) :
    Carries (tableAfter depth start) spaceView (spaceView.beside Bool)
      (fun space => searchTreesStep logVisited index metric limits space)
      fun space => searchTreesStep (visited depth) index metric limits space := by
  intro space
  let popped := space.sptQueue.pop NodeDistPair.distance
  let pair : NodeDistPair D := ⟨index.center popped.1.node, popped.1.distance⟩
  have hpop := setTrees_steady popped.2
  by_cases hleaf : index.isLeaf popped.1.node = true
  · have hstop : Steady spaceView (spaceView.beside Bool)
        (fun space : WorkSpace (List Call) D =>
          (decide (limits ≤ space.numberOfCheckedLeaves), space))
        fun space : WorkSpace OptHashPosVector D =>
          (decide (limits ≤ space.numberOfCheckedLeaves), space) :=
      ⟨fun _ => rfl, fun _ _ => rfl⟩
    apply ((hpop.before (visitLeaf_carries depth hstart pair)).map hstop).agree
    · exact if_pos hleaf
    · intro status
      exact if_pos hleaf
  · have hpush : Steady (spaceView.beside Bool) (spaceView.beside Bool)
        (fun pair : Bool × WorkSpace (List Call) D => (false, { pair.2 with
          sptQueue := (index.children popped.1.node).foldl (pushTree index metric)
            pair.2.sptQueue }))
        fun pair : Bool × WorkSpace OptHashPosVector D => (false, { pair.2 with
          sptQueue := (index.children popped.1.node).foldl (pushTree index metric)
            pair.2.sptQueue }) :=
      ⟨fun _ => rfl, fun _ _ => rfl⟩
    apply ((hpop.before (visit_carries depth hstart pair)).map hpush).agree
    · exact if_neg hleaf
    · intro status
      exact if_neg hleaf

theorem searchTrees_carries (limits fuel : Nat) :
    Carries (tableAfter depth start) spaceView spaceView
      (fun space => searchTrees logVisited index metric limits fuel space)
      fun space => searchTrees (visited depth) index metric limits fuel space := by
  induction fuel with
  | zero => exact carries_none _ _ _
  | succ fuel ih =>
      have hnext : ∀ stop : Bool, Carries (tableAfter depth start) spaceView spaceView
          (fun space => if stop then some space
            else searchTrees logVisited index metric limits fuel space)
          fun space => if stop then some space
            else searchTrees (visited depth) index metric limits fuel space :=
        fun _ => Carries.ite (fun _ _ => Iff.rfl) (Steady.refl spaceView).carries ih
      exact Carries.ite (fun _ _ => Iff.rfl) (Steady.refl spaceView).carries
        ((searchTreesStep_carries depth hstart index metric limits).bind (Carries.beside hnext))

/-! ### The start of a search -/

theorem expandLevel_carries (count : Nat) (level : Heap (NodeDistPair D)) :
    Carries (tableAfter depth start) spreadingView spreadingView
      (fun state => expandLevel logVisited index metric count level state)
      fun state => expandLevel (visited depth) index metric count level state := by
  induction count generalizing level with
  | zero => exact (Steady.refl spreadingView).carries
  | succ count ih =>
      intro state
      let popped := level.pop NodeDistPair.distance
      by_cases hleaf : index.isLeaf popped.1.node = true
      · have hpush : Steady spreadingView spreadingView
            (fun state : Spreading (List Call) D => { state with
              space := { state.space with
                sptQueue := state.space.sptQueue.insert NodeDistPair.distance popped.1 } })
            fun state : Spreading OptHashPosVector D => { state with
              space := { state.space with
                sptQueue := state.space.sptQueue.insert NodeDistPair.distance popped.1 } } :=
          ⟨fun _ => rfl, fun _ _ => rfl⟩
        apply (hpush.before (ih popped.2)).agree
        · exact if_pos hleaf
        · intro status
          exact if_pos hleaf
      · have hspace : Steady spreadingView spaceView
            (fun state : Spreading (List Call) D => state.space)
            fun state : Spreading OptHashPosVector D => state.space :=
          ⟨fun _ => rfl, fun _ _ => rfl⟩
        -- The other queue is what it was before the call.
        have hback : Steady (spaceView.beside Bool) spreadingView
            (fun pair : Bool × WorkSpace (List Call) D => ⟨state.queue, pair.2⟩)
            fun pair : Bool × WorkSpace OptHashPosVector D => ⟨state.queue, pair.2⟩ :=
          ⟨fun _ => rfl, fun _ _ => rfl⟩
        have hspread := hback.comp
          (Steady.foldl (spread_steady index metric) (index.children popped.1.node))
        apply ((hspace.before (visit_carries depth hstart
          ⟨index.center popped.1.node, popped.1.distance⟩)).bind
            (hspread.before (ih popped.2))).agree
        · exact if_neg hleaf
        · intro status
          exact if_neg hleaf

/-- The breadth-first start in one tree, after its first level. -/
theorem expandFirst_carries :
    Carries (tableAfter depth start) spreadingView spaceView
      (fun first => (expandLevel logVisited index metric first.queue.count first.queue
        ⟨bfsQueue metric, first.space⟩).map fun second =>
          drainLevel second.queue.count second.queue second.space)
      fun first => (expandLevel (visited depth) index metric first.queue.count first.queue
        ⟨bfsQueue metric, first.space⟩).map fun second =>
          drainLevel second.queue.count second.queue second.space := by
  intro first
  have hfresh : Steady spreadingView spreadingView
      (fun state : Spreading (List Call) D => ⟨bfsQueue metric, state.space⟩)
      fun state : Spreading OptHashPosVector D => ⟨bfsQueue metric, state.space⟩ :=
    ⟨fun _ => rfl, fun _ _ => rfl⟩
  have hdrain : Steady spreadingView spaceView
      (fun second : Spreading (List Call) D =>
        drainLevel second.queue.count second.queue second.space)
      fun second : Spreading OptHashPosVector D =>
        drainLevel second.queue.count second.queue second.space :=
    ⟨fun second => (drainLevel_steady second.queue.count second.queue).log second.space,
      fun second => (drainLevel_steady second.queue.count second.queue).put second.space⟩
  apply ((hfresh.before (expandLevel_carries depth hstart index metric first.queue.count
    first.queue)).map hdrain).agree
  · rfl
  · intro status
    rfl

theorem initTree_carries (root : Int) :
    Carries (tableAfter depth start) spaceView spaceView
      (fun space => initTree logVisited index metric space root)
      fun space => initTree (visited depth) index metric space root := by
  intro space
  unfold initTree
  split
  · apply (setTrees_steady (pushTree index metric space.sptQueue root)).carries.agree
    · rfl
    · intro status
      rfl
  · split
    · have hbegin : Steady spaceView spreadingView
          (fun space : WorkSpace (List Call) D => ⟨bfsQueue metric, space⟩)
          fun space : WorkSpace OptHashPosVector D => ⟨bfsQueue metric, space⟩ :=
        ⟨fun _ => rfl, fun _ _ => rfl⟩
      have hfirst := hbegin.comp
        (Steady.foldl (spread_steady index metric) (index.children root))
      exact hfirst.before (expandFirst_carries depth hstart index metric) space
    · apply (setTrees_steady ((index.children root).foldl (pushTree index metric)
        space.sptQueue)).carries.agree
      · rfl
      · intro status
        rfl

theorem startSearch_carries (fuel : Nat) :
    Carries (tableAfter depth start) spaceView spaceView
      (fun space => startSearch logVisited index metric fuel space)
      fun space => startSearch (visited depth) index metric fuel space :=
  (Carries.foldlM (initTree_carries depth hstart index metric) index.treeStart).bind
    (searchTrees_carries depth hstart index metric index.initialDynamicPivots fuel)

/-! ### The loop -/

theorem expandRow_carries (id : Int) :
    Carries (tableAfter depth start) spaceView spaceView
      (fun space => expandRow logVisited index metric space id)
      fun space => expandRow (visited depth) index metric space id :=
  Carries.foldlM (fun nn => visitLeaf_carries depth hstart ⟨nn, metric.distance nn⟩)
    (index.neighbors id)

theorem catchUp_carries (fuel : Nat) :
    Carries (tableAfter depth start) spaceView spaceView
      (fun space => catchUp logVisited index metric fuel space)
      fun space => catchUp (visited depth) index metric fuel space := by
  -- The limit is a number of leaves, which both workspaces have in common.
  have hsearch : Carries (tableAfter depth start) spaceView spaceView
      (fun space => searchTrees logVisited index metric
        (index.otherDynamicPivots + space.numberOfCheckedLeaves) fuel space)
      fun space => searchTrees (visited depth) index metric
        (index.otherDynamicPivots + space.numberOfCheckedLeaves) fuel space := by
    intro space
    apply (searchTrees_carries depth hstart index metric
      (index.otherDynamicPivots + space.numberOfCheckedLeaves) fuel).agree
    · rfl
    · intro status
      rfl
  exact Carries.ite (fun _ _ => Iff.rfl) hsearch (Steady.refl spaceView).carries

theorem iterativeTurn_carries (searchDeleted : Bool) (fuel : Nat) :
    Carries (tableAfter depth start) iteratingView iteratingView
      (fun state => iterativeTurn logVisited index metric searchDeleted fuel state)
      fun state => iterativeTurn (visited depth) index metric searchDeleted fuel state := by
  intro state
  let popped := state.space.ngQueue.pop NodeDistPair.distance
  have hpop : Steady iteratingView iteratingView
      (fun state : Iterating (List Call) D =>
        { state with space := { state.space with ngQueue := popped.2 } })
      fun state : Iterating OptHashPosVector D =>
        { state with space := { state.space with ngQueue := popped.2 } } :=
    ⟨fun _ => rfl, fun _ _ => rfl⟩
  have hreport := hpop.comp (report_steady index searchDeleted popped.1)
  let reported := report index searchDeleted popped.1
    { state with space := { state.space with ngQueue := popped.2 } }
  have hspace : Steady iteratingView spaceView
      (fun state : Iterating (List Call) D => { state.space with
        ngQueue := pushDuplicates index metric searchDeleted popped.1.node state.space.ngQueue })
      fun state : Iterating OptHashPosVector D => { state.space with
        ngQueue := pushDuplicates index metric searchDeleted popped.1.node
          state.space.ngQueue } :=
    ⟨fun _ => rfl, fun _ _ => rfl⟩
  -- The results and their number are settled before the table is looked at.
  have hback : Steady spaceView iteratingView
      (fun space : WorkSpace (List Call) D =>
        (⟨space, reported.results, reported.count⟩ : Iterating (List Call) D))
      fun space : WorkSpace OptHashPosVector D =>
        (⟨space, reported.results, reported.count⟩ : Iterating OptHashPosVector D) :=
    ⟨fun _ => rfl, fun _ _ => rfl⟩
  have hrest := ((hreport.comp hspace).before
    (expandRow_carries depth hstart index metric popped.1.node)).bind
      ((catchUp_carries depth hstart index metric fuel).map hback)
  apply hrest.agree
  · rfl
  · intro status
    have hput := hreport.put state status
    have hresults : (report index searchDeleted popped.1
        { iteratingView.put state status with
          space := { (iteratingView.put state status).space with ngQueue := popped.2 } }).results =
            reported.results :=
      (congrArg Iterating.results hput).symm
    have hcount : (report index searchDeleted popped.1
        { iteratingView.put state status with
          space := { (iteratingView.put state status).space with ngQueue := popped.2 } }).count =
            reported.count :=
      (congrArg Iterating.count hput).symm
    dsimp only
    rw [← hresults, ← hcount]
    rfl

theorem iterativeLoop_carries (searchDeleted : Bool) (batch fuel rounds : Nat) :
    Carries (tableAfter depth start) iteratingView iteratingView
      (fun state => iterativeLoop logVisited index metric searchDeleted batch fuel rounds state)
      fun state =>
        iterativeLoop (visited depth) index metric searchDeleted batch fuel rounds state := by
  induction rounds with
  | zero => exact carries_none _ _ _
  | succ rounds ih =>
      have hnext : Carries (tableAfter depth start) iteratingView iteratingView
          (fun state => if batch ≤ state.count then some state
            else iterativeLoop logVisited index metric searchDeleted batch fuel rounds state)
          fun state => if batch ≤ state.count then some state
            else iterativeLoop (visited depth) index metric searchDeleted batch fuel rounds
              state :=
        Carries.ite (fun _ _ => Iff.rfl) (Steady.refl iteratingView).carries ih
      exact Carries.ite (fun _ _ => Iff.rfl) (Steady.refl iteratingView).carries
        ((iterativeTurn_carries depth hstart index metric searchDeleted fuel).bind hnext)

/-! ### The iterator -/

theorem searchIndexIterative_carries (searchDeleted : Bool) (batch fuel : Nat) (isFirst : Bool)
    (results : QueryResultSet D) :
    Carries (tableAfter depth start) spaceView searchedView
      (fun space => searchIndexIterative logVisited index metric searchDeleted batch fuel isFirst
        space results)
      fun space => searchIndexIterative (visited depth) index metric searchDeleted batch fuel
        isFirst space results := by
  have hbegin : Carries (tableAfter depth start) spaceView spaceView
      (fun space => if isFirst then startSearch logVisited index metric fuel space
        else some space)
      fun space => if isFirst then startSearch (visited depth) index metric fuel space
        else some space := by
    exact Carries.ite (fun _ _ => Iff.rfl) (startSearch_carries depth hstart index metric fuel)
      (Steady.refl spaceView).carries
  have henter : Steady spaceView iteratingView
      (fun space : WorkSpace (List Call) D => (⟨space, results, 0⟩ : Iterating (List Call) D))
      fun space : WorkSpace OptHashPosVector D =>
        (⟨space, results, 0⟩ : Iterating OptHashPosVector D) :=
    ⟨fun _ => rfl, fun _ _ => rfl⟩
  have hsort : Steady iteratingView searchedView
      (fun state : Iterating (List Call) D => (state.space, state.results.sortResult))
      fun state : Iterating OptHashPosVector D => (state.space, state.results.sortResult) :=
    ⟨fun _ => rfl, fun _ _ => rfl⟩
  exact hbegin.bind ((henter.before
    (iterativeLoop_carries depth hstart index metric searchDeleted batch fuel fuel)).map hsort)

theorem next_carries (searchDeleted : Bool) (fuel : Nat) :
    Carries (tableAfter depth start) iteratorView (iteratorView.beside (Option (BasicResult D)))
      (fun iter => iter.next logVisited index metric searchDeleted fuel)
      fun iter => iter.next (visited depth) index metric searchDeleted fuel := by
  intro iter
  have hspace : Steady iteratorView spaceView
      (fun iter : ResultIterator (List Call) D => iter.space.resetResult)
      fun iter : ResultIterator OptHashPosVector D => iter.space.resetResult :=
    ⟨fun _ => rfl, fun _ _ => rfl⟩
  have hanswer : Steady searchedView (iteratorView.beside (Option (BasicResult D)))
      (fun state : WorkSpace (List Call) D × QueryResultSet D =>
        (if (state.2.results 0).vid < 0 then none else some (state.2.results 0),
          (⟨state.1, state.2, false⟩ : ResultIterator (List Call) D)))
      fun state : WorkSpace OptHashPosVector D × QueryResultSet D =>
        (if (state.2.results 0).vid < 0 then none else some (state.2.results 0),
          (⟨state.1, state.2, false⟩ : ResultIterator OptHashPosVector D)) :=
    ⟨fun _ => rfl, fun _ _ => rfl⟩
  apply ((hspace.before (searchIndexIterative_carries depth hstart index metric searchDeleted 1
    fuel iter.isFirstResult (iter.queryResult.reset metric.maxDist))).map hanswer).agree
  · rfl
  · intro status
    rfl

theorem nexts_carries (searchDeleted : Bool) (fuel calls : Nat) :
    Carries (tableAfter depth start) iteratorView
      (iteratorView.beside (List (Option (BasicResult D))))
      (fun iter => iter.nexts logVisited index metric searchDeleted fuel calls)
      fun iter => iter.nexts (visited depth) index metric searchDeleted fuel calls := by
  induction calls with
  | zero => exact Steady.carries ⟨fun _ => rfl, fun _ _ => rfl⟩
  | succ calls ih =>
      have hcons : ∀ answer : Option (BasicResult D),
          Steady (iteratorView.beside (List (Option (BasicResult D))))
            (iteratorView.beside (List (Option (BasicResult D))))
            (fun pair : List (Option (BasicResult D)) × ResultIterator (List Call) D =>
              (answer :: pair.1, pair.2))
            fun pair : List (Option (BasicResult D)) × ResultIterator OptHashPosVector D =>
              (answer :: pair.1, pair.2) :=
        fun _ => ⟨fun _ => rfl, fun _ _ => rfl⟩
      exact (next_carries depth hstart index metric searchDeleted fuel).bind
        (Carries.beside fun answer => ih.map (hcons answer))

theorem scanAll_carries (fuel : Nat) (scans : List (Scan D)) :
    Carries (tableAfter depth start) spaceView
      (spaceView.beside (List (List (Option (BasicResult D)))))
      (fun space => scanAll logVisited index fuel scans space)
      fun space => scanAll (visited depth) index fuel scans space := by
  induction scans with
  | nil => exact Steady.carries ⟨fun _ => rfl, fun _ _ => rfl⟩
  | cons scan rest ih =>
      have hiter : Steady spaceView iteratorView
          (fun space : WorkSpace (List Call) D =>
            (⟨space, ⟨1, fun _ => BasicResult.blank scan.metric.maxDist⟩, true⟩ :
              ResultIterator (List Call) D))
          fun space : WorkSpace OptHashPosVector D =>
            (⟨space, ⟨1, fun _ => BasicResult.blank scan.metric.maxDist⟩, true⟩ :
              ResultIterator OptHashPosVector D) :=
        ⟨fun _ => rfl, fun _ _ => rfl⟩
      have hspace : Steady iteratorView spaceView
          (fun iter : ResultIterator (List Call) D => iter.space)
          fun iter : ResultIterator OptHashPosVector D => iter.space :=
        ⟨fun _ => rfl, fun _ _ => rfl⟩
      have hcons : ∀ answers : List (Option (BasicResult D)),
          Steady (spaceView.beside (List (List (Option (BasicResult D)))))
            (spaceView.beside (List (List (Option (BasicResult D)))))
            (fun pair : List (List (Option (BasicResult D))) × WorkSpace (List Call) D =>
              (answers :: pair.1, pair.2))
            fun pair : List (List (Option (BasicResult D))) × WorkSpace OptHashPosVector D =>
              (answers :: pair.1, pair.2) :=
        fun _ => ⟨fun _ => rfl, fun _ _ => rfl⟩
      have hscan := hiter.before (nexts_carries depth hstart index scan.metric
        scan.searchDeleted fuel scan.calls)
      exact (reset_carries depth start).bind (hscan.bind
        (Carries.beside fun answers => (hspace.before ih).map (hcons answers)))

end Search

/-! ## Scans -/

/-- The calls that some scans make of their table, if every answer is that of the ids checked. -/
def scanCalls (index : BKTIndex) (fuel : Nat) (scans : List (Scan D)) (maxDist : D)
    (maxCheck : Nat) : Option (List Call) :=
  (scanAll logVisited index fuel scans (WorkSpace.init [] maxDist maxCheck)).map
    fun (_, space) => space.nodeCheckStatus

section Scans

variable {index : BKTIndex} {fuel : Nat} {scans : List (Scan D)} {maxDist : D} {maxCheck : Nat}

/-- Scans with the table are scans on a log with the table that its calls lead to. -/
theorem scanAll_visited {answers : List (List (Option (BasicResult D)))}
    {space : WorkSpace (List Call) D}
    (hlog : scanAll logVisited index fuel scans (WorkSpace.init [] maxDist maxCheck) =
      some (answers, space)) {start : OptHashPosVector} (hstart : start.HoldsIds ∅) (depth : Nat) :
    scanAll (visited depth) index fuel scans (WorkSpace.init start maxDist maxCheck) =
      (tableAfter depth start space.nodeCheckStatus).map fun status =>
        (answers, spaceView.put space status) := by
  have hcarries := scanAll_carries depth hstart index fuel scans
    (WorkSpace.init [] maxDist maxCheck)
  dsimp only at hcarries
  rw [hlog] at hcarries
  exact hcarries.symm

variable (fuel maxCheck) in
/-- Scans return exactly if each call that they make of the hash table settles, after no more
rounds than there are nodes and samples. They leave the table that these calls lead to, and a scan
that has more calls than there are samples comes to its end. -/
theorem scans_return_iff (hashExp : Nat) {samples : Nat} (layout : index.Layout samples)
    (hsamples : samples < 2 ^ 31)
    (hinitial : 0 < index.initialDynamicPivots) (hpivots : 0 < index.otherDynamicPivots)
    (hnear : ∀ scan ∈ scans, scan.metric.maxDist = maxDist ∧
      ∀ id ∈ BKTIndex.sampleIds samples, scan.metric.distance id < maxDist)
    (hcheck : 0 < maxCheck) (hfits : shifts maxCheck + hashExp ≤ 29)
    (hng : samples ≤ maxCheck * 30) (hspt : index.treeRoots.length ≤ maxCheck * 10)
    (htrees : index.treeRoots.length < fuel) (hrounds : samples < fuel) :
    ∃ calls, scanCalls index fuel scans maxDist maxCheck = some calls ∧
      ((∃ depth result, scanAll (visited depth) index fuel scans
          (WorkSpace.init (OptHashPosVector.init maxCheck hashExp hfits) maxDist maxCheck) =
            some result) ↔
        (OptHashPosVector.init maxCheck hashExp hfits).RunSettles calls) ∧
      ∀ depth answers after,
        scanAll (visited depth) index fuel scans
          (WorkSpace.init (OptHashPosVector.init maxCheck hashExp hfits) maxDist maxCheck) =
            some (answers, after) →
        tableAfter depth (OptHashPosVector.init maxCheck hashExp hfits) calls =
            some after.nodeCheckStatus ∧
          List.Forall₂ (fun scan answers => Enumerates index samples scan answers ∧
            (samples < scan.calls → none ∈ answers)) scans answers := by
  have hlawful := logVisited_lawful hsamples
  have hready : (WorkSpace.init [] maxDist maxCheck).Ready index samples maxDist
      (LogsSamples samples) :=
    WorkSpace.ready_init ⟨rfl, Finset.empty_subset _⟩ maxDist hcheck hng hspt
  obtain ⟨⟨answers, space⟩, hlog⟩ := hready.scanAll_returns logVisited_total hlawful layout
    hinitial hpivots htrees hrounds hnear
  have henumerates := hready.scanAll layout hlawful hinitial hpivots hnear hlog
  refine ⟨space.nodeCheckStatus, ?_, ⟨?_, ?_⟩, ?_⟩
  · rw [scanCalls, hlog]
    rfl
  · rintro ⟨depth, result, hscans⟩
    rw [scanAll_visited hlog (holdsIds_init hfits) depth] at hscans
    obtain ⟨last, htable, -⟩ := Option.map_eq_some_iff.mp hscans
    obtain ⟨⟨given, after⟩, hrun, -⟩ := Option.map_eq_some_iff.mp htable
    exact runSettles_of_returns hrun
  · intro hsettles
    obtain ⟨depth, given, last, hrun⟩ := hsettles.returns
    refine ⟨depth, (answers, spaceView.put space last), ?_⟩
    rw [scanAll_visited hlog (holdsIds_init hfits) depth, tableAfter, hrun]
    rfl
  · intro depth others after hscans
    rw [scanAll_visited hlog (holdsIds_init hfits) depth] at hscans
    obtain ⟨last, htable, heq⟩ := Option.map_eq_some_iff.mp hscans
    obtain ⟨rfl, rfl⟩ := Prod.mk.inj heq
    refine ⟨htable, ?_⟩
    apply henumerates.imp
    intro scan given hgiven
    exact ⟨hgiven, hgiven.exhausts⟩

/-- Scans with more calls than there are samples, without and with deleted ones. -/
def longScans : List (Scan Nat) := [⟨smallMetric, false, 4⟩, ⟨smallMetric, true, 5⟩]

theorem shifts_one : shifts 1 + 2 ≤ 29 := by decide

theorem scans_return_iff_long :
    (scanAll (visited 3) smallIndex 8 longScans smallSpace).isSome = true ∧
      (∀ scan ∈ longScans, 3 < scan.calls) ∧
      ∃ calls, scanCalls smallIndex 8 longScans 100 1 = some calls ∧
        (OptHashPosVector.init 1 2 shifts_one).RunSettles calls ∧
        ∃ answers after,
          scanAll (visited 3) smallIndex 8 longScans smallSpace = some (answers, after) ∧
          tableAfter 3 (OptHashPosVector.init 1 2 shifts_one) calls = some after.nodeCheckStatus ∧
          List.Forall₂ (fun scan answers => Enumerates smallIndex 3 scan answers ∧
            (3 < scan.calls → none ∈ answers)) longScans answers := by
  have hreturns : (scanAll (visited 3) smallIndex 8 longScans smallSpace).isSome = true := by
    decide +kernel
  obtain ⟨calls, hcalls, hiff, hanswers⟩ := scans_return_iff 8 1 2 smallLayout (by decide)
    (by decide) (by decide) (by decide : ∀ scan ∈ longScans, scan.metric.maxDist = 100 ∧
      ∀ id ∈ BKTIndex.sampleIds 3, scan.metric.distance id < 100)
    (by decide) shifts_one (by decide) (by decide) (by decide) (by decide)
  refine ⟨hreturns, by decide, calls, hcalls, ?_⟩
  obtain ⟨⟨answers, after⟩, hscans⟩ := Option.isSome_iff_exists.mp hreturns
  exact ⟨hiff.mp ⟨3, _, hscans⟩, answers, after, hscans, hanswers 3 answers after hscans⟩

end Scans

end VBase.Sptag
