import VBase.Sptag.SearchStart

/-! # The results of an iterator

Whatever an iterator returns is a sample that is not deleted, with its distance, and never
the same one twice. When it returns nothing, it has returned all of them. It may be given a
workspace that other searches have used.
-/

namespace VBase.Sptag

variable {S D : Type} [LinearOrder D]

/-! ## A result set of one -/

open ArrayHeap in
theorem sink_one {α K : Type} [LinearOrder K] (key : α → K) (memory : Nat → α) :
    sink key 1 memory = memory := rfl

namespace QueryResultSet

variable {set : QueryResultSet D}

theorem sortResult_one (hone : set.resultNum = 1) :
    set.sortResult.results 0 = set.results 0 ∧ set.sortResult.resultNum = 1 := by
  refine ⟨?_, hone⟩
  rw [sortResult, hone]
  change set.results (Equiv.swap 0 0 0) = set.results 0
  rw [Equiv.swap_self, Equiv.refl_apply]

/-- The only place of an empty set goes to the first point that is near enough. -/
theorem addPoint_one {maxDist : D} (hone : set.resultNum = 1)
    (hblank : set.results 0 = BasicResult.blank maxDist) (id : Int) {dist : D}
    (hnear : dist < maxDist) :
    (set.addPoint id dist).2.results 0 = ⟨id, dist⟩ ∧ (set.addPoint id dist).2.resultNum = 1 := by
  have hbetter : dist < (set.results 0).dist := by
    rw [hblank]
    exact hnear
  rw [addPoint, if_pos (Or.inl hbetter)]
  refine ⟨?_, hone⟩
  change ArrayHeap.sink _ set.resultNum _ 0 = _
  rw [hone, sink_one, Function.update_self]

omit [LinearOrder D] in
theorem reset_one (hone : set.resultNum = 1) (maxDist : D) :
    (set.reset maxDist).results 0 = BasicResult.blank maxDist ∧
      (set.reset maxDist).resultNum = 1 := by
  refine ⟨?_, hone⟩
  rw [reset]
  exact if_pos (by omega)

end QueryResultSet

section Iterator

variable {visited : VisitedSet S} {index : BKTIndex} {samples : Nat}
  {layout : index.Layout samples} {metric : Metric D} {searchDeleted : Bool}
  {holds : S → Finset Int → Prop} {account : Account} {fuel : Nat}

/-- The samples that the search reports. -/
def BKTIndex.reported (index : BKTIndex) (searchDeleted : Bool) (ids : Finset Int) : Finset Int :=
  ids.filter fun id => index.keeps searchDeleted id = true

/-- The search as it is between two rounds: either a sample waits or nothing is left. -/
structure Searching {index : BKTIndex} {samples : Nat} (layout : index.Layout samples)
    (metric : Metric D) (searchDeleted : Bool) (holds : S → Finset Int → Prop)
    (account : Account) (space : WorkSpace S D) : Prop where
  progress : Progress layout metric searchDeleted holds account space
  aside_eq : account.aside = ∅
  started_eq : account.started = index.starts.toFinset
  exhausts : space.ngQueue.nodes = ∅ → space.sptQueue.nodes = ∅

/-- When no sample waits, all were taken off. -/
theorem Searching.complete {space : WorkSpace S D}
    (hsearching : Searching layout metric searchDeleted holds account space)
    (hempty : space.ngQueue.nodes = ∅) :
    index.reported searchDeleted account.taken =
      index.reported searchDeleted (BKTIndex.sampleIds samples) := by
  have hfrontier := hsearching.progress.frontier
  rw [hsearching.exhausts hempty, hsearching.aside_eq, Finset.empty_union] at hfrontier
  have hgathered := hsearching.progress.gathered
  rw [hempty] at hgathered
  have hcenters : ∀ node, index.Traversed node → index.center node ∈ account.seen := by
    intro node hnode
    apply hsearching.progress.centers
    apply hfrontier.complete _ hnode
    intro start hstart
    rw [hsearching.started_eq]
    exact List.mem_toFinset.mpr hstart
  ext id
  rw [BKTIndex.reported, BKTIndex.reported, Finset.mem_filter, Finset.mem_filter]
  constructor
  · rintro ⟨htaken, hkeeps⟩
    exact ⟨hgathered.sample id (Finset.mem_union_left _ htaken), hkeeps⟩
  · rintro ⟨hsample, hkeeps⟩
    exact ⟨hgathered.complete hcenters hsample hkeeps, hkeeps⟩

theorem reported_insert_of_keeps {taken : Finset Int} {id : Int}
    (hkeeps : index.keeps searchDeleted id = true) :
    index.reported searchDeleted (insert id taken) =
      insert id (index.reported searchDeleted taken) := by
  rw [BKTIndex.reported, Finset.filter_insert, if_pos hkeeps, BKTIndex.reported]

theorem reported_insert_of_not {taken : Finset Int} {id : Int}
    (hkeeps : ¬ index.keeps searchDeleted id = true) :
    index.reported searchDeleted (insert id taken) = index.reported searchDeleted taken := by
  rw [BKTIndex.reported, Finset.filter_insert, if_neg hkeeps, BKTIndex.reported]

/-- The loop for one result goes on until a sample is reported or none waits. -/
theorem Searching.iterativeLoop (hlawful : visited.Lawful samples holds)
    (hpivots : 0 < index.otherDynamicPivots)
    (hnear : ∀ id ∈ BKTIndex.sampleIds samples, metric.distance id < metric.maxDist)
    {rounds : Nat} {state after : Iterating S D}
    (hsearching : Searching layout metric searchDeleted holds account state.space)
    (hcount : state.count = 0)
    (hrun : iterativeLoop visited index metric searchDeleted 1 fuel rounds state = some after) :
    ∃ account', Searching layout metric searchDeleted holds account' after.space ∧
      ((after.results = state.results ∧ after.space.ngQueue.nodes = ∅ ∧
          index.reported searchDeleted account'.taken =
            index.reported searchDeleted account.taken) ∨
        ∃ id ∈ BKTIndex.sampleIds samples, index.keeps searchDeleted id = true ∧
          id ∉ account.taken ∧
          after.results = (state.results.addPoint id (metric.distance id)).2 ∧
          index.reported searchDeleted account'.taken =
            insert id (index.reported searchDeleted account.taken)) := by
  induction rounds generalizing state account with
  | zero => cases hrun
  | succ rounds ih =>
      rw [VBase.Sptag.iterativeLoop] at hrun
      split at hrun
      next hempty =>
        obtain rfl := Option.some.inj hrun
        exact ⟨account, hsearching, Or.inl ⟨rfl, Heap.empty_iff.mp hempty, rfl⟩⟩
      next hsome =>
        obtain ⟨middle, hturn, hrest⟩ := Option.bind_eq_some_iff.mp hrun
        obtain ⟨id, hsample, hnew, ⟨between, hbetween, hadvances, hexhausts⟩, hresults⟩ :=
          hsearching.progress.iterativeTurn hlawful hpivots hnear (Bool.not_eq_true _ ▸ hsome)
            hturn
        have hmiddle : Searching layout metric searchDeleted holds between middle.space :=
          ⟨hbetween, hadvances.aside_eq.trans hsearching.aside_eq,
            hadvances.started_eq.trans hsearching.started_eq, hexhausts⟩
        have htaken : between.taken = insert id account.taken := hadvances.taken_eq
        by_cases hkeeps : index.keeps searchDeleted id = true
        · rw [if_pos hkeeps] at hresults
          obtain ⟨hresults, hcount'⟩ := Prod.mk.inj hresults
          rw [if_pos (by omega)] at hrest
          obtain rfl := Option.some.inj hrest
          refine ⟨between, hmiddle, Or.inr ⟨id, hsample, hkeeps, hnew, hresults, ?_⟩⟩
          rw [htaken, reported_insert_of_keeps hkeeps]
        · -- A deleted sample is taken off without being reported, and the loop goes on.
          rw [if_neg hkeeps] at hresults
          obtain ⟨hresults, hcount'⟩ := Prod.mk.inj hresults
          rw [if_neg (by omega)] at hrest
          obtain ⟨account', hafter, hcases⟩ := ih hmiddle (hcount'.trans hcount) hrest
          rw [htaken, reported_insert_of_not hkeeps, hresults] at hcases
          refine ⟨account', hafter, hcases.imp_right ?_⟩
          rintro ⟨other, hother, hkeeps', hnew', hend⟩
          exact ⟨other, hother, hkeeps', fun hmem => hnew' (Finset.mem_insert_of_mem hmem), hend⟩

/-! ## Next -/

/-- An iterator before its first call or between two calls. -/
structure Iterates {index : BKTIndex} {samples : Nat} (layout : index.Layout samples)
    (metric : Metric D) (searchDeleted : Bool) (holds : S → Finset Int → Prop)
    (account : Account) (iter : ResultIterator S D) : Prop where
  progress : Progress layout metric searchDeleted holds account iter.space
  aside_eq : account.aside = ∅
  resultNum_eq : iter.queryResult.resultNum = 1
  first : iter.isFirstResult = true → account.started = ∅
  later : iter.isFirstResult = false →
    Searching layout metric searchDeleted holds account iter.space

/-- The first call has to start the search; later ones go on from where it was. -/
theorem Iterates.begins (hlawful : visited.Lawful samples holds)
    (hinitial : 0 < index.initialDynamicPivots) {iter : ResultIterator S D}
    (hiterates : Iterates layout metric searchDeleted holds account iter) {begun : WorkSpace S D}
    (hbegin : (if iter.isFirstResult then startSearch visited index metric fuel
      iter.space.resetResult else some iter.space.resetResult) = some begun) :
    ∃ account', Searching layout metric searchDeleted holds account' begun ∧
      account'.taken = account.taken := by
  have hreset := hiterates.progress.setLeaves 0
  split at hbegin
  next hfirst =>
    obtain ⟨account', hafter, hadvances, hexhausts⟩ := hreset.startSearch hlawful hinitial
      hiterates.aside_eq (hiterates.first hfirst) rfl hbegin
    exact ⟨account', ⟨hafter, hadvances.aside_eq.trans hiterates.aside_eq,
      hadvances.started_eq, hexhausts⟩, hadvances.taken_eq⟩
  next hlater =>
    obtain rfl := Option.some.inj hbegin
    have hbefore := hiterates.later (Bool.not_eq_true _ ▸ hlater)
    exact ⟨account, ⟨hreset, hbefore.aside_eq, hbefore.started_eq, hbefore.exhausts⟩, rfl⟩

/-- What an answer says, given the samples returned before it and with it: a sample that is
new, or nothing when all were returned. -/
def Answers (index : BKTIndex) (samples : Nat) (metric : Metric D) (searchDeleted : Bool)
    (before after : Finset Int) : Option (BasicResult D) → Prop
  | none => before = index.reported searchDeleted (BKTIndex.sampleIds samples) ∧ after = before
  | some result =>
      result.vid ∈ index.reported searchDeleted (BKTIndex.sampleIds samples) ∧
        result.vid ∉ before ∧ result.dist = metric.distance result.vid ∧
        after = insert result.vid before

/-- One call gives an answer about the samples returned so far. -/
theorem Iterates.next (hlawful : visited.Lawful samples holds)
    (hinitial : 0 < index.initialDynamicPivots) (hpivots : 0 < index.otherDynamicPivots)
    (hnear : ∀ id ∈ BKTIndex.sampleIds samples, metric.distance id < metric.maxDist)
    {iter after : ResultIterator S D} {answer : Option (BasicResult D)}
    (hiterates : Iterates layout metric searchDeleted holds account iter)
    (hnext : iter.next visited index metric searchDeleted fuel = some (answer, after)) :
    ∃ account', Iterates layout metric searchDeleted holds account' after ∧
      Answers index samples metric searchDeleted (index.reported searchDeleted account.taken)
        (index.reported searchDeleted account'.taken) answer := by
  obtain ⟨⟨space, queryResult⟩, hsearch, hresult⟩ := Option.map_eq_some_iff.mp hnext
  obtain ⟨hanswer, rfl⟩ := Prod.mk.inj hresult
  obtain ⟨begun, hbegin, hloop⟩ := Option.bind_eq_some_iff.mp hsearch
  obtain ⟨state, hrun, hstate⟩ := Option.map_eq_some_iff.mp hloop
  obtain ⟨rfl, rfl⟩ := Prod.mk.inj hstate
  obtain ⟨between, hbetween, htaken⟩ := hiterates.begins hlawful hinitial hbegin
  obtain ⟨hblank, hone⟩ := QueryResultSet.reset_one hiterates.resultNum_eq metric.maxDist
  obtain ⟨account', hafter, hcases⟩ := hbetween.iterativeLoop hlawful hpivots hnear rfl hrun
  dsimp only at hcases
  rw [htaken] at hcases
  rcases hcases with ⟨hresults, hempty, hsame⟩ | ⟨id, hsample, hkeeps, hnew, hresults, hgrown⟩
  · obtain ⟨hsorted, hnum⟩ := QueryResultSet.sortResult_one (hresults ▸ hone)
    have hnegative : (BasicResult.blank metric.maxDist).vid < 0 := by
      change (-1 : Int) < 0
      decide
    rw [hsorted, hresults, hblank, if_pos hnegative] at hanswer
    subst hanswer
    refine ⟨account', ⟨hafter.progress, hafter.aside_eq, hnum, nofun, fun _ => hafter⟩, ?_, hsame⟩
    rw [← hsame]
    exact hafter.complete hempty
  · obtain ⟨hpoint, hnum⟩ :=
      QueryResultSet.addPoint_one hone hblank id (hnear id hsample)
    rw [← hresults] at hpoint hnum
    obtain ⟨hsorted, hnum'⟩ := QueryResultSet.sortResult_one hnum
    have hid : ¬ id < 0 := not_lt.mpr (BKTIndex.mem_sampleIds.mp hsample).1
    rw [hsorted, hpoint, if_neg hid] at hanswer
    subst hanswer
    refine ⟨account', ⟨hafter.progress, hafter.aside_eq, hnum', nofun, fun _ => hafter⟩, ?_, ?_,
      rfl, hgrown⟩
    · exact Finset.mem_filter.mpr ⟨hsample, hkeeps⟩
    · exact fun hmem => hnew (Finset.mem_filter.mp hmem).1

/-- Any number of calls. -/
theorem Iterates.nexts (hlawful : visited.Lawful samples holds)
    (hinitial : 0 < index.initialDynamicPivots) (hpivots : 0 < index.otherDynamicPivots)
    (hnear : ∀ id ∈ BKTIndex.sampleIds samples, metric.distance id < metric.maxDist)
    {calls : Nat} {iter after : ResultIterator S D} {answers : List (Option (BasicResult D))}
    (hiterates : Iterates layout metric searchDeleted holds account iter)
    (hrun : iter.nexts visited index metric searchDeleted fuel calls = some (answers, after)) :
    ∃ (account' : Account) (results : List (BasicResult D)) (idle : Nat),
      Iterates layout metric searchDeleted holds account' after ∧
      answers = results.map some ++ List.replicate idle none ∧
      (results.map BasicResult.vid).Nodup ∧
      (∀ result ∈ results,
        result.vid ∈ index.reported searchDeleted (BKTIndex.sampleIds samples) ∧
        result.vid ∉ index.reported searchDeleted account.taken ∧
        result.dist = metric.distance result.vid) ∧
      (0 < idle → index.reported searchDeleted account.taken ∪
          (results.map BasicResult.vid).toFinset =
        index.reported searchDeleted (BKTIndex.sampleIds samples)) := by
  induction calls generalizing iter account answers with
  | zero =>
      obtain ⟨rfl, rfl⟩ := Prod.mk.inj (Option.some.inj hrun)
      exact ⟨account, [], 0, hiterates, rfl, List.nodup_nil, fun _ hmem => absurd hmem
        List.not_mem_nil, fun hpos => absurd hpos (lt_irrefl 0)⟩
  | succ calls ih =>
      obtain ⟨⟨answer, middle⟩, hnext, hrest⟩ := Option.bind_eq_some_iff.mp hrun
      obtain ⟨⟨others, last⟩, hothers, hends⟩ := Option.map_eq_some_iff.mp hrest
      obtain ⟨rfl, rfl⟩ := Prod.mk.inj hends
      obtain ⟨between, hbetween, hstep⟩ :=
        hiterates.next hlawful hinitial hpivots hnear hnext
      obtain ⟨account', results, idle, hafter, rfl, hnodup, hresults, hidle⟩ :=
        ih hbetween hothers
      cases answer with
      | none =>
          -- Everything was returned before, so that nothing more can come.
          obtain ⟨hall, hsame⟩ := hstep
          have hnone : results = [] := by
            apply List.eq_nil_iff_forall_not_mem.mpr
            intro result hresult
            obtain ⟨hmem, hnew, -⟩ := hresults result hresult
            rw [hsame, hall] at hnew
            exact hnew hmem
          subst hnone
          refine ⟨account', [], idle + 1, hafter, rfl, List.nodup_nil,
            fun _ hmem => absurd hmem List.not_mem_nil, fun _ => ?_⟩
          rw [List.map_nil, List.toFinset_nil, Finset.union_empty]
          exact hall
      | some result =>
          obtain ⟨hmem, hnew, hdist, hgrown⟩ := hstep
          rw [hgrown] at hresults hidle
          refine ⟨account', result :: results, idle, hafter, rfl, ?_, ?_, ?_⟩
          · rw [List.map_cons, List.nodup_cons]
            refine ⟨?_, hnodup⟩
            intro hrepeat
            obtain ⟨other, hother, hsame⟩ := List.mem_map.mp hrepeat
            apply (hresults other hother).2.1
            rw [hsame]
            exact Finset.mem_insert_self _ _
          · intro other hother
            rcases List.mem_cons.mp hother with rfl | hlater
            · exact ⟨hmem, hnew, hdist⟩
            · obtain ⟨hin, hout, hexact⟩ := hresults other hlater
              exact ⟨hin, fun hold => hout (Finset.mem_insert_of_mem hold), hexact⟩
          · intro hpos
            rw [List.map_cons, List.toFinset_cons, Finset.union_insert, ← Finset.insert_union]
            exact hidle hpos

end Iterator

end VBase.Sptag
