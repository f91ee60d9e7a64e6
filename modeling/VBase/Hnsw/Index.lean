import VBase.Foundation.Loop
import VBase.Foundation.BestFirst

/-! # The HNSW index

A loaded `HierarchicalNSW` and the greedy descent through its upper levels,
which picks the entry of every search of the base layer. Distances are taken in
a linear order. Link lists are arbitrary, except that their ids are elements.
-/

namespace VBase.Hnsw

/-- `HierarchicalNSW<float>` as `loadIndex` leaves it. Element data and distances
share one number type, as in the source. `maxlevel` is read only by loops that
stop at level 0, where the source's -1 for an empty index is the same as 0. Ids are
of 32 bits, and `searchBaseLayerST` reads them into an `int`. -/
structure HierarchicalNSW (D : Type) where
  maxElements : Nat
  curElementCount : Nat
  numDeleted : Nat
  maxlevel : Nat
  enterpointNode : Nat
  getLinklist0 : Nat → List Nat
  getLinklist : Nat → Nat → List Nat
  isMarkedDeleted : Nat → Bool
  getExternalLabel : Nat → UInt64
  getDataByInternalId : Nat → List D
  fstdistfunc : List D → List D → D
  maxElements_lt : maxElements < 2 ^ 31
  count_le : curElementCount ≤ maxElements
  enterpoint_lt : 0 < curElementCount → enterpointNode < curElementCount
  linklist0_lt : ∀ id, ∀ link ∈ getLinklist0 id, link < curElementCount
  linklist_lt : ∀ id level, ∀ link ∈ getLinklist id level, link < curElementCount

/-- `ef_`, which the constructor and `loadIndex` both set. -/
def ef : Nat := 10

namespace HierarchicalNSW

variable {D : Type} [LinearOrder D] (index : HierarchicalNSW D) (query : List D)

/-- The distance of an element to the query. -/
def dist (id : Nat) : D := index.fstdistfunc query (index.getDataByInternalId id)

/-- Reachability over the links of the base layer. -/
def Reachable (entry id : Nat) : Prop :=
  Relation.ReflTransGen (fun source target => target ∈ index.getLinklist0 source) entry id

/-- The position of the greedy walk. -/
structure Walk (D : Type) where
  curdist : D
  currObj : Nat

/-- One turn of the loop over a link list; the flag is `changed`. The source throws
`cand error` above `max_elements_`, which `link_le_maxElements` excludes. -/
def visitLink (walk : Walk D × Bool) (cand : Nat) : Walk D × Bool :=
  if index.dist query cand < walk.1.curdist then (⟨index.dist query cand, cand⟩, true)
  else walk

/-- One turn of `while (changed)`. The links are those of the element the turn began at. -/
def descendStep (level : Nat) (walk : Walk D) : Option (Walk D) :=
  let pass := (index.getLinklist walk.currObj level).foldl (index.visitLink query) (walk, false)
  if pass.2 then some pass.1 else none

/-- How many elements are closer than the walk. -/
def closerCount (walk : Walk D) : Nat :=
  ((Finset.range index.curElementCount).filter
    (fun id => index.dist query id < walk.curdist)).card

/-- The `while (changed)` loop of one level. -/
def descendLevel (level : Nat) (walk : Walk D) : Walk D :=
  Loop.run (index.closerCount query) (index.descendStep query level) walk

/-- The loop from `maxlevel_` down to level 1. -/
def descend : Nat → Walk D → Walk D
  | 0, walk => walk
  | level + 1, walk => descend level (index.descendLevel query (level + 1) walk)

/-- The element at which a search of the base layer starts. -/
def baseLayerEntry : Nat :=
  (index.descend query index.maxlevel
    ⟨index.dist query index.enterpointNode, index.enterpointNode⟩).currObj

omit [LinearOrder D] in
theorem link_le_maxElements {id level cand : Nat} (hcand : cand ∈ index.getLinklist id level) :
    ¬ index.maxElements < cand := by
  have hlt := index.linklist_lt id level cand hcand
  have hle := index.count_le
  omega

/-- A pass either leaves the walk alone or moves it strictly closer, to a link. -/
theorem foldl_visitLink (links : List Nat) (walk : Walk D × Bool) :
    links.foldl (index.visitLink query) walk = walk ∨
      ((links.foldl (index.visitLink query) walk).1.curdist < walk.1.curdist ∧
        ∃ link ∈ links, (links.foldl (index.visitLink query) walk).1 =
          ⟨index.dist query link, link⟩) := by
  induction links generalizing walk with
  | nil => exact Or.inl rfl
  | cons link rest ih =>
      rw [List.foldl_cons]
      rcases ih (index.visitLink query walk link) with hsame | ⟨hlt, cand, hcand, hmoved⟩
      · rw [hsame]
        unfold visitLink
        split
        next hcloser => exact Or.inr ⟨hcloser, link, List.mem_cons_self, rfl⟩
        next => exact Or.inl rfl
      · refine Or.inr ⟨lt_of_lt_of_le hlt ?_, cand, List.mem_cons_of_mem _ hcand, hmoved⟩
        unfold visitLink
        split
        next hcloser => exact hcloser.le
        next => exact le_rfl

theorem descendStep_some {level : Nat} {walk moved : Walk D}
    (hstep : index.descendStep query level walk = some moved) :
    moved.curdist < walk.curdist ∧
      ∃ link ∈ index.getLinklist walk.currObj level, moved = ⟨index.dist query link, link⟩ := by
  unfold descendStep at hstep
  rcases index.foldl_visitLink query (index.getLinklist walk.currObj level) (walk, false) with
    hsame | hmoved
  · simp [hsame] at hstep
  · simp only [Option.ite_none_right_eq_some, Option.some.injEq] at hstep
    rw [← hstep.2]
    exact hmoved

/-- Each turn has fewer closer elements left, so the descent terminates. -/
theorem descendStep_decreases (level : Nat) :
    Loop.Decreases (index.closerCount query) (index.descendStep query level) := by
  intro walk moved hstep
  obtain ⟨hlt, link, hlink, rfl⟩ := index.descendStep_some query hstep
  apply Finset.card_lt_card
  rw [Finset.ssubset_iff_of_subset]
  · refine ⟨link, ?_, ?_⟩
    · exact Finset.mem_filter.mpr
        ⟨Finset.mem_range.mpr (index.linklist_lt _ _ link hlink), hlt⟩
    · simp
  · intro id hid
    obtain ⟨hrange, hcloser⟩ := Finset.mem_filter.mp hid
    exact Finset.mem_filter.mpr ⟨hrange, lt_trans hcloser hlt⟩

/-- The loop of a level ends at a walk that none of its links improves. -/
theorem descendLevel_done (level : Nat) (walk : Walk D) :
    index.descendStep query level (index.descendLevel query level walk) = none :=
  Loop.run_done (index.descendStep_decreases query level) walk

theorem descend_currObj_lt (level : Nat) (walk : Walk D)
    (hwalk : walk.currObj < index.curElementCount) :
    (index.descend query level walk).currObj < index.curElementCount := by
  induction level generalizing walk with
  | zero => exact hwalk
  | succ level ih =>
      apply ih
      refine Loop.run_invariant (index.descendStep_decreases query (level + 1))
        (motive := fun walk => walk.currObj < index.curElementCount) ?_ walk hwalk
      intro before moved _ hstep
      obtain ⟨_, link, hlink, rfl⟩ := index.descendStep_some query hstep
      exact index.linklist_lt _ _ link hlink

theorem baseLayerEntry_lt (hcount : 0 < index.curElementCount) :
    index.baseLayerEntry query < index.curElementCount :=
  index.descend_currObj_lt query _ _ (index.enterpoint_lt hcount)

end HierarchicalNSW

end VBase.Hnsw
