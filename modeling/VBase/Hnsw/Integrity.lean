import VBase.Hnsw.Update

/-! # The integrity of an index under construction

What holds of an index between two calls: its lists are in order, the entry point is on
the highest level, labels and elements determine each other, and `num_deleted_` counts
the marks. Every operation keeps it. An operation refuses an argument before it changes
anything, and none of the internal checks of the source can fail.
-/

namespace VBase.Hnsw

open PriorityQueue Command

variable {Q : {T K : Type} → [LinearOrder K] → (T → K) → Type} [PriorityQueue Q]
variable {D : Type}

namespace Graph

/-- The entry point has the highest level, and only an empty index has none. -/
structure Entered (graph : Graph D) : Prop where
  of_none : graph.enterpointNode = none → graph.curElementCount = 0 ∧ graph.maxlevel = -1
  of_some : ∀ entry, graph.enterpointNode = some entry →
    ∃ maxLevel : Nat, graph.maxlevel = maxLevel ∧ graph.At maxLevel entry ∧
      ∀ id < graph.curElementCount, graph.elementLevels id ≤ maxLevel

/-- The elements with a deletion mark. -/
def deleted (graph : Graph D) : Finset Nat :=
  (Finset.range graph.curElementCount).filter fun id => graph.isMarkedDeleted id = true

structure Integrity (graph : Graph D) : Prop where
  linked : graph.Linked
  count_le : graph.curElementCount ≤ graph.maxElements
  entered : graph.Entered
  lookup_iff : ∀ label id, graph.labelLookup label = some id ↔
    id < graph.curElementCount ∧ graph.getExternalLabel id = label
  counted : graph.numDeleted = UInt64.ofNat graph.deleted.card
  stored : ∀ id < graph.curElementCount, (graph.getDataByInternalId id).length ≤ graph.dataSize

section

variable {graph after : Graph D} {id : Nat}

theorem mem_deleted : id ∈ graph.deleted ↔
    id < graph.curElementCount ∧ graph.isMarkedDeleted id = true := by
  rw [deleted, Finset.mem_filter, Finset.mem_range]

theorem hasDeleted_iff : graph.HasDeleted ↔ graph.deleted.Nonempty := by
  simp only [HasDeleted, Finset.Nonempty, mem_deleted]

/-- An index is in order from the start, if its parameters leave room for links. -/
theorem new_integrity (dataSize : Nat) (fstdistfunc : List D → List D → D) (maxElements : Capacity)
    {M : Nat} (hM : 0 < M) (hroom : M * 2 < 65536) (efConstruction : Nat) (memory : Memory D) :
    (new dataSize fstdistfunc maxElements M efConstruction memory).Integrity where
  linked :=
    { M_pos := hM
      ef_pos := lt_of_lt_of_le hM (Nat.le_max_right _ _)
      M_le := by
        intro level
        simp only [new, Mcurmax]
        split <;> omega
      room_lt := by
        intro level
        simp only [new, Mcurmax]
        split <;> omega
      lists := fun _ _ hat => absurd hat.1 (Nat.not_lt_zero _)
      pool := VisitedListPool.new_sound memory.marks }
  count_le := Nat.zero_le _
  entered := ⟨fun _ => ⟨rfl, rfl⟩, fun _ hentry => nomatch hentry⟩
  lookup_iff := by simp [new]
  counted := rfl
  stored := fun _ hid => absurd hid (Nat.not_lt_zero _)

theorem Relinked.deleted_eq {levels : Set Nat} (hrelinked : Relinked levels graph after) :
    after.deleted = graph.deleted := by
  ext id
  rw [mem_deleted, mem_deleted, hrelinked.marks, hrelinked.others]

/-- Only what a relinked graph shares with the old one matters beside its links. -/
theorem Integrity.relinked (hintegrity : graph.Integrity) {levels : Set Nat}
    (hrelinked : Relinked levels graph after) (hafter : after.Linked) : after.Integrity where
  linked := hafter
  count_le := by
    rw [hrelinked.others]
    exact hintegrity.count_le
  entered := by
    rw [hrelinked.others]
    exact ⟨hintegrity.entered.of_none, hintegrity.entered.of_some⟩
  lookup_iff := by
    rw [hrelinked.others]
    exact hintegrity.lookup_iff
  counted := by
    rw [hrelinked.deleted_eq, hrelinked.others]
    exact hintegrity.counted
  stored := by
    rw [hrelinked.others]
    exact hintegrity.stored

theorem Integrity.setData (hintegrity : graph.Integrity) (id : Nat) (dataPoint : List D) :
    (graph.setData id dataPoint).Integrity where
  linked := hintegrity.linked.setData id dataPoint
  count_le := hintegrity.count_le
  entered := ⟨hintegrity.entered.of_none, hintegrity.entered.of_some⟩
  lookup_iff := hintegrity.lookup_iff
  counted := hintegrity.counted
  stored := by
    intro other hother
    change (Function.update graph.getDataByInternalId id _ other).length ≤ graph.dataSize
    by_cases heq : other = id
    · rw [heq, Function.update_self]
      exact List.length_take_le _ _
    · rw [Function.update_of_ne heq]
      exact hintegrity.stored other hother

/-- The distance function does not matter. -/
theorem Integrity.withDistance (hintegrity : graph.Integrity) (fstdistfunc : List D → List D → D) :
    { graph with fstdistfunc := fstdistfunc }.Integrity where
  linked := ⟨hintegrity.linked.M_pos, hintegrity.linked.ef_pos, hintegrity.linked.M_le,
    hintegrity.linked.room_lt,
    fun level id hat =>
      have hlists := hintegrity.linked.lists level id hat
      ⟨hlists.length_le, hlists.nodup, hlists.ne_self, hlists.at_level⟩,
    hintegrity.linked.pool⟩
  count_le := hintegrity.count_le
  entered := ⟨hintegrity.entered.of_none, hintegrity.entered.of_some⟩
  lookup_iff := hintegrity.lookup_iff
  counted := hintegrity.counted
  stored := hintegrity.stored

theorem Integrity.lt_of_lookup (hintegrity : graph.Integrity) {label : UInt64}
    (hlookup : graph.labelLookup label = some id) : id < graph.curElementCount :=
  ((hintegrity.lookup_iff label id).mp hlookup).1

/-- Two graphs with the same elements, whatever their links and marks. -/
structure SameElements (graph after : Graph D) : Prop where
  dataSize : after.dataSize = graph.dataSize
  fstdistfunc : after.fstdistfunc = graph.fstdistfunc
  maxElements : after.maxElements = graph.maxElements
  count : after.curElementCount = graph.curElementCount
  labels : after.getExternalLabel = graph.getExternalLabel
  data : after.getDataByInternalId = graph.getDataByInternalId
  lookup : after.labelLookup = graph.labelLookup

theorem Relinked.sameElements {levels : Set Nat} (hrelinked : Relinked levels graph after) :
    SameElements graph after := by
  rw [hrelinked.others]
  exact ⟨rfl, rfl, rfl, rfl, rfl, rfl, rfl⟩

/-! ## Marks -/

theorem deleted_setLinklist (list : LinkList) (hid : id < graph.curElementCount) :
    (graph.setLinklist id 0 list).deleted =
      if list.isMarked then insert id graph.deleted else graph.deleted.erase id := by
  ext other
  rw [mem_deleted, isMarkedDeleted]
  by_cases heq : other = id
  · subst heq
    rw [setLinklist_self]
    cases list.isMarked <;> simp [hid, setLinklist]
  · rw [setLinklist_of_ne list fun hsame => heq hsame.1]
    cases list.isMarked <;> simp [heq, setLinklist, mem_deleted, isMarkedDeleted]

/-- A mark changes neither the links nor anything else. -/
theorem Integrity.setMark (hintegrity : graph.Integrity) {list : LinkList} {numDeleted : UInt64}
    (hid : id < graph.curElementCount) (hlinks : list.links = graph.links id 0)
    (hcounted : numDeleted = UInt64.ofNat (graph.setLinklist id 0 list).deleted.card) :
    ({ graph.setLinklist id 0 list with numDeleted := numDeleted } : Graph D).Integrity := by
  have hlists : graph.Lists 0 id list.links :=
    hlinks ▸ hintegrity.linked.lists 0 id ⟨hid, Nat.zero_le _⟩
  have hlinked := hintegrity.linked.setLinklist hlists
  exact
    { linked := ⟨hlinked.M_pos, hlinked.ef_pos, hlinked.M_le, hlinked.room_lt,
        fun level other hother =>
          have hother := hlinked.lists level other hother
          ⟨hother.length_le, hother.nodup, hother.ne_self, hother.at_level⟩, hlinked.pool⟩
      count_le := hintegrity.count_le
      entered := ⟨hintegrity.entered.of_none, hintegrity.entered.of_some⟩
      lookup_iff := hintegrity.lookup_iff
      counted := hcounted
      stored := hintegrity.stored }

theorem markDeletedInternal_yields (hintegrity : graph.Integrity)
    (hid : id < graph.curElementCount) (halive : graph.isMarkedDeleted id = false) :
    Yields (markDeletedInternal id) graph
      (fun _ after => after.Integrity ∧ after.deleted = insert id graph.deleted ∧
        SameElements graph after)
      (fun _ _ => False) := by
  have hdeleted := deleted_setLinklist (graph.getLinklistAtLevel id 0).mark hid
  rw [LinkList.isMarked_mark, if_pos rfl] at hdeleted
  simp only [markDeletedInternal, yields_bind, yields_get, halive, Bool.false_eq_true, if_false,
    yields_set]
  refine ⟨hintegrity.setMark hid (LinkList.links_mark _) ?_, hdeleted,
    ⟨rfl, rfl, rfl, rfl, rfl, rfl, rfl⟩⟩
  have hnew : id ∉ graph.deleted := by simp [mem_deleted, halive]
  rw [hdeleted, Finset.card_insert_of_notMem hnew, UInt64.ofNat_add, hintegrity.counted]
  rfl

theorem unmarkDeletedInternal_yields (hintegrity : graph.Integrity)
    (hid : id < graph.curElementCount) (hmarked : graph.isMarkedDeleted id = true) :
    Yields (unmarkDeletedInternal id) graph
      (fun _ after => after.Integrity ∧ after.deleted = graph.deleted.erase id ∧
        SameElements graph after)
      (fun _ _ => False) := by
  have hdeleted := deleted_setLinklist (graph.getLinklistAtLevel id 0).unmark hid
  rw [LinkList.isMarked_unmark, if_neg (by decide)] at hdeleted
  simp only [unmarkDeletedInternal, yields_bind, yields_get, hmarked, Bool.not_true,
    Bool.false_eq_true, if_false, yields_set]
  refine ⟨hintegrity.setMark hid (LinkList.links_unmark _) ?_, hdeleted,
    ⟨rfl, rfl, rfl, rfl, rfl, rfl, rfl⟩⟩
  have hcard := Finset.card_erase_add_one (mem_deleted.mpr ⟨hid, hmarked⟩)
  rw [hdeleted, hintegrity.counted, ← hcard, UInt64.ofNat_add]
  exact add_sub_cancel_right _ _

/-! ## Placing a new element -/

section

variable (graph) (label : UInt64) (dataPoint : List D) (curlevel : Nat)

theorem place_list_of_ne {other : Nat} (hne : other ≠ graph.curElementCount) (level : Nat) :
    (graph.place label dataPoint curlevel).getLinklistAtLevel other level =
      graph.getLinklistAtLevel other level :=
  if_neg fun heq => hne heq.1

theorem place_list_self {level : Nat} (hlevel : level ≤ curlevel) :
    (graph.place label dataPoint curlevel).getLinklistAtLevel graph.curElementCount level =
      LinkList.blank :=
  if_pos ⟨rfl, hlevel⟩

/-- The levels of the old elements stay, and the new one has its own. -/
theorem place_at_iff {level other : Nat} :
    (graph.place label dataPoint curlevel).At level other ↔
      graph.At level other ∨ other = graph.curElementCount ∧ level ≤ curlevel := by
  change other < graph.curElementCount + 1 ∧
    level ≤ Function.update graph.elementLevels graph.curElementCount curlevel other ↔ _
  by_cases heq : other = graph.curElementCount
  · subst heq
    simp [At]
  · rw [Function.update_of_ne heq, At]
    constructor
    · exact fun hat => Or.inl ⟨by omega, hat.2⟩
    · rintro (hat | hnew)
      · exact ⟨by omega, hat.2⟩
      · exact absurd hnew.1 heq

/-- The new element is not deleted. -/
theorem place_deleted : (graph.place label dataPoint curlevel).deleted = graph.deleted := by
  ext other
  rw [mem_deleted, mem_deleted, isMarkedDeleted]
  change other < graph.curElementCount + 1 ∧ _ ↔ _
  by_cases heq : other = graph.curElementCount
  · subst heq
    rw [place_list_self graph label dataPoint curlevel (Nat.zero_le _)]
    simp
  · rw [place_list_of_ne graph label dataPoint curlevel heq, isMarkedDeleted]
    exact and_congr_left fun _ => ⟨fun hlt => by omega, fun hlt => by omega⟩

end

variable {label : UInt64} {dataPoint : List D} {curlevel : Nat}

theorem Linked.place (hlinked : graph.Linked) :
    (graph.place label dataPoint curlevel).Linked where
  M_pos := hlinked.M_pos
  ef_pos := hlinked.ef_pos
  M_le := hlinked.M_le
  room_lt := hlinked.room_lt
  pool := hlinked.pool
  lists := by
    intro level other hother
    rcases (place_at_iff graph label dataPoint curlevel).mp hother with hold | ⟨rfl, hlevel⟩
    · have hlists := hlinked.lists level other hold
      rw [links, place_list_of_ne graph label dataPoint curlevel hold.1.ne level]
      exact ⟨hlists.length_le, hlists.nodup, hlists.ne_self, fun link hlink =>
        (place_at_iff graph label dataPoint curlevel).mpr (Or.inl (hlists.at_level link hlink))⟩
    · rw [links, place_list_self graph label dataPoint curlevel hlevel, LinkList.links_blank]
      exact ⟨Nat.zero_le _, List.nodup_nil, List.not_mem_nil, by simp⟩

theorem Linked.place_fresh (hlinked : graph.Linked) {level : Nat} (hlevel : level ≤ curlevel) :
    (graph.place label dataPoint curlevel).Fresh level graph.curElementCount where
  blank := place_list_self graph label dataPoint curlevel hlevel
  unlinked := by
    intro other hother
    rcases (place_at_iff graph label dataPoint curlevel).mp hother with hold | ⟨rfl, hlevel⟩
    · rw [links, place_list_of_ne graph label dataPoint curlevel hold.1.ne level]
      exact fun hlink => ((hlinked.closed level other hold _ hlink).1).false
    · rw [links, place_list_self graph label dataPoint curlevel hlevel, LinkList.links_blank]
      exact List.not_mem_nil

variable (dataPoint curlevel) in
theorem Integrity.place_lookup (hintegrity : graph.Integrity)
    (hnew : graph.labelLookup label = none) (other : UInt64) (slot : Nat) :
    (graph.place label dataPoint curlevel).labelLookup other = some slot ↔
      slot < graph.curElementCount + 1 ∧
        (graph.place label dataPoint curlevel).getExternalLabel slot = other := by
  change Function.update graph.labelLookup label (some graph.curElementCount) other = _ ↔
    _ ∧ Function.update graph.getExternalLabel graph.curElementCount label slot = other
  have hold := hintegrity.lookup_iff other slot
  by_cases hslot : slot = graph.curElementCount
  · subst hslot
    rw [Function.update_self]
    by_cases hlabel : other = label
    · subst hlabel
      simp
    · rw [Function.update_of_ne hlabel, hold]
      simp [Ne.symm hlabel]
  · rw [Function.update_of_ne hslot]
    by_cases hlabel : other = label
    · subst hlabel
      rw [hnew] at hold
      rw [Function.update_self, Option.some.injEq]
      constructor
      · exact fun heq => absurd heq.symm hslot
      · rintro ⟨hlt, heq⟩
        exact absurd (hold.mpr ⟨by omega, heq⟩) (by simp)
    · rw [Function.update_of_ne hlabel, hold]
      exact and_congr_left fun _ => ⟨fun hlt => by omega, fun hlt => by omega⟩

/-- A connected element may become the entry point. -/
theorem Integrity.enter (hintegrity : graph.Integrity) (hnew : graph.labelLookup label = none)
    (hroom : graph.curElementCount < graph.maxElements) {connected : Graph D}
    (hlinked : connected.Linked)
    (hrelinked : Relinked Set.univ (graph.place label dataPoint curlevel) connected)
    {entry maxLevel : Nat} (hentry : (graph.place label dataPoint curlevel).At maxLevel entry)
    (hold : ∀ other < graph.curElementCount, graph.elementLevels other ≤ maxLevel)
    (hlevel : curlevel ≤ maxLevel) :
    ({ connected with enterpointNode := some entry, maxlevel := maxLevel } : Graph D).Integrity := by
  have hdeleted : connected.deleted = graph.deleted :=
    hrelinked.deleted_eq.trans (place_deleted graph label dataPoint curlevel)
  refine ⟨⟨hlinked.M_pos, hlinked.ef_pos, hlinked.M_le, hlinked.room_lt, ?_, hlinked.pool⟩, ?_,
    ⟨by simp, ?_⟩, ?_, ?_, ?_⟩
  · intro level other hother
    have hlists := hlinked.lists level other hother
    exact ⟨hlists.length_le, hlists.nodup, hlists.ne_self, hlists.at_level⟩
  · rw [hrelinked.others]
    exact hroom
  · rintro _ heq
    obtain rfl := Option.some.inj heq
    refine ⟨maxLevel, rfl, hrelinked.at_iff.mpr hentry, ?_⟩
    intro other hother
    rw [hrelinked.others] at hother ⊢
    change Function.update graph.elementLevels graph.curElementCount curlevel other ≤ maxLevel
    by_cases hcur : other = graph.curElementCount
    · rwa [hcur, Function.update_self]
    · rw [Function.update_of_ne hcur]
      exact hold other (lt_of_le_of_ne (Nat.le_of_lt_succ hother) hcur)
  · rw [hrelinked.others]
    exact hintegrity.place_lookup dataPoint curlevel hnew
  · change connected.numDeleted = UInt64.ofNat connected.deleted.card
    rw [hdeleted, hrelinked.others]
    exact hintegrity.counted
  · rw [hrelinked.others]
    intro other hother
    change (Function.update graph.getDataByInternalId graph.curElementCount _ other).length ≤ _
    by_cases hcur : other = graph.curElementCount
    · rw [hcur, Function.update_self]
      exact List.length_take_le _ _
    · rw [Function.update_of_ne hcur]
      exact hintegrity.stored other (lt_of_le_of_ne (Nat.le_of_lt_succ hother) hcur)

theorem Integrity.placed (hintegrity : graph.Integrity)
    (hroom : graph.curElementCount < graph.maxElements) {entry maxLevel : Nat}
    (hentry : graph.At maxLevel entry) :
    Placed (graph.place label dataPoint curlevel) graph.curElementCount curlevel entry maxLevel where
  linked := hintegrity.linked.place
  count_le := hroom
  cur_lt := Nat.lt_succ_self _
  cur_level := Function.update_self _ _ _
  fresh := fun _ hlevel => hintegrity.linked.place_fresh hlevel
  entry := (place_at_iff graph label dataPoint curlevel).mpr (Or.inl hentry)
  entry_ne := hentry.1.ne

variable [LinearOrder D]

/-- A new element is added under the next id, unless a search on the way meets only deleted
elements. -/
theorem insertPoint_yields (hintegrity : graph.Integrity) (hnew : graph.labelLookup label = none)
    (hroom : graph.curElementCount < graph.maxElements) (draws : Draws) (dataPoint : List D)
    (level : Int) :
    Yields (insertPoint Q draws dataPoint label level) graph
      (fun _ after => after.Integrity ∧ after.deleted = graph.deleted ∧
        SameElements (graph.place label dataPoint
          (if 0 < level then level.toNat else draws.randomLevel)) after)
      (fun failure _ => failure = .undefined ∧ graph.HasDeleted) := by
  simp only [insertPoint, yields_bind, yields_get, if_neg (not_le.mpr hroom), yields_set]
  generalize (if 0 < level then level.toNat else draws.randomLevel) = curlevel
  have hcur : (graph.place label dataPoint curlevel).At curlevel graph.curElementCount :=
    (place_at_iff graph label dataPoint curlevel).mpr (Or.inr ⟨rfl, le_rfl⟩)
  cases hpoint : graph.enterpointNode with
  | none =>
      obtain ⟨hcount, hmaxlevel⟩ := hintegrity.entered.of_none hpoint
      have hfirst : graph.maxlevel < (curlevel : Int) := by omega
      simp only [yields_bind, yields_modify, if_pos hfirst, yields_pure]
      refine ⟨?_, place_deleted graph label dataPoint curlevel,
        ⟨rfl, rfl, rfl, rfl, rfl, rfl, rfl⟩⟩
      exact hintegrity.enter hnew hroom hintegrity.linked.place (Relinked.refl _ _) hcur
        (fun other hother => by omega) le_rfl
  | some entry =>
      obtain ⟨maxLevel, hmaxlevel, hentry, hlevels⟩ := hintegrity.entered.of_some entry hpoint
      have hplaced : Placed (graph.place label dataPoint curlevel) graph.curElementCount curlevel
        entry maxLevel := hintegrity.placed hroom hentry
      simp only [yields_bind, hmaxlevel]
      refine (connect_yields hplaced).imp ?_ ?_
      · rintro _ connected ⟨hlinked, hrelinked⟩
        have hsame := hrelinked.sameElements
        have hdeleted := hrelinked.deleted_eq.trans (place_deleted graph label dataPoint curlevel)
        split
        next hhigher =>
          refine ⟨hintegrity.enter hnew hroom hlinked hrelinked hcur
            (fun other hother => (hlevels other hother).trans (by omega)) le_rfl, hdeleted, ?_⟩
          exact ⟨hsame.dataSize, hsame.fstdistfunc, hsame.maxElements, hsame.count, hsame.labels,
            hsame.data, hsame.lookup⟩
        next hlower =>
          have hkept : connected = { connected with
              enterpointNode := some entry, maxlevel := maxLevel } := by
            rw [hrelinked.others]
            simp only [place, hpoint, hmaxlevel]
          refine ⟨?_, hdeleted, hsame⟩
          rw [hkept]
          exact hintegrity.enter hnew hroom hlinked hrelinked hplaced.entry hlevels (by omega)
      · rintro failure _ ⟨rfl, hdeleted⟩
        rw [hasDeleted_iff, place_deleted, ← hasDeleted_iff] at hdeleted
        exact ⟨rfl, hdeleted⟩

/-! ## New data -/

omit [LinearOrder D] in
theorem SameElements.setData (hsame : SameElements graph after) (id : Nat) (dataPoint : List D) :
    SameElements (graph.setData id dataPoint) (after.setData id dataPoint) where
  dataSize := hsame.dataSize
  fstdistfunc := hsame.fstdistfunc
  maxElements := hsame.maxElements
  count := hsame.count
  labels := hsame.labels
  data := by
    change Function.update _ _ _ = Function.update _ _ _
    rw [hsame.data, hsame.dataSize]
  lookup := hsame.lookup

omit [LinearOrder D] in
theorem SameElements.trans {final : Graph D} (hfirst : SameElements graph after)
    (hsecond : SameElements after final) : SameElements graph final where
  dataSize := hsecond.dataSize.trans hfirst.dataSize
  fstdistfunc := hsecond.fstdistfunc.trans hfirst.fstdistfunc
  maxElements := hsecond.maxElements.trans hfirst.maxElements
  count := hsecond.count.trans hfirst.count
  labels := hsecond.labels.trans hfirst.labels
  data := hsecond.data.trans hfirst.data
  lookup := hsecond.lookup.trans hfirst.lookup

/-- An element of an index in order can be updated, since there is an entry point then. -/
theorem Integrity.updatePoint (hintegrity : graph.Integrity) (hid : id < graph.curElementCount)
    (halive : id ∉ graph.deleted) (draws : Draws) (dataPoint : List D) :
    Yields (Graph.updatePoint Q draws dataPoint id) graph
      (fun _ after => after.Integrity ∧ after.deleted = graph.deleted ∧
        SameElements (graph.setData id dataPoint) after)
      (fun _ _ => False) := by
  cases hpoint : graph.enterpointNode with
  | none =>
      have hcount := (hintegrity.entered.of_none hpoint).1
      omega
  | some entry =>
      obtain ⟨maxLevel, hmaxlevel, hentry, hlevels⟩ := hintegrity.entered.of_some entry hpoint
      have hunmarked : graph.isMarkedDeleted id = false := by
        simpa [mem_deleted, hid] using halive
      refine (updatePoint_yields hintegrity.linked hintegrity.count_le hmaxlevel hpoint hentry hid
        (hlevels id hid) hunmarked draws dataPoint).imp ?_ fun _ _ h => h
      rintro _ after ⟨hlinked, hrelinked⟩
      exact ⟨(hintegrity.setData id dataPoint).relinked hrelinked hlinked, hrelinked.deleted_eq,
        hrelinked.sameElements⟩

/-- A label that is there already gets the new data, and loses its deletion mark. -/
theorem addPoint_existing (hintegrity : graph.Integrity)
    (hlookup : graph.labelLookup label = some id) (draws : Draws) (dataPoint : List D)
    (level : Int) :
    Yields (addPoint Q draws dataPoint label level) graph
      (fun _ after => after.Integrity ∧ after.deleted = graph.deleted.erase id ∧
        SameElements (graph.setData id dataPoint) after)
      (fun _ _ => False) := by
  have hid := hintegrity.lt_of_lookup hlookup
  simp only [addPoint, yields_bind, yields_get, hlookup]
  split
  next hmarked =>
    rw [yields_bind]
    refine (unmarkDeletedInternal_yields hintegrity hid hmarked).imp ?_ fun _ _ h => h
    rintro _ unmarked ⟨hunmarked, hdeleted, hsame⟩
    rw [yields_bind]
    refine (hunmarked.updatePoint (hsame.count.symm ▸ hid) (by simp [hdeleted]) draws
      dataPoint).imp ?_ fun _ _ h => h
    rintro _ after ⟨hafter, hmarks, hdata⟩
    exact ⟨hafter, hmarks.trans hdeleted, (hsame.setData id dataPoint).trans hdata⟩
  next halive =>
    have hnot : id ∉ graph.deleted := by simp [mem_deleted, halive]
    rw [yields_bind]
    refine (hintegrity.updatePoint hid hnot draws dataPoint).imp ?_ fun _ _ h => h
    rintro _ after ⟨hafter, hmarks, hdata⟩
    rw [Finset.erase_eq_of_notMem hnot]
    exact ⟨hafter, hmarks, hdata⟩

end

end Graph

end VBase.Hnsw
