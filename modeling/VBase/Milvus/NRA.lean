import VBase.Foundation.OrderedMap
import VBase.Foundation.Selection
import Mathlib.Data.List.AList
import Mathlib.Algebra.Order.Field.Rat
import Mathlib.Algebra.BigOperators.Group.List.Basic

/-! # The merge of the hit lists

`NRA` reads one row of the hit lists after the other and keeps for every id that it has
seen a lower and an upper bound of its total score. It stops when no upper bound of the
ids outside of the best `topk` exceeds the least lower bound of these. Scores are
rational, and ids are of any type with decidable equality.
-/

namespace VBase.Milvus

variable {Id : Type} [DecidableEq Id]

structure HIT (Id : Type) where
  id : Id
  score : ℚ

/-- An `unordered_map` from ids to scores. -/
abbrev ScoreMap (Id : Type) := AList fun _ : Id => ℚ

/-- The order in which a hash table is traversed, which its keys determine. -/
structure HashOrder (Id : Type) where
  order : List Id → List Id
  perm : ∀ ids, (order ids).Perm ids

/-- A hit list with its map in `matrix` and its entry in `lastExistValue`. -/
structure Column (Id : Type) where
  hits : List (HIT Id)
  matrix : ScoreMap Id
  lastExistValue : ℚ

structure State (Id : Type) where
  columns : List (Column Id)
  seenIDSet : List Id
  LB : ScoreMap Id
  UB : ScoreMap Id

/-- The assignments to `matrix[j]` and `lastExistValue[j]` in row `i`. -/
def Column.read (i : Nat) (column : Column Id) : Column Id :=
  match column.hits[i]? with
  | none => column
  | some hit =>
      { column with
        matrix := column.matrix.insert hit.id hit.score
        lastExistValue := hit.score }

def see (i : Nat) (seenIDSet : List Id) (column : Column Id) : List Id :=
  match column.hits[i]? with
  | none => seenIDSet
  | some hit => seenIDSet.insert hit.id

/-- The loop over the columns that adds up the bounds of an id. -/
def bounds (minScore : ℚ) (columns : List (Column Id)) (id : Id) : ℚ × ℚ :=
  columns.foldl (fun (lb, ub) column =>
    match column.matrix.lookup id with
    | none => (lb + minScore, ub + column.lastExistValue)
    | some score => (lb + score, ub + score)) (0, 0)

/-- The assignments to `LB[id]` and `UB[id]`. -/
def setBounds (minScore : ℚ) (columns : List (Column Id)) (maps : ScoreMap Id × ScoreMap Id)
    (id : Id) : ScoreMap Id × ScoreMap Id :=
  let (lb, ub) := bounds minScore columns id
  (maps.1.insert id lb, maps.2.insert id ub)

def State.row (seenOrder : HashOrder Id) (minScore : ℚ) (i : Nat) (state : State Id) :
    State Id :=
  let columns := state.columns.map (Column.read i)
  let seenIDSet := state.columns.foldl (see i) state.seenIDSet
  let (LB, UB) :=
    (seenOrder.order seenIDSet).foldl (setBounds minScore columns) (state.LB, state.UB)
  ⟨columns, seenIDSet, LB, UB⟩

/-- `for (auto x : LB)`. -/
def HashOrder.entries (order : HashOrder Id) (map : ScoreMap Id) : List (Id × ℚ) :=
  (order.order map.keys).map fun id => (id, (map.lookup id).getD 0)

/-- The test at the end of a row, where `none` is a read past the values. -/
def stops (lbOrder : HashOrder Id) (topk : Nat) (LB UB : ScoreMap Id) : Option Bool :=
  if topk < LB.keys.length then
    let values := (lbOrder.entries LB).map Prod.snd
    let rank := values.length - topk
    match (values.insertionSort (· ≤ ·))[rank]? with
    | none => none
    | some lbTopk =>
        let ubMax := (lbOrder.entries LB).foldl (fun ubMax x =>
          if x.2 ≤ lbTopk then max ubMax ((UB.lookup x.1).getD 0) else ubMax) (-100)
        some (ubMax ≤ lbTopk)
  else some false

/-- What a call returns, with the number of rows that it has read. -/
structure Outcome (Id : Type) where
  flag : Bool
  rows : Nat
  result : OrderedMap ℚ Id

section Call

variable (seenOrder lbOrder : HashOrder Id) (topk : Nat) (minScore : ℚ)

/-- The loop over the rows from `i` on, of which there are `left`. -/
def rowLoop : Nat → Nat → State Id → Option (Bool × Nat × State Id)
  | i, 0, state => some (false, i, state)
  | i, left + 1, state =>
      let state := state.row seenOrder minScore i
      match stops lbOrder topk state.LB state.UB with
      | none => none
      | some true => some (true, i + 1, state)
      | some false => rowLoop (i + 1) left state

def maxLen (first : List (HIT Id)) (hitData : List (List (HIT Id))) : Nat :=
  hitData.foldl (fun len hits => max len hits.length) first.length

/-- `NRA`, where `none` is a read outside of a vector. -/
def nra (hitData : List (List (HIT Id))) : Option (Outcome Id) :=
  match hitData with
  | [] => none
  | first :: _ => do
      let columns := hitData.map fun hits => (⟨hits, ∅, 0⟩ : Column Id)
      let (flag, rows, state) ← rowLoop seenOrder lbOrder topk minScore 0 (maxLen first hitData)
        ⟨columns, [], ∅, ∅⟩
      let result := OrderedMap.collect topk
        ((lbOrder.entries state.LB).map fun x => (-x.2, x.1))
      return ⟨flag, rows, result⟩

end Call

/-- The ids that a call puts into `RESULT`, the best first. -/
def Outcome.ids (outcome : Outcome Id) : List Id := outcome.result.entries.map Prod.snd

/-! ## The bounds -/

/-- The score that the last hit of an id has in a list. -/
def lastScore (hits : List (HIT Id)) (id : Id) : Option ℚ :=
  (hits.reverse.find? fun hit => hit.id = id).map HIT.score

/-- The score of the last hit of a list. -/
def lastValue (hits : List (HIT Id)) : ℚ := (hits.getLast?.map HIT.score).getD 0

/-- The ids in the first rows of the lists. -/
def readIds (hitData : List (List (HIT Id))) (rows : Nat) : Finset Id :=
  (hitData.flatMap fun hits => (hits.take rows).map HIT.id).toFinset

def lowerBound (minScore : ℚ) (hitData : List (List (HIT Id))) (rows : Nat) (id : Id) : ℚ :=
  (hitData.map fun hits => (lastScore (hits.take rows) id).getD minScore).sum

def upperBound (hitData : List (List (HIT Id))) (rows : Nat) (id : Id) : ℚ :=
  (hitData.map fun hits =>
    (lastScore (hits.take rows) id).getD (lastValue (hits.take rows))).sum

/-- A column after the first rows. -/
def columnAfter (rows : Nat) (hits : List (HIT Id)) : Column Id where
  hits := hits
  matrix := (hits.take rows).foldl (fun matrix hit => matrix.insert hit.id hit.score) ∅
  lastExistValue := lastValue (hits.take rows)

theorem lookup_foldl_insert (hits : List (HIT Id)) (id : Id) :
    (hits.foldl (fun (matrix : ScoreMap Id) hit => matrix.insert hit.id hit.score) ∅).lookup id =
      lastScore hits id := by
  induction hits using List.reverseRecOn with
  | nil => rfl
  | append_singleton hits hit ih =>
      rw [List.foldl_append, lastScore, List.reverse_append]
      by_cases hid : hit.id = id
      · subst hid
        simp
      · simp [hid, AList.lookup_insert_ne (Ne.symm hid), ih, lastScore]

theorem read_columnAfter (rows : Nat) (hits : List (HIT Id)) :
    (columnAfter rows hits).read rows = columnAfter (rows + 1) hits := by
  unfold Column.read columnAfter
  dsimp only
  cases hhit : hits[rows]? with
  | none => simp [List.take_add_one, hhit]
  | some hit => simp [List.take_add_one, hhit, lastValue]

theorem bounds_eq (minScore : ℚ) (hitData : List (List (HIT Id))) (rows : Nat) (id : Id) :
    bounds minScore (hitData.map (columnAfter rows)) id =
      (lowerBound minScore hitData rows id, upperBound hitData rows id) := by
  suffices hgeneral : ∀ lb ub, (hitData.map (columnAfter rows)).foldl (fun (lb, ub) column =>
      match column.matrix.lookup id with
      | none => (lb + minScore, ub + column.lastExistValue)
      | some score => (lb + score, ub + score)) (lb, ub) =
      (lb + lowerBound minScore hitData rows id, ub + upperBound hitData rows id) by
    simpa [bounds] using hgeneral 0 0
  induction hitData with
  | nil => simp [lowerBound, upperBound]
  | cons hits rest ih =>
      intro lb ub
      have hlookup : (columnAfter rows hits).matrix.lookup id = lastScore (hits.take rows) id :=
        lookup_foldl_insert _ id
      rw [List.map_cons, List.foldl_cons, hlookup]
      simp only [lowerBound, upperBound, List.map_cons, List.sum_cons]
      cases lastScore (hits.take rows) id with
      | none => simp only [ih, lowerBound, upperBound, Option.getD_none, add_assoc, columnAfter]
      | some score => simp only [ih, lowerBound, upperBound, Option.getD_some, add_assoc]

theorem lookup_foldl_setBounds (minScore : ℚ) (columns : List (Column Id)) (ids : List Id)
    (maps : ScoreMap Id × ScoreMap Id) (id : Id) :
    (ids.foldl (setBounds minScore columns) maps).1.lookup id =
        (if id ∈ ids then some (bounds minScore columns id).1 else maps.1.lookup id) ∧
      (ids.foldl (setBounds minScore columns) maps).2.lookup id =
        (if id ∈ ids then some (bounds minScore columns id).2 else maps.2.lookup id) := by
  induction ids using List.reverseRecOn with
  | nil => simp
  | append_singleton ids other ih =>
      rw [List.foldl_append, List.foldl_cons, List.foldl_nil, setBounds]
      by_cases hid : id = other
      · subst hid
        simp
      · simp only [AList.lookup_insert_ne hid, ih, List.mem_append, List.mem_singleton, hid,
          or_false, and_self]

/-! ## The rows -/

theorem mem_readIds {hitData : List (List (HIT Id))} {rows : Nat} {id : Id} :
    id ∈ readIds hitData rows ↔ ∃ hits ∈ hitData, ∃ hit ∈ hits.take rows, hit.id = id := by
  simp [readIds, -List.map_take]

theorem mem_readIds_succ {hitData : List (List (HIT Id))} {rows : Nat} {id : Id} :
    id ∈ readIds hitData (rows + 1) ↔
      id ∈ readIds hitData rows ∨
        ∃ hits ∈ hitData, ∃ hit, hits[rows]? = some hit ∧ hit.id = id := by
  simp only [mem_readIds, List.take_add_one, List.mem_append, Option.mem_toList, or_and_right,
    exists_or, and_or_left]

theorem mem_foldl_see {i : Nat} {columns : List (Column Id)} {seenIDSet : List Id} {id : Id} :
    id ∈ columns.foldl (see i) seenIDSet ↔
      id ∈ seenIDSet ∨ ∃ column ∈ columns, ∃ hit, column.hits[i]? = some hit ∧ hit.id = id := by
  induction columns generalizing seenIDSet with
  | nil => simp
  | cons column rest ih =>
      rw [List.foldl_cons, ih, see]
      cases hhit : column.hits[i]? with
      | none => simp [hhit]
      | some hit =>
          simp only [List.mem_insert_iff, List.exists_mem_cons_iff, hhit, Option.some.injEq,
            exists_eq_left', or_assoc, eq_comm (a := id)]
          exact or_left_comm

theorem State.row_maps (seenOrder : HashOrder Id) (minScore : ℚ) (i : Nat) (state : State Id) :
    ((state.row seenOrder minScore i).LB, (state.row seenOrder minScore i).UB) =
      (seenOrder.order (state.columns.foldl (see i) state.seenIDSet)).foldl
        (setBounds minScore (state.columns.map (Column.read i))) (state.LB, state.UB) := by
  rfl

/-- The state when so many rows were read: the bounds are those of the rows. -/
structure RowsRead (minScore : ℚ) (hitData : List (List (HIT Id))) (rows : Nat)
    (state : State Id) : Prop where
  columns_eq : state.columns = hitData.map (columnAfter rows)
  mem_seen : ∀ id, id ∈ state.seenIDSet ↔ id ∈ readIds hitData rows
  lookup_LB : ∀ id, state.LB.lookup id =
    if id ∈ readIds hitData rows then some (lowerBound minScore hitData rows id) else none
  lookup_UB : ∀ id, state.UB.lookup id =
    if id ∈ readIds hitData rows then some (upperBound hitData rows id) else none

namespace RowsRead

variable {minScore : ℚ} {hitData : List (List (HIT Id))} {rows : Nat} {state : State Id}

theorem start (minScore : ℚ) (hitData : List (List (HIT Id))) :
    RowsRead minScore hitData 0 ⟨hitData.map fun hits => ⟨hits, ∅, 0⟩, [], ∅, ∅⟩ where
  columns_eq := rfl
  mem_seen := by simp [mem_readIds]
  lookup_LB := by simp [mem_readIds]
  lookup_UB := by simp [mem_readIds]

theorem row (hread : RowsRead minScore hitData rows state) (seenOrder : HashOrder Id) :
    RowsRead minScore hitData (rows + 1) (state.row seenOrder minScore rows) := by
  have hcolumns : state.columns.map (Column.read rows) = hitData.map (columnAfter (rows + 1)) := by
    rw [hread.columns_eq, List.map_map]
    apply List.map_congr_left
    intro hits _
    exact read_columnAfter rows hits
  have hseen : ∀ id, id ∈ state.columns.foldl (see rows) state.seenIDSet ↔
      id ∈ readIds hitData (rows + 1) := by
    intro id
    rw [mem_foldl_see, hread.mem_seen, mem_readIds_succ, hread.columns_eq]
    simp [columnAfter]
  have hlookup := lookup_foldl_setBounds minScore (state.columns.map (Column.read rows))
    (seenOrder.order (state.columns.foldl (see rows) state.seenIDSet)) (state.LB, state.UB)
  simp only [(seenOrder.perm _).mem_iff, hseen] at hlookup
  rw [← State.row_maps, hcolumns] at hlookup
  simp only [bounds_eq] at hlookup
  refine ⟨hcolumns, hseen, ?_, ?_⟩
  · intro id
    rw [(hlookup id).1, hread.lookup_LB]
    split_ifs with hnew hold
    · rfl
    · exact absurd (mem_readIds_succ.mpr (Or.inl hold)) hnew
    · rfl
  · intro id
    rw [(hlookup id).2, hread.lookup_UB]
    split_ifs with hnew hold
    · rfl
    · exact absurd (mem_readIds_succ.mpr (Or.inl hold)) hnew
    · rfl

/-- The keys of the lower bounds are the ids that were read, in some order. -/
theorem keys_LB (hread : RowsRead minScore hitData rows state) :
    state.LB.keys.toFinset = readIds hitData rows := by
  ext id
  rw [List.mem_toFinset, ← AList.mem_keys, ← AList.lookup_isSome, hread.lookup_LB]
  split_ifs with hid <;> simp [hid]

theorem length_keys (hread : RowsRead minScore hitData rows state) :
    state.LB.keys.length = (readIds hitData rows).card := by
  rw [← hread.keys_LB, List.toFinset_card_of_nodup state.LB.keys_nodup]

theorem mem_order (hread : RowsRead minScore hitData rows state) (lbOrder : HashOrder Id)
    {id : Id} : id ∈ lbOrder.order state.LB.keys ↔ id ∈ readIds hitData rows := by
  rw [(lbOrder.perm _).mem_iff, ← hread.keys_LB, List.mem_toFinset]

theorem toFinset_order (hread : RowsRead minScore hitData rows state) (lbOrder : HashOrder Id) :
    (lbOrder.order state.LB.keys).toFinset = readIds hitData rows := by
  ext id
  rw [List.mem_toFinset, hread.mem_order]

theorem length_order (hread : RowsRead minScore hitData rows state) (lbOrder : HashOrder Id) :
    (lbOrder.order state.LB.keys).length = (readIds hitData rows).card := by
  rw [(lbOrder.perm _).length_eq, hread.length_keys]

theorem entries_LB (hread : RowsRead minScore hitData rows state) (lbOrder : HashOrder Id) :
    lbOrder.entries state.LB =
      (lbOrder.order state.LB.keys).map fun id => (id, lowerBound minScore hitData rows id) := by
  apply List.map_congr_left
  intro id hid
  rw [hread.lookup_LB, if_pos ((hread.mem_order lbOrder).mp hid), Option.getD_some]

end RowsRead

/-! ## The test -/

/-- There are ids outside of the best `topk`, and a bound that `topk` of the lower bounds reach
and fewer exceed is above the upper bounds of all ids whose lower bounds do not exceed it. -/
structure StopAt (topk : Nat) (ids : Finset Id) (lower upper : Id → ℚ) (lbTopk : ℚ) : Prop where
  more : topk < ids.card
  reached : topk ≤ (ids.filter fun id => lbTopk ≤ lower id).card
  exceeded : (ids.filter fun id => lbTopk < lower id).card < topk
  attained : ∃ id ∈ ids, lower id = lbTopk
  settled : ∀ id ∈ ids, lower id ≤ lbTopk → upper id ≤ lbTopk

/-- What the loop over the bounds finds is no less than any of its group. -/
theorem le_foldl_max {α K : Type} [LinearOrder K] (group : α → Prop) [DecidablePred group]
    (value : α → K) (items : List α) (start : K) :
    start ≤ items.foldl (fun ubMax x => if group x then max ubMax (value x) else ubMax) start ∧
      ∀ item ∈ items, group item → value item ≤
        items.foldl (fun ubMax x => if group x then max ubMax (value x) else ubMax) start := by
  induction items generalizing start with
  | nil => simp
  | cons item rest ih =>
      rw [List.foldl_cons]
      obtain ⟨hstart, hrest⟩ := ih (if group item then max start (value item) else start)
      by_cases hgroup : group item
      · rw [if_pos hgroup] at hstart hrest ⊢
        refine ⟨(le_max_left _ _).trans hstart, ?_⟩
        intro other hother hin
        rcases List.mem_cons.mp hother with rfl | hother
        · exact (le_max_right _ _).trans hstart
        · exact hrest other hother hin
      · rw [if_neg hgroup] at hstart hrest ⊢
        refine ⟨hstart, ?_⟩
        intro other hother hin
        rcases List.mem_cons.mp hother with rfl | hother
        · exact absurd hin hgroup
        · exact hrest other hother hin

/-- How many of the values satisfy a condition. -/
theorem countP_values {ids : List Id} (hnodup : ids.Nodup) (lower : Id → ℚ) (condition : ℚ → Prop)
    [DecidablePred condition] :
    (ids.map lower).countP (fun value => condition value) =
      (ids.toFinset.filter fun id => condition (lower id)).card := by
  rw [List.countP_map, List.countP_eq_length_filter,
    ← List.toFinset_card_of_nodup (hnodup.filter _), List.toFinset_filter]
  simp

/-- How many bounds reach the one at position `length - topk` of their sorted list, and how many
exceed it. -/
theorem card_of_nthSmallest {ids : List Id} (hnodup : ids.Nodup) {topk : Nat}
    (hmore : topk < ids.length) {lower : Id → ℚ} {lbTopk : ℚ}
    (hnth : nthSmallest (ids.length - topk + 1) (ids.map lower) = some lbTopk) :
    topk ≤ (ids.toFinset.filter fun id => lbTopk ≤ lower id).card ∧
      (ids.toFinset.filter fun id => lbTopk < lower id).card < topk := by
  have hcard : ids.toFinset.card = ids.length := List.toFinset_card_of_nodup hnodup
  constructor
  · have hiff : (∃ bound, nthSmallest (ids.length - topk + 1) (ids.map lower) = some bound ∧
        bound < lbTopk) ↔
        ids.length - topk + 1 ≤ (ids.map lower).countP (fun value => value < lbTopk) :=
      nthSmallest_iff_countP (Nat.succ_pos _) fun _ _ => lt_of_le_of_lt
    have hnot : ¬ ids.length - topk + 1 ≤ (ids.map lower).countP (fun value => value < lbTopk) := by
      rw [← hiff, hnth]
      simp
    rw [countP_values hnodup] at hnot
    have hsplit := Finset.card_filter_add_card_filter_not (s := ids.toFinset)
      (fun id => lower id < lbTopk)
    simp only [not_lt] at hsplit
    omega
  · have hcount : ids.length - topk + 1 ≤ (ids.map lower).countP (fun value => value ≤ lbTopk) :=
      (nthSmallest_iff_countP (Nat.succ_pos _) fun _ _ => le_trans).mp ⟨lbTopk, hnth, le_rfl⟩
    rw [countP_values hnodup] at hcount
    have hsplit := Finset.card_filter_add_card_filter_not (s := ids.toFinset)
      (fun id => lower id ≤ lbTopk)
    simp only [not_le] at hsplit
    omega

namespace RowsRead

variable {minScore : ℚ} {hitData : List (List (HIT Id))} {rows : Nat} {state : State Id}

theorem values_LB (hread : RowsRead minScore hitData rows state) (lbOrder : HashOrder Id) :
    (lbOrder.entries state.LB).map Prod.snd =
      (lbOrder.order state.LB.keys).map (lowerBound minScore hitData rows) := by
  rw [hread.entries_LB, List.map_map]
  rfl

/-- The upper bounds of the group are no greater than `UB_max`. -/
theorem upperBound_le_ubMax (hread : RowsRead minScore hitData rows state)
    (lbOrder : HashOrder Id) {lbTopk : ℚ} {id : Id} (hid : id ∈ readIds hitData rows)
    (hgroup : lowerBound minScore hitData rows id ≤ lbTopk) :
    upperBound hitData rows id ≤ (lbOrder.entries state.LB).foldl (fun ubMax x =>
      if x.2 ≤ lbTopk then max ubMax ((state.UB.lookup x.1).getD 0) else ubMax) (-100) := by
  have hentry : (id, lowerBound minScore hitData rows id) ∈ lbOrder.entries state.LB := by
    rw [hread.entries_LB]
    exact List.mem_map_of_mem ((hread.mem_order lbOrder).mpr hid)
  have hmax := (le_foldl_max (fun x : Id × ℚ => x.2 ≤ lbTopk)
    (fun x => (state.UB.lookup x.1).getD 0) (lbOrder.entries state.LB) (-100)).2 _ hentry hgroup
  rwa [hread.lookup_UB, if_pos hid, Option.getD_some] at hmax

/-- The test reads no value that is not there, and stops only where it may. -/
theorem stops_spec (hread : RowsRead minScore hitData rows state) (lbOrder : HashOrder Id)
    {topk : Nat} (htopk : 1 ≤ topk) :
    ∃ stop, stops lbOrder topk state.LB state.UB = some stop ∧
      (stop = true → ∃ lbTopk, StopAt topk (readIds hitData rows)
        (lowerBound minScore hitData rows) (upperBound hitData rows) lbTopk) := by
  have hlength := hread.length_order lbOrder
  unfold stops
  rw [hread.length_keys]
  by_cases hmore : topk < (readIds hitData rows).card
  · rw [if_pos hmore]
    dsimp only
    rw [hread.values_LB, List.length_map]
    cases hnth : (((lbOrder.order state.LB.keys).map
        (lowerBound minScore hitData rows)).insertionSort (· ≤ ·))[
          (lbOrder.order state.LB.keys).length - topk]? with
    | none =>
        rw [List.getElem?_eq_none_iff, List.length_insertionSort, List.length_map] at hnth
        omega
    | some lbTopk =>
        refine ⟨_, rfl, ?_⟩
        intro hstop
        replace hnth : nthSmallest ((lbOrder.order state.LB.keys).length - topk + 1)
          ((lbOrder.order state.LB.keys).map (lowerBound minScore hitData rows)) =
            some lbTopk := hnth
        have hnodup : (lbOrder.order state.LB.keys).Nodup :=
          (lbOrder.perm _).nodup_iff.mpr state.LB.keys_nodup
        obtain ⟨hreached, hexceeded⟩ := card_of_nthSmallest hnodup (by omega) hnth
        rw [hread.toFinset_order] at hreached hexceeded
        refine ⟨lbTopk, hmore, hreached, hexceeded, ?_, ?_⟩
        · obtain ⟨id, hid, hlower⟩ := List.mem_map.mp (nthSmallest_mem hnth)
          exact ⟨id, (hread.mem_order lbOrder).mp hid, hlower⟩
        · intro id hid hgroup
          exact (hread.upperBound_le_ubMax lbOrder hid hgroup).trans (of_decide_eq_true hstop)
  · exact ⟨false, if_neg hmore, by simp⟩

end RowsRead

/-! ## Whole calls -/

section Call

variable (seenOrder lbOrder : HashOrder Id) {topk : Nat} {minScore : ℚ}
  {hitData : List (List (HIT Id))}

/-- The loop ends behind the last row, or at a row where it may stop. -/
theorem rowLoop_spec (htopk : 1 ≤ topk) (left : Nat) {i : Nat} {state : State Id}
    (hread : RowsRead minScore hitData i state) :
    ∃ flag rows final,
      rowLoop seenOrder lbOrder topk minScore i left state = some (flag, rows, final) ∧
        RowsRead minScore hitData rows final ∧ (flag = false → rows = i + left) ∧
        (flag = true → 0 < rows ∧ ∃ lbTopk, StopAt topk (readIds hitData rows)
          (lowerBound minScore hitData rows) (upperBound hitData rows) lbTopk) := by
  induction left generalizing i state with
  | zero => exact ⟨false, i, state, rfl, hread, fun _ => rfl, by simp⟩
  | succ left ih =>
      have hrow := hread.row seenOrder
      obtain ⟨stop, hstop, hstopAt⟩ := hrow.stops_spec lbOrder htopk
      rw [rowLoop, hstop]
      cases stop with
      | true => exact ⟨true, i + 1, _, rfl, hrow, by simp, fun _ => ⟨Nat.succ_pos i, hstopAt rfl⟩⟩
      | false =>
          obtain ⟨flag, rows, final, hloop, hfinal, hrows, hflag⟩ := ih hrow
          refine ⟨flag, rows, final, hloop, hfinal, ?_, hflag⟩
          intro hfalse
          rw [hrows hfalse]
          omega

theorem length_le_maxLen {Id : Type} {first hits : List (HIT Id)} {hitData : List (List (HIT Id))}
    (hhits : hits ∈ hitData) : hits.length ≤ maxLen first hitData := by
  have hfold := (le_foldl_max (fun _ => True) (fun hits : List (HIT Id) => hits.length) hitData
    first.length).2 hits hhits trivial
  simpa [maxLen] using hfold

/-- What a call comes to. -/
structure Follows (topk : Nat) (minScore : ℚ) (hitData : List (List (HIT Id)))
    (outcome : Outcome Id) : Prop where
  ids_eq : ∃ listed, OnePerKey (fun id => -lowerBound minScore hitData outcome.rows id)
    (readIds hitData outcome.rows) listed ∧ outcome.ids = listed.take topk
  read_all : outcome.flag = false → ∀ hits ∈ hitData, hits.length ≤ outcome.rows
  stopAt : outcome.flag = true → 0 < outcome.rows ∧
    ∃ lbTopk, StopAt topk (readIds hitData outcome.rows)
      (lowerBound minScore hitData outcome.rows) (upperBound hitData outcome.rows) lbTopk

theorem nra_follows (htopk : 1 ≤ topk) (hcolumns : hitData ≠ []) :
    ∃ outcome, nra seenOrder lbOrder topk minScore hitData = some outcome ∧
      Follows topk minScore hitData outcome := by
  cases hitData with
  | nil => exact absurd rfl hcolumns
  | cons first others =>
      obtain ⟨flag, rows, final, hloop, hread, hrows, hstop⟩ :=
        rowLoop_spec seenOrder lbOrder htopk (maxLen first (first :: others))
          (RowsRead.start minScore (first :: others))
      obtain ⟨listed, hlisted, hids⟩ := OrderedMap.collect_onePerKey
        (fun id => -lowerBound minScore (first :: others) rows id) topk
        (lbOrder.order final.LB.keys)
      have hitems : (lbOrder.entries final.LB).map (fun x => (-x.2, x.1)) =
          (lbOrder.order final.LB.keys).map
            (fun id => (-lowerBound minScore (first :: others) rows id, id)) := by
        rw [hread.entries_LB, List.map_map]
        rfl
      rw [hread.toFinset_order] at hlisted
      rw [← hitems] at hids
      refine ⟨⟨flag, rows, OrderedMap.collect topk ((lbOrder.entries final.LB).map
        fun x : Id × ℚ => (-x.2, x.1))⟩, ?_, ⟨listed, hlisted, hids⟩, ?_, hstop⟩
      · rw [nra, hloop]
        rfl
      · intro hfalse hits hhits
        rw [hrows hfalse, Nat.zero_add]
        exact length_le_maxLen hhits

theorem follows_of_nra (htopk : 1 ≤ topk) {outcome : Outcome Id}
    (hcall : nra seenOrder lbOrder topk minScore hitData = some outcome) :
    Follows topk minScore hitData outcome := by
  have hcolumns : hitData ≠ [] := by
    intro hnil
    rw [hnil, nra] at hcall
    cases hcall
  obtain ⟨same, hsame, hfollows⟩ := nra_follows seenOrder lbOrder htopk hcolumns
  rw [hsame, Option.some.injEq] at hcall
  exact hcall ▸ hfollows

end Call

end VBase.Milvus
