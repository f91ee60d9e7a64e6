import VBase.Milvus.NRA
import Mathlib.Algebra.Order.BigOperators.Group.List

/-! # What the merge returns

`RESULT` is keyed by the negated lower bound, so that of several ids with one bound only
one is in it. When all bounds differ it has the ids with the greatest bounds, and a call
that stopped early returns ids whose total scores no other id exceeds.
-/

namespace VBase.Milvus

section Ties

variable {Id : Type} {topk : Nat} {ids : Finset Id} {lower : Id → ℚ}

/-- `RESULT` has as many ids as it may, and no id is left out that has a greater lower bound than
one of them. -/
def Best (topk : Nat) (ids : Finset Id) (lower : Id → ℚ) (result : List Id) : Prop :=
  result.length = min topk ids.card ∧
    ∀ out ∈ ids, out ∉ result → ∀ id ∈ result, lower out ≤ lower id

/-- Any two ids with one lower bound come behind `topk - 1` greater bounds. -/
def TiesLate (topk : Nat) (ids : Finset Id) (lower : Id → ℚ) : Prop :=
  ∀ first ∈ ids, ∀ second ∈ ids, first ≠ second → lower first = lower second →
    topk ≤ ((ids.image lower).filter (lower first < ·)).card + 1

/-- The distinct bounds above a bound, counted by their negations. -/
theorem card_keys_lt (ids : Finset Id) (lower : Id → ℚ) (id : Id) :
    ((ids.image fun other => -lower other).filter (· < -lower id)).card =
      ((ids.image lower).filter (lower id < ·)).card := by
  have himage : (ids.image fun other => -lower other).filter (· < -lower id) =
      ((ids.image lower).filter (lower id < ·)).image Neg.neg := by
    ext value
    simp only [Finset.mem_filter, Finset.mem_image]
    constructor
    · intro ⟨⟨other, hother, hvalue⟩, hlt⟩
      refine ⟨lower other, ⟨⟨other, hother, rfl⟩, ?_⟩, hvalue⟩
      rwa [← hvalue, neg_lt_neg_iff] at hlt
    · intro ⟨bound, ⟨⟨other, hother, hbound⟩, hlt⟩, hvalue⟩
      refine ⟨⟨other, hother, by rw [hbound, hvalue]⟩, ?_⟩
      rwa [← hvalue, neg_lt_neg_iff]
  rw [himage, Finset.card_image_of_injective _ neg_injective]

theorem best_take_iff {listed : List Id} (hone : OnePerKey (fun id => -lower id) ids listed) :
    Best topk ids lower (listed.take topk) ↔ TiesLate topk ids lower := by
  have hiff := hone.exact_take_iff topk
  simp only [OnePerKey.Exact, neg_le_neg_iff, neg_inj, card_keys_lt] at hiff
  exact hiff

theorem tiesLate_of_injOn (hinj : Set.InjOn lower ids) : TiesLate topk ids lower := by
  intro first hfirst second hsecond hne hsame
  exact absurd (hinj hfirst hsecond hsame) hne

end Ties

variable {Id : Type} [DecidableEq Id] (seenOrder lbOrder : HashOrder Id) {topk : Nat}
  {minScore : ℚ}

theorem Follows.result_best_iff {hitData : List (List (HIT Id))} {outcome : Outcome Id}
    (hfollows : Follows topk minScore hitData outcome) :
    outcome.ids.Nodup ∧ (∀ id ∈ outcome.ids, id ∈ readIds hitData outcome.rows) ∧
      (Best topk (readIds hitData outcome.rows) (lowerBound minScore hitData outcome.rows)
          outcome.ids ↔
        TiesLate topk (readIds hitData outcome.rows)
          (lowerBound minScore hitData outcome.rows)) := by
  obtain ⟨listed, hone, hids⟩ := hfollows.ids_eq
  rw [hids]
  refine ⟨(List.Nodup.of_map _ hone.nodup_keys).sublist (List.take_sublist _ _), ?_,
    best_take_iff hone⟩
  intro id hid
  exact hone.mem_all id (List.mem_of_mem_take hid)

/-- A call loses no id to a tie exactly when any two ids with one lower bound come behind
`topk - 1` greater bounds. -/
theorem nra_best_iff (htopk : 1 ≤ topk) {hitData : List (List (HIT Id))} (hcolumns : hitData ≠ []) :
    ∃ outcome, nra seenOrder lbOrder topk minScore hitData = some outcome ∧
      outcome.ids.Nodup ∧ (∀ id ∈ outcome.ids, id ∈ readIds hitData outcome.rows) ∧
      (Best topk (readIds hitData outcome.rows) (lowerBound minScore hitData outcome.rows)
          outcome.ids ↔
        TiesLate topk (readIds hitData outcome.rows)
          (lowerBound minScore hitData outcome.rows)) := by
  obtain ⟨outcome, hcall, hfollows⟩ := nra_follows seenOrder lbOrder htopk hcolumns
  exact ⟨outcome, hcall, hfollows.result_best_iff⟩

/-- The order in which the keys are listed. -/
def listOrder : HashOrder Nat := ⟨id, fun _ => List.Perm.refl _⟩

/-- One column with three ids and no tie: the two with the greatest scores are returned. -/
theorem nra_best_threeIds :
    let hitData : List (List (HIT Nat)) := [[⟨1, 3⟩, ⟨2, 2⟩, ⟨3, 1⟩]]
    ∃ outcome, nra listOrder listOrder 2 0 hitData = some outcome ∧ outcome.ids.Nodup ∧
      (∀ id ∈ outcome.ids, id ∈ readIds hitData outcome.rows) ∧
      Best 2 (readIds hitData outcome.rows) (lowerBound 0 hitData outcome.rows) outcome.ids := by
  intro hitData
  obtain ⟨outcome, hcall, hnodup, hread, hbest⟩ :=
    nra_best_iff listOrder listOrder (show 1 ≤ 2 by decide) (show hitData ≠ [] by simp [hitData])
  refine ⟨outcome, hcall, hnodup, hread, hbest.mpr ?_⟩
  have hrows : outcome.rows = 3 := by
    have hcomputed : (nra listOrder listOrder 2 0 hitData).map Outcome.rows = some 3 := by
      decide +kernel
    rw [hcall] at hcomputed
    exact Option.some.inj hcomputed
  rw [hrows]
  apply tiesLate_of_injOn
  have hdistinct : ∀ first ∈ readIds hitData 3, ∀ second ∈ readIds hitData 3,
      lowerBound 0 hitData 3 first = lowerBound 0 hitData 3 second → first = second := by
    decide +kernel
  intro first hfirst second hsecond hsame
  exact hdistinct first hfirst second hsecond hsame

/-- Two ids with one score: only one of them is in `RESULT`. -/
theorem nra_drops_tied :
    (nra listOrder listOrder 2 0 [[⟨1, 1⟩, ⟨2, 1⟩]]).map (fun outcome =>
      (outcome.flag, outcome.rows, outcome.ids)) = some (false, 2, [2]) ∧
      (readIds [[(⟨1, 1⟩ : HIT Nat), ⟨2, 1⟩]] 2).card = 2 := by
  decide +kernel

/-! ## Stopping early -/

/-- A full ranking of the ids and the hits at its start, of which there are some. -/
structure Ranking (Id : Type) (minScore : ℚ) where
  score : Id → ℚ
  least : ∀ id, minScore ≤ score id
  hits : List (HIT Id)
  nonempty : hits ≠ []
  agrees : ∀ hit ∈ hits, hit.score = score hit.id
  sorted : hits.Pairwise fun first second => second.score ≤ first.score
  outside : ∀ id, (∀ hit ∈ hits, hit.id ≠ id) → ∀ hit ∈ hits, score id ≤ hit.score

/-- The total score of an id over the full rankings. -/
def total (columns : List (Ranking Id minScore)) (id : Id) : ℚ :=
  (columns.map fun column => column.score id).sum

theorem mem_of_lastScore {hits : List (HIT Id)} {id : Id} {score : ℚ}
    (hscore : lastScore hits id = some score) : ∃ hit ∈ hits, hit.id = id ∧ hit.score = score := by
  rw [lastScore, Option.map_eq_some_iff] at hscore
  obtain ⟨hit, hfind, hscore⟩ := hscore
  exact ⟨hit, List.mem_reverse.mp (List.mem_of_find?_eq_some hfind),
    by simpa using List.find?_some hfind, hscore⟩

theorem lastScore_eq_none {hits : List (HIT Id)} {id : Id} :
    lastScore hits id = none ↔ ∀ hit ∈ hits, hit.id ≠ id := by
  simp [lastScore]

namespace Ranking

variable (column : Ranking Id minScore) {rows : Nat}

/-- The last hit of the first rows has the least score of them. -/
theorem exists_last {Id : Type} (column : Ranking Id minScore) (hrows : 0 < rows) :
    ∃ last ∈ column.hits.take rows, lastValue (column.hits.take rows) = last.score ∧
      ∀ hit ∈ column.hits.take rows, last.score ≤ hit.score := by
  have hne : column.hits.take rows ≠ [] := by
    simpa [List.take_eq_nil_iff, hrows.ne'] using column.nonempty
  refine ⟨(column.hits.take rows).getLast hne, List.getLast_mem hne, ?_, ?_⟩
  · rw [lastValue, List.getLast?_eq_some_getLast hne]
    rfl
  · intro hit hhit
    have hsorted := column.sorted.sublist (List.take_sublist rows _)
    rw [← List.dropLast_append_getLast hne] at hhit hsorted
    rcases List.mem_append.mp hhit with hbefore | hlast
    · exact (List.pairwise_append.mp hsorted).2.2 hit hbefore _ (List.mem_singleton_self _)
    · rw [List.mem_singleton.mp hlast]

theorem lower_le (rows : Nat) (id : Id) :
    (lastScore (column.hits.take rows) id).getD minScore ≤ column.score id := by
  cases hscore : lastScore (column.hits.take rows) id with
  | none => exact column.least id
  | some score =>
      obtain ⟨hit, hhit, rfl, rfl⟩ := mem_of_lastScore hscore
      exact (column.agrees hit (List.mem_of_mem_take hhit)).le

theorem le_upper (hrows : 0 < rows) (id : Id) :
    column.score id ≤
      (lastScore (column.hits.take rows) id).getD (lastValue (column.hits.take rows)) := by
  cases hscore : lastScore (column.hits.take rows) id with
  | some score =>
      obtain ⟨hit, hhit, rfl, rfl⟩ := mem_of_lastScore hscore
      exact (column.agrees hit (List.mem_of_mem_take hhit)).ge
  | none =>
      rw [lastScore_eq_none] at hscore
      obtain ⟨last, hlast, hvalue, -⟩ := column.exists_last hrows
      rw [Option.getD_none, hvalue]
      by_cases hin : ∃ hit ∈ column.hits, hit.id = id
      · -- a hit that was not read yet comes behind the last one that was
        obtain ⟨hit, hhit, rfl⟩ := hin
        have hsorted := column.sorted
        rw [← column.agrees hit hhit]
        rw [← List.take_append_drop rows column.hits] at hhit hsorted
        have hdrop := (List.mem_append.mp hhit).resolve_left fun htake => hscore hit htake rfl
        exact (List.pairwise_append.mp hsorted).2.2 last hlast hit hdrop
      · push Not at hin
        exact column.outside id hin last (List.mem_of_mem_take hlast)

theorem lastValue_le (hrows : 0 < rows) (id : Id) :
    lastValue (column.hits.take rows) ≤
      (lastScore (column.hits.take rows) id).getD (lastValue (column.hits.take rows)) := by
  cases hscore : lastScore (column.hits.take rows) id with
  | none => exact le_rfl
  | some score =>
      obtain ⟨hit, hhit, -, rfl⟩ := mem_of_lastScore hscore
      obtain ⟨last, -, hvalue, hleast⟩ := column.exists_last hrows
      rw [Option.getD_some, hvalue]
      exact hleast hit hhit

end Ranking

section Totals

variable {columns : List (Ranking Id minScore)} {rows : Nat}

theorem lowerBound_le_total (columns : List (Ranking Id minScore)) (rows : Nat) (id : Id) :
    lowerBound minScore (columns.map Ranking.hits) rows id ≤ total columns id := by
  rw [lowerBound, List.map_map]
  apply List.sum_le_sum
  intro column _
  exact column.lower_le rows id

theorem total_le_upperBound (hrows : 0 < rows) (id : Id) :
    total columns id ≤ upperBound (columns.map Ranking.hits) rows id := by
  rw [upperBound, List.map_map]
  apply List.sum_le_sum
  intro column _
  exact column.le_upper hrows id

/-- An id that was not read has the least upper bound of all. -/
theorem upperBound_le_of_notMem (hrows : 0 < rows) {unread : Id}
    (hunread : unread ∉ readIds (columns.map Ranking.hits) rows) (id : Id) :
    upperBound (columns.map Ranking.hits) rows unread ≤
      upperBound (columns.map Ranking.hits) rows id := by
  rw [upperBound, upperBound, List.map_map, List.map_map]
  apply List.sum_le_sum
  intro column hcolumn
  have hnone : lastScore (column.hits.take rows) unread = none := by
    rw [lastScore_eq_none]
    intro hit hhit heq
    exact hunread (mem_readIds.mpr
      ⟨column.hits, List.mem_map_of_mem hcolumn, hit, hhit, heq⟩)
  simp only [Function.comp_apply, hnone, Option.getD_none]
  exact column.lastValue_le hrows id

end Totals

namespace StopAt

variable {ids : Finset Id} {lower upper : Id → ℚ} {lbTopk : ℚ} {result : List Id}

/-- Every id in `RESULT` reaches the bound. -/
theorem le_lower (hstop : StopAt topk ids lower upper lbTopk) (hnodup : result.Nodup)
    (hbest : Best topk ids lower result) {id : Id} (hid : id ∈ result) : lbTopk ≤ lower id := by
  by_contra hnot
  have hlength := hbest.1
  have hmore := hstop.more
  have hreached := hstop.reached
  -- the ids that reach the bound are in `RESULT`, which has `topk - 1` ids besides this one
  have hsubset : (ids.filter fun other => lbTopk ≤ lower other) ⊆ result.toFinset.erase id := by
    intro other hother
    obtain ⟨hmem, hle⟩ := Finset.mem_filter.mp hother
    have hlt : lower id < lower other := lt_of_lt_of_le (not_le.mp hnot) hle
    rw [Finset.mem_erase, List.mem_toFinset]
    refine ⟨fun heq => hlt.ne (congrArg lower heq).symm, ?_⟩
    by_contra hout
    exact hlt.not_ge (hbest.2 other hmem hout id hid)
  have hcard := Finset.card_le_card hsubset
  rw [Finset.card_erase_of_mem (List.mem_toFinset.mpr hid),
    List.toFinset_card_of_nodup hnodup] at hcard
  have hpos := List.length_pos_of_mem hid
  omega

/-- No id outside of `RESULT` exceeds the bound. -/
theorem lower_le (hstop : StopAt topk ids lower upper lbTopk) (hnodup : result.Nodup)
    (hmem : ∀ id ∈ result, id ∈ ids) (hbest : Best topk ids lower result) {out : Id}
    (hout : out ∈ ids) (hresult : out ∉ result) : lower out ≤ lbTopk := by
  by_contra hnot
  have hlength := hbest.1
  have hmore := hstop.more
  have hexceeded := hstop.exceeded
  have hsubset : result.toFinset ⊆ ids.filter fun id => lbTopk < lower id := by
    intro id hid
    rw [List.mem_toFinset] at hid
    exact Finset.mem_filter.mpr
      ⟨hmem id hid, lt_of_lt_of_le (not_le.mp hnot) (hbest.2 out hout hresult id hid)⟩
  have hcard := Finset.card_le_card hsubset
  rw [List.toFinset_card_of_nodup hnodup] at hcard
  omega

end StopAt

/-- A call that returns true on the starts of full rankings, with distinct lower bounds at its
end, has `topk` ids in `RESULT`, and no other id has a greater total score than one of them. -/
theorem nra_stop_sound (htopk : 1 ≤ topk) {columns : List (Ranking Id minScore)}
    {outcome : Outcome Id}
    (hcall : nra seenOrder lbOrder topk minScore (columns.map Ranking.hits) = some outcome)
    (hflag : outcome.flag = true)
    (hdistinct : Set.InjOn (lowerBound minScore (columns.map Ranking.hits) outcome.rows)
      (readIds (columns.map Ranking.hits) outcome.rows)) :
    outcome.ids.Nodup ∧ outcome.ids.length = topk ∧
      ∀ id ∈ outcome.ids, ∀ other, other ∉ outcome.ids →
        total columns other ≤ total columns id := by
  have hfollows := follows_of_nra seenOrder lbOrder htopk hcall
  obtain ⟨hrows, lbTopk, hstop⟩ := hfollows.stopAt hflag
  obtain ⟨hnodup, hmem, hiff⟩ := hfollows.result_best_iff
  have hbest := hiff.mpr (tiesLate_of_injOn hdistinct)
  have hmore := hstop.more
  refine ⟨hnodup, by rw [hbest.1]; omega, ?_⟩
  intro id hid other hother
  -- the bound stands between the totals
  have hkept : lbTopk ≤ total columns id :=
    (hstop.le_lower hnodup hbest hid).trans (lowerBound_le_total columns _ id)
  have hleft : total columns other ≤ lbTopk := by
    by_cases hread : other ∈ readIds (columns.map Ranking.hits) outcome.rows
    · exact (total_le_upperBound hrows other).trans
        (hstop.settled other hread (hstop.lower_le hnodup hmem hbest hread hother))
    · obtain ⟨least, hleast, hattained⟩ := hstop.attained
      calc total columns other
        _ ≤ upperBound (columns.map Ranking.hits) outcome.rows other :=
          total_le_upperBound hrows other
        _ ≤ upperBound (columns.map Ranking.hits) outcome.rows least :=
          upperBound_le_of_notMem hrows hread least
        _ ≤ lbTopk := hstop.settled least hleast hattained.le
  exact hleft.trans hkept

/-- A ranking that starts with the ids 1 and 2. -/
def twoHits (first second : ℚ) (hfirst : second ≤ first) (hsecond : 0 ≤ second) :
    Ranking Nat 0 where
  score id := if id = 1 then first else if id = 2 then second else 0
  least id := by
    split_ifs
    · exact hsecond.trans hfirst
    · exact hsecond
    · exact le_rfl
  hits := [⟨1, first⟩, ⟨2, second⟩]
  nonempty := by simp
  agrees := by simp
  sorted := by simpa using hfirst
  outside id hid := by
    simp only [List.mem_cons, List.not_mem_nil, or_false, forall_eq_or_imp, forall_eq] at hid ⊢
    simp [hid.1.symm, hid.2.symm, hsecond, hsecond.trans hfirst]

def twoRankings : List (Ranking Nat 0) :=
  [twoHits 3 2 (by decide) (by decide), twoHits 2 1 (by decide) (by decide)]

theorem nra_stop_twoRankings :
    ∃ outcome, nra listOrder listOrder 1 0 (twoRankings.map Ranking.hits) = some outcome ∧
      outcome.flag = true ∧ outcome.ids.Nodup ∧ outcome.ids.length = 1 ∧
      ∀ id ∈ outcome.ids, ∀ other, other ∉ outcome.ids →
        total twoRankings other ≤ total twoRankings id := by
  have hrun : (nra listOrder listOrder 1 0 (twoRankings.map Ranking.hits)).map
      (fun outcome => (outcome.flag, outcome.rows)) = some (true, 2) := by
    decide +kernel
  obtain ⟨outcome, hcall, hpair⟩ := Option.map_eq_some_iff.mp hrun
  obtain ⟨hflag, hrows⟩ := Prod.mk.inj hpair
  have hdistinct : Set.InjOn (lowerBound 0 (twoRankings.map Ranking.hits) 2)
      (readIds (twoRankings.map Ranking.hits) 2) := by
    have hdecide : ∀ first ∈ readIds (twoRankings.map Ranking.hits) 2,
        ∀ second ∈ readIds (twoRankings.map Ranking.hits) 2,
          lowerBound 0 (twoRankings.map Ranking.hits) 2 first =
            lowerBound 0 (twoRankings.map Ranking.hits) 2 second → first = second := by
      decide +kernel
    exact fun first hfirst second hsecond => hdecide first hfirst second hsecond
  exact ⟨outcome, hcall, hflag, nra_stop_sound listOrder listOrder (by decide) hcall hflag
    (hrows ▸ hdistinct)⟩

end VBase.Milvus
