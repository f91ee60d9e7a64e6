import VBase.Topk.Offering
import Mathlib.Algebra.Order.Ring.Rat
import Mathlib.Tactic.NormNum.Basic

/-! # Where the rank score is read

`topk` and `multicol_topk` run one query for each order-by expression. With more
than one of them, the query selects the rank expression after the attributes, and
PostgreSQL appends the order-by expression when the select list does not have it.
`execFagins` takes the last column but one for the rank expression. With a single
order-by expression the query does not select the rank expression at all, and
`execFagins` takes the distance that the index reports.

Expressions are of any type with a decidable equality, and are evaluated on rows
of any type. The conversion of a number to `float` is the parameter `toFloat`.
-/

namespace VBase.Topk

open PriorityQueue VBase.AccessMethod

/-- A value of a slot, by the type of its attribute. -/
inductive Datum where
  | null
  | int4 (value : Int32)
  | int8 (value : Int64)
  | float8 (value : ℚ)
  | other (oid : Nat)

variable {E R C D : Type}

/-- What `castAttrToFloat` makes of the attribute it reads. -/
def castToFloat (toFloat : ℚ → D) : Datum → Except String D
  | .null => .ok (toFloat 0)
  | .int4 value => .ok (toFloat value.toInt)
  | .int8 value => .ok (toFloat value.toInt)
  | .float8 value => .ok (toFloat value)
  | .other oid => .error s!"castFloat unsupported oid = {oid}"

/-- Attributes are counted from one. -/
def castAttrToFloat (toFloat : ℚ → D) (slot : List Datum) (attno : Nat) : Except String D :=
  castToFloat toFloat (slot.getD (attno - 1) .null)

/-- An order-by expression that an index serves, with the distances that the index reports. These
are its own, and need not be the values of the expression. -/
structure OrderBy (E R : Type) where
  exp : E
  distance : R → ℚ

/-- The arguments that make the queries of the children. An empty `rank_exp` is `none`. -/
structure Arguments (E R : Type) where
  attrExp : List E
  rankExp : Option E
  orderbyExpressions : List (OrderBy E R)

/-- The search of an order-by expression in a target list, to which it may be appended. -/
def findTargetlistEntrySQL99 [DecidableEq E] (expr : E) (tlist : List E) : List E :=
  if expr ∈ tlist then tlist else tlist ++ [expr]

namespace Arguments

/-- The rank expression, by default the sum of the order-by expressions. -/
def rank [Add E] (args : Arguments E R) : Option E :=
  match args.rankExp, args.orderbyExpressions.map OrderBy.exp with
  | some rankExp, _ => some rankExp
  | none, [] => none
  | none, first :: others => some (others.foldl (· + ·) first)

/-- The select list of the query of a child. With several order-by expressions the attributes
are followed by a comma, so that a query without attributes does not parse. -/
def selectList [Add E] (args : Arguments E R) : Option (List E) :=
  if args.orderbyExpressions.length = 1 then some args.attrExp
  else if args.attrExp.isEmpty then none
  else args.rank.map fun rank => args.attrExp ++ [rank]

/-- The columns of the tuples of a child. -/
def targetList [Add E] [DecidableEq E] (args : Arguments E R) (orderby : OrderBy E R) :
    Option (List E) :=
  args.selectList.map (findTargetlistEntrySQL99 orderby.exp)

/-- The score that the pull loop reads from a tuple, which has the columns `targets` of a row
and the distance of the row as its order-by value. -/
def rankScore (args : Arguments E R) (value : E → R → Datum) (toFloat : ℚ → D) (targets : List E)
    (orderby : OrderBy E R) (row : R) : Except String D :=
  let slot := targets.map fun target => value target row
  let isSingleCol := args.orderbyExpressions.length = 1
  if 1 < args.orderbyExpressions.length then
    castAttrToFloat toFloat slot (slot.length - if isSingleCol then 0 else 1)
  else .ok (toFloat (orderby.distance row))

/-- The score of a row is read where the rank expression is, or where something else has its
value: the distance that the index reports, if there is a single order-by expression, or the last
attribute when the order-by expression was not appended. -/
def ReadsRank (args : Arguments E R) (value : E → R → Datum) (toFloat : ℚ → D) (rank : E)
    (orderby : OrderBy E R) (row : R) : Prop :=
  if args.orderbyExpressions.length = 1 then
    .ok (toFloat (orderby.distance row)) = castToFloat toFloat (value rank row)
  else
    orderby.exp ∉ args.attrExp ++ [rank] ∨
      ∃ last ∈ args.attrExp.getLast?,
        castToFloat toFloat (value last row) = castToFloat toFloat (value rank row)

/-- The tuple is one that the scan for the order-by expression delivers for the row. -/
def Scores [Add E] [DecidableEq E] (args : Arguments E R) (value : E → R → Datum)
    (toFloat : ℚ → D) (orderby : OrderBy E R) (row : R) (tuple : Tuple D) : Prop :=
  ∃ targets, args.targetList orderby = some targets ∧
    args.rankScore value toFloat targets orderby row = .ok tuple.rankScore

variable {value : E → R → Datum} {args : Arguments E R} {orderby : OrderBy E R}

theorem rankScore_of_single (hsingle : args.orderbyExpressions.length = 1) (toFloat : ℚ → D)
    (targets : List E) (row : R) :
    args.rankScore value toFloat targets orderby row = .ok (toFloat (orderby.distance row)) := by
  simp [rankScore, hsingle]

/-- With several order-by expressions the score is the last column but one. -/
theorem rankScore_of_several (hseveral : 1 < args.orderbyExpressions.length) (toFloat : ℚ → D)
    (before : List E) (scored last : E) (row : R) :
    args.rankScore value toFloat (before ++ [scored, last]) orderby row =
      castToFloat toFloat (value scored row) := by
  have hnot : args.orderbyExpressions.length ≠ 1 := hseveral.ne'
  simp [rankScore, castAttrToFloat, hseveral, hnot]

variable [Add E] [DecidableEq E]

/-- The score of a tuple is the value of the rank expression exactly when it is read there. -/
theorem rankScore_eq_iff {rank : E} (hrank : args.rankExp = some rank)
    (horderby : orderby ∈ args.orderbyExpressions) {targets : List E}
    (htargets : args.targetList orderby = some targets) (toFloat : ℚ → D) (row : R) :
    args.rankScore value toFloat targets orderby row = castToFloat toFloat (value rank row) ↔
      args.ReadsRank value toFloat rank orderby row := by
  rw [ReadsRank]
  split
  next hsingle => rw [rankScore_of_single hsingle]
  next hnot =>
    have hlength := List.length_pos_of_mem horderby
    have hseveral : 1 < args.orderbyExpressions.length := by omega
    rcases List.eq_nil_or_concat' args.attrExp with hempty | ⟨init, last, hattrExp⟩
    · simp [targetList, selectList, hnot, hempty] at htargets
    · have htlist : findTargetlistEntrySQL99 orderby.exp (args.attrExp ++ [rank]) = targets := by
        simpa [targetList, selectList, hnot, Arguments.rank, hrank, hattrExp] using htargets
      unfold findTargetlistEntrySQL99 at htlist
      split at htlist
      next hmem =>
        have htargets' : targets = init ++ [last, rank] := by simp [← htlist, hattrExp]
        rw [htargets', rankScore_of_several hseveral, or_iff_right (not_not_intro hmem), hattrExp,
          List.getLast?_concat]
        simp
      next hmem =>
        have htargets' : targets = args.attrExp ++ [rank, orderby.exp] := by simp [← htlist]
        rw [htargets', rankScore_of_several hseveral]
        exact iff_of_true rfl (Or.inl hmem)

end Arguments

variable {Q : {T K : Type} → [LinearOrder K] → (T → K) → Type} [PriorityQueue Q]
variable [LinearOrder D]

/-- What holds of the rows of the children holds of every tuple that was pulled. -/
theorem Reaches.pulled {bound termCond : UInt32} {start reached : List (Child C D) × Pulling Q C D}
    (hreaches : Reaches bound termCond start reached) {motive : Tuple D → Prop}
    (hrows : ∀ child ∈ start.1, ∀ tuple ∈ child.rows, motive tuple)
    (hpulled : ∀ tuple ∈ start.2.tuples, motive tuple) :
    (∀ child ∈ reached.1, ∀ tuple ∈ child.rows, motive tuple) ∧
      ∀ tuple ∈ reached.2.tuples, motive tuple := by
  induction hreaches with
  | refl => exact ⟨hrows, hpulled⟩
  | tail _ hstep ih =>
      obtain ⟨hrows, hpulled⟩ := ih
      cases hstep with
      | pull before after context tuple rows s =>
          simp only [List.forall_mem_append, List.forall_mem_cons] at hrows ⊢
          rw [Pulling.take_tuples, List.forall_mem_cons]
          exact ⟨⟨hrows.1, hrows.2.1.2, hrows.2.2⟩, hrows.2.1.1, hpulled⟩
      | exhausted s hmem hempty => exact ⟨hrows, hpulled⟩
      | dropped children hdrops => exact ⟨hrows, hpulled⟩

section

variable [Add E] [DecidableEq E] {value : E → R → Datum}

/-- Every tuple that a call pulls is one of a child, and is scored by the value of the rank
expression on its row of the heap exactly when the score is read where that value is. -/
theorem execFagins_rankScore_iff {args : Arguments E R} {rank : E}
    (hrank : args.rankExp = some rank) (toFloat : ℚ → D) (heap : ItemPointer → R)
    {children : List (Child C D)}
    (hscans : List.Forall₂ (fun orderby child => ∀ tuple ∈ child.rows,
      args.Scores value toFloat orderby (heap tuple.tid) tuple) args.orderbyExpressions children)
    (hchildren : children ≠ []) (k ef termCond : UInt32) (context : C) :
    let node := initFaginsState (Q := Q) k ef termCond children hchildren context
    ∀ tuple, tuple ∈ (execFagins node).2.pulling.tuples ∨
        tuple ∈ (execFaginsM node).2.pulling.tuples →
      (∃ scan ∈ args.orderbyExpressions.zip children, tuple ∈ scan.2.rows) ∧
        ∀ scan ∈ args.orderbyExpressions.zip children, tuple ∈ scan.2.rows →
          (.ok tuple.rankScore = castToFloat toFloat (value rank (heap tuple.tid)) ↔
            args.ReadsRank value toFloat rank scan.1 (heap tuple.tid)) := by
  intro node
  have hrows : ∀ child ∈ children, ∀ tuple ∈ child.rows,
      ∃ scan ∈ args.orderbyExpressions.zip children, tuple ∈ scan.2.rows := by
    intro child hchild tuple htuple
    obtain ⟨index, hlt, rfl⟩ := List.getElem_of_mem hchild
    have hlength := hscans.length_eq
    have hzip : index < (args.orderbyExpressions.zip children).length := by
      rw [List.length_zip]
      omega
    refine ⟨_, List.getElem_mem hzip, ?_⟩
    rwa [List.getElem_zip]
  have hpulled : ∀ bound, ∀ tuple ∈ (node.roundRobin bound).pulling.tuples,
      ∃ scan ∈ args.orderbyExpressions.zip children, tuple ∈ scan.2.rows := fun bound =>
    ((FaginsState.roundRobin_reaches bound node).1.pulled hrows (by simp [node, initFaginsState,
      FaginsState.enter, Pulling.tuples])).2
  rintro tuple htuple
  refine ⟨htuple.elim (hpulled ef tuple) (hpulled k tuple), ?_⟩
  rintro ⟨orderby, child⟩ hscan hmem
  obtain ⟨targets, htargets, hscore⟩ := (List.forall₂_iff_zip.mp hscans).2 hscan tuple hmem
  rw [← hscore]
  exact Arguments.rankScore_eq_iff hrank (List.of_mem_zip hscan).1 htargets toFloat _

end

/-- Expressions by number on a single row: an `id` of seven, and distances. -/
def idAndDistances (exp : Nat) (_ : Unit) : Datum :=
  if exp = 0 then .int4 7 else .float8 exp

/-- A distance as an order-by expression, whose value the index reports. -/
def distanceExp (exp : Nat) : OrderBy Nat Unit where
  exp := exp
  distance := fun _ => exp

/-- The rank expression is a sum that no order-by expression equals. -/
theorem execFagins_rankScore_of_sum :
    let args : Arguments Nat Unit :=
      ⟨[0], some 3, [distanceExp 1, distanceExp 2]⟩
    let children : List (Child Unit ℚ) := [⟨(), [⟨⟨0, 1⟩, 3⟩]⟩, ⟨(), [⟨⟨0, 1⟩, 3⟩]⟩]
    args.rankExp = some 3 ∧ children ≠ [] ∧
    List.Forall₂ (fun orderby child => ∀ tuple ∈ child.rows,
      args.Scores idAndDistances id orderby () tuple) args.orderbyExpressions children ∧
    ∀ tuple ∈ (execFagins (initFaginsState (Q := @SortedQueue) 1 64 50 children (by simp [children])
        ())).2.pulling.tuples,
      .ok tuple.rankScore = castToFloat id (idAndDistances 3 ()) := by
  intro args children
  have hscans : List.Forall₂ (fun orderby child => ∀ tuple ∈ child.rows,
      args.Scores idAndDistances id orderby () tuple) args.orderbyExpressions children := by
    simp only [args, children, List.forall₂_cons, List.forall₂_nil_left_iff, and_true,
      List.forall_mem_singleton]
    exact ⟨⟨[0, 3, 1], rfl, rfl⟩, ⟨[0, 3, 2], rfl, rfl⟩⟩
  have hrank : args.rankExp = some 3 := rfl
  refine ⟨hrank, by simp [children], hscans, fun tuple htuple => ?_⟩
  obtain ⟨⟨scan, hscan, hmem⟩, hiff⟩ := execFagins_rankScore_iff (Q := @SortedQueue) hrank id
    (fun _ => ()) hscans (by simp [children]) 1 64 50 () tuple (Or.inl htuple)
  refine (hiff scan hscan hmem).mpr ?_
  simp only [args, children, List.zip_cons_cons, List.zip_nil_right, List.mem_cons,
    List.not_mem_nil, or_false] at hscan
  rcases hscan with rfl | rfl <;> exact Or.inl (by decide)

/-- The rank expression is the first order-by expression, whose child has no further column
for it: its tuple is scored by the `id`. -/
theorem execFagins_scored_by_attribute :
    let args : Arguments Nat Unit :=
      ⟨[0], some 1, [distanceExp 1, distanceExp 2]⟩
    let children : List (Child Unit ℚ) := [⟨(), [⟨⟨0, 1⟩, 7⟩]⟩, ⟨(), [⟨⟨0, 1⟩, 1⟩]⟩]
    List.Forall₂ (fun orderby child => ∀ tuple ∈ child.rows,
      args.Scores idAndDistances id orderby () tuple) args.orderbyExpressions children ∧
    ¬ ∀ tuple ∈ (execFagins (initFaginsState (Q := @SortedQueue) 1 64 50 children
        (by simp [children]) ())).2.pulling.tuples,
      .ok tuple.rankScore = castToFloat id (idAndDistances 1 ()) := by
  intro args children
  refine ⟨?_, fun hall => ?_⟩
  · simp only [args, children, List.forall₂_cons, List.forall₂_nil_left_iff, and_true,
      List.forall_mem_singleton]
    exact ⟨⟨[0, 1], rfl, rfl⟩, ⟨[0, 1, 2], rfl, rfl⟩⟩
  · have hscore := hall ⟨⟨0, 1⟩, 7⟩ (by decide +kernel)
    have hseven : (7 : ℚ) = 1 := Except.ok.inj hscore
    norm_num at hseven

end VBase.Topk
