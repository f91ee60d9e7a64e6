import VBase.Topk.Offering
import Mathlib.Algebra.Order.Floor.Ring
import Mathlib.Data.Rat.Floor

/-! # The greedy and the weighted scheduler

`topk_greedy.cpp` and `topk_opt.cpp` decide at the start of every round how often
each child is pulled in it. The first round pulls every child twenty times. After
it, the greedy scheduler pulls the child with the best average score a thousand
times, and the weighted scheduler shares out pulls by the scores of the last
round and by the averages. Scores are rationals, and a quotient by zero is left to
the parameter `byZero`.
-/

namespace VBase.Topk

open PriorityQueue VBase.AccessMethod

variable {Q : {T K : Type} → [LinearOrder K] → (T → K) → Type} [PriorityQueue Q]
variable {C A : Type}

/-- A child with its entries of `next_round`, `score_list` and `count_list`. -/
structure Column (C : Type) where
  child : Child C ℚ
  nextRound : Int
  score : ℚ
  count : Nat

namespace Column

/-- The child after a pull. -/
def advance (column : Column C) (rows : List (Tuple ℚ)) : Column C :=
  { column with child := { column.child with rows := rows } }

/-- Add the score of a new tuple. -/
def add (column : Column C) (rankScore : ℚ) : Column C :=
  { column with score := column.score + rankScore, count := column.count + 1 }

/-- `next_round[i]--`. -/
def countDown (column : Column C) : Column C :=
  { column with nextRound := column.nextRound - 1 }

@[simp] theorem advance_child (column : Column C) (rows : List (Tuple ℚ)) :
    (column.advance rows).child = ⟨column.child.esQueryCxt, rows⟩ := rfl

@[simp] theorem add_child (column : Column C) (rankScore : ℚ) :
    (column.add rankScore).child = column.child := rfl

@[simp] theorem countDown_child (column : Column C) : column.countDown.child = column.child := rfl

end Column

section Pass

variable (bound termCond : UInt32) (record : Bool) (note : Nat → ℚ → A → A)

/-- The loop over the pulls of one child, for at most `count` pulls. A new tuple is added to
the averages if `record` is set, and `note` is told of it. -/
def pullColumn (orderbyId : Nat) :
    Nat → Column C → Pulling Q C ℚ → A → Column C × Pulling Q C ℚ × A
  | 0, column, s, acc => (column, s, acc)
  | count + 1, column, s, acc =>
      match column.child.rows with
      | [] => (column, { s with finish := true }, acc)
      | tuple :: rows =>
          let next := s.take bound column.child.esQueryCxt tuple
          let column := column.advance rows
          if castToUint64 tuple.tid ∈ s.seenSet then
            pullColumn orderbyId count column.countDown next acc
          else
            let column := if record then column.add tuple.rankScore else column
            let acc := note orderbyId tuple.rankScore acc
            if termCond ≤ next.consecutiveDrops then (column, next, acc)
            else pullColumn orderbyId count column.countDown next acc

/-- The loop over the children. It is left when there were too many drops, but not when a
child is exhausted. -/
def passColumns :
    Nat → List (Column C) → Pulling Q C ℚ → A → List (Column C) × Pulling Q C ℚ × A
  | _, [], s, acc => ([], s, acc)
  | orderbyId, column :: others, s, acc =>
      let pulled := pullColumn bound termCond record note orderbyId column.nextRound.toNat
        column s acc
      if termCond ≤ pulled.2.1.consecutiveDrops then (pulled.1 :: others, pulled.2)
      else
        let after := passColumns (orderbyId + 1) others pulled.2.1 pulled.2.2
        (pulled.1 :: after.1, after.2)

theorem passColumns_length (orderbyId : Nat) (columns : List (Column C)) (s : Pulling Q C ℚ)
    (acc : A) :
    (passColumns bound termCond record note orderbyId columns s acc).1.length =
      columns.length := by
  induction columns generalizing orderbyId s acc with
  | nil => rfl
  | cons column others ih =>
      rw [passColumns]
      split
      · rfl
      · simp [ih]

/-- What one pull of a column does: it finds the child exhausted, or takes its next tuple and
goes on or stops. -/
theorem pullColumn_cases {motive : Column C × Pulling Q C ℚ × A → Prop} (orderbyId count : Nat)
    (column : Column C) (s : Pulling Q C ℚ) (acc : A)
    (hexhausted : column.child.rows = [] → motive (column, { s with finish := true }, acc))
    (hpull : ∀ tuple rows, column.child.rows = tuple :: rows → ∀ (next : Column C) (acc' : A),
      next.child = ⟨column.child.esQueryCxt, rows⟩ →
      motive (next, s.take bound column.child.esQueryCxt tuple, acc') ∧
      motive (pullColumn bound termCond record note orderbyId count next
        (s.take bound column.child.esQueryCxt tuple) acc')) :
    motive (pullColumn bound termCond record note orderbyId (count + 1) column s acc) := by
  rw [pullColumn]
  split
  next hrows => exact hexhausted hrows
  next tuple rows hrows =>
    dsimp only
    split
    · exact (hpull tuple rows hrows (column.advance rows).countDown acc rfl).2
    · have hchild : (if record then (column.advance rows).add tuple.rankScore
          else column.advance rows).child = ⟨column.child.esQueryCxt, rows⟩ := by
        cases record <;> rfl
      split
      · exact (hpull tuple rows hrows _ _ hchild).1
      · exact (hpull tuple rows hrows (Column.countDown _) _ hchild).2

/-- The pulls of a column are a sequence of steps. -/
theorem pullColumn_reaches (orderbyId count : Nat) (before after : List (Child C ℚ))
    (column : Column C) (s : Pulling Q C ℚ) (acc : A) :
    Reaches bound termCond (before ++ column.child :: after, s)
      (before ++ (pullColumn bound termCond record note orderbyId count column s acc).1.child ::
        after, (pullColumn bound termCond record note orderbyId count column s acc).2.1) := by
  induction count generalizing column s acc with
  | zero => exact Relation.ReflTransGen.refl
  | succ count ih =>
      refine pullColumn_cases bound termCond record note (motive := fun result =>
        Reaches bound termCond (before ++ column.child :: after, s)
          (before ++ result.1.child :: after, result.2.1)) orderbyId count column s acc ?_ ?_
      · intro hrows
        exact Relation.ReflTransGen.single
          (Step.exhausted s (List.mem_append_right before List.mem_cons_self) hrows)
      · intro tuple rows hrows next acc' hnext
        have hpull : Step bound termCond (before ++ column.child :: after, s)
            (before ++ next.child :: after, s.take bound column.child.esQueryCxt tuple) := by
          have hchild : column.child = ⟨column.child.esQueryCxt, tuple :: rows⟩ := by
            rw [← hrows]
          rw [hnext, hchild]
          exact Step.pull before after column.child.esQueryCxt tuple rows s
        exact ⟨Relation.ReflTransGen.single hpull,
          Relation.ReflTransGen.head hpull (ih next _ acc')⟩

theorem passColumns_reaches (orderbyId : Nat) (before : List (Child C ℚ))
    (columns : List (Column C)) (s : Pulling Q C ℚ) (acc : A) :
    Reaches bound termCond (before ++ columns.map Column.child, s)
      (before ++
          (passColumns bound termCond record note orderbyId columns s acc).1.map Column.child,
        (passColumns bound termCond record note orderbyId columns s acc).2.1) := by
  induction columns generalizing orderbyId before s acc with
  | nil => exact Relation.ReflTransGen.refl
  | cons column others ih =>
      have hfirst := pullColumn_reaches bound termCond record note orderbyId
        column.nextRound.toNat before (others.map Column.child) column s acc
      rw [passColumns]
      dsimp only
      generalize pullColumn bound termCond record note orderbyId column.nextRound.toNat column s
        acc = pulled at hfirst
      split
      · exact hfirst
      · have hrest := ih (orderbyId + 1) (before ++ [pulled.1.child]) pulled.2.1 pulled.2.2
        rw [List.append_assoc, List.append_assoc, List.singleton_append,
          List.singleton_append] at hrest
        exact Relation.ReflTransGen.trans hfirst hrest

theorem pullColumn_finish (orderbyId count : Nat) (column : Column C) (s : Pulling Q C ℚ)
    (acc : A) (hfinish : s.finish = true) :
    (pullColumn bound termCond record note orderbyId count column s acc).2.1.finish = true := by
  induction count generalizing column s acc with
  | zero => exact hfinish
  | succ count ih =>
      refine pullColumn_cases bound termCond record note
        (motive := fun result => result.2.1.finish = true) orderbyId count column s acc ?_ ?_
      · exact fun _ => rfl
      · intro tuple rows _ next acc' _
        exact ⟨by simpa using hfinish, ih next _ acc' (by simpa using hfinish)⟩

/-- A column that has pulls in the round is found exhausted or loses a tuple. -/
theorem pullColumn_pending (orderbyId count : Nat) (column : Column C) (s : Pulling Q C ℚ)
    (acc : A) :
    (pullColumn bound termCond record note orderbyId count column s acc).1.child.rows.length ≤
        column.child.rows.length ∧
      (0 < count →
        (pullColumn bound termCond record note orderbyId count column s acc).2.1.finish = true ∨
        (pullColumn bound termCond record note orderbyId count column s acc).1.child.rows.length <
          column.child.rows.length) := by
  induction count generalizing column s acc with
  | zero => exact ⟨Nat.le_refl _, fun hpos => absurd hpos (Nat.lt_irrefl 0)⟩
  | succ count ih =>
      refine pullColumn_cases bound termCond record note (motive := fun result =>
        result.1.child.rows.length ≤ column.child.rows.length ∧ (0 < count + 1 →
          result.2.1.finish = true ∨ result.1.child.rows.length < column.child.rows.length))
        orderbyId count column s acc ?_ ?_
      · exact fun _ => ⟨Nat.le_refl _, fun _ => Or.inl rfl⟩
      · intro tuple rows hrows next acc' hnext
        have hle := (ih next (s.take bound column.child.esQueryCxt tuple) acc').1
        rw [hrows, List.length_cons]
        rw [hnext] at hle ⊢
        dsimp only at hle
        exact ⟨⟨Nat.le_succ _, fun _ => Or.inr (Nat.lt_succ_self _)⟩, by omega, fun _ => by omega⟩

theorem passColumns_finish (orderbyId : Nat) (columns : List (Column C)) (s : Pulling Q C ℚ)
    (acc : A) (hfinish : s.finish = true) :
    (passColumns bound termCond record note orderbyId columns s acc).2.1.finish = true := by
  induction columns generalizing orderbyId s acc with
  | nil => exact hfinish
  | cons column others ih =>
      have hpulled := pullColumn_finish bound termCond record note orderbyId
        column.nextRound.toNat column s acc hfinish
      rw [passColumns]
      dsimp only
      split
      · exact hpulled
      · exact ih _ _ _ hpulled

theorem passColumns_pending_le (orderbyId : Nat) (columns : List (Column C)) (s : Pulling Q C ℚ)
    (acc : A) :
    pending ((passColumns bound termCond record note orderbyId columns s acc).1.map
      Column.child) ≤ pending (columns.map Column.child) := by
  induction columns generalizing orderbyId s acc with
  | nil => exact Nat.le_refl _
  | cons column others ih =>
      have hpulled := (pullColumn_pending bound termCond record note orderbyId
        column.nextRound.toNat column s acc).1
      rw [passColumns]
      dsimp only
      generalize pullColumn bound termCond record note orderbyId column.nextRound.toNat column s
        acc = pulled at hpulled
      split
      · simpa using hpulled
      · have hrest := ih (orderbyId + 1) pulled.2.1 pulled.2.2
        simp only [List.map_cons, pending_cons]
        omega

/-- A round in which some column has pulls ends the loop or pulls a tuple. -/
theorem passColumns_pending (orderbyId : Nat) (columns : List (Column C)) (s : Pulling Q C ℚ)
    (acc : A) (hpulls : ∃ column ∈ columns, 0 < column.nextRound) :
    (passColumns bound termCond record note orderbyId columns s acc).2.1.finish = true ∨
      termCond ≤ (passColumns bound termCond record note orderbyId columns s
        acc).2.1.consecutiveDrops ∨
      pending ((passColumns bound termCond record note orderbyId columns s acc).1.map
        Column.child) < pending (columns.map Column.child) := by
  induction columns generalizing orderbyId s acc with
  | nil => simp at hpulls
  | cons column others ih =>
      obtain ⟨hle, hlt⟩ := pullColumn_pending bound termCond record note orderbyId
        column.nextRound.toNat column s acc
      rw [passColumns]
      dsimp only
      generalize pullColumn bound termCond record note orderbyId column.nextRound.toNat column s
        acc = pulled at hle hlt
      split
      next hdrops => exact Or.inr (Or.inl hdrops)
      · have hrest := passColumns_pending_le bound termCond record note (orderbyId + 1) others
          pulled.2.1 pulled.2.2
        simp only [List.map_cons, pending_cons]
        obtain ⟨puller, hmem, hpos⟩ := hpulls
        rcases List.mem_cons.mp hmem with rfl | hother
        · rcases hlt (by omega) with hfinish | hfewer
          · exact Or.inl (passColumns_finish bound termCond record note _ _ _ _ hfinish)
          · exact Or.inr (Or.inr (by omega))
        · rcases ih (orderbyId + 1) pulled.2.1 pulled.2.2 ⟨puller, hother, hpos⟩ with
            hfinish | hdrops | hfewer
          · exact Or.inl hfinish
          · exact Or.inr (Or.inl hdrops)
          · exact Or.inr (Or.inr (by omega))

end Pass

/-- The local variables of a scheduler. `acc` is what it keeps of the new tuples. -/
structure Scheduling (Q : {T K : Type} → [LinearOrder K] → (T → K) → Type) (C A : Type) where
  columns : List (Column C)
  columns_ne : columns ≠ []
  pulling : Pulling Q C ℚ
  acc : A
  first : Bool

namespace Scheduling

/-- The pulls of a round and the check at its end. -/
def pass (bound termCond : UInt32) (record : Bool) (note : Nat → ℚ → A → A)
    (st : Scheduling Q C A) : Scheduling Q C A :=
  let after := passColumns bound termCond record note 0 st.columns st.pulling st.acc
  { st with
    columns := after.1
    columns_ne := by
      rw [← List.length_pos_iff, passColumns_length, List.length_pos_iff]
      exact st.columns_ne
    pulling := after.2.1.checkTermination termCond
    acc := after.2.2 }

/-- Set the pulls of the round from the index of a column. -/
def setRound (next : Nat → Column C → Int) (st : Scheduling Q C A) : Scheduling Q C A :=
  { st with
    columns := st.columns.mapIdx fun orderbyId column =>
      { column with nextRound := next orderbyId column }
    columns_ne := by
      rw [← List.length_pos_iff, List.length_mapIdx, List.length_pos_iff]
      exact st.columns_ne
    first := false }

/-- A running loop can take as many rounds as tuples are left, and one more, if every round
pulls something. -/
def measure (st : Scheduling Q C A) : Nat :=
  if st.pulling.finish then 0 else pending (st.columns.map Column.child) + 1

/-- The children and what the loop works on. -/
def state (st : Scheduling Q C A) : List (Child C ℚ) × Pulling Q C ℚ :=
  (st.columns.map Column.child, st.pulling)

omit [PriorityQueue Q] in
@[simp] theorem setRound_state (next : Nat → Column C → Int) (st : Scheduling Q C A) :
    (st.setRound next).state = st.state := by
  simp only [state, setRound, Prod.mk.injEq, and_true]
  exact List.ext_getElem (by simp) (by simp)

theorem pass_reaches (bound termCond : UInt32) (record : Bool) (note : Nat → ℚ → A → A)
    (st : Scheduling Q C A) :
    Reaches bound termCond st.state (st.pass bound termCond record note).state :=
  Relation.ReflTransGen.trans
    (passColumns_reaches bound termCond record note 0 [] st.columns st.pulling st.acc)
    (checkTermination_reaches bound termCond _ _)

/-- A round in which some column has pulls lowers the measure. -/
theorem pass_measure (bound termCond : UInt32) (record : Bool) (note : Nat → ℚ → A → A)
    (st : Scheduling Q C A) (hrunning : st.pulling.finish = false)
    (hpulls : ∃ column ∈ st.columns, 0 < column.nextRound) :
    (st.pass bound termCond record note).measure < st.measure := by
  have hpass := passColumns_pending bound termCond record note 0 st.columns st.pulling st.acc
    hpulls
  have hmeasure : st.measure = pending (st.columns.map Column.child) + 1 := by
    simp [measure, hrunning]
  rw [hmeasure, measure]
  split
  · exact Nat.succ_pos _
  next hgoing =>
    have hnot := (Pulling.checkTermination_finish termCond _).not.mp hgoing
    rw [not_or] at hnot
    exact Nat.succ_lt_succ ((hpass.resolve_left hnot.1).resolve_left hnot.2)

omit [PriorityQueue Q] in
theorem setRound_measure (next : Nat → Column C → Int) (st : Scheduling Q C A) :
    (st.setRound next).measure = st.measure := by
  have hstate := setRound_state next st
  simp only [state, Prod.mk.injEq] at hstate
  rw [measure, measure, hstate.1, hstate.2]

omit [PriorityQueue Q] in
theorem setRound_pulls (next : Nat → Column C → Int) (st : Scheduling Q C A) {orderbyId : Nat}
    (hlt : orderbyId < st.columns.length) (hpos : 0 < next orderbyId st.columns[orderbyId]) :
    ∃ column ∈ (st.setRound next).columns, 0 < column.nextRound :=
  ⟨_, List.mem_mapIdx.mpr ⟨orderbyId, hlt, rfl⟩, hpos⟩

end Scheduling

/-- The arrays of a scheduler start at zero. -/
def FaginsState.schedule (acc : A) (node : FaginsState Q C ℚ) : Scheduling Q C A where
  columns := node.children.map fun child => ⟨child, 0, 0, 0⟩
  columns_ne := by simpa using node.children_ne
  pulling := node.enter.pulling
  acc := acc
  first := true

/-- The node after the loop of a scheduler. -/
def FaginsState.withSchedule (node : FaginsState Q C ℚ) (st : Scheduling Q C A) :
    FaginsState Q C ℚ :=
  { node with
    children := st.columns.map Column.child
    children_ne := by simpa using st.columns_ne
    pulling := st.pulling }

/-- A quotient, where a quotient by zero may have any value. -/
def quotient (byZero : ℚ → ℚ) (x y : ℚ) : ℚ := if y = 0 then byZero x else x / y

/-! ## The greedy scheduler -/

namespace Greedy

/-- `std::numeric_limits<float>::max()`. -/
def floatMax : ℚ := (2 ^ 24 - 1) * 2 ^ 104

/-- One round of the search for the least average. -/
def better (byZero : ℚ → ℚ) (best : ℚ × Nat) (entry : Column C × Nat) : ℚ × Nat :=
  let score := quotient byZero entry.1.score entry.1.count
  if score < best.1 then (score, entry.2) else best

/-- The child with the least average score. -/
def minId (byZero : ℚ → ℚ) (columns : List (Column C)) : Nat :=
  (columns.zipIdx.foldl (better byZero) (floatMax, 0)).2

/-- A round of `while (!estate->finish)`. The averages are those of the first round. -/
def round (byZero : ℚ → ℚ) (bound termCond : UInt32) (st : Scheduling Q C Unit) :
    Scheduling Q C Unit :=
  if st.first then
    (st.setRound fun _ _ => 20).pass bound termCond true fun _ _ acc => acc
  else
    (st.setRound fun orderbyId _ => if orderbyId = minId byZero st.columns then 1000 else 0).pass
      bound termCond false fun _ _ acc => acc

def step (byZero : ℚ → ℚ) (bound termCond : UInt32) (st : Scheduling Q C Unit) :
    Option (Scheduling Q C Unit) :=
  if st.pulling.finish then none else some (round byZero bound termCond st)

/-- The pull loop of a call. -/
def pullLoop (byZero : ℚ → ℚ) (node : FaginsState Q C ℚ) : FaginsState Q C ℚ :=
  node.withSchedule
    (Loop.run Scheduling.measure (step byZero node.ef node.termCond) (node.schedule ()))

/-- The node of `topk_greedy.cpp`. -/
def execFagins (byZero : ℚ → ℚ) (node : FaginsState Q C ℚ) :
    Option (Tuple ℚ) × FaginsState Q C ℚ :=
  (pullLoop byZero node).produce

theorem foldl_better_lt (byZero : ℚ → ℚ) (bound : Nat) (entries : List (Column C × Nat))
    (best : ℚ × Nat) (hentries : ∀ entry ∈ entries, entry.2 < bound) (hbest : best.2 < bound) :
    (entries.foldl (better byZero) best).2 < bound := by
  induction entries generalizing best with
  | nil => exact hbest
  | cons entry rest ih =>
      refine ih _ (fun other hother => hentries other (List.mem_cons_of_mem _ hother)) ?_
      unfold better
      dsimp only
      split
      · exact hentries entry List.mem_cons_self
      · exact hbest

theorem minId_lt (byZero : ℚ → ℚ) {columns : List (Column C)} (hcolumns : columns ≠ []) :
    minId byZero columns < columns.length := by
  refine foldl_better_lt byZero columns.length columns.zipIdx _ (fun entry hentry => ?_)
    (List.length_pos_iff.mpr hcolumns)
  exact List.snd_lt_of_mem_zipIdx hentry

theorem step_eq_none {byZero : ℚ → ℚ} {bound termCond : UInt32} {st : Scheduling Q C Unit} :
    step byZero bound termCond st = none ↔ st.pulling.finish = true := by
  unfold step
  split <;> simp [*]

theorem step_decreases (byZero : ℚ → ℚ) (bound termCond : UInt32) :
    Loop.Decreases Scheduling.measure (step (Q := Q) (C := C) byZero bound termCond) := by
  intro st next hstep
  unfold step at hstep
  split at hstep
  · simp at hstep
  next hrunning =>
    obtain rfl := Option.some.inj hstep
    have hgoing : st.pulling.finish = false := by simpa using hrunning
    have hlength := List.length_pos_iff.mpr st.columns_ne
    unfold round
    split
    · rw [← st.setRound_measure fun _ _ => 20]
      exact Scheduling.pass_measure _ _ _ _ _ hgoing
        (Scheduling.setRound_pulls _ st hlength (by decide))
    · rw [← st.setRound_measure fun orderbyId _ =>
        if orderbyId = minId byZero st.columns then 1000 else 0]
      exact Scheduling.pass_measure _ _ _ _ _ hgoing
        (Scheduling.setRound_pulls _ st (minId_lt byZero st.columns_ne) (by simp))

theorem round_reaches (byZero : ℚ → ℚ) (bound termCond : UInt32) (st : Scheduling Q C Unit) :
    Reaches bound termCond st.state (round byZero bound termCond st).state := by
  unfold round
  split
  · rw [← st.setRound_state fun _ _ => 20]
    exact Scheduling.pass_reaches _ _ _ _ _
  · rw [← st.setRound_state fun orderbyId _ =>
      if orderbyId = minId byZero st.columns then 1000 else 0]
    exact Scheduling.pass_reaches _ _ _ _ _

/-- The pull loop always ends, after a sequence of steps. -/
theorem pullLoop_spec (byZero : ℚ → ℚ) (node : FaginsState Q C ℚ) :
    (pullLoop byZero node).pulling.finish = true ∧
      Reaches node.ef node.termCond (node.children, node.enter.pulling)
        ((pullLoop byZero node).children, (pullLoop byZero node).pulling) := by
  have hdec := step_decreases (Q := Q) (C := C) byZero node.ef node.termCond
  have hstart : (node.schedule ()).state = (node.children, node.enter.pulling) := by
    simp [Scheduling.state, FaginsState.schedule, Function.comp_def]
  constructor
  · exact step_eq_none.mp (Loop.run_done hdec (node.schedule ()))
  · rw [← hstart]
    refine Loop.run_invariant hdec (motive := fun st =>
      Reaches node.ef node.termCond (node.schedule ()).state st.state) (fun st next hst hstep => ?_)
      (node.schedule ()) Relation.ReflTransGen.refl
    unfold step at hstep
    split at hstep
    · simp at hstep
    · obtain rfl := Option.some.inj hstep
      exact Relation.ReflTransGen.trans hst (round_reaches byZero _ _ st)

theorem pullLoop_of_finish (byZero : ℚ → ℚ) {node : FaginsState Q C ℚ}
    (hfinish : node.pulling.finish = true) :
    (pullLoop byZero node).pulling.finish = true ∧
      (pullLoop byZero node).turnedOver = node.turnedOver := by
  have hstop : step byZero node.ef node.termCond (node.schedule ()) = none :=
    step_eq_none.mpr hfinish
  rw [pullLoop, Loop.run_of_none hstop]
  exact ⟨hfinish, rfl⟩

end Greedy

/-! ## The weighted scheduler -/

namespace Weighted

/-- The order of `local_pq`, which has its least score on top. -/
def localKey (item : ℚ × Nat) : ℚᵒᵈ := OrderDual.toDual item.1

/-- The conversion of a floating point number to an `int`. -/
def truncate (x : ℚ) : Int := if 0 ≤ x then ⌊x⌋ else ⌈x⌉

/-- A share of `count` pulls, rounded. -/
def share (byZero : ℚ → ℚ) (count : Nat) (part total : ℚ) : Int :=
  truncate (1 / 2 + quotient byZero (count * part) total)

/-- The best new tuples of the last round, with their children. -/
def localBest (k : UInt32) (localPq : Q localKey) : List (ℚ × Nat) :=
  (drain localPq).take k.toNat

def localScore (byZero : ℚ → ℚ) (item : ℚ × Nat) : ℚ :=
  quotient byZero 1 (1 / 10 ^ 10 + item.1)

/-- The pulls that the best new tuples earn for a child. -/
def localShare (byZero : ℚ → ℚ) (best : List (ℚ × Nat)) (orderbyId : Nat) : Int :=
  let total := (best.map (localScore byZero)).sum
  ((best.filter fun item => item.2 = orderbyId).map fun item =>
    share byZero best.length (localScore byZero item) total).sum

def weight (byZero : ℚ → ℚ) (column : Column C) : ℚ :=
  quotient byZero column.count column.score

/-- The pulls that its average earns for a child. -/
def weightShare (byZero : ℚ → ℚ) (k : UInt32) (columns : List (Column C)) (column : Column C) :
    Int :=
  share byZero k.toNat (weight byZero column) (columns.map (weight byZero)).sum

/-- A new tuple is added to `local_pq`. -/
def note (orderbyId : Nat) (rankScore : ℚ) (localPq : Q localKey) : Q localKey :=
  push localPq (rankScore, orderbyId)

/-- A round of `while (!estate->finish)`. `local_pq` holds the new tuples of one round. -/
def round (byZero : ℚ → ℚ) (k bound termCond : UInt32) (st : Scheduling Q C (Q localKey)) :
    Scheduling Q C (Q localKey) :=
  if st.first then (st.setRound fun _ _ => 20).pass bound termCond true note
  else
    let best := localBest k st.acc
    let shared := st.setRound fun orderbyId column =>
      column.nextRound + localShare byZero best orderbyId + weightShare byZero k st.columns column
    { shared with acc := PriorityQueue.empty }.pass bound termCond true note

def step (byZero : ℚ → ℚ) (k bound termCond : UInt32) (st : Scheduling Q C (Q localKey)) :
    Option (Scheduling Q C (Q localKey)) :=
  if st.pulling.finish then none else some (round byZero k bound termCond st)

/-- The local variables after at most `rounds` rounds of a call. -/
def after (byZero : ℚ → ℚ) (rounds : Nat) (node : FaginsState Q C ℚ) :
    Scheduling Q C (Q localKey) :=
  Loop.iterate (step byZero node.topk node.ef node.termCond) rounds
    (node.schedule PriorityQueue.empty)

/-- The pull loop of a call, which may take any number of rounds. -/
def pullLoop (byZero : ℚ → ℚ) (rounds : Nat) (node : FaginsState Q C ℚ) : FaginsState Q C ℚ :=
  node.withSchedule (after byZero rounds node)

/-- The node of `topk_opt.cpp`, when its loop ends within `rounds` rounds. -/
def execFagins (byZero : ℚ → ℚ) (rounds : Nat) (node : FaginsState Q C ℚ) :
    Option (Tuple ℚ) × FaginsState Q C ℚ :=
  (pullLoop byZero rounds node).produce

theorem round_reaches (byZero : ℚ → ℚ) (k bound termCond : UInt32)
    (st : Scheduling Q C (Q localKey)) :
    Reaches bound termCond st.state (round byZero k bound termCond st).state := by
  have hshared : ∀ (next : Nat → Column C → Int) (acc : Q localKey),
      { st.setRound next with acc := acc }.state = st.state :=
    fun next _ => st.setRound_state next
  unfold round
  split
  · rw [← st.setRound_state fun _ _ => 20]
    exact Scheduling.pass_reaches _ _ _ _ (st.setRound fun _ _ => 20)
  · rw [← hshared]
    exact Scheduling.pass_reaches _ _ _ _ _

/-- Whatever number of rounds is run, they are a sequence of steps. -/
theorem pullLoop_reaches (byZero : ℚ → ℚ) (rounds : Nat) (node : FaginsState Q C ℚ) :
    Reaches node.ef node.termCond (node.children, node.enter.pulling)
      ((pullLoop byZero rounds node).children, (pullLoop byZero rounds node).pulling) := by
  have hstart : (node.schedule (PriorityQueue.empty : Q localKey)).state =
      (node.children, node.enter.pulling) := by
    simp [Scheduling.state, FaginsState.schedule, Function.comp_def]
  rw [← hstart]
  refine Loop.iterate_invariant (motive := fun st : Scheduling Q C (Q localKey) =>
    Reaches node.ef node.termCond (node.schedule PriorityQueue.empty).state st.state)
    (fun st next hst hstep => ?_) rounds Relation.ReflTransGen.refl
  unfold step at hstep
  split at hstep
  · simp at hstep
  · obtain rfl := Option.some.inj hstep
    exact Relation.ReflTransGen.trans hst (round_reaches byZero _ _ _ st)

theorem pullLoop_of_finish (byZero : ℚ → ℚ) (rounds : Nat) {node : FaginsState Q C ℚ}
    (hfinish : node.pulling.finish = true) :
    (pullLoop byZero rounds node).pulling.finish = true ∧
      (pullLoop byZero rounds node).turnedOver = node.turnedOver := by
  have hstop : step byZero node.topk node.ef node.termCond
      (node.schedule (PriorityQueue.empty : Q localKey)) = none := if_pos hfinish
  rw [pullLoop, after, Loop.iterate_of_none hstop]
  exact ⟨hfinish, rfl⟩

end Weighted

end VBase.Topk
