import VBase.Foundation.Source
import VBase.AccessMethod.ScanDesc
import Mathlib.Data.Finset.Basic
import Mathlib.Algebra.GroupWithZero.Nat

/-! # The top-k node

`topk` and `multicol_topk` run one index scan per order-by expression and merge
them in a node of their own. `execFagins` pulls the scans in turn. A tuple whose
TID has not been seen is offered to a queue of the best so far, and the loop ends
when a scan is exhausted or when enough new tuples in a row were not kept. The
queue is then turned over onto a stack, from which every call takes one tuple.

`CurrentMemoryContext` is part of the state: the body of the loop switches to the
query context of the child that it pulls, and switches back by hand.
-/

namespace VBase.Topk

open PriorityQueue VBase.AccessMethod

/-- A tuple as the node sees it: `xs_heaptid_orig` of the scan, and the rank score. -/
structure Tuple (D : Type) where
  tid : ItemPointer
  rankScore : D
  deriving DecidableEq

/-- The key of a tuple in `seenSet`. A block number is stored as two halves. -/
def castToUint64 (key : ItemPointer) : UInt64 :=
  ((key.blkno >>> 16).toUInt16.toUInt64 <<< 32) ||| (key.blkno.toUInt16.toUInt64 <<< 16) |||
    key.offset.toUInt64

theorem castToUint64_toNat (key : ItemPointer) :
    (castToUint64 key).toNat = key.blkno.toNat * 65536 + key.offset.toNat := by
  have hblkno := key.blkno.toNat_lt
  have hoffset := key.offset.toNat_lt
  have hhigh : key.blkno.toNat >>> 16 % 65536 = key.blkno.toNat / 65536 := by
    rw [Nat.shiftRight_eq_div_pow]
    omega
  have hshift : (key.blkno.toNat / 65536) <<< 32 % 18446744073709551616 =
      (key.blkno.toNat / 65536) <<< 32 :=
    Nat.mod_eq_of_lt (by rw [Nat.shiftLeft_eq]; omega)
  have hshift' : (key.blkno.toNat % 65536) <<< 16 % 18446744073709551616 =
      (key.blkno.toNat % 65536) <<< 16 :=
    Nat.mod_eq_of_lt (by rw [Nat.shiftLeft_eq]; omega)
  -- the three parts do not overlap, so the bitwise or adds them
  have hlow : (key.blkno.toNat % 65536) <<< 16 ||| key.offset.toNat =
      (key.blkno.toNat % 65536) <<< 16 + key.offset.toNat :=
    (Nat.shiftLeft_add_eq_or_of_lt hoffset _).symm
  have hall : (key.blkno.toNat / 65536) <<< 32 |||
      ((key.blkno.toNat % 65536) <<< 16 + key.offset.toNat) =
      (key.blkno.toNat / 65536) <<< 32 + ((key.blkno.toNat % 65536) <<< 16 + key.offset.toNat) := by
    refine (Nat.shiftLeft_add_eq_or_of_lt ?_ _).symm
    rw [Nat.shiftLeft_eq]
    omega
  simp only [castToUint64, UInt64.toNat_or, UInt64.toNat_shiftLeft, UInt16.toNat_toUInt64,
    UInt32.toNat_toUInt16, UInt32.toNat_shiftRight, UInt32.reduceToNat, UInt64.reduceToNat,
    Nat.reduceMod, Nat.reducePow, hhigh, hshift, hshift']
  rw [Nat.or_assoc, hlow, hall, Nat.shiftLeft_eq, Nat.shiftLeft_eq]
  omega

/-- Different TIDs have different keys. -/
theorem castToUint64_injective : Function.Injective castToUint64 := by
  intro first second heq
  have hnat := congrArg UInt64.toNat heq
  rw [castToUint64_toNat, castToUint64_toNat] at hnat
  have hfirst := first.offset.toNat_lt
  have hsecond := second.offset.toNat_lt
  obtain ⟨blkno, offset⟩ := first
  obtain ⟨blkno', offset'⟩ := second
  have hblkno : blkno = blkno' := UInt32.toNat_inj.mp (by dsimp only at *; omega)
  have hoffset : offset = offset' := UInt16.toNat_inj.mp (by dsimp only at *; omega)
  rw [hblkno, hoffset]

/-- TIDs by number. -/
def tidOf (number : Nat) : ItemPointer :=
  ⟨UInt32.ofNat (number / 65536), UInt16.ofNat (number % 65536)⟩

theorem tidOf_inj {first second : Nat} (hfirst : first < 2 ^ 48) (hsecond : second < 2 ^ 48)
    (heq : tidOf first = tidOf second) : first = second := by
  simp only [tidOf, ItemPointer.mk.injEq] at heq
  have hblkno := congrArg UInt32.toNat heq.1
  have hoffset := congrArg UInt16.toNat heq.2
  simp only [UInt32.toNat_ofNat', UInt16.toNat_ofNat'] at hblkno hoffset
  omega

/-- A child scan: the `es_query_cxt` of its query, and the tuples it will still deliver. -/
structure Child (C D : Type) where
  esQueryCxt : C
  rows : List (Tuple D)

/-- What the pull loop works on. `pulled` is a history that the source does not keep: the
tuples pulled so far, each with the query context of its child, the last one first. -/
structure Pulling (Q : {T K : Type} → [LinearOrder K] → (T → K) → Type) (C D : Type)
    [LinearOrder D] where
  finish : Bool
  procPq : Q (Tuple.rankScore (D := D))
  seenSet : Finset UInt64
  consecutiveDrops : UInt32
  currentMemoryContext : C
  pulled : List (C × Tuple D)

variable {Q : {T K : Type} → [LinearOrder K] → (T → K) → Type} [PriorityQueue Q]
variable {C D : Type} [LinearOrder D]

namespace Pulling

/-- Offer a new tuple to the queue. A tuple that is not kept is a drop. -/
def offer (bound : UInt32) (tuple : Tuple D) (s : Pulling Q C D) : Pulling Q C D :=
  if accepts bound.toNat s.procPq tuple then
    { s with procPq := pushBounded bound.toNat s.procPq tuple, consecutiveDrops := 0 }
  else { s with consecutiveDrops := s.consecutiveDrops + 1 }

/-- The body of the pull loop for a tuple that was delivered. -/
def take (bound : UInt32) (context : C) (tuple : Tuple D) (s : Pulling Q C D) :
    Pulling Q C D :=
  let switched :=
    { s with currentMemoryContext := context, pulled := (context, tuple) :: s.pulled }
  -- `continue`, with the context of the child still in place
  if castToUint64 tuple.tid ∈ s.seenSet then switched
  else
    { switched.offer bound tuple with
      seenSet := insert (castToUint64 tuple.tid) s.seenSet
      currentMemoryContext := s.currentMemoryContext }

end Pulling

/-- One pull from each child in turn, up to the first that is exhausted. -/
def pullEach (bound : UInt32) :
    List (Child C D) → Pulling Q C D → List (Child C D) × Pulling Q C D
  | [], s => ([], s)
  | child :: others, s =>
      match child.rows with
      | [] => (child :: others, { s with finish := true })
      | tuple :: rows =>
          let after := pullEach bound others (s.take bound child.esQueryCxt tuple)
          ({ child with rows := rows } :: after.1, after.2)

/-- The check at the end of every round. -/
def Pulling.checkTermination (termCond : UInt32) (s : Pulling Q C D) : Pulling Q C D :=
  if termCond ≤ s.consecutiveDrops then { s with finish := true } else s

/-- The node. There is a child, since `InitFaginsState` reads the first one. In
`multicol_topk.cpp` the node has no `ef`, and `execFaginsM` does not read it. -/
structure FaginsState (Q : {T K : Type} → [LinearOrder K] → (T → K) → Type) (C D : Type)
    [LinearOrder D] where
  topk : UInt32
  ef : UInt32
  termCond : UInt32
  children : List (Child C D)
  children_ne : children ≠ []
  pulling : Pulling Q C D
  resultStack : List (Tuple D)

def initFaginsState (k ef termCond : UInt32) (children : List (Child C D))
    (hchildren : children ≠ []) (context : C) : FaginsState Q C D where
  topk := k
  ef := ef
  termCond := termCond
  children := children
  children_ne := hchildren
  pulling := ⟨false, PriorityQueue.empty, ∅, 0, context, []⟩
  resultStack := []

/-- The number of tuples that the children will still deliver. -/
def pending (children : List (Child C D)) : Nat := (children.map fun child => child.rows.length).sum

omit [LinearOrder D] in
@[simp] theorem pending_nil : pending ([] : List (Child C D)) = 0 := rfl

omit [LinearOrder D] in
@[simp] theorem pending_cons (child : Child C D) (others : List (Child C D)) :
    pending (child :: others) = child.rows.length + pending others := by
  simp [pending]

theorem pullEach_ne (bound : UInt32) {children : List (Child C D)} (hchildren : children ≠ [])
    (s : Pulling Q C D) : (pullEach bound children s).1 ≠ [] := by
  cases children with
  | nil => exact absurd rfl hchildren
  | cons child others =>
      rw [pullEach]
      split <;> simp

theorem pullEach_pending_le (bound : UInt32) (children : List (Child C D)) (s : Pulling Q C D) :
    pending (pullEach bound children s).1 ≤ pending children := by
  induction children generalizing s with
  | nil => exact Nat.le_refl _
  | cons child others ih =>
      rw [pullEach]
      split
      · exact Nat.le_refl _
      next tuple rows hrows =>
        have hle := ih (s.take bound child.esQueryCxt tuple)
        simp only [pending_cons, hrows, List.length_cons]
        omega

/-- A round pulls a tuple or finds a child exhausted. -/
theorem pullEach_pending (bound : UInt32) {children : List (Child C D)} (hchildren : children ≠ [])
    (s : Pulling Q C D) :
    (pullEach bound children s).2.finish = true ∨
      pending (pullEach bound children s).1 < pending children := by
  obtain ⟨child, others, rfl⟩ := List.exists_cons_of_ne_nil hchildren
  rw [pullEach]
  split
  · exact Or.inl rfl
  next tuple rows hrows =>
    have hle := pullEach_pending_le bound others (s.take bound child.esQueryCxt tuple)
    simp only [pending_cons, hrows, List.length_cons]
    omega

omit [PriorityQueue Q] in
theorem Pulling.checkTermination_finish (termCond : UInt32) (s : Pulling Q C D) :
    (s.checkTermination termCond).finish = true ↔
      s.finish = true ∨ termCond ≤ s.consecutiveDrops := by
  unfold checkTermination
  split <;> simp [*]

namespace FaginsState

/-- A round of `while (!estate->finish)`. -/
def round (bound : UInt32) (node : FaginsState Q C D) : FaginsState Q C D :=
  let after := pullEach bound node.children node.pulling
  { node with
    children := after.1
    children_ne := pullEach_ne bound node.children_ne node.pulling
    pulling := after.2.checkTermination node.termCond }

def step (bound : UInt32) (node : FaginsState Q C D) : Option (FaginsState Q C D) :=
  if node.pulling.finish then none else some (node.round bound)

/-- A running loop can take as many rounds as tuples are left, and one more. -/
def measure (node : FaginsState Q C D) : Nat :=
  if node.pulling.finish then 0 else pending node.children + 1

/-- `consecutive_drops` is a local variable of a call. -/
def enter (node : FaginsState Q C D) : FaginsState Q C D :=
  { node with pulling := { node.pulling with consecutiveDrops := 0 } }

/-- The pull loop of a call. -/
def roundRobin (bound : UInt32) (node : FaginsState Q C D) : FaginsState Q C D :=
  Loop.run measure (step bound) node.enter

/-- The stack after the queue was turned over onto it. -/
def turnedOver (node : FaginsState Q C D) : List (Tuple D) :=
  (drain node.pulling.procPq).reverse ++ node.resultStack

/-- The end of a call: turn the queue over onto the stack, and take the tuple on top. -/
def produce (node : FaginsState Q C D) : Option (Tuple D) × FaginsState Q C D :=
  (node.turnedOver.head?,
    { node with
      pulling := { node.pulling with procPq := PriorityQueue.empty }
      resultStack := node.turnedOver.tail })

theorem step_of_running {node : FaginsState Q C D} (bound : UInt32)
    (hrunning : node.pulling.finish = false) : node.step bound = some (node.round bound) := by
  simp [step, hrunning]

theorem step_decreases (bound : UInt32) :
    Loop.Decreases measure (step (Q := Q) (C := C) (D := D) bound) := by
  intro node next hstep
  unfold step at hstep
  split at hstep
  · simp at hstep
  next hrunning =>
    obtain rfl := Option.some.inj hstep
    have hround := pullEach_pending bound node.children_ne node.pulling
    unfold measure
    rw [if_neg hrunning]
    split
    · exact Nat.succ_pos _
    next hgoing =>
      refine Nat.succ_lt_succ (hround.resolve_left fun hfinish => hgoing ?_)
      exact (Pulling.checkTermination_finish _ _).mpr (Or.inl hfinish)

/-- The pull loop always ends. -/
theorem roundRobin_finish (bound : UInt32) (node : FaginsState Q C D) :
    (node.roundRobin bound).pulling.finish = true := by
  have hdone := Loop.run_done (step_decreases bound) node.enter
  rw [← roundRobin] at hdone
  by_contra hrunning
  simp [step, hrunning] at hdone

theorem roundRobin_of_finish (bound : UInt32) {node : FaginsState Q C D}
    (hfinish : node.pulling.finish = true) : node.roundRobin bound = node.enter :=
  Loop.run_of_none (by simp [step, enter, hfinish])

@[simp] theorem produce_turnedOver (node : FaginsState Q C D) :
    node.produce.2.turnedOver = node.turnedOver.tail := by
  have hempty : drain (PriorityQueue.empty : Q (Tuple.rankScore (D := D))) = [] :=
    drain_of_none (top_eq_none_iff.mpr elems_empty)
  rw [turnedOver, produce]
  simp [hempty]

end FaginsState

/-- The node of `topk.cpp`. -/
def execFagins (node : FaginsState Q C D) : Option (Tuple D) × FaginsState Q C D :=
  (node.roundRobin node.ef).produce

/-- The node of `multicol_topk.cpp`, whose queue is bounded by `k`. -/
def execFaginsM (node : FaginsState Q C D) : Option (Tuple D) × FaginsState Q C D :=
  (node.roundRobin node.topk).produce

/-- What a set-returning function keeps between its calls. -/
structure FuncCallContext (Q : {T K : Type} → [LinearOrder K] → (T → K) → Type) (C D : Type)
    [LinearOrder D] where
  callCntr : Nat
  maxCalls : Int
  userFctx : FaginsState Q C D

/-- The part of `topk` that every call runs. `max_calls` is read as an `int`. -/
def topkCalls (exec : FaginsState Q C D → Option (Tuple D) × FaginsState Q C D) :
    Source (FuncCallContext Q C D) Empty (Tuple D) where
  pull := fun funcctx =>
    if funcctx.callCntr < funcctx.maxCalls then
      match exec funcctx.userFctx with
      | (none, node) => Except.ok (none, { funcctx with userFctx := node })
      | (some tuple, node) =>
          Except.ok (some tuple,
            { funcctx with callCntr := funcctx.callCntr + 1, userFctx := node })
    else Except.ok (none, funcctx)
  remaining := fun funcctx => (funcctx.maxCalls - funcctx.callCntr).toNat
  pull_remaining := by
    intro funcctx tuple next hpull
    split at hpull
    next hmore =>
      split at hpull
      · simp at hpull
      · simp only [Except.ok.injEq, Prod.mk.injEq] at hpull
        obtain ⟨-, rfl⟩ := hpull
        dsimp only
        omega
    · simp at hpull

/-- The calls hand out the stack that the first of them leaves, as far as `max_calls` allows. -/
theorem topkCalls_yields {loop : FaginsState Q C D → FaginsState Q C D}
    (hloop : ∀ node, node.pulling.finish = true →
      (loop node).pulling.finish = true ∧ (loop node).turnedOver = node.turnedOver)
    (funcctx : FuncCallContext Q C D) (hfinish : (loop funcctx.userFctx).pulling.finish = true) :
    ∃ run, (topkCalls fun node => (loop node).produce).Yields funcctx run ∧
      run.map Prod.fst = (loop funcctx.userFctx).turnedOver.take
        (funcctx.maxCalls - funcctx.callCntr).toNat := by
  have hover : ∀ funcctx : FuncCallContext Q C D, ¬ funcctx.callCntr < funcctx.maxCalls →
      (topkCalls fun node => (loop node).produce).pull funcctx =
        Except.ok (none, funcctx) := by
    intro funcctx hmore
    simp [topkCalls, hmore]
  induction hstack : (loop funcctx.userFctx).turnedOver generalizing funcctx with
  | nil =>
      refine ⟨[], ?_, by simp⟩
      by_cases hmore : funcctx.callCntr < funcctx.maxCalls
      · have hpull : (topkCalls fun node => (loop node).produce).pull funcctx =
            Except.ok (none, { funcctx with userFctx := (loop funcctx.userFctx).produce.2 }) := by
          simp [topkCalls, hmore, FaginsState.produce, hstack]
        exact Source.Yields.done hpull
      · exact Source.Yields.done (hover funcctx hmore)
  | cons tuple rest ih =>
      by_cases hmore : funcctx.callCntr < funcctx.maxCalls
      · have hpull : (topkCalls fun node => (loop node).produce).pull funcctx =
            Except.ok (some tuple, { funcctx with
              callCntr := funcctx.callCntr + 1
              userFctx := (loop funcctx.userFctx).produce.2 }) := by
          simp [topkCalls, hmore, FaginsState.produce, hstack]
        obtain ⟨hagain, hkept⟩ := hloop (loop funcctx.userFctx).produce.2 hfinish
        obtain ⟨run, hrun, hitems⟩ := ih { funcctx with
            callCntr := funcctx.callCntr + 1
            userFctx := (loop funcctx.userFctx).produce.2 } hagain
          (by rw [hkept, FaginsState.produce_turnedOver, hstack, List.tail_cons])
        refine ⟨_, Source.Yields.item hpull hrun, ?_⟩
        have hcount : (funcctx.maxCalls - funcctx.callCntr).toNat =
            (funcctx.maxCalls - ↑(funcctx.callCntr + 1)).toNat + 1 := by omega
        rw [List.map_cons, hitems, hcount, List.take_succ_cons]
      · refine ⟨[], Source.Yields.done (hover funcctx hmore), ?_⟩
        rw [show (funcctx.maxCalls - funcctx.callCntr).toNat = 0 by omega]
        rfl

/-- The first call keeps `k` as the number of calls. -/
def firstCall (node : FaginsState Q C D) : FuncCallContext Q C D :=
  ⟨0, node.topk.toBitVec.toInt, node⟩

/-- The first call of `topk`, with the defaults of its arguments. -/
def topk (k ef termCond : UInt32) (children : List (Child C D)) (hchildren : children ≠ [])
    (context : C) : FuncCallContext Q C D :=
  let ef := if ef = 0 then 64 else ef
  let termCond := if termCond = 0 then 50 else termCond
  firstCall (initFaginsState k (if ef < k then k else ef) termCond children hchildren context)

/-- The first call of `multicol_topk`. -/
def multicolTopk (k termCond : UInt32) (children : List (Child C D)) (hchildren : children ≠ [])
    (context : C) : FuncCallContext Q C D :=
  let termCond := if termCond = 0 then 50 else termCond
  firstCall (initFaginsState k k termCond children hchildren context)

end VBase.Topk
