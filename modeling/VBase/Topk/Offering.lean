import VBase.Topk.Fagins
import Mathlib.Logic.Relation
import Mathlib.Data.Finset.Card

/-! # What the queue holds

Every scheduler of the top-k node is a sequence of the same steps: pull a tuple
from some child, find a child exhausted, or find too many drops. What the state
holds after any such sequence is a function of the tuples that were pulled: the
queue has the best of the first tuples with each TID, and the drop counter
counts the new tuples since one was last kept.
-/

namespace VBase.Topk

open PriorityQueue VBase.AccessMethod

variable {Q : {T K : Type} → [LinearOrder K] → (T → K) → Type} [PriorityQueue Q]
variable {C D : Type}

/-! ## Histories -/

/-- The tuples of a history, latest first, whose TID had not been pulled before. -/
def firstPulls : List (Tuple D) → List (Tuple D)
  | [] => []
  | tuple :: earlier =>
      if tuple.tid ∈ earlier.map Tuple.tid then firstPulls earlier else tuple :: firstPulls earlier

theorem firstPulls_subset (history : List (Tuple D)) : firstPulls history ⊆ history := by
  induction history with
  | nil => exact fun _ hmem => hmem
  | cons tuple earlier ih =>
      rw [firstPulls]
      split
      · exact List.subset_cons_of_subset _ ih
      · exact List.cons_subset_cons _ ih

/-- Every TID of a history has a first tuple. -/
theorem tid_mem_firstPulls (history : List (Tuple D)) (tid : ItemPointer) :
    tid ∈ (firstPulls history).map Tuple.tid ↔ tid ∈ history.map Tuple.tid := by
  induction history with
  | nil => rfl
  | cons tuple earlier ih =>
      rw [firstPulls]
      split
      next hseen =>
        rw [ih, List.map_cons, List.mem_cons, iff_or_self]
        rintro rfl
        exact hseen
      · rw [List.map_cons, List.map_cons, List.mem_cons, List.mem_cons, ih]

theorem firstPulls_nodup (history : List (Tuple D)) :
    ((firstPulls history).map Tuple.tid).Nodup := by
  induction history with
  | nil => exact List.nodup_nil
  | cons tuple earlier ih =>
      rw [firstPulls]
      split
      · exact ih
      next hnew =>
        rw [List.map_cons, List.nodup_cons, tid_mem_firstPulls]
        exact ⟨hnew, ih⟩

theorem length_firstPulls (history : List (Tuple D)) :
    (firstPulls history).length = (history.map Tuple.tid).toFinset.card := by
  rw [← List.length_map (f := Tuple.tid), ← List.toFinset_card_of_nodup (firstPulls_nodup history)]
  congr 1
  ext tid
  rw [List.mem_toFinset, List.mem_toFinset, tid_mem_firstPulls]

variable [LinearOrder D]

/-- The number of new tuples since one was kept among the `bound` best, modulo `2 ^ 32`. -/
def dropsAfter (bound : Nat) : List (Tuple D) → UInt32
  | [] => 0
  | tuple :: earlier =>
      if tuple.tid ∈ earlier.map Tuple.tid then dropsAfter bound earlier
      else if (firstPulls earlier).countP (fun other => other.rankScore ≤ tuple.rankScore) < bound
        then 0
      else dropsAfter bound earlier + 1

/-- A tuple is dropped only when enough others were kept. -/
theorem dropsAfter_le (bound : Nat) (history : List (Tuple D)) :
    (dropsAfter bound history).toNat + min bound (firstPulls history).length ≤
      (firstPulls history).length := by
  induction history with
  | nil => simp [dropsAfter, firstPulls]
  | cons tuple earlier ih =>
      rw [dropsAfter, firstPulls]
      split
      · exact ih
      · split
        · simp
        next hdropped =>
          have hcount := List.countP_le_length (l := firstPulls earlier)
            (p := fun other => decide (other.rankScore ≤ tuple.rankScore))
          have hadd : (dropsAfter bound earlier + 1).toNat ≤
              (dropsAfter bound earlier).toNat + 1 := by
            rw [UInt32.toNat_add]
            exact Nat.mod_le _ _
          rw [List.length_cons]
          omega

/-! ## The state after a history -/

namespace Pulling

/-- The tuples pulled so far, latest first. -/
def tuples (s : Pulling Q C D) : List (Tuple D) := s.pulled.map Prod.snd

omit [PriorityQueue Q] in
@[simp] theorem tuples_finish (s : Pulling Q C D) (finish : Bool) :
    { s with finish := finish }.tuples = s.tuples := rfl

@[simp] theorem offer_pulled (bound : UInt32) (tuple : Tuple D) (s : Pulling Q C D) :
    (s.offer bound tuple).pulled = s.pulled := by
  unfold offer
  split <;> rfl

@[simp] theorem offer_finish (bound : UInt32) (tuple : Tuple D) (s : Pulling Q C D) :
    (s.offer bound tuple).finish = s.finish := by
  unfold offer
  split <;> rfl

@[simp] theorem take_pulled (bound : UInt32) (context : C) (tuple : Tuple D)
    (s : Pulling Q C D) : (s.take bound context tuple).pulled = (context, tuple) :: s.pulled := by
  unfold take
  split <;> simp

@[simp] theorem take_tuples (bound : UInt32) (context : C) (tuple : Tuple D)
    (s : Pulling Q C D) : (s.take bound context tuple).tuples = tuple :: s.tuples := by
  simp [tuples]

@[simp] theorem take_finish (bound : UInt32) (context : C) (tuple : Tuple D)
    (s : Pulling Q C D) : (s.take bound context tuple).finish = s.finish := by
  unfold take
  split <;> simp

end Pulling

/-- Queue, seen set and drop counter are those of the history. -/
structure Offered (bound : UInt32) (s : Pulling Q C D) : Prop where
  seen : ∀ tid, castToUint64 tid ∈ s.seenSet ↔ tid ∈ s.tuples.map Tuple.tid
  best : SmallestBy Tuple.rankScore bound.toNat ↑(firstPulls s.tuples) (elems s.procPq)
  drops : s.consecutiveDrops = dropsAfter bound.toNat s.tuples

theorem offered_init (bound k ef termCond : UInt32) (children : List (Child C D))
    (hchildren : children ≠ []) (context : C) :
    Offered bound (initFaginsState (Q := Q) k ef termCond children hchildren context).pulling where
  seen := by simp [initFaginsState, Pulling.tuples]
  best := by
    simp only [initFaginsState, Pulling.tuples, List.map_nil, firstPulls, elems_empty]
    exact SmallestBy.self (Nat.zero_le _)
  drops := rfl

namespace Offered

variable {bound : UInt32} {s : Pulling Q C D}

theorem finish (hs : Offered bound s) (finish : Bool) :
    Offered bound { s with finish := finish } :=
  ⟨hs.seen, hs.best, hs.drops⟩

/-- Pulling a tuple keeps the state that of the history. -/
theorem take (hs : Offered bound s) (context : C) (tuple : Tuple D) :
    Offered bound (s.take bound context tuple) := by
  have hmem := hs.seen tuple.tid
  by_cases hseen : tuple.tid ∈ s.tuples.map Tuple.tid
  · have htake : s.take bound context tuple =
        { s with currentMemoryContext := context, pulled := (context, tuple) :: s.pulled } :=
      if_pos (hmem.mpr hseen)
    refine ⟨fun tid => ?_, ?_, ?_⟩
    · rw [Pulling.take_tuples, List.map_cons, List.mem_cons, htake, hs.seen tid, iff_or_self]
      rintro rfl
      exact hseen
    · rw [Pulling.take_tuples, firstPulls, if_pos hseen, htake]
      exact hs.best
    · rw [Pulling.take_tuples, dropsAfter, if_pos hseen, htake]
      exact hs.drops
  · have htake : s.take bound context tuple =
        { Pulling.offer bound tuple
            { s with currentMemoryContext := context, pulled := (context, tuple) :: s.pulled } with
          seenSet := insert (castToUint64 tuple.tid) s.seenSet
          currentMemoryContext := s.currentMemoryContext } :=
      if_neg fun hin => hseen (hmem.mp hin)
    have haccepts : accepts bound.toNat s.procPq tuple = true ↔
        (firstPulls s.tuples).countP (fun other => other.rankScore ≤ tuple.rankScore) <
          bound.toNat := by
      rw [accepts_iff_countP hs.best, Multiset.coe_countP]
    refine ⟨fun tid => ?_, ?_, ?_⟩
    · rw [Pulling.take_tuples, List.map_cons, List.mem_cons, htake]
      simp only [Finset.mem_insert, castToUint64_injective.eq_iff, hs.seen tid]
    · rw [Pulling.take_tuples, firstPulls, if_neg hseen, htake, ← Multiset.cons_coe]
      unfold Pulling.offer
      split
      next hkept => exact smallestBy_pushBounded hs.best hkept
      next hdropped => exact smallestBy_of_not_accepts hs.best hdropped
    · rw [Pulling.take_tuples, dropsAfter, if_neg hseen, htake]
      unfold Pulling.offer
      split
      next hkept => rw [if_pos (haccepts.mp hkept)]
      next hdropped =>
        rw [if_neg fun hlt => hdropped (haccepts.mpr hlt), ← hs.drops]

end Offered

/-! ## Steps -/

/-- What a scheduler can do, whatever the order in which it pulls the children. -/
inductive Step (bound termCond : UInt32) :
    List (Child C D) × Pulling Q C D → List (Child C D) × Pulling Q C D → Prop
  | pull (before after : List (Child C D)) (context : C) (tuple : Tuple D) (rows : List (Tuple D))
      (s : Pulling Q C D) :
      Step bound termCond (before ++ ⟨context, tuple :: rows⟩ :: after, s)
        (before ++ ⟨context, rows⟩ :: after, s.take bound context tuple)
  | exhausted {children : List (Child C D)} (s : Pulling Q C D) {child : Child C D}
      (hmem : child ∈ children) (hrows : child.rows = []) :
      Step bound termCond (children, s) (children, { s with finish := true })
  | dropped (children : List (Child C D)) {s : Pulling Q C D}
      (hdrops : termCond ≤ s.consecutiveDrops) :
      Step bound termCond (children, s) (children, { s with finish := true })

/-- Any number of steps. -/
def Reaches (bound termCond : UInt32) :
    List (Child C D) × Pulling Q C D → List (Child C D) × Pulling Q C D → Prop :=
  Relation.ReflTransGen (Step bound termCond)

theorem Reaches.offered {bound termCond : UInt32}
    {start reached : List (Child C D) × Pulling Q C D}
    (hreaches : Reaches bound termCond start reached) (hstart : Offered bound start.2) :
    Offered bound reached.2 := by
  induction hreaches with
  | refl => exact hstart
  | tail _ hstep ih =>
      cases hstep with
      | pull before after context tuple rows s => exact ih.take context tuple
      | exhausted s hmem hrows => exact ih.finish true
      | dropped children hdrops => exact ih.finish true

/-- The tuples that the children will still deliver, each with the query context of its child. -/
def undelivered (children : List (Child C D)) : Multiset (C × Tuple D) :=
  ↑(children.flatMap fun child => child.rows.map fun tuple => (child.esQueryCxt, tuple))

omit [LinearOrder D] in
theorem undelivered_pull (before after : List (Child C D)) (context : C) (tuple : Tuple D)
    (rows : List (Tuple D)) :
    undelivered (before ++ ⟨context, tuple :: rows⟩ :: after) =
      (context, tuple) ::ₘ undelivered (before ++ ⟨context, rows⟩ :: after) := by
  unfold undelivered
  rw [Multiset.cons_coe, Multiset.coe_eq_coe]
  simp only [List.flatMap_append, List.flatMap_cons, List.map_cons, List.cons_append]
  exact List.perm_middle

/-- What was pulled and what is left make up the streams of the children, and each child delivers
its stream from the front. -/
theorem Reaches.delivers {bound termCond : UInt32}
    {start reached : List (Child C D) × Pulling Q C D}
    (hreaches : Reaches bound termCond start reached) :
    ↑reached.2.pulled + undelivered reached.1 = ↑start.2.pulled + undelivered start.1 ∧
      List.Forall₂ (fun given left => left.esQueryCxt = given.esQueryCxt ∧
        left.rows <:+ given.rows) start.1 reached.1 := by
  induction hreaches with
  | refl =>
      refine ⟨rfl, List.forall₂_same.mpr ?_⟩
      intro child _
      exact ⟨rfl, List.suffix_refl _⟩
  | tail _ hstep ih =>
      obtain ⟨hsum, hsuffix⟩ := ih
      cases hstep with
      | pull before after context tuple rows s =>
          constructor
          · rw [← hsum, Pulling.take_pulled, undelivered_pull, ← Multiset.cons_coe,
              Multiset.cons_add, Multiset.add_cons]
          · have hbefore := List.forall₂_take_append _ _ _ hsuffix
            have hrest := List.forall₂_drop_append _ _ _ hsuffix
            rw [← List.take_append_drop before.length start.1]
            generalize start.1.drop before.length = others at hrest ⊢
            cases hrest with
            | cons hchild hafter =>
                refine List.rel_append hbefore (List.Forall₂.cons ⟨hchild.1, ?_⟩ hafter)
                exact (List.suffix_cons tuple rows).trans hchild.2
      | exhausted s hmem hrows => exact ⟨hsum, hsuffix⟩
      | dropped children hdrops => exact ⟨hsum, hsuffix⟩

/-- A round is a sequence of steps. The children before those of the round stay. -/
theorem pullEach_reaches (bound termCond : UInt32) (before children : List (Child C D))
    (s : Pulling Q C D) :
    Reaches bound termCond (before ++ children, s)
      (before ++ (pullEach bound children s).1, (pullEach bound children s).2) := by
  induction children generalizing before s with
  | nil => exact Relation.ReflTransGen.refl
  | cons child others ih =>
      obtain ⟨context, rows⟩ := child
      cases rows with
      | nil =>
          exact Relation.ReflTransGen.single
            (Step.exhausted s (List.mem_append_right before List.mem_cons_self) rfl)
      | cons tuple rows =>
          have hrest := ih (before ++ [⟨context, rows⟩]) (s.take bound context tuple)
          rw [List.append_assoc, List.append_assoc, List.singleton_append,
            List.singleton_append] at hrest
          exact Relation.ReflTransGen.head (Step.pull before others context tuple rows s) hrest

theorem checkTermination_reaches (bound termCond : UInt32) (children : List (Child C D))
    (s : Pulling Q C D) :
    Reaches bound termCond (children, s) (children, s.checkTermination termCond) := by
  unfold Pulling.checkTermination
  split
  next hdrops => exact Relation.ReflTransGen.single (Step.dropped children hdrops)
  · exact Relation.ReflTransGen.refl

namespace FaginsState

theorem round_reaches (bound : UInt32) (node : FaginsState Q C D) :
    Reaches bound node.termCond (node.children, node.pulling)
      ((node.round bound).children, (node.round bound).pulling) :=
  Relation.ReflTransGen.trans (pullEach_reaches bound node.termCond [] node.children node.pulling)
    (checkTermination_reaches bound node.termCond _ _)

/-- The pull loop is a sequence of steps, and changes nothing but the children and what it
works on. -/
theorem roundRobin_reaches (bound : UInt32) (node : FaginsState Q C D) :
    Reaches bound node.termCond (node.children, node.enter.pulling)
        ((node.roundRobin bound).children, (node.roundRobin bound).pulling) ∧
      (node.roundRobin bound).resultStack = node.resultStack := by
  have hrun := Loop.run_invariant (step_decreases bound)
    (motive := fun reached => reached.termCond = node.termCond ∧
      reached.resultStack = node.resultStack ∧
      Reaches bound node.termCond (node.children, node.enter.pulling)
        (reached.children, reached.pulling)) (fun before after hbefore hstep => ?_)
    node.enter ⟨rfl, rfl, Relation.ReflTransGen.refl⟩
  · exact ⟨hrun.2.2, hrun.2.1⟩
  · obtain ⟨hterm, hstack, hreaches⟩ := hbefore
    unfold step at hstep
    split at hstep
    · simp at hstep
    · obtain rfl := Option.some.inj hstep
      refine ⟨hterm, hstack, hreaches.trans ?_⟩
      rw [← hterm]
      exact round_reaches bound before

end FaginsState

end VBase.Topk
