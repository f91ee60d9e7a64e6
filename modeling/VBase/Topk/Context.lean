import VBase.Topk.Offering

/-! # The memory context of the pull loop

The body of the pull loop switches to the query context of a child and records the
context it left. It switches back when the child is exhausted and when the tuple
was new, but not when it skips a tuple whose TID was pulled before. The context of
that child is then what the next iteration records and goes back to, so a call
returns in the context of the child whose tuple was skipped last.
-/

namespace VBase.Topk

open PriorityQueue VBase.AccessMethod

variable {Q : {T K : Type} → [LinearOrder K] → (T → K) → Type} [PriorityQueue Q]
variable {C D : Type}

/-- The query context of the last pull whose TID had been pulled before. -/
def lastRepeat : List (C × Tuple D) → Option C
  | [] => none
  | (context, tuple) :: earlier =>
      if tuple.tid ∈ (earlier.map Prod.snd).map Tuple.tid then some context else lastRepeat earlier

variable [LinearOrder D]

/-- The body of the loop goes back to the context it left when the tuple is new. -/
theorem Pulling.take_context (bound : UInt32) (context : C) (tuple : Tuple D)
    (s : Pulling Q C D) :
    (s.take bound context tuple).currentMemoryContext =
      if castToUint64 tuple.tid ∈ s.seenSet then context else s.currentMemoryContext := by
  unfold take
  split <;> rfl

/-- The context is that of the last repeated pull. -/
theorem Reaches.context {bound termCond : UInt32}
    {start reached : List (Child C D) × Pulling Q C D}
    (hreaches : Reaches bound termCond start reached) (hstart : Offered bound start.2)
    (caller : C)
    (hcaller : start.2.currentMemoryContext = (lastRepeat start.2.pulled).getD caller) :
    reached.2.currentMemoryContext = (lastRepeat reached.2.pulled).getD caller := by
  induction hreaches with
  | refl => exact hcaller
  | tail hbefore hstep ih =>
      cases hstep with
      | pull before after context tuple rows s =>
          have hseen := (Reaches.offered hbefore hstart).seen tuple.tid
          rw [Pulling.take_context, Pulling.take_pulled, lastRepeat]
          by_cases hrepeat : tuple.tid ∈ (s.pulled.map Prod.snd).map Tuple.tid
          · rw [if_pos (hseen.mpr hrepeat), if_pos hrepeat, Option.getD_some]
          · rw [if_neg fun hmem => hrepeat (hseen.mp hmem), if_neg hrepeat]
            exact ih
      | exhausted s hmem hrows => exact ih
      | dropped children hdrops => exact ih

theorem roundRobin_context (bound k ef termCond : UInt32) (children : List (Child C D))
    (hchildren : children ≠ []) (caller : C) :
    let node := initFaginsState (Q := Q) k ef termCond children hchildren caller
    (node.roundRobin bound).pulling.currentMemoryContext = caller ↔
      ∀ context ∈ lastRepeat (node.roundRobin bound).pulling.pulled, context = caller := by
  intro node
  have hcontext := (FaginsState.roundRobin_reaches bound node).1.context
    (offered_init bound k ef termCond children hchildren caller) caller rfl
  rw [hcontext]
  cases lastRepeat (node.roundRobin bound).pulling.pulled with
  | none => simp
  | some context => simp

/-- An iteration of the loop leaves the context as it was exactly when its tuple is new or the
context is that of the child already. A call that pulls returns in the context of its caller
exactly when the last repeated pull, if any, was from a child with that context, and the calls
after it do not touch the context. -/
theorem execFagins_context (k ef termCond : UInt32) (children : List (Child C D))
    (hchildren : children ≠ []) (caller : C) :
    let node := initFaginsState (Q := Q) k ef termCond children hchildren caller
    (∀ (bound : UInt32) (context : C) (tuple : Tuple D) (s : Pulling Q C D),
      (s.take bound context tuple).currentMemoryContext = s.currentMemoryContext ↔
        castToUint64 tuple.tid ∉ s.seenSet ∨ context = s.currentMemoryContext) ∧
    ((execFagins node).2.pulling.currentMemoryContext = caller ↔
      ∀ context ∈ lastRepeat (execFagins node).2.pulling.pulled, context = caller) ∧
    ((execFaginsM node).2.pulling.currentMemoryContext = caller ↔
      ∀ context ∈ lastRepeat (execFaginsM node).2.pulling.pulled, context = caller) ∧
    ∀ later : FaginsState Q C D, later.pulling.finish = true →
      (execFagins later).2.pulling.currentMemoryContext = later.pulling.currentMemoryContext ∧
      (execFaginsM later).2.pulling.currentMemoryContext = later.pulling.currentMemoryContext := by
  refine ⟨fun bound context tuple s => ?_, roundRobin_context ef k ef termCond children hchildren
    caller, roundRobin_context k k ef termCond children hchildren caller, fun later hfinish => ?_⟩
  · rw [Pulling.take_context]
    by_cases hseen : castToUint64 tuple.tid ∈ s.seenSet <;> simp [hseen]
  · rw [execFagins, execFaginsM, FaginsState.roundRobin_of_finish _ hfinish,
      FaginsState.roundRobin_of_finish _ hfinish]
    exact ⟨rfl, rfl⟩

/-- Two scans without a common row. -/
theorem execFagins_context_of_distinct_rows :
    ([⟨1, [⟨⟨0, 1⟩, 3⟩]⟩, ⟨2, [⟨⟨0, 2⟩, 4⟩]⟩] : List (Child Nat Nat)) ≠ [] ∧
    (execFagins (initFaginsState (Q := @SortedQueue) (D := Nat) 1 1 50
      [⟨1, [⟨⟨0, 1⟩, 3⟩]⟩, ⟨2, [⟨⟨0, 2⟩, 4⟩]⟩] (by simp) 0)).2.pulling.currentMemoryContext = 0 :=
  ⟨by simp, (execFagins_context 1 1 50 _ (by simp) 0).2.1.mpr (by decide +kernel)⟩

/-- Two scans that deliver the same row: the call returns in the context of the second. -/
theorem execFagins_leaves_context :
    let node : FaginsState @SortedQueue Nat Nat := initFaginsState 1 1 50
      [⟨1, [⟨⟨0, 1⟩, 3⟩]⟩, ⟨2, [⟨⟨0, 1⟩, 3⟩]⟩] (by simp) 0
    (execFagins node).2.pulling.currentMemoryContext ≠ node.pulling.currentMemoryContext := by
  decide +kernel

end VBase.Topk
