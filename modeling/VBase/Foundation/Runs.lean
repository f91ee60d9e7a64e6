import VBase.Foundation.Selection
import Mathlib.Data.List.Forall2

/-! # Sorted runs

Two ways to get a sorted list out of shorter ones: sort the batches of a list
that is already sorted by a coarser key, and merge sorted runs by their first
elements.
-/

variable {α K C : Type*} [LinearOrder K]

/-! ## Batches -/

/-- The coarse key changes between the batches. -/
def Separated (coarse : α → C) (batches : List (List α)) : Prop :=
  batches.IsChain fun batch next =>
    ∀ last ∈ batch.getLast?, ∀ first ∈ next.head?, coarse last ≠ coarse first

section Batches

variable [LinearOrder C] {key : α → K} {coarse : α → C} {batches sorted : List (List α)}

/-- In a list sorted by the coarse key, a batch lies strictly below everything after it. -/
theorem Separated.lt_of_mem {batch : List α} (hseparated : Separated coarse (batch :: batches))
    (hnonempty : ∀ other ∈ batch :: batches, other ≠ [])
    (hsorted : (batch :: batches).flatten.Pairwise (AscendingBy coarse))
    {earlier later : α} (hearlier : earlier ∈ batch) (hlater : later ∈ batches.flatten) :
    coarse earlier < coarse later := by
  cases batches with
  | nil => simp at hlater
  | cons next rest =>
      have hbatch : batch ≠ [] := hnonempty batch List.mem_cons_self
      obtain ⟨init, last, rfl⟩ := (List.eq_nil_or_concat' batch).resolve_left hbatch
      obtain ⟨first, more, rfl⟩ := List.exists_cons_of_ne_nil
        (hnonempty next (List.mem_cons_of_mem _ List.mem_cons_self))
      have hdiffer : coarse last ≠ coarse first :=
        (List.isChain_cons_cons.mp hseparated).1 last (by simp) first (by simp)
      simp only [List.flatten_cons, List.append_assoc, List.cons_append, List.nil_append] at hsorted
      obtain ⟨-, hfrom, hcross⟩ := List.pairwise_append.mp hsorted
      obtain ⟨hlast, hrest⟩ := List.pairwise_cons.mp hfrom
      -- `earlier` up to the end of its batch, over the boundary, and on to `later`
      have hup : coarse earlier ≤ coarse last := by
        rcases List.mem_append.mp hearlier with hinit | hlast
        · exact hcross earlier hinit last List.mem_cons_self
        · rw [List.mem_singleton.mp hlast]
      have hover : coarse last < coarse first :=
        lt_of_le_of_ne (hlast first List.mem_cons_self) hdiffer
      have hon : coarse first ≤ coarse later := by
        rcases List.mem_cons.mp hlater with rfl | hmore
        · exact le_rfl
        · exact (List.pairwise_cons.mp hrest).1 later hmore
      exact lt_of_le_of_lt hup (lt_of_lt_of_le hover hon)

omit [LinearOrder C] [LinearOrder K] in
theorem flatten_subset (hbatches : List.Forall₂ (fun batch output => output ⊆ batch)
    batches sorted) : sorted.flatten ⊆ batches.flatten := by
  induction hbatches with
  | nil => exact fun _ hmem => hmem
  | @cons batch output batches sorted hbatch _ ih =>
      simp only [List.flatten_cons]
      apply List.append_subset.mpr
      exact ⟨fun _ hmem => List.mem_append_left _ (hbatch hmem),
        fun _ hmem => List.mem_append_right _ (ih hmem)⟩

/-- Sorting each batch of a list that is sorted by a coarser key sorts the list. -/
theorem Separated.pairwise_flatten
    (hcoarser : ∀ earlier later, coarse earlier < coarse later → key earlier ≤ key later)
    (hbatches : List.Forall₂ (fun batch output => output ⊆ batch ∧
      output.Pairwise (AscendingBy key)) batches sorted)
    (hnonempty : ∀ batch ∈ batches, batch ≠ []) (hseparated : Separated coarse batches)
    (hsorted : batches.flatten.Pairwise (AscendingBy coarse)) :
    sorted.flatten.Pairwise (AscendingBy key) := by
  induction hbatches with
  | nil => exact List.Pairwise.nil
  | @cons batch output batches sorted hbatch hrest ih =>
      have hsubset : sorted.flatten ⊆ batches.flatten :=
        flatten_subset (hrest.imp fun _ _ hother => hother.1)
      have htail := ih (fun other hmem => hnonempty other (List.mem_cons_of_mem _ hmem))
        (List.IsChain.of_cons hseparated) (List.pairwise_append.mp hsorted).2.1
      refine List.pairwise_append.mpr ⟨hbatch.2, htail, fun earlier hearlier later hlater => ?_⟩
      exact hcoarser earlier later
        (hseparated.lt_of_mem hnonempty hsorted (hbatch.1 hearlier) (hsubset hlater))

end Batches

/-! ## Merging -/

/-- The list takes, again and again, a first element of the runs that is least among them. -/
inductive Merges (key : α → K) : List (List α) → List α → Prop
  | done {runs : List (List α)} (hempty : ∀ run ∈ runs, run = []) : Merges key runs []
  | take {before after : List (List α)} {run merged : List α} {least : α}
      (hleast : ∀ other ∈ before ++ after, ∀ first ∈ other.head?, key least ≤ key first)
      (hrest : Merges key (before ++ run :: after) merged) :
      Merges key (before ++ (least :: run) :: after) (least :: merged)

namespace Merges

variable {key : α → K} {runs : List (List α)} {merged : List α}

theorem least_le {run : List α} {least later : α} (hrun : run.Pairwise (AscendingBy key))
    (hleast : ∀ first ∈ run.head?, key least ≤ key first) (hlater : later ∈ run) :
    key least ≤ key later := by
  cases run with
  | nil => simp at hlater
  | cons first rest =>
      have hfirst : key least ≤ key first := hleast first rfl
      rcases List.mem_cons.mp hlater with rfl | hrest
      · exact hfirst
      · exact le_trans hfirst ((List.pairwise_cons.mp hrun).1 later hrest)

theorem mem (hmerges : Merges key runs merged) {element : α} (hmem : element ∈ merged) :
    ∃ run ∈ runs, element ∈ run := by
  induction hmerges with
  | done hempty => simp at hmem
  | @take before after run merged least hleast hrest ih =>
      rcases List.mem_cons.mp hmem with rfl | hmerged
      · exact ⟨element :: run, by simp, List.mem_cons_self⟩
      · obtain ⟨other, hother, helement⟩ := ih hmerged
        simp only [List.mem_append, List.mem_cons] at hother
        rcases hother with hbefore | rfl | hafter
        · exact ⟨other, by simp [hbefore], helement⟩
        · exact ⟨least :: other, by simp, List.mem_cons_of_mem _ helement⟩
        · exact ⟨other, by simp [hafter], helement⟩

/-- Merging sorted runs gives a sorted list. -/
theorem pairwise (hmerges : Merges key runs merged)
    (hruns : ∀ run ∈ runs, run.Pairwise (AscendingBy key)) :
    merged.Pairwise (AscendingBy key) := by
  induction hmerges with
  | done => exact List.Pairwise.nil
  | @take before after run merged least hleast hrest ih =>
      obtain ⟨hfirst, hrun⟩ := List.pairwise_cons.mp (hruns (least :: run) (by simp))
      refine List.pairwise_cons.mpr ⟨fun later hlater => ?_, ih fun other hother => ?_⟩
      · obtain ⟨other, hother, hmem⟩ := hrest.mem hlater
        simp only [List.mem_append, List.mem_cons] at hother
        rcases hother with hbefore | rfl | hafter
        · exact least_le (hruns other (by simp [hbefore])) (hleast other (by simp [hbefore])) hmem
        · exact hfirst later hmem
        · exact least_le (hruns other (by simp [hafter])) (hleast other (by simp [hafter])) hmem
      · simp only [List.mem_append, List.mem_cons] at hother
        rcases hother with hbefore | rfl | hafter
        · exact hruns other (by simp [hbefore])
        · exact hrun
        · exact hruns other (by simp [hafter])

/-- A single run is handed on as it is. -/
theorem single (key : α → K) (run : List α) : Merges key [run] run := by
  induction run with
  | nil => exact done (by simp)
  | cons first rest ih =>
      have hleast : ∀ other ∈ ([] ++ [] : List (List α)), ∀ front ∈ other.head?,
          key first ≤ key front := by simp
      exact take hleast ih

end Merges
