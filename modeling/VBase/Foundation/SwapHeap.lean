import VBase.Foundation.ArrayHeap

/-! # Sifting by swaps

The same heaps, sifted down as many programs write it: a loop that swaps while there are
two children, and one more comparison for a last cell without a sibling.
-/

namespace ArrayHeap

variable {α : Type*} {K : Type*} [LinearOrder K] (key : α → K)

/-- A memory whose item at `place` is on its way down, with the left child of that cell. -/
structure Sinking (α : Type*) where
  memory : Nat → α
  place : Nat
  next : Nat

/-- The lesser of two children, the left one on ties. -/
def Sinking.lesser (state : Sinking α) : Nat :=
  if key (state.memory (state.next + 1)) < key (state.memory state.next) then state.next + 1
  else state.next

/-- Swap the item with a child. -/
def Sinking.swap (state : Sinking α) (child : Nat) : Sinking α :=
  ⟨state.memory ∘ Equiv.swap state.place child, child, 2 * child + 1⟩

/-- One round of the loop: swap the item with the lesser of two children. -/
def sinkStep (count : Nat) (state : Sinking α) : Option (Sinking α) :=
  if state.next + 1 < count then
    if key (state.memory (state.lesser key)) < key (state.memory state.place) then
      some (state.swap (state.lesser key))
    else none
  else none

/-- The comparison after the loop, with a last cell that has no sibling. -/
def sinkLast (count : Nat) (state : Sinking α) : Nat → α :=
  if state.next + 1 = count ∧ key (state.memory state.next) < key (state.memory state.place) then
    (state.swap state.next).memory
  else state.memory

/-- Sift the root of a heap of `count` items down. -/
def sink (count : Nat) (memory : Nat → α) : Nat → α :=
  sinkLast key count
    (Loop.run (fun state => count - state.next) (sinkStep key count) ⟨memory, 0, 1⟩)

/-- Put `item` into a cell without children, and sift it up from there. -/
def replaceLeaf (memory : Nat → α) (hole : Nat) (item : α) : Nat → α :=
  siftUp key item ⟨memory, hole⟩

variable {key}

/-- All that a round does. -/
theorem sinkStep_eq_some {count : Nat} {state next : Sinking α} :
    sinkStep key count state = some next ↔
      state.next + 1 < count ∧
        key (state.memory (state.lesser key)) < key (state.memory state.place) ∧
        state.swap (state.lesser key) = next := by
  unfold sinkStep
  split
  next hroom =>
    split
    next hless => simp [hroom, hless]
    next hless => simp [hless]
  next hroom => simp [hroom]

variable (key) in
theorem Sinking.lesser_cases (state : Sinking α) :
    state.lesser key = state.next ∨ state.lesser key = state.next + 1 := by
  unfold lesser
  split
  · exact Or.inr rfl
  · exact Or.inl rfl

theorem sinkStep_decreases (count : Nat) :
    Loop.Decreases (fun state : Sinking α => count - state.next) (sinkStep key count) := by
  intro state next hstep
  obtain ⟨hroom, -, rfl⟩ := sinkStep_eq_some.mp hstep
  change count - (2 * state.lesser key + 1) < count - state.next
  rcases state.lesser_cases key with hchild | hchild <;> omega

/-- An item that is no greater than its children may stay. -/
theorem DownOrdered.heap_of_le {count place : Nat} {memory : Nat → α}
    (hdown : DownOrdered key count memory place)
    (hchildren : ∀ index, 0 < index → index < count → parent index = place →
      key (memory place) ≤ key (memory index)) : Heap key count memory := by
  intro index hpos hlt
  by_cases hindex : parent index = place
  · rw [hindex]
    exact hchildren index hpos hlt hindex
  · exact hdown.off_hole index hpos hlt hindex

/-- What the loop keeps. Only cells of the heap have been exchanged. -/
structure Sinks (key : α → K) (count : Nat) (start : Nat → α) (state : Sinking α) : Prop where
  next_eq : state.next = 2 * state.place + 1
  contents_eq : contents count state.memory = contents count start
  frame : ∀ index, count ≤ index → state.memory index = start index
  ordered : DownOrdered key count state.memory state.place

/-- With two children, the lesser child of the heap is meant. -/
theorem Sinks.lesser_eq {count : Nat} {start : Nat → α} {state : Sinking α}
    (hsinks : Sinks key count start state) (hroom : state.next + 1 < count) :
    state.lesser key = lesserChild key count state.memory state.place := by
  have hright : 2 * state.place + 2 < count := by
    have hnext := hsinks.next_eq
    omega
  rw [Sinking.lesser, lesserChild, hsinks.next_eq]
  simp only [hright, true_and]

/-- A swap of the item with its lesser child. -/
theorem Sinks.swap {count child : Nat} {start : Nat → α} {state : Sinking α}
    (hsinks : Sinks key count start state)
    (hchild : child = lesserChild key count state.memory state.place) (hlt : child < count)
    (hless : key (state.memory child) < key (state.memory state.place)) :
    Sinks key count start (state.swap child) := by
  have hbelow : state.place < child := by
    rw [hchild]
    exact lt_lesserChild count state.memory state.place
  have hparent : parent child = state.place := by
    rw [hchild]
    exact parent_lesserChild count state.memory state.place
  refine ⟨rfl, ?_, ?_, ?_⟩
  · apply Eq.trans _ hsinks.contents_eq
    exact contents_comp_swap _ (hbelow.trans hlt) hlt
  · intro index hindex
    have hoff : Equiv.swap state.place child index = index :=
      Equiv.swap_apply_of_ne_of_ne (by omega) (by omega)
    change state.memory (Equiv.swap state.place child index) = start index
    rw [hoff]
    exact hsinks.frame index hindex
  · apply hsinks.ordered.swap (by omega) hparent hlt _ hless
    intro index hpos hindex hsibling
    rw [hchild]
    exact lesserChild_le hpos hsibling hindex

theorem Sinks.step {count : Nat} {start : Nat → α} {state next : Sinking α}
    (hsinks : Sinks key count start state) (hstep : sinkStep key count state = some next) :
    Sinks key count start next := by
  obtain ⟨hroom, hless, rfl⟩ := sinkStep_eq_some.mp hstep
  apply hsinks.swap (hsinks.lesser_eq hroom) _ hless
  rcases state.lesser_cases key with hchild | hchild <;> omega

/-- The comparison after the loop leaves a heap. -/
theorem Sinks.last {count : Nat} {start : Nat → α} {state : Sinking α}
    (hsinks : Sinks key count start state) (hstop : sinkStep key count state = none) :
    Heap key count (sinkLast key count state) ∧
      contents count (sinkLast key count state) = contents count start ∧
      ∀ index, count ≤ index → sinkLast key count state index = start index := by
  have hnext := hsinks.next_eq
  unfold sinkLast
  split
  next hlast =>
    -- The last cell has no sibling, so it is the lesser child.
    have hchild : state.next = lesserChild key count state.memory state.place := by
      rw [lesserChild, if_neg (by omega)]
      exact hnext
    have hswapped := hsinks.swap hchild (by omega) hlast.2
    refine ⟨hswapped.ordered.heap_of_le ?_, hswapped.contents_eq, hswapped.frame⟩
    intro index hpos hlt hindex
    have hbelow : parent index = state.next := hindex
    unfold parent at hbelow
    omega
  next hlast =>
    refine ⟨hsinks.ordered.heap_of_le ?_, hsinks.contents_eq, hsinks.frame⟩
    intro index hpos hlt hindex
    by_cases hroom : state.next + 1 < count
    · have hstay : ¬ key (state.memory (state.lesser key)) < key (state.memory state.place) := by
        intro hless
        rw [sinkStep_eq_some.mpr ⟨hroom, hless, rfl⟩] at hstop
        cases hstop
      rw [hsinks.lesser_eq hroom] at hstay
      exact (not_lt.mp hstay).trans (lesserChild_le hpos hindex hlt)
    · have honly : index = state.next := by
        unfold parent at hindex
        omega
      rw [honly]
      exact not_lt.mp fun hless => hlast ⟨by omega, hless⟩

/-- A sift from the root mends a heap that is out of order only there. -/
theorem sink_spec {count : Nat} {memory : Nat → α} (hdown : DownOrdered key count memory 0) :
    Heap key count (sink key count memory) ∧
      contents count (sink key count memory) = contents count memory ∧
      ∀ index, count ≤ index → sink key count memory index = memory index := by
  have hstart : Sinks key count memory ⟨memory, 0, 1⟩ :=
    ⟨rfl, rfl, fun _ _ => rfl, hdown⟩
  have hend : Sinks key count memory
      (Loop.run (fun state => count - state.next) (sinkStep key count) ⟨memory, 0, 1⟩) :=
    Loop.run_invariant (sinkStep_decreases count) (fun _ _ hsinks hstep => hsinks.step hstep) _
      hstart
  exact hend.last (Loop.run_done (sinkStep_decreases count) _)

/-- A heap whose root was overwritten is out of order only there. -/
theorem Heap.downOrdered {count : Nat} {memory other : Nat → α} (hheap : Heap key count memory)
    (hsame : ∀ index, 0 < index → index < count → other index = memory index) :
    DownOrdered key count other 0 := by
  refine ⟨?_, fun _ hpos => absurd hpos (Nat.lt_irrefl 0)⟩
  intro index hpos hlt hne
  have hparent := parent_lt hpos
  rw [hsame index hpos hlt, hsame (parent index) (by omega) (by omega)]
  exact hheap index hpos hlt

/-- Overwriting a leaf and sifting up keeps a heap, and trades the leaf for the item. -/
theorem replaceLeaf_spec {count hole : Nat} {memory : Nat → α} (hheap : Heap key count memory)
    (hhole : hole < count) (hleaf : count ≤ 2 * hole + 1) (item : α) :
    Heap key count (replaceLeaf key memory hole item) ∧
      memory hole ::ₘ contents count (replaceLeaf key memory hole item) =
        item ::ₘ contents count memory ∧
      ∀ index, count ≤ index → replaceLeaf key memory hole item index = memory index := by
  let state : Holed α := ⟨memory, hole⟩
  have hsifting : Sifting count (state.fill item) item state := ⟨hhole, rfl, fun _ _ => rfl⟩
  have hnochild : ∀ index, 0 < index → index < count → parent index ≠ hole := by
    intro index hpos hlt hindex
    unfold parent at hindex
    omega
  have hup : UpOrdered key count (state.fill item) state.hole := by
    constructor
    · intro index hpos hlt hne
      rw [state.fill_of_ne hne, state.fill_of_ne (hnochild index hpos hlt)]
      exact hheap index hpos hlt
    · intro index _ hpos hlt hchild
      exact absurd hchild (hnochild index hpos hlt)
  obtain ⟨hfinal, hordered⟩ := Loop.run_invariant (upStep_decreases item)
    (motive := fun state' => Sifting count (state.fill item) item state' ∧
      UpOrdered key count (state'.fill item) state'.hole)
    (fun _ _ hinv hstep => hinv.2.step hinv.1 hstep) state ⟨hsifting, hup⟩
  refine ⟨hordered.heap (Loop.run_done (upStep_decreases item) state), ?_, ?_⟩
  · have hcontents : contents count (replaceLeaf key memory hole item) =
        contents count (Function.update memory hole item) := hfinal.contents_eq
    rw [hcontents, contents_update hhole]
  · intro index hindex
    rw [replaceLeaf, siftUp, hfinal.frame index hindex]
    exact state.fill_of_ne (show index ≠ hole by omega) item

/-! ## Sorting by swaps -/

/-- The root and the last item of the heap change places, and the new root is sifted down. -/
theorem Unheaping.swapRound {total last : Nat} {all : Multiset α} {memory : Nat → α}
    (hunheaping : Unheaping key total all (last + 1) memory) :
    Unheaping key total all last (sink key last (memory ∘ Equiv.swap 0 last)) := by
  have hle := hunheaping.count_le
  have hfront : ∀ index, 0 < index → index < last →
      (memory ∘ Equiv.swap 0 last) index = memory index := by
    intro index hpos hlt
    rw [Function.comp_apply, Equiv.swap_apply_of_ne_of_ne hpos.ne' hlt.ne]
  obtain ⟨hheap, hcontents, hframe⟩ :=
    sink_spec ((hunheaping.heap.mono (Nat.le_succ last)).downOrdered hfront)
  generalize sink key last (memory ∘ Equiv.swap 0 last) = after at hheap hcontents hframe
  have hlast : after last = memory 0 := by
    rw [hframe last le_rfl, Function.comp_apply, Equiv.swap_apply_right]
  have hback : ∀ index, last + 1 ≤ index → after index = memory index := by
    intro index hindex
    rw [hframe index (by omega), Function.comp_apply,
      Equiv.swap_apply_of_ne_of_ne (by omega) (by omega)]
  have hmerged : contents (last + 1) after = contents (last + 1) memory := by
    rw [contents_succ, hcontents, hframe last le_rfl, ← contents_succ]
    exact contents_comp_swap memory (Nat.succ_pos last) (Nat.lt_succ_self last)
  -- whatever the heap holds now, it held before
  have hold : ∀ index < last, ∃ source < last + 1, memory source = after index := by
    intro index hindex
    apply mem_contents.mp
    rw [← hmerged]
    exact mem_contents.mpr ⟨index, by omega, rfl⟩
  refine ⟨hheap, by omega, ?_, ?_⟩
  · rw [contents_of_frame hmerged hle hback]
    exact hunheaping.contents_eq
  · intro first second hfirst hsecond hlt
    rcases Nat.eq_or_lt_of_le hsecond with rfl | hbeyond
    · rcases Nat.eq_or_lt_of_le hfirst with rfl | hless
      · exact le_rfl
      · obtain ⟨source, hsource, hsame⟩ := hold first hless
        rw [hlast, ← hsame]
        exact hunheaping.heap.root_le (mem_contents.mpr ⟨source, hsource, rfl⟩)
    · rw [hback second hbeyond]
      rcases Nat.lt_trichotomy first last with hless | rfl | hmore
      · obtain ⟨source, hsource, hsame⟩ := hold first hless
        rw [← hsame]
        exact hunheaping.behind source second (by omega) hbeyond hlt
      · rw [hlast]
        exact hunheaping.behind 0 second (Nat.zero_le _) hbeyond hlt
      · rw [hback first hmore]
        exact hunheaping.behind first second hfirst hbeyond hlt

variable (key) in
/-- Take off the root until the heap is empty, each time from the end of what is left. -/
def unheap (total : Nat) (memory : Nat → α) : Nat → α :=
  (List.range total).reverse.foldl
    (fun memory last => sink key last (memory ∘ Equiv.swap 0 last)) memory

theorem Unheaping.unheap {total count : Nat} {all : Multiset α} {memory : Nat → α}
    (hunheaping : Unheaping key total all count memory) :
    Unheaping key total all 0 (ArrayHeap.unheap key count memory) := by
  induction count generalizing memory with
  | zero => exact hunheaping
  | succ last ih =>
      rw [ArrayHeap.unheap, List.range_succ, List.reverse_append, List.reverse_singleton,
        List.singleton_append, List.foldl_cons]
      exact ih hunheaping.swapRound

/-! ## The smallest items of a stream

A heap with the greatest item at the root keeps the smallest ones that it was offered.
-/

section Smallest

variable {count : Nat} {memory : Nat → α} {all : Multiset α} {item : α}

/-- A full heap of the `count` smallest of all items, greatest at the root. -/
structure KeepsSmallest (key : α → K) (count : Nat) (all : Multiset α) (memory : Nat → α) :
    Prop where
  heap : Heap (OrderDual.toDual ∘ key) count memory
  smallest : SmallestBy key count all (contents count memory)

theorem Heap.le_root (hheap : Heap (OrderDual.toDual ∘ key) count memory)
    (hitem : item ∈ contents count memory) : key item ≤ key (memory 0) :=
  hheap.root_le hitem

/-- An item that is no greater than the root takes its place. -/
theorem KeepsSmallest.replace (hkeeps : KeepsSmallest key count all memory) (hpos : 0 < count)
    (hitem : key item ≤ key (memory 0)) :
    KeepsSmallest key count (item ::ₘ all)
      (sink (OrderDual.toDual ∘ key) count (Function.update memory 0 item)) := by
  have hsame : ∀ index, 0 < index → index < count →
      Function.update memory 0 item index = memory index :=
    fun index hindex _ => Function.update_of_ne hindex.ne' item memory
  obtain ⟨hheap, hcontents, -⟩ := sink_spec (hkeeps.heap.downOrdered hsame)
  refine ⟨hheap, ?_⟩
  have htrade := contents_update hpos memory item
  obtain ⟨rest, hrest⟩ : ∃ rest, contents count memory = memory 0 ::ₘ rest :=
    Multiset.exists_cons_of_mem (mem_contents.mpr ⟨0, hpos, rfl⟩)
  have hafter : contents count (Function.update memory 0 item) = item ::ₘ rest := by
    rw [hrest, Multiset.cons_swap] at htrade
    exact (Multiset.cons_inj_right _).mp htrade
  have hsmall := hkeeps.smallest
  rw [hrest] at hsmall
  have hcard : rest.card + 1 = count := by
    rw [← Multiset.card_cons, ← hrest, card_contents]
  rw [hcontents, hafter]
  apply hsmall.cons_replace hcard _ hitem
  intro low hlow
  apply hkeeps.heap.le_root
  rw [hrest]
  exact Multiset.mem_cons_of_mem hlow

/-- An item that is no less than the root is not among the smallest. -/
theorem KeepsSmallest.refuse (hkeeps : KeepsSmallest key count all memory)
    (hitem : key (memory 0) ≤ key item) : KeepsSmallest key count (item ::ₘ all) memory := by
  refine ⟨hkeeps.heap, hkeeps.smallest.cons_of_le (card_contents count memory) ?_⟩
  intro low hlow
  exact (hkeeps.heap.le_root hlow).trans hitem

end Smallest

end ArrayHeap
