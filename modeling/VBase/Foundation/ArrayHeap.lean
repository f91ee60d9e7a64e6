import VBase.Foundation.Loop
import VBase.Foundation.Selection
import Mathlib.Data.Multiset.Range
import Mathlib.Logic.Equiv.Basic

/-! # Binary heaps in an array

A heap occupies the first `count` cells of a memory, least key at the root. Both
sifts carry a hole through the heap and write the sifted item once, at the end.
Filling the hole at every moment gives the usual picture, in which a round swaps
two cells; the invariants are stated for the filled memory.
-/

namespace ArrayHeap

variable {α : Type*}

def parent (index : Nat) : Nat := (index - 1) / 2

/-- The first `count` cells of a memory. -/
def contents (count : Nat) (memory : Nat → α) : Multiset α := (Multiset.range count).map memory

/-- A memory with one cell whose value has been moved away. -/
structure Holed (α : Type*) where
  memory : Nat → α
  hole : Nat

/-- Put `item` into the hole. -/
def Holed.fill (state : Holed α) (item : α) : Nat → α :=
  Function.update state.memory state.hole item

/-- Move the value of another cell into the hole. -/
def Holed.move (state : Holed α) (source : Nat) : Holed α :=
  ⟨Function.update state.memory state.hole (state.memory source), source⟩

theorem contents_succ (count : Nat) (memory : Nat → α) :
    contents (count + 1) memory = memory count ::ₘ contents count memory := by
  simp [contents, Multiset.range_succ]

@[simp] theorem card_contents (count : Nat) (memory : Nat → α) :
    (contents count memory).card = count := by
  simp [contents]

theorem mem_contents {count : Nat} {memory : Nat → α} {item : α} :
    item ∈ contents count memory ↔ ∃ index < count, memory index = item := by
  simp [contents]

/-- Cells outside the heap do not count. -/
theorem contents_congr {count : Nat} {memory other : Nat → α}
    (hsame : ∀ index < count, memory index = other index) :
    contents count memory = contents count other :=
  Multiset.map_congr rfl fun index hindex => hsame index (Multiset.mem_range.mp hindex)

theorem contents_of_frame {count total : Nat} {memory other : Nat → α}
    (hfront : contents count memory = contents count other) (hle : count ≤ total)
    (hsame : ∀ index, count ≤ index → memory index = other index) :
    contents total memory = contents total other := by
  induction total, hle using Nat.le_induction with
  | base => exact hfront
  | succ total hle ih => rw [contents_succ, contents_succ, ih, hsame total hle]

theorem contents_comp_swap (memory : Nat → α) {count first second : Nat}
    (hfirst : first < count) (hsecond : second < count) :
    contents count (memory ∘ Equiv.swap first second) = contents count memory := by
  have hrange : (Multiset.range count).map (Equiv.swap first second) = Multiset.range count := by
    refine (Multiset.Nodup.ext ((Multiset.nodup_range count).map (Equiv.injective _))
      (Multiset.nodup_range count)).mpr ?_
    intro index
    simp only [Multiset.mem_map, Multiset.mem_range]
    constructor
    · rintro ⟨source, hsource, rfl⟩
      rw [Equiv.swap_apply_def]
      split_ifs <;> assumption
    · intro hindex
      refine ⟨Equiv.swap first second index, ?_, Equiv.swap_apply_self _ _ _⟩
      rw [Equiv.swap_apply_def]
      split_ifs <;> assumption
  rw [contents, ← Multiset.map_map, hrange, contents]

/-- Overwriting a cell trades its value. -/
theorem contents_update {count index : Nat} (hindex : index < count) (memory : Nat → α)
    (item : α) :
    memory index ::ₘ contents count (Function.update memory index item) =
      item ::ₘ contents count memory := by
  have hsplit := Multiset.cons_erase (Multiset.mem_range.mpr hindex)
  have hother : ((Multiset.range count).erase index).map (Function.update memory index item) =
      ((Multiset.range count).erase index).map memory := by
    refine Multiset.map_congr rfl fun other hmem => ?_
    have hne := ((Multiset.nodup_range count).mem_erase_iff.mp hmem).1
    exact Function.update_of_ne hne _ _
  rw [contents, contents, ← hsplit, Multiset.map_cons, Multiset.map_cons, hother,
    Function.update_self, Multiset.cons_swap]

/-- Moving a value into the hole swaps two cells of the filled memory. -/
theorem Holed.fill_move (state : Holed α) {source : Nat} (hsource : source ≠ state.hole)
    (item : α) :
    (state.move source).fill item = state.fill item ∘ Equiv.swap state.hole source := by
  funext index
  simp only [fill, move, Function.comp_apply, Function.update_apply, Equiv.swap_apply_def]
  grind

@[simp] theorem Holed.fill_hole (state : Holed α) (item : α) :
    state.fill item state.hole = item :=
  Function.update_self _ _ _

theorem Holed.fill_of_ne (state : Holed α) {index : Nat} (hindex : index ≠ state.hole)
    (item : α) : state.fill item index = state.memory index :=
  Function.update_of_ne hindex _ _

variable {K : Type*} [LinearOrder K] (key : α → K)

/-- No item of the heap is less than its parent. -/
def Heap (count : Nat) (memory : Nat → α) : Prop :=
  ∀ index, 0 < index → index < count → key (memory (parent index)) ≤ key (memory index)

/-! ## Sifting up -/

/-- One round of an insertion: move the parent down unless the item may stand below it. -/
def upStep (item : α) (state : Holed α) : Option (Holed α) :=
  if 0 < state.hole ∧ key item < key (state.memory (parent state.hole)) then
    some (state.move (parent state.hole))
  else none

/-- Insert `item` into the heap that ends before the hole. -/
def siftUp (item : α) (state : Holed α) : Nat → α :=
  (Loop.run Holed.hole (upStep key item) state).fill item

/-! ## Sifting down -/

/-- The child of `index` with the lesser key, the left one on ties. -/
def lesserChild (count : Nat) (memory : Nat → α) (index : Nat) : Nat :=
  if 2 * index + 2 < count ∧ key (memory (2 * index + 2)) < key (memory (2 * index + 1)) then
    2 * index + 2
  else 2 * index + 1

/-- One round of a replacement: move the lesser child up unless the item may stand above it. -/
def downStep (count : Nat) (item : α) (state : Holed α) : Option (Holed α) :=
  let child := lesserChild key count state.memory state.hole
  if 2 * state.hole + 1 < count ∧ key (state.memory child) < key item then
    some (state.move child)
  else none

/-- Replace the item at the hole by `item`. -/
def siftDown (count : Nat) (item : α) (state : Holed α) : Nat → α :=
  (Loop.run (fun state => count - state.hole) (downStep key count item) state).fill item

variable {key}

theorem parent_lt {index : Nat} (hindex : 0 < index) : parent index < index := by
  unfold parent
  omega

theorem upStep_decreases (item : α) : Loop.Decreases Holed.hole (upStep key item) := by
  intro state next hstep
  unfold upStep at hstep
  split at hstep
  next hround =>
    obtain rfl := Option.some.inj hstep
    exact parent_lt hround.1
  next => simp at hstep

/-- The lesser child is a child. -/
theorem parent_lesserChild (count : Nat) (memory : Nat → α) (index : Nat) :
    parent (lesserChild key count memory index) = index := by
  unfold lesserChild parent
  split <;> omega

theorem lesserChild_lt {count index : Nat} {memory : Nat → α} (hleft : 2 * index + 1 < count) :
    lesserChild key count memory index < count := by
  unfold lesserChild
  split
  next hright => exact hright.1
  next => exact hleft

theorem lt_lesserChild (count : Nat) (memory : Nat → α) (index : Nat) :
    index < lesserChild key count memory index := by
  unfold lesserChild
  split <;> omega

/-- The lesser child is the least of the children. -/
theorem lesserChild_le {count index child : Nat} {memory : Nat → α} (hpos : 0 < child)
    (hchild : parent child = index) (hlt : child < count) :
    key (memory (lesserChild key count memory index)) ≤ key (memory child) := by
  have hcases : child = 2 * index + 1 ∨ child = 2 * index + 2 := by
    unfold parent at hchild
    omega
  unfold lesserChild
  split
  next hright =>
    rcases hcases with rfl | rfl
    · exact hright.2.le
    · exact le_rfl
  next hleft =>
    rcases hcases with rfl | rfl
    · exact le_rfl
    · exact not_lt.mp fun hless => hleft ⟨hlt, hless⟩

theorem downStep_decreases (count : Nat) (item : α) :
    Loop.Decreases (fun state : Holed α => count - state.hole) (downStep key count item) := by
  intro state next hstep
  simp only [downStep] at hstep
  split at hstep
  next hround =>
    obtain rfl := Option.some.inj hstep
    have hlt : state.hole < lesserChild key count state.memory state.hole :=
      lt_lesserChild count state.memory state.hole
    simp only [Holed.move]
    omega
  next => simp at hstep

/-! ## Invariants of the sifts -/

/-- The sifts work on a filled memory that starts as `start`, inside its first `count` cells. -/
structure Sifting (count : Nat) (start : Nat → α) (item : α) (state : Holed α) : Prop where
  hole_lt : state.hole < count
  contents_eq : contents count (state.fill item) = contents count start
  frame : ∀ index, count ≤ index → state.fill item index = start index

theorem Sifting.move {count : Nat} {start : Nat → α} {item : α} {state : Holed α}
    (hsifting : Sifting count start item state) {source : Nat} (hsource : source < count)
    (hne : source ≠ state.hole) : Sifting count start item (state.move source) := by
  refine ⟨hsource, ?_, ?_⟩
  · rw [state.fill_move hne, contents_comp_swap _ hsifting.hole_lt hsource, hsifting.contents_eq]
  · intro index hindex
    have hhole := hsifting.hole_lt
    rw [state.fill_move hne, Function.comp_apply,
      Equiv.swap_apply_of_ne_of_ne (by omega) (by omega)]
    exact hsifting.frame index hindex

/-- All pairs are in order, but the item may be less than its parent. -/
structure UpOrdered (key : α → K) (count : Nat) (memory : Nat → α) (hole : Nat) : Prop where
  off_hole : ∀ index, 0 < index → index < count → index ≠ hole →
    key (memory (parent index)) ≤ key (memory index)
  across : ∀ index, 0 < hole → 0 < index → index < count → parent index = hole →
    key (memory (parent hole)) ≤ key (memory index)

/-- All pairs are in order, but the item may be greater than its children. -/
structure DownOrdered (key : α → K) (count : Nat) (memory : Nat → α) (hole : Nat) : Prop where
  off_hole : ∀ index, 0 < index → index < count → parent index ≠ hole →
    key (memory (parent index)) ≤ key (memory index)
  across : ∀ index, 0 < hole → 0 < index → index < count → parent index = hole →
    key (memory (parent hole)) ≤ key (memory index)

theorem UpOrdered.swap {count hole : Nat} {memory : Nat → α}
    (hup : UpOrdered key count memory hole) (hpos : 0 < hole) (hhole : hole < count)
    (hless : key (memory hole) < key (memory (parent hole))) :
    UpOrdered key count (memory ∘ Equiv.swap hole (parent hole)) (parent hole) := by
  have hparent := parent_lt hpos
  have habove : 0 < parent hole →
      key (memory (parent (parent hole))) ≤ key (memory (parent hole)) := fun h =>
    hup.off_hole (parent hole) h (by omega) (by omega)
  constructor
  · intro index hindex hlt hne
    have hself := parent_lt hindex
    simp only [Function.comp_apply, Equiv.swap_apply_def]
    -- the pairs that change are the hole with its parent, sibling and children
    have hoff := hup.off_hole index hindex hlt
    have hacross := hup.across index hpos hindex hlt
    grind
  · intro index hgrand hindex hlt hchild
    have hself := parent_lt hgrand
    have hoff := hup.off_hole index hindex hlt
    simp only [Function.comp_apply, Equiv.swap_apply_def]
    grind

theorem DownOrdered.swap {count hole child : Nat} {memory : Nat → α}
    (hdown : DownOrdered key count memory hole) (hpos : 0 < child) (hchild : parent child = hole)
    (hlt : child < count)
    (hleast : ∀ index, 0 < index → index < count → parent index = hole →
      key (memory child) ≤ key (memory index))
    (hless : key (memory child) < key (memory hole)) :
    DownOrdered key count (memory ∘ Equiv.swap hole child) child := by
  have hparent := parent_lt hpos
  constructor
  · intro index hindex hcount hne
    have hself := parent_lt hindex
    simp only [Function.comp_apply, Equiv.swap_apply_def]
    have hoff := hdown.off_hole index hindex hcount
    have hacross := hdown.across child
    have hsibling := hleast index hindex hcount
    grind
  · intro index _ hindex hcount hbelow
    have hself := parent_lt hindex
    simp only [Function.comp_apply, Equiv.swap_apply_def]
    have hoff := hdown.off_hole index hindex hcount
    grind

/-- A round of an insertion. -/
theorem UpOrdered.step {count : Nat} {start : Nat → α} {item : α} {state next : Holed α}
    (hsifting : Sifting count start item state)
    (hup : UpOrdered key count (state.fill item) state.hole)
    (hstep : upStep key item state = some next) :
    Sifting count start item next ∧ UpOrdered key count (next.fill item) next.hole := by
  unfold upStep at hstep
  split at hstep
  next hround =>
    obtain rfl := Option.some.inj hstep
    have hlt := parent_lt hround.1
    have hhole := hsifting.hole_lt
    refine ⟨hsifting.move (by omega) hlt.ne, ?_⟩
    rw [state.fill_move hlt.ne]
    apply hup.swap hround.1 hhole
    rw [state.fill_hole, state.fill_of_ne hlt.ne]
    exact hround.2
  next => simp at hstep

/-- Where an insertion stops, the item may stand. -/
theorem UpOrdered.heap {count : Nat} {item : α} {state : Holed α}
    (hup : UpOrdered key count (state.fill item) state.hole)
    (hstop : upStep key item state = none) : Heap key count (state.fill item) := by
  intro index hpos hlt
  by_cases hindex : index = state.hole
  · subst hindex
    simp only [upStep, ite_eq_right_iff, reduceCtorEq, imp_false, not_and, not_lt] at hstop
    rw [state.fill_of_ne (parent_lt hpos).ne, state.fill_hole]
    exact hstop hpos
  · exact hup.off_hole index hpos hlt hindex

/-- A round of a replacement. -/
theorem DownOrdered.step {count : Nat} {start : Nat → α} {item : α} {state next : Holed α}
    (hsifting : Sifting count start item state)
    (hdown : DownOrdered key count (state.fill item) state.hole)
    (hstep : downStep key count item state = some next) :
    Sifting count start item next ∧ DownOrdered key count (next.fill item) next.hole := by
  simp only [downStep] at hstep
  split at hstep
  next hround =>
    obtain rfl := Option.some.inj hstep
    have hbelow : state.hole < lesserChild key count state.memory state.hole :=
      lt_lesserChild count state.memory state.hole
    have hchild : lesserChild key count state.memory state.hole < count :=
      lesserChild_lt hround.1
    refine ⟨hsifting.move hchild hbelow.ne', ?_⟩
    rw [state.fill_move hbelow.ne']
    refine hdown.swap (by omega) (parent_lesserChild _ _ _) hchild ?_ ?_
    · intro index hpos hlt hindex
      have hne : index ≠ state.hole := fun h => by
        have hparent := parent_lt hpos
        omega
      rw [state.fill_of_ne hbelow.ne', state.fill_of_ne hne]
      exact lesserChild_le hpos hindex hlt
    · rw [state.fill_of_ne hbelow.ne', state.fill_hole]
      exact hround.2
  next => simp at hstep

/-- Where a replacement stops, the item may stand. -/
theorem DownOrdered.heap {count : Nat} {item : α} {state : Holed α}
    (hdown : DownOrdered key count (state.fill item) state.hole)
    (hstop : downStep key count item state = none) : Heap key count (state.fill item) := by
  intro index hpos hlt
  by_cases hindex : parent index = state.hole
  · have hparent := parent_lt hpos
    simp only [downStep, ite_eq_right_iff, reduceCtorEq, imp_false, not_and, not_lt] at hstop
    have hleft : 2 * state.hole + 1 < count := by
      unfold parent at hindex
      omega
    rw [hindex, state.fill_hole, state.fill_of_ne (by omega)]
    exact (hstop hleft).trans (lesserChild_le hpos hindex hlt)
  · exact hdown.off_hole index hpos hlt hindex

/-! ## The heap operations -/

variable (key) in
/-- Insert `item` into a heap of `count` items. -/
def insert (count : Nat) (memory : Nat → α) (item : α) : Nat → α :=
  siftUp key item ⟨memory, count⟩

variable (key) in
/-- Replace the root of a heap of `count` items. -/
def replaceTop (count : Nat) (memory : Nat → α) (item : α) : Nat → α :=
  siftDown key count item ⟨memory, 0⟩

theorem insert_spec {count : Nat} {memory : Nat → α} (hheap : Heap key count memory) (item : α) :
    Heap key (count + 1) (insert key count memory item) ∧
      contents (count + 1) (insert key count memory item) = item ::ₘ contents count memory ∧
      ∀ index, count < index → insert key count memory item index = memory index := by
  let state : Holed α := ⟨memory, count⟩
  have hsifting : Sifting (count + 1) (state.fill item) item state :=
    ⟨Nat.lt_succ_self count, rfl, fun _ _ => rfl⟩
  have hup : UpOrdered key (count + 1) (state.fill item) state.hole := by
    constructor
    · intro index hpos hlt hne
      have hparent := parent_lt hpos
      have hindex : index < count := by
        have : index ≠ count := hne
        omega
      rw [state.fill_of_ne hne, state.fill_of_ne (show parent index ≠ count by omega)]
      exact hheap index hpos hindex
    · intro index _ hpos hlt hchild
      have hparent := parent_lt hpos
      have : parent index = count := hchild
      omega
  obtain ⟨hfinal, hordered⟩ := Loop.run_invariant (upStep_decreases item)
    (motive := fun state' => Sifting (count + 1) (state.fill item) item state' ∧
      UpOrdered key (count + 1) (state'.fill item) state'.hole)
    (fun _ _ hinv hstep => hinv.2.step hinv.1 hstep) state ⟨hsifting, hup⟩
  refine ⟨hordered.heap (Loop.run_done (upStep_decreases item) state), ?_, ?_⟩
  · refine hfinal.contents_eq.trans ?_
    rw [contents_succ, show state.fill item count = item from state.fill_hole item]
    congr 1
    exact contents_congr fun index hindex => state.fill_of_ne (Nat.ne_of_lt hindex) item
  · intro index hindex
    rw [insert, siftUp, hfinal.frame index hindex]
    exact state.fill_of_ne (Nat.ne_of_gt hindex) item

theorem replaceTop_spec {count : Nat} {memory : Nat → α} (hheap : Heap key count memory)
    (hpos : 0 < count) (item : α) :
    Heap key count (replaceTop key count memory item) ∧
      memory 0 ::ₘ contents count (replaceTop key count memory item) =
        item ::ₘ contents count memory ∧
      ∀ index, count ≤ index → replaceTop key count memory item index = memory index := by
  let state : Holed α := ⟨memory, 0⟩
  have hsifting : Sifting count (state.fill item) item state := ⟨hpos, rfl, fun _ _ => rfl⟩
  have hdown : DownOrdered key count (state.fill item) state.hole := by
    refine ⟨?_, fun _ h => absurd h (Nat.lt_irrefl 0)⟩
    intro index hindex hlt hne
    rw [state.fill_of_ne hne, state.fill_of_ne (show index ≠ 0 by omega)]
    exact hheap index hindex hlt
  obtain ⟨hfinal, hordered⟩ := Loop.run_invariant (downStep_decreases count item)
    (motive := fun state' => Sifting count (state.fill item) item state' ∧
      DownOrdered key count (state'.fill item) state'.hole)
    (fun _ _ hinv hstep => hinv.2.step hinv.1 hstep) state ⟨hsifting, hdown⟩
  refine ⟨hordered.heap (Loop.run_done (downStep_decreases count item) state), ?_, ?_⟩
  · have hcontents : contents count (replaceTop key count memory item) =
        contents count (Function.update memory 0 item) := hfinal.contents_eq
    rw [hcontents, contents_update hpos]
  · intro index hindex
    rw [replaceTop, siftDown, hfinal.frame index hindex]
    exact state.fill_of_ne (show index ≠ 0 by omega) item

theorem Heap.congr {count : Nat} {memory other : Nat → α} (hheap : Heap key count memory)
    (hsame : ∀ index < count, other index = memory index) : Heap key count other := by
  intro index hpos hlt
  have hparent := parent_lt hpos
  rw [hsame index hlt, hsame (parent index) (by omega)]
  exact hheap index hpos hlt

/-- The front of a heap is a heap. -/
theorem Heap.mono {count fewer : Nat} {memory : Nat → α} (hheap : Heap key count memory)
    (hle : fewer ≤ count) : Heap key fewer memory :=
  fun index hpos hlt => hheap index hpos (by omega)

/-- The root of a heap is a least item. -/
theorem Heap.root_le {count : Nat} {memory : Nat → α} (hheap : Heap key count memory)
    {item : α} (hitem : item ∈ contents count memory) : key (memory 0) ≤ key item := by
  obtain ⟨index, hindex, rfl⟩ := mem_contents.mp hitem
  induction index using Nat.strongRecOn with
  | ind index ih =>
      rcases Nat.eq_zero_or_pos index with rfl | hpos
      · exact le_rfl
      · have hparent := parent_lt hpos
        exact (ih (parent index) hparent (by omega)
          (mem_contents.mpr ⟨parent index, by omega, rfl⟩)).trans (hheap index hpos hindex)

/-! ## Sorting a heap in place -/

/-- A heap of what is left, and behind it the items taken off, each no greater than
everything before it. -/
structure Unheaping (key : α → K) (total : Nat) (all : Multiset α) (count : Nat)
    (memory : Nat → α) : Prop where
  heap : Heap key count memory
  count_le : count ≤ total
  contents_eq : contents total memory = all
  behind : ∀ first second, first ≤ second → count ≤ second → second < total →
    key (memory second) ≤ key (memory first)

theorem Unheaping.start {total : Nat} {memory : Nat → α} (hheap : Heap key total memory) :
    Unheaping key total (contents total memory) total memory :=
  ⟨hheap, le_rfl, rfl, fun _ _ _ hle hlt => absurd hle (not_le.mpr hlt)⟩

/-- The root goes to the last place of the heap, whose item is sifted down from the root. -/
theorem Unheaping.round {total count : Nat} {all : Multiset α} {memory : Nat → α}
    (hunheaping : Unheaping key total all count memory) (hcount : 1 < count) :
    Unheaping key total all (count - 1) (Function.update
      (replaceTop key (count - 1) memory (memory (count - 1))) (count - 1) (memory 0)) := by
  obtain ⟨last, rfl⟩ : ∃ last, count = last + 1 := ⟨count - 1, by omega⟩
  rw [Nat.add_sub_cancel]
  have hle := hunheaping.count_le
  obtain ⟨hheap, hcontents, hframe⟩ := replaceTop_spec
    (hunheaping.heap.mono (Nat.le_succ last)) (by omega) (memory last)
  generalize replaceTop key last memory (memory last) = replaced at hheap hcontents hframe
  have hfront : ∀ index < last,
      Function.update replaced last (memory 0) index = replaced index :=
    fun index hindex => Function.update_of_ne hindex.ne _ _
  have hback : ∀ index, last + 1 ≤ index →
      Function.update replaced last (memory 0) index = memory index := by
    intro index hindex
    rw [Function.update_of_ne (by omega)]
    exact hframe index (by omega)
  have hmerged : contents (last + 1) (Function.update replaced last (memory 0)) =
      contents (last + 1) memory := by
    rw [contents_succ, contents_congr hfront, Function.update_self, contents_succ, hcontents]
  -- whatever the heap holds now, it held before
  have hold : ∀ index < last, ∃ source < last + 1,
      memory source = Function.update replaced last (memory 0) index := by
    intro index hindex
    apply mem_contents.mp
    rw [← hmerged]
    exact mem_contents.mpr ⟨index, by omega, rfl⟩
  refine ⟨hheap.congr hfront, by omega, ?_, ?_⟩
  · rw [contents_of_frame hmerged hle hback]
    exact hunheaping.contents_eq
  · intro first second hfirst hsecond hlt
    -- the cell at `last` now holds the old root, which was least in the heap
    rcases Nat.eq_or_lt_of_le hsecond with rfl | hbeyond
    · rcases Nat.eq_or_lt_of_le hfirst with rfl | hless
      · exact le_rfl
      · obtain ⟨source, hsource, hsame⟩ := hold first hless
        rw [Function.update_self, ← hsame]
        exact hunheaping.heap.root_le (mem_contents.mpr ⟨source, hsource, rfl⟩)
    · rw [hback second hbeyond]
      rcases Nat.lt_trichotomy first last with hless | rfl | hmore
      · obtain ⟨source, hsource, hsame⟩ := hold first hless
        rw [← hsame]
        exact hunheaping.behind source second (by omega) hbeyond hlt
      · rw [Function.update_self]
        exact hunheaping.behind 0 second (Nat.zero_le _) hbeyond hlt
      · rw [hback first hmore]
        exact hunheaping.behind first second hfirst hbeyond hlt

end ArrayHeap
