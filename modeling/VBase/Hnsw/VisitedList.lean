import VBase.Hnsw.Index
import Mathlib.Data.UInt

/-! # Visited lists and their pool

A visited list marks elements with its current tag and is recycled without
being cleared: `reset` moves on to the next tag, and clears the marks only when
the 16-bit tag wraps. The pool hands lists out by address and allocates when it
is empty. Fresh marks are whatever the allocator left in memory.
-/

namespace VBase.Hnsw

/-- `VisitedList`. `mass` is the array of marks. -/
structure VisitedList where
  curV : UInt16
  mass : Nat → UInt16

namespace VisitedList

/-- The constructor: the tag starts at -1 and the marks are uninitialised. -/
def new (mass : Nat → UInt16) : VisitedList := ⟨-1, mass⟩

def reset (vl : VisitedList) : VisitedList :=
  let curV := vl.curV + 1
  if curV = 0 then ⟨curV + 1, fun _ => 0⟩ else ⟨curV, vl.mass⟩

/-- `visited_array[id] == visited_array_tag`. -/
def Visited (vl : VisitedList) (id : Nat) : Prop := vl.mass id = vl.curV

instance (vl : VisitedList) (id : Nat) : Decidable (vl.Visited id) :=
  inferInstanceAs (Decidable (vl.mass id = vl.curV))

/-- `visited_array[id] = visited_array_tag`. -/
def mark (vl : VisitedList) (id : Nat) : VisitedList :=
  ⟨vl.curV, Function.update vl.mass id vl.curV⟩

/-- No mark is ahead of the tag. -/
def Current (vl : VisitedList) : Prop := ∀ id, (vl.mass id).toNat ≤ vl.curV.toNat

theorem new_current (mass : Nat → UInt16) : (new mass).Current := by
  intro id
  have hlt := (mass id).toNat_lt
  change (mass id).toNat ≤ 65535
  omega

theorem mark_current {vl : VisitedList} (hvl : vl.Current) (id : Nat) : (vl.mark id).Current := by
  intro other
  simp only [mark, Function.update_apply]
  split
  · exact le_rfl
  · exact hvl other

theorem toNat_lt_succ {tag : UInt16} (htag : tag + 1 ≠ 0) : tag.toNat < (tag + 1).toNat := by
  have hlt := tag.toNat_lt
  have hne : (tag + 1).toNat ≠ 0 := fun hzero => htag (UInt16.toNat.inj hzero)
  rw [UInt16.toNat_add] at hne ⊢
  change (tag.toNat + 1) % 65536 ≠ 0 at hne
  change tag.toNat < (tag.toNat + 1) % 65536
  omega

/-- After a reset every mark is behind the tag, also when the tag has wrapped. -/
theorem reset_behind {vl : VisitedList} (hvl : vl.Current) (id : Nat) :
    (vl.reset.mass id).toNat < vl.reset.curV.toNat := by
  unfold reset
  simp only
  split
  next hwrap =>
    rw [hwrap]
    exact Nat.zero_lt_one
  next hnext => exact (hvl id).trans_lt (toNat_lt_succ hnext)

theorem reset_not_visited {vl : VisitedList} (hvl : vl.Current) (id : Nat) :
    ¬ vl.reset.Visited id := by
  intro hvisited
  have hlt := reset_behind hvl id
  rw [Visited] at hvisited
  rw [hvisited] at hlt
  exact hlt.false

theorem reset_current {vl : VisitedList} (hvl : vl.Current) : vl.reset.Current :=
  fun id => (reset_behind hvl id).le

theorem mark_visited {vl : VisitedList} {id other : Nat} :
    (vl.mark id).Visited other ↔ other = id ∨ vl.Visited other := by
  unfold Visited mark
  by_cases heq : other = id
  · simp [heq]
  · simp [heq]

end VisitedList

/-- `VisitedListPool` and the lists it has allocated, by address. `uninit` is what
`new vl_type[n]` finds at each address. -/
structure VisitedListPool where
  memory : Nat → VisitedList
  allocated : Nat
  pool : List Nat
  uninit : Nat → Nat → UInt16

namespace VisitedListPool

/-- The pool that `loadIndex` makes, with one list in it. -/
def new (uninit : Nat → Nat → UInt16) : VisitedListPool where
  memory := fun address => VisitedList.new (uninit address)
  allocated := 1
  pool := [0]
  uninit := uninit

/-- Write a list back to its address. -/
def store (lists : VisitedListPool) (address : Nat) (vl : VisitedList) : VisitedListPool :=
  { lists with memory := Function.update lists.memory address vl }

def getFreeVisitedList (lists : VisitedListPool) : Nat × VisitedListPool :=
  match lists.pool with
  | address :: rest =>
      (address, { lists with pool := rest }.store address (lists.memory address).reset)
  | [] =>
      let vl := VisitedList.new (lists.uninit lists.allocated)
      (lists.allocated,
        { lists with allocated := lists.allocated + 1 }.store lists.allocated vl.reset)

def releaseVisitedList (lists : VisitedListPool) (address : Nat) : VisitedListPool :=
  { lists with pool := address :: lists.pool }

/-- The pool and the lists in use share no address, and no mark is ahead of its tag. -/
structure Sound (lists : VisitedListPool) (held : Set Nat) : Prop where
  nodup : lists.pool.Nodup
  not_held : ∀ address ∈ lists.pool, address ∉ held
  lt_allocated : ∀ address, address ∈ lists.pool ∨ address ∈ held → address < lists.allocated
  current : ∀ address, address ∈ lists.pool ∨ address ∈ held → (lists.memory address).Current

@[simp] theorem store_memory_self (lists : VisitedListPool) (address : Nat) (vl : VisitedList) :
    (lists.store address vl).memory address = vl := by
  simp [store]

theorem store_memory_of_ne (lists : VisitedListPool) {address other : Nat} (vl : VisitedList)
    (hne : other ≠ address) : (lists.store address vl).memory other = lists.memory other := by
  simp [store, Function.update_of_ne hne]

@[simp] theorem store_pool (lists : VisitedListPool) (address : Nat) (vl : VisitedList) :
    (lists.store address vl).pool = lists.pool := rfl

@[simp] theorem store_allocated (lists : VisitedListPool) (address : Nat) (vl : VisitedList) :
    (lists.store address vl).allocated = lists.allocated := rfl

theorem new_sound (uninit : Nat → Nat → UInt16) : (new uninit).Sound ∅ where
  nodup := List.nodup_singleton 0
  not_held := fun _ _ => Set.notMem_empty _
  lt_allocated := by simp [new]
  current := fun address _ => VisitedList.new_current (uninit address)

theorem Sound.store {lists : VisitedListPool} {held : Set Nat} (hsound : lists.Sound held)
    (address : Nat) {vl : VisitedList} (hvl : vl.Current) :
    (lists.store address vl).Sound held where
  nodup := hsound.nodup
  not_held := hsound.not_held
  lt_allocated := hsound.lt_allocated
  current := by
    intro other hother
    by_cases heq : other = address
    · rwa [heq, store_memory_self]
    · rw [store_memory_of_ne lists vl heq]
      exact hsound.current other hother

/-- The first list of the pool becomes a held one. -/
theorem Sound.take {lists : VisitedListPool} {held : Set Nat} (hsound : lists.Sound held)
    {address : Nat} {rest : List Nat} (hpool : lists.pool = address :: rest) :
    ({ lists with pool := rest } : VisitedListPool).Sound (insert address held) := by
  have hmem : address ∈ lists.pool := hpool ▸ List.mem_cons_self
  have hrest : ∀ other ∈ rest, other ∈ lists.pool := fun other hother =>
    hpool ▸ List.mem_cons_of_mem _ hother
  have hnodup := List.nodup_cons.mp (hpool ▸ hsound.nodup)
  have hmoved : ∀ other, other ∈ rest ∨ other ∈ insert address held →
      other ∈ lists.pool ∨ other ∈ held := by
    rintro other (hother | rfl | hother)
    · exact Or.inl (hrest other hother)
    · exact Or.inl hmem
    · exact Or.inr hother
  refine ⟨hnodup.2, ?_, ?_, ?_⟩
  · rintro other hother (rfl | hheld)
    · exact hnodup.1 hother
    · exact hsound.not_held other (hrest other hother) hheld
  · exact fun other hother => hsound.lt_allocated other (hmoved other hother)
  · exact fun other hother => hsound.current other (hmoved other hother)

theorem Sound.ne_allocated {lists : VisitedListPool} {held : Set Nat} (hsound : lists.Sound held)
    {address : Nat} (haddress : address ∈ held) : address ≠ lists.allocated :=
  (hsound.lt_allocated address (Or.inr haddress)).ne

/-- An empty pool allocates a list. -/
theorem Sound.allocate {lists : VisitedListPool} {held : Set Nat} (hsound : lists.Sound held)
    (hpool : lists.pool = []) {vl : VisitedList} (hvl : vl.Current) :
    ({ lists with allocated := lists.allocated + 1 }.store lists.allocated vl).Sound
      (insert lists.allocated held) := by
  have hnone : ∀ other, other ∉ lists.pool := fun other => hpool ▸ List.not_mem_nil
  refine ⟨hsound.nodup, fun other hother => absurd hother (hnone other), ?_, ?_⟩
  · rintro other (hother | rfl | hother)
    · exact absurd hother (hnone other)
    · exact Nat.lt_succ_self _
    · exact (hsound.lt_allocated other (Or.inr hother)).trans (Nat.lt_succ_self _)
  · rintro other (hother | rfl | hother)
    · exact absurd hother (hnone other)
    · rwa [store_memory_self]
    · rw [store_memory_of_ne _ _ (hsound.ne_allocated hother)]
      exact hsound.current other (Or.inr hother)

/-- What a caller of `getFreeVisitedList` gets: an unmarked list that nobody else holds. -/
theorem Sound.getFreeVisitedList {lists : VisitedListPool} {held : Set Nat}
    (hsound : lists.Sound held) :
    (lists.getFreeVisitedList.2).Sound (insert lists.getFreeVisitedList.1 held) ∧
      lists.getFreeVisitedList.1 ∉ held ∧
      (∀ id, ¬ (lists.getFreeVisitedList.2.memory lists.getFreeVisitedList.1).Visited id) ∧
      ∀ address ∈ held, lists.getFreeVisitedList.2.memory address = lists.memory address := by
  unfold VisitedListPool.getFreeVisitedList
  cases hpool : lists.pool with
  | cons address rest =>
      have hmem : address ∈ lists.pool := hpool ▸ List.mem_cons_self
      have hcurrent := hsound.current address (Or.inl hmem)
      have hnot := hsound.not_held address hmem
      refine ⟨(hsound.take hpool).store address (VisitedList.reset_current hcurrent), hnot, ?_, ?_⟩
      · intro id
        rw [store_memory_self]
        exact VisitedList.reset_not_visited hcurrent id
      · intro other hother
        exact store_memory_of_ne _ _ (fun heq => hnot (heq ▸ hother))
  | nil =>
      have hcurrent := VisitedList.new_current (lists.uninit lists.allocated)
      have hallocated := hsound.allocate hpool (VisitedList.reset_current hcurrent)
      rw [hpool] at hallocated
      refine ⟨hallocated, fun hmem => hsound.ne_allocated hmem rfl, ?_, ?_⟩
      · intro id
        rw [store_memory_self]
        exact VisitedList.reset_not_visited hcurrent id
      · intro other hother
        exact store_memory_of_ne _ _ (hsound.ne_allocated hother)

/-- Giving a held list back. -/
theorem Sound.releaseVisitedList {lists : VisitedListPool} {address : Nat} {held : Set Nat}
    (hsound : lists.Sound held) (haddress : address ∈ held) :
    (lists.releaseVisitedList address).Sound (held \ {address}) := by
  have hmoved : ∀ other, other ∈ address :: lists.pool ∨ other ∈ held \ {address} →
      other ∈ lists.pool ∨ other ∈ held := by
    rintro other (hother | hother)
    · rcases List.mem_cons.mp hother with rfl | hother
      · exact Or.inr haddress
      · exact Or.inl hother
    · exact Or.inr hother.1
  refine ⟨List.nodup_cons.mpr ⟨fun hmem => hsound.not_held address hmem haddress, hsound.nodup⟩,
    ?_, fun other hother => hsound.lt_allocated other (hmoved other hother),
    fun other hother => hsound.current other (hmoved other hother)⟩
  rintro other hother ⟨hheld, hne⟩
  rcases List.mem_cons.mp hother with rfl | hother
  · exact hne rfl
  · exact hsound.not_held other hother hheld

end VisitedListPool

end VBase.Hnsw
