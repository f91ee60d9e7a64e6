import VBase.Foundation.SwapHeap

/-! # The queues of a search

`Heap` is a priority queue of fixed room. A value that comes when there is none takes the
place of the greatest value of the last level, if it is not greater itself.
-/

namespace VBase.Sptag

open ArrayHeap

variable {T K : Type} [LinearOrder K] (key : T → K)

/-- `Heap<T>`. Cell `i` of `heap` is `heap[i + 1]` of the source, and `spare` is its `heap[0]`. -/
structure Heap (T : Type) where
  length : Nat
  count : Nat
  lastlevel : Nat
  spare : T
  heap : Nat → T

namespace Heap

/-- `Resize`, with values of the default constructor. The last level is computed in floating point
in the source. -/
def resize (blank : T) (size : Nat) : Heap T where
  length := size
  count := 0
  lastlevel := 2 ^ size.log2
  spare := blank
  heap := fun _ => blank

def clear (self : Heap T) : Heap T := { self with count := 0 }

def empty (self : Heap T) : Bool := self.count == 0

def top (self : Heap T) : T := if self.count = 0 then self.spare else self.heap 0

/-- The loop of `insert` over the last level. -/
def maxi (self : Heap T) : Nat :=
  (List.range' self.lastlevel (self.length - self.lastlevel)).foldl
    (fun maxi i => if key (self.heap maxi) < key (self.heap i) then i else maxi)
    (self.lastlevel - 1)

def insert (self : Heap T) (value : T) : Heap T :=
  if self.count = self.length then
    if key (self.heap (self.maxi key)) < key value then self
    else { self with heap := replaceLeaf key self.heap (self.maxi key) value }
  else
    { self with
      count := self.count + 1
      heap := ArrayHeap.insert key self.count self.heap value }

/-- `pop`, which returns what stands behind the heap afterwards. -/
def pop (self : Heap T) : T × Heap T :=
  if self.count = 0 then (self.spare, self)
  else
    let heap := sink key (self.count - 1) (self.heap ∘ Equiv.swap 0 (self.count - 1))
    (heap (self.count - 1), { self with count := self.count - 1, heap := heap })

/-- The values in the queue. -/
def elems (self : Heap T) : Multiset T := contents self.count self.heap

/-- A queue in order. -/
structure Valid (queue : Heap T) : Prop where
  ordered : ArrayHeap.Heap key queue.count queue.heap
  count_le : queue.count ≤ queue.length
  lastlevel_pos : 0 < queue.lastlevel
  lastlevel_le : queue.lastlevel ≤ queue.length
  length_lt : queue.length < 2 * queue.lastlevel

variable {key} {self : Heap T}

@[simp] theorem card_elems (self : Heap T) : self.elems.card = self.count :=
  card_contents self.count self.heap

theorem valid_resize (blank : T) {size : Nat} (hsize : size ≠ 0) :
    Valid key (resize blank size) where
  ordered := fun _ _ hlt => absurd hlt (Nat.not_lt_zero _)
  count_le := Nat.zero_le size
  lastlevel_pos := Nat.two_pow_pos _
  lastlevel_le := Nat.log2_self_le hsize
  length_lt := by
    have hlt := Nat.lt_log2_self (n := size)
    rw [Nat.pow_succ] at hlt
    change size < 2 * 2 ^ size.log2
    omega

theorem Valid.clear (hvalid : Valid key self) : Valid key self.clear :=
  ⟨fun _ _ hlt => absurd hlt (Nat.not_lt_zero _), Nat.zero_le _, hvalid.lastlevel_pos,
    hvalid.lastlevel_le, hvalid.length_lt⟩

/-- The cell that gives way is on the last level. -/
theorem Valid.maxi_mem (hvalid : Valid key self) :
    self.lastlevel - 1 ≤ self.maxi key ∧ self.maxi key < self.length := by
  have hpos := hvalid.lastlevel_pos
  have hle := hvalid.lastlevel_le
  have hfold : ∀ (cells : List Nat) (start : Nat), (∀ cell ∈ cells, cell < self.length) →
      (∀ cell ∈ cells, self.lastlevel - 1 ≤ cell) →
      self.lastlevel - 1 ≤ start → start < self.length →
      self.lastlevel - 1 ≤ cells.foldl
          (fun maxi i => if key (self.heap maxi) < key (self.heap i) then i else maxi) start ∧
        cells.foldl
          (fun maxi i => if key (self.heap maxi) < key (self.heap i) then i else maxi) start <
            self.length := by
    intro cells
    induction cells with
    | nil => exact fun start _ _ hlow hhigh => ⟨hlow, hhigh⟩
    | cons cell rest ih =>
        intro start hhigh hlow hstart hlt
        have hrest := fun other hother => hhigh other (List.mem_cons_of_mem cell hother)
        have hrest' := fun other hother => hlow other (List.mem_cons_of_mem cell hother)
        rw [List.foldl_cons]
        split
        · exact ih cell hrest hrest' (hlow cell List.mem_cons_self) (hhigh cell List.mem_cons_self)
        · exact ih start hrest hrest' hstart hlt
  apply hfold
  · intro cell hcell
    have hbounds := List.mem_range'_1.mp hcell
    omega
  · intro cell hcell
    have hbounds := List.mem_range'_1.mp hcell
    omega
  · exact le_rfl
  · omega

/-- With room, a value is added. -/
theorem Valid.insert_of_room (hvalid : Valid key self) (hroom : self.count < self.length)
    (value : T) :
    Valid key (self.insert key value) ∧ (self.insert key value).elems = value ::ₘ self.elems := by
  obtain ⟨hheap, hcontents, -⟩ := insert_spec hvalid.ordered value
  rw [Heap.insert, if_neg hroom.ne]
  exact ⟨⟨hheap, hroom, hvalid.lastlevel_pos, hvalid.lastlevel_le, hvalid.length_lt⟩, hcontents⟩

/-- Without room, a value at most takes the place of another one. -/
theorem Valid.insert (hvalid : Valid key self) (value : T) :
    Valid key (self.insert key value) ∧
      (self.insert key value).elems ≤ value ::ₘ self.elems := by
  by_cases hfull : self.count = self.length
  · rw [Heap.insert, if_pos hfull]
    split
    next => exact ⟨hvalid, Multiset.le_cons_self _ _⟩
    next =>
      obtain ⟨hlow, hhigh⟩ := hvalid.maxi_mem
      have hlength := hvalid.length_lt
      obtain ⟨hheap, hcontents, -⟩ :=
        replaceLeaf_spec hvalid.ordered (hfull ▸ hhigh) (by omega) value
      refine ⟨⟨hheap, hvalid.count_le, hvalid.lastlevel_pos, hvalid.lastlevel_le,
        hvalid.length_lt⟩, ?_⟩
      change contents self.count _ ≤ value ::ₘ contents self.count self.heap
      rw [← hcontents]
      exact Multiset.le_cons_self _ _
  · have hroom : self.count < self.length := lt_of_le_of_ne hvalid.count_le hfull
    obtain ⟨hafter, helems⟩ := hvalid.insert_of_room hroom value
    exact ⟨hafter, helems.le⟩

/-- `pop` takes off a least value. -/
theorem Valid.pop (hvalid : Valid key self) (hpos : 0 < self.count) :
    Valid key (self.pop key).2 ∧ (self.pop key).1 ::ₘ (self.pop key).2.elems = self.elems ∧
      ∀ other ∈ self.elems, key (self.pop key).1 ≤ key other := by
  obtain ⟨last, hlast⟩ : ∃ last, self.count = last + 1 := ⟨self.count - 1, by omega⟩
  have hordered : ArrayHeap.Heap key (last + 1) self.heap := hlast ▸ hvalid.ordered
  have hfront : ∀ index, 0 < index → index < last →
      (self.heap ∘ Equiv.swap 0 last) index = self.heap index := by
    intro index hindex hlt
    rw [Function.comp_apply, Equiv.swap_apply_of_ne_of_ne hindex.ne' hlt.ne]
  obtain ⟨hheap, hcontents, hframe⟩ :=
    sink_spec ((hordered.mono (Nat.le_succ last)).downOrdered hfront)
  have hroot : sink key last (self.heap ∘ Equiv.swap 0 last) last = self.heap 0 := by
    rw [hframe last le_rfl, Function.comp_apply, Equiv.swap_apply_right]
  have hpop : self.pop key = (sink key last (self.heap ∘ Equiv.swap 0 last) last,
      { self with count := last, heap := sink key last (self.heap ∘ Equiv.swap 0 last) }) := by
    rw [Heap.pop, if_neg hpos.ne', hlast]
    rfl
  rw [hpop]
  have hcount := hvalid.count_le
  refine ⟨⟨hheap, by change last ≤ self.length; omega, hvalid.lastlevel_pos, hvalid.lastlevel_le,
    hvalid.length_lt⟩, ?_, ?_⟩
  · change sink key last _ last ::ₘ contents last (sink key last _) = contents self.count self.heap
    rw [hcontents, hframe last le_rfl, ← contents_succ, hlast]
    exact contents_comp_swap self.heap (Nat.succ_pos last) (Nat.lt_succ_self last)
  · intro other hother
    rw [hroot]
    exact hvalid.ordered.root_le hother

end Heap

end VBase.Sptag
