import VBase.Foundation.Selection

/-! # Priority queues

The interface of a heap-ordered container adaptor, for every element type and
every key that orders it. Which of several greatest elements is on top is the
implementation's choice, so what is proved over the interface holds however
ties are broken. Insertion into a sorted list is one implementation.
-/

/-- The container adaptor, with the multiset of its elements as its meaning. -/
class PriorityQueue (Q : {T K : Type} → [LinearOrder K] → (T → K) → Type) where
  empty {T K : Type} [LinearOrder K] {key : T → K} : Q key
  push {T K : Type} [LinearOrder K] {key : T → K} : Q key → T → Q key
  top {T K : Type} [LinearOrder K] {key : T → K} : Q key → Option T
  pop {T K : Type} [LinearOrder K] {key : T → K} : Q key → Q key
  elems {T K : Type} [LinearOrder K] {key : T → K} : Q key → Multiset T
  elems_empty {T K : Type} [LinearOrder K] {key : T → K} : elems (empty : Q key) = 0
  elems_push {T K : Type} [LinearOrder K] {key : T → K} (queue : Q key) (item : T) :
    elems (push queue item) = item ::ₘ elems queue
  elems_of_top_none {T K : Type} [LinearOrder K] {key : T → K} (queue : Q key) :
    top queue = none → elems queue = 0
  elems_of_top_some {T K : Type} [LinearOrder K] {key : T → K} (queue : Q key) (item : T) :
    top queue = some item → elems queue = item ::ₘ elems (pop queue)
  le_top {T K : Type} [LinearOrder K] {key : T → K} (queue : Q key) (item other : T) :
    top queue = some item → other ∈ elems queue → key other ≤ key item

namespace PriorityQueue

attribute [simp] elems_empty elems_push

variable {Q : {T K : Type} → [LinearOrder K] → (T → K) → Type} [PriorityQueue Q]
variable {T K : Type} [LinearOrder K] {key : T → K}

/-- The number of queued elements. -/
def size (queue : Q key) : Nat := (elems queue).card

@[simp] theorem size_empty : size (empty : Q key) = 0 := by
  simp [size]

@[simp] theorem size_push (queue : Q key) (item : T) :
    size (push queue item) = size queue + 1 := by
  simp [size]

theorem size_pop {queue : Q key} {item : T} (htop : top queue = some item) :
    size queue = size (pop queue) + 1 := by
  simp [size, elems_of_top_some queue item htop]

theorem mem_of_top {queue : Q key} {item : T} (htop : top queue = some item) :
    item ∈ elems queue := by
  rw [elems_of_top_some queue item htop]
  exact Multiset.mem_cons_self _ _

/-- Popping keeps the smallest elements. -/
theorem smallestBy_pop {queue : Q key} {item : T} (htop : top queue = some item) :
    SmallestBy key (size (pop queue)) (elems queue) (elems (pop queue)) := by
  have helems := elems_of_top_some queue item htop
  refine ⟨{item}, ?_, ?_, ?_⟩
  · rw [helems, add_comm, Multiset.singleton_add]
  · have hsize := size_pop htop
    unfold size at *
    omega
  · intro low hlow high hhigh
    rw [Multiset.mem_singleton.mp hhigh]
    exact le_top queue item low htop (helems ▸ Multiset.mem_cons_of_mem hlow)

theorem top_eq_none_iff {queue : Q key} : top queue = none ↔ elems queue = 0 := by
  refine ⟨elems_of_top_none queue, ?_⟩
  intro hempty
  cases htop : top queue with
  | none => rfl
  | some item =>
      have hmem := mem_of_top htop
      simp [hempty] at hmem

theorem exists_top_of_mem {queue : Q key} {item : T} (hmem : item ∈ elems queue) :
    ∃ greatest, top queue = some greatest := by
  cases htop : top queue with
  | none => simp [elems_of_top_none queue htop] at hmem
  | some greatest => exact ⟨greatest, rfl⟩

theorem exists_top_of_pos {queue : Q key} (hsize : 0 < size queue) :
    ∃ item, top queue = some item := by
  obtain ⟨item, hitem⟩ := Multiset.card_pos_iff_exists_mem.mp hsize
  exact exists_top_of_mem hitem

/-! ## Dropping the greatest above a bound -/

theorem elems_trim_le (bound : Nat) (queue : Q key) :
    elems (if bound < size queue then pop queue else queue) ≤ elems queue := by
  split
  next hover =>
    obtain ⟨item, htop⟩ := exists_top_of_pos (Nat.zero_lt_of_lt hover)
    rw [elems_of_top_some queue item htop]
    exact Multiset.le_cons_self _ _
  next => exact le_rfl

theorem size_trim (bound : Nat) {queue : Q key} (hsize : size queue ≤ bound + 1) :
    size (if bound < size queue then pop queue else queue) = min bound (size queue) := by
  split
  next hover =>
    obtain ⟨item, htop⟩ := exists_top_of_pos (Nat.zero_lt_of_lt hover)
    have hpop := size_pop htop
    omega
  next hroom => omega

/-- Popping until the queue is empty lists its elements, greatest first. -/
def drain (queue : Q key) : List T := go (size queue) queue
where
  go : Nat → Q key → List T
  | 0, _ => []
  | fuel + 1, queue =>
      match top queue with
      | none => []
      | some item => item :: go fuel (pop queue)

theorem drain_of_top {queue : Q key} {item : T} (htop : top queue = some item) :
    drain queue = item :: drain (pop queue) := by
  rw [drain, size_pop htop, drain.go, htop]
  rfl

theorem drain_of_none {queue : Q key} (htop : top queue = none) : drain queue = [] := by
  have hsize : size queue = 0 := by simp [size, elems_of_top_none queue htop]
  rw [drain, hsize, drain.go]

/-- Draining loses nothing and repeats nothing. -/
theorem coe_drain (queue : Q key) : (↑(drain queue) : Multiset T) = elems queue := by
  induction hsize : size queue generalizing queue with
  | zero =>
      have hempty : elems queue = 0 := Multiset.card_eq_zero.mp hsize
      rw [drain_of_none (top_eq_none_iff.mpr hempty), hempty]
      rfl
  | succ count ih =>
      cases htop : top queue with
      | none => simp [size, elems_of_top_none queue htop] at hsize
      | some item =>
          have hpop := size_pop htop
          rw [drain_of_top htop, elems_of_top_some queue item htop, ← Multiset.cons_coe,
            ih (pop queue) (by omega)]

/-- Draining delivers the elements in descending order of their keys. -/
theorem drain_pairwise (queue : Q key) :
    (drain queue).Pairwise (DescendingBy key) := by
  induction hsize : size queue generalizing queue with
  | zero =>
      have hempty : elems queue = 0 := Multiset.card_eq_zero.mp hsize
      rw [drain_of_none (top_eq_none_iff.mpr hempty)]
      exact List.Pairwise.nil
  | succ count ih =>
      cases htop : top queue with
      | none => simp [size, elems_of_top_none queue htop] at hsize
      | some item =>
          have hpop := size_pop htop
          rw [drain_of_top htop]
          refine List.pairwise_cons.mpr ⟨?_, ih (pop queue) (by omega)⟩
          intro other hother
          have hmem : other ∈ elems (pop queue) := by
            rw [← coe_drain (pop queue)]
            exact hother
          apply le_top queue item other htop
          rw [elems_of_top_some queue item htop]
          exact Multiset.mem_cons_of_mem hmem

/-- Push a list of elements, first to last. -/
def pushAll (queue : Q key) (items : List T) : Q key := items.foldl push queue

@[simp] theorem elems_pushAll (queue : Q key) (items : List T) :
    elems (pushAll queue items) = elems queue + ↑items := by
  induction items generalizing queue with
  | nil => simp [pushAll]
  | cons item rest ih =>
      have hstep : pushAll queue (item :: rest) = pushAll (push queue item) rest := rfl
      rw [hstep, ih, elems_push, ← Multiset.cons_coe, Multiset.cons_add, Multiset.add_cons]

/-! ## Queues that keep the smallest -/

section Bounded

variable {bound : Nat} {queue : Q key} {item : T} {all : Multiset T}

/-- Whether a queue of the `bound` smallest elements takes a new one. -/
def accepts (bound : Nat) (queue : Q key) (item : T) : Bool :=
  size queue < bound || (top queue).any fun greatest => key item < key greatest

/-- Take a new element, in place of the greatest when the queue is full. -/
def pushBounded (bound : Nat) (queue : Q key) (item : T) : Q key :=
  push (if size queue = bound then pop queue else queue) item

theorem accepts_iff : accepts bound queue item = true ↔
    size queue < bound ∨ ∃ greatest, top queue = some greatest ∧ key item < key greatest := by
  simp [accepts, Option.any_eq_true]

/-- Nothing else enters with a new element. -/
theorem elems_pushBounded_le (haccepts : accepts bound queue item = true) :
    elems (pushBounded bound queue item) ≤ item ::ₘ elems queue := by
  rw [pushBounded, elems_push, Multiset.cons_le_cons_iff]
  split
  next hfull =>
    obtain ⟨greatest, htop, -⟩ := (accepts_iff.mp haccepts).resolve_left (by omega)
    rw [elems_of_top_some queue greatest htop]
    exact Multiset.le_cons_self _ _
  next => exact le_rfl

/-- A new element is taken when too few elements are no greater than it. -/
theorem accepts_iff_countP (hsmall : SmallestBy key bound all (elems queue)) :
    accepts bound queue item = true ↔ all.countP (fun other => key other ≤ key item) < bound := by
  have hsize : size queue = min bound all.card := hsmall.card_eq
  have hiff : (bound ≤ all.card ∧ ∀ low ∈ elems queue, key low ≤ key item) ↔
      bound ≤ all.countP (fun other => key other ≤ key item) :=
    hsmall.forall_iff_countP fun _ _ hle => hle.trans
  rw [accepts_iff, ← not_le (a := bound) (b := all.countP _), ← hiff]
  constructor
  · rintro (hroom | ⟨greatest, htop, hlt⟩) ⟨hcard, hall⟩
    · omega
    · exact absurd (hall greatest (mem_of_top htop)) (not_le.mpr hlt)
  · intro hnot
    by_contra hrefused
    rw [not_or] at hrefused
    refine hnot ⟨by omega, fun low hlow => ?_⟩
    obtain ⟨greatest, htop⟩ := exists_top_of_mem hlow
    have hle : key greatest ≤ key item :=
      not_lt.mp fun hlt => hrefused.2 ⟨greatest, htop, hlt⟩
    exact (le_top queue greatest low htop hlow).trans hle

theorem smallestBy_pushBounded (hsmall : SmallestBy key bound all (elems queue))
    (haccepts : accepts bound queue item = true) :
    SmallestBy key bound (item ::ₘ all) (elems (pushBounded bound queue item)) := by
  have hsize : size queue = min bound all.card := hsmall.card_eq
  rw [pushBounded, elems_push]
  rcases Nat.lt_or_ge (size queue) bound with hroom | hfull
  · rw [if_neg hroom.ne]
    exact hsmall.cons_of_room hroom item
  · obtain ⟨greatest, htop, hlt⟩ := (accepts_iff.mp haccepts).resolve_left (by omega)
    have hpop := size_pop htop
    rw [if_pos (by omega)]
    rw [elems_of_top_some queue greatest htop] at hsmall
    refine hsmall.cons_replace ?_ (fun low hlow => ?_) hlt.le
    · unfold size at *
      omega
    · refine le_top queue greatest low htop ?_
      rw [elems_of_top_some queue greatest htop]
      exact Multiset.mem_cons_of_mem hlow

theorem smallestBy_of_not_accepts (hsmall : SmallestBy key bound all (elems queue))
    (hrefused : ¬ accepts bound queue item = true) :
    SmallestBy key bound (item ::ₘ all) (elems queue) := by
  rw [accepts_iff, not_or] at hrefused
  have hsize : size queue = min bound all.card := hsmall.card_eq
  refine hsmall.cons_of_le ?_ fun low hlow => ?_
  · unfold size at *
    omega
  · obtain ⟨greatest, htop⟩ := exists_top_of_mem hlow
    have hle : key greatest ≤ key item :=
      not_lt.mp fun hlt => hrefused.2 ⟨greatest, htop, hlt⟩
    exact (le_top queue greatest low htop hlow).trans hle

end Bounded

end PriorityQueue

/-- A queue kept as a list in descending order of its keys. -/
structure SortedQueue {T K : Type} [LinearOrder K] (key : T → K) where
  items : List T
  descending : items.Pairwise (DescendingBy key)

instance : PriorityQueue @SortedQueue where
  empty := ⟨[], List.Pairwise.nil⟩
  push := fun queue item => ⟨queue.items.orderedInsert (DescendingBy _) item,
    queue.descending.orderedInsert item⟩
  top := fun queue => queue.items.head?
  pop := fun queue => ⟨queue.items.tail, queue.descending.tail⟩
  elems := fun queue => queue.items
  elems_empty := rfl
  elems_push := fun queue item => Multiset.coe_eq_coe.mpr (List.perm_orderedInsert _ item _)
  elems_of_top_none := by
    intro T K _ key queue htop
    rw [List.head?_eq_none_iff.mp htop]
    rfl
  elems_of_top_some := by
    intro T K _ key queue item htop
    obtain ⟨rest, hrest⟩ := List.head?_eq_some_iff.mp htop
    simp [hrest]
  le_top := by
    intro T K _ key queue item other htop hmem
    obtain ⟨rest, hrest⟩ := List.head?_eq_some_iff.mp htop
    have hdesc := queue.descending
    rw [hrest] at hdesc hmem
    rcases List.mem_cons.mp (Multiset.mem_coe.mp hmem) with rfl | hother
    · exact le_rfl
    · exact (List.pairwise_cons.mp hdesc).1 other hother
