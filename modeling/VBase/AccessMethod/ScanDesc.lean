import VBase.Foundation.Loop
import VBase.Foundation.Pass
import VBase.Foundation.PriorityQueue

/-! # Index scan descriptors

What the access methods share: the descriptor that `RelationGetIndexScan`
allocates, the keys that a rescan copies into it, and the loop in which
`gettuple` pulls results from a search iterator until one passes its filter.
The iterators are a library to the access methods. They call it only through
non-null pointers, and a dereference of a null pointer is a `Fault`.
-/

namespace VBase.AccessMethod

/-- A heap tuple identifier. -/
structure ItemPointer where
  blkno : UInt32
  offset : UInt16
  deriving DecidableEq

/-- `ItemPointerSet` with the block and offset packed into a label. -/
def ItemPointer.ofLabel (number : UInt64) : ItemPointer :=
  ⟨(number >>> 32).toUInt32, number.toUInt32.toUInt16⟩

/-- The label that the builders give a row. The block number passes through a signed integer,
whose sign is shifted out again. -/
def ItemPointer.toLabel (tid : ItemPointer) : UInt64 :=
  let blockId : Int32 := tid.blkno.toInt32
  let offset : Int32 := tid.offset.toUInt32.toInt32
  let number : UInt64 := blockId.toInt64.toUInt64
  (number <<< 32) + offset.toInt64.toUInt64

/-- A 32-bit number that passes through a signed integer keeps its low half. -/
theorem toNat_signExtend (number : UInt32) :
    number.toInt32.toInt64.toUInt64.toNat =
      number.toNat + if 2 ^ 31 ≤ number.toNat then 2 ^ 64 - 2 ^ 32 else 0 := by
  have hbits : number.toInt32.toInt64.toUInt64.toNat = (number.toBitVec.signExtend 64).toNat := rfl
  have hlt := number.toNat_lt
  have hmsb : number.toBitVec.msb = decide (2 ^ 31 ≤ number.toNat) := by
    rw [BitVec.msb_eq_decide, UInt32.toNat_toBitVec]
  rw [hbits, BitVec.toNat_signExtend, hmsb, BitVec.toNat_setWidth, UInt32.toNat_toBitVec,
    Nat.mod_eq_of_lt (by omega)]
  simp

theorem ItemPointer.toLabel_toNat (tid : ItemPointer) :
    tid.toLabel.toNat = tid.blkno.toNat * 2 ^ 32 + tid.offset.toNat := by
  have hblkno := tid.blkno.toNat_lt
  have hoffset := tid.offset.toNat_lt
  have hsmall : ¬ 2 ^ 31 ≤ tid.offset.toNat := by omega
  simp only [toLabel, UInt64.toNat_add, UInt64.toNat_shiftLeft, toNat_signExtend, if_neg hsmall,
    UInt16.toNat_toUInt32, UInt64.reduceToNat, Nat.shiftLeft_eq, Nat.reduceMod]
  split <;> omega

theorem ItemPointer.ofLabel_toLabel (tid : ItemPointer) : ofLabel tid.toLabel = tid := by
  have hblkno := tid.blkno.toNat_lt
  have hoffset := tid.offset.toNat_lt
  have hlabel := tid.toLabel_toNat
  obtain ⟨blkno, offset⟩ := tid
  dsimp only at hblkno hoffset hlabel
  rw [ofLabel, mk.injEq, ← UInt32.toNat_inj, ← UInt16.toNat_inj]
  simp only [UInt64.toNat_toUInt32, UInt64.toNat_shiftRight, UInt32.toNat_toUInt16, hlabel,
    UInt64.reduceToNat, Nat.reduceMod, Nat.shiftRight_eq_div_pow]
  omega

theorem ItemPointer.toLabel_injective : Function.Injective toLabel :=
  Function.LeftInverse.injective ofLabel_toLabel

/-- A scan key: the `SK_ISNULL` flag and the query array of its argument. -/
structure ScanKey (D : Type) where
  isNull : Bool
  argument : List D

/-- The keys of a scan. A key array is `none` when it is a null pointer, and is otherwise
represented by its first key, the only one that is read. -/
structure ScanKeys (D : Type) where
  numberOfKeys : Nat
  numberOfOrderBys : Nat
  keyData : Option (ScanKey D)
  orderByData : Option (ScanKey D)

/-- `IndexScanDescData`. -/
structure IndexScanDesc (D : Type) extends ScanKeys D where
  xsHeaptid : ItemPointer
  xsRecheck : Bool
  xsInorder : Bool
  xsOrderbyval : Option D
  xsRecheckorderby : Bool

/-- The pointers that an access method may find null, and the empty query array. -/
inductive Fault
  | workSpace
  | vectorIndex
  | data
  | resultIterator
  | array
  deriving DecidableEq

/-- How a query fails: a null dereference in an access method, or an error report. -/
inductive Failure
  | fault (fault : Fault)
  | elog (message : String)
  deriving DecidableEq

variable {D : Type}

/-- `palloc` leaves what was in memory: `uninit` in the fields that are not set here,
`junk` in the key arrays. -/
def relationGetIndexScan (uninit : IndexScanDesc D) (junk : ScanKey D × ScanKey D)
    (nkeys norderbys : Nat) : IndexScanDesc D :=
  { uninit with
    numberOfKeys := nkeys
    numberOfOrderBys := norderbys
    keyData := if 0 < nkeys then some junk.1 else none
    orderByData := if 0 < norderbys then some junk.2 else none }

namespace ScanKeys

/-- `memmove` into a key array, when keys are given and the array exists. -/
def overwrite (count : Nat) (given stored : Option (ScanKey D)) : Option (ScanKey D) :=
  if 0 < count then given.or stored else stored

/-- The end of every `rescan`. -/
def set (scan : ScanKeys D) (keys orderbys : Option (ScanKey D)) : ScanKeys D :=
  { scan with
    keyData := overwrite scan.numberOfKeys keys scan.keyData
    orderByData := overwrite scan.numberOfOrderBys orderbys scan.orderByData }

end ScanKeys

/-- Replace the keys of a descriptor. -/
def IndexScanDesc.setKeys (scan : IndexScanDesc D) (keys orderbys : Option (ScanKey D)) :
    IndexScanDesc D :=
  { scan with toScanKeys := scan.toScanKeys.set keys orderbys }

/-- A search library over an index that is ready: open an iterator for a query, ask it for the
next result, close it. Every result uses up some of what remains. -/
structure IteratorLibrary (D I W : Type) where
  create : List D → W → I × W
  next : I → W → Option (UInt64 × D) × I × W
  close : I → W → W
  remaining : I → W → Nat
  next_remaining : ∀ iter world result, (next iter world).1 = some result →
    remaining (next iter world).2.1 (next iter world).2.2 < remaining iter world

/-- The results of `count` calls of `next`. -/
def IteratorLibrary.results {I W : Type} (lib : IteratorLibrary D I W) :
    Nat → I → W → List (Option (UInt64 × D))
  | 0, _, _ => []
  | count + 1, iter, world =>
      let after := lib.next iter world
      after.1 :: lib.results count after.2.1 after.2.2

/-- The library whose iterators deliver given results. -/
def resultList (results : List D → List (UInt64 × D)) :
    IteratorLibrary D (List (UInt64 × D)) Unit where
  create := fun target world => (results target, world)
  next := fun iter world => (iter.head?, iter.tail, world)
  close := fun _ world => world
  remaining := fun iter _ => iter.length
  next_remaining := by
    intro iter world result hresult
    obtain ⟨rest, rfl⟩ := List.head?_eq_some_iff.mp hresult
    exact Nat.lt_succ_self _

/-- What the body of the `gettuple` loop does with a result: return false, `continue`,
or return the tuple. -/
inductive Turn
  | stop
  | skip
  | emit
  deriving DecidableEq

/-- The loop of `gettuple`. The outcome is `none` while the loop runs, then the result
that is returned, if any. -/
structure Fetching (D I W F : Type) where
  iter : I
  world : W
  filter : F
  outcome : Option (Option (UInt64 × D))

namespace Fetching

variable {I W F : Type} (lib : IteratorLibrary D I W) (turn : D → F → Turn × F)

/-- One turn of `while (true)`. -/
def step (state : Fetching D I W F) : Option (Fetching D I W F) :=
  if state.outcome.isSome then none
  else
    match lib.next state.iter state.world with
    | (none, iter, world) => some ⟨iter, world, state.filter, some none⟩
    | (some (label, dist), iter, world) =>
        match turn dist state.filter with
        | (Turn.stop, filter) => some ⟨iter, world, filter, some none⟩
        | (Turn.skip, filter) => some ⟨iter, world, filter, none⟩
        | (Turn.emit, filter) => some ⟨iter, world, filter, some (some (label, dist))⟩

/-- A running loop can take as many turns as results remain, and one more. -/
def measure (state : Fetching D I W F) : Nat :=
  if state.outcome.isSome then 0 else lib.remaining state.iter state.world + 1

def run (iter : I) (world : W) (filter : F) : Fetching D I W F :=
  Loop.run (measure lib) (step lib turn) ⟨iter, world, filter, none⟩

theorem step_decreases : Loop.Decreases (measure lib) (step lib turn) := by
  intro state after hstep
  unfold step at hstep
  split at hstep
  · simp at hstep
  next hrunning =>
    have hmeasure : measure lib state = lib.remaining state.iter state.world + 1 := if_neg hrunning
    rw [hmeasure]
    split at hstep
    · obtain rfl := Option.some.inj hstep
      exact Nat.succ_pos _
    next label dist iter world hnext =>
      have hlt := lib.next_remaining state.iter state.world (label, dist) (by rw [hnext])
      rw [hnext] at hlt
      split at hstep
      · obtain rfl := Option.some.inj hstep
        exact Nat.succ_pos _
      · obtain rfl := Option.some.inj hstep
        exact Nat.succ_lt_succ hlt
      · obtain rfl := Option.some.inj hstep
        exact Nat.succ_pos _

end Fetching

/-- What `count` calls of `gettuple` return. The caller observes the scan after each call that
found a tuple. -/
def returned {S α : Type} (gettuple : S → Except Fault (Bool × S)) (observe : S → α) :
    Nat → S → Except Fault (List (Option α) × S)
  | 0, s => Except.ok ([], s)
  | count + 1, s => do
      let (found, s) ← gettuple s
      let (rest, last) ← returned gettuple observe count s
      return ((if found then some (observe s) else none) :: rest, last)

/-- A scan whose first call does what it would do on another scan returns the same. -/
theorem returned_congr {S α : Type} {gettuple : S → Except Fault (Bool × S)} {observe : S → α}
    {s s' : S} (hcall : gettuple s = gettuple s') (count : Nat) :
    returned gettuple observe (count + 1) s = returned gettuple observe (count + 1) s' := by
  rw [returned, hcall, ← returned]

/-- The first of several calls, and the others. -/
theorem returned_succ {S α : Type} {gettuple : S → Except Fault (Bool × S)} {observe : S → α}
    {count : Nat} {s last : S} {list : List (Option α)}
    (hreturned : returned gettuple observe (count + 1) s = Except.ok (list, last)) :
    ∃ found after rest, gettuple s = Except.ok (found, after) ∧
      returned gettuple observe count after = Except.ok (rest, last) ∧
      list = (if found then some (observe after) else none) :: rest := by
  rw [returned] at hreturned
  obtain ⟨⟨found, after⟩, hget, hlater⟩ := Pass.bind_ok.mp hreturned
  obtain ⟨⟨rest, final⟩, hrest, hlist⟩ := Pass.bind_ok.mp hlater
  obtain ⟨rfl, rfl⟩ := Prod.mk.inj (Except.ok.inj hlist)
  exact ⟨found, after, rest, hget, hrest, rfl⟩

/-- What every call keeps holds when the calls have returned. -/
theorem returned_invariant {S α : Type} {gettuple : S → Except Fault (Bool × S)} {observe : S → α}
    {motive : S → Prop}
    (hcall : ∀ s found after, motive s → gettuple s = Except.ok (found, after) → motive after)
    (count : Nat) {s last : S} {list : List (Option α)} (hs : motive s)
    (hreturned : returned gettuple observe count s = Except.ok (list, last)) : motive last := by
  induction count generalizing s list last with
  | zero =>
      obtain ⟨-, rfl⟩ := Prod.mk.inj (Except.ok.inj hreturned)
      exact hs
  | succ count ih =>
      obtain ⟨found, after, rest, hget, hrest, -⟩ := returned_succ hreturned
      exact ih (hcall s found after hs hget) hrest

/-- What every call keeps holds of every tuple that is returned. -/
theorem returned_forall {S α : Type} {gettuple : S → Except Fault (Bool × S)} {observe : S → α}
    {motive : S → Prop} {property : α → Prop}
    (hcall : ∀ s found after, motive s → gettuple s = Except.ok (found, after) →
      motive after ∧ (found = true → property (observe after)))
    (count : Nat) {s last : S} {list : List (Option α)} (hs : motive s)
    (hreturned : returned gettuple observe count s = Except.ok (list, last)) :
    ∀ tuple, some tuple ∈ list → property tuple := by
  induction count generalizing s list last with
  | zero =>
      obtain ⟨rfl, -⟩ := Prod.mk.inj (Except.ok.inj hreturned)
      simp
  | succ count ih =>
      obtain ⟨found, after, rest, hget, hrest, rfl⟩ := returned_succ hreturned
      obtain ⟨hafter, hfound⟩ := hcall s found after hs hget
      intro tuple htuple
      rcases List.mem_cons.mp htuple with hnow | hlater
      · cases found with
        | false => simp at hnow
        | true =>
            obtain rfl : tuple = observe after := by simpa using hnow
            exact hfound rfl
      · exact ih hafter hrest tuple hlater

end VBase.AccessMethod
