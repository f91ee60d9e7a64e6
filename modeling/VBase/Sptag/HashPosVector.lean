import VBase.Foundation.ProbeTable
import Mathlib.Data.UInt
import Mathlib.Data.Set.Insert
import Mathlib.Data.List.Range

/-! # The elements that a search has checked

`OptHashPosVector` is a hash table of two blocks. A key is looked for at eight places of
the first block and then at eight of the second, and a table in which both fail is
doubled. `DoubleSize` puts the old keys into a new table through the same function that
called it, which calls `DoubleSize` again if they do not fit. The members are not
replaced before the end, so such a call starts from the same table and never returns.
-/

namespace VBase.Sptag

open ProbeTable

/-- `OptHashPosVector`. Slot `i` of the second block is slot `m_poolSize + 1 + i` of the table.
`SizeType` is an `int`, kept here as its bits. The number of slots is computed as an `int`. -/
structure OptHashPosVector where
  secondHash : Bool
  exp : Nat
  poolSize : Nat
  hashTable : Nat → UInt32
  room : 2 * (poolSize + 1) < 2 ^ 31

namespace OptHashPosVector

def maxLoop : Nat := 8

def rotl (idx : UInt32) (count : UInt32) : UInt32 := idx <<< count ||| idx >>> (32 - count)

def hashFunc (idx : UInt32) (poolSize : Nat) : Nat :=
  (idx * 99991 + rotl idx 2 + 101).toNat &&& poolSize

def hashFunc2 (index poolSize loop : Nat) : Nat := (index + loop) &&& poolSize

/-- The positions from a given one on. The first step, with `loop = 0`, stays where it is. -/
def positionsFrom (poolSize : Nat) : Nat → Nat → Nat → List Nat
  | 0, _, _ => []
  | remaining + 1, loop, index =>
      index :: positionsFrom poolSize remaining (loop + 1) (hashFunc2 index poolSize loop)

def positions (poolSize : Nat) (idx : UInt32) : List Nat :=
  positionsFrom poolSize maxLoop 0 (hashFunc idx poolSize)

/-- The slots of the second block. -/
def secondPositions (poolSize : Nat) (idx : UInt32) : List Nat :=
  (positions poolSize idx).map (· + (poolSize + 1))

/-- The two loops of `_CheckAndSet` over a table, with whether the second one was needed. -/
def checkBlocks (table : Nat → UInt32) (poolSize : Nat) (idx : UInt32) : Outcome UInt32 × Bool :=
  match walk table idx (positions poolSize idx) with
  | .full => (walk table idx (secondPositions poolSize idx), true)
  | outcome => (outcome, false)

/-- The number of shifts until a positive number is zero. -/
def shifts (size : Nat) : Nat := if size = 0 then 0 else size.log2 + 1

theorem room_of_bits {bits : Nat} (hbits : bits ≤ 29) : 2 * (2 ^ bits - 1 + 1) < 2 ^ 31 := by
  have hle : 2 ^ bits ≤ 2 ^ 29 := Nat.pow_le_pow_right Nat.two_pos hbits
  have hpos : 0 < 2 ^ bits := Nat.two_pow_pos bits
  omega

/-- `Init`, after which the memory is clear. -/
def init (size exp : Nat) (hfits : shifts size + exp ≤ 29) : OptHashPosVector where
  secondHash := false
  exp := exp
  poolSize := 2 ^ (shifts size + exp) - 1
  hashTable := fun _ => 0
  room := room_of_bits hfits

/-- `clear`. The second block is cleared only if it was used. -/
def clear (self : OptHashPosVector) : OptHashPosVector where
  secondHash := false
  exp := self.exp
  poolSize := self.poolSize
  hashTable := fun slot =>
    if slot < self.poolSize + 1 ∨ (self.secondHash = true ∧ slot < 2 * (self.poolSize + 1)) then 0
    else self.hashTable slot
  room := self.room

def newPoolSize (self : OptHashPosVector) : Nat := (self.poolSize + 1) * 2 - 1

/-- One turn of the loop of `DoubleSize`, over the members and the new table. `overflow` is what
`_CheckAndSet` does with a key that does not fit. -/
def doubleTurn (newSize : Nat) (overflow : OptHashPosVector → UInt32 → Option OptHashPosVector)
    (state : OptHashPosVector × (Nat → UInt32)) (slot : Nat) :
    Option (OptHashPosVector × (Nat → UInt32)) :=
  let (self, table) := state
  if self.hashTable slot = 0 then some (self, table)
  else
    match checkBlocks table newSize (self.hashTable slot) with
    | (.stored table, second) =>
        some ({ self with secondHash := self.secondHash || second }, table)
    | (.hit, second) => some ({ self with secondHash := self.secondHash || second }, table)
    | (.full, _) =>
        (overflow { self with secondHash := true } (self.hashTable slot)).map fun self =>
          (self, table)

mutual

/-- `_CheckAndSet` on the table of the members, which returns whether it stored the key. The
recursion is cut off after `fuel` calls. -/
def checkAndSetKey : Nat → OptHashPosVector → UInt32 → Option (Bool × OptHashPosVector)
  | 0, _, _ => none
  | fuel + 1, self, idx =>
      match checkBlocks self.hashTable self.poolSize idx with
      | (.stored table, second) =>
          some (true, { self with hashTable := table, secondHash := self.secondHash || second })
      | (.hit, second) => some (false, { self with secondHash := self.secondHash || second })
      | (.full, _) =>
          (doubleSize fuel { self with secondHash := true }).bind fun self =>
            checkAndSetKey fuel self idx

/-- `DoubleSize`. The new table is a local variable until the end, so a key that does not fit into
it leads back to the members. There is no new table if its number of slots is no `int`. -/
def doubleSize : Nat → OptHashPosVector → Option OptHashPosVector
  | 0, _ => none
  | fuel + 1, self =>
      if hroom : 2 * (self.newPoolSize + 1) < 2 ^ 31 then
        let overflow := fun self entry =>
          (doubleSize fuel self).bind fun self => (checkAndSetKey fuel self entry).map Prod.snd
        ((List.range (self.newPoolSize + 1)).foldlM (doubleTurn self.newPoolSize overflow)
          ({ self with secondHash := false }, fun _ => 0)).map fun (after, table) =>
            ⟨after.secondHash, after.exp + 1, self.newPoolSize, table, hroom⟩
      else none

end

/-- `CheckAndSet`, which returns whether the id was there. Inner keys begin at 1. -/
def checkAndSet (fuel : Nat) (self : OptHashPosVector) (idx : UInt32) :
    Option (Bool × OptHashPosVector) := do
  let (stored, self) ← checkAndSetKey fuel self (idx + 1)
  return (!stored, self)

/-! ## The slots of a key -/

/-- All slots at which a key is looked for. -/
def slots (poolSize : Nat) (idx : UInt32) : List Nat :=
  positions poolSize idx ++ secondPositions poolSize idx

theorem positionsFrom_le {poolSize remaining loop index slot : Nat} (hindex : index ≤ poolSize)
    (hslot : slot ∈ positionsFrom poolSize remaining loop index) : slot ≤ poolSize := by
  induction remaining generalizing loop index with
  | zero => cases hslot
  | succ remaining ih =>
      rcases List.mem_cons.mp hslot with rfl | hrest
      · exact hindex
      · exact ih Nat.and_le_right hrest

theorem positions_le {poolSize slot : Nat} {idx : UInt32} (hslot : slot ∈ positions poolSize idx) :
    slot ≤ poolSize :=
  positionsFrom_le Nat.and_le_right hslot

theorem slots_lt {poolSize slot : Nat} {idx : UInt32} (hslot : slot ∈ slots poolSize idx) :
    slot < 2 * (poolSize + 1) := by
  rcases List.mem_append.mp hslot with hfirst | hsecond
  · have hle := positions_le hfirst
    omega
  · obtain ⟨position, hposition, rfl⟩ := List.mem_map.mp hsecond
    have hle := positions_le hposition
    omega

/-- The two loops are one walk. -/
theorem checkBlocks_fst (table : Nat → UInt32) (poolSize : Nat) (idx : UInt32) :
    (checkBlocks table poolSize idx).1 = walk table idx (slots poolSize idx) := by
  rw [slots, walk_append, checkBlocks]
  cases walk table idx (positions poolSize idx) <;> rfl

/-- A walk that ends in the first block changes only slots there. -/
theorem checkBlocks_first {table next : Nat → UInt32} {poolSize : Nat} {idx : UInt32}
    (hstored : checkBlocks table poolSize idx = (.stored next, false)) {slot : Nat}
    (hslot : poolSize < slot) : next slot = table slot := by
  rw [checkBlocks] at hstored
  rcases walk_cases table idx (positions poolSize idx) with
    ⟨hfull, -⟩ | ⟨before, met, behind, hpositions, -, ⟨-, hwalk⟩ | ⟨-, -, hwalk⟩⟩
  · rw [hfull] at hstored
    cases (Prod.mk.inj hstored).2
  · rw [hwalk] at hstored
    obtain rfl := Outcome.stored.inj (Prod.mk.inj hstored).1
    have hle : met ≤ poolSize := by
      refine positions_le (?_ : met ∈ positions poolSize idx)
      rw [hpositions]
      exact List.mem_append_right before List.mem_cons_self
    exact Function.update_of_ne (by omega) _ _
  · rw [hwalk] at hstored
    cases (Prod.mk.inj hstored).1

/-! ## Doubling without the recursion -/

/-- The turn of the loop of `DoubleSize` for one key of the old table: the new table with it, and
whether its second block was used. -/
def rehashKey (newSize : Nat) (state : Bool × (Nat → UInt32)) (entry : UInt32) :
    Option (Bool × (Nat → UInt32)) :=
  if entry = 0 then some state
  else
    match checkBlocks state.2 newSize entry with
    | (.stored table, second) => some (state.1 || second, table)
    | (.hit, second) => some (state.1 || second, state.2)
    | (.full, _) => none

/-- The new table, if every key fits into it. -/
def rehash (self : OptHashPosVector) : Option (Bool × (Nat → UInt32)) :=
  ((List.range (self.newPoolSize + 1)).map self.hashTable).foldlM
    (rehashKey self.newPoolSize) (false, fun _ => 0)

/-- The members after `DoubleSize`. -/
def doubled (self : OptHashPosVector) (hroom : 2 * (self.newPoolSize + 1) < 2 ^ 31)
    (state : Bool × (Nat → UInt32)) : OptHashPosVector :=
  ⟨state.1, self.exp + 1, self.newPoolSize, state.2, hroom⟩

section Turns

variable {self : OptHashPosVector} {newSize : Nat}
variable {overflow : OptHashPosVector → UInt32 → Option OptHashPosVector}

/-- A turn puts the key into the new table and leaves the old one alone, if it fits. -/
theorem doubleTurn_eq (second : Bool) (table : Nat → UInt32) (place : Nat) :
    doubleTurn newSize overflow ({ self with secondHash := second }, table) place =
      match rehashKey newSize (second, table) (self.hashTable place) with
      | some state => some ({ self with secondHash := state.1 }, state.2)
      | none => (overflow { self with secondHash := true } (self.hashTable place)).map
          fun self => (self, table) := by
  unfold doubleTurn rehashKey
  dsimp only
  split
  · rfl
  · split <;> rfl

/-- A loop in which every key fits. -/
theorem foldlM_doubleTurn_some {places : List Nat} {second : Bool} {table : Nat → UInt32}
    {state : Bool × (Nat → UInt32)}
    (hfits : (places.map self.hashTable).foldlM (rehashKey newSize) (second, table) =
      some state) :
    places.foldlM (doubleTurn newSize overflow) ({ self with secondHash := second }, table) =
      some ({ self with secondHash := state.1 }, state.2) := by
  induction places generalizing second table with
  | nil =>
      obtain rfl := Option.some.inj hfits
      rfl
  | cons place rest ih =>
      rw [List.map_cons, List.foldlM_cons] at hfits
      obtain ⟨next, hnext, hrest⟩ := Option.bind_eq_some_iff.mp hfits
      rw [List.foldlM_cons, doubleTurn_eq, hnext]
      exact ih hrest

/-- A loop in which a key does not fit, if nothing comes of it. -/
theorem foldlM_doubleTurn_none
    (hoverflow : ∀ entry, overflow { self with secondHash := true } entry = none)
    {places : List Nat} {second : Bool} {table : Nat → UInt32}
    (hfull : (places.map self.hashTable).foldlM (rehashKey newSize) (second, table) = none) :
    places.foldlM (doubleTurn newSize overflow) ({ self with secondHash := second }, table) =
      none := by
  induction places generalizing second table with
  | nil => cases hfull
  | cons place rest ih =>
      rw [List.map_cons, List.foldlM_cons] at hfull
      rw [List.foldlM_cons, doubleTurn_eq]
      cases hkey : rehashKey newSize (second, table) (self.hashTable place) with
      | none =>
          dsimp only
          rw [hoverflow]
          rfl
      | some next =>
          rw [hkey] at hfull
          exact ih hfull

end Turns

/-- Keys that fit are put into the new table, however deep the recursion may go. -/
theorem doubleSize_of_rehash {self : OptHashPosVector} {state : Bool × (Nat → UInt32)}
    (hroom : 2 * (self.newPoolSize + 1) < 2 ^ 31) (hfits : self.rehash = some state)
    (fuel : Nat) : doubleSize (fuel + 1) self = some (self.doubled hroom state) := by
  rw [doubleSize, dif_pos hroom]
  dsimp only
  rw [foldlM_doubleTurn_some hfits]
  rfl

theorem doubleSize_of_large {self : OptHashPosVector}
    (hlarge : ¬ 2 * (self.newPoolSize + 1) < 2 ^ 31) (fuel : Nat) :
    doubleSize fuel self = none := by
  cases fuel with
  | zero => rfl
  | succ fuel => rw [doubleSize, dif_neg hlarge]

/-- If a key does not fit, the recursion comes back to the same members. -/
theorem doubleSize_diverges {self : OptHashPosVector} (hfull : self.rehash = none) (fuel : Nat) :
    doubleSize fuel self = none := by
  induction fuel generalizing self with
  | zero => rfl
  | succ fuel ih =>
      rw [doubleSize]
      split
      · dsimp only
        rw [foldlM_doubleTurn_none ?_ hfull]
        · rfl
        intro entry
        have hagain : doubleSize fuel { self with secondHash := true } = none := ih hfull
        rw [hagain]
        rfl
      · rfl

/-! ## When a call returns -/

/-- A key finds a slot, if need be after the table was doubled a number of times. -/
inductive Settles : OptHashPosVector → UInt32 → Prop
  | fits {self : OptHashPosVector} {key : UInt32}
      (hfits : (checkBlocks self.hashTable self.poolSize key).1 ≠ .full) : Settles self key
  | doubles {self : OptHashPosVector} {key : UInt32} {state : Bool × (Nat → UInt32)}
      (hroom : 2 * (self.newPoolSize + 1) < 2 ^ 31) (hrehash : self.rehash = some state)
      (hrest : Settles (self.doubled hroom state) key) : Settles self key

theorem checkAndSetKey_full {self : OptHashPosVector} {key : UInt32}
    (hfull : (checkBlocks self.hashTable self.poolSize key).1 = .full) (fuel : Nat) :
    checkAndSetKey (fuel + 1) self key =
      (doubleSize fuel { self with secondHash := true }).bind fun self =>
        checkAndSetKey fuel self key := by
  rw [checkAndSetKey]
  split
  next hcheck =>
    rw [hcheck] at hfull
    cases hfull
  next hcheck =>
    rw [hcheck] at hfull
    cases hfull
  next => rfl

theorem checkAndSetKey_isSome {self : OptHashPosVector} {key : UInt32}
    (hfits : (checkBlocks self.hashTable self.poolSize key).1 ≠ .full) (fuel : Nat) :
    (checkAndSetKey (fuel + 1) self key).isSome = true := by
  rw [checkAndSetKey]
  split
  next => rfl
  next => rfl
  next hcheck =>
    rw [hcheck] at hfits
    exact absurd rfl hfits

/-- A call on a table that can be doubled goes on with the doubled one. -/
theorem checkAndSetKey_doubled {self : OptHashPosVector} {key : UInt32}
    {state : Bool × (Nat → UInt32)}
    (hfull : (checkBlocks self.hashTable self.poolSize key).1 = .full)
    (hroom : 2 * (self.newPoolSize + 1) < 2 ^ 31) (hrehash : self.rehash = some state)
    (fuel : Nat) :
    checkAndSetKey (fuel + 2) self key =
      checkAndSetKey (fuel + 1) (self.doubled hroom state) key := by
  have hdouble : doubleSize (fuel + 1) { self with secondHash := true } =
      some (self.doubled hroom state) := doubleSize_of_rehash hroom hrehash fuel
  rw [checkAndSetKey_full hfull, hdouble]
  rfl

/-- All that a call that returns can have done. -/
theorem checkAndSetKey_cases {self : OptHashPosVector} {key : UInt32} {fuel : Nat}
    {result : Bool × OptHashPosVector}
    (hrun : checkAndSetKey (fuel + 1) self key = some result) :
    (∃ table second, checkBlocks self.hashTable self.poolSize key = (.stored table, second) ∧
        result = (true,
          { self with hashTable := table, secondHash := self.secondHash || second })) ∨
      (∃ second, checkBlocks self.hashTable self.poolSize key = (.hit, second) ∧
        result = (false, { self with secondHash := self.secondHash || second })) ∨
      ∃ hroom state, self.rehash = some state ∧
        checkAndSetKey fuel (self.doubled hroom state) key = some result := by
  rcases hcheck : checkBlocks self.hashTable self.poolSize key with ⟨table | _ | _, second⟩
  · rw [checkAndSetKey, hcheck] at hrun
    exact Or.inl ⟨table, second, rfl, (Option.some.inj hrun).symm⟩
  · rw [checkAndSetKey, hcheck] at hrun
    exact Or.inr (Or.inl ⟨second, rfl, (Option.some.inj hrun).symm⟩)
  · have hfull : (checkBlocks self.hashTable self.poolSize key).1 = .full := by rw [hcheck]
    refine Or.inr (Or.inr ?_)
    rw [checkAndSetKey_full hfull] at hrun
    obtain ⟨grown, hgrown, hrest⟩ := Option.bind_eq_some_iff.mp hrun
    have hsame : ({ self with secondHash := true } : OptHashPosVector).rehash = self.rehash := rfl
    by_cases hroom : 2 * (self.newPoolSize + 1) < 2 ^ 31
    · cases hrehash : self.rehash with
      | none =>
          rw [doubleSize_diverges (hsame.trans hrehash)] at hgrown
          cases hgrown
      | some state =>
          cases fuel with
          | zero => cases hrest
          | succ fuel =>
              have hdouble : doubleSize (fuel + 1) { self with secondHash := true } =
                  some (self.doubled hroom state) := doubleSize_of_rehash hroom hrehash fuel
              rw [hdouble] at hgrown
              obtain rfl := Option.some.inj hgrown
              exact ⟨hroom, state, rfl, hrest⟩
    · have hlarge : ¬ 2 * (newPoolSize { self with secondHash := true } + 1) < 2 ^ 31 := hroom
      rw [doubleSize_of_large hlarge] at hgrown
      cases hgrown

theorem Settles.returns {self : OptHashPosVector} {key : UInt32} (hsettles : self.Settles key) :
    ∃ fuel, (checkAndSetKey (fuel + 1) self key).isSome = true := by
  induction hsettles with
  | fits hfits => exact ⟨0, checkAndSetKey_isSome hfits 0⟩
  | @doubles self key state hroom hrehash hrest ih =>
      by_cases hfull : (checkBlocks self.hashTable self.poolSize key).1 = .full
      · obtain ⟨fuel, hfuel⟩ := ih
        refine ⟨fuel + 1, ?_⟩
        rw [checkAndSetKey_doubled hfull hroom hrehash]
        exact hfuel
      · exact ⟨0, checkAndSetKey_isSome hfull 0⟩

theorem settles_of_returns {self : OptHashPosVector} {key : UInt32} {fuel : Nat}
    {result : Bool × OptHashPosVector} (hrun : checkAndSetKey fuel self key = some result) :
    self.Settles key := by
  induction fuel generalizing self with
  | zero => cases hrun
  | succ fuel ih =>
      rcases checkAndSetKey_cases hrun with
        ⟨table, second, hcheck, -⟩ | ⟨second, hcheck, -⟩ | ⟨hroom, state, hrehash, hrest⟩
      · exact .fits (by rw [hcheck]; nofun)
      · exact .fits (by rw [hcheck]; nofun)
      · exact .doubles hroom hrehash (ih hrest)

theorem checkAndSetKey_succ {self : OptHashPosVector} {key : UInt32} {fuel : Nat}
    {result : Bool × OptHashPosVector} (hrun : checkAndSetKey fuel self key = some result) :
    checkAndSetKey (fuel + 1) self key = some result := by
  induction fuel generalizing self with
  | zero => cases hrun
  | succ fuel ih =>
      by_cases hfull : (checkBlocks self.hashTable self.poolSize key).1 = .full
      · rcases checkAndSetKey_cases hrun with
          ⟨table, second, hcheck, -⟩ | ⟨second, hcheck, -⟩ | ⟨hroom, state, hrehash, hrest⟩
        · rw [hcheck] at hfull
          cases hfull
        · rw [hcheck] at hfull
          cases hfull
        · rw [checkAndSetKey_doubled hfull hroom hrehash]
          exact ih hrest
      · rw [← hrun, checkAndSetKey, checkAndSetKey]
        split
        · rfl
        · rfl
        next hcheck =>
          rw [hcheck] at hfull
          exact absurd rfl hfull

/-- A call that returned returns the same if it may go deeper. -/
theorem checkAndSetKey_mono {self : OptHashPosVector} {key : UInt32} {fuel deeper : Nat}
    {result : Bool × OptHashPosVector} (hle : fuel ≤ deeper)
    (hrun : checkAndSetKey fuel self key = some result) :
    checkAndSetKey deeper self key = some result := by
  induction hle with
  | refl => exact hrun
  | step _ ih => exact checkAndSetKey_succ ih

/-! ## The keys in the table -/

/-- The table holds the keys of a set, and its second block is clear unless it was used. -/
structure Holds (vector : OptHashPosVector) (keys : Finset UInt32) : Prop where
  sound : Sound (slots vector.poolSize) vector.hashTable
  contains_iff : ∀ key, key ≠ 0 → (Contains vector.hashTable key ↔ key ∈ keys)
  second : vector.secondHash = false → ∀ slot, vector.poolSize < slot → vector.hashTable slot = 0

theorem holds_empty (secondHash : Bool) (exp : Nat) {poolSize : Nat}
    (hroom : 2 * (poolSize + 1) < 2 ^ 31) :
    Holds ⟨secondHash, exp, poolSize, fun _ => 0, hroom⟩ ∅ where
  sound := sound_empty _
  contains_iff := by
    intro key hkey
    refine iff_of_false ?_ (Finset.notMem_empty key)
    rintro ⟨slot, hslot⟩
    exact hkey hslot.symm
  second := fun _ _ _ => rfl

section

variable {self : OptHashPosVector} {keys : Finset UInt32} {key : UInt32}

/-- Nothing stands behind the two blocks. -/
theorem Holds.slot_lt (hholds : self.Holds keys) {slot : Nat}
    (hoccupied : self.hashTable slot ≠ 0) : slot < 2 * (self.poolSize + 1) := by
  obtain ⟨before, behind, hprobe, -⟩ := hholds.sound slot hoccupied
  refine slots_lt (?_ : slot ∈ slots self.poolSize (self.hashTable slot))
  rw [hprobe]
  exact List.mem_append_right before List.mem_cons_self

/-- Clearing the first block is enough while the second was not used. -/
theorem Holds.clear (hholds : self.Holds keys) : self.clear.Holds ∅ := by
  have hzero : self.clear.hashTable = fun _ => 0 := by
    funext slot
    change (if _ then (0 : UInt32) else self.hashTable slot) = 0
    split
    · rfl
    next hkept =>
      by_contra hoccupied
      have hlt := hholds.slot_lt hoccupied
      rw [not_or, not_and, not_lt] at hkept
      cases hsecond : self.secondHash with
      | false => exact hoccupied (hholds.second hsecond slot (by omega))
      | true => exact hkept.2 hsecond hlt
  have hclear : self.clear = ⟨false, self.exp, self.poolSize, fun _ => 0, self.room⟩ := by
    rw [← hzero]
    rfl
  rw [hclear]
  exact holds_empty false self.exp self.room

/-- What the two loops do to a table that holds some keys. -/
theorem Holds.stored (hholds : self.Holds keys) (hkey : key ≠ 0) {table : Nat → UInt32}
    {used : Bool} (hcheck : checkBlocks self.hashTable self.poolSize key = (.stored table, used)) :
    key ∉ keys ∧
      Holds { self with hashTable := table, secondHash := self.secondHash || used }
        (insert key keys) := by
  have hwalk : walk self.hashTable key (slots self.poolSize key) = .stored table := by
    rw [← checkBlocks_fst, hcheck]
  obtain ⟨hnew, hsound, hcontains⟩ := hholds.sound.stored hkey hwalk
  refine ⟨fun hmem => hnew ((hholds.contains_iff key hkey).mpr hmem), hsound, ?_, ?_⟩
  · intro other hother
    rw [hcontains other hother, Finset.mem_insert, hholds.contains_iff other hother]
  · intro hflag slot hslot
    obtain ⟨hold, hused⟩ := Bool.or_eq_false_iff.mp hflag
    rw [hused] at hcheck
    exact (checkBlocks_first hcheck hslot).trans (hholds.second hold slot hslot)

theorem Holds.hit (hholds : self.Holds keys) (hkey : key ≠ 0) {used : Bool}
    (hcheck : checkBlocks self.hashTable self.poolSize key = (.hit, used)) :
    key ∈ keys ∧ Holds { self with secondHash := self.secondHash || used } keys := by
  have hwalk : walk self.hashTable key (slots self.poolSize key) = .hit := by
    rw [← checkBlocks_fst, hcheck]
  refine ⟨(hholds.contains_iff key hkey).mp (contains_of_hit hwalk), hholds.sound,
    hholds.contains_iff, ?_⟩
  intro hflag
  exact hholds.second (Bool.or_eq_false_iff.mp hflag).1

/-- Putting keys into a new table, one after the other. -/
theorem foldlM_rehashKey_holds {newSize exp : Nat} {hroom : 2 * (newSize + 1) < 2 ^ 31}
    {entries : List UInt32} {second : Bool} {table : Nat → UInt32}
    {state : Bool × (Nat → UInt32)} (hholds : Holds ⟨second, exp, newSize, table, hroom⟩ keys)
    (hfold : entries.foldlM (rehashKey newSize) (second, table) = some state) :
    Holds ⟨state.1, exp, newSize, state.2, hroom⟩ (keys ∪ entries.toFinset.erase 0) := by
  induction entries generalizing second table keys with
  | nil =>
      obtain rfl := Option.some.inj hfold
      rw [List.toFinset_nil, Finset.erase_empty, Finset.union_empty]
      exact hholds
  | cons entry rest ih =>
      rw [List.foldlM_cons] at hfold
      obtain ⟨next, hnext, hrest⟩ := Option.bind_eq_some_iff.mp hfold
      rw [rehashKey] at hnext
      split at hnext
      next hzero =>
        obtain rfl := Option.some.inj hnext
        rw [List.toFinset_cons, hzero, Finset.erase_insert_eq_erase]
        exact ih hholds hrest
      next hentry =>
        have hkeys : keys ∪ (entry :: rest).toFinset.erase 0 =
            insert entry keys ∪ rest.toFinset.erase 0 := by
          rw [List.toFinset_cons, Finset.erase_insert_of_ne hentry, Finset.union_insert,
            Finset.insert_union]
        rw [hkeys]
        split at hnext
        next after used hcheck =>
          obtain rfl := Option.some.inj hnext
          exact ih (hholds.stored hentry hcheck).2 hrest
        next used hcheck =>
          obtain rfl := Option.some.inj hnext
          obtain ⟨hmem, hsame⟩ := hholds.hit hentry hcheck
          rw [Finset.insert_eq_of_mem hmem]
          exact ih hsame hrest
        next => cases hnext

/-- The doubled table holds the same keys. -/
theorem Holds.doubled (hholds : self.Holds keys) (hzero : 0 ∉ keys)
    (hroom : 2 * (self.newPoolSize + 1) < 2 ^ 31) {state : Bool × (Nat → UInt32)}
    (hrehash : self.rehash = some state) : (self.doubled hroom state).Holds keys := by
  have hnew := foldlM_rehashKey_holds (holds_empty false (self.exp + 1) hroom) hrehash
  have hsize : self.newPoolSize + 1 = 2 * (self.poolSize + 1) := by
    rw [newPoolSize]
    omega
  have hkeys : ((List.range (self.newPoolSize + 1)).map self.hashTable).toFinset.erase 0 =
      keys := by
    ext key
    rw [Finset.mem_erase, List.mem_toFinset, List.mem_map]
    constructor
    · rintro ⟨hkey, slot, -, hslot⟩
      exact (hholds.contains_iff key hkey).mp ⟨slot, hslot⟩
    · intro hmem
      have hkey : key ≠ 0 := fun heq => hzero (heq ▸ hmem)
      obtain ⟨slot, hslot⟩ := (hholds.contains_iff key hkey).mpr hmem
      refine ⟨hkey, slot, ?_, hslot⟩
      -- The loop goes through both blocks of the old table.
      rw [List.mem_range, hsize]
      exact hholds.slot_lt (hslot.symm ▸ hkey)
  rw [hkeys, Finset.empty_union] at hnew
  exact hnew

/-- A call that returns says whether the key was there, and adds it. -/
theorem Holds.checkAndSetKey (hholds : self.Holds keys) (hzero : 0 ∉ keys) (hkey : key ≠ 0)
    {fuel : Nat} {stored : Bool} {after : OptHashPosVector}
    (hrun : OptHashPosVector.checkAndSetKey fuel self key = some (stored, after)) :
    (stored = true ↔ key ∉ keys) ∧ after.Holds (insert key keys) := by
  induction fuel generalizing self with
  | zero => cases hrun
  | succ fuel ih =>
      rcases checkAndSetKey_cases hrun with
        ⟨table, second, hcheck, hresult⟩ | ⟨second, hcheck, hresult⟩ |
        ⟨hroom, state, hrehash, hrest⟩
      · obtain ⟨rfl, rfl⟩ := Prod.mk.inj hresult
        obtain ⟨hnew, hafter⟩ := hholds.stored hkey hcheck
        exact ⟨iff_of_true rfl hnew, hafter⟩
      · obtain ⟨rfl, rfl⟩ := Prod.mk.inj hresult
        obtain ⟨hmem, hafter⟩ := hholds.hit hkey hcheck
        rw [Finset.insert_eq_of_mem hmem]
        exact ⟨iff_of_false Bool.false_ne_true (not_not.mpr hmem), hafter⟩
      · exact ih (hholds.doubled hzero hroom hrehash) hrest

/-- The key zero is never there, and nothing is added for it. -/
theorem Holds.checkAndSetKey_zero (hholds : self.Holds keys) (hzero : 0 ∉ keys) {fuel : Nat}
    {stored : Bool} {after : OptHashPosVector}
    (hrun : OptHashPosVector.checkAndSetKey fuel self 0 = some (stored, after)) :
    stored = true ∧ after.Holds keys := by
  induction fuel generalizing self with
  | zero => cases hrun
  | succ fuel ih =>
      have hwalk := walk_zero self.hashTable (slots self.poolSize 0)
      rw [← checkBlocks_fst] at hwalk
      rcases checkAndSetKey_cases hrun with
        ⟨table, second, hcheck, hresult⟩ | ⟨second, hcheck, -⟩ | ⟨hroom, state, hrehash, hrest⟩
      · obtain ⟨rfl, rfl⟩ := Prod.mk.inj hresult
        rw [hcheck] at hwalk
        obtain rfl := Outcome.stored.inj (hwalk.resolve_left nofun)
        refine ⟨rfl, hholds.sound, hholds.contains_iff, ?_⟩
        intro hflag
        exact hholds.second (Bool.or_eq_false_iff.mp hflag).1
      · rw [hcheck] at hwalk
        rcases hwalk with hfull | hstored
        · cases hfull
        · cases hstored
      · exact ih (hholds.doubled hzero hroom hrehash) hrest

end

/-! ## Runs -/

inductive Call where
  | clear
  | checkAndSet (idx : UInt32)
  deriving DecidableEq

/-- The answers to a list of calls, and the table after them. -/
def run (fuel : Nat) : OptHashPosVector → List Call → Option (List Bool × OptHashPosVector)
  | self, [] => some ([], self)
  | self, .clear :: rest => run fuel self.clear rest
  | self, .checkAndSet idx :: rest =>
      (checkAndSet fuel self idx).bind fun (answer, self) =>
        (run fuel self rest).map fun (answers, self) => (answer :: answers, self)

/-- The answers of a set of ids. -/
def seenAnswers : Finset UInt32 → List Call → List Bool
  | _, [] => []
  | _, .clear :: rest => seenAnswers ∅ rest
  | seen, .checkAndSet idx :: rest =>
      decide (idx ∈ seen) :: seenAnswers (insert idx seen) rest

/-- The ids since the last `clear`. -/
def seenAfter : Finset UInt32 → List Call → Finset UInt32
  | seen, [] => seen
  | _, .clear :: rest => seenAfter ∅ rest
  | seen, .checkAndSet idx :: rest => seenAfter (insert idx seen) rest

/-- The table holds the inner keys of the ids. -/
def HoldsIds (self : OptHashPosVector) (seen : Finset UInt32) : Prop :=
  self.Holds (seen.image (· + 1)) ∧ 0 ∉ seen.image (· + 1)

theorem add_one_mem_image {seen : Finset UInt32} {idx : UInt32} :
    idx + 1 ∈ seen.image (· + 1) ↔ idx ∈ seen := by
  rw [Finset.mem_image]
  constructor
  · rintro ⟨other, hother, heq⟩
    rwa [← add_right_cancel heq]
  · intro hmem
    exact ⟨idx, hmem, rfl⟩

section

variable {self after : OptHashPosVector} {seen : Finset UInt32} {idx : UInt32}
variable {fuel deeper : Nat} {calls : List Call}

theorem holdsIds_init {size exp : Nat} (hfits : shifts size + exp ≤ 29) :
    (init size exp hfits).HoldsIds ∅ :=
  ⟨holds_empty false exp _, Finset.notMem_empty 0⟩

theorem HoldsIds.clear (hholds : self.HoldsIds seen) : self.clear.HoldsIds ∅ :=
  ⟨hholds.1.clear, Finset.notMem_empty 0⟩

/-- The inner call behind an answer. -/
theorem checkAndSet_eq_some {answer : Bool} :
    checkAndSet fuel self idx = some (answer, after) ↔
      checkAndSetKey fuel self (idx + 1) = some (!answer, after) := by
  rw [checkAndSet]
  cases checkAndSetKey fuel self (idx + 1) with
  | none => exact iff_of_false nofun nofun
  | some result =>
      obtain ⟨stored, reached⟩ := result
      cases stored <;> cases answer <;> simp

theorem HoldsIds.checkAndSet (hholds : self.HoldsIds seen) (hidx : idx + 1 ≠ 0) {answer : Bool}
    (hrun : OptHashPosVector.checkAndSet fuel self idx = some (answer, after)) :
    answer = decide (idx ∈ seen) ∧ after.HoldsIds (insert idx seen) := by
  obtain ⟨hanswer, hafter⟩ :=
    hholds.1.checkAndSetKey hholds.2 hidx (checkAndSet_eq_some.mp hrun)
  rw [add_one_mem_image] at hanswer
  refine ⟨?_, ?_, ?_⟩
  · by_cases hmem : idx ∈ seen
    · cases answer <;> simp_all
    · cases answer <;> simp_all
  · rwa [Finset.image_insert]
  · rw [Finset.image_insert, Finset.mem_insert, not_or]
    exact ⟨hidx.symm, hholds.2⟩

/-- A run is its first call and a run from there. -/
theorem run_checkAndSet_eq_some {answers : List Bool} :
    run fuel self (.checkAndSet idx :: calls) = some (answers, after) ↔
      ∃ answer others next, checkAndSet fuel self idx = some (answer, next) ∧
        run fuel next calls = some (others, after) ∧ answer :: others = answers := by
  rw [run, Option.bind_eq_some_iff]
  constructor
  · rintro ⟨⟨answer, next⟩, hcall, htail⟩
    obtain ⟨⟨others, last⟩, hothers, heq⟩ := Option.map_eq_some_iff.mp htail
    obtain ⟨hanswers, rfl⟩ := Prod.mk.inj heq
    exact ⟨answer, others, next, hcall, hothers, hanswers⟩
  · rintro ⟨answer, others, next, hcall, hothers, rfl⟩
    exact ⟨(answer, next), hcall, Option.map_eq_some_iff.mpr ⟨(others, after), hothers, rfl⟩⟩

/-- A run that returns answers as the set of ids does, and holds that set. -/
theorem HoldsIds.run (hholds : self.HoldsIds seen)
    (hids : ∀ idx, Call.checkAndSet idx ∈ calls → idx + 1 ≠ 0) {answers : List Bool}
    (hrun : OptHashPosVector.run fuel self calls = some (answers, after)) :
    answers = seenAnswers seen calls ∧ after.HoldsIds (seenAfter seen calls) := by
  induction calls generalizing self seen answers with
  | nil =>
      obtain ⟨rfl, rfl⟩ := Prod.mk.inj (Option.some.inj hrun)
      exact ⟨rfl, hholds⟩
  | cons call rest ih =>
      have hrest : ∀ idx, Call.checkAndSet idx ∈ rest → idx + 1 ≠ 0 :=
        fun idx hmem => hids idx (List.mem_cons_of_mem call hmem)
      cases call with
      | clear => exact ih hholds.clear hrest hrun
      | checkAndSet idx =>
          obtain ⟨answer, others, next, hcall, hothers, rfl⟩ := run_checkAndSet_eq_some.mp hrun
          obtain ⟨hanswer, hnext⟩ := hholds.checkAndSet (hids idx List.mem_cons_self) hcall
          obtain ⟨htail, hafter⟩ := ih hnext hrest hothers
          refine ⟨?_, hafter⟩
          rw [seenAnswers, hanswer, htail]

theorem checkAndSet_mono {answer : Bool} (hle : fuel ≤ deeper)
    (hcall : checkAndSet fuel self idx = some (answer, after)) :
    checkAndSet deeper self idx = some (answer, after) :=
  checkAndSet_eq_some.mpr (checkAndSetKey_mono hle (checkAndSet_eq_some.mp hcall))

/-- A run that returned returns the same if its calls may go deeper. -/
theorem run_mono {answers : List Bool} (hle : fuel ≤ deeper)
    (hrun : run fuel self calls = some (answers, after)) :
    run deeper self calls = some (answers, after) := by
  induction calls generalizing self answers with
  | nil => exact hrun
  | cons call rest ih =>
      cases call with
      | clear => exact ih hrun
      | checkAndSet idx =>
          obtain ⟨answer, others, next, hcall, hothers, rfl⟩ := run_checkAndSet_eq_some.mp hrun
          exact run_checkAndSet_eq_some.mpr
            ⟨answer, others, next, checkAndSet_mono hle hcall, ih hothers, rfl⟩

/-- A call and a run after it, taken at a common depth. -/
theorem run_checkAndSet_max {answer : Bool} {others : List Bool} {next : OptHashPosVector}
    (hcall : checkAndSet fuel self idx = some (answer, next))
    (hothers : run deeper next calls = some (others, after)) :
    run (max fuel deeper) self (.checkAndSet idx :: calls) = some (answer :: others, after) :=
  run_checkAndSet_eq_some.mpr ⟨answer, others, next,
    checkAndSet_mono (le_max_left fuel deeper) hcall,
    run_mono (le_max_right fuel deeper) hothers, rfl⟩

/-- The first calls of a run, and the run after them. -/
theorem run_append (fuel : Nat) (self : OptHashPosVector) (first rest : List Call) :
    run fuel self (first ++ rest) =
      (run fuel self first).bind fun (early, next) =>
        (run fuel next rest).map fun (late, after) => (early ++ late, after) := by
  induction first generalizing self with
  | nil =>
      rw [List.nil_append, run, Option.bind_some]
      exact Option.map_id_apply.symm
  | cons call others ih =>
      cases call with
      | clear => exact ih self.clear
      | checkAndSet idx =>
          rw [List.cons_append, run, run]
          rcases checkAndSet fuel self idx with _ | ⟨answer, next⟩
          · rfl
          · simp only [Option.bind_some, ih]
            rcases run fuel next others with _ | ⟨early, last⟩
            · rfl
            · exact Option.map_map _ _ _

/-- Every call that a run comes to settles. -/
def RunSettles (self : OptHashPosVector) (calls : List Call) : Prop :=
  ∀ first idx rest, calls = first ++ Call.checkAndSet idx :: rest →
    ∀ fuel answers next, run fuel self first = some (answers, next) → next.Settles (idx + 1)

theorem RunSettles.returns (hsettles : self.RunSettles calls) :
    ∃ fuel answers after, OptHashPosVector.run fuel self calls = some (answers, after) := by
  induction calls generalizing self with
  | nil => exact ⟨0, [], self, rfl⟩
  | cons call others ih =>
      cases call with
      | clear =>
          refine ih fun first idx rest hcalls fuel answers next hfirst => ?_
          exact hsettles (.clear :: first) idx rest (by rw [hcalls, List.cons_append])
            fuel answers next hfirst
      | checkAndSet key =>
          obtain ⟨depth, hdepth⟩ := (hsettles [] key others rfl 0 [] self rfl).returns
          obtain ⟨⟨stored, reached⟩, hcall⟩ := Option.isSome_iff_exists.mp hdepth
          have hfirst : checkAndSet (depth + 1) self key = some (!stored, reached) :=
            checkAndSet_eq_some.mpr (by rw [Bool.not_not, hcall])
          have hreached : reached.RunSettles others := by
            intro first idx rest hcalls fuel answers next hrun
            exact hsettles (.checkAndSet key :: first) idx rest
              (by rw [hcalls, List.cons_append]) _ _ next (run_checkAndSet_max hfirst hrun)
          obtain ⟨fuel, answers, after, hrun⟩ := ih hreached
          exact ⟨_, _, after, run_checkAndSet_max hfirst hrun⟩

theorem runSettles_of_returns {answers : List Bool}
    (hrun : run fuel self calls = some (answers, after)) : self.RunSettles calls := by
  rintro first idx rest rfl depth early next hfirst
  rw [run_append] at hrun
  obtain ⟨⟨others, reached⟩, hreached, hlate⟩ := Option.bind_eq_some_iff.mp hrun
  obtain ⟨⟨late, last⟩, htail, -⟩ := Option.map_eq_some_iff.mp hlate
  have hsame : reached = next := by
    have hleft := run_mono (le_max_left fuel depth) hreached
    rw [run_mono (le_max_right fuel depth) hfirst] at hleft
    exact (Prod.mk.inj (Option.some.inj hleft)).2.symm
  obtain ⟨answer, _, _, hcall, -, -⟩ := run_checkAndSet_eq_some.mp htail
  rw [← hsame]
  exact settles_of_returns (checkAndSet_eq_some.mp hcall)

end

/-- A run answers as a set of ids does, whatever was hashed where and however often the table was
doubled, and it returns exactly if each of its calls settles. -/
theorem run_refines_set (size exp : Nat) (hfits : shifts size + exp ≤ 29) (calls : List Call)
    (hids : ∀ idx, Call.checkAndSet idx ∈ calls → idx + 1 ≠ 0) :
    (∀ fuel answers after, run fuel (init size exp hfits) calls = some (answers, after) →
        answers = seenAnswers ∅ calls) ∧
      ((∃ fuel after, run fuel (init size exp hfits) calls = some (seenAnswers ∅ calls, after)) ↔
        (init size exp hfits).RunSettles calls) := by
  have hanswers : ∀ fuel answers after,
      run fuel (init size exp hfits) calls = some (answers, after) →
        answers = seenAnswers ∅ calls :=
    fun _ _ _ hrun => ((holdsIds_init hfits).run hids hrun).1
  refine ⟨hanswers, ?_, ?_⟩
  · rintro ⟨fuel, after, hrun⟩
    exact runSettles_of_returns hrun
  · intro hsettles
    obtain ⟨fuel, answers, after, hrun⟩ := hsettles.returns
    exact ⟨fuel, after, by rw [hrun, hanswers fuel answers after hrun]⟩

theorem shifts_four : shifts 4 + 2 ≤ 29 := by decide

theorem run_refines_set_cleared :
    (∀ idx, Call.checkAndSet idx ∈
        [Call.checkAndSet 3, .checkAndSet 7, .checkAndSet 3, .clear, .checkAndSet 3] →
          idx + 1 ≠ 0) ∧
      (run 1 (init 4 2 shifts_four)
        [.checkAndSet 3, .checkAndSet 7, .checkAndSet 3, .clear, .checkAndSet 3]).map Prod.fst =
          some [false, false, true, false] ∧
      (init 4 2 shifts_four).RunSettles
        [.checkAndSet 3, .checkAndSet 7, .checkAndSet 3, .clear, .checkAndSet 3] := by
  have hids : ∀ idx, Call.checkAndSet idx ∈
      [Call.checkAndSet 3, .checkAndSet 7, .checkAndSet 3, .clear, .checkAndSet 3] →
        idx + 1 ≠ 0 := by
    intro idx hmem
    have hcases : idx = 3 ∨ idx = 7 := by simpa [or_comm, or_left_comm] using hmem
    rcases hcases with rfl | rfl <;> decide
  have hanswers : (run 1 (init 4 2 shifts_four)
      [.checkAndSet 3, .checkAndSet 7, .checkAndSet 3, .clear, .checkAndSet 3]).map Prod.fst =
        some [false, false, true, false] := by decide +kernel
  refine ⟨hids, hanswers, ?_⟩
  obtain ⟨⟨answers, after⟩, hrun, -⟩ := Option.map_eq_some_iff.mp hanswers
  refine (run_refines_set 4 2 shifts_four _ hids).2.mp ⟨1, after, ?_⟩
  rw [hrun, (run_refines_set 4 2 shifts_four _ hids).1 1 answers after hrun]

/-- A run that comes to a full table whose keys do not fit into one of twice its size never
returns: `DoubleSize` is called for that table again and again. -/
theorem run_never_returns (size exp : Nat) (hfits : shifts size + exp ≤ 29)
    (first rest : List Call) (idx : UInt32) (depth : Nat) (answers : List Bool)
    (self : OptHashPosVector)
    (hreached : run depth (init size exp hfits) first = some (answers, self))
    (hfull : (checkBlocks self.hashTable self.poolSize (idx + 1)).1 = .full)
    (hrehash : self.rehash = none) (fuel : Nat) :
    run fuel (init size exp hfits) (first ++ .checkAndSet idx :: rest) = none := by
  by_contra hreturns
  obtain ⟨⟨others, after⟩, hrun⟩ := Option.ne_none_iff_exists'.mp hreturns
  have hsettles : self.Settles (idx + 1) :=
    runSettles_of_returns hrun first idx rest rfl depth answers self hreached
  cases hsettles with
  | fits hfits => exact hfits hfull
  | doubles _ hsome _ =>
      rw [hrehash] at hsome
      cases hsome

/-- Fifty ids that come to be in both blocks of a pool of thirty-two. -/
def crowdingIds : List UInt32 :=
  [780, 709, 152, 1534, 517, 2278, 2335, 2937, 2027, 2022, 958, 1681, 1733, 1771, 2065, 657, 1183,
    946, 1496, 2598, 2757, 2226, 555, 2731, 1854, 1918, 1963, 2214, 1299, 249, 1164, 178, 441, 1849,
    934, 2290, 2667, 1465, 1420, 1337, 17, 2470, 2193, 1747, 1235, 1925, 19, 1484, 1809, 2693]

theorem run_never_returns_crowded :
    (run 1 (init 4 2 shifts_four) (crowdingIds.map .checkAndSet)).isSome = true ∧
      ∀ fuel, run fuel (init 4 2 shifts_four)
        (crowdingIds.map .checkAndSet ++ [.checkAndSet 1171]) = none := by
  have hreached : (run 1 (init 4 2 shifts_four) (crowdingIds.map .checkAndSet)).any
      (fun (_, self) => self.rehash.isNone &&
        match (checkBlocks self.hashTable self.poolSize (1171 + 1)).1 with
        | .full => true
        | _ => false) = true := by
    decide +kernel
  cases hrun : run 1 (init 4 2 shifts_four) (crowdingIds.map .checkAndSet) with
  | none =>
      rw [hrun] at hreached
      cases hreached
  | some result =>
      obtain ⟨answers, self⟩ := result
      rw [hrun, Option.any_some, Bool.and_eq_true] at hreached
      obtain ⟨hrehash, hfull⟩ := hreached
      split at hfull
      next hcheck =>
        refine ⟨rfl, fun fuel => ?_⟩
        exact run_never_returns 4 2 shifts_four _ [] 1171 1 answers self hrun hcheck
          (Option.isNone_iff_eq_none.mp hrehash) fuel
      next => cases hfull

/-! ## How many ids always fit -/

/-- The positions are at growing distances from the hash, the first one twice. -/
theorem positions_eq {poolSize bits : Nat} (hpool : poolSize = 2 ^ bits - 1) (idx : UInt32) :
    positions poolSize idx =
      [0, 0, 1, 3, 6, 10, 15, 21].map fun distance =>
        (hashFunc idx poolSize + distance) % 2 ^ bits := by
  have hmod : hashFunc idx poolSize % 2 ^ bits = hashFunc idx poolSize := by
    rw [hashFunc, hpool, Nat.and_two_pow_sub_one_eq_mod, Nat.mod_mod]
  simp only [positions, maxLoop, positionsFrom, hashFunc2, List.map_cons, List.map_nil,
    Nat.add_zero, hmod]
  simp only [hpool, Nat.and_two_pow_sub_one_eq_mod] at hmod ⊢
  simp only [hmod, Nat.mod_add_mod, Nat.add_assoc, Nat.reduceAdd]

/-- Seven positions of each block differ. -/
theorem card_slots {poolSize bits : Nat} (hpool : poolSize = 2 ^ bits - 1) (hbits : 5 ≤ bits)
    (idx : UInt32) : 14 ≤ (slots poolSize idx).toFinset.card := by
  have hsize : 2 ^ 5 ≤ 2 ^ bits := Nat.pow_le_pow_right Nat.two_pos hbits
  let distances : List Nat := [0, 1, 3, 6, 10, 15, 21]
  let first := distances.map fun distance => (hashFunc idx poolSize + distance) % 2 ^ bits
  let second := first.map (· + (poolSize + 1))
  have hle : ∀ distance ∈ distances, distance < 2 ^ bits := by
    intro distance hdistance
    have hsmall : distance ≤ 21 := by
      revert distance
      decide
    omega
  have hfirst : first.Nodup := by
    refine List.Nodup.map_on ?_ (by decide)
    intro left hleft right hright heq
    exact (Nat.ModEq.add_left_cancel' _ heq).eq_of_lt_of_lt (hle left hleft) (hle right hright)
  have hpart : first ⊆ positions poolSize idx := by
    rw [positions_eq hpool]
    exact List.map_subset _ (List.subset_cons_self 0 distances)
  have hdisjoint : first.Disjoint second := by
    intro slot hleft hright
    obtain ⟨position, -, rfl⟩ := List.mem_map.mp hright
    have hbound := positions_le (hpart hleft)
    omega
  have hnodup : (first ++ second).Nodup :=
    hfirst.append (hfirst.map (add_left_injective (poolSize + 1))) hdisjoint
  have hsub : first ++ second ⊆ slots poolSize idx :=
    List.append_subset.mpr ⟨fun _ hmem => List.mem_append_left _ (hpart hmem),
      fun _ hmem => List.mem_append_right _ (List.map_subset _ hpart hmem)⟩
  calc 14 = (first ++ second).toFinset.card := by
        rw [List.toFinset_card_of_nodup hnodup]
        rfl
    _ ≤ (slots poolSize idx).toFinset.card :=
        Finset.card_le_card fun slot hslot =>
          List.mem_toFinset.mpr (hsub (List.mem_toFinset.mp hslot))

section

variable {self after : OptHashPosVector} {keys : Finset UInt32} {key : UInt32} {fuel : Nat}

/-- Both blocks fail for a key only if fourteen others have its slots. -/
theorem Holds.card_of_full (hholds : self.Holds keys) {bits : Nat}
    (hpool : self.poolSize = 2 ^ bits - 1) (hbits : 5 ≤ bits)
    (hfull : (checkBlocks self.hashTable self.poolSize key).1 = .full) :
    14 ≤ (keys.erase key).card := by
  rw [checkBlocks_fst] at hfull
  have htaken : Taken self.hashTable key (slots self.poolSize key) := by
    rcases walk_cases self.hashTable key (slots self.poolSize key) with
      ⟨-, htaken⟩ | ⟨_, _, _, -, -, ⟨-, hwalk⟩ | ⟨-, -, hwalk⟩⟩
    · exact htaken
    · rw [hfull] at hwalk
      cases hwalk
    · rw [hfull] at hwalk
      cases hwalk
  exact (card_slots hpool hbits key).trans (hholds.sound.card_le_of_taken htaken
    fun slot hoccupied => (hholds.contains_iff _ hoccupied).mp ⟨slot, rfl⟩)

/-- The pool only ever grows by doubling. -/
theorem checkAndSetKey_poolSize {stored : Bool}
    (hrun : checkAndSetKey fuel self key = some (stored, after)) :
    ∃ doublings, after.poolSize + 1 = (self.poolSize + 1) * 2 ^ doublings := by
  induction fuel generalizing self with
  | zero => cases hrun
  | succ fuel ih =>
      rcases checkAndSetKey_cases hrun with
        ⟨_, _, -, hresult⟩ | ⟨_, -, hresult⟩ | ⟨hroom, state, -, hrest⟩
      · obtain ⟨-, rfl⟩ := Prod.mk.inj hresult
        exact ⟨0, (Nat.mul_one _).symm⟩
      · obtain ⟨-, rfl⟩ := Prod.mk.inj hresult
        exact ⟨0, (Nat.mul_one _).symm⟩
      · obtain ⟨doublings, hdoublings⟩ := ih hrest
        have hnew : (self.doubled hroom state).poolSize + 1 = (self.poolSize + 1) * 2 := by
          change self.newPoolSize + 1 = _
          rw [newPoolSize]
          omega
        refine ⟨doublings + 1, ?_⟩
        rw [hdoublings, hnew, Nat.mul_assoc, ← Nat.pow_succ']

theorem run_poolSize {calls : List Call} {answers : List Bool}
    (hrun : run fuel self calls = some (answers, after)) :
    ∃ doublings, after.poolSize + 1 = (self.poolSize + 1) * 2 ^ doublings := by
  induction calls generalizing self answers with
  | nil =>
      obtain ⟨-, rfl⟩ := Prod.mk.inj (Option.some.inj hrun)
      exact ⟨0, (Nat.mul_one _).symm⟩
  | cons call rest ih =>
      cases call with
      | clear =>
          have hclear : run fuel self.clear rest = some (answers, after) := hrun
          obtain ⟨doublings, hdoublings⟩ := ih hclear
          exact ⟨doublings, hdoublings⟩
      | checkAndSet idx =>
          obtain ⟨answer, others, next, hcall, hothers, -⟩ := run_checkAndSet_eq_some.mp hrun
          obtain ⟨one, hone⟩ := checkAndSetKey_poolSize (checkAndSet_eq_some.mp hcall)
          obtain ⟨more, hmore⟩ := ih hothers
          exact ⟨one + more, by rw [hmore, hone, Nat.mul_assoc, ← Nat.pow_add]⟩

end

/-- After any run, an id is answered at once and without doubling while fewer than fourteen others
were checked since the last `clear`. -/
theorem checkAndSet_of_few (size exp : Nat) (hfits : shifts size + exp ≤ 29)
    (hroom : 5 ≤ shifts size + exp) (calls : List Call)
    (hids : ∀ idx, Call.checkAndSet idx ∈ calls → idx + 1 ≠ 0) (fuel : Nat) (answers : List Bool)
    (self : OptHashPosVector) (hrun : run fuel (init size exp hfits) calls = some (answers, self))
    (idx : UInt32) (hidx : idx + 1 ≠ 0) (hfew : ((seenAfter ∅ calls).erase idx).card < 14) :
    ∃ after, checkAndSet 1 self idx = some (decide (idx ∈ seenAfter ∅ calls), after) ∧
      after.poolSize = self.poolSize := by
  have hholds := ((holdsIds_init hfits).run hids hrun).2
  obtain ⟨doublings, hdoublings⟩ := run_poolSize hrun
  have hbits : self.poolSize = 2 ^ (shifts size + exp + doublings) - 1 := by
    have hinit : (init size exp hfits).poolSize + 1 = 2 ^ (shifts size + exp) :=
      Nat.sub_add_cancel Nat.one_le_two_pow
    rw [hinit, ← Nat.pow_add] at hdoublings
    omega
  have hfits : (checkBlocks self.hashTable self.poolSize (idx + 1)).1 ≠ .full := by
    intro hfull
    have hmany := hholds.1.card_of_full hbits (by omega) hfull
    have hsame : ((seenAfter ∅ calls).image (· + 1)).erase (idx + 1) =
        ((seenAfter ∅ calls).erase idx).image (· + 1) :=
      (Finset.image_erase (add_left_injective 1) _ idx).symm
    rw [hsame, Finset.card_image_of_injective _ (add_left_injective 1)] at hmany
    omega
  obtain ⟨⟨stored, after⟩, hkey⟩ :=
    Option.isSome_iff_exists.mp (checkAndSetKey_isSome hfits 0)
  have hcall : checkAndSet 1 self idx = some (!stored, after) :=
    checkAndSet_eq_some.mpr (by rw [Bool.not_not, hkey])
  have hpool : after.poolSize = self.poolSize := by
    rcases checkAndSetKey_cases hkey with
      ⟨_, _, -, hresult⟩ | ⟨_, -, hresult⟩ | ⟨_, _, -, hrest⟩
    · rw [(Prod.mk.inj hresult).2]
    · rw [(Prod.mk.inj hresult).2]
    · cases hrest
  refine ⟨after, ?_, hpool⟩
  rw [hcall, (hholds.checkAndSet hidx hcall).1]

theorem checkAndSet_of_few_fresh :
    (∀ idx, Call.checkAndSet idx ∈ [Call.checkAndSet 3, .checkAndSet 7] → idx + 1 ≠ 0) ∧
      ((seenAfter ∅ [.checkAndSet 3, .checkAndSet 7]).erase 7).card < 14 ∧
      ∃ answers self after, run 1 (init 4 2 shifts_four) [.checkAndSet 3, .checkAndSet 7] =
          some (answers, self) ∧
        checkAndSet 1 self 7 = some (true, after) ∧ after.poolSize = self.poolSize := by
  have hids : ∀ idx, Call.checkAndSet idx ∈ [Call.checkAndSet 3, .checkAndSet 7] →
      idx + 1 ≠ 0 := by
    intro idx hmem
    have hcases : idx = 3 ∨ idx = 7 := by simpa using hmem
    rcases hcases with rfl | rfl <;> decide
  have hfew : ((seenAfter ∅ [.checkAndSet 3, .checkAndSet 7]).erase 7).card < 14 := by decide
  refine ⟨hids, hfew, ?_⟩
  have hreturns :
      (run 1 (init 4 2 shifts_four) [.checkAndSet 3, .checkAndSet 7]).isSome = true := by
    decide +kernel
  obtain ⟨⟨answers, self⟩, hrun⟩ := Option.isSome_iff_exists.mp hreturns
  obtain ⟨after, hcall, hpool⟩ := checkAndSet_of_few 4 2 shifts_four (by decide +kernel) _ hids 1
    answers self hrun 7 (by decide) hfew
  exact ⟨answers, self, after, hrun, hcall, hpool⟩

end OptHashPosVector

end VBase.Sptag
