import VBase.AccessMethod.HnswBuilder
import Mathlib.Algebra.BigOperators.Group.List.Basic
import Mathlib.Algebra.Order.Ring.Abs
import Mathlib.Algebra.Order.Ring.Int

/-! # Reading arrays

`convert_array_to_vector` takes the number of items from the dimensions of an array and
reads as many values from its data area. A NULL is an item without a value, so an array
with NULLs is read past its end. The conversion of text arrays looks for NULLs first.
-/

namespace VBase.AccessMethod

variable {V D : Type}

/-! ## The number of items -/

/-- `MaxAllocSize / sizeof(Datum)`. -/
def maxArraySize : Nat := 0x3fffffff / 8

def arraySizeExceeded : Failure :=
  Failure.elog s!"array size exceeds the maximum allowed ({maxArraySize})"

/-- The loop of `ArrayGetNItems`, with the product so far. -/
def multiplyDims : Int32 → List Int32 → Except Failure Int32
  | ret, [] => Except.ok ret
  | ret, dim :: dims =>
      if dim < 0 then Except.error arraySizeExceeded
      else
        let prod := ret.toInt64 * dim.toInt64
        if prod.toInt32.toInt64 ≠ prod then Except.error arraySizeExceeded
        else multiplyDims prod.toInt32 dims

def arrayGetNItems (ndim : Nat) (dims : List Int32) : Except Failure Int32 :=
  if ndim ≤ 0 then Except.ok 0
  else do
    let ret ← multiplyDims 1 dims
    if maxArraySize < sizeT ret then Except.error arraySizeExceeded else return ret

/-- The product of 32-bit numbers fits into 64 bits. -/
theorem toInt_mul_toInt64 (first second : Int32) :
    (first.toInt64 * second.toInt64).toInt = first.toInt * second.toInt := by
  have hbound : ∀ number : Int32, |number.toInt| ≤ 2 ^ 31 := fun number =>
    abs_le.mpr ⟨number.le_toInt, number.toInt_lt.le⟩
  have hprod : |first.toInt * second.toInt| ≤ 2 ^ 31 * 2 ^ 31 := by
    rw [abs_mul]
    exact mul_le_mul (hbound first) (hbound second) (abs_nonneg _) (by decide)
  obtain ⟨hlow, hhigh⟩ := abs_le.mp hprod
  rw [Int64.toInt_mul, Int32.toInt_toInt64, Int32.toInt_toInt64]
  apply Int.bmod_eq_of_le <;> omega

/-- The dimensions as natural numbers. -/
def itemCount (dims : List Int32) : Nat :=
  if dims = [] then 0 else (dims.map fun dim => dim.toInt.toNat).prod

theorem multiplyDims_ok {ret items : Int32} {dims : List Int32} (hret : 0 ≤ ret.toInt)
    (hok : multiplyDims ret dims = Except.ok items) :
    items.toInt.toNat = ret.toInt.toNat * (dims.map fun dim => dim.toInt.toNat).prod := by
  induction dims generalizing ret with
  | nil =>
      obtain rfl := Except.ok.inj hok
      simp
  | cons dim dims ih =>
      rw [multiplyDims] at hok
      split at hok
      · cases hok
      next hdim =>
        dsimp only at hok
        split at hok
        · cases hok
        next hexact =>
          have hdim' : 0 ≤ dim.toInt := by
            rw [Int32.not_lt, Int32.le_iff_toInt_le] at hdim
            simpa using hdim
          have hprod : (ret.toInt64 * dim.toInt64).toInt32.toInt = ret.toInt * dim.toInt := by
            rw [← toInt_mul_toInt64, ← not_not.mp hexact, Int32.toInt_toInt64,
              not_not.mp hexact]
          have hrest := ih (hprod ▸ mul_nonneg hret hdim') hok
          rw [hrest, hprod, Int.toNat_mul hret hdim', List.map_cons, List.prod_cons, mul_assoc]

/-- When `ArrayGetNItems` returns, it returns the product of the dimensions. -/
theorem arrayGetNItems_ok {dims : List Int32} {items : Int32}
    (hok : arrayGetNItems dims.length dims = Except.ok items) :
    items.toInt.toNat = itemCount dims := by
  unfold arrayGetNItems at hok
  split at hok
  next hnone =>
    obtain rfl := Except.ok.inj hok
    rw [itemCount, if_pos (List.length_eq_zero_iff.mp (Nat.le_zero.mp hnone))]
    rfl
  next hsome =>
    have hdims : dims ≠ [] := by
      rintro rfl
      exact hsome le_rfl
    obtain ⟨ret, hmultiply, hret⟩ := Pass.bind_ok.mp hok
    split at hret
    · cases hret
    · obtain rfl := Except.ok.inj hret
      have hprod := multiplyDims_ok (by decide) hmultiply
      rw [itemCount, if_neg hdims, hprod]
      simp

/-- It raises nothing but the error that the array is too large. -/
theorem arrayGetNItems_error {ndim : Nat} {dims : List Int32} {failure : Failure}
    (herror : arrayGetNItems ndim dims = Except.error failure) : failure = arraySizeExceeded := by
  have hmultiply : ∀ ret dims, multiplyDims ret dims = Except.error failure →
      failure = arraySizeExceeded := by
    intro ret dims hfailed
    induction dims generalizing ret with
    | nil => cases hfailed
    | cons dim dims ih =>
        rw [multiplyDims] at hfailed
        dsimp only at hfailed
        split at hfailed
        · exact (Except.error.inj hfailed).symm
        · split at hfailed
          · exact (Except.error.inj hfailed).symm
          · exact ih _ hfailed
  unfold arrayGetNItems at herror
  split at herror
  · cases herror
  · cases hret : multiplyDims 1 dims with
    | error other =>
        rw [hret] at herror
        obtain rfl := Except.error.inj herror
        exact hmultiply 1 dims hret
    | ok ret =>
        simp only [hret, bind, Except.bind] at herror
        split at herror
        · exact (Except.error.inj herror).symm
        · cases herror

/-! ## Arrays in memory -/

/-- `MAXALIGN`. -/
def maxAlign (size : Nat) : Nat := (size + 7) / 8 * 8

/-- `ARR_OVERHEAD_NONULLS`: the header and two integers for each dimension. -/
def overheadNoNulls (ndim : Nat) : Nat := maxAlign (16 + 2 * 4 * ndim)

/-- `ARR_OVERHEAD_WITHNULLS`: one bit for each item as well. -/
def overheadWithNulls (ndim nitems : Nat) : Nat := maxAlign (16 + 2 * 4 * ndim + (nitems + 7) / 8)

/-- The fields of `ArrayType` that are read, and the value that starts at a byte of the array. -/
structure ArrayType (V : Type) where
  ndim : Nat
  dataoffset : Nat
  dims : List Int32
  valueAt : Nat → Option V

/-- `ARR_DATA_OFFSET`. -/
def ArrayType.dataOffset (array : ArrayType V) : Nat :=
  if array.dataoffset ≠ 0 then array.dataoffset else overheadNoNulls array.ndim

/-- An array: its dimensions, its items in storage order with `none` for NULL, and whether it has
a null bitmap. An array without NULLs may have one that an update left behind. -/
structure StoredArray (V : Type) where
  dims : List Int32
  items : List (Option V)
  bitmap : Bool
  length_items : items.length = itemCount dims
  bitmap_of_null : none ∈ items → bitmap = true

namespace StoredArray

def dataStart (array : StoredArray V) : Nat :=
  if array.bitmap then overheadWithNulls array.dims.length array.items.length
  else overheadNoNulls array.dims.length

/-- The array as `construct_md_array` lays it out: the values, without the NULLs, stand one after
another behind the header. -/
def toDatum (array : StoredArray V) : ArrayType V where
  ndim := array.dims.length
  dataoffset := if array.bitmap then array.dataStart else 0
  dims := array.dims
  valueAt := fun offset =>
    if array.dataStart ≤ offset ∧ (offset - array.dataStart) % 8 = 0 then
      array.items.reduceOption[(offset - array.dataStart) / 8]?
    else none

theorem dataOffset_toDatum (array : StoredArray V) :
    array.toDatum.dataOffset = array.dataStart := by
  unfold ArrayType.dataOffset toDatum
  cases hbitmap : array.bitmap with
  | false => simp [dataStart, hbitmap]
  | true =>
      have hpos : array.dataStart ≠ 0 := by
        simp only [dataStart, hbitmap, if_true, overheadWithNulls, maxAlign]
        omega
      simp [hpos]

theorem valueAt_toDatum (array : StoredArray V) (position : Nat) :
    array.toDatum.valueAt (array.dataStart + 8 * position) =
      array.items.reduceOption[position]? := by
  simp [toDatum]

end StoredArray

/-! ## The conversions -/

/-- The range constructor of `std::vector<float>`, from the value at `offset` on. -/
def readValues (narrow : V → D) (array : ArrayType V) : Nat → Nat → Except Failure (List D)
  | _, 0 => Except.ok []
  | offset, count + 1 =>
      match array.valueAt offset with
      | none => Except.error (Failure.fault Fault.array)
      | some value => do
          let rest ← readValues narrow array (offset + 8) count
          return narrow value :: rest

/-- `convert_array_to_vector`, with the conversion of a value to single precision. -/
def convertArrayToVector (narrow : V → D) (array : ArrayType V) : Except Failure (List D) := do
  let dim ← arrayGetNItems array.ndim array.dims
  readValues narrow array array.dataOffset dim.toInt.toNat

/-- The values that are there are read in order, and the first one that is not there faults. -/
theorem readValues_toDatum (narrow : V → D) (array : StoredArray V) (position count : Nat) :
    readValues narrow array.toDatum (array.dataStart + 8 * position) count =
      if count ≤ array.items.reduceOption.length - position then
        Except.ok (((array.items.reduceOption.drop position).take count).map narrow)
      else Except.error (Failure.fault Fault.array) := by
  induction count generalizing position with
  | zero => simp [readValues]
  | succ count ih =>
      rw [readValues, array.valueAt_toDatum]
      have hnext : array.dataStart + 8 * position + 8 = array.dataStart + 8 * (position + 1) := by
        omega
      rcases Nat.lt_or_ge position array.items.reduceOption.length with hlt | hge
      · rw [List.getElem?_eq_getElem hlt, hnext]
        dsimp only
        rw [ih (position + 1), List.drop_eq_getElem_cons hlt]
        by_cases hcount : count ≤ array.items.reduceOption.length - (position + 1)
        · rw [if_pos hcount, if_pos (by omega)]
          rfl
        · rw [if_neg hcount, if_neg (by omega)]
          rfl
      · rw [List.getElem?_eq_none hge, if_neg (by omega)]

/-- Without NULLs, the values are the items. -/
theorem items_eq_of_no_null {items : List (Option V)} (hnull : none ∉ items) :
    items = items.reduceOption.map some := by
  induction items with
  | nil => rfl
  | cons item rest ih =>
      rw [List.mem_cons, not_or] at hnull
      cases item with
      | none => exact absurd rfl hnull.1
      | some value => rw [List.reduceOption_cons_of_some, List.map_cons, ← ih hnull.2]

/-- What the conversion does with the number of items. -/
theorem convertArrayToVector_of_ok (narrow : V → D) (array : StoredArray V) {items : Int32}
    (hitems : arrayGetNItems array.dims.length array.dims = Except.ok items) :
    convertArrayToVector narrow array.toDatum =
      if array.items.length ≤ array.items.reduceOption.length then
        Except.ok ((array.items.reduceOption.take array.items.length).map narrow)
      else Except.error (Failure.fault Fault.array) := by
  have hread := readValues_toDatum narrow array 0 array.items.length
  rw [Nat.mul_zero, Nat.add_zero, Nat.sub_zero, List.drop_zero] at hread
  rw [← hread, convertArrayToVector, array.dataOffset_toDatum, array.length_items,
    ← arrayGetNItems_ok hitems]
  change (arrayGetNItems array.dims.length array.dims >>= _) = _
  rw [hitems]
  rfl

/-- The conversion raises an error or returns exactly the values of the array, if and only if the
array is too large or has no NULL. -/
theorem convertArrayToVector_exact_iff (narrow : V → D) (array : StoredArray V) :
    ((∃ message, convertArrayToVector narrow array.toDatum =
        Except.error (Failure.elog message)) ∨
      ∃ values : List V, array.items = values.map some ∧
        convertArrayToVector narrow array.toDatum = Except.ok (values.map narrow)) ↔
      arrayGetNItems array.dims.length array.dims = Except.error arraySizeExceeded ∨
        none ∉ array.items := by
  cases hitems : arrayGetNItems array.dims.length array.dims with
  | error failure =>
      obtain rfl := arrayGetNItems_error hitems
      have hraises : convertArrayToVector narrow array.toDatum =
          Except.error arraySizeExceeded := by
        change (arrayGetNItems array.dims.length array.dims >>= _) = _
        rw [hitems]
        rfl
      exact iff_of_true (Or.inl ⟨_, hraises⟩) (Or.inl rfl)
  | ok items =>
      rw [convertArrayToVector_of_ok narrow array hitems]
      by_cases hnull : none ∈ array.items
      · -- there are fewer values than items
        have hfewer : array.items.reduceOption.length < array.items.length :=
          List.reduceOption_length_lt_iff.mpr hnull
        rw [if_neg (not_le.mpr hfewer)]
        simp [hnull, arraySizeExceeded]
      · have hvalues := items_eq_of_no_null hnull
        have hlength := congrArg List.length hvalues
        rw [List.length_map] at hlength
        rw [if_pos hlength.le, hlength, List.take_length]
        exact iff_of_true (Or.inr ⟨_, hvalues, rfl⟩) (Or.inr hnull)

/-- An array of a value and a NULL, `ARRAY[1, NULL]`. -/
def oneNull : StoredArray Int where
  dims := [2]
  items := [some 1, none]
  bitmap := true
  length_items := by decide
  bitmap_of_null := by simp

/-- The second item is read where no value is stored. -/
theorem convertArrayToVector_oneNull :
    convertArrayToVector id oneNull.toDatum = Except.error (Failure.fault Fault.array) ∧
    ¬ ((∃ message, convertArrayToVector id oneNull.toDatum =
        Except.error (Failure.elog message)) ∨
      ∃ values : List Int, oneNull.items = values.map some ∧
        convertArrayToVector id oneNull.toDatum = Except.ok (values.map id)) := by
  have hfault : convertArrayToVector id oneNull.toDatum =
      Except.error (Failure.fault Fault.array) := rfl
  simp [hfault]

/-! ## Text arrays -/

/-- The loop of `convert_array_to_vector_str`, over the items that `deconstruct_array` finds. -/
def textItems (isText : Bool) : List (Option V) → Except Failure (List V)
  | [] => Except.ok []
  | none :: _ => Except.error (Failure.elog "array must not containing NULLs")
  | some text :: rest =>
      if isText then do
        let others ← textItems isText rest
        return text :: others
      else Except.error (Failure.elog "unsupported array type")

def convertArrayToVectorStr (isText : Bool) (array : StoredArray V) : Except Failure (List V) :=
  if 1 < array.dims.length then Except.error (Failure.elog "array must be 1-D")
  else do
    let _ ← arrayGetNItems array.dims.length array.dims
    textItems isText array.items

theorem textItems_cases (isText : Bool) (items : List (Option V)) :
    (∃ message, textItems isText items = Except.error (Failure.elog message)) ∨
      ∃ values : List V, items = values.map some ∧ textItems isText items = Except.ok values := by
  induction items with
  | nil => exact Or.inr ⟨[], rfl, rfl⟩
  | cons item rest ih =>
      cases item with
      | none => exact Or.inl ⟨_, rfl⟩
      | some text =>
          cases isText with
          | false => exact Or.inl ⟨_, rfl⟩
          | true =>
              rcases ih with ⟨message, herror⟩ | ⟨values, hitems, hok⟩
              · exact Or.inl ⟨message, by rw [textItems, herror]; rfl⟩
              · refine Or.inr ⟨text :: values, by rw [hitems, List.map_cons], ?_⟩
                rw [textItems, hok]
                rfl

/-- The conversion of text arrays raises an error or returns exactly the items. -/
theorem convertArrayToVectorStr_exact (isText : Bool) (array : StoredArray V) :
    (∃ message, convertArrayToVectorStr isText array = Except.error (Failure.elog message)) ∨
      ∃ values : List V, array.items = values.map some ∧
        convertArrayToVectorStr isText array = Except.ok values := by
  unfold convertArrayToVectorStr
  split
  · exact Or.inl ⟨_, rfl⟩
  · cases hitems : arrayGetNItems array.dims.length array.dims with
    | error failure =>
        obtain rfl := arrayGetNItems_error hitems
        exact Or.inl ⟨_, rfl⟩
    | ok items => exact textItems_cases isText array.items

end VBase.AccessMethod
