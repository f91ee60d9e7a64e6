import VBase.AccessMethod.ArrayConversion
import VBase.Foundation.Pass

/-! # Building an SPTAG index

`IndexBuilder` lays the vectors of the table end to end in one array of numbers and
records the rows in a second list. The dimension is that of the first vector, and zero
stands for a dimension that is not known yet. `GetVectorSet` cuts the array into vectors
again, `GetMetadataSet` packs the identifier of each row, and the index takes the `i`-th
entry of the one as the row of the `i`-th vector of the other.
-/

namespace VBase.AccessMethod

variable {D N : Type}

/-! ## The builder -/

/-- What ends a build without an error report. -/
inductive Undefined
  | divisionByZero
  | signedOverflow
  deriving DecidableEq

/-- The members of `IndexBuilder` that its callback sets. -/
structure IndexBuilder (D N : Type) where
  numDimension : Int32
  vectorData : List D
  indtuples : N
  metadata : List ItemPointer

/-- `BasicVectorSet` of single-precision numbers. -/
structure BasicVectorSet (D : Type) where
  data : List D
  dimension : Int32
  vectorCount : Int32

def BasicVectorSet.perVectorDataSize (set : BasicVectorSet D) : Int32 :=
  Int32.ofNat (sizeT set.dimension * 4)

/-- `GetVector`, with the bytes of the set counted in numbers. -/
def BasicVectorSet.getVector (set : BasicVectorSet D) (vectorID : Int32) : Option (List D) :=
  if vectorID < 0 ∨ set.vectorCount ≤ vectorID then none
  else some ((set.data.drop (sizeT vectorID * sizeT set.perVectorDataSize / 4)).take
    (sizeT set.dimension))

/-- The entries of `MemMetadataSet` and the room for their offsets, of which there is one more. -/
structure MemMetadataSet where
  maxSize : Nat
  entries : List UInt64

/-- `Add`. An entry for whose offset there is no room is dropped. -/
def MemMetadataSet.add (set : MemMetadataSet) (number : UInt64) : MemMetadataSet :=
  if set.maxSize - 1 < set.entries.length + 1 then set
  else { set with entries := set.entries ++ [number] }

namespace IndexBuilder

/-- `LoadTupleCallback`. The conversion of the array raises when there are too many items. -/
def loadTupleCallback [Add N] [One N] (self : IndexBuilder D N) (row : HeapRow D) :
    Except Failure (IndexBuilder D N) :=
  match row.value with
  | none => Except.ok self
  | some array =>
      if maxArraySize < array.length then Except.error arraySizeExceeded
      else
        let numDimension :=
          if self.numDimension = 0 then Int32.ofNat array.length else self.numDimension
        let found := array.length
        if sizeT numDimension ≠ array.length then
          Except.error (Failure.elog
            s!"inconsistent array length, expected {numDimension}, found {found}")
        else
          Except.ok {
            numDimension := numDimension
            vectorData := self.vectorData ++ array
            indtuples := self.indtuples + 1
            metadata := self.metadata ++ [row.tid] }

def loadTuples [Add N] [One N] (uninit : N) (heap : List (HeapRow D)) :
    Except Failure (IndexBuilder D N) :=
  heap.foldlM loadTupleCallback ⟨0, [], uninit, []⟩

def vectorCount (self : IndexBuilder D N) : Except Undefined Nat :=
  if self.numDimension = 0 then Except.error Undefined.divisionByZero
  else Except.ok (self.vectorData.length / sizeT self.numDimension)

/-- The loop of `GetVectorSet`, whose `int` counts the numbers. -/
def copyLoop : Int32 → List D → List D → Except Undefined (List D)
  | _, data, [] => Except.ok data
  | step, data, number :: rest =>
      if step = Int32.maxValue then Except.error Undefined.signedOverflow
      else copyLoop (step + 1) (data.set (sizeT step) number) rest

/-- `GetVectorSet`, where `junk` is what the new array holds. -/
def getVectorSet (junk : Nat → D) (self : IndexBuilder D N) :
    Except Undefined (BasicVectorSet D) := do
  let data ← copyLoop 0 ((List.range self.vectorData.length).map junk) self.vectorData
  let count ← self.vectorCount
  return ⟨data, self.numDimension, Int32.ofNat count⟩

def getMetadataSet (self : IndexBuilder D N) : Except Undefined MemMetadataSet := do
  let count ← self.vectorCount
  return self.metadata.foldl (fun set tid => set.add tid.toLabel) ⟨count + 1, []⟩

end IndexBuilder

/-! ## Sizes -/

theorem sizeT_ofNat {number : Nat} (hlt : number < 2 ^ 31) :
    sizeT (Int32.ofNat number) = number := by
  have hnat : (UInt32.ofNat number).toNat = number := by
    rw [UInt32.toNat_ofNat', Nat.mod_eq_of_lt (by omega)]
  change (UInt32.ofNat number).toInt32.toInt64.toUInt64.toNat = number
  rw [toNat_signExtend, hnat, if_neg (by omega), Nat.add_zero]

theorem sizeT_eq_zero {number : Int32} (hzero : sizeT number = 0) : number = 0 := by
  change number.toUInt32.toInt32.toInt64.toUInt64.toNat = 0 at hzero
  rw [toNat_signExtend] at hzero
  have hbits : number.toUInt32 = 0 := by
    apply UInt32.toNat_inj.mp
    simp only [UInt32.toNat_zero]
    omega
  calc number = number.toUInt32.toInt32 := rfl
    _ = 0 := by rw [hbits]; rfl

/-- Vectors of one length, laid end to end and cut apart again. -/
theorem flatten_drop_take {width : Nat} {vectors : List (List D)}
    (hwidth : ∀ vector ∈ vectors, vector.length = width) {i : Nat} {vector : List D}
    (hvector : vectors[i]? = some vector) :
    (vectors.flatten.drop (i * width)).take width = vector := by
  induction vectors generalizing i with
  | nil => simp at hvector
  | cons first rest ih =>
      have hfirst := hwidth first List.mem_cons_self
      have hrest : ∀ vector ∈ rest, vector.length = width := fun vector hmem =>
        hwidth vector (List.mem_cons_of_mem _ hmem)
      rw [List.flatten_cons]
      cases i with
      | zero =>
          obtain rfl := Option.some.inj hvector
          rw [Nat.zero_mul, List.drop_zero, ← hfirst, List.take_left]
      | succ i =>
          have hskip : (i + 1) * width = first.length + i * width := by
            rw [hfirst, Nat.succ_mul, Nat.add_comm]
          rw [hskip, List.drop_length_add_append, ih hrest hvector]

theorem length_flatten_of_width {width : Nat} {vectors : List (List D)}
    (hwidth : ∀ vector ∈ vectors, vector.length = width) :
    vectors.flatten.length = vectors.length * width := by
  induction vectors with
  | nil => simp
  | cons first rest ih =>
      rw [List.flatten_cons, List.length_append, hwidth first List.mem_cons_self,
        ih fun vector hmem => hwidth vector (List.mem_cons_of_mem _ hmem), List.length_cons,
        Nat.succ_mul, Nat.add_comm]

theorem length_flatten_le {width : Nat} {vectors : List (List D)}
    (hwidth : ∀ vector ∈ vectors, vector.length ≤ width) :
    vectors.flatten.length ≤ vectors.length * width := by
  induction vectors with
  | nil => simp
  | cons first rest ih =>
      have hfirst := hwidth first List.mem_cons_self
      have hrest := ih fun vector hmem => hwidth vector (List.mem_cons_of_mem _ hmem)
      rw [List.flatten_cons, List.length_append, List.length_cons, Nat.succ_mul]
      omega

/-- Where some vector is empty, the numbers fall short by a whole vector. -/
theorem length_flatten_of_empty {width : Nat} {vectors : List (List D)}
    (hwidth : ∀ vector ∈ vectors, vector.length ≤ width) (hempty : [] ∈ vectors) :
    vectors.flatten.length + width ≤ vectors.length * width := by
  induction vectors with
  | nil => simp at hempty
  | cons first rest ih =>
      have hfirst := hwidth first List.mem_cons_self
      have hothers : ∀ vector ∈ rest, vector.length ≤ width := fun vector hmem =>
        hwidth vector (List.mem_cons_of_mem _ hmem)
      rw [List.flatten_cons, List.length_append, List.length_cons, Nat.succ_mul]
      rcases List.mem_cons.mp hempty with rfl | hrest
      · have hle := length_flatten_le hothers
        rw [List.length_nil]
        omega
      · have hle := ih hothers hrest
        omega

/-! ## What the callback collects -/

namespace IndexBuilder

/-- The rows that have a vector. -/
def indexed (heap : List (HeapRow D)) : List (HeapRow D) :=
  heap.filter fun row => row.value.isSome

/-- The vectors of the table. -/
def vectors (heap : List (HeapRow D)) : List (List D) := heap.filterMap HeapRow.value

/-- The builder after the rows of `heap`. -/
structure Loaded (heap : List (HeapRow D)) (builder : IndexBuilder D N) : Prop where
  vectorData_eq : builder.vectorData = (vectors heap).flatten
  metadata_eq : builder.metadata = (indexed heap).map HeapRow.tid
  length_of_vector : ∀ vector ∈ vectors heap,
    vector = [] ∨ vector.length = sizeT builder.numDimension
  dimension_le : sizeT builder.numDimension ≤ maxArraySize
  dimension_of_nil : vectors heap = [] → builder.numDimension = 0

section Load

variable [Add N] [One N]

/-- A row without a vector is skipped, any other is added and may teach the dimension. -/
theorem loadTupleCallback_cases {self after : IndexBuilder D N} {row : HeapRow D}
    (hcall : self.loadTupleCallback row = Except.ok after) :
    (row.value = none ∧ after = self) ∨
      ∃ array, row.value = some array ∧ array.length ≤ maxArraySize ∧
        sizeT after.numDimension = array.length ∧
        (self.numDimension ≠ 0 → after.numDimension = self.numDimension) ∧
        after.vectorData = self.vectorData ++ array ∧
        after.metadata = self.metadata ++ [row.tid] := by
  unfold loadTupleCallback at hcall
  cases hvalue : row.value with
  | none =>
      rw [hvalue] at hcall
      exact Or.inl ⟨rfl, (Except.ok.inj hcall).symm⟩
  | some array =>
      rw [hvalue] at hcall
      dsimp only at hcall
      generalize hlearned : (if self.numDimension = 0 then Int32.ofNat array.length
        else self.numDimension) = learned at hcall
      split at hcall
      · cases hcall
      next hitems =>
        split at hcall
        · cases hcall
        next hlength =>
          obtain rfl := Except.ok.inj hcall
          refine Or.inr ⟨array, rfl, not_lt.mp hitems, not_not.mp hlength, ?_, rfl, rfl⟩
          intro hknown
          rw [← hlearned, if_neg hknown]

theorem loadTupleCallback_loaded {heap : List (HeapRow D)} {self after : IndexBuilder D N}
    {row : HeapRow D} (hself : Loaded heap self)
    (hcall : self.loadTupleCallback row = Except.ok after) : Loaded (heap ++ [row]) after := by
  rcases loadTupleCallback_cases hcall with
    ⟨hvalue, rfl⟩ | ⟨array, hvalue, hitems, hlength, hknown, hdata, hmetadata⟩
  · have hvectors : vectors (heap ++ [row]) = vectors heap := by simp [vectors, hvalue]
    have hindexed : indexed (heap ++ [row]) = indexed heap := by simp [indexed, hvalue]
    exact ⟨hvectors ▸ hself.vectorData_eq, hindexed ▸ hself.metadata_eq,
      hvectors ▸ hself.length_of_vector, hself.dimension_le, hvectors ▸ hself.dimension_of_nil⟩
  · have hvectors : vectors (heap ++ [row]) = vectors heap ++ [array] := by
      simp [vectors, hvalue]
    have hindexed : indexed (heap ++ [row]) = indexed heap ++ [row] := by
      simp [indexed, hvalue]
    constructor
    · simp [hvectors, hdata, hself.vectorData_eq]
    · simp [hindexed, hmetadata, hself.metadata_eq]
    · intro vector hmem
      rw [hvectors, List.mem_append, List.mem_singleton] at hmem
      rcases hmem with hold | rfl
      · by_cases hzero : self.numDimension = 0
        · -- as long as the dimension is not known, all vectors are empty
          left
          apply (hself.length_of_vector vector hold).elim id
          intro hwidth
          rw [hzero] at hwidth
          exact List.length_eq_zero_iff.mp hwidth
        · rw [hknown hzero]
          exact hself.length_of_vector vector hold
      · exact Or.inr hlength.symm
    · exact hlength ▸ hitems
    · intro hnil
      simp [hvectors] at hnil

theorem loadTuples_loaded {uninit : N} {heap : List (HeapRow D)} {self : IndexBuilder D N}
    (hload : loadTuples uninit heap = Except.ok self) : Loaded heap self := by
  refine Pass.invariant (motive := Loaded) ?_ ?_ hload
  · intro seen state row next hseen hcall
    exact loadTupleCallback_loaded hseen hcall
  · exact ⟨rfl, rfl, by simp [vectors], Nat.zero_le _, fun _ => rfl⟩

end Load

/-! ## What the two sets hold -/

/-- The loop copies all numbers if there are few enough of them for an `int`. -/
theorem copyLoop_eq (copied junk rest : List D) (hjunk : junk.length = rest.length)
    (hcopied : copied.length < 2 ^ 31) :
    copyLoop (Int32.ofNat copied.length) (copied ++ junk) rest =
      if copied.length + rest.length < 2 ^ 31 then Except.ok (copied ++ rest)
      else Except.error Undefined.signedOverflow := by
  induction rest generalizing copied junk with
  | nil =>
      rw [List.length_nil, List.length_eq_zero_iff] at hjunk
      subst hjunk
      rw [copyLoop, if_pos (by simpa using hcopied)]
  | cons number rest ih =>
      obtain ⟨old, junk, rfl⟩ : ∃ old others, junk = old :: others := by
        cases junk with
        | nil => simp at hjunk
        | cons old others => exact ⟨old, others, rfl⟩
      have hmax : sizeT Int32.maxValue = 2 ^ 31 - 1 := by decide
      rw [copyLoop]
      by_cases hlast : copied.length = 2 ^ 31 - 1
      · have hstep : Int32.ofNat copied.length = Int32.maxValue := by rw [hlast]; rfl
        rw [if_pos hstep, if_neg (by rw [List.length_cons]; omega)]
      · have hstep : Int32.ofNat copied.length ≠ Int32.maxValue := by
          intro heq
          have hsize := congrArg sizeT heq
          rw [sizeT_ofNat hcopied, hmax] at hsize
          exact hlast hsize
        have hnext : Int32.ofNat copied.length + 1 = Int32.ofNat (copied ++ [number]).length := by
          rw [List.length_append, Int32.ofNat_add]
          rfl
        have hset : (copied ++ old :: junk).set copied.length number =
            copied ++ [number] ++ junk := by simp
        have hlater := ih (copied ++ [number]) junk (by simpa using hjunk)
          (by rw [List.length_append, List.length_singleton]; omega)
        rw [if_neg hstep, sizeT_ofNat hcopied, hset, hnext, hlater]
        simp [Nat.add_assoc, Nat.add_comm 1]

/-- The set keeps as many entries as it has room for. -/
theorem foldl_add_entries (tids : List ItemPointer) (set : MemMetadataSet)
    (hroom : set.entries.length ≤ set.maxSize - 1) :
    (tids.foldl (fun set tid => set.add tid.toLabel) set).entries =
      (set.entries ++ tids.map ItemPointer.toLabel).take (set.maxSize - 1) := by
  induction tids generalizing set with
  | nil => simp [List.take_of_length_le hroom]
  | cons tid tids ih =>
      rw [List.foldl_cons, MemMetadataSet.add]
      split
      next hfull =>
        have hlength : set.entries.length = set.maxSize - 1 := by omega
        rw [ih set hroom, ← hlength, List.take_left, List.take_left]
      next hfree =>
        rw [ih]
        · simp
        · dsimp only
          rw [List.length_append, List.length_singleton]
          omega

theorem map_value_indexed (heap : List (HeapRow D)) :
    (indexed heap).map HeapRow.value = (vectors heap).map some := by
  induction heap with
  | nil => rfl
  | cons row rest ih =>
      cases hvalue : row.value with
      | none => simpa [indexed, vectors, hvalue] using ih
      | some array => simpa [indexed, vectors, hvalue] using ih

theorem length_indexed (heap : List (HeapRow D)) :
    (indexed heap).length = (vectors heap).length := by
  have hlength := congrArg List.length (map_value_indexed heap)
  simpa using hlength

/-- The count divides by a dimension that is known and is the number of entries, and the vector
and the entry at each position are those of one row. -/
def Aligned (junk : Nat → D) (heap : List (HeapRow D)) (self : IndexBuilder D N) : Prop :=
  ∃ count vectorSet metadataSet, self.vectorCount = Except.ok count ∧
    count = self.metadata.length ∧ self.getVectorSet junk = Except.ok vectorSet ∧
    self.getMetadataSet = Except.ok metadataSet ∧
    ∀ i < count, ∃ row, (indexed heap)[i]? = some row ∧
      vectorSet.getVector (Int32.ofNat i) = row.value ∧
      metadataSet.entries[i]? = some row.tid.toLabel

section Alignment

variable {heap : List (HeapRow D)} {self : IndexBuilder D N} (hloaded : Loaded heap self)

include hloaded

theorem length_metadata : self.metadata.length = (vectors heap).length := by
  rw [hloaded.metadata_eq, List.length_map, length_indexed]

theorem getVectorSet_eq (junk : Nat → D) : self.getVectorSet junk =
    if (vectors heap).flatten.length < 2 ^ 31 then do
      let count ← self.vectorCount
      return ⟨(vectors heap).flatten, self.numDimension, Int32.ofNat count⟩
    else Except.error Undefined.signedOverflow := by
  have hcopy := copyLoop_eq [] ((List.range (vectors heap).flatten.length).map junk)
    (vectors heap).flatten (by simp) (by simp)
  rw [List.nil_append, List.length_nil, Nat.zero_add, List.nil_append] at hcopy
  rw [getVectorSet, hloaded.vectorData_eq]
  change (copyLoop (Int32.ofNat 0) _ _ >>= _) = _
  rw [hcopy]
  split <;> rfl

theorem getMetadataSet_of_count (hcount : self.vectorCount = Except.ok (vectors heap).length) :
    ∃ metadataSet, self.getMetadataSet = Except.ok metadataSet ∧
      metadataSet.entries = self.metadata.map ItemPointer.toLabel := by
  refine ⟨_, by rw [getMetadataSet, hcount]; rfl, ?_⟩
  rw [foldl_add_entries _ _ (Nat.zero_le _), List.nil_append, List.take_of_length_le]
  rw [List.length_map, length_metadata hloaded]
  exact Nat.le_refl _

omit hloaded in
/-- The vector at a position of the flat array. -/
theorem getVector_flatten {numDimension : Int32} {all : List (List D)}
    (hwidth : ∀ vector ∈ all, vector.length = sizeT numDimension)
    (hitems : sizeT numDimension ≤ maxArraySize) (hfew : all.length < 2 ^ 31) {i : Nat}
    {vector : List D} (hvector : all[i]? = some vector) :
    (BasicVectorSet.mk all.flatten numDimension (Int32.ofNat all.length)).getVector
      (Int32.ofNat i) = some vector := by
  have hi : i < all.length := by
    by_contra hge
    rw [List.getElem?_eq_none (not_lt.mp hge)] at hvector
    cases hvector
  have hmax : maxArraySize = 134217727 := rfl
  have hnonneg : ¬ Int32.ofNat i < 0 := by
    have hle := (Int32.ofNat_le_iff_le (a := 0) (b := i) (by decide) (by omega)).mpr (by omega)
    exact Int32.not_lt.mpr hle
  have hcount : ¬ Int32.ofNat all.length ≤ Int32.ofNat i := by
    rw [Int32.ofNat_le_iff_le hfew (by omega)]
    omega
  have hsize : sizeT (Int32.ofNat (sizeT numDimension * 4)) = sizeT numDimension * 4 :=
    sizeT_ofNat (by omega)
  have hoffset : i * (sizeT numDimension * 4) / 4 = i * sizeT numDimension := by
    rw [← Nat.mul_assoc, Nat.mul_div_cancel _ (by decide)]
  rw [BasicVectorSet.getVector, if_neg (not_or.mpr ⟨hnonneg, hcount⟩)]
  simp only [BasicVectorSet.perVectorDataSize]
  rw [hsize, sizeT_ofNat (by omega), hoffset, flatten_drop_take hwidth hvector]

theorem conditions_of_aligned {junk : Nat → D} (haligned : Aligned junk heap self) :
    vectors heap ≠ [] ∧ [] ∉ vectors heap ∧ (vectors heap).flatten.length < 2 ^ 31 := by
  obtain ⟨count, vectorSet, metadataSet, hcount, hentries, hvectors, -, -⟩ := haligned
  have hknown : self.numDimension ≠ 0 := by
    intro hzero
    rw [vectorCount, if_pos hzero] at hcount
    cases hcount
  have hwidth : 0 < sizeT self.numDimension :=
    Nat.pos_of_ne_zero fun hzero => hknown (sizeT_eq_zero hzero)
  refine ⟨fun hnil => hknown (hloaded.dimension_of_nil hnil), ?_, ?_⟩
  · -- an empty vector has an entry and no numbers
    intro hempty
    rw [vectorCount, if_neg hknown, hloaded.vectorData_eq] at hcount
    obtain rfl := Except.ok.inj hcount
    have hle : ∀ vector ∈ vectors heap, vector.length ≤ sizeT self.numDimension := by
      intro vector hmem
      rcases hloaded.length_of_vector vector hmem with rfl | hlength
      · exact Nat.zero_le _
      · exact hlength.le
    have hshort := length_flatten_of_empty hle hempty
    have hlt : (vectors heap).flatten.length / sizeT self.numDimension < (vectors heap).length :=
      (Nat.div_lt_iff_lt_mul hwidth).mpr (by omega)
    rw [length_metadata hloaded] at hentries
    omega
  · rw [getVectorSet_eq hloaded] at hvectors
    by_contra hlong
    rw [if_neg hlong] at hvectors
    cases hvectors

theorem aligned_of_conditions (junk : Nat → D) (hsome : vectors heap ≠ [])
    (hempty : [] ∉ vectors heap) (hlong : (vectors heap).flatten.length < 2 ^ 31) :
    Aligned junk heap self := by
  have hwidth : ∀ vector ∈ vectors heap, vector.length = sizeT self.numDimension := by
    intro vector hmem
    rcases hloaded.length_of_vector vector hmem with rfl | hlength
    · exact absurd hmem hempty
    · exact hlength
  have hpos : 0 < sizeT self.numDimension := by
    obtain ⟨vector, hmem⟩ := List.exists_mem_of_ne_nil _ hsome
    rw [← hwidth vector hmem]
    apply List.length_pos_of_ne_nil
    rintro rfl
    exact hempty hmem
  have hknown : self.numDimension ≠ 0 := by
    intro hzero
    rw [hzero] at hpos
    exact absurd hpos (by decide)
  have hlength := length_flatten_of_width hwidth
  have hcount : self.vectorCount = Except.ok (vectors heap).length := by
    rw [vectorCount, if_neg hknown, hloaded.vectorData_eq, hlength, Nat.mul_div_cancel _ hpos]
  have hfew : (vectors heap).length < 2 ^ 31 :=
    (Nat.le_mul_of_pos_right _ hpos).trans_lt (hlength ▸ hlong)
  have hvectors : self.getVectorSet junk = Except.ok ⟨(vectors heap).flatten, self.numDimension,
      Int32.ofNat (vectors heap).length⟩ := by
    rw [getVectorSet_eq hloaded, if_pos hlong, hcount]
    rfl
  obtain ⟨metadataSet, hmetadata, hentries⟩ := getMetadataSet_of_count hloaded hcount
  refine ⟨_, _, metadataSet, hcount, (length_metadata hloaded).symm, hvectors, hmetadata, ?_⟩
  intro i hi
  have hrow := List.getElem?_eq_getElem (length_indexed heap ▸ hi)
  refine ⟨_, hrow, ?_, ?_⟩
  · have hvalue := congrArg (fun values => values[i]?) (map_value_indexed heap)
    simp only [List.getElem?_map, hrow, List.getElem?_eq_getElem hi, Option.map_some,
      Option.some.injEq] at hvalue
    rw [hvalue]
    exact getVector_flatten hwidth hloaded.dimension_le hfew (List.getElem?_eq_getElem hi)
  · rw [hentries, hloaded.metadata_eq, List.map_map, List.getElem?_map, hrow]
    rfl

end Alignment

/-- Whenever no callback raises, vectors and rows are aligned exactly when some row has a vector,
no vector is empty, and an `int` can count the numbers. -/
theorem aligned_iff [Add N] [One N] (uninit : N) (junk : Nat → D) {heap : List (HeapRow D)}
    {self : IndexBuilder D N} (hload : loadTuples uninit heap = Except.ok self) :
    Aligned junk heap self ↔
      vectors heap ≠ [] ∧ [] ∉ vectors heap ∧ (vectors heap).flatten.length < 2 ^ 31 := by
  have hloaded := loadTuples_loaded hload
  constructor
  · exact conditions_of_aligned hloaded
  · rintro ⟨hsome, hempty, hlong⟩
    exact aligned_of_conditions hloaded junk hsome hempty hlong

/-- Two rows with a vector and one without. -/
theorem aligned_twoVectors :
    let heap : List (HeapRow Int) :=
      [⟨⟨0, 1⟩, some [1, 2]⟩, ⟨⟨0, 2⟩, none⟩, ⟨⟨0, 3⟩, some [3, 4]⟩]
    ∃ self, loadTuples 0 heap = Except.ok (self : IndexBuilder Int Int) ∧
      Aligned (fun _ => 0) heap self := by
  intro heap
  obtain ⟨self, hload⟩ : ∃ self, loadTuples 0 heap = Except.ok (self : IndexBuilder Int Int) :=
    ⟨_, rfl⟩
  exact ⟨self, hload, (aligned_iff 0 (fun _ => 0) hload).mpr (by decide)⟩

/-- An empty vector before the others has an entry and no vector, so that the vector which follows
is taken for it. An empty table divides by zero. -/
theorem misaligned_emptyVector :
    let heap : List (HeapRow Int) := [⟨⟨0, 1⟩, some []⟩, ⟨⟨0, 2⟩, some [5, 6]⟩]
    (∃ self vectorSet metadataSet, loadTuples 0 heap = Except.ok (self : IndexBuilder Int Int) ∧
      self.vectorCount = Except.ok 1 ∧ self.metadata.length = 2 ∧
      self.getVectorSet (fun _ => 0) = Except.ok vectorSet ∧
      vectorSet.getVector 0 = some [5, 6] ∧ self.getMetadataSet = Except.ok metadataSet ∧
      metadataSet.entries = [(⟨0, 1⟩ : ItemPointer).toLabel] ∧ ¬ Aligned (fun _ => 0) heap self) ∧
    ∃ self, loadTuples 0 [] = Except.ok (self : IndexBuilder Int Int) ∧
      self.vectorCount = Except.error Undefined.divisionByZero ∧
      ¬ Aligned (fun _ => 0) [] self := by
  intro heap
  constructor
  · refine ⟨_, _, _, rfl, rfl, rfl, rfl, rfl, rfl, rfl, ?_⟩
    rintro ⟨count, vectorSet, metadataSet, hcount, hentries, -⟩
    obtain rfl := Except.ok.inj hcount
    exact absurd hentries (by decide)
  · refine ⟨_, rfl, rfl, ?_⟩
    rintro ⟨count, vectorSet, metadataSet, hcount, -⟩
    cases hcount

end IndexBuilder

end VBase.AccessMethod
