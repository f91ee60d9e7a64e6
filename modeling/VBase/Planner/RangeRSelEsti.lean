import VBase.Foundation.BinaryStream
import VBase.Foundation.Pass
import Mathlib.Data.List.Induction

/-! # The file of a selectivity sample

`RangeRSelEsti` samples the vectors of a table. Its samples are saved as their number, the
dimension and the floats of all samples, and they are read back without a mark of where
the file ends. A float is its bit pattern.
-/

namespace VBase.Planner

open LittleEndian

/-- `max_size` of a `std::vector<float>`. -/
def maxFloats : Nat := (2 ^ 63 - 1) / 4

/-- `max_size` of a `std::vector` of vectors. -/
def maxSamples : Nat := (2 ^ 63 - 1) / 24

/-- A `std::vector<float>`. -/
structure FloatVector where
  values : List UInt32
  length_le : values.length ≤ maxFloats

structure RangeRSelEsti where
  sampledData : List (List UInt32)
  dimension : UInt64

/-- A call of `add_tuple`, with whether `rand` picks the vector and whether memory can be
allocated for it. -/
structure AddTuple where
  vec : FloatVector
  picked : Bool
  granted : Bool

/-- The resize of a vector to a number of elements, as one of the requests for memory. -/
def resize (grants : Nat → Bool) (request maxSize size : Nat) : Except String Unit :=
  if maxSize < size then Except.error "vector::_M_default_append"
  else if grants request then Except.ok ()
  else Except.error "std::bad_alloc"

/-- The floats in a piece of memory. -/
def toFloats : List UInt8 → List UInt32
  | first :: second :: third :: fourth :: rest =>
      UInt32.ofNat (ofBytes [first, second, third, fourth]) :: toFloats rest
  | _ => []

def ofFloats (values : List UInt32) : List UInt8 :=
  values.flatMap fun value => toBytes 4 value.toNat

namespace RangeRSelEsti

def empty : RangeRSelEsti := ⟨[], 0⟩

def pushBack (call : AddTuple) (esti : RangeRSelEsti) : Except String Bool × RangeRSelEsti :=
  if call.picked then
    if maxSamples ≤ esti.sampledData.length then
      (Except.error "vector::_M_realloc_append", esti)
    else if call.granted then
      (Except.ok true, { esti with sampledData := esti.sampledData ++ [call.vec.values] })
    else (Except.error "std::bad_alloc", esti)
  else (Except.ok false, esti)

def addTuple (call : AddTuple) (esti : RangeRSelEsti) : Except String Bool × RangeRSelEsti :=
  let size := UInt64.ofNat call.vec.values.length
  if esti.dimension = 0 then pushBack call { esti with dimension := size }
  else if esti.dimension ≠ size then (Except.error "dimension mismatch", esti)
  else pushBack call esti

/-- The estimator after some calls, which may have raised. -/
def after (calls : List AddTuple) : RangeRSelEsti :=
  calls.foldl (fun esti call => (addTuple call esti).2) empty

/-- The bytes that `save` writes of one sample, where `none` is a read past its end. -/
def writeSample (dimension : UInt64) (sample : List UInt32) : Option (List UInt8) :=
  let count := (dimension * 4).toNat
  if count ≤ (ofFloats sample).length then some ((ofFloats sample).take count) else none

def save (esti : RangeRSelEsti) : Option (List UInt8) := do
  let sampleCount := UInt64.ofNat esti.sampledData.length
  let samples ← esti.sampledData.mapM (writeSample esti.dimension)
  return toBytes 8 sampleCount.toNat ++ toBytes 8 esti.dimension.toNat ++ samples.flatten

/-- The loop of the constructor from sample `i` on, of which there are `left`. -/
def readSamples (grants : Nat → Bool) (dimension : UInt64) :
    Nat → Nat → InputStream → Except String (List (List UInt32) × InputStream)
  | _, 0, fin => Except.ok ([], fin)
  | i, left + 1, fin => do
      resize grants (i + 1) maxFloats dimension.toNat
      let (bytes, fin) := fin.read (List.replicate (dimension * 4).toNat 0)
      let (samples, fin) ← readSamples grants dimension (i + 1) left fin
      return (toFloats bytes :: samples, fin)

/-- The constructor from a file, with what `sample_count` holds before it is read. -/
def load (grants : Nat → Bool) (uninit : UInt64) : Option (List UInt8) → Except String RangeRSelEsti
  | none => Except.ok empty
  | some file => do
      let fin : InputStream := ⟨file, true⟩
      let (countBytes, fin) := fin.read (toBytes 8 uninit.toNat)
      let sampleCount := UInt64.ofNat (ofBytes countBytes)
      let (dimensionBytes, fin) := fin.read (toBytes 8 0)
      let dimension := UInt64.ofNat (ofBytes dimensionBytes)
      resize grants 0 maxSamples sampleCount.toNat
      let (samples, fin) ← readSamples grants dimension 0 sampleCount.toNat fin
      if fin.good then return ⟨samples, dimension⟩
      else Except.error "error when reading"

/-! ## Saving -/

/-- All samples are of the dimension, which is zero only before the first call. -/
structure Consistent (esti : RangeRSelEsti) : Prop where
  length_sample : ∀ sample ∈ esti.sampledData, sample.length = esti.dimension.toNat
  dimension_le : esti.dimension.toNat ≤ maxFloats
  count_le : esti.sampledData.length ≤ maxSamples
  nil_of_zero : esti.dimension = 0 → esti.sampledData = []

theorem toNat_size (vec : FloatVector) :
    (UInt64.ofNat vec.values.length).toNat = vec.values.length := by
  have hle := vec.length_le
  rw [UInt64.toNat_ofNat_of_lt']
  exact Nat.lt_of_le_of_lt hle (by decide)

theorem Consistent.pushBack {esti : RangeRSelEsti} (hesti : Consistent esti) (call : AddTuple)
    (hne : call.vec.values ≠ []) (hsize : esti.dimension = UInt64.ofNat call.vec.values.length) :
    Consistent (pushBack call esti).2 := by
  unfold RangeRSelEsti.pushBack
  split_ifs with hpicked hfull hgranted
  · exact hesti
  · have hlength : esti.dimension.toNat = call.vec.values.length := by
      rw [hsize, toNat_size]
    refine ⟨?_, hesti.dimension_le, ?_, ?_⟩
    · intro sample hsample
      rcases List.mem_append.mp hsample with hold | hnew
      · exact hesti.length_sample sample hold
      · rw [List.mem_singleton.mp hnew, hlength]
    · rw [List.length_append, List.length_singleton]
      omega
    · intro hzero
      rw [hzero] at hlength
      exact absurd (List.length_eq_zero_iff.mp hlength.symm) hne
  · exact hesti
  · exact hesti

theorem Consistent.addTuple {esti : RangeRSelEsti} (hesti : Consistent esti) (call : AddTuple)
    (hne : call.vec.values ≠ []) : Consistent (addTuple call esti).2 := by
  unfold RangeRSelEsti.addTuple
  dsimp only
  split_ifs with hzero hsize
  · apply Consistent.pushBack _ call hne rfl
    refine ⟨?_, ?_, hesti.count_le, fun _ => hesti.nil_of_zero hzero⟩
    · simp [hesti.nil_of_zero hzero]
    · rw [toNat_size]
      exact call.vec.length_le
  · exact hesti
  · exact hesti.pushBack call hne (not_not.mp hsize)

theorem consistent_after {calls : List AddTuple} (hcalls : ∀ call ∈ calls, call.vec.values ≠ []) :
    Consistent (after calls) := by
  induction calls using List.reverseRecOn with
  | nil => exact ⟨by simp [after, empty], by decide, by decide, fun _ => rfl⟩
  | append_singleton calls call ih =>
      rw [after, List.foldl_append]
      apply Consistent.addTuple
      · exact ih fun other hother => hcalls other (List.mem_append_left _ hother)
      · exact hcalls call (by simp)

theorem length_ofFloats (values : List UInt32) : (ofFloats values).length = 4 * values.length := by
  induction values with
  | nil => rfl
  | cons value rest ih =>
      rw [ofFloats, List.flatMap_cons, ← ofFloats, List.length_append, length_toBytes, ih,
        List.length_cons]
      omega

theorem toFloats_ofFloats (values : List UInt32) : toFloats (ofFloats values) = values := by
  induction values with
  | nil => rfl
  | cons value rest ih =>
      have hvalue : ofBytes (toBytes 4 value.toNat) = value.toNat :=
        ofBytes_toBytes value.toNat_lt
      rw [ofFloats, List.flatMap_cons, ← ofFloats]
      change UInt32.ofNat (ofBytes (toBytes 4 value.toNat)) :: toFloats (ofFloats rest) = _
      rw [hvalue, ih, UInt32.ofNat_toNat]

namespace Consistent

variable {esti : RangeRSelEsti}

/-- The number of bytes of a sample does not overflow. -/
theorem toNat_dimension (hesti : Consistent esti) :
    (esti.dimension * 4).toNat = 4 * esti.dimension.toNat := by
  have hle := hesti.dimension_le
  have hmax : maxFloats < 2 ^ 61 := by decide
  rw [UInt64.toNat_mul, Nat.mul_comm, Nat.mod_eq_of_lt]
  · rfl
  · change 4 * esti.dimension.toNat < 2 ^ 64
    omega

theorem length_bytes (hesti : Consistent esti) {sample : List UInt32}
    (hsample : sample ∈ esti.sampledData) :
    (ofFloats sample).length = (esti.dimension * 4).toNat := by
  rw [length_ofFloats, hesti.length_sample sample hsample, hesti.toNat_dimension]

theorem length_samples (hesti : Consistent esti) :
    (esti.sampledData.flatMap ofFloats).length =
      esti.sampledData.length * (esti.dimension * 4).toNat := by
  rw [List.length_flatMap, List.map_congr_left fun sample hsample => hesti.length_bytes hsample,
    List.map_const', List.sum_replicate_nat]

theorem toNat_count (hesti : Consistent esti) :
    (UInt64.ofNat esti.sampledData.length).toNat = esti.sampledData.length := by
  rw [UInt64.toNat_ofNat_of_lt']
  exact Nat.lt_of_le_of_lt hesti.count_le (by decide)

/-- `save` reads every sample to its end. -/
theorem save_eq (hesti : Consistent esti) :
    esti.save = some (toBytes 8 esti.sampledData.length ++ toBytes 8 esti.dimension.toNat ++
      esti.sampledData.flatMap ofFloats) := by
  have hsamples : ∀ samples : List (List UInt32), (∀ sample ∈ samples, sample ∈ esti.sampledData) →
      samples.mapM (writeSample esti.dimension) = some (samples.map ofFloats) := by
    intro samples hmem
    induction samples with
    | nil => rfl
    | cons sample rest ih =>
        have hlength := hesti.length_bytes (hmem sample List.mem_cons_self)
        have hwrite : writeSample esti.dimension sample = some (ofFloats sample) := by
          rw [writeSample, ← hlength, if_pos (Nat.le_refl _), List.take_length]
        have hrest := ih fun other hother => hmem other (List.mem_cons_of_mem _ hother)
        rw [List.mapM_cons, hwrite, hrest]
        rfl
  rw [save, hsamples _ fun _ hsample => hsample, hesti.toNat_count]
  rfl

end Consistent

/-! ## Reading -/

theorem resize_eq {grants : Nat → Bool} (hgrants : ∀ request, grants request = true)
    {maxSize size : Nat} (hsize : size ≤ maxSize) (request : Nat) :
    resize grants request maxSize size = Except.ok () := by
  rw [resize, if_neg (Nat.not_lt.mpr hsize), if_pos (hgrants request)]

theorem readSamples_eq {grants : Nat → Bool} (hgrants : ∀ request, grants request = true)
    {dimension : UInt64} (hdimension : dimension.toNat ≤ maxFloats) {samples : List (List UInt32)}
    (hsamples : ∀ sample ∈ samples, (ofFloats sample).length = (dimension * 4).toNat) (i : Nat) :
    readSamples grants dimension i samples.length ⟨samples.flatMap ofFloats, true⟩ =
      Except.ok (samples, ⟨[], true⟩) := by
  induction samples generalizing i with
  | nil => rfl
  | cons sample rest ih =>
      have hlength := hsamples sample List.mem_cons_self
      have hread : InputStream.read ⟨ofFloats sample ++ rest.flatMap ofFloats, true⟩
          (List.replicate (dimension * 4).toNat 0) =
            (ofFloats sample, ⟨rest.flatMap ofFloats, true⟩) :=
        InputStream.read_append (by rw [List.length_replicate, hlength]) _
      have hrest := ih (fun other hother => hsamples other (List.mem_cons_of_mem _ hother)) (i + 1)
      rw [List.length_cons, readSamples, resize_eq hgrants hdimension, List.flatMap_cons, hread]
      simp only [bind, Except.bind, hrest, toFloats_ofFloats]
      rfl

theorem load_eq {grants : Nat → Bool} (hgrants : ∀ request, grants request = true)
    (uninit : UInt64) {esti : RangeRSelEsti} (hesti : Consistent esti) :
    load grants uninit (some (toBytes 8 esti.sampledData.length ++
      toBytes 8 esti.dimension.toNat ++ esti.sampledData.flatMap ofFloats)) = Except.ok esti := by
  have hmax : maxSamples < 256 ^ 8 := by decide
  have hcountBytes : ofBytes (toBytes 8 esti.sampledData.length) = esti.sampledData.length :=
    ofBytes_toBytes (Nat.lt_of_le_of_lt hesti.count_le hmax)
  have hdimensionBytes : ofBytes (toBytes 8 esti.dimension.toNat) = esti.dimension.toNat :=
    ofBytes_toBytes esti.dimension.toNat_lt
  have hsamples := readSamples_eq hgrants hesti.dimension_le
    (fun sample hsample => hesti.length_bytes hsample) 0
  rw [load, List.append_assoc, InputStream.read_append (by simp)]
  dsimp only
  rw [InputStream.read_append (by simp)]
  dsimp only
  rw [hcountBytes, hdimensionBytes, hesti.toNat_count, UInt64.ofNat_toNat,
    resize_eq hgrants hesti.count_le]
  simp only [bind, Except.bind, hsamples]
  rfl

/-- A loop that ends with a good stream had the bytes for all its samples. -/
theorem good_of_readSamples {grants : Nat → Bool} {dimension : UInt64} {i left : Nat}
    {fin final : InputStream} {samples : List (List UInt32)}
    (hread : readSamples grants dimension i left fin = Except.ok (samples, final))
    (hgood : final.good = true) :
    fin.good = true ∧ left * (dimension * 4).toNat ≤ fin.rest.length := by
  induction left generalizing i fin samples with
  | zero =>
      obtain ⟨-, rfl⟩ := Prod.mk.inj (Except.ok.inj hread)
      exact ⟨hgood, by simp⟩
  | succ left ih =>
      rw [readSamples] at hread
      obtain ⟨_, -, hsample⟩ := Pass.bind_ok.mp hread
      obtain ⟨⟨bytes, next⟩, hbytes⟩ :
          ∃ read, fin.read (List.replicate (dimension * 4).toNat 0) = read := ⟨_, rfl⟩
      rw [hbytes] at hsample
      obtain ⟨⟨others, last⟩, hrest, hreturn⟩ := Pass.bind_ok.mp hsample
      obtain ⟨-, rfl⟩ := Prod.mk.inj (Except.ok.inj hreturn)
      obtain ⟨hnext, hle⟩ := ih hrest
      have hgood' : (fin.read (List.replicate (dimension * 4).toNat 0)).2.good = true := by
        rw [hbytes]
        exact hnext
      obtain ⟨hfin, hlength, hstep⟩ := InputStream.good_of_read hgood'
      obtain ⟨-, rfl⟩ := Prod.mk.inj (hbytes.symm.trans hstep)
      rw [List.length_drop] at hle
      rw [List.length_replicate] at hlength hle
      refine ⟨hfin, ?_⟩
      rw [Nat.succ_mul]
      omega

/-- The reads of a constructor that returns. -/
theorem load_ok {grants : Nat → Bool} {uninit : UInt64} {file : List UInt8} {esti : RangeRSelEsti}
    (hload : load grants uninit (some file) = Except.ok esti) :
    ∃ first second result, InputStream.read ⟨file, true⟩ (toBytes 8 uninit.toNat) = first ∧
      first.2.read (toBytes 8 0) = second ∧
      readSamples grants (UInt64.ofNat (ofBytes second.1)) 0
        (UInt64.ofNat (ofBytes first.1)).toNat second.2 = Except.ok result ∧
      result.2.good = true := by
  obtain ⟨⟨countBytes, fin⟩, hfirst⟩ :
      ∃ first, InputStream.read ⟨file, true⟩ (toBytes 8 uninit.toNat) = first := ⟨_, rfl⟩
  obtain ⟨⟨dimensionBytes, next⟩, hsecond⟩ : ∃ second, fin.read (toBytes 8 0) = second := ⟨_, rfl⟩
  rw [load, hfirst] at hload
  dsimp only at hload
  rw [hsecond] at hload
  dsimp only at hload
  obtain ⟨_, -, hload⟩ := Pass.bind_ok.mp hload
  obtain ⟨⟨samples, last⟩, hsamples, hreturn⟩ := Pass.bind_ok.mp hload
  refine ⟨_, _, _, hfirst, hsecond, hsamples, ?_⟩
  by_contra hbad
  simp only [if_neg hbad] at hreturn
  cases hreturn

/-- A constructor that returns had the bytes that the first two words ask for. -/
theorem length_of_load {grants : Nat → Bool} {uninit : UInt64} {file : List UInt8}
    {esti : RangeRSelEsti} (hload : load grants uninit (some file) = Except.ok esti) :
    16 + (UInt64.ofNat (ofBytes (file.take 8))).toNat *
      (UInt64.ofNat (ofBytes ((file.drop 8).take 8)) * 4).toNat ≤ file.length := by
  obtain ⟨first, second, result, hfirst, hsecond, hsamples, hgood⟩ := load_ok hload
  obtain ⟨hgood, hrest⟩ := good_of_readSamples hsamples hgood
  rw [← hsecond] at hgood
  obtain ⟨hgood, hlength, hread⟩ := InputStream.good_of_read hgood
  rw [hsecond] at hread
  rw [← hfirst] at hgood
  obtain ⟨-, hlength', hread'⟩ := InputStream.good_of_read hgood
  rw [hfirst] at hread'
  subst hread hread'
  simp only [length_toBytes, List.length_drop] at hlength hlength' hrest ⊢
  omega

/-- The first two words ask for the whole file, so that a constructor that returns has read it. -/
theorem Consistent.eq_of_load {esti other : RangeRSelEsti} (hesti : Consistent esti)
    {shorter : List UInt8} (hstart : shorter <+: toBytes 8 esti.sampledData.length ++
      toBytes 8 esti.dimension.toNat ++ esti.sampledData.flatMap ofFloats)
    {grants : Nat → Bool} {uninit : UInt64}
    (hload : load grants uninit (some shorter) = Except.ok other) :
    shorter = toBytes 8 esti.sampledData.length ++ toBytes 8 esti.dimension.toNat ++
      esti.sampledData.flatMap ofFloats := by
  have hlength := length_of_load hload
  have hmax : maxSamples < 256 ^ 8 := by decide
  have ⟨behind, hfile⟩ := hstart
  have hcount : shorter.take 8 = toBytes 8 esti.sampledData.length := by
    rw [← List.take_append_of_le_length (by omega), hfile, List.append_assoc,
      List.take_left' (length_toBytes 8 _)]
  have hdimension : (shorter.drop 8).take 8 = toBytes 8 esti.dimension.toNat := by
    have hleft : 8 ≤ (shorter.drop 8).length := by
      rw [List.length_drop]
      omega
    rw [← List.take_append_of_le_length hleft, ← List.drop_append_of_le_length (by omega), hfile,
      List.append_assoc, List.drop_left' (length_toBytes 8 _), List.take_left' (length_toBytes 8 _)]
  rw [hcount, hdimension, ofBytes_toBytes (Nat.lt_of_le_of_lt hesti.count_le hmax),
    ofBytes_toBytes esti.dimension.toNat_lt, hesti.toNat_count, UInt64.ofNat_toNat] at hlength
  apply hstart.eq_of_length_le
  rw [List.length_append, List.length_append, length_toBytes, length_toBytes,
    hesti.length_samples]
  omega

/-- The estimator after any calls with vectors that are not empty is read back from its file, and
reading less than the file raises. -/
theorem load_save_after {calls : List AddTuple} (hcalls : ∀ call ∈ calls, call.vec.values ≠ []) :
    ∃ bytes, (after calls).save = some bytes ∧
      (∀ grants uninit, (∀ request, grants request = true) →
        load grants uninit (some bytes) = Except.ok (after calls)) ∧
      ∀ shorter, shorter <+: bytes → shorter ≠ bytes → ∀ grants uninit,
        ∃ message, load grants uninit (some shorter) = Except.error message := by
  have hesti := consistent_after hcalls
  refine ⟨_, hesti.save_eq, fun grants uninit hgrants => load_eq hgrants uninit hesti, ?_⟩
  intro shorter hstart hne grants uninit
  cases hload : load grants uninit (some shorter) with
  | error message => exact ⟨message, rfl⟩
  | ok other => exact absurd (hesti.eq_of_load hstart hload) hne

/-- A sample, a vector that was not picked and one of another length. -/
def threeCalls : List AddTuple :=
  [⟨⟨[1069547520, 3212836864], by decide⟩, true, true⟩, ⟨⟨[0, 1065353216], by decide⟩, false, true⟩,
    ⟨⟨[1065353216], by decide⟩, true, true⟩]

theorem load_save_threeCalls :
    (after threeCalls).sampledData = [[1069547520, 3212836864]] ∧
      ∃ bytes, (after threeCalls).save = some bytes ∧
        (∀ grants uninit, (∀ request, grants request = true) →
          load grants uninit (some bytes) = Except.ok (after threeCalls)) ∧
        ∀ shorter, shorter <+: bytes → shorter ≠ bytes → ∀ grants uninit,
          ∃ message, load grants uninit (some shorter) = Except.error message :=
  ⟨by decide, load_save_after (by decide)⟩

end RangeRSelEsti

end VBase.Planner
