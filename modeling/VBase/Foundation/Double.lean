import Mathlib

/-! # Counting with a double

A double holds every natural number below `2 ^ 53`, and adding one to such a number is
not rounded. The proofs follow a number through the model of `Float`: it is shifted to
a mantissa of 53 bits, packed, unpacked again, and added at the smaller exponent.
-/

namespace Double

open Float.Model Float.Model.UnpackedFloat

/-- A natural number as a double. -/
def ofCount (count : Nat) : Float := Float.ofModel (Float.Model.ofNat count)

/-- A double as a 64-bit size. It is truncated, and a number outside of the range gives some
number that depends on the machine. -/
def toSize (undefined : Float → Nat) (number : Float) : Nat :=
  if -1 < number ∧ number < 18446744073709551616 then number.toUInt64.toNat else undefined number

theorem ofCount_zero : ofCount 0 = 0 := by rfl

theorem ofCount_one : ofCount 1 = 1 := by rfl

/-! ## Shifting without loss -/

theorem shiftRight_mul_pow (mantissa shift : Nat) :
    (ExtendedMantissa.mk (mantissa * 2 ^ shift) false false) >>> shift =
      ExtendedMantissa.mk mantissa false false := by
  induction shift generalizing mantissa with
  | zero => simp [HShiftRight.hShiftRight, Nat.repeat]
  | succ shift ih =>
      have hpow : mantissa * 2 ^ (shift + 1) = mantissa * 2 * 2 ^ shift := by ring
      calc (ExtendedMantissa.mk (mantissa * 2 ^ (shift + 1)) false false) >>> (shift + 1)
          = ((ExtendedMantissa.mk (mantissa * 2 * 2 ^ shift) false false) >>>
              shift).shiftRightOne := by rw [hpow]; rfl
        _ = (ExtendedMantissa.mk (mantissa * 2) false false).shiftRightOne := by rw [ih]
        _ = ExtendedMantissa.mk mantissa false false := by
            simp [ExtendedMantissa.shiftRightOne]

theorem log2_mul_pow {mantissa : Nat} (hpos : 0 < mantissa) (shift : Nat) :
    (mantissa * 2 ^ shift).log2 = mantissa.log2 + shift := by
  induction shift with
  | zero => simp
  | succ shift ih =>
      have hne : mantissa * 2 ^ shift ≠ 0 := by positivity
      rw [pow_succ', ← mul_left_comm, Nat.log2_two_mul hne, ih, Nat.add_assoc]

theorem pos_of_log2 {mantissa : Nat} (hbits : mantissa.log2 = 52) : 0 < mantissa := by
  apply Nat.pos_of_ne_zero
  rintro rfl
  simp at hbits

theorem targetExponent_of_bits {mantissa : Nat} {exponent : Int} {extra : Nat}
    (hbits : mantissa.log2 = 52 + extra) (hmin : -1074 ≤ exponent + extra) :
    Format.binary64.targetExponent (totalExponent mantissa exponent) = exponent + extra := by
  have hformat : Format.binary64.minExponent = -1074 := rfl
  rw [Format.targetExponent, totalExponent, hformat, hbits]
  change max (((52 + extra : Nat) : Int) + 1 + exponent - 53) (-1074) = exponent + extra
  omega

/-- A number of 53 bits followed by zeros is shifted to its 53 bits. -/
theorem shiftToTargetExponent_exact {mantissa : Nat} (exponent : Int) (extra : Nat)
    (hbits : mantissa.log2 = 52) (hmin : -1074 ≤ exponent + extra) :
    shiftToTargetExponent Format.binary64 (mantissa * 2 ^ extra) exponent Accuracy.exact =
      (ExtendedMantissa.mk mantissa false false, exponent + extra) := by
  have hlog : (mantissa * 2 ^ extra).log2 = 52 + extra := by
    rw [log2_mul_pow (pos_of_log2 hbits), hbits]
  have hshift : (exponent + extra - exponent).toNat = extra := by omega
  rw [shiftToTargetExponent, targetExponent_of_bits hlog hmin]
  simp only [shiftToExponent, ExtendedMantissa.ofMantissaAndAccuracy, hshift,
    shiftRight_mul_pow]

/-- Such a number is not rounded. -/
theorem roundWithAccuracy_exact {mantissa : Nat} (exponent : Int) (extra : Nat)
    (hbits : mantissa.log2 = 52) (hmin : -1074 ≤ exponent + extra) :
    roundWithAccuracy Format.binary64 Sign.positive (mantissa * 2 ^ extra) exponent
        Accuracy.exact =
      finite Sign.positive mantissa (exponent + extra) (pos_of_log2 hbits) := by
  have hagain := shiftToTargetExponent_exact (exponent + extra) 0 hbits (by simpa)
  simp only [pow_zero, mul_one, Nat.cast_zero, add_zero] at hagain
  rw [roundWithAccuracy, shiftToTargetExponent_exact exponent extra hbits hmin]
  have hrounded : (ExtendedMantissa.mk mantissa false false).roundedMantissa = mantissa := rfl
  simp only [hrounded, hagain, (pos_of_log2 hbits).ne', dite_false]

/-- More than 53 bits, where the last ones are zeros. -/
theorem round_long {mantissa : Nat} {exponent : Int} (extra : Nat)
    (hbits : mantissa.log2 = 52) (hmin : -1074 ≤ exponent + extra) :
    UnpackedFloat.round Format.binary64 Sign.positive (mantissa * 2 ^ extra) exponent =
      finite Sign.positive mantissa (exponent + extra) (pos_of_log2 hbits) := by
  have hlog : (mantissa * 2 ^ extra).log2 = 52 + extra := by
    rw [log2_mul_pow (pos_of_log2 hbits), hbits]
  have hshift : (exponent - (exponent + extra)).toNat = 0 := by omega
  rw [UnpackedFloat.round, targetExponent_of_bits hlog hmin]
  simp only [decreaseExponent, hshift, Nat.shiftLeft_zero, Nat.cast_zero, sub_zero]
  exact roundWithAccuracy_exact exponent extra hbits hmin

/-- At most 53 bits. -/
theorem round_short {mantissa missing : Nat} (exponent : Int)
    (hbits : mantissa.log2 + missing = 52) (hpos : 0 < mantissa)
    (hmin : -1074 ≤ exponent - missing) :
    UnpackedFloat.round Format.binary64 Sign.positive mantissa exponent =
      finite Sign.positive (mantissa * 2 ^ missing) (exponent - missing) (by positivity) := by
  have hlog : (mantissa * 2 ^ missing).log2 = 52 := by rw [log2_mul_pow hpos, hbits]
  have htarget : Format.binary64.targetExponent (totalExponent mantissa exponent) =
      exponent - missing := by
    have hformat : Format.binary64.minExponent = -1074 := rfl
    rw [Format.targetExponent, totalExponent, hformat]
    change max ((mantissa.log2 : Int) + 1 + exponent - 53) (-1074) = exponent - missing
    omega
  have hshift : (exponent - (exponent - missing)).toNat = missing := by omega
  rw [UnpackedFloat.round, htarget]
  simp only [decreaseExponent, hshift, Nat.shiftLeft_eq]
  have hround := roundWithAccuracy_exact (exponent - missing) 0 hlog (by omega)
  simpa using hround

/-! ## Packing -/

theorem unpackSign_packComponents {spec : Format} (sign : Sign)
    (exponent : BitVec spec.exponentBits) (mantissa : BitVec spec.mantissaBitsWithoutImplicit) :
    unpackSign (packComponents spec sign exponent mantissa) = sign.toBitVec := by
  ext i hi
  have hzero : i = 0 := by omega
  subst hzero
  simp [unpackSign, packComponents, BitVec.getLsbD_append, BitVec.getElem_append]

theorem unpack_pack (sign : Sign) {mantissa : Nat} {exponent : Int} (hbits : mantissa.log2 = 52)
    (hmin : -1074 ≤ exponent) (hmax : exponent ≤ 971) :
    (Float.Model.pack (finite sign mantissa exponent (pos_of_log2 hbits))).unpack =
      finite sign mantissa exponent (pos_of_log2 hbits) := by
  have hlow : 2 ^ 52 ≤ mantissa := by
    rw [← hbits]
    exact Nat.log2_self_le (pos_of_log2 hbits).ne'
  have hhigh : mantissa < 2 ^ 53 := by
    have hlt := Nat.lt_log2_self (n := mantissa)
    rwa [hbits] at hlt
  -- the packed exponent is that of a normal number
  have hbias : (exponent + Format.binary64.exponentBias +
      Format.binary64.mantissaBitsWithoutImplicit).toNat = (exponent + 1075).toNat := by
    change (exponent + ((1023 : Nat) : Int) + ((52 : Nat) : Int)).toNat = _
    congr 1
    omega
  generalize hbiased : (exponent + 1075).toNat = biased at hbias
  have hrange : 0 < biased ∧ biased < 2047 := by omega
  have hpack : UnpackedFloat.pack Format.binary64
      (finite sign mantissa exponent (pos_of_log2 hbits)) =
        packComponents Format.binary64 sign (BitVec.ofNat 11 biased)
          (BitVec.ofNat 52 mantissa) := by
    simp only [UnpackedFloat.pack, hbias]
    rw [if_neg (by omega), if_pos (by rw [hbits]; rfl)]
  change UnpackedFloat.unpack Format.binary64 (UnpackedFloat.pack Format.binary64
    (finite sign mantissa exponent (pos_of_log2 hbits))) = _
  rw [hpack, UnpackedFloat.unpack]
  simp only [unpackMantissa_packComponents, unpackExponent_packComponents,
    unpackSign_packComponents]
  have hones : BitVec.ofNat 11 biased ≠ -1#11 := by
    intro heq
    have hnat := congrArg BitVec.toNat heq
    simp at hnat
    omega
  have hzeros : BitVec.ofNat 11 biased ≠ 0#11 := by
    intro heq
    have hnat := congrArg BitVec.toNat heq
    simp at hnat
    omega
  have hmantissa : (1#1 ++ BitVec.ofNat 52 mantissa).toNat = mantissa := by
    rw [BitVec.toNat_append, ← Nat.shiftLeft_add_eq_or_of_lt (BitVec.isLt _),
      BitVec.toNat_ofNat, BitVec.toNat_ofNat, Nat.shiftLeft_eq]
    omega
  have hexponent : ((BitVec.ofNat 11 biased).toNat : Int) -
      (Format.binary64.exponentBias + Format.binary64.mantissaBitsWithoutImplicit) = exponent := by
    change ((BitVec.ofNat 11 biased).toNat : Int) - (((1023 : Nat) : Int) + ((52 : Nat) : Int)) = _
    rw [BitVec.toNat_ofNat, Nat.mod_eq_of_lt (by omega)]
    omega
  rw [if_neg hones, if_neg hzeros]
  simp only [hmantissa, hexponent]
  cases sign <;> rfl

/-! ## The numbers that a count goes through -/

theorem normalize_pos {mantissa : Nat} (hpos : 0 < mantissa) (exponent : Int) :
    UnpackedFloat.normalize Format.binary64 mantissa exponent Sign.positive =
      UnpackedFloat.round Format.binary64 Sign.positive mantissa exponent := by
  have hcompare : compare (mantissa : Int) 0 = Ordering.gt := by
    apply Std.compare_eq_gt.mpr
    exact_mod_cast hpos
  simp only [UnpackedFloat.normalize, hcompare, Int.toNat_natCast]

/-- The mantissa of a count: its leading bit takes the place of the implicit one. -/
def mantissaOf (count : Nat) : Nat := count * 2 ^ (52 - count.log2)

section Count

variable {count : Nat} (hpos : 0 < count) (hcount : count < 2 ^ 53)

include hpos hcount

theorem log2_le : count.log2 ≤ 52 := by
  have hlt := (Nat.log2_lt hpos.ne').mpr hcount
  omega

theorem log2_mantissaOf : (mantissaOf count).log2 = 52 := by
  have hle := log2_le hpos hcount
  rw [mantissaOf, log2_mul_pow hpos]
  omega

theorem ofNat_eq : UnpackedFloat.ofNat Format.binary64 count =
    finite Sign.positive (mantissaOf count) (count.log2 - 52)
      (pos_of_log2 (log2_mantissaOf hpos hcount)) := by
  have hle := log2_le hpos hcount
  have hbits : count.log2 + (52 - count.log2) = 52 := by omega
  have hround := round_short 0 hbits hpos (by omega)
  rw [UnpackedFloat.ofNat, UnpackedFloat.ofInt, normalize_pos hpos, hround]
  congr 1
  omega

theorem unpack_ofCount : (ofCount count).toModel.unpack =
    finite Sign.positive (mantissaOf count) (count.log2 - 52)
      (pos_of_log2 (log2_mantissaOf hpos hcount)) := by
  have hle := log2_le hpos hcount
  rw [ofCount, Float.Model.ofNat, ofNat_eq hpos hcount]
  exact unpack_pack Sign.positive (log2_mantissaOf hpos hcount) (by omega) (by omega)

/-- A count brought to the exponent of one. -/
theorem decreaseExponent_mantissaOf :
    decreaseExponent (mantissaOf count) (count.log2 - 52) (-52) = (count * 2 ^ 52, -52) := by
  have hle := log2_le hpos hcount
  have hshift : ((count.log2 : Int) - 52 - -52).toNat = count.log2 := by omega
  have hpow : mantissaOf count * 2 ^ count.log2 = count * 2 ^ 52 := by
    rw [mantissaOf, Nat.mul_assoc, ← pow_add, Nat.sub_add_cancel hle]
  rw [decreaseExponent]
  simp only [hshift, Nat.shiftLeft_eq, hpow, Prod.mk.injEq, true_and]
  omega

end Count

/-- Adding one to a count is exact. -/
theorem ofCount_add_one {count : Nat} (hcount : count + 1 < 2 ^ 53) :
    ofCount count + 1 = ofCount (count + 1) := by
  rcases Nat.eq_zero_or_pos count with rfl | hpos
  · rfl
  · have hlt : count < 2 ^ 53 := by omega
    have hle := log2_le (Nat.succ_pos count) hcount
    have hsmaller : min ((count.log2 : Int) - 52) ((Nat.log2 1 : Int) - 52) = -52 := by
      rw [show Nat.log2 1 = 0 from rfl]
      omega
    have hbits := log2_mantissaOf (Nat.succ_pos count) hcount
    have hsum : ((count * 2 ^ 52 : Nat) : Int) + ((1 * 2 ^ 52 : Nat) : Int) =
        ((mantissaOf (count + 1) * 2 ^ (count + 1).log2 : Nat) : Int) := by
      rw [mantissaOf, Nat.mul_assoc, ← pow_add, Nat.sub_add_cancel hle]
      push_cast
      ring
    rw [← ofCount_one]
    change Float.ofModel (Float.Model.pack (UnpackedFloat.add Format.binary64
      (ofCount count).toModel.unpack (ofCount 1).toModel.unpack)) = _
    rw [unpack_ofCount hpos hlt, unpack_ofCount Nat.one_pos (by decide), UnpackedFloat.add,
      ofCount, Float.Model.ofNat, ofNat_eq (Nat.succ_pos count) hcount]
    simp only [hsmaller, decreaseExponent_mantissaOf hpos hlt,
      decreaseExponent_mantissaOf Nat.one_pos (by decide : 1 < 2 ^ 53), Sign.apply]
    have hpos' : 0 < mantissaOf (count + 1) * 2 ^ (count + 1).log2 :=
      Nat.mul_pos (pos_of_log2 hbits) (by positivity)
    rw [hsum, normalize_pos hpos', round_long _ hbits (by omega)]
    congr 3

/-- A count is converted back exactly. -/
theorem toUInt64_ofCount {count : Nat} (hcount : count < 2 ^ 53) :
    (ofCount count).toUInt64.toNat = count := by
  rcases Nat.eq_zero_or_pos count with rfl | hpos
  · rfl
  · have hle := log2_le hpos hcount
    have hstay : ((count.log2 : Int) - 52).toNat = 0 := by omega
    have hshift : (0 - ((count.log2 : Int) - 52)).toNat = 52 - count.log2 := by omega
    have hint : roundToInt Sign.positive (mantissaOf count) (count.log2 - 52) = count := by
      simp only [roundToInt, decreaseExponent, hstay, Nat.shiftLeft_zero, Nat.cast_zero, sub_zero,
        shiftToExponent, ExtendedMantissa.ofMantissaAndAccuracy, hshift, mantissaOf,
        shiftRight_mul_pow, Sign.apply]
    change (UInt64.ofNatClamp
      ((ofCount count).toModel.unpack.toInt 0 (UInt64.size - 1)).toNat).toNat = count
    rw [unpack_ofCount hpos hcount, UnpackedFloat.toInt, hint, Int.toNat_natCast,
      UInt64.ofNatClamp, dif_pos (by change count < 2 ^ 64; omega)]
    rfl

/-! ## Counting up -/

theorem ofCount_beq_self {count : Nat} (hcount : count < 2 ^ 53) :
    (ofCount count == ofCount count) = true := by
  rcases Nat.eq_zero_or_pos count with rfl | hpos
  · rfl
  · change ((ofCount count).toModel.unpack.compare (ofCount count).toModel.unpack ==
      some Ordering.eq) = true
    rw [unpack_ofCount hpos hcount, UnpackedFloat.compare]
    simp

/-- The doubles that equal zero are the two zeros. -/
theorem unpack_of_beq_zero {number : Float} (hzero : (number == 0) = true) :
    ∃ sign, number.toModel.unpack = zero sign := by
  have hunpack : (0 : Float).toModel.unpack = zero Sign.positive := by
    rw [← ofCount_zero]
    rfl
  change (number.toModel.unpack.compare (0 : Float).toModel.unpack == some Ordering.eq) = true
    at hzero
  rw [hunpack] at hzero
  cases hnumber : number.toModel.unpack with
  | zero sign => exact ⟨sign, rfl⟩
  | notANumber => simp [hnumber, UnpackedFloat.compare] at hzero
  | infinity sign => cases sign <;> simp [hnumber, UnpackedFloat.compare] at hzero
  | finite sign mantissa exponent hpos =>
      cases sign <;> simp [hnumber, UnpackedFloat.compare] at hzero

theorem add_one_of_zero {number : Float} {sign : Sign}
    (hzero : number.toModel.unpack = zero sign) : number + 1 = 1 := by
  have hone : (1 : Nat) < 2 ^ 53 := by decide
  rw [← ofCount_one]
  change Float.ofModel (Float.Model.pack (UnpackedFloat.add Format.binary64
    number.toModel.unpack (ofCount 1).toModel.unpack)) = _
  rw [hzero, unpack_ofCount Nat.one_pos hone, ofCount, Float.Model.ofNat,
    ofNat_eq Nat.one_pos hone]
  rfl

theorem unpack_neg_one : (-1 : Float).toModel.unpack =
    finite Sign.negative (2 ^ 52) (-52) (by positivity) := by
  have hpack : (-1 : Float) = Float.ofModel (Float.Model.pack
      (finite Sign.negative (2 ^ 52) (-52) (by positivity))) := by rfl
  rw [hpack]
  exact unpack_pack Sign.negative Nat.log2_two_pow (by decide) (by decide)

theorem unpack_size : (18446744073709551616 : Float).toModel.unpack =
    finite Sign.positive (2 ^ 52) 12 (by positivity) := by
  have hpack : (18446744073709551616 : Float) = Float.ofModel (Float.Model.pack
      (finite Sign.positive (2 ^ 52) 12 (by positivity))) := by rfl
  rw [hpack]
  exact unpack_pack Sign.positive Nat.log2_two_pow (by decide) (by decide)

theorem lt_of_compare {first second : Float}
    (hcompare : first.toModel.unpack.compare second.toModel.unpack = some Ordering.lt) :
    first < second := by
  have hmodel : first.toModel < second.toModel := by
    change (first.toModel.unpack.compare second.toModel.unpack == some Ordering.lt) = true
    rw [hcompare]
    rfl
  exact decide_eq_true hmodel

theorem toSize_of_zero {number : Float} {sign : Sign} (undefined : Float → Nat)
    (hzero : number.toModel.unpack = zero sign) : toSize undefined number = 0 := by
  have hlow : -1 < number := lt_of_compare (by rw [unpack_neg_one, hzero]; rfl)
  have hhigh : number < 18446744073709551616 := lt_of_compare (by rw [unpack_size, hzero]; rfl)
  rw [toSize, if_pos ⟨hlow, hhigh⟩]
  change (UInt64.ofNatClamp (number.toModel.unpack.toInt 0 (UInt64.size - 1)).toNat).toNat = 0
  rw [hzero]
  rfl

theorem toSize_ofCount {count : Nat} (hpos : 0 < count) (hcount : count < 2 ^ 53)
    (undefined : Float → Nat) : toSize undefined (ofCount count) = count := by
  have hle := log2_le hpos hcount
  have hlow : -1 < ofCount count := by
    apply lt_of_compare
    rw [unpack_neg_one, unpack_ofCount hpos hcount]
    rfl
  have hhigh : ofCount count < 18446744073709551616 := by
    apply lt_of_compare
    have hexponent : compare ((count.log2 : Int) - 52) 12 = Ordering.lt :=
      Std.compare_eq_lt.mpr (by omega)
    rw [unpack_size, unpack_ofCount hpos hcount, UnpackedFloat.compare, hexponent]
    rfl
  rw [toSize, if_pos ⟨hlow, hhigh⟩, toUInt64_ofCount hcount]

/-- A double that starts at zero and is incremented holds the number of increments. -/
theorem iterate_add_one {number : Float} (hzero : (number == 0) = true) {count : Nat}
    (hcount : count < 2 ^ 53) (undefined : Float → Nat) :
    ((fun counted => counted + 1)^[count] number == ofCount count) = true ∧
      toSize undefined ((fun counted => counted + 1)^[count] number) = count := by
  obtain ⟨sign, hunpack⟩ := unpack_of_beq_zero hzero
  cases count with
  | zero =>
      rw [ofCount_zero]
      exact ⟨hzero, toSize_of_zero undefined hunpack⟩
  | succ count =>
      have hcounted : (fun counted => counted + 1)^[count + 1] number = ofCount (count + 1) := by
        clear hzero
        induction count with
        | zero => rw [Function.iterate_one, add_one_of_zero hunpack, ofCount_one]
        | succ count ih =>
            rw [Function.iterate_succ_apply', ih (by omega), ofCount_add_one (by omega)]
      rw [hcounted]
      exact ⟨ofCount_beq_self hcount, toSize_ofCount (Nat.succ_pos count) hcount undefined⟩

end Double
