import Mathlib
import ScopeScript.Number.Binary64

/-!
# Doubles by sign and code

A double is **a sign and a code** (`ScopeScript.Binary64.ofCode_isNegative_code`). The format takes
its bits apart into a sign, an exponent and a mantissa, and what it makes of the three can be said
of the sign and the code (`ScopeScript.Binary64.unpack_bits`): the codes below that of infinity are
finite numbers, a significand scaled by a power of two. So whether a number is finite, whether it is
below zero, and what its change of sign is are told by sign and code as well.
-/

namespace ScopeScript.Binary64

open Float.Model (Format UnpackedFloat)
open Float.Model.UnpackedFloat (Sign unpackSign unpackExponent unpackMantissa)

variable {n : Nat} {negative : Bool} {x y : Float}

/-! ### Bits -/

/-- The **bits** of the number with the given sign and code. -/
def bits (negative : Bool) (n : Nat) : UInt64 :=
  UInt64.ofNat (if negative then signBit + n else n)

/-- The sign that a sign bit stands for. -/
def sign (negative : Bool) : Sign :=
  if negative then .negative else .positive

theorem toNat_bits (hn : n < signBit) :
    (bits negative n).toNat = if negative then signBit + n else n := by
  rw [bits, UInt64.toNat_ofNat_of_lt']
  unfold signBit at *
  rw [UInt64.size]
  split <;> omega

theorem code_lt_signBit (x : Float) : code x < signBit :=
  Nat.mod_lt _ (by decide)

theorem bits_isNegative_code (x : Float) : bits (isNegative x) (code x) = x.toBits := by
  rw [← UInt64.toNat_inj, toNat_bits (code_lt_signBit x), isNegative, code]
  have hlt := x.toBits.toNat_lt
  unfold signBit
  simp only [decide_eq_true_eq]
  split <;> omega

theorem code_of_toBits (h : x.toBits = bits negative n) (hn : n < signBit) :
    code x = n ∧ isNegative x = negative := by
  rw [code, isNegative, h, toNat_bits hn]
  cases negative
  · exact ⟨Nat.mod_eq_of_lt hn, decide_eq_false (Nat.not_le.mpr hn)⟩
  · exact ⟨by rw [if_pos rfl, Nat.add_mod_left, Nat.mod_eq_of_lt hn],
      decide_eq_true (Nat.le_add_right ..)⟩

/-! ### The three parts -/

theorem unpackSign_bits (hn : n < signBit) :
    Sign.ofBitVec (@unpackSign Format.binary64 (bits negative n).toBitVec) =
      sign negative := by
  have hbit : (@unpackSign Format.binary64 (bits negative n).toBitVec).toNat =
      if negative then 1 else 0 := by
    rw [Float.Model.UnpackedFloat.unpackSign_def, BitVec.extractLsb'_toNat,
      UInt64.toNat_toBitVec, toNat_bits hn, Nat.shiftRight_eq_div_pow]
    unfold signBit at *
    cases negative <;> simp <;> omega
  cases negative
  · rw [Sign.ofBitVec, if_pos (BitVec.eq_of_toNat_eq hbit)]
    rfl
  · rw [Sign.ofBitVec, if_neg fun hzero => by simp [hzero] at hbit]
    rfl

theorem toNat_unpackExponent_bits (negative : Bool) (hn : n < signBit) :
    (@unpackExponent Format.binary64 (bits negative n).toBitVec).toNat =
      n / binadeSize := by
  rw [Float.Model.UnpackedFloat.unpackExponent_def, BitVec.extractLsb'_toNat,
    UInt64.toNat_toBitVec, toNat_bits hn, Nat.shiftRight_eq_div_pow]
  unfold signBit at *
  unfold binadeSize
  cases negative <;> simp <;> omega

theorem toNat_unpackMantissa_bits (negative : Bool) (hn : n < signBit) :
    (@unpackMantissa Format.binary64 (bits negative n).toBitVec).toNat =
      n % binadeSize := by
  rw [Float.Model.UnpackedFloat.unpackMantissa_def, BitVec.extractLsb'_toNat,
    UInt64.toNat_toBitVec, toNat_bits hn, Nat.shiftRight_eq_div_pow]
  unfold signBit at *
  unfold binadeSize
  cases negative
  · simp
  · simp
    omega

/-- The last exponent is that of infinity and of **what is not a number**. -/
theorem unpackExponent_bits_eq_last (negative : Bool) (hn : n < signBit) :
    @unpackExponent Format.binary64 (bits negative n).toBitVec = -1#_ ↔
      infinityCode ≤ n := by
  rw [← BitVec.toNat_inj, toNat_unpackExponent_bits negative hn]
  unfold binadeSize infinityCode
  unfold signBit at hn
  simp
  omega

theorem unpackExponent_bits_eq_zero (negative : Bool) (hn : n < signBit) :
    @unpackExponent Format.binary64 (bits negative n).toBitVec = 0#_ ↔
      n < binadeSize := by
  rw [← BitVec.toNat_inj, toNat_unpackExponent_bits negative hn]
  unfold binadeSize
  simp

theorem unpackMantissa_bits_eq_zero (negative : Bool) (hn : n < signBit) :
    @unpackMantissa Format.binary64 (bits negative n).toBitVec = 0#_ ↔
      n % binadeSize = 0 := by
  rw [← BitVec.toNat_inj, toNat_unpackMantissa_bits negative hn]
  simp

/-! ### What the bits stand for -/

theorem significand_pos (h : n ≠ 0) : 0 < significand n := by
  unfold significand binadeSize
  split <;> omega

/-- **What a sign and a code stand for**: a significand and the power of two that scales it, or one
of the special values. -/
def unpacked (s : Sign) (n : Nat) : UnpackedFloat :=
  if infinityCode < n then .notANumber
  else if n = infinityCode then .infinity s
  else if h : n = 0 then .zero s
  else .finite s (significand n) (scale n - 1074) (significand_pos h)

/-- **The format takes the bits for what sign and code stand for.** -/
theorem unpack_bits (hn : n < signBit) :
    UnpackedFloat.unpack Format.binary64 (bits negative n).toBitVec =
      unpacked (sign negative) n := by
  have hexponent := toNat_unpackExponent_bits negative hn
  have hmantissa := toNat_unpackMantissa_bits negative hn
  have hlast := unpackExponent_bits_eq_last negative hn
  have hfirst := unpackExponent_bits_eq_zero negative hn
  have hwhole := unpackMantissa_bits_eq_zero negative hn
  have hbias : (Format.binary64.exponentBias : Int) = 1023 := rfl
  unfold UnpackedFloat.unpack unpacked
  simp only [unpackSign_bits hn]
  by_cases hinfinite : infinityCode ≤ n
  · rw [if_pos (hlast.mpr hinfinite)]
    by_cases heq : n = infinityCode
    · have hmod : n % binadeSize = 0 := by
        subst heq
        decide
      rw [if_pos (hwhole.mpr hmod), if_neg heq.not_gt, if_pos heq]
    · have hmod : ¬ n % binadeSize = 0 := by
        unfold signBit infinityCode binadeSize at *
        omega
      rw [if_neg (mt hwhole.mp hmod), if_pos (lt_of_le_of_ne hinfinite (Ne.symm heq))]
  · have hlt := not_le.mp hinfinite
    rw [if_neg (mt hlast.mp hinfinite), if_neg hlt.not_gt, if_neg hlt.ne]
    by_cases hsub : n < binadeSize
    · rw [if_pos (hfirst.mpr hsub)]
      have hmod : n % binadeSize = n := Nat.mod_eq_of_lt hsub
      by_cases hzero : n = 0
      · rw [dif_pos (hwhole.mpr (hmod.trans hzero)), dif_pos hzero]
      · rw [dif_neg fun h => hzero (hmod.symm.trans (hwhole.mp h)), dif_neg hzero]
        congr 1
        · rw [hmantissa, significand, if_pos hsub, hmod]
        · rw [hexponent, scale, Nat.div_eq_of_lt hsub, hbias]
          rfl
    · have hzero : ¬ n = 0 := by
        rintro rfl
        exact hsub (by decide)
      rw [if_neg (mt hfirst.mp hsub), dif_neg hzero]
      congr 1
      · rw [BitVec.toNat_append, hmantissa, significand, if_neg hsub]
        exact (Nat.shiftLeft_add_eq_or_of_lt (Nat.mod_lt _ (by decide)) 1).symm
      · rw [hexponent, scale, hbias]
        unfold binadeSize at *
        push_cast
        omega

theorem unpack_toModel (x : Float) :
    x.toModel.unpack = unpacked (sign (isNegative x)) (code x) := by
  rw [← unpack_bits (code_lt_signBit x), bits_isNegative_code]
  rfl

/-! ### Numbers -/

/-- The number with the given sign and code **has its bits**, if it is one. -/
theorem toBits_ofCode (hn : n ≤ infinityCode) : (ofCode negative n).toBits = bits negative n := by
  have hsign : n < signBit := Nat.lt_of_le_of_lt hn (by decide)
  have hvalid : Format.binary64.Valid (bits negative n).toBitVec := by
    refine ⟨fun hlast hmantissa => ?_⟩
    have heq : n = infinityCode := le_antisymm hn ((unpackExponent_bits_eq_last negative hsign).mp hlast)
    refine absurd ((unpackMantissa_bits_eq_zero negative hsign).mpr ?_) hmantissa
    subst heq
    decide
  exact congrArg UInt64.ofBitVec (UnpackedFloat.pack_unpack_of_valid hvalid)

theorem code_ofCode (hn : n ≤ infinityCode) : code (ofCode negative n) = n :=
  (code_of_toBits (toBits_ofCode hn) (Nat.lt_of_le_of_lt hn (by decide))).1

theorem isNegative_ofCode (hn : n ≤ infinityCode) : isNegative (ofCode negative n) = negative :=
  (code_of_toBits (toBits_ofCode hn) (Nat.lt_of_le_of_lt hn (by decide))).2

/-- **A number is its sign and its code.** -/
theorem ofCode_isNegative_code (x : Float) : ofCode (isNegative x) (code x) = x := by
  have hbits := congrArg Float.ofBits (bits_isNegative_code x)
  rwa [Float.ofBits_toBits] at hbits

theorem isFinite_iff : x.isFinite ↔ code x < infinityCode := by
  rw [Float.isFinite, Float.Model.isFinite, unpack_toModel, unpacked]
  split
  · next h => simp [UnpackedFloat.isFinite, h.le]
  split
  · next h => simp [UnpackedFloat.isFinite, h]
  have hlt : code x < infinityCode := by omega
  split <;> simp [UnpackedFloat.isFinite, hlt]

theorem neg_unpacked (negative : Bool) (n : Nat) :
    (unpacked (sign negative) n).neg = unpacked (sign !negative) n := by
  have hsign : -sign negative = sign !negative := by cases negative <;> rfl
  unfold unpacked
  split
  · rfl
  split
  · exact congrArg UnpackedFloat.infinity hsign
  split
  · exact congrArg UnpackedFloat.zero hsign
  · rw [UnpackedFloat.neg, hsign]

/-- **Change of sign** keeps the code. -/
theorem neg_ofCode (hn : n ≤ infinityCode) : -ofCode negative n = ofCode (!negative) n := by
  have hsign : n < signBit := Nat.lt_of_le_of_lt hn (by decide)
  have hunpack : (ofCode negative n).toModel.unpack.neg =
      UnpackedFloat.unpack Format.binary64 (bits (!negative) n).toBitVec := by
    rw [unpack_toModel, code_ofCode hn, isNegative_ofCode hn, neg_unpacked, unpack_bits hsign]
  exact congrArg (Float.ofModel ∘ Float.Model.pack) hunpack

theorem zero_eq_ofCode : (0 : Float) = ofCode false 0 := by
  decide

/-- A finite number is **below zero** if its sign bit is set and it is no zero. -/
theorem lt_zero_iff (hx : x.isFinite) : x < 0 ↔ isNegative x = true ∧ code x ≠ 0 := by
  have hlt : x < 0 ↔ (unpacked (sign (isNegative x)) (code x)).lt (.zero .positive) := by
    have hzero : (0 : Float).toModel.unpack = .zero .positive := by
      rw [zero_eq_ofCode, unpack_toModel, code_ofCode (Nat.zero_le _),
        isNegative_ofCode (Nat.zero_le _)]
      rfl
    rw [← hzero, ← unpack_toModel]
    exact decide_eq_true_iff (p := x.toModel.unpack.lt (0 : Float).toModel.unpack = true)
  have hcode := isFinite_iff.mp hx
  rw [hlt, unpacked, if_neg hcode.not_gt, if_neg hcode.ne]
  split
  · next hzero => simp [hzero, UnpackedFloat.lt, UnpackedFloat.compare]
  · next hzero =>
    cases isNegative x <;> simp [hzero, sign, UnpackedFloat.lt, UnpackedFloat.compare]

/-- A finite number is **equal to itself**. -/
theorem beq_self (hx : x.isFinite) : (x == x) = true := by
  rw [Float.beq_self_iff]
  rintro rfl
  revert hx
  decide

end ScopeScript.Binary64
