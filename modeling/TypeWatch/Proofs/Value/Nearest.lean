import Mathlib
import TypeWatch.Value.Equality

/-! # Integers as floating-point numbers

An integer with less than 54 binary digits is itself a floating-point number, and no other integer is rounded to it
(`Value.eq_of_nearestFloat_beq`). From 2 ^ 53 on, integers that are next to each other may be rounded to the same
number. -/
namespace TypeWatch
set_option autoImplicit false

namespace Rounding
open Float.Model Float.Model.UnpackedFloat Float.Model.Format

/-! ## Normal numbers -/

/-- A mantissa with the leading bit in its place, and an exponent in the range of the format. -/
structure Normal (mantissa : Nat) (exponent : Int) : Prop where
  lower : 2 ^ 52 ≤ mantissa
  upper : mantissa < 2 ^ 53
  small : -1074 < exponent
  large : exponent < 971

variable {m : Nat} {e : Int}

theorem Normal.log2_eq (h : Normal m e) : m.log2 = 52 :=
  (Nat.log2_eq_iff (by have := h.lower; omega)).mpr ⟨h.lower, h.upper⟩

theorem Normal.targetExponent_eq (h : Normal m e) : binary64.targetExponent (totalExponent m e) = e := by
  have hsmall := h.small
  have hmin : binary64.minExponent = -1074 := rfl
  have hbits : binary64.mantissaBits = 53 := rfl
  rw [targetExponent, totalExponent, h.log2_eq, hmin, hbits]
  omega

/-- The bits of a normal number, and what they say. -/
theorem Normal.unpack_pack (h : Normal m e) (s : Sign) (hm : 0 < m) :
    unpack binary64 (pack binary64 (.finite s m e hm)) = .finite s m e hm := by
  obtain ⟨hlower, hupper, hsmall, hlarge⟩ := h
  have hbias : binary64.exponentBias = 1023 := rfl
  obtain ⟨b, hb⟩ : ∃ b : Nat, (b : Int) = e + 1075 := ⟨(e + 1075).toNat, Int.toNat_of_nonneg (by omega)⟩
  have hbiased : (e + (1023 : Nat) + (52 : Nat)).toNat = b := by omega
  have hexponent : (BitVec.ofNat 11 b).toNat = b := by
    rw [BitVec.toNat_ofNat, Nat.mod_eq_of_lt (by omega)]
  have hfirst : BitVec.ofNat 11 b ≠ 0#11 := by
    intro heq
    rw [heq, BitVec.toNat_ofNat] at hexponent
    omega
  have hlast : BitVec.ofNat 11 b ≠ -1#11 := by
    intro heq
    rw [heq] at hexponent
    have hmax : (-1#11).toNat = 2047 := rfl
    omega
  have hmantissa : (1#1 ++ BitVec.ofNat 52 m).toNat = m := by
    have hlow : (BitVec.ofNat 52 m).toNat = m % 2 ^ 52 := BitVec.toNat_ofNat m 52
    have hone : (1#1).toNat = 1 := rfl
    rw [BitVec.toNat_append, ← Nat.shiftLeft_add_eq_or_of_lt (BitVec.isLt _), hlow, hone, Nat.shiftLeft_eq]
    omega
  have hpack : pack binary64 (.finite s m e hm) =
      packComponents binary64 s (BitVec.ofNat 11 b) (BitVec.ofNat 52 m) := by
    rw [UnpackedFloat.pack]
    simp only [hbias, hbiased]
    rw [if_neg (by omega), if_pos]
    rw [(Normal.mk hlower hupper hsmall hlarge).log2_eq]
    rfl
  rw [hpack, UnpackedFloat.unpack]
  simp only [unpackMantissa_packComponents, unpackExponent_packComponents, unpackSign_packComponents,
    Sign.ofBitVec_toBitVec, hbias, hexponent, hmantissa, if_neg hfirst, if_neg hlast]
  congr 1
  omega

/-! ## Rounding -/

/-- Rounding in two steps: bits are taken away, and once more if rounding up has made one too many. -/
theorem roundWithAccuracy_eq {k : Nat} {e₀ e₁ : Int} {em₁ em : ExtendedMantissa} (s : Sign)
    (hfirst : shiftToTargetExponent binary64 k e₀ .exact = (em₁, e₁))
    (hsecond : shiftToTargetExponent binary64 em₁.roundedMantissa e₁ .exact = (em, e)) (hm : 0 < em.mantissa) :
    roundWithAccuracy binary64 s k e₀ .exact = .finite s em.mantissa e hm := by
  rw [roundWithAccuracy]
  simp only [hfirst, hsecond, dif_neg (Nat.ne_of_gt hm)]

theorem Normal.shift_eq (h : Normal m e) :
    shiftToTargetExponent binary64 m e .exact = (⟨m, false, false⟩, e) := by
  have hzero : (e - e).toNat = 0 := by omega
  rw [shiftToTargetExponent, h.targetExponent_eq, shiftToExponent, hzero]
  refine Prod.ext rfl ?_
  simp

/-- A normal number is rounded to itself. -/
theorem Normal.round_eq (h : Normal m e) (s : Sign) (hm : 0 < m) :
    roundWithAccuracy binary64 s m e .exact = .finite s m e hm :=
  roundWithAccuracy_eq s h.shift_eq h.shift_eq hm

theorem mantissa_shift (em : ExtendedMantissa) (n : Nat) : (em >>> n).mantissa = em.mantissa / 2 ^ n := by
  change (n.repeat ExtendedMantissa.shiftRightOne em).mantissa = _
  induction n with
  | zero => rw [Nat.pow_zero, Nat.div_one]; rfl
  | succ n ih =>
    rw [Nat.repeat, ExtendedMantissa.shiftRightOne, ih, Nat.div_div_eq_div_mul, Nat.pow_succ]

theorem roundedMantissa_bounds (em : ExtendedMantissa) :
    em.mantissa ≤ em.roundedMantissa ∧ em.roundedMantissa ≤ em.mantissa + 1 := by
  obtain ⟨m, round, sticky⟩ := em
  have hlast : m % 2 < 2 := Nat.mod_lt m (by decide)
  cases round <;> cases sticky <;>
    simp only [ExtendedMantissa.roundedMantissa, ExtendedMantissa.accuracy, Accuracy.roundToNearestEven] <;> omega

/-- A mantissa that is rounded up to the next power of two loses a bit, which is zero. -/
theorem shift_carry (hsmall : -1074 < e) :
    shiftToTargetExponent binary64 (2 ^ 53) e .exact = (⟨2 ^ 52, false, false⟩, e + 1) := by
  have hmin : binary64.minExponent = -1074 := rfl
  have hbits : binary64.mantissaBits = 53 := rfl
  have hlog : (2 ^ 53).log2 = 53 := Nat.log2_two_pow
  have htarget : binary64.targetExponent (totalExponent (2 ^ 53) e) = e + 1 := by
    rw [targetExponent, totalExponent, hlog, hmin, hbits]
    omega
  have hone : (e + 1 - e).toNat = 1 := by omega
  rw [shiftToTargetExponent, htarget, shiftToExponent, hone]
  rfl

/-- What the number that is nearest to a natural number has to do with it. -/
structure Nearest (k m : Nat) (e : Int) : Prop where
  normal : Normal m e
  exact : k < 2 ^ 53 → e ≤ 0 ∧ m = k * 2 ^ (-e).toNat
  inexact : 2 ^ 53 ≤ k → 1 ≤ e

theorem Nearest.eq {k k' : Nat} (h : Nearest k m e) (h' : Nearest k' m e) (hk : k < 2 ^ 53) : k = k' := by
  obtain ⟨hle, hm⟩ := h.exact hk
  have hk' : k' < 2 ^ 53 := by
    by_contra hlarge
    have hone := h'.inexact (Nat.le_of_not_lt hlarge)
    omega
  exact Nat.eq_of_mul_eq_mul_right (Nat.two_pow_pos (-e).toNat) (hm.symm.trans (h'.exact hk').2)

/-- The exponent for a natural number in which its leading bit comes to its place. -/
theorem targetExponent_nat {k : Nat} : binary64.targetExponent (totalExponent k 0) = (k.log2 : Int) - 52 := by
  have hmin : binary64.minExponent = -1074 := rfl
  have hbits : binary64.mantissaBits = 53 := rfl
  rw [targetExponent, totalExponent, hmin, hbits]
  omega

/-- A small number has zeros put behind it. -/
theorem round_exact (s : Sign) {k : Nat} (hpos : 0 < k) (hk : k < 2 ^ 53) :
    ∃ m e hm, round binary64 s k 0 = .finite s m e hm ∧ Nearest k m e := by
  have hne : k ≠ 0 := Nat.ne_of_gt hpos
  have hlog : k.log2 < 53 := (Nat.log2_lt hne).mpr hk
  obtain ⟨d, hd⟩ : ∃ d, k.log2 + d = 52 := ⟨52 - k.log2, by omega⟩
  have htarget : (k.log2 : Int) - 52 = -d := by omega
  have hamount : (0 - -(d : Int)).toNat = d := by omega
  have hlow : 2 ^ 52 ≤ k * 2 ^ d := by
    rw [← hd, Nat.pow_add]
    exact Nat.mul_le_mul_right _ (Nat.log2_self_le hne)
  have hhigh : k * 2 ^ d < 2 ^ 53 := by
    rw [show 53 = k.log2 + 1 + d by omega, Nat.pow_add]
    exact Nat.mul_lt_mul_of_pos_right Nat.lt_log2_self (Nat.two_pow_pos d)
  have hnormal : Normal (k * 2 ^ d) (-d) := ⟨hlow, hhigh, by omega, by omega⟩
  have hm : 0 < k * 2 ^ d := Nat.mul_pos hpos (Nat.two_pow_pos d)
  refine ⟨k * 2 ^ d, -d, hm, ?_, hnormal, fun _ => ⟨by omega, ?_⟩, fun hlarge => by omega⟩
  · rw [UnpackedFloat.round]
    simp only [targetExponent_nat, htarget, decreaseExponent, hamount, Nat.shiftLeft_eq]
    rw [Int.zero_sub]
    exact hnormal.round_eq s hm
  · rw [Int.neg_neg, Int.toNat_natCast]

/-- Of a large number the last bits are taken away, and what is left is rounded. -/
theorem round_large (s : Sign) {k : Nat} (hk : 2 ^ 53 ≤ k) (hmax : k ≤ 2 ^ 63) :
    ∃ m e hm, round binary64 s k 0 = .finite s m e hm ∧ Nearest k m e := by
  have hne : k ≠ 0 := by omega
  have hlog : 53 ≤ k.log2 := (Nat.le_log2 hne).mpr hk
  have hlog' : k.log2 < 64 := (Nat.log2_lt hne).mpr (by omega)
  obtain ⟨d, hd⟩ : ∃ d, k.log2 = d + 52 := ⟨k.log2 - 52, by omega⟩
  have htarget : (k.log2 : Int) - 52 = d := by omega
  have hkept : (0 - (d : Int)).toNat = 0 := by omega
  have hamount : ((d : Int) - 0).toNat = d := by omega
  obtain ⟨em, hem⟩ : ∃ em, em = ExtendedMantissa.ofMantissaAndAccuracy k .exact >>> d := ⟨_, rfl⟩
  have hmantissa : em.mantissa = k / 2 ^ d := hem ▸ mantissa_shift _ d
  have hlow : 2 ^ 52 ≤ em.mantissa := by
    rw [hmantissa, Nat.le_div_iff_mul_le (Nat.two_pow_pos d), ← Nat.pow_add, Nat.add_comm, ← hd]
    exact Nat.log2_self_le hne
  have hhigh : em.mantissa < 2 ^ 53 := by
    rw [hmantissa, Nat.div_lt_iff_lt_mul (Nat.two_pow_pos d), ← Nat.pow_add, show 53 + d = k.log2 + 1 by omega]
    exact Nat.lt_log2_self
  obtain ⟨hfloor, hceil⟩ := roundedMantissa_bounds em
  have hcut : shiftToTargetExponent binary64 k 0 .exact = (em, (d : Int)) := by
    rw [shiftToTargetExponent, targetExponent_nat, htarget, shiftToExponent, hamount, hem, Int.zero_add]
  have hround : round binary64 s k 0 = roundWithAccuracy binary64 s k 0 .exact := by
    rw [UnpackedFloat.round]
    simp only [targetExponent_nat, htarget, decreaseExponent, hkept, Nat.shiftLeft_zero]
    rfl
  rw [hround]
  rcases Nat.lt_or_ge em.roundedMantissa (2 ^ 53) with hfits | hcarry
  · -- the bits that are left are enough
    have hnormal : Normal em.roundedMantissa d := ⟨by omega, hfits, by omega, by omega⟩
    exact ⟨em.roundedMantissa, d, by omega, roundWithAccuracy_eq s hcut hnormal.shift_eq _, hnormal,
      fun hsmall => by omega, fun _ => by omega⟩
  · -- all of them are ones, and rounded up
    have hpower : em.roundedMantissa = 2 ^ 53 := by omega
    have hnormal : Normal (2 ^ 52) (d + 1) := ⟨by omega, by omega, by omega, by omega⟩
    have hsecond := shift_carry (e := d) (by omega)
    rw [← hpower] at hsecond
    exact ⟨2 ^ 52, d + 1, by decide, roundWithAccuracy_eq s hcut hsecond _, hnormal,
      fun hsmall => by omega, fun _ => by omega⟩

theorem round_nearest (s : Sign) {k : Nat} (hpos : 0 < k) (hmax : k ≤ 2 ^ 63) :
    ∃ m e hm, round binary64 s k 0 = .finite s m e hm ∧ Nearest k m e := by
  rcases Nat.lt_or_ge k (2 ^ 53) with hsmall | hlarge
  · exact round_exact s hpos hsmall
  · exact round_large s hlarge hmax

/-! ## Integers -/

/-- The sign and the amount of an integer that is not zero. -/
theorem ofInt_eq_round {n : Int} (hne : n ≠ 0) :
    ∃ s : Sign, n = s.apply n.natAbs ∧ UnpackedFloat.ofInt binary64 n = round binary64 s n.natAbs 0 := by
  rcases Int.lt_or_lt_of_ne hne with hneg | hpos
  · have hcompare : compare n 0 = .lt := Int.compare_eq_lt.mpr hneg
    have habs : (-n).toNat = n.natAbs := by omega
    refine ⟨.negative, ?_, ?_⟩
    · rw [Sign.apply]
      omega
    · simp only [UnpackedFloat.ofInt, UnpackedFloat.normalize, hcompare, habs]
  · have hcompare : compare n 0 = .gt := Int.compare_eq_gt.mpr hpos
    have habs : n.toNat = n.natAbs := by omega
    refine ⟨.positive, ?_, ?_⟩
    · rw [Sign.apply]
      omega
    · simp only [UnpackedFloat.ofInt, UnpackedFloat.normalize, hcompare, habs]

/-- The floating-point number that is nearest to an integer, in its parts. -/
def rounded (n : Int) : UnpackedFloat :=
  UnpackedFloat.unpack binary64 (UnpackedFloat.pack binary64 (UnpackedFloat.ofInt binary64 n))

theorem rounded_zero : rounded 0 = .zero .positive := unpack_packedZero

theorem rounded_eq {n : Int} (hne : n ≠ 0) (hmax : n.natAbs ≤ 2 ^ 63) :
    ∃ s m e hm, n = s.apply n.natAbs ∧ Nearest n.natAbs m e ∧ rounded n = .finite s m e hm := by
  obtain ⟨s, hsign, hround⟩ := ofInt_eq_round hne
  obtain ⟨m, e, hm, hfinite, hnearest⟩ := round_nearest s (Int.natAbs_pos.mpr hne) hmax
  refine ⟨s, m, e, hm, hsign, hnearest, ?_⟩
  rw [rounded, hround, hfinite, hnearest.normal.unpack_pack]

theorem rounded_beq_self {n : Int} (hmax : n.natAbs ≤ 2 ^ 63) : (rounded n).beq (rounded n) = true := by
  rw [beq_iff_ne_notANumber_and_eq]
  have hne : rounded n ≠ .notANumber := by
    rcases eq_or_ne n 0 with rfl | hne
    · simp [rounded_zero]
    · obtain ⟨s, m, e, hm, -, -, hround⟩ := rounded_eq hne hmax
      simp [hround]
  exact ⟨hne, hne, Or.inl rfl⟩

/-- No other integer is rounded to the number that a small integer is. -/
theorem eq_of_rounded_beq {a b : Int} (ha : a.natAbs < 2 ^ 53) (hb : b.natAbs ≤ 2 ^ 63)
    (h : (rounded a).beq (rounded b) = true) : a = b := by
  rw [beq_iff_ne_notANumber_and_eq] at h
  obtain ⟨-, -, h⟩ := h
  rcases eq_or_ne a 0 with rfl | hane
  · rcases eq_or_ne b 0 with rfl | hbne
    · rfl
    · obtain ⟨s, m, e, hm, -, -, hround⟩ := rounded_eq hbne hb
      simp [rounded_zero, hround] at h
  · obtain ⟨s, m, e, hm, hsign, hnearest, hround⟩ := rounded_eq hane (by omega)
    rcases eq_or_ne b 0 with rfl | hbne
    · simp [rounded_zero, hround] at h
    · obtain ⟨s', m', e', hm', hsign', hnearest', hround'⟩ := rounded_eq hbne hb
      simp only [hround, hround', reduceCtorEq, false_and, or_false, finite.injEq] at h
      obtain ⟨rfl, rfl, rfl⟩ := h
      rw [hsign, hsign', hnearest.eq hnearest' ha]

end Rounding

namespace Value

theorem natAbs_toInt_le (n : Int64) : n.toInt.natAbs ≤ 2 ^ 63 := by
  have hlow := n.le_toInt
  have hhigh := n.toInt_lt
  omega

theorem nearestFloat_beq_self (n : Int64) : (nearestFloat n == nearestFloat n) = true :=
  Rounding.rounded_beq_self (natAbs_toInt_le n)

/-- No other integer is rounded to the floating-point number that a small integer is. -/
theorem eq_of_nearestFloat_beq {a b : Int64} (ha : a.toInt.natAbs < 2 ^ 53)
    (h : (nearestFloat a == nearestFloat b) = true) : a = b :=
  Int64.toInt.inj (Rounding.eq_of_rounded_beq ha (natAbs_toInt_le b) h)

end Value
end TypeWatch
