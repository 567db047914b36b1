import Mathlib

set_option autoImplicit false

namespace Criteria.WordFloat

open Float.Model Float.Model.UnpackedFloat

theorem mantissa_shiftRight (em : ExtendedMantissa) (k : Nat) :
    (em >>> k).mantissa = em.mantissa / 2 ^ k := by
  change (k.repeat ExtendedMantissa.shiftRightOne em).mantissa = _
  induction k with
  | zero => simp [Nat.repeat]
  | succ k ih =>
    rw [Nat.repeat, ExtendedMantissa.shiftRightOne, ih, Nat.div_div_eq_div_mul, pow_succ]

theorem mantissa_ofMantissaAndAccuracy (m : Nat) (accuracy : Accuracy) :
    (ExtendedMantissa.ofMantissaAndAccuracy m accuracy).mantissa = m := by
  unfold ExtendedMantissa.ofMantissaAndAccuracy
  split <;> rfl

theorem mantissa_le_roundedMantissa (em : ExtendedMantissa) : em.mantissa ≤ em.roundedMantissa := by
  unfold ExtendedMantissa.roundedMantissa Accuracy.roundToNearestEven
  split <;> omega

/-- Only as many bits are dropped as the mantissa has too many. -/
theorem shiftToTargetExponent_bounds {m : Nat} {e : Int} (accuracy : Accuracy) (hm : 0 < m)
    (he : -1074 ≤ e) :
    let shifted := shiftToTargetExponent Format.binary64 m e accuracy
    0 < shifted.1.mantissa ∧ shifted.1.mantissa < 2 ^ 53 ∧ -1074 ≤ shifted.2 := by
  have hmin : Format.binary64.minExponent = -1074 := rfl
  have hbits : Format.binary64.mantissaBits = 53 := rfl
  have hshift : (Format.binary64.targetExponent (totalExponent m e) - e).toNat = m.log2 - 52 := by
    unfold Format.targetExponent totalExponent
    rw [hmin, hbits]
    omega
  simp only [shiftToTargetExponent, shiftToExponent, hshift, mantissa_shiftRight,
    mantissa_ofMantissaAndAccuracy]
  refine ⟨?_, ?_, by omega⟩
  · refine Nat.div_pos ?_ (by positivity)
    exact (Nat.pow_le_pow_right (by omega) (by omega)).trans (Nat.log2_self_le hm.ne')
  · rw [Nat.div_lt_iff_lt_mul (by positivity), ← pow_add]
    exact Nat.lt_log2_self.trans_le (Nat.pow_le_pow_right (by omega) (by omega))

theorem unpack_packComponents_ne_zero {sign : Sign} {exponent : BitVec 11} {mantissa : BitVec 52}
    (h : exponent ≠ 0#11 ∨ mantissa ≠ 0#52) (other : Sign) :
    UnpackedFloat.unpack Format.binary64 (packComponents Format.binary64 sign exponent mantissa) ≠
      .zero other := by
  unfold UnpackedFloat.unpack
  simp only [unpackMantissa_packComponents, unpackExponent_packComponents]
  split
  · split <;> nofun
  · split
    · rename_i hexponent
      rw [dif_neg (h.resolve_left (not_not_intro hexponent))]
      nofun
    · nofun

/-- A normal number has an exponent and a subnormal one a mantissa. -/
theorem unpack_pack_finite_ne_zero {m : Nat} {e : Int} (sign : Sign) (hm : 0 < m)
    (hlt : m < 2 ^ 53) (he : -1074 ≤ e) (other : Sign) :
    UnpackedFloat.unpack Format.binary64 (UnpackedFloat.pack Format.binary64 (.finite sign m e hm)) ≠
      .zero other := by
  have hbias : ((Format.binary64.exponentBias : Nat) : Int) = 1023 := rfl
  have hbits : Format.binary64.mantissaBits = 53 := rfl
  simp only [UnpackedFloat.pack, hbias, hbits]
  split
  · exact unpack_packComponents_ne_zero (.inl (by decide)) other
  · split
    · refine unpack_packComponents_ne_zero (.inl fun hexponent => ?_) other
      have hnat := congrArg BitVec.toNat hexponent
      rw [BitVec.toNat_ofNat, BitVec.toNat_ofNat] at hnat
      omega
    · rename_i hsubnormal
      have hbound := (Nat.log2_lt hm.ne').2 hlt
      have hfits : m < 2 ^ 52 := (Nat.log2_lt hm.ne').1 (by omega)
      refine unpack_packComponents_ne_zero (.inr fun hmantissa => ?_) other
      have hnat := congrArg BitVec.toNat hmantissa
      rw [BitVec.toNat_ofNat, BitVec.toNat_ofNat, Nat.mod_eq_of_lt hfits] at hnat
      omega

theorem unpack_pack_normalize_ne_zero {n : Nat} (hn : 0 < n) (other : Sign) :
    UnpackedFloat.unpack Format.binary64 (UnpackedFloat.pack Format.binary64
      (UnpackedFloat.normalize Format.binary64 n 0 .positive)) ≠ .zero other := by
  have hcompare : compare (n : Int) 0 = .gt := Int.compare_eq_gt.2 (by omega)
  have htarget : -1074 ≤ Format.binary64.targetExponent (totalExponent n 0) := le_max_right _ _
  simp only [UnpackedFloat.normalize, hcompare, UnpackedFloat.round, decreaseExponent,
    Int.toNat_natCast]
  generalize Format.binary64.targetExponent (totalExponent n 0) = target at htarget
  have hm : 0 < n <<< (0 - target).toNat := by
    rw [Nat.shiftLeft_eq]
    positivity
  have he : -1074 ≤ 0 - ((0 - target).toNat : Int) := by omega
  -- rounding may carry into one more bit, which is shifted out again
  obtain ⟨hfirst, -, hexponent⟩ := shiftToTargetExponent_bounds .exact hm he
  have hrounded := hfirst.trans_le (mantissa_le_roundedMantissa _)
  obtain ⟨hpos, hlt, hlast⟩ := shiftToTargetExponent_bounds .exact hrounded hexponent
  simp only [roundWithAccuracy]
  rw [dif_neg hpos.ne']
  exact unpack_pack_finite_ne_zero _ hpos hlt hlast other

theorem beq_zero_eq_false {f : UnpackedFloat} (h : ∀ sign, f ≠ .zero sign) (sign : Sign) :
    f.beq (.zero sign) = false := by
  cases f with
  | zero other => exact absurd rfl (h other)
  | infinity other => cases other <;> rfl
  | notANumber => rfl
  | finite other => cases other <;> rfl

theorem toFloat_beq_zero {n : Nat} (hpos : 0 < n) (hlt : n < 2 ^ 64) :
    ((UInt64.ofNat n).toFloat == 0.0) = false := by
  have hn : (UInt64.ofNat n).toNat = n := Nat.mod_eq_of_lt hlt
  have hzero : (0.0 : Float).toModel.unpack = .zero .positive := rfl
  change ((UInt64.ofNat n).toFloat.toModel.unpack).beq ((0.0 : Float).toModel.unpack) = false
  rw [hzero]
  exact beq_zero_eq_false (unpack_pack_normalize_ne_zero (hn.symm ▸ hpos)) .positive

end Criteria.WordFloat
