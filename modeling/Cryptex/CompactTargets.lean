import Cryptex.Lib.LeadingDigits
import Cryptex.Types
import Mathlib.Data.Nat.Bitwise

/-!
# Compact targets

`from_target` keeps the leading bytes of a target: as many as fit three bytes
whose first bit stays clear. The exponent is the length of the target in this
format, so that the bits are those of exponent and mantissa side by side.
-/

namespace Cryptex

open LeadingDigits

/-! ## Bytes -/

theorem numBytes_le_iff {x n : Nat} : numBytes x ≤ n ↔ x < 256 ^ n := by
  have hpow : (256 : Nat) ^ n = 2 ^ (8 * n) := Nat.pow_mul 2 8 n |>.symm
  rw [hpow, numBytes]
  split
  · next hzero => exact iff_of_true (Nat.zero_le _) (hzero ▸ Nat.two_pow_pos _)
  · next hne =>
      rw [← Nat.log2_lt hne, Nat.succ_le_iff, Nat.div_lt_iff_lt_mul (by decide), Nat.mul_comm]

namespace CompactTarget

/-- The exponent that `from_target` gives a target. -/
def exponentOf (target : Nat) : Nat := length 256 2 target

/-- The mantissa that it gives the target. -/
def mantissaOf (target : Nat) : Nat := leading 256 3 (exponentOf target) target

theorem mantissaOf_lt (target : Nat) : mantissaOf target < 2 ^ 23 := by
  have h : 2 * mantissaOf target < 256 ^ 3 := mul_leading_lt (by decide) target
  omega

/-- A target of the width of a hash has at most one byte more in this format. -/
theorem exponentOf_le {target : Nat} (h : target < 2 ^ 512) : exponentOf target ≤ 65 := by
  refine (length_le_iff (by decide)).mpr ?_
  omega

theorem leadingBytes_eq (target : Nat) :
    leadingBytes target = leading 256 3 (numBytes target) target := by
  rw [leadingBytes]
  split
  · next hle =>
      rw [leading_of_le (by decide) hle, Nat.shiftLeft_eq, Nat.pow_mul]
  · next hgt =>
      rw [leading_of_ge (by decide) (Nat.le_of_not_le hgt), Nat.shiftRight_eq_div_pow, Nat.pow_mul]

theorem leadingBytes_lt (target : Nat) : leadingBytes target < 2 ^ 24 := by
  rw [leadingBytes_eq, leading, Nat.div_lt_iff_lt_mul (Nat.pow_pos (by decide))]
  have hlt : target < 256 ^ numBytes target := numBytes_le_iff.mp (Nat.le_refl _)
  have hpow : (256 : Nat) ^ 3 = 2 ^ 24 := by decide
  rw [hpow, Nat.mul_comm]
  exact Nat.mul_lt_mul_of_pos_left hlt (by decide)

/-- The sign bit of three bytes. -/
theorem and_sign_ne_zero_iff {m : Nat} (h : m < 2 ^ 24) : m &&& 0x00800000 ≠ 0 ↔ 2 ^ 23 ≤ m := by
  have hbit : m &&& 0x00800000 = 2 ^ 23 * (m / 2 ^ 23 % 2) := by
    have htwo : (0x00800000 : Nat) = 2 ^ 23 := by decide
    rw [htwo, Nat.and_two_pow, Nat.toNat_testBit, Nat.mul_comm]
  rw [hbit]
  omega

/-- Whether the leading byte has its first bit set says whether the format
needs one byte more. -/
theorem exponentOf_eq {target : Nat} (hne : target ≠ 0) : exponentOf target =
    if leadingBytes target &&& 0x00800000 ≠ 0 then numBytes target + 1 else numBytes target := by
  have hlt : target < 256 ^ numBytes target := numBytes_le_iff.mp (Nat.le_refl _)
  have hpos : 0 < numBytes target := by
    refine Nat.pos_of_ne_zero fun hzero => ?_
    rw [hzero, Nat.pow_zero] at hlt
    exact hne (Nat.lt_one_iff.mp hlt)
  have hge : 256 ^ (numBytes target - 1) ≤ target :=
    Nat.not_lt.mp fun h => Nat.not_succ_le_self _ ((numBytes_le_iff.mpr h).trans_lt
      (Nat.sub_lt hpos Nat.one_pos))
  have hpow : (256 : Nat) ^ numBytes target = 256 ^ (numBytes target - 1) * 256 := by
    rw [← Nat.pow_succ, Nat.succ_eq_add_one, Nat.sub_add_cancel hpos]
  have hbit : 2 ^ 23 ≤ leadingBytes target ↔ 256 ^ numBytes target ≤ 2 * target := by
    rw [leadingBytes_eq, leading, Nat.le_div_iff_mul_le (Nat.pow_pos (by decide))]
    have hcube : (256 : Nat) ^ 3 = 2 ^ 23 * 2 := by decide
    rw [hcube, Nat.mul_comm target, Nat.mul_assoc, Nat.mul_le_mul_left_iff (by decide)]
  refine eq_of_forall_ge_iff fun n => (length_le_iff (by decide)).trans ?_
  split
  · next hset =>
      have hfull := hbit.mp ((and_sign_ne_zero_iff (leadingBytes_lt target)).mp hset)
      constructor
      · intro hn
        exact (Nat.pow_lt_pow_iff_right (by decide)).mp (hfull.trans_lt hn)
      · intro hn
        calc 2 * target < 256 ^ (numBytes target + 1) := by rw [Nat.pow_succ]; omega
          _ ≤ 256 ^ n := Nat.pow_le_pow_right (by decide) hn
  · next hclear =>
      have hroom : 2 * target < 256 ^ numBytes target := Nat.not_le.mp fun h =>
        hclear ((and_sign_ne_zero_iff (leadingBytes_lt target)).mpr (hbit.mpr h))
      constructor
      · intro hn
        exact numBytes_le_iff.mpr (lt_of_le_of_lt (Nat.le_mul_of_pos_left _ (by decide)) hn)
      · intro hn
        exact hroom.trans_le (Nat.pow_le_pow_right (by decide) hn)

theorem mantissaOf_eq {target : Nat} (hne : target ≠ 0) : mantissaOf target =
    if leadingBytes target &&& 0x00800000 ≠ 0 then leadingBytes target >>> 8
    else leadingBytes target := by
  rw [mantissaOf, exponentOf_eq hne, leadingBytes_eq]
  split
  · rw [Nat.shiftRight_eq_div_pow, leading, leading, Nat.div_div_eq_div_mul, ← Nat.pow_succ]
  · rfl

theorem toNat_pack {exponent mantissa : Nat} (hexponent : exponent < 256)
    (hmantissa : mantissa < 2 ^ 23) :
    (UInt32.ofNat ((exponent <<< 24) ||| (mantissa &&& 0x007fffff))).toNat
      = exponent * 2 ^ 24 + mantissa := by
  have hmask : mantissa &&& 0x007fffff = mantissa := by
    have hmod := Nat.and_two_pow_sub_one_eq_mod mantissa 23
    rwa [Nat.mod_eq_of_lt hmantissa] at hmod
  have hor := Nat.shiftLeft_add_eq_or_of_lt (hmantissa.trans (by decide : 2 ^ 23 < 2 ^ 24)) exponent
  rw [hmask, ← hor, Nat.shiftLeft_eq, UInt32.toNat_ofNat']
  omega

/-- The bits of a compact target are its exponent and its mantissa. -/
theorem bits_fromTarget {target : Nat} (h : target < 2 ^ 512) :
    (fromTarget target).bits.toNat = exponentOf target * 2 ^ 24 + mantissaOf target := by
  by_cases hzero : target = 0
  · rw [hzero]
    rfl
  · have hsize : numBytes target ≠ 0 := fun hsize => by
      have hlt := numBytes_le_iff.mp hsize.le
      rw [Nat.pow_zero] at hlt
      exact hzero (Nat.lt_one_iff.mp hlt)
    have hexponent : exponentOf target < 256 := (exponentOf_le h).trans_lt (by decide)
    have hmantissa := mantissaOf_lt target
    rw [fromTarget]
    dsimp only
    rw [if_neg hsize]
    rw [exponentOf_eq hzero] at hexponent ⊢
    rw [mantissaOf_eq hzero] at hmantissa ⊢
    split
    · next hset =>
        rw [if_pos hset] at hexponent hmantissa
        exact toNat_pack hexponent hmantissa
    · next hclear =>
        rw [if_neg hclear] at hexponent hmantissa
        exact toNat_pack hexponent hmantissa

/-! ## Fields of the bits -/

variable {c : CompactTarget} {exponent mantissa : Nat}

theorem exponent_of_bits (h : c.bits.toNat = exponent * 2 ^ 24 + mantissa)
    (hmantissa : mantissa < 2 ^ 24) : c.exponent = exponent := by
  rw [CompactTarget.exponent, h, Nat.shiftRight_eq_div_pow]
  omega

theorem mantissa_of_bits (h : c.bits.toNat = exponent * 2 ^ 24 + mantissa)
    (hmantissa : mantissa < 2 ^ 23) : c.mantissa = mantissa := by
  have hmod := Nat.and_two_pow_sub_one_eq_mod c.bits.toNat 23
  have hmask : c.mantissa = c.bits.toNat % 2 ^ 23 := hmod
  rw [hmask, h]
  omega

theorem isNegative_of_bits (h : c.bits.toNat = exponent * 2 ^ 24 + mantissa)
    (hmantissa : mantissa < 2 ^ 23) : c.isNegative = false := by
  have hbit : c.bits.toNat &&& 2 ^ 23 = 0 := by
    rw [Nat.and_two_pow, Nat.toNat_testBit, h]
    have hzero : (exponent * 2 ^ 24 + mantissa) / 2 ^ 23 % 2 = 0 := by omega
    rw [hzero, Nat.zero_mul]
  exact decide_eq_false (not_not.mpr hbit)

/-- The target that exponent and mantissa stand for. -/
theorem expand_eq (c : CompactTarget) : c.expand = unpack 256 3 c.exponent c.mantissa := by
  rw [expand]
  split
  · next hle =>
      have hpow : (256 : Nat) ^ 3 = 256 ^ (3 - c.exponent) * 256 ^ c.exponent := by
        rw [← Nat.pow_add, Nat.sub_add_cancel hle]
      rw [Nat.shiftRight_eq_div_pow, Nat.pow_mul, unpack, hpow,
        Nat.mul_div_mul_right _ _ (Nat.pow_pos (by decide))]
  · next hgt =>
      rw [Nat.shiftLeft_eq, Nat.pow_mul, unpack_of_ge (by decide) (Nat.le_of_not_le hgt)]

section

variable {target : Nat} (h : target < 2 ^ 512)
include h

theorem exponent_fromTarget : (fromTarget target).exponent = exponentOf target :=
  exponent_of_bits (bits_fromTarget h) ((mantissaOf_lt target).trans (by decide))

theorem mantissa_fromTarget : (fromTarget target).mantissa = mantissaOf target :=
  mantissa_of_bits (bits_fromTarget h) (mantissaOf_lt target)

theorem expand_fromTarget : (fromTarget target).expand = round 256 3 2 target := by
  rw [expand_eq, exponent_fromTarget h, mantissa_fromTarget h]
  rfl

theorem expand_fromTarget_le : (fromTarget target).expand ≤ target := by
  rw [expand_fromTarget h]
  exact round_le (by decide) target

/-- What is expanded is encoded again as it was. -/
theorem fromTarget_expand : (fromTarget (fromTarget target).expand).bits = (fromTarget target).bits := by
  have hbase : 1 < 256 := by decide
  have hroom : 2 ∣ 256 ^ (3 - 1) := by decide
  have hle := expand_fromTarget_le h
  have hexponent : exponentOf (fromTarget target).expand = exponentOf target := by
    rw [expand_fromTarget h]
    exact length_round hbase (by decide) hroom target
  have hmantissa : mantissaOf (fromTarget target).expand = mantissaOf target := by
    rw [mantissaOf, hexponent, expand_fromTarget h]
    exact leading_round hbase target
  apply UInt32.toNat_inj.mp
  rw [bits_fromTarget (hle.trans_lt h), bits_fromTarget h, hexponent, hmantissa]

theorem fromTarget_overflows : (fromTarget target).overflows 64 = false := by
  have hexponent := exponentOf_le h
  rw [overflows, exponent_fromTarget h, mantissa_fromTarget h]
  split
  · rfl
  · -- 65 bytes are needed only for the sign bit, so that two of them are left
    have hlong : exponentOf target = 65 → mantissaOf target ≤ 0xffff := by
      intro heq
      have hlt : mantissaOf target < 2 ^ 16 := by
        rw [mantissaOf, heq, leading_of_ge (by decide) (by decide),
          Nat.div_lt_iff_lt_mul (Nat.pow_pos (by decide))]
        omega
      omega
    simp only [Bool.or_eq_false_iff, Bool.and_eq_false_iff, decide_eq_false_iff_not]
    omega

theorem fromTarget_isZero (hzero : (fromTarget target).isZero = true) :
    (fromTarget target).bits = 0 := by
  have hmantissa : mantissaOf target = 0 := by
    rw [← mantissa_fromTarget h]
    exact of_decide_eq_true hzero
  have hexponent : exponentOf target = 0 :=
    length_eq_zero_of_leading (by decide) (by decide) (by decide) hmantissa
  apply UInt32.toNat_inj.mp
  rw [bits_fromTarget h, hmantissa, hexponent]
  rfl

theorem fromTarget_isCanonical : (fromTarget target).isCanonical 64 = true := by
  rw [isCanonical, isNegative_of_bits (bits_fromTarget h) (mantissaOf_lt target),
    fromTarget_overflows h]
  simp only [Bool.false_eq_true, if_false]
  split
  · next hzero => exact decide_eq_true (fromTarget_isZero h hzero)
  · exact decide_eq_true (fromTarget_expand h)

/-- Only zero becomes zero. -/
theorem fromTarget_ne_zero (hne : target ≠ 0) : (fromTarget target).mantissa ≠ 0 := by
  rw [mantissa_fromTarget h]
  intro hzero
  have hexponent : exponentOf target = 0 :=
    length_eq_zero_of_leading (by decide) (by decide) (by decide) hzero
  have hlt : 2 * target < 256 ^ 0 := (length_le_iff (by decide)).mp hexponent.le
  omega

end

/-- The bits of targets are ordered as the targets. -/
theorem bits_mono {target target' : Nat} (hle : target ≤ target') (h : target' < 2 ^ 512) :
    (fromTarget target).bits ≤ (fromTarget target').bits := by
  rw [UInt32.le_iff_toNat_le, bits_fromTarget (hle.trans_lt h), bits_fromTarget h]
  have hmantissa := mantissaOf_lt target
  have hexponent : exponentOf target ≤ exponentOf target' := length_mono (by decide) hle
  rcases hexponent.lt_or_eq with hlt | heq
  · omega
  · have hleading : mantissaOf target ≤ mantissaOf target' := by
      rw [mantissaOf, mantissaOf, heq]
      exact leading_mono hle
    omega

theorem expand_mono {target target' : Nat} (hle : target ≤ target') (h : target' < 2 ^ 512) :
    (fromTarget target).expand ≤ (fromTarget target').expand := by
  rw [expand_fromTarget (hle.trans_lt h), expand_fromTarget h]
  exact round_mono (by decide) (by decide) (by decide) hle

/-- Canonical bits are those of their target. -/
theorem fromTarget_of_isCanonical {width : Nat} (h : c.isCanonical width = true) :
    fromTarget c.expand = c := by
  have hbits : (fromTarget c.expand).bits = c.bits := by
    rw [isCanonical] at h
    split at h
    · cases h
    · split at h
      · cases h
      · split at h
        · next hzero =>
            have hmantissa : c.mantissa = 0 := of_decide_eq_true hzero
            rw [expand_eq, hmantissa, unpack, Nat.zero_mul, Nat.zero_div, of_decide_eq_true h]
            rfl
        · exact of_decide_eq_true h
  cases c
  exact congrArg CompactTarget.mk hbits

/-- Canonical bits are not negative and do not overflow. -/
theorem fits_of_isCanonical {width : Nat} (h : c.isCanonical width = true) :
    c.isNegative = false ∧ c.overflows width = false := by
  rw [isCanonical] at h
  split at h
  · cases h
  · next hpositive =>
      split at h
      · cases h
      · next hfits => exact ⟨Bool.eq_false_iff.mpr hpositive, Bool.eq_false_iff.mpr hfits⟩

/-- Bits that do not overflow 64 bytes have a target of the width of a hash. -/
theorem expand_lt (h : c.overflows 64 = false) : c.expand < 2 ^ 512 := by
  have hmantissa : c.mantissa < 2 ^ 23 := by
    have hmod := Nat.and_two_pow_sub_one_eq_mod c.bits.toNat 23
    have hmask : c.mantissa = c.bits.toNat % 2 ^ 23 := hmod
    omega
  rw [expand_eq, unpack, Nat.div_lt_iff_lt_mul (Nat.pow_pos (by decide))]
  have hproduct : ∀ {m k bound width : Nat}, m ≤ bound → k ≤ width →
      m * 256 ^ k ≤ bound * 256 ^ width := fun hm hk =>
    Nat.mul_le_mul hm (Nat.pow_le_pow_right (by decide) hk)
  rw [overflows] at h
  split at h
  · next hzero =>
      rw [hzero, Nat.zero_mul]
      omega
  · simp only [Bool.or_eq_false_iff, Bool.and_eq_false_iff, decide_eq_false_iff_not] at h
    obtain ⟨⟨hlong, hmedium⟩, hshort⟩ := h
    -- the more bytes the mantissa has, the smaller the exponent is
    rcases Nat.lt_or_ge 0xffff c.mantissa with hthree | htwo
    · have hle := hproduct hmantissa.le (show c.exponent ≤ 64 by omega)
      omega
    · rcases Nat.lt_or_ge 0xff c.mantissa with htwo' | hone
      · have hle := hproduct htwo (show c.exponent ≤ 65 by omega)
        omega
      · have hle := hproduct hone (show c.exponent ≤ 66 by omega)
        omega

/-- Rounding to a compact target: the result is canonical, not above the target
and close to it, exact on targets with two bytes, and monotone; and canonical
bits and their targets determine each other. -/
theorem compact_targets :
    (∀ target < 2 ^ 512, (fromTarget target).isCanonical 64 = true ∧
      (fromTarget target).expand ≤ target ∧
      target - (fromTarget target).expand ≤ target / 2 ^ 15 ∧
      (256 ^ (numBytes target - 2) ∣ target → (fromTarget target).expand = target)) ∧
    (∀ target target', target ≤ target' → target' < 2 ^ 512 →
      (fromTarget target).bits ≤ (fromTarget target').bits ∧
        (fromTarget target).expand ≤ (fromTarget target').expand) ∧
    (∀ (c : CompactTarget) (width : Nat), c.isCanonical width = true → fromTarget c.expand = c) ∧
    ∀ (c c' : CompactTarget) (width : Nat), c.isCanonical width = true →
      c'.isCanonical width = true → c ≠ c' → c.expand ≠ c'.expand := by
  refine ⟨fun target h => ⟨fromTarget_isCanonical h, expand_fromTarget_le h, ?_, fun hdvd => ?_⟩,
    fun target target' hle h => ⟨bits_mono hle h, expand_mono hle h⟩,
    fun c width => fromTarget_of_isCanonical, fun c c' width h h' hne heq => ?_⟩
  · rw [expand_fromTarget h]
    have herror : target - round 256 3 2 target ≤ 2 * target / 256 ^ 2 :=
      sub_round_le (by decide) (by decide) target
    omega
  · rw [expand_fromTarget h]
    refine round_eq_of_dvd (by decide) (dvd_trans (pow_dvd_pow 256 ?_) hdvd)
    -- the format needs at most one byte more than the target has
    have hlength : length 256 2 target ≤ numBytes target + 1 := by
      refine (length_le_iff (by decide)).mpr ?_
      have hlt : target < 256 ^ numBytes target := numBytes_le_iff.mp (Nat.le_refl _)
      rw [Nat.pow_succ]
      omega
    omega
  · rw [← fromTarget_of_isCanonical h, ← fromTarget_of_isCanonical h', heq] at hne
    exact hne rfl

/-- Five bytes, the first of which has its first bit set. -/
theorem compact_targets_sample : (0x8000000001 : Nat) < 2 ^ 512 ∧
    (fromTarget 0x8000000001).isCanonical 64 = true ∧
    (fromTarget 0x8000000001).expand = 0x8000000000 ∧
    0x8000000001 - (fromTarget 0x8000000001).expand ≤ 0x8000000001 / 2 ^ 15 :=
  have h := compact_targets.1 0x8000000001 (by omega)
  ⟨by omega, h.1, by decide, h.2.2.1⟩

end CompactTarget

end Cryptex
