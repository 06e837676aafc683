import Cryptex.Script.Machine
import Mathlib.Data.Nat.Bitwise
import Mathlib.Data.Nat.Digits.Lemmas

/-!
# Numbers on the stack

`cast_from_int` writes a number in the fewest bytes and one more where the
highest bit is set. `cast_to_int` reads up to eight bytes. A negative number takes
nine, so it can be written and not read.
-/

namespace Cryptex.Script

/-- The number that bytes stand for, the lowest first. -/
def bytesNat (elem : StackElement) : Nat := Nat.ofDigits 256 (elem.map UInt8.toNat)

theorem bytesNat_cons (b : UInt8) (rest : Bytes) :
    bytesNat (b :: rest) = b.toNat + 256 * bytesNat rest := by
  rw [bytesNat, List.map_cons, Nat.ofDigits_cons]
  rfl

theorem orBytes_toNat : ∀ {bytes : Bytes} {i : Nat} {val : BitVec 64}, i + bytes.length ≤ 8 →
    val.toNat < 256 ^ i → (orBytes i val bytes).toNat = val.toNat + 256 ^ i * bytesNat bytes
  | [], i, val, _, _ => by
      rw [bytesNat, List.map_nil, Nat.ofDigits_nil, Nat.mul_zero, Nat.add_zero]
      rfl
  | b :: rest, i, val, hi, hval => by
      rw [List.length_cons] at hi
      have hb := b.toNat_lt
      have hpow : (256 : Nat) ^ i = 2 ^ (i * 8) := by
        rw [show (256 : Nat) = 2 ^ 8 from rfl, ← Nat.pow_mul, Nat.mul_comm]
      have hsucc : 256 ^ (i + 1) ≤ 2 ^ 64 := by
        rw [show (256 : Nat) = 2 ^ 8 from rfl, ← Nat.pow_mul]
        exact Nat.pow_le_pow_right (by decide) (by omega)
      have hshift : 256 ^ i * b.toNat < 2 ^ 64 := by
        refine lt_of_lt_of_le ?_ hsucc
        rw [pow_succ]
        exact Nat.mul_lt_mul_of_pos_left hb (Nat.pow_pos (by decide))
      have hor : (val ||| (BitVec.ofNat 64 b.toNat <<< (i * 8))).toNat =
          val.toNat + 256 ^ i * b.toNat := by
        rw [BitVec.toNat_or, BitVec.toNat_shiftLeft, BitVec.toNat_ofNat,
          Nat.mod_eq_of_lt (show b.toNat < 2 ^ 64 by omega), Nat.shiftLeft_eq, Nat.mul_comm b.toNat,
          ← hpow, Nat.mod_eq_of_lt hshift, Nat.or_comm, hpow,
          ← Nat.two_pow_add_eq_or_of_lt (hpow ▸ hval), Nat.add_comm]
      have hlt : (val ||| (BitVec.ofNat 64 b.toNat <<< (i * 8))).toNat < 256 ^ (i + 1) := by
        rw [hor, pow_succ]
        nlinarith [Nat.pow_pos (n := i) (show 0 < 256 by decide)]
      rw [orBytes, orBytes_toNat (by omega) hlt, hor, bytesNat_cons, pow_succ]
      ring

theorem castToInt_of_le {elem : StackElement} {val : Int64} (hlen : elem.length ≤ 8)
    (hval : bytesNat elem = val.toUInt64.toNat) : castToInt elem = some val := by
  have htoNat : (orBytes 0 0 elem).toNat = bytesNat elem := by
    rw [orBytes_toNat (by omega) (by decide)]
    simp
  rw [castToInt, if_neg (by omega)]
  refine congrArg some (Int64.toBitVec_inj.mp (BitVec.eq_of_toNat_eq ?_))
  rw [Int64.toBitVec_ofBitVec, htoNat, hval]
  rfl

/-! ## Digits of an `int64_t` -/

theorem highBit_iff (b : UInt8) : b &&& 0x80 ≠ 0 ↔ 0x80 ≤ b.toNat := by
  have hb := b.toNat_lt
  rw [ne_eq, ← UInt8.toNat_inj, UInt8.toNat_and]
  change ¬ b.toNat &&& 2 ^ 7 = 0 ↔ _
  rw [Nat.and_two_pow, Nat.testBit_eq_decide_div_mod_eq]
  by_cases h : 0x80 ≤ b.toNat
  · have hbit : b.toNat / 128 % 2 = 1 := by omega
    simp [hbit, h]
  · have hbit : b.toNat / 128 % 2 = 0 := by omega
    simp [hbit, h]

theorem nonneg_iff (val : Int64) : 0 ≤ val.toInt ↔ val.toUInt64.toNat < 2 ^ 63 := by
  have hlt := val.toBitVec.isLt
  have hcond := BitVec.toInt_eq_toNat_cond val.toBitVec
  have hnat : val.toUInt64.toNat = val.toBitVec.toNat := rfl
  have hint : val.toInt = val.toBitVec.toInt := rfl
  rw [hnat, hint, hcond]
  split <;> omega

/-- The bytes of a number without the sign byte. -/
def digitBytes (u : Nat) : Bytes := (Nat.digits 256 u).map UInt8.ofNat

theorem toNat_digitBytes (u : Nat) : (digitBytes u).map UInt8.toNat = Nat.digits 256 u := by
  rw [digitBytes, List.map_map]
  refine (List.map_congr_left fun n hn => ?_).trans (List.map_id _)
  have hlt := Nat.digits_lt_base (by decide) hn
  rw [Function.comp_apply, UInt8.toNat_ofNat', Nat.mod_eq_of_lt hlt]
  rfl

theorem bytesNat_digitBytes (u : Nat) : bytesNat (digitBytes u) = u := by
  rw [bytesNat, toNat_digitBytes, Nat.ofDigits_digits]

theorem bytesNat_append (l r : Bytes) :
    bytesNat (l ++ r) = bytesNat l + 256 ^ l.length * bytesNat r := by
  rw [bytesNat, List.map_append, Nat.ofDigits_append, List.length_map]
  rfl

theorem bytesNat_lt (l : Bytes) : bytesNat l < 256 ^ l.length := by
  have h := Nat.ofDigits_lt_base_pow_length (b := 256) (l := l.map UInt8.toNat) (by decide)
    fun x hx => by
      obtain ⟨b, -, rfl⟩ := List.mem_map.mp hx
      exact b.toNat_lt
  rwa [List.length_map] at h

/-- The last digit of a number of `n + 1` digits. -/
theorem bytesNat_last {l : Bytes} {last : UInt8} (h : l.getLast? = some last) :
    256 ^ (l.length - 1) * last.toNat ≤ bytesNat l ∧
      bytesNat l < 256 ^ (l.length - 1) * (last.toNat + 1) := by
  obtain ⟨init, rfl⟩ := List.getLast?_eq_some_iff.mp h
  have hlt := bytesNat_lt init
  rw [bytesNat_append, bytesNat_cons, List.length_append, List.length_singleton,
    Nat.add_sub_cancel]
  simp only [bytesNat, List.map_nil, Nat.ofDigits_nil, Nat.mul_zero, Nat.add_zero] at hlt ⊢
  constructor
  · omega
  · rw [Nat.mul_add]
    omega

theorem length_digitBytes_le {u k : Nat} (h : u < 256 ^ k) : (digitBytes u).length ≤ k := by
  rw [digitBytes, List.length_map]
  exact (Nat.digits_length_le_iff (by decide) u).mpr h

theorem length_digitBytes_gt {u k : Nat} (h : 256 ^ k ≤ u) : k < (digitBytes u).length := by
  rw [digitBytes, List.length_map]
  exact (Nat.lt_digits_length_iff (by decide) u).mpr h

theorem castFromInt_eq (val : Int64) : castFromInt val =
    match (digitBytes val.toUInt64.toNat).getLast? with
    | none => []
    | some last =>
        if last &&& 0x80 ≠ 0 then digitBytes val.toUInt64.toNat ++ [0]
        else digitBytes val.toUInt64.toNat := rfl

/-- A number that one operation pushes is read back by the next one exactly if it
is not negative. -/
theorem castToInt_castFromInt (val : Int64) :
    castToInt (castFromInt val) = if 0 ≤ val.toInt then some val else none := by
  have hu : val.toUInt64.toNat < 256 ^ 8 := by
    have := val.toUInt64.toNat_lt
    norm_num at this ⊢
    exact this
  have hlen := length_digitBytes_le hu
  have hvalue := bytesNat_digitBytes val.toUInt64.toNat
  rw [castFromInt_eq]
  simp only [nonneg_iff]
  cases hlast : (digitBytes val.toUInt64.toNat).getLast? with
  | none =>
      have hnil : digitBytes val.toUInt64.toNat = [] := List.getLast?_eq_none_iff.mp hlast
      have hzero : val.toUInt64.toNat = 0 := by rw [← hvalue, hnil]; rfl
      rw [if_pos (by omega)]
      exact castToInt_of_le (Nat.zero_le 8) (by rw [hzero]; rfl)
  | some last =>
      obtain ⟨hle, hlt⟩ := bytesNat_last hlast
      rw [hvalue] at hle hlt
      simp only [highBit_iff]
      by_cases hneg : val.toUInt64.toNat < 2 ^ 63
      · rw [if_pos hneg]
        by_cases hhigh : 0x80 ≤ last.toNat
        · have hshort : (digitBytes val.toUInt64.toNat).length ≤ 7 := by
            by_contra hnot
            have height : (digitBytes val.toUInt64.toNat).length = 8 := by omega
            rw [height] at hle
            norm_num at hle hneg
            omega
          rw [if_pos hhigh]
          refine castToInt_of_le (by rw [List.length_append, List.length_singleton]; omega) ?_
          rw [bytesNat_append, hvalue]
          rfl
        · rw [if_neg hhigh]
          exact castToInt_of_le hlen hvalue
      · have hlong : (digitBytes val.toUInt64.toNat).length = 8 := by
          have := length_digitBytes_gt (u := val.toUInt64.toNat) (k := 7) (by norm_num; omega)
          omega
        have hhigh : 0x80 ≤ last.toNat := by
          rw [hlong] at hlt
          norm_num at hlt hneg
          omega
        rw [if_neg hneg, if_pos hhigh, castToInt,
          if_pos (by rw [List.length_append, hlong]; decide)]

end Cryptex.Script
