import Mathlib.Data.Nat.Log
import Mathlib.Tactic.Ring

/-!
# Leading digits

A number is kept as its length and its leading `p` digits to the base `b`. The
length leaves some room: it is the least `n` with `s * x < b ^ n`, so that the
leading digits stay below `b ^ p / s`. A number of up to `p` digits is kept
exactly, and of a longer one the digits after the leading ones are dropped.
-/

namespace LeadingDigits

variable (b p s : Nat)

/-- The least `n` with `s * x < b ^ n`. -/
def length (x : Nat) : Nat := Nat.clog b (s * x + 1)

/-- The leading digits of a number of length `n`, followed by zeros if it is
shorter than `p`. -/
def leading (n x : Nat) : Nat := x * b ^ p / b ^ n

/-- The number of length `n` with given leading digits. -/
def unpack (n m : Nat) : Nat := m * b ^ n / b ^ p

/-- What is left of a number. -/
def round (x : Nat) : Nat := unpack b p (length b s x) (leading b p (length b s x) x)

variable {b p s : Nat}

theorem leading_mono {n x y : Nat} (h : x ≤ y) : leading b p n x ≤ leading b p n y :=
  Nat.div_le_div_right (Nat.mul_le_mul_right _ h)

theorem unpack_mono {n m m' : Nat} (h : m ≤ m') : unpack b p n m ≤ unpack b p n m' :=
  Nat.div_le_div_right (Nat.mul_le_mul_right _ h)

variable (hb : 1 < b)
include hb

theorem length_le_iff {x n : Nat} : length b s x ≤ n ↔ s * x < b ^ n :=
  (Nat.clog_le_iff_le_pow hb).trans Nat.succ_le_iff

theorem lt_length_iff {x n : Nat} : n < length b s x ↔ b ^ n ≤ s * x := by
  rw [← Nat.not_le, length_le_iff hb, Nat.not_lt]

theorem length_mono {x y : Nat} (h : x ≤ y) : length b s x ≤ length b s y :=
  (length_le_iff hb).mpr
    ((Nat.mul_le_mul_left s h).trans_lt ((length_le_iff hb).mp (Nat.le_refl _)))

/-! ## Short and long numbers -/

theorem leading_of_le {n x : Nat} (h : n ≤ p) : leading b p n x = x * b ^ (p - n) := by
  have hpow : b ^ p = b ^ (p - n) * b ^ n := by rw [← Nat.pow_add, Nat.sub_add_cancel h]
  rw [leading, hpow, ← Nat.mul_assoc, Nat.mul_div_cancel _ (Nat.pow_pos (Nat.zero_lt_of_lt hb))]

theorem leading_of_ge {n x : Nat} (h : p ≤ n) : leading b p n x = x / b ^ (n - p) := by
  have hpow : b ^ n = b ^ (n - p) * b ^ p := by rw [← Nat.pow_add, Nat.sub_add_cancel h]
  rw [leading, hpow, Nat.mul_div_mul_right _ _ (Nat.pow_pos (Nat.zero_lt_of_lt hb))]

theorem unpack_of_ge {n m : Nat} (h : p ≤ n) : unpack b p n m = m * b ^ (n - p) := by
  have hpow : b ^ n = b ^ (n - p) * b ^ p := by rw [← Nat.pow_add, Nat.sub_add_cancel h]
  rw [unpack, hpow, ← Nat.mul_assoc, Nat.mul_div_cancel _ (Nat.pow_pos (Nat.zero_lt_of_lt hb))]

/-- A number whose leading digits are all it has is unpacked from them. -/
theorem unpack_leading_of_le {n x : Nat} (h : n ≤ p) : unpack b p n (leading b p n x) = x := by
  have hpow : b ^ p = b ^ (p - n) * b ^ n := by rw [← Nat.pow_add, Nat.sub_add_cancel h]
  rw [leading_of_le hb h, unpack, Nat.mul_assoc, ← hpow,
    Nat.mul_div_cancel _ (Nat.pow_pos (Nat.zero_lt_of_lt hb))]

theorem round_of_le {x : Nat} (h : length b s x ≤ p) : round b p s x = x :=
  unpack_leading_of_le hb h

theorem round_of_ge {x : Nat} (h : p ≤ length b s x) :
    round b p s x = x / b ^ (length b s x - p) * b ^ (length b s x - p) := by
  rw [round, leading_of_ge hb h, unpack_of_ge hb h]

/-! ## The error -/

theorem round_le (x : Nat) : round b p s x ≤ x := by
  rcases Nat.le_total (length b s x) p with hshort | hlong
  · exact (round_of_le hb hshort).le
  · rw [round_of_ge hb hlong]
    exact Nat.div_mul_le_self _ _

/-- A number with zeros after its leading digits is kept. -/
theorem round_eq_of_dvd {x : Nat} (h : b ^ (length b s x - p) ∣ x) : round b p s x = x := by
  rcases Nat.le_total (length b s x) p with hshort | hlong
  · exact round_of_le hb hshort
  · rw [round_of_ge hb hlong, Nat.div_mul_cancel h]

/-- The relative error. -/
theorem sub_round_le (hp : 0 < p) (x : Nat) : x - round b p s x ≤ s * x / b ^ (p - 1) := by
  rcases Nat.le_total (length b s x) p with hshort | hlong
  · rw [round_of_le hb hshort, Nat.sub_self]
    exact Nat.zero_le _
  · have hpos : 0 < b ^ (length b s x - p) := Nat.pow_pos (Nat.zero_lt_of_lt hb)
    have hsub : x - round b p s x < b ^ (length b s x - p) := by
      rw [round_of_ge hb hlong, Nat.mul_comm, ← Nat.mod_eq_sub_mul_div]
      exact Nat.mod_lt _ hpos
    have hlead : b ^ (length b s x - 1) ≤ s * x :=
      (lt_length_iff hb).mp (Nat.sub_lt (hp.trans_le hlong) Nat.one_pos)
    have hpow : b ^ (length b s x - 1) = b ^ (length b s x - p) * b ^ (p - 1) := by
      rw [← Nat.pow_add]
      congr 1
      omega
    rw [hpow] at hlead
    exact hsub.le.trans ((Nat.le_div_iff_mul_le (Nat.pow_pos (Nat.zero_lt_of_lt hb))).mpr hlead)

/-! ## Order -/

/-- The room is kept by the leading digits. -/
theorem mul_leading_lt (x : Nat) : s * leading b p (length b s x) x < b ^ p := by
  have hpos : 0 < b ^ length b s x := Nat.pow_pos (Nat.zero_lt_of_lt hb)
  have hlt : s * x < b ^ length b s x := (length_le_iff hb).mp (Nat.le_refl _)
  refine (Nat.mul_div_le_mul_div_assoc s _ _).trans_lt ((Nat.div_lt_iff_lt_mul hpos).mpr ?_)
  rw [← Nat.mul_assoc, Nat.mul_comm (b ^ p)]
  exact Nat.mul_lt_mul_of_pos_right hlt (Nat.pow_pos (Nat.zero_lt_of_lt hb))

/-- Nothing more is dropped the second time. -/
theorem leading_round (x : Nat) : leading b p (length b s x) (round b p s x)
    = leading b p (length b s x) x := by
  rcases Nat.le_total (length b s x) p with hshort | hlong
  · rw [round_of_le hb hshort]
  · rw [round_of_ge hb hlong, leading_of_ge hb hlong, leading_of_ge hb hlong,
      Nat.mul_div_cancel _ (Nat.pow_pos (Nat.zero_lt_of_lt hb))]

variable (hp : 0 < p) (hs : s ∣ b ^ (p - 1))
include hp hs

/-- The digit that gives a number its length is among the leading ones. -/
theorem pow_le_mul_round {n x : Nat} (h : n < length b s x) : b ^ n ≤ s * round b p s x := by
  rcases Nat.le_total (length b s x) p with hshort | hlong
  · rw [round_of_le hb hshort]
    exact (lt_length_iff hb).mp h
  · obtain ⟨q, hq⟩ := hs
    have hpow : b ^ (length b s x - 1) = s * (q * b ^ (length b s x - p)) := by
      rw [← Nat.mul_assoc, ← hq, ← Nat.pow_add]
      congr 1
      omega
    have hspos : 0 < s := Nat.pos_of_ne_zero fun hzero => by
      rw [hzero, Nat.zero_mul] at hq
      exact absurd hq (Nat.pow_pos (Nat.zero_lt_of_lt hb)).ne'
    have hlead : b ^ (length b s x - 1) ≤ s * x :=
      (lt_length_iff hb).mp (Nat.sub_lt (hp.trans_le hlong) Nat.one_pos)
    rw [hpow] at hlead
    have hq' : q ≤ x / b ^ (length b s x - p) :=
      (Nat.le_div_iff_mul_le (Nat.pow_pos (Nat.zero_lt_of_lt hb))).mpr
        (Nat.le_of_mul_le_mul_left hlead hspos)
    calc b ^ n ≤ b ^ (length b s x - 1) :=
          Nat.pow_le_pow_right (Nat.zero_lt_of_lt hb) (Nat.le_sub_one_of_lt h)
      _ = s * (q * b ^ (length b s x - p)) := hpow
      _ ≤ s * round b p s x := by
          rw [round_of_ge hb hlong]
          exact Nat.mul_le_mul_left s (Nat.mul_le_mul_right _ hq')

theorem length_round (x : Nat) : length b s (round b p s x) = length b s x := by
  refine le_antisymm (length_mono hb (round_le hb x)) (Nat.le_of_not_lt fun hlt => ?_)
  exact absurd (pow_le_mul_round hb hp hs hlt)
    (Nat.not_le.mpr ((length_le_iff hb).mp (Nat.le_refl _)))

theorem round_mono {x y : Nat} (h : x ≤ y) : round b p s x ≤ round b p s y := by
  rcases Nat.lt_or_ge (length b s x) (length b s y) with hlt | hge
  · have hx : s * x < b ^ length b s x := (length_le_iff hb).mp (Nat.le_refl _)
    have hmul : s * x < s * round b p s y := hx.trans_le (pow_le_mul_round hb hp hs hlt)
    exact (round_le hb x).trans (Nat.lt_of_mul_lt_mul_left hmul).le
  · have hlength : length b s x = length b s y := le_antisymm (length_mono hb h) hge
    rw [round, round, hlength]
    exact unpack_mono (leading_mono h)

/-- Only zero has no leading digits. -/
theorem length_eq_zero_of_leading {x : Nat} (h : leading b p (length b s x) x = 0) :
    length b s x = 0 := by
  refine Nat.eq_zero_of_not_pos fun hpos => ?_
  have hround : round b p s x = 0 := by rw [round, h, unpack, Nat.zero_mul, Nat.zero_div]
  have hle := pow_le_mul_round hb hp hs hpos
  rw [hround, Nat.mul_zero] at hle
  exact absurd hle (Nat.not_le.mpr (Nat.pow_pos (Nat.zero_lt_of_lt hb)))

end LeadingDigits
