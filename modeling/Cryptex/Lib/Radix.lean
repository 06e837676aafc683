import Mathlib.Data.Nat.Digits.Lemmas

/-!
# Numerals, most significant digit first

The value of a list of digits in a base, and the conversion between two bases
that are powers of two, digit by digit through an accumulator of bits.
-/

namespace Radix

/-- The value of a numeral. -/
def value (base : Nat) (l : List Nat) : Nat := Nat.ofDigits base l.reverse

variable {base : Nat}

theorem value_append_singleton (l : List Nat) (d : Nat) :
    value base (l ++ [d]) = value base l * base + d := by
  rw [value, List.reverse_append, List.reverse_singleton, List.singleton_append, Nat.ofDigits_cons,
    value, Nat.add_comm, Nat.mul_comm]

theorem value_eq_foldl (l : List Nat) : value base l = l.foldl (fun n d => n * base + d) 0 := by
  induction l using List.reverseRecOn with
  | nil => rfl
  | append_singleton l d ih => rw [value_append_singleton, ih, List.foldl_append]; rfl

/-- Leading zeros do not count. -/
theorem value_replicate_append (n : Nat) (l : List Nat) :
    value base (List.replicate n 0 ++ l) = value base l := by
  rw [value, value, List.reverse_append, List.reverse_replicate, Nat.ofDigits_append,
    Nat.ofDigits_replicate_zero, Nat.mul_zero, Nat.add_zero]

theorem value_reverse_digits (n : Nat) : value base (Nat.digits base n).reverse = n := by
  rw [value, List.reverse_reverse, Nat.ofDigits_digits]

/-- Numerals of one length are determined by their value. -/
theorem value_inj {l l' : List Nat} (hbase : 1 < base) (hlength : l.length = l'.length)
    (h : ∀ d ∈ l, d < base) (h' : ∀ d ∈ l', d < base) (hvalue : value base l = value base l') :
    l = l' := by
  have hreverse : l.reverse.length = l'.reverse.length := by
    rw [List.length_reverse, List.length_reverse, hlength]
  exact List.reverse_injective (Nat.ofDigits_inj_of_len_eq hbase hreverse
    (fun d hd => h d (List.mem_reverse.mp hd)) (fun d hd => h' d (List.mem_reverse.mp hd)) hvalue)

/-- A numeral without a leading zero is the one of its value. -/
theorem digits_value {l : List Nat} (hbase : 1 < base) (h : ∀ d ∈ l, d < base)
    (hhead : l.head? ≠ some 0) : Nat.digits base (value base l) = l.reverse := by
  refine Nat.digits_ofDigits base hbase _ (fun d hd => h d (List.mem_reverse.mp hd)) fun hne hzero => ?_
  rw [List.getLast_reverse] at hzero
  have hcons : l ≠ [] := fun hnil => hne (by rw [hnil, List.reverse_nil])
  exact hhead (by rw [List.head?_eq_some_head hcons, hzero])

/-! ## Regrouping bits -/

/-- The digits of `input`, in base `2 ^ a`, have been regrouped into `out` in
base `2 ^ b` up to the lowest `bits` bits of `acc`. -/
structure Regrouped (a b : Nat) (input out : List Nat) (acc bits : Nat) : Prop where
  digits : ∀ d ∈ out, d < 2 ^ b
  length : b * out.length + bits = a * input.length
  value : value (2 ^ b) out * 2 ^ bits + acc % 2 ^ bits = value (2 ^ a) input

variable {a b acc bits : Nat} {input out : List Nat}

theorem Regrouped.start : Regrouped a b [] [] 0 0 :=
  ⟨nofun, rfl, rfl⟩

/-- A digit is read into the accumulator, of which `w` bits are kept. -/
theorem Regrouped.read (h : Regrouped a b input out acc bits) {v w : Nat} (hv : v < 2 ^ a)
    (hw : bits + a ≤ w) :
    Regrouped a b (input ++ [v]) out ((acc * 2 ^ a + v) % 2 ^ w) (bits + a) := by
  have hlow : (acc * 2 ^ a + v) % 2 ^ w % 2 ^ (bits + a) = acc % 2 ^ bits * 2 ^ a + v := by
    rw [Nat.mod_mod_of_dvd _ (pow_dvd_pow 2 hw), pow_add, Nat.mul_comm (2 ^ bits), Nat.mod_mul,
      Nat.mul_comm acc, Nat.mul_add_mod, Nat.mod_eq_of_lt hv,
      Nat.mul_add_div (Nat.two_pow_pos a), Nat.div_eq_of_lt hv, Nat.add_zero, Nat.add_comm,
      Nat.mul_comm]
  refine ⟨h.digits, ?_, ?_⟩
  · rw [List.length_append, List.length_singleton, Nat.mul_add, Nat.mul_one, ← h.length]
    omega
  · rw [hlow, value_append_singleton, ← h.value, pow_add]
    ring

/-- A digit is written from the accumulator. -/
theorem Regrouped.write (h : Regrouped a b input out acc bits) (hbits : b ≤ bits) :
    Regrouped a b input (out ++ [acc / 2 ^ (bits - b) % 2 ^ b]) acc (bits - b) := by
  obtain ⟨low, rfl⟩ := Nat.exists_eq_add_of_le' hbits
  rw [Nat.add_sub_cancel]
  refine ⟨fun d hd => ?_, ?_, ?_⟩
  · rcases List.mem_append.mp hd with hd | hd
    · exact h.digits d hd
    · rw [List.mem_singleton.mp hd]
      exact Nat.mod_lt _ (Nat.two_pow_pos b)
  · rw [List.length_append, List.length_singleton, Nat.mul_add, Nat.mul_one, ← h.length]
    omega
  · rw [value_append_singleton, ← h.value, pow_add, Nat.mod_mul]
    ring

/-- The output with the last bits in a digit of their own, filled up with
zeros. -/
def padded (b : Nat) (out : List Nat) (acc bits : Nat) : List Nat :=
  if 0 < bits then out ++ [acc * 2 ^ (b - bits) % 2 ^ b] else out

theorem padded_digits (h : Regrouped a b input out acc bits) :
    ∀ d ∈ padded b out acc bits, d < 2 ^ b := by
  rw [padded]
  split
  · intro d hd
    rcases List.mem_append.mp hd with hd | hd
    · exact h.digits d hd
    · rw [List.mem_singleton.mp hd]
      exact Nat.mod_lt _ (Nat.two_pow_pos b)
  · exact h.digits

/-- The padding shifts the value by fewer bits than a digit has. -/
theorem padded_spec (h : Regrouped a b input out acc bits) (hbits : bits < b) :
    ∃ pad < b, b * (padded b out acc bits).length = a * input.length + pad ∧
      value (2 ^ b) (padded b out acc bits) = value (2 ^ a) input * 2 ^ pad := by
  rw [padded]
  split
  · next hpos =>
      refine ⟨b - bits, by omega, ?_, ?_⟩
      · rw [List.length_append, List.length_singleton, Nat.mul_add, ← h.length]
        omega
      · have hsplit : (2 : Nat) ^ b = 2 ^ bits * 2 ^ (b - bits) := by
          rw [← pow_add, Nat.add_sub_cancel' (Nat.le_of_lt hbits)]
        have hlow : acc * 2 ^ (b - bits) % 2 ^ b = acc % 2 ^ bits * 2 ^ (b - bits) := by
          rw [hsplit, Nat.mul_mod_mul_right]
        rw [value_append_singleton, hlow, ← h.value, Nat.add_mul, Nat.mul_assoc, ← hsplit]
  · next hzero =>
      have hbits : bits = 0 := by omega
      subst hbits
      have hvalue := h.value
      rw [pow_zero, Nat.mod_one, Nat.mul_one, Nat.add_zero] at hvalue
      exact ⟨0, by omega, h.length, by rw [hvalue, pow_zero, Nat.mul_one]⟩

/-- Regrouping the padded output back gives the digits that were regrouped,
and only zeros are left over. -/
theorem Regrouped.inverse (h : Regrouped a b input out acc bits) (hbits : bits < b) (hle : b ≤ a)
    (hinput : ∀ d ∈ input, d < 2 ^ a) {back : List Nat} {acc' bits' : Nat}
    (h' : Regrouped b a (padded b out acc bits) back acc' bits') (hbits' : bits' < a) :
    back = input ∧ bits' < b ∧ acc' % 2 ^ bits' = 0 := by
  obtain ⟨pad, hpad, hlength, hvalue⟩ := padded_spec h hbits
  have hcount := h'.length
  rw [hlength] at hcount
  have hsame : back.length = input.length := by
    rcases Nat.lt_trichotomy back.length input.length with hlt | heq | hgt
    · have := Nat.mul_le_mul_left a hlt
      rw [Nat.succ_eq_add_one, Nat.mul_add] at this
      omega
    · exact heq
    · have := Nat.mul_le_mul_left a hgt
      rw [Nat.succ_eq_add_one, Nat.mul_add] at this
      omega
  rw [hsame] at hcount
  have hleft : bits' = pad := by omega
  subst hleft
  have hsum := h'.value
  rw [hvalue] at hsum
  have hlow := Nat.mod_lt acc' (Nat.two_pow_pos bits')
  have hzero : acc' % 2 ^ bits' = 0 := by
    have hmod := congrArg (· % 2 ^ bits') hsum
    simp only [Nat.mul_mod_left] at hmod
    rw [Nat.add_comm, Nat.add_mul_mod_self_right, Nat.mod_eq_of_lt hlow] at hmod
    exact hmod
  refine ⟨value_inj ?_ hsame h'.digits hinput ?_, hpad, hzero⟩
  · exact Nat.one_lt_two_pow (by omega)
  · rw [hzero, Nat.add_zero] at hsum
    exact Nat.eq_of_mul_eq_mul_right (Nat.two_pow_pos bits') hsum

/-- Digits of which only zeros, less than one digit, were left over are the
padded regrouping of what they were regrouped to. -/
theorem Regrouped.recreate (h : Regrouped a b input out acc bits) (hbits : bits < a)
    (hzero : acc % 2 ^ bits = 0) (hinput : ∀ d ∈ input, d < 2 ^ a) {back : List Nat}
    {acc' bits' : Nat} (h' : Regrouped b a out back acc' bits') (hbits' : bits' < a) :
    padded a back acc' bits' = input := by
  obtain ⟨pad, hpad, hlength, hvalue⟩ := padded_spec h' hbits'
  have hcount := h.length
  have hsame : (padded a back acc' bits').length = input.length := by
    rcases Nat.lt_trichotomy (padded a back acc' bits').length input.length with hlt | heq | hgt
    · have := Nat.mul_le_mul_left a hlt
      rw [Nat.succ_eq_add_one, Nat.mul_add] at this
      omega
    · exact heq
    · have := Nat.mul_le_mul_left a hgt
      rw [Nat.succ_eq_add_one, Nat.mul_add] at this
      omega
  rw [hsame] at hlength
  have hleft : pad = bits := by omega
  have hsum := h.value
  rw [hzero, Nat.add_zero] at hsum
  rw [hleft, hsum] at hvalue
  exact value_inj (Nat.one_lt_two_pow (by omega)) hsame (padded_digits h') hinput hvalue

end Radix
