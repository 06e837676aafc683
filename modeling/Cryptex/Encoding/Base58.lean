import Cryptex.Encoding.Base64
import Cryptex.Lib.Radix
import Mathlib.Data.List.TakeWhile

/-!
# Base 58

The codec of `base64.cpp`: repeated division of a big-endian number, and
multiplication back.
-/

namespace Cryptex

namespace Encoding

def base58Alphabet : Bytes := chars "123456789ABCDEFGHJKLMNPQRSTUVWXYZabcdefghijkmnopqrstuvwxyz"

/-- `1`, the digit zero. -/
def zeroChar : UInt8 := 49

def base58Digit (d : Nat) : UInt8 := base58Alphabet.getD d 0

/-- The digit of a character, if it has one. -/
def base58Value (ch : UInt8) : Option Nat :=
  if ch ∈ base58Alphabet then some (base58Alphabet.idxOf ch) else none

/-- The inner loop of `base58_encode`: the quotient by 58, in place, and the
remainder. -/
def divide58 (remainder : Nat) : Bytes → Bytes × Nat
  | [] => ([], remainder)
  | b :: rest =>
      let value := remainder <<< 8 + b.toNat
      let (quotient, final) := divide58 (value % 58) rest
      (UInt8.ofNat (value / 58) :: quotient, final)

/-- The inner loop of `base58_decode`, from the last byte: times 58, plus a
carry. -/
def multiply58 (carry : Nat) : Bytes → Bytes × Nat
  | [] => ([], carry)
  | b :: rest =>
      let (product, carry) := multiply58 carry rest
      let carry := carry + 58 * b.toNat
      (UInt8.ofNat (carry &&& 0xFF) :: product, carry >>> 8)

/-- The carry in bytes of its own before the others. -/
def pushCarry (carry : Nat) (decoded : Bytes) : Bytes :=
  if carry = 0 then decoded else pushCarry (carry >>> 8) (UInt8.ofNat (carry &&& 0xFF) :: decoded)
termination_by carry
decreasing_by
  rw [Nat.shiftRight_eq_div_pow]
  exact Nat.div_lt_self (by omega) (by omega)

/-! ## Numbers in bytes -/

theorem fromBytes_eq_value (data : Bytes) : fromBytes data = Radix.value 256 (data.map UInt8.toNat) := by
  induction data using List.reverseRecOn with
  | nil => rfl
  | append_singleton data b ih =>
      rw [fromBytes_append_singleton, ih, List.map_append, List.map_singleton,
        Radix.value_append_singleton]

theorem fromBytes_dropWhile : ∀ (data : Bytes),
    fromBytes (data.dropWhile (· = 0)) = fromBytes data ∧
      (data.dropWhile (· = 0)).length ≤ data.length
  | [] => ⟨rfl, le_rfl⟩
  | b :: rest => by
      obtain ⟨hvalue, hlength⟩ := fromBytes_dropWhile rest
      rw [List.dropWhile_cons]
      split
      · next hzero =>
          have hb : b = 0 := of_decide_eq_true hzero
          rw [hvalue, fromBytes_cons, hb, UInt8.toNat_zero, Nat.zero_mul, Nat.zero_add]
          exact ⟨rfl, Nat.le_succ_of_le hlength⟩
      · exact ⟨rfl, le_rfl⟩

theorem head?_dropWhile_zero (data : Bytes) : (data.dropWhile (· = 0)).head? ≠ some 0 := by
  intro hhead
  have hnot := List.head?_dropWhile_not (· = (0 : UInt8)) data
  rw [hhead] at hnot
  cases hnot

/-- Bytes without a leading zero are determined by their number. -/
theorem eq_of_fromBytes {data data' : Bytes} (h : data.head? ≠ some 0) (h' : data'.head? ≠ some 0)
    (hvalue : fromBytes data = fromBytes data') : data = data' := by
  have hdigits : ∀ {l : Bytes}, l.head? ≠ some 0 →
      Nat.digits 256 (fromBytes l) = (l.map UInt8.toNat).reverse := by
    intro l hl
    rw [fromBytes_eq_value]
    refine Radix.digits_value (by omega) (fun d hd => ?_) fun hhead => hl ?_
    · obtain ⟨b, -, rfl⟩ := List.mem_map.mp hd
      exact b.toNat_lt
    · rw [List.head?_map, Option.map_eq_some_iff] at hhead
      obtain ⟨b, hb, hzero⟩ := hhead
      rw [hb, UInt8.toNat_inj.mp (hzero.trans UInt8.toNat_zero.symm)]
  have hmap := (hdigits h).symm.trans ((congrArg _ hvalue).trans (hdigits h'))
  exact List.map_injective_iff.mpr (fun _ _ => UInt8.toNat_inj.mp) (List.reverse_injective hmap)

/-! ## The loops -/

theorem divide58_spec : ∀ (input : Bytes) (remainder : Nat), remainder < 58 →
    (divide58 remainder input).1.length = input.length ∧ (divide58 remainder input).2 < 58 ∧
      fromBytes (divide58 remainder input).1 * 58 + (divide58 remainder input).2
        = remainder * 256 ^ input.length + fromBytes input
  | [], remainder, h => ⟨rfl, h, by simp [divide58, fromBytes]⟩
  | b :: rest, remainder, h => by
      have hb := b.toNat_lt
      have hshift : remainder <<< 8 = remainder * 256 := Nat.shiftLeft_eq remainder 8
      obtain ⟨hlength, hlt, hvalue⟩ := divide58_spec rest ((remainder <<< 8 + b.toNat) % 58)
        (Nat.mod_lt _ (by omega))
      have hdigit : (UInt8.ofNat ((remainder <<< 8 + b.toNat) / 58)).toNat
          = (remainder <<< 8 + b.toNat) / 58 := by
        rw [UInt8.toNat_ofNat', Nat.mod_eq_of_lt]
        omega
      refine ⟨?_, hlt, ?_⟩
      · rw [divide58, List.length_cons, hlength, List.length_cons]
      · simp only [divide58]
        rw [fromBytes_cons, hdigit, hlength, fromBytes_cons, List.length_cons, pow_succ, Nat.add_mul,
          Nat.add_assoc, hvalue]
        have hsplit := Nat.div_add_mod (remainder <<< 8 + b.toNat) 58
        rw [hshift] at hsplit ⊢
        calc (remainder * 256 + b.toNat) / 58 * 256 ^ rest.length * 58
              + ((remainder * 256 + b.toNat) % 58 * 256 ^ rest.length + fromBytes rest)
            = (58 * ((remainder * 256 + b.toNat) / 58) + (remainder * 256 + b.toNat) % 58)
                * 256 ^ rest.length + fromBytes rest := by ring
          _ = _ := by
            rw [hsplit]
            ring

theorem shiftRight_eight (n : Nat) : n >>> 8 = n / 256 := Nat.shiftRight_eq_div_pow n 8

theorem multiply58_spec (carry : Nat) : ∀ (decoded : Bytes),
    (multiply58 carry decoded).1.length = decoded.length ∧
      (multiply58 carry decoded).2 * 256 ^ decoded.length + fromBytes (multiply58 carry decoded).1
        = fromBytes decoded * 58 + carry
  | [] => ⟨rfl, by simp [multiply58, fromBytes]⟩
  | b :: rest => by
      obtain ⟨hlength, hvalue⟩ := multiply58_spec carry rest
      have hsplit := Nat.div_add_mod ((multiply58 carry rest).2 + 58 * b.toNat) 256
      have hbyte : (UInt8.ofNat ((multiply58 carry rest).2 + 58 * b.toNat &&& 0xFF)).toNat
          = ((multiply58 carry rest).2 + 58 * b.toNat) % 256 := by
        rw [Nat.and_two_pow_sub_one_eq_mod _ 8, UInt8.toNat_ofNat', Nat.mod_mod]
      refine ⟨?_, ?_⟩
      · rw [multiply58, List.length_cons, hlength, List.length_cons]
      · simp only [multiply58]
        rw [fromBytes_cons, hbyte, hlength, fromBytes_cons, List.length_cons, pow_succ,
          shiftRight_eight]
        calc ((multiply58 carry rest).2 + 58 * b.toNat) / 256 * (256 ^ rest.length * 256)
              + (((multiply58 carry rest).2 + 58 * b.toNat) % 256 * 256 ^ rest.length
                + fromBytes (multiply58 carry rest).1)
            = (256 * (((multiply58 carry rest).2 + 58 * b.toNat) / 256)
                + ((multiply58 carry rest).2 + 58 * b.toNat) % 256) * 256 ^ rest.length
                + fromBytes (multiply58 carry rest).1 := by ring
          _ = b.toNat * 256 ^ rest.length * 58 + ((multiply58 carry rest).2 * 256 ^ rest.length
                + fromBytes (multiply58 carry rest).1) := by
            rw [hsplit]
            ring
          _ = _ := by
            rw [hvalue]
            ring

theorem pushCarry_spec (carry : Nat) (decoded : Bytes) :
    fromBytes (pushCarry carry decoded) = carry * 256 ^ decoded.length + fromBytes decoded ∧
      (0 < carry → (pushCarry carry decoded).head? ≠ some 0) := by
  fun_induction pushCarry carry decoded with
  | case1 decoded => exact ⟨by rw [Nat.zero_mul, Nat.zero_add], fun hpos => absurd hpos (by omega)⟩
  | case2 carry decoded hpos ih =>
      have hsplit := Nat.div_add_mod carry 256
      have hbyte : (UInt8.ofNat (carry &&& 0xFF)).toNat = carry % 256 := by
        rw [Nat.and_two_pow_sub_one_eq_mod _ 8, UInt8.toNat_ofNat', Nat.mod_mod]
      obtain ⟨hvalue, hhead⟩ := ih
      refine ⟨?_, fun _ => ?_⟩
      · rw [hvalue, fromBytes_cons, hbyte, List.length_cons, pow_succ, shiftRight_eight]
        calc carry / 256 * (256 ^ decoded.length * 256)
              + (carry % 256 * 256 ^ decoded.length + fromBytes decoded)
            = (256 * (carry / 256) + carry % 256) * 256 ^ decoded.length + fromBytes decoded := by
              ring
          _ = _ := by rw [hsplit]
      · rcases Nat.eq_zero_or_pos (carry >>> 8) with hzero | hmore
        · rw [hzero, pushCarry, if_pos rfl, List.head?_cons]
          intro heq
          have hnat := congrArg UInt8.toNat (Option.some.inj heq)
          rw [hbyte, UInt8.toNat_zero] at hnat
          rw [Nat.shiftRight_eq_div_pow] at hzero
          omega
        · exact hhead hmore

/-! ## Encoding -/

/-- The outer loop of `base58_encode` over the bytes from `start` on: the
digits, the last one first. -/
def base58Loop (input : Bytes) : List Nat :=
  match input with
  | [] => []
  | b :: rest =>
      (divide58 0 (b :: rest)).2 :: base58Loop ((divide58 0 (b :: rest)).1.dropWhile (· = 0))
termination_by fromBytes input + input.length
decreasing_by
  obtain ⟨hlength, hlt, hvalue⟩ := divide58_spec (b :: rest) 0 (by omega)
  obtain ⟨hsame, hle⟩ := fromBytes_dropWhile (divide58 0 (b :: rest)).1
  rw [Nat.zero_mul, Nat.zero_add] at hvalue
  rw [hlength] at hle
  rcases Nat.eq_zero_or_pos (fromBytes (b :: rest)) with hzero | hpos
  · have hnil : (divide58 0 (b :: rest)).1.dropWhile (· = 0) = [] :=
      eq_of_fromBytes (head?_dropWhile_zero _) (by simp)
        (hsame.trans (by rw [show fromBytes [] = 0 from rfl]; omega))
    rw [hnil, hzero]
    exact Nat.lt_of_lt_of_eq (Nat.zero_lt_succ rest.length) (Nat.zero_add _).symm
  · omega

/-- `base58_encode`. -/
def base58Encode (data : Bytes) : Bytes :=
  let zeros := (data.takeWhile (· = 0)).length
  List.replicate zeros zeroChar ++ ((base58Loop (data.drop zeros)).map base58Digit).reverse

/-- The loop of `base58_decode`. -/
def decode58 : Bytes → Bytes → Option Bytes
  | decoded, [] => some decoded
  | decoded, ch :: text =>
      match base58Value ch with
      | none => none
      | some digit =>
          decode58 (pushCarry (multiply58 digit decoded).2 (multiply58 digit decoded).1) text

/-- `base58_decode`. -/
def base58Decode (text : Bytes) : Option Bytes :=
  let zeros := (text.takeWhile (· = zeroChar)).length
  (decode58 [] text).map fun decoded => List.replicate zeros 0 ++ decoded

/-! ## Round trip -/

/-- The loop writes the digits of the number. -/
theorem base58Loop_eq (input : Bytes) (h : input.head? ≠ some 0) :
    base58Loop input = Nat.digits 58 (fromBytes input) := by
  fun_induction base58Loop input with
  | case1 => rw [show fromBytes [] = 0 from rfl, Nat.digits_zero]
  | case2 b rest ih =>
      obtain ⟨-, hlt, hvalue⟩ := divide58_spec (b :: rest) 0 (by omega)
      have hpos : 0 < fromBytes (b :: rest) := by
        rcases Nat.eq_zero_or_pos (fromBytes (b :: rest)) with hzero | hpos
        · exact absurd (eq_of_fromBytes h (by simp) (hzero.trans rfl)) (List.cons_ne_nil b rest)
        · exact hpos
      rw [Nat.zero_mul, Nat.zero_add] at hvalue
      rw [ih (head?_dropWhile_zero _), (fromBytes_dropWhile _).1, Nat.digits_def' (by omega) hpos,
        ← hvalue, Nat.mul_add_mod_of_lt hlt, Nat.mul_comm _ 58, Nat.mul_add_div (by omega),
        Nat.div_eq_of_lt hlt, Nat.add_zero]

theorem base58Value_digit : ∀ d < 58, base58Value (base58Digit d) = some d := by decide

theorem base58Digit_zero : base58Digit 0 = zeroChar := by decide

theorem digit_ne_zeroChar : ∀ d < 58, d ≠ 0 → base58Digit d ≠ zeroChar := by decide

/-- A product without a carry is as long as the number, so that it has no
leading zero either. -/
theorem head?_product (digit : Nat) {decoded : Bytes} (h : decoded.head? ≠ some 0)
    (hcarry : (multiply58 digit decoded).2 = 0) : (multiply58 digit decoded).1.head? ≠ some 0 := by
  obtain ⟨hlength, hvalue⟩ := multiply58_spec digit decoded
  rw [hcarry, Nat.zero_mul, Nat.zero_add] at hvalue
  intro hhead
  obtain ⟨tail, hproduct⟩ := List.head?_eq_some_iff.mp hhead
  cases decoded with
  | nil => rw [hproduct] at hlength; cases hlength
  | cons b rest =>
      have hb : 1 ≤ b.toNat := by
        rcases Nat.eq_zero_or_pos b.toNat with hzero | hpos
        · exact absurd (congrArg some (UInt8.toNat_inj.mp (hzero.trans UInt8.toNat_zero.symm))) h
        · exact hpos
      have htail : tail.length = rest.length := by
        rw [hproduct, List.length_cons, List.length_cons] at hlength
        omega
      have hlt := fromBytes_lt tail
      have hge := Nat.mul_le_mul_right (256 ^ rest.length) hb
      rw [hproduct, fromBytes_cons, fromBytes_cons, UInt8.toNat_zero] at hvalue
      rw [htail] at hlt
      omega

theorem head?_pushCarry (digit : Nat) {decoded : Bytes} (h : decoded.head? ≠ some 0) :
    (pushCarry (multiply58 digit decoded).2 (multiply58 digit decoded).1).head? ≠ some 0 := by
  rcases Nat.eq_zero_or_pos (multiply58 digit decoded).2 with hzero | hpos
  · rw [hzero, pushCarry, if_pos rfl]
    exact head?_product digit h hzero
  · exact (pushCarry_spec _ _).2 hpos

/-- What decoding a run of digits does to the number decoded so far. -/
theorem decode58_digits : ∀ (digits : List Nat) (decoded : Bytes), (∀ d ∈ digits, d < 58) →
    decoded.head? ≠ some 0 → ∃ final : Bytes, decode58 decoded (digits.map base58Digit) = some final ∧
      final.head? ≠ some 0 ∧
      fromBytes final = digits.foldl (fun n d => n * 58 + d) (fromBytes decoded)
  | [], decoded, _, hhead => ⟨decoded, rfl, hhead, rfl⟩
  | d :: rest, decoded, h, hhead => by
      obtain ⟨hlength, hproduct⟩ := multiply58_spec d decoded
      obtain ⟨hvalue, -⟩ := pushCarry_spec (multiply58 d decoded).2 (multiply58 d decoded).1
      rw [hlength, hproduct] at hvalue
      rw [List.map_cons, decode58, base58Value_digit d (h d List.mem_cons_self)]
      obtain ⟨final, hdecode, hfinal, hnumber⟩ := decode58_digits rest _
        (fun e he => h e (List.mem_cons_of_mem _ he)) (head?_pushCarry d hhead)
      exact ⟨final, hdecode, hfinal, by rw [hnumber, hvalue, List.foldl_cons]⟩

theorem takeWhile_replicate_append {α : Type*} [DecidableEq α] {a : α} {l : List α} (n : Nat)
    (h : l.head? ≠ some a) :
    ((List.replicate n a ++ l).takeWhile (· = a)).length = n := by
  induction n with
  | zero =>
      cases l with
      | nil => rfl
      | cons x rest =>
          have hx : x ≠ a := fun heq => h (congrArg some heq)
          rw [List.replicate_zero, List.nil_append, List.takeWhile_cons, if_neg (by simpa using hx)]
          rfl
  | succ n ih =>
      rw [List.replicate_succ, List.cons_append, List.takeWhile_cons, if_pos (by simp),
        List.length_cons, ih]

/-- A list is a run of one element before a rest that does not begin with it. -/
theorem exists_replicate_append {α : Type*} [DecidableEq α] (a : α) (l : List α) :
    ∃ n rest, l = List.replicate n a ++ rest ∧ rest.head? ≠ some a := by
  induction l with
  | nil => exact ⟨0, [], rfl, nofun⟩
  | cons x l ih =>
      by_cases hx : x = a
      · obtain ⟨n, rest, rfl, hhead⟩ := ih
        exact ⟨n + 1, rest, by rw [hx, List.replicate_succ, List.cons_append], hhead⟩
      · exact ⟨0, x :: l, rfl, fun heq => hx (Option.some.inj heq)⟩

theorem takeWhile_zero (data : Bytes) : data
    = List.replicate (data.takeWhile (· = 0)).length 0 ++ data.dropWhile (· = 0) := by
  have hzeros : data.takeWhile (· = 0) = List.replicate (data.takeWhile (· = 0)).length 0 :=
    List.eq_replicate_of_mem fun b hb => by simpa using List.mem_takeWhile_imp hb
  rw [← hzeros, List.takeWhile_append_dropWhile]

/-- An encoding, digit by digit. -/
theorem base58Encode_eq (data : Bytes) : base58Encode data
    = (List.replicate (data.takeWhile (· = 0)).length 0
        ++ (Nat.digits 58 (fromBytes data)).reverse).map base58Digit := by
  have hdrop : data.drop (data.takeWhile (· = 0)).length = data.dropWhile (· = 0) :=
    calc data.drop (data.takeWhile (· = 0)).length
        = (data.takeWhile (· = 0) ++ data.dropWhile (· = 0)).drop
            (data.takeWhile (· = 0)).length := by rw [List.takeWhile_append_dropWhile]
      _ = data.dropWhile (· = 0) := List.drop_left
  rw [base58Encode, hdrop, base58Loop_eq _ (head?_dropWhile_zero data), (fromBytes_dropWhile data).1,
    List.map_append, List.map_replicate, base58Digit_zero, List.map_reverse]

/-- What was encoded is decoded. -/
theorem base58Decode_base58Encode (data : Bytes) : base58Decode (base58Encode data) = some data := by
  have hdigits : ∀ d ∈ List.replicate (data.takeWhile (· = 0)).length 0
      ++ (Nat.digits 58 (fromBytes data)).reverse, d < 58 := by
    intro d hd
    rcases List.mem_append.mp hd with hd | hd
    · rw [List.eq_of_mem_replicate hd]
      omega
    · exact Nat.digits_lt_base (by omega) (List.mem_reverse.mp hd)
  obtain ⟨final, hdecode, hhead, hvalue⟩ := decode58_digits _ [] hdigits (by simp)
  rw [show fromBytes [] = 0 from rfl, ← Radix.value_eq_foldl, Radix.value_replicate_append,
    Radix.value_reverse_digits, ← (fromBytes_dropWhile data).1] at hvalue
  have hfinal := eq_of_fromBytes hhead (head?_dropWhile_zero data) hvalue
  have hzeros : ((base58Encode data).takeWhile (· = zeroChar)).length
      = (data.takeWhile (· = 0)).length := by
    rw [base58Encode_eq, List.map_append, List.map_replicate, base58Digit_zero]
    refine takeWhile_replicate_append _ fun hfirst => ?_
    rw [List.head?_map, List.head?_reverse, Option.map_eq_some_iff] at hfirst
    obtain ⟨d, hd, hchar⟩ := hfirst
    have hmem := List.mem_of_getLast? hd
    refine digit_ne_zeroChar d (Nat.digits_lt_base (by omega) hmem) (fun hzero => ?_) hchar
    have hne : fromBytes data ≠ 0 := fun hnil => by rw [hnil, Nat.digits_zero] at hmem; cases hmem
    refine Nat.getLast_digit_ne_zero 58 hne ?_
    rw [List.getLast?_eq_some_getLast (List.ne_nil_of_mem hmem)] at hd
    rw [Option.some.inj hd, hzero]
  rw [base58Decode, hzeros, base58Encode_eq, hdecode, Option.map_some, hfinal, ← takeWhile_zero]

theorem base58Digit_idxOf : ∀ ch ∈ base58Alphabet,
    base58Alphabet.idxOf ch < 58 ∧ base58Digit (base58Alphabet.idxOf ch) = ch := by decide

theorem base58Value_some {ch : UInt8} {d : Nat} (h : base58Value ch = some d) :
    d < 58 ∧ base58Digit d = ch := by
  rw [base58Value] at h
  split at h
  · next hmem =>
      cases h
      exact base58Digit_idxOf ch hmem
  · cases h

/-- A text that is decoded consists of digits. -/
theorem digits_of_decode58 : ∀ {text decoded final : Bytes}, decode58 decoded text = some final →
    ∃ digits : List Nat, (∀ d ∈ digits, d < 58) ∧ text = digits.map base58Digit
  | [], _, _, _ => ⟨[], nofun, rfl⟩
  | ch :: text, decoded, final, h => by
      rw [decode58] at h
      split at h
      · cases h
      · next d hd =>
          obtain ⟨hlt, hchar⟩ := base58Value_some hd
          obtain ⟨digits, hdigits, rfl⟩ := digits_of_decode58 h
          refine ⟨d :: digits, fun e he => ?_, by rw [List.map_cons, hchar]⟩
          rcases List.mem_cons.mp he with rfl | he
          · exact hlt
          · exact hdigits e he

/-- What was decoded is encoded. -/
theorem base58Encode_base58Decode {text data : Bytes} (h : base58Decode text = some data) :
    base58Encode data = text := by
  rw [base58Decode, Option.map_eq_some_iff] at h
  obtain ⟨decoded, hdecode, rfl⟩ := h
  obtain ⟨digits, hdigits, rfl⟩ := digits_of_decode58 hdecode
  obtain ⟨zeros, rest, rfl, hhead⟩ := exists_replicate_append 0 digits
  have hrest : ∀ d ∈ rest, d < 58 := fun d hd => hdigits d (List.mem_append_right _ hd)
  have hcount : (((List.replicate zeros 0 ++ rest).map base58Digit).takeWhile
      (· = zeroChar)).length = zeros := by
    rw [List.map_append, List.map_replicate, base58Digit_zero]
    refine takeWhile_replicate_append _ fun hfirst => ?_
    rw [List.head?_map, Option.map_eq_some_iff] at hfirst
    obtain ⟨d, hd, hchar⟩ := hfirst
    refine digit_ne_zeroChar d (hrest d (List.mem_of_mem_head? hd)) (fun hzero => ?_) hchar
    exact hhead (hzero ▸ hd)
  obtain ⟨final, hfinal, hfirst, hvalue⟩ := decode58_digits _ [] hdigits (by simp)
  rw [hdecode, Option.some_inj] at hfinal
  subst hfinal
  rw [show fromBytes [] = 0 from rfl, ← Radix.value_eq_foldl, Radix.value_replicate_append] at hvalue
  have hnumber : fromBytes (List.replicate zeros 0 ++ decoded) = Radix.value 58 rest := by
    rw [← hvalue, fromBytes_eq_value, List.map_append, List.map_replicate, UInt8.toNat_zero,
      Radix.value_replicate_append, ← fromBytes_eq_value]
  rw [hcount, base58Encode_eq, takeWhile_replicate_append _ hfirst, hnumber,
    Radix.digits_value (by omega) hrest hhead, List.reverse_reverse]

/-- The length of an encoding of a number without leading zeros. -/
theorem length_base58Encode_le {data : Bytes} {k : Nat} (h : data.head? ≠ some 0)
    (hlt : 256 ^ data.length ≤ 58 ^ k) : (base58Encode data).length ≤ k := by
  have hzeros : (data.takeWhile (· = 0)).length = 0 := by
    have hlength := takeWhile_replicate_append 0 h
    rwa [List.replicate_zero, List.nil_append] at hlength
  rw [base58Encode_eq, hzeros, List.replicate_zero, List.nil_append, List.length_map,
    List.length_reverse, Nat.digits_length_le_iff (by omega)]
  exact Nat.lt_of_lt_of_le (fromBytes_lt data) hlt

end Encoding

end Cryptex
