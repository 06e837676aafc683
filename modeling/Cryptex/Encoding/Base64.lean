import Cryptex.Types
import Mathlib.Data.List.Infix

/-!
# Base 64

The codec of `base64.cpp`. Strings are lists of bytes, and a function that
throws returns an `Option`.
-/

namespace Cryptex

namespace Encoding

/-- The characters of a literal. -/
def chars (s : String) : Bytes := s.toList.map fun ch => UInt8.ofNat ch.toNat

/-- `=`. -/
def padChar : UInt8 := 61

def encodingTable : Bytes := chars "ABCDEFGHIJKLMNOPQRSTUVWXYZabcdefghijklmnopqrstuvwxyz0123456789+/"

/-- `encoding_table[i & 0x3F]`. -/
def encodeDigit (i : Nat) : UInt8 := encodingTable.getD (i &&& 0x3F) 0

/-- `decoding_table`, which holds 0xFF where the alphabet has no character. -/
def decodingTable (ch : UInt8) : Nat :=
  if ch ∈ encodingTable then encodingTable.idxOf ch else 0xFF

/-- `base64_encode`. -/
def base64Encode : Bytes → Bytes
  | [] => []
  | [x] =>
      let triple := x.toNat <<< 16
      [encodeDigit (triple >>> 18), encodeDigit (triple >>> 12), padChar, padChar]
  | [x, y] =>
      let triple := x.toNat <<< 16 ||| y.toNat <<< 8
      [encodeDigit (triple >>> 18), encodeDigit (triple >>> 12), encodeDigit (triple >>> 6), padChar]
  | x :: y :: z :: rest =>
      let triple := x.toNat <<< 16 ||| y.toNat <<< 8 ||| z.toNat
      encodeDigit (triple >>> 18) :: encodeDigit (triple >>> 12) :: encodeDigit (triple >>> 6) ::
        encodeDigit triple :: base64Encode rest

/-- What `base64_is_valid` accepts at position `i`. -/
def validAt (base64 : Bytes) (ch : UInt8) (i : Nat) : Bool :=
  if ch = padChar then
    if i < base64.length - 2 then false
    else if i = base64.length - 2 ∧ base64.getLast? ≠ some padChar then false
    else true
  else decodingTable ch != 0xFF

/-- `base64_is_valid`. -/
def base64IsValid (base64 : Bytes) : Bool :=
  if base64 = [] then true
  else if base64.length % 4 ≠ 0 then false
  else base64.zipIdx.all fun (ch, i) => validAt base64 ch i

/-- The loop of `base64_decode`. -/
def decodeQuads : Bytes → Bytes
  | a :: b :: c :: d :: rest =>
      let va := decodingTable a
      let vb := decodingTable b
      let vc := if c = padChar then 0 else decodingTable c
      let vd := if d = padChar then 0 else decodingTable d
      let triple := va <<< 18 ||| vb <<< 12 ||| vc <<< 6 ||| vd
      UInt8.ofNat (triple >>> 16 &&& 0xFF) ::
        ((if c = padChar then [] else [UInt8.ofNat (triple >>> 8 &&& 0xFF)]) ++
          ((if d = padChar then [] else [UInt8.ofNat (triple &&& 0xFF)]) ++ decodeQuads rest))
  | _ => []

/-- `base64_decode`. -/
def base64Decode (base64 : Bytes) : Option Bytes :=
  if base64IsValid base64 then some (decodeQuads base64) else none

/-! ## Digits -/

theorem encodeDigit_mod (i : Nat) : encodeDigit i = encodeDigit (i % 64) := by
  have hand : ∀ n, n &&& 0x3F = n % 64 := fun n => Nat.and_two_pow_sub_one_eq_mod n 6
  rw [encodeDigit, encodeDigit, hand, hand, Nat.mod_mod]

theorem decodingTable_digit : ∀ i < 64, decodingTable (encodeDigit i) = i := by decide +kernel

theorem decodingTable_encodeDigit (i : Nat) : decodingTable (encodeDigit i) = i % 64 := by
  rw [encodeDigit_mod, decodingTable_digit _ (Nat.mod_lt _ (by omega))]

theorem digit_ne_padChar : ∀ i < 64, encodeDigit i ≠ padChar := by decide

theorem encodeDigit_ne_padChar (i : Nat) : encodeDigit i ≠ padChar := by
  rw [encodeDigit_mod]
  exact digit_ne_padChar _ (Nat.mod_lt _ (by omega))

/-! ## Groups of bits -/

theorem shift_or {x y : Nat} (i : Nat) (h : y < 2 ^ i) : x <<< i ||| y = x * 2 ^ i + y := by
  rw [← Nat.shiftLeft_add_eq_or_of_lt h, Nat.shiftLeft_eq]

theorem triple_eq {x y z : Nat} (hy : y < 256) (hz : z < 256) :
    x <<< 16 ||| y <<< 8 ||| z = x * 65536 + y * 256 + z := by
  rw [Nat.or_assoc, shift_or 8 hz, shift_or 16 (by omega)]
  omega

theorem quad_eq {a b c d : Nat} (hb : b < 64) (hc : c < 64) (hd : d < 64) :
    a <<< 18 ||| b <<< 12 ||| c <<< 6 ||| d = a * 262144 + b * 4096 + c * 64 + d := by
  rw [Nat.or_assoc, Nat.or_assoc, shift_or 6 hd, shift_or 12 (by omega), shift_or 18 (by omega)]
  omega

theorem byte_eq {n : Nat} {x : UInt8} (h : n % 256 = x.toNat) : UInt8.ofNat (n &&& 0xFF) = x := by
  rw [show n &&& 0xFF = n % 256 from Nat.and_two_pow_sub_one_eq_mod n 8, h, UInt8.ofNat_toNat]

/-! ## Round trip -/

theorem decodeQuads_one (x : UInt8) : decodeQuads (base64Encode [x]) = [x] := by
  have hx := x.toNat_lt
  simp only [base64Encode, decodeQuads, if_true, decodingTable_encodeDigit, Nat.shiftRight_eq_div_pow]
  rw [quad_eq (by omega) (by omega) (by omega), Nat.shiftLeft_eq]
  exact congrArg (fun b => [b]) (byte_eq (by omega))

theorem decodeQuads_two (x y : UInt8) : decodeQuads (base64Encode [x, y]) = [x, y] := by
  have hx := x.toNat_lt
  have hy := y.toNat_lt
  have htriple : x.toNat <<< 16 ||| y.toNat <<< 8 = x.toNat * 65536 + y.toNat * 256 := by
    have h := triple_eq (x := x.toNat) hy (z := 0) (by omega)
    rwa [Nat.or_zero, Nat.add_zero] at h
  simp only [base64Encode, decodeQuads, htriple, if_true, if_neg (encodeDigit_ne_padChar _),
    decodingTable_encodeDigit, Nat.shiftRight_eq_div_pow]
  rw [quad_eq (by omega) (by omega) (by omega)]
  exact congrArg₂ (fun b b' => [b, b']) (byte_eq (by omega)) (byte_eq (by omega))

theorem decodeQuads_base64Encode : ∀ (data : Bytes), decodeQuads (base64Encode data) = data
  | [] => rfl
  | [x] => decodeQuads_one x
  | [x, y] => decodeQuads_two x y
  | x :: y :: z :: rest => by
      have hx := x.toNat_lt
      have hy := y.toNat_lt
      have hz := z.toNat_lt
      simp only [base64Encode, decodeQuads, triple_eq hy hz, if_neg (encodeDigit_ne_padChar _),
        decodingTable_encodeDigit, Nat.shiftRight_eq_div_pow, decodeQuads_base64Encode rest]
      rw [quad_eq (by omega) (by omega) (by omega), byte_eq (x := x) (by omega),
        byte_eq (x := y) (by omega), byte_eq (x := z) (by omega)]
      rfl

/-! ## What is encoded is valid -/

theorem length_base64Encode : ∀ (data : Bytes),
    (base64Encode data).length = (data.length + 2) / 3 * 4
  | [] => by simp [base64Encode]
  | [x] => by simp [base64Encode]
  | [x, y] => by simp [base64Encode]
  | x :: y :: z :: rest => by
      simp only [base64Encode, List.length_cons, length_base64Encode rest]
      omega

/-- A run of digits, then at most two padding characters. -/
def DigitsThenPadding (s : Bytes) : Prop :=
  ∃ digits padding : Bytes, s = digits ++ padding ∧ (∀ ch ∈ digits, ∃ i, ch = encodeDigit i) ∧
    (padding = [] ∨ padding = [padChar] ∨ padding = [padChar, padChar])

theorem DigitsThenPadding.cons {s : Bytes} (h : DigitsThenPadding s) (i : Nat) :
    DigitsThenPadding (encodeDigit i :: s) := by
  obtain ⟨digits, padding, rfl, hdigits, hpadding⟩ := h
  refine ⟨encodeDigit i :: digits, padding, rfl, fun ch hch => ?_, hpadding⟩
  rcases List.mem_cons.mp hch with rfl | hch
  · exact ⟨i, rfl⟩
  · exact hdigits ch hch

theorem digitsThenPadding_base64Encode : ∀ (data : Bytes), DigitsThenPadding (base64Encode data)
  | [] => ⟨[], [], rfl, nofun, .inl rfl⟩
  | [_] =>
      have hend : DigitsThenPadding [padChar, padChar] := ⟨[], _, rfl, nofun, .inr (.inr rfl)⟩
      (hend.cons _).cons _
  | [_, _] =>
      have hend : DigitsThenPadding [padChar] := ⟨[], _, rfl, nofun, .inr (.inl rfl)⟩
      ((hend.cons _).cons _).cons _
  | _ :: _ :: _ :: rest =>
      ((((digitsThenPadding_base64Encode rest).cons _).cons _).cons _).cons _

theorem validAt_digit (base64 : Bytes) (n i : Nat) : validAt base64 (encodeDigit n) i = true := by
  have hlt := Nat.mod_lt n (show 64 > 0 by omega)
  rw [validAt, if_neg (encodeDigit_ne_padChar n), decodingTable_encodeDigit, bne_iff_ne]
  omega

/-- Padding is valid at the end, and before the end when padding follows. -/
theorem validAt_padChar {base64 : Bytes} {i : Nat} (hi : base64.length - 2 ≤ i)
    (hlast : base64.getLast? = some padChar) : validAt base64 padChar i = true := by
  rw [validAt, if_pos rfl, if_neg (by omega), if_neg (fun h => h.2 hlast)]

theorem base64IsValid_base64Encode (data : Bytes) : base64IsValid (base64Encode data) = true := by
  obtain ⟨digits, padding, heq, hdigits, hpadding⟩ := digitsThenPadding_base64Encode data
  have hlength := length_base64Encode data
  rw [base64IsValid]
  split
  · rfl
  · rw [if_neg (by omega), List.all_eq_true]
    rintro ⟨ch, i⟩ hmem
    rw [List.mem_zipIdx_iff_getElem?, heq] at hmem
    rw [heq]
    rcases Nat.lt_or_ge i digits.length with hi | hi
    · rw [List.getElem?_append_left hi] at hmem
      obtain ⟨n, rfl⟩ := hdigits ch (List.mem_of_getElem? hmem)
      exact validAt_digit _ n i
    · rw [List.getElem?_append_right hi] at hmem
      have hpad := List.mem_of_getElem? hmem
      rcases hpadding with rfl | rfl | rfl
      · cases hpad
      · cases List.mem_singleton.mp hpad
        exact validAt_padChar (by simp; omega) (by simp)
      · rw [show ch = padChar by simpa using hpad]
        exact validAt_padChar (by simp; omega) (by simp)

/-- What was encoded is decoded. -/
theorem base64Decode_base64Encode (data : Bytes) : base64Decode (base64Encode data) = some data := by
  rw [base64Decode, if_pos (base64IsValid_base64Encode data), decodeQuads_base64Encode]

theorem base64Encode_injective : Function.Injective base64Encode := fun data data' h => by
  have heq := base64Decode_base64Encode data
  rw [h, base64Decode_base64Encode] at heq
  exact (Option.some.inj heq).symm

end Encoding

end Cryptex
