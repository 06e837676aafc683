import Cryptex.Encoding.Address

/-!
# Base 32 and the text codecs

The codec of the mail secrets in `rpc.cpp`, whose buffer is an `int` that wraps
on long inputs, and what the codecs of `base64.cpp` and this one undo.
-/

namespace Cryptex

namespace Encoding

def base32Alphabet : Bytes := chars "ABCDEFGHIJKLMNOPQRSTUVWXYZ234567"

def base32Digit (d : Nat) : UInt8 := base32Alphabet.getD d 0

/-- The inner loop of `base32_encode_bytes`: the bits that are left and the
output. -/
def drain32 (buffer : BitVec 32) (bitsLeft : Nat) (out : Bytes) : Nat × Bytes :=
  if 5 ≤ bitsLeft then
    drain32 buffer (bitsLeft - 5)
      (out ++ [base32Digit (buffer.sshiftRight (bitsLeft - 5) &&& 0x1F).toNat])
  else (bitsLeft, out)
termination_by bitsLeft

/-- The outer loop of `base32_encode_bytes`. -/
def encode32 (buffer : BitVec 32) (bitsLeft : Nat) (out : Bytes) : Bytes → BitVec 32 × Nat × Bytes
  | [] => (buffer, bitsLeft, out)
  | byte :: bytes =>
      let buffer := buffer <<< 8 ||| BitVec.ofNat 32 byte.toNat
      let (bitsLeft, out) := drain32 buffer (bitsLeft + 8) out
      encode32 buffer bitsLeft out bytes

/-- `base32_encode_bytes`. -/
def base32EncodeBytes (bytes : Bytes) : Bytes :=
  let (buffer, bitsLeft, out) := encode32 0 0 [] bytes
  if bitsLeft > 0 then out ++ [base32Digit (buffer <<< (5 - bitsLeft) &&& 0x1F).toNat] else out

/-- `decode_char`. -/
def base32Value (ch : UInt8) : Option Nat :=
  if 65 ≤ ch ∧ ch ≤ 90 then some (ch.toNat - 65)
  else if 97 ≤ ch ∧ ch ≤ 122 then some (ch.toNat - 97)
  else if 50 ≤ ch ∧ ch ≤ 55 then some (26 + (ch.toNat - 50))
  else none

/-- The loop of `base32_decode_bytes`; a character without a value is passed
over. -/
def decode32 (buffer : BitVec 32) (bitsLeft : Nat) (out : Bytes) : Bytes → Bytes
  | [] => out
  | ch :: text =>
      match base32Value ch with
      | none => decode32 buffer bitsLeft out text
      | some value =>
          let buffer := buffer <<< 5 ||| BitVec.ofNat 32 value
          let bitsLeft := bitsLeft + 5
          if bitsLeft ≥ 8 then
            decode32 buffer (bitsLeft - 8)
              (out ++ [UInt8.ofNat (buffer.sshiftRight (bitsLeft - 8) &&& 0xFF).toNat]) text
          else decode32 buffer bitsLeft out text

/-- `base32_decode_bytes`. -/
def base32DecodeBytes (text : Bytes) : Bytes :=
  decode32 0 0 [] (text.filter fun ch => !(isSpace ch || ch = padChar))

/-! ## The buffer -/

/-- A group of bits that lies within the buffer. -/
theorem toNat_sshiftRight_mod (x : BitVec 32) {k n : Nat} (h : k + n ≤ 32) :
    (x.sshiftRight k).toNat % 2 ^ n = x.toNat / 2 ^ k % 2 ^ n := by
  refine Nat.eq_of_testBit_eq fun i => ?_
  rw [Nat.testBit_mod_two_pow, Nat.testBit_mod_two_pow, Nat.testBit_div_two_pow]
  by_cases hi : i < n
  · have hbit := BitVec.getLsbD_sshiftRight x k i
    rw [BitVec.getLsbD, if_pos (by omega), decide_eq_false (by omega), Bool.not_false,
      Bool.true_and, BitVec.getLsbD, Nat.add_comm k i] at hbit
    rw [hbit]
  · rw [decide_eq_false hi, Bool.false_and, Bool.false_and]

/-- A group is shifted into the buffer. -/
theorem toNat_push (x : BitVec 32) {a v : Nat} (ha : a ≤ 8) (hv : v < 2 ^ a) :
    (x <<< a ||| BitVec.ofNat 32 v).toNat = (x.toNat * 2 ^ a + v) % 2 ^ 32 := by
  have hpow : (2 : Nat) ^ a ≤ 2 ^ 8 := Nat.pow_le_pow_right (by omega) ha
  have hsmall : v % 2 ^ 32 = v := Nat.mod_eq_of_lt (by omega)
  have hsplit : (2 : Nat) ^ 32 = 2 ^ a * 2 ^ (32 - a) := by
    rw [← pow_add, Nat.add_sub_cancel' (by omega)]
  rw [BitVec.toNat_or, BitVec.toNat_shiftLeft, BitVec.toNat_ofNat, hsmall, Nat.shiftLeft_eq, hsplit,
    Nat.mul_comm x.toNat, Nat.mul_mod_mul_left, Nat.mul_comm (2 ^ a), ← Nat.shiftLeft_eq,
    shift_or a hv, Nat.mod_mul, Nat.mul_add_mod, Nat.mod_eq_of_lt hv,
    Nat.mul_add_div (Nat.two_pow_pos a), Nat.div_eq_of_lt hv, Nat.add_zero, Nat.add_comm,
    Nat.mul_comm]

theorem toNat_and_mask (x : BitVec 32) (n : Nat) {mask : BitVec 32}
    (hmask : mask.toNat = 2 ^ n - 1) : (x &&& mask).toNat = x.toNat % 2 ^ n := by
  rw [BitVec.toNat_and, hmask, Nat.and_two_pow_sub_one_eq_mod]

/-! ## Round trip -/

/-- What the loops keep of the bits: the output is in digits of 5 bits. -/
theorem drain32_spec {input : List Nat} (buffer : BitVec 32) (bitsLeft : Nat) (out : Bytes)
    {digits : List Nat} (hout : out = digits.map base32Digit) (hsmall : bitsLeft ≤ 12)
    (h : Radix.Regrouped 8 5 input digits buffer.toNat bitsLeft) :
    ∃ digits', (drain32 buffer bitsLeft out).2 = digits'.map base32Digit ∧
      Radix.Regrouped 8 5 input digits' buffer.toNat (drain32 buffer bitsLeft out).1 ∧
        (drain32 buffer bitsLeft out).1 < 5 := by
  fun_induction drain32 buffer bitsLeft out generalizing digits with
  | case1 bitsLeft out hle ih =>
      refine ih ?_ (by omega) (h.write hle)
      rw [hout, List.map_append, List.map_singleton, toNat_and_mask _ 5 (by decide),
        toNat_sshiftRight_mod buffer (by omega)]
  | case2 bitsLeft out hnot => exact ⟨digits, hout, h, by omega⟩

theorem encode32_spec : ∀ (bytes : Bytes) {input : List Nat} {buffer : BitVec 32} {bitsLeft : Nat}
    {digits : List Nat}, bitsLeft < 5 →
    Radix.Regrouped 8 5 input digits buffer.toNat bitsLeft →
    ∃ buffer' bitsLeft' digits', encode32 buffer bitsLeft (digits.map base32Digit) bytes =
      (buffer', bitsLeft', digits'.map base32Digit) ∧ bitsLeft' < 5 ∧
        Radix.Regrouped 8 5 (input ++ bytes.map UInt8.toNat) digits' buffer'.toNat bitsLeft'
  | [], input, buffer, bitsLeft, digits, hbits, h =>
      ⟨buffer, bitsLeft, digits, rfl, hbits, by rwa [List.map_nil, List.append_nil]⟩
  | byte :: bytes, input, buffer, bitsLeft, digits, hbits, h => by
      have hread := h.read byte.toNat_lt (w := 32) (by omega)
      rw [← toNat_push buffer (by omega) byte.toNat_lt] at hread
      obtain ⟨digits₁, hout, hdrain, hless⟩ := drain32_spec _ _ _ rfl (by omega) hread
      obtain ⟨buffer', bitsLeft', digits', hloop, hbits', hfinal⟩ := encode32_spec bytes hless hdrain
      refine ⟨buffer', bitsLeft', digits', ?_, hbits', ?_⟩
      · rw [encode32, ← hloop, ← hout]
      · rwa [List.map_cons, List.append_cons]

/-- The digits of an encoding are those of the bytes, padded. -/
theorem base32EncodeBytes_eq (bytes : Bytes) : ∃ buffer bitsLeft digits, bitsLeft < 5 ∧
    Radix.Regrouped 8 5 (bytes.map UInt8.toNat) digits buffer bitsLeft ∧
      base32EncodeBytes bytes = (Radix.padded 5 digits buffer bitsLeft).map base32Digit := by
  have hstart : Radix.Regrouped 8 5 [] [] (0 : BitVec 32).toNat 0 := .start
  obtain ⟨buffer, bitsLeft, digits, hloop, hbits, h⟩ := encode32_spec bytes (by omega) hstart
  refine ⟨buffer.toNat, bitsLeft, digits, hbits, h, ?_⟩
  have hshift : (buffer <<< (5 - bitsLeft)).toNat % 2 ^ 5 =
      buffer.toNat * 2 ^ (5 - bitsLeft) % 2 ^ 5 := by
    rw [BitVec.toNat_shiftLeft, Nat.shiftLeft_eq, Nat.mod_mod_of_dvd _ (pow_dvd_pow 2 (by omega))]
  rw [List.map_nil] at hloop
  rw [base32EncodeBytes, hloop]
  simp only [gt_iff_lt]
  rw [Radix.padded]
  split
  · rw [List.map_append, List.map_singleton, toNat_and_mask _ 5 (by decide), hshift]
  · rfl

theorem base32Value_digit : ∀ d < 32, base32Value (base32Digit d) = some d := by decide

theorem base32Digit_kept : ∀ d < 32,
    (!(isSpace (base32Digit d) || base32Digit d = padChar)) = true := by decide

/-- Digits are decoded to the bytes they make up. -/
theorem decode32_spec : ∀ (digits : List Nat) {input : List Nat} {buffer : BitVec 32}
    {bitsLeft : Nat} {out : Bytes}, (∀ d ∈ digits, d < 32) → bitsLeft < 8 →
    Radix.Regrouped 5 8 input (out.map UInt8.toNat) buffer.toNat bitsLeft →
    ∃ buffer' bitsLeft', bitsLeft' < 8 ∧ Radix.Regrouped 5 8 (input ++ digits)
      ((decode32 buffer bitsLeft out (digits.map base32Digit)).map UInt8.toNat) buffer' bitsLeft'
  | [], input, buffer, bitsLeft, out, _, hbits, h =>
      ⟨buffer.toNat, bitsLeft, hbits, by rwa [List.append_nil]⟩
  | d :: digits, input, buffer, bitsLeft, out, hdigits, hbits, h => by
      have hd := hdigits d List.mem_cons_self
      have hrest := fun e he => hdigits e (List.mem_cons_of_mem d he)
      have hread := h.read (v := d) hd (w := 32) (by omega)
      rw [← toNat_push buffer (by omega) hd] at hread
      rw [List.map_cons, decode32, base32Value_digit d hd, List.append_cons]
      simp only
      split
      · next hle =>
          refine decode32_spec digits hrest (by omega) ?_
          have hwrite := hread.write hle
          have hbyte : (UInt8.ofNat ((buffer <<< 5 ||| BitVec.ofNat 32 d).sshiftRight
              (bitsLeft + 5 - 8) &&& 0xFF).toNat).toNat =
                (buffer <<< 5 ||| BitVec.ofNat 32 d).toNat / 2 ^ (bitsLeft + 5 - 8) % 2 ^ 8 := by
            rw [UInt8.toNat_ofNat', toNat_and_mask _ 8 (by decide), Nat.mod_mod,
              toNat_sshiftRight_mod _ (by omega)]
          rwa [List.map_append, List.map_singleton, hbyte]
      · exact decode32_spec digits hrest (by omega) hread

theorem base32DecodeBytes_base32EncodeBytes (bytes : Bytes) :
    base32DecodeBytes (base32EncodeBytes bytes) = bytes := by
  obtain ⟨buffer, bitsLeft, digits, hbits, h, hencode⟩ := base32EncodeBytes_eq bytes
  have hdigits : ∀ d ∈ Radix.padded 5 digits buffer bitsLeft, d < 32 := Radix.padded_digits h
  have hkept : (base32EncodeBytes bytes).filter (fun ch => !(isSpace ch || ch = padChar)) =
      base32EncodeBytes bytes := by
    rw [List.filter_eq_self, hencode]
    intro ch hch
    obtain ⟨d, hd, rfl⟩ := List.mem_map.mp hch
    exact base32Digit_kept d (hdigits d hd)
  have hstart : Radix.Regrouped 5 8 [] (([] : Bytes).map UInt8.toNat) (0 : BitVec 32).toNat 0 :=
    .start
  obtain ⟨buffer', bitsLeft', hbits', hback⟩ := decode32_spec _ hdigits (by omega) hstart
  have hinput : ∀ d ∈ bytes.map UInt8.toNat, d < 2 ^ 8 :=
    forall_map_toNat fun v _ => v.toNat_lt
  obtain ⟨hsame, -, -⟩ := h.inverse hbits (by omega) hinput hback hbits'
  rw [base32DecodeBytes, hkept, hencode]
  exact map_toNat_injective hsame

/-! ## The codecs -/

/-- Each codec decodes what it has encoded, and every text that base 58 decodes
is the encoding of what it is decoded to. -/
theorem textCodecs_invert :
    (∀ data, base58Decode (base58Encode data) = some data) ∧
    (∀ data, base64Decode (base64Encode data) = some data) ∧
    (∀ data, base32DecodeBytes (base32EncodeBytes data) = data) ∧
    ∀ text data, base58Decode text = some data → base58Encode data = text :=
  ⟨base58Decode_base58Encode, base64Decode_base64Encode, base32DecodeBytes_base32EncodeBytes,
    fun _ _ h => base58Encode_base58Decode h⟩

end Encoding

end Cryptex
