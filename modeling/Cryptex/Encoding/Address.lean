import Cryptex.Encoding.Base58
import Cryptex.Encoding.Bech32

/-!
# Addresses

`canonicalize_address` and `addresses_equal` of `base64.cpp`: an address in any
of four formats is brought to the base 64 form of its twenty bytes. SHA-256 is
a parameter.
-/

namespace Cryptex

namespace Encoding

def addressHashLength : Nat := 20

def addressHexLength : Nat := 40

def addressBase58Version : UInt8 := 0x1C

def addressBech32Hrp : Bytes := chars "crx"

/-! ## Hexadecimal -/

/-- `std::isspace`. -/
def isSpace (ch : UInt8) : Bool := ch = 32 || (9 ≤ ch && ch ≤ 13)

/-- `trim_copy`. -/
def trimCopy (value : Bytes) : Bytes :=
  ((value.dropWhile isSpace).reverse.dropWhile isSpace).reverse

/-- `std::isxdigit`. -/
def isXdigit (ch : UInt8) : Bool :=
  (48 ≤ ch && ch ≤ 57) || (97 ≤ ch && ch ≤ 102) || (65 ≤ ch && ch ≤ 70)

/-- `hex_is_valid`. -/
def hexIsValid (hex : Bytes) : Bool :=
  if hex = [] ∨ hex.length % 2 ≠ 0 then false else hex.all isXdigit

/-- `hex_value` of a hexadecimal digit. -/
def hexValue (ch : UInt8) : Nat :=
  if 48 ≤ ch ∧ ch ≤ 57 then ch.toNat - 48
  else if 97 ≤ ch ∧ ch ≤ 102 then 10 + (ch.toNat - 97)
  else 10 + (ch.toNat - 65)

/-- A text without `0x` or `0X` before it. -/
def stripHexPrefix : Bytes → Bytes
  | 48 :: 120 :: rest => rest
  | 48 :: 88 :: rest => rest
  | s => s

/-- The loop of `hex_decode`. -/
def hexPairs : Bytes → Bytes
  | hi :: lo :: rest => UInt8.ofNat (hexValue hi <<< 4 ||| hexValue lo) :: hexPairs rest
  | _ => []

/-- `hex_decode`. -/
def hexDecode (hex : Bytes) : Option Bytes :=
  let trimmed := stripHexPrefix (trimCopy hex)
  if hexIsValid trimmed then some (hexPairs trimmed) else none

def hexChar (d : Nat) : UInt8 := (chars "0123456789abcdef").getD d 0

/-- `hex_encode`. -/
def hexEncode (data : Bytes) : Bytes :=
  data.flatMap fun byte => [hexChar ((byte.toNat >>> 4) &&& 0x0F), hexChar (byte.toNat &&& 0x0F)]

/-! ## Canonical addresses -/

section Canonical

variable (sha256 : Bytes → Hash256)

/-- `address_checksum`. -/
def addressChecksum (data : Bytes) : Bytes :=
  (Hash256.toBytes (sha256 (Hash256.toBytes (sha256 data)))).take 4

/-- The first block of `canonicalize_address`: the program of a bech32
address. What is thrown is caught. -/
def bech32Program (trimmed : Bytes) : Option Bytes :=
  match bech32Decode trimmed with
  | some (hrp, 0 :: program5) =>
      if hrp = addressBech32Hrp then
        match convertBits program5 5 8 false with
        | none => none
        | some program => if program.length ≠ addressHashLength then none else some program
      else none
  | _ => none

/-- The third block: the hash in a checked base 58 address. -/
def base58Payload (trimmed : Bytes) : Option Bytes :=
  match base58Decode trimmed with
  | none => none
  | some decoded =>
      if decoded.length = addressHashLength + 1 + 4 ∧ decoded.head? = some addressBase58Version then
        if addressChecksum sha256 (decoded.take (addressHashLength + 1))
            = decoded.drop (addressHashLength + 1) then
          some ((decoded.drop 1).take addressHashLength)
        else none
      else none

/-- The last block: the bytes of a base 64 text, with its padding made up. -/
def base64Payload (trimmed : Bytes) : Option Bytes :=
  let padded := trimmed ++ List.replicate ((4 - trimmed.length % 4) % 4) padChar
  match base64Decode padded with
  | none => none
  | some decoded =>
      let decoded :=
        if decoded.length = 21 ∧ decoded.getLast? = some 0 then decoded.dropLast else decoded
      if decoded.length ≠ 20 then none else some decoded

/-- `canonicalize_address`. -/
def canonicalizeAddress (address : Bytes) : Option Bytes :=
  let trimmed := trimCopy address
  if trimmed = [] then none
  else
    match bech32Program trimmed with
    | some program => some (base64Encode program)
    | none =>
        let maybeHex := stripHexPrefix trimmed
        if maybeHex.length = addressHexLength ∧ hexIsValid maybeHex then
          match hexDecode maybeHex with
          | none => none
          | some decoded =>
              if decoded.length ≠ addressHashLength then none else some (base64Encode decoded)
        else
          match base58Payload sha256 trimmed with
          | some payload => some (base64Encode payload)
          | none => (base64Payload trimmed).map base64Encode

/-- `addresses_equal`. -/
def addressesEqual (lhs rhs : Bytes) : Bool :=
  match canonicalizeAddress sha256 lhs, canonicalizeAddress sha256 rhs with
  | some l, some r => l = r
  | _, _ => lhs = rhs

/-! ## The four formats -/

inductive Format where
  | base64
  | base58check
  | hex
  | bech32
deriving DecidableEq

/-- Twenty bytes in a format. -/
def Format.write (decoded : Bytes) : Format → Option Bytes
  | base64 => some (base64Encode decoded)
  | base58check =>
      let payload := addressBase58Version :: decoded
      some (base58Encode (payload ++ addressChecksum sha256 payload))
  | hex => some (chars "0x" ++ hexEncode decoded)
  | bech32 =>
      (convertBits decoded 8 5 true).map fun program => bech32Encode addressBech32Hrp (0 :: program)

/-- `address_to_base64`, `address_to_base58`, `address_to_hex` and
`address_to_bech32`. -/
def addressTo (f : Format) (address : Bytes) : Option Bytes :=
  match f with
  | .base64 => canonicalizeAddress sha256 address
  | f => ((canonicalizeAddress sha256 address).bind base64Decode).bind fun decoded =>
      f.write sha256 decoded

end Canonical

/-- The hash of a public key. -/
structure Payload where
  bytes : Bytes
  length_eq : bytes.length = addressHashLength
deriving DecidableEq

/-- The encoding of a payload. -/
def Format.encode (sha256 : Bytes → Hash256) (f : Format) (p : Payload) : Bytes :=
  (f.write sha256 p.bytes).getD []

/-! ## Texts without white space -/

theorem trimCopy_of_not_space {s : Bytes} (h : ∀ ch ∈ s, isSpace ch = false) : trimCopy s = s := by
  have hkeep : ∀ {l : Bytes}, (∀ ch ∈ l, isSpace ch = false) → l.dropWhile isSpace = l := by
    intro l hl
    cases l with
    | nil => rfl
    | cons ch rest => rw [List.dropWhile_cons_of_neg (by simp [hl ch List.mem_cons_self])]
  rw [trimCopy, hkeep h, hkeep fun ch hch => h ch (List.mem_reverse.mp hch), List.reverse_reverse]

theorem digit_not_space : ∀ i < 64, isSpace (encodeDigit i) = false := by decide +kernel

theorem base64Encode_not_space (data : Bytes) : ∀ ch ∈ base64Encode data, isSpace ch = false := by
  obtain ⟨digits, padding, heq, hdigits, hpadding⟩ := digitsThenPadding_base64Encode data
  intro ch hch
  rw [heq] at hch
  rcases List.mem_append.mp hch with hch | hch
  · obtain ⟨i, rfl⟩ := hdigits ch hch
    rw [encodeDigit_mod]
    exact digit_not_space _ (Nat.mod_lt _ (by omega))
  · have hpad : ch = padChar := by
      rcases hpadding with rfl | rfl | rfl
      · cases hch
      · exact List.mem_singleton.mp hch
      · simpa using hch
    rw [hpad]
    rfl

theorem base58Digit_not_space : ∀ d < 58, isSpace (base58Digit d) = false := by decide

theorem base58Encode_not_space (data : Bytes) : ∀ ch ∈ base58Encode data, isSpace ch = false := by
  intro ch hch
  rw [base58Encode_eq] at hch
  obtain ⟨d, hd, rfl⟩ := List.mem_map.mp hch
  refine base58Digit_not_space d ?_
  rcases List.mem_append.mp hd with hd | hd
  · rw [List.eq_of_mem_replicate hd]
    omega
  · exact Nat.digits_lt_base (by omega) (List.mem_reverse.mp hd)

theorem hexChar_spec : ∀ d < 16, isSpace (hexChar d) = false ∧ isXdigit (hexChar d) = true ∧
    hexValue (hexChar d) = d ∧ hexChar d ≠ 120 ∧ hexChar d ≠ 88 := by decide

theorem mem_hexEncode {data : Bytes} {ch : UInt8} (h : ch ∈ hexEncode data) :
    ∃ d < 16, ch = hexChar d := by
  obtain ⟨b, -, hch⟩ := List.mem_flatMap.mp h
  have hand : ∀ n, n &&& 0x0F < 16 := fun n => Nat.and_lt_two_pow n (n := 4) (by decide)
  rcases List.mem_cons.mp hch with rfl | hch
  · exact ⟨_, hand _, rfl⟩
  · rw [List.mem_singleton] at hch
    exact ⟨_, hand _, hch⟩

theorem hexEncode_not_space (data : Bytes) : ∀ ch ∈ hexEncode data, isSpace ch = false := by
  intro ch hch
  obtain ⟨d, hd, rfl⟩ := mem_hexEncode hch
  exact (hexChar_spec d hd).1

theorem bech32Char_not_space : ∀ i < 32, isSpace (bech32Char (UInt8.ofNat i)) = false := by
  decide

/-! ## Hexadecimal round trip -/

theorem hexPairs_hexEncode : ∀ (data : Bytes), hexPairs (hexEncode data) = data
  | [] => rfl
  | b :: rest => by
      have hb := b.toNat_lt
      have hand : ∀ n, n &&& 0x0F = n % 16 := fun n => Nat.and_two_pow_sub_one_eq_mod n 4
      obtain ⟨-, -, hhi, -, -⟩ := hexChar_spec (b.toNat / 16 % 16) (by omega)
      obtain ⟨-, -, hlo, -, -⟩ := hexChar_spec (b.toNat % 16) (by omega)
      have hcons : hexEncode (b :: rest)
          = hexChar (b.toNat / 16 % 16) :: hexChar (b.toNat % 16) :: hexEncode rest := by
        rw [hexEncode, List.flatMap_cons, hand, hand, Nat.shiftRight_eq_div_pow]
        rfl
      rw [hcons, hexPairs, hexPairs_hexEncode rest, hhi, hlo, shift_or 4 (by omega),
        show b.toNat / 16 % 16 * 2 ^ 4 + b.toNat % 16 = b.toNat by omega, UInt8.ofNat_toNat]

theorem length_hexEncode : ∀ (data : Bytes), (hexEncode data).length = 2 * data.length
  | [] => rfl
  | b :: rest => by
      rw [hexEncode, List.flatMap_cons, List.length_append, ← hexEncode, length_hexEncode rest,
        List.length_cons]
      simp only [List.length_cons, List.length_nil]
      omega

theorem hexIsValid_hexEncode {data : Bytes} (h : data ≠ []) : hexIsValid (hexEncode data) = true := by
  have hlength := length_hexEncode data
  have hne : ¬ (hexEncode data = [] ∨ (hexEncode data).length % 2 ≠ 0) := by
    rintro (hnil | hodd)
    · rw [hnil, List.length_nil] at hlength
      exact h (List.length_eq_zero_iff.mp (by omega))
    · omega
  rw [hexIsValid, if_neg hne, List.all_eq_true]
  intro ch hch
  obtain ⟨d, hd, rfl⟩ := mem_hexEncode hch
  exact (hexChar_spec d hd).2.1

theorem stripHexPrefix_of_not_mem {s : Bytes} (hx : (120 : UInt8) ∉ s) (hX : (88 : UInt8) ∉ s) :
    stripHexPrefix s = s := by
  unfold stripHexPrefix
  split
  · simp at hx
  · simp at hX
  · rfl

theorem length_stripHexPrefix_le (s : Bytes) : (stripHexPrefix s).length ≤ s.length := by
  unfold stripHexPrefix
  split
  · exact Nat.le_add_right _ 2
  · exact Nat.le_add_right _ 2
  · exact le_rfl

theorem stripHexPrefix_hexEncode (data : Bytes) : stripHexPrefix (hexEncode data) = hexEncode data := by
  refine stripHexPrefix_of_not_mem (fun hmem => ?_) fun hmem => ?_
  · obtain ⟨d, hd, hchar⟩ := mem_hexEncode hmem
    exact (hexChar_spec d hd).2.2.2.1 hchar.symm
  · obtain ⟨d, hd, hchar⟩ := mem_hexEncode hmem
    exact (hexChar_spec d hd).2.2.2.2 hchar.symm

theorem hexDecode_hexEncode {data : Bytes} (h : data ≠ []) : hexDecode (hexEncode data) = some data := by
  rw [hexDecode, trimCopy_of_not_space (hexEncode_not_space data), stripHexPrefix_hexEncode]
  simp only [hexIsValid_hexEncode h, if_true, hexPairs_hexEncode]

/-! ## One format at a time -/

section Formats

variable (sha256 : Bytes → Hash256)

/-- A bech32 address has 43 characters, as no other format has. -/
theorem length_of_bech32Program {s program : Bytes} (h : bech32Program s = some program) :
    program.length = addressHashLength ∧ s.length = 43 := by
  rw [bech32Program] at h
  split at h
  · next hrp program5 hdecode =>
      split at h
      · next hhrp =>
          split at h
          · cases h
          · next out hout =>
              split at h
              · cases h
              · next hlength =>
                  cases h
                  obtain ⟨hsum, hsmall⟩ := length_of_bech32Decode hdecode
                  obtain ⟨bits, hbits, hgroups⟩ := length_convertBits (by omega) (by omega)
                    (fun v hv => hsmall v (List.mem_cons_of_mem _ hv)) hout
                  rw [not_not, addressHashLength] at hlength
                  refine ⟨hlength, ?_⟩
                  rw [hhrp, List.length_cons, show addressBech32Hrp.length = 3 by decide] at hsum
                  omega
      · cases h
  · cases h

theorem bech32Program_eq_none {s : Bytes} (h : s.length ≠ 43) : bech32Program s = none := by
  rcases hprogram : bech32Program s with _ | program
  · rfl
  · exact absurd (length_of_bech32Program hprogram).2 h

/-- What is returned is the base 64 form of twenty bytes. -/
theorem canonicalizeAddress_some {s a : Bytes} (h : canonicalizeAddress sha256 s = some a) :
    ∃ p : Payload, a = base64Encode p.bytes := by
  rw [canonicalizeAddress] at h
  simp only at h
  split at h
  · cases h
  · split at h
    · next program hprogram =>
        cases h
        exact ⟨⟨program, (length_of_bech32Program hprogram).1⟩, rfl⟩
    · split at h
      · split at h
        · cases h
        · next decoded hdecoded =>
            split at h
            · cases h
            · next hlength =>
                cases h
                exact ⟨⟨decoded, not_not.mp hlength⟩, rfl⟩
      · split at h
        · next payload hpayload =>
            cases h
            refine ⟨⟨payload, ?_⟩, rfl⟩
            rw [base58Payload] at hpayload
            split at hpayload
            · cases hpayload
            · split at hpayload
              · next hfront =>
                  split at hpayload
                  · cases hpayload
                    rw [List.length_take, List.length_drop, hfront.1]
                    rfl
                  · cases hpayload
              · cases hpayload
        · obtain ⟨payload, hpayload, rfl⟩ := Option.map_eq_some_iff.mp h
          refine ⟨⟨payload, ?_⟩, rfl⟩
          rw [base64Payload] at hpayload
          simp only at hpayload
          split at hpayload
          · cases hpayload
          · next decoded hdecoded =>
              generalize (if decoded.length = 21 ∧ decoded.getLast? = some 0 then decoded.dropLast
                else decoded) = final at hpayload
              split at hpayload
              · cases hpayload
              · next hlength =>
                  cases hpayload
                  exact not_not.mp hlength

variable (p : Payload)

theorem Payload.ne_nil : p.bytes ≠ [] := fun hnil => by
  have hlength := p.length_eq
  rw [hnil] at hlength
  cases hlength

/-- A format whose text is not read as bech32. -/
theorem canonicalizeAddress_eq {s : Bytes} (hspace : ∀ ch ∈ s, isSpace ch = false) (hne : s ≠ [])
    (hlength : s.length ≠ 43) : canonicalizeAddress sha256 s =
      if (stripHexPrefix s).length = addressHexLength ∧ hexIsValid (stripHexPrefix s) then
        match hexDecode (stripHexPrefix s) with
        | none => none
        | some decoded =>
            if decoded.length ≠ addressHashLength then none else some (base64Encode decoded)
      else
        match base58Payload sha256 s with
        | some payload => some (base64Encode payload)
        | none => (base64Payload s).map base64Encode := by
  rw [canonicalizeAddress, trimCopy_of_not_space hspace]
  simp only [if_neg hne, bech32Program_eq_none hlength]

theorem hex_prefix_not_space : ∀ ch ∈ chars "0x", isSpace ch = false := by decide

theorem canonicalizeAddress_hex :
    canonicalizeAddress sha256 (chars "0x" ++ hexEncode p.bytes) = some (base64Encode p.bytes) := by
  have hlength : (hexEncode p.bytes).length = 40 := by
    rw [length_hexEncode, p.length_eq]
    rfl
  have hspace : ∀ ch ∈ chars "0x" ++ hexEncode p.bytes, isSpace ch = false := by
    intro ch hch
    rcases List.mem_append.mp hch with hch | hch
    · exact hex_prefix_not_space ch hch
    · exact hexEncode_not_space _ ch hch
  have hstrip : stripHexPrefix (chars "0x" ++ hexEncode p.bytes) = hexEncode p.bytes := rfl
  rw [canonicalizeAddress_eq sha256 hspace (by simp [chars]) (by
    rw [List.length_append, hlength]
    decide), hstrip, if_pos ⟨hlength, hexIsValid_hexEncode p.ne_nil⟩,
    hexDecode_hexEncode p.ne_nil]
  exact if_neg (not_not.mpr p.length_eq)

theorem length_addressChecksum (data : Bytes) : (addressChecksum sha256 data).length = 4 := by
  rw [addressChecksum, List.length_take, Hash256.length_toBytes]
  rfl

/-- The bytes of a base 58 address. -/
theorem base58Payload_base58Encode : base58Payload sha256 (base58Encode
    (addressBase58Version :: p.bytes
      ++ addressChecksum sha256 (addressBase58Version :: p.bytes))) = some p.bytes := by
  have hpayload : (addressBase58Version :: p.bytes).length = addressHashLength + 1 := by
    rw [List.length_cons, p.length_eq]
  rw [base58Payload, base58Decode_base58Encode]
  simp only
  rw [if_pos ⟨by rw [List.length_append, hpayload, length_addressChecksum], rfl⟩, List.take_left' hpayload,
    List.drop_left' hpayload, if_pos rfl, List.cons_append, List.drop_succ_cons, List.drop_zero,
    List.take_left' p.length_eq]

theorem canonicalizeAddress_base58 : canonicalizeAddress sha256 (base58Encode
    (addressBase58Version :: p.bytes
      ++ addressChecksum sha256 (addressBase58Version :: p.bytes))) = some (base64Encode p.bytes) := by
  have hpayload := base58Payload_base58Encode sha256 p
  generalize htext : base58Encode (addressBase58Version :: p.bytes
    ++ addressChecksum sha256 (addressBase58Version :: p.bytes)) = s at hpayload ⊢
  have hle : s.length ≤ 35 := by
    rw [← htext]
    refine length_base58Encode_le (by simp [addressBase58Version]) ?_
    rw [List.length_append, List.length_cons, p.length_eq, length_addressChecksum, addressHashLength]
    norm_num
  have hne : s ≠ [] := by
    rintro rfl
    cases hpayload
  have hstrip := length_stripHexPrefix_le s
  rw [canonicalizeAddress_eq sha256 (htext ▸ base58Encode_not_space _) hne (by omega),
    if_neg (fun h => by rw [addressHexLength] at h; omega), hpayload]

/-- Padding is no digit in base 58. -/
theorem decode58_padChar : ∀ {text : Bytes} (decoded : Bytes), padChar ∈ text →
    decode58 decoded text = none
  | ch :: text, decoded, h => by
      rw [decode58]
      rcases List.mem_cons.mp h with rfl | h
      · rw [show base58Value padChar = none by decide]
      · cases hvalue : base58Value ch with
        | none => rfl
        | some digit => exact decode58_padChar _ h

theorem padChar_mem_base64Encode : ∀ {data : Bytes}, data.length % 3 ≠ 0 →
    padChar ∈ base64Encode data
  | [], h => absurd rfl h
  | [_], _ => by simp [base64Encode]
  | [_, _], _ => by simp [base64Encode]
  | _ :: _ :: _ :: rest, h => by
      have hrest : padChar ∈ base64Encode rest :=
        padChar_mem_base64Encode fun hzero => h (by simp only [List.length_cons]; omega)
      exact List.mem_cons_of_mem _ (List.mem_cons_of_mem _ (List.mem_cons_of_mem _
        (List.mem_cons_of_mem _ hrest)))

theorem canonicalizeAddress_base64 :
    canonicalizeAddress sha256 (base64Encode p.bytes) = some (base64Encode p.bytes) := by
  have hlength : (base64Encode p.bytes).length = 28 := by
    rw [length_base64Encode, p.length_eq]
    rfl
  have hstrip := length_stripHexPrefix_le (base64Encode p.bytes)
  have hpad : padChar ∈ base64Encode p.bytes :=
    padChar_mem_base64Encode (by rw [p.length_eq, addressHashLength]; omega)
  have hbase58 : base58Payload sha256 (base64Encode p.bytes) = none := by
    rw [base58Payload, base58Decode, decode58_padChar [] hpad]
    rfl
  have hpayload : base64Payload (base64Encode p.bytes) = some p.bytes := by
    have h20 : p.bytes.length = 20 := p.length_eq
    have hnone : (4 - 28 % 4) % 4 = 0 := rfl
    rw [base64Payload, hlength, hnone]
    simp only [List.replicate_zero, List.append_nil, base64Decode_base64Encode]
    have h21 : ¬ (p.bytes.length = 21 ∧ p.bytes.getLast? = some 0) := fun h => by omega
    simp only [if_neg h21]
    exact if_neg (not_not.mpr h20)
  rw [canonicalizeAddress_eq sha256 (base64Encode_not_space _) (List.ne_nil_of_mem hpad) (by omega),
    if_neg (fun h => by rw [addressHexLength] at h; omega), hbase58]
  simp only [hpayload, Option.map_some]

theorem bech32Hrp_not_space : ∀ ch ∈ addressBech32Hrp, isSpace ch = false := by decide

theorem convertBits_payload : ∃ program, convertBits p.bytes 8 5 true = some program ∧
    (∀ g ∈ program, g.toNat < 32) ∧ convertBits program 5 8 false = some p.bytes :=
  convertBits_convertBits (by omega) (by omega) le_rfl fun v _ => v.toNat_lt

theorem canonicalizeAddress_bech32 {program : Bytes} (h : convertBits p.bytes 8 5 true = some program) :
    canonicalizeAddress sha256 (bech32Encode addressBech32Hrp (0 :: program))
      = some (base64Encode p.bytes) := by
  obtain ⟨groups, hgroups, hsmall, hback⟩ := convertBits_payload p
  cases h.symm.trans hgroups
  have hdecode : bech32Decode (bech32Encode addressBech32Hrp (0 :: program))
      = some (addressBech32Hrp, 0 :: program) := by
    refine bech32Decode_bech32Encode (by decide) (by decide) fun v hv => ?_
    rcases List.mem_cons.mp hv with rfl | hv
    · decide
    · exact hsmall v hv
  have hprogram : bech32Program (bech32Encode addressBech32Hrp (0 :: program)) = some p.bytes := by
    rw [bech32Program, hdecode]
    simp only [if_true, hback]
    exact if_neg (not_not.mpr p.length_eq)
  have hspace : ∀ ch ∈ bech32Encode addressBech32Hrp (0 :: program), isSpace ch = false := by
    have hsum : ∀ v ∈ 0 :: program ++ bech32CreateChecksum addressBech32Hrp (0 :: program),
        v.toNat < 32 := by
      intro v hv
      rcases List.mem_append.mp hv with hv | hv
      · rcases List.mem_cons.mp hv with rfl | hv
        · decide
        · exact hsmall v hv
      · rw [bech32CreateChecksum_eq] at hv
        exact (lowGroups_lt _ _).2 v hv
    intro ch hch
    rw [bech32Encode, ← List.map_append] at hch
    rcases List.mem_append.mp hch with hch | hch
    · exact bech32Hrp_not_space ch hch
    · rcases List.mem_cons.mp hch with rfl | hch
      · decide
      · obtain ⟨v, hv, rfl⟩ := List.mem_map.mp hch
        have hchar := bech32Char_not_space v.toNat (hsum v hv)
        rwa [UInt8.ofNat_toNat] at hchar
  rw [canonicalizeAddress, trimCopy_of_not_space hspace]
  simp only [hprogram]
  exact if_neg (by simp [bech32Encode])

/-! ## The formats agree -/

/-- Every encoding is canonicalized to the base 64 form. -/
theorem canonicalizeAddress_write (f : Format) : ∃ s, f.write sha256 p.bytes = some s ∧
    canonicalizeAddress sha256 s = some (base64Encode p.bytes) := by
  cases f with
  | base64 => exact ⟨_, rfl, canonicalizeAddress_base64 sha256 p⟩
  | base58check => exact ⟨_, rfl, canonicalizeAddress_base58 sha256 p⟩
  | hex => exact ⟨_, rfl, canonicalizeAddress_hex sha256 p⟩
  | bech32 =>
      obtain ⟨program, hprogram, -, -⟩ := convertBits_payload p
      refine ⟨_, ?_, canonicalizeAddress_bech32 sha256 p hprogram⟩
      rw [Format.write, hprogram, Option.map_some]

theorem write_encode (f : Format) : f.write sha256 p.bytes = some (f.encode sha256 p) := by
  obtain ⟨s, hs, -⟩ := canonicalizeAddress_write sha256 p f
  rw [Format.encode, hs, Option.getD_some]

theorem canonicalizeAddress_encode (f : Format) :
    canonicalizeAddress sha256 (f.encode sha256 p) = some (base64Encode p.bytes) := by
  obtain ⟨s, hs, hcanonical⟩ := canonicalizeAddress_write sha256 p f
  rwa [Format.encode, hs, Option.getD_some]

/-- The converters write these encodings, whatever the format they are
given. -/
theorem addressTo_encode (f g : Format) :
    addressTo sha256 g (f.encode sha256 p) = some (g.encode sha256 p) := by
  have hcanonical := canonicalizeAddress_encode sha256 p f
  cases g with
  | base64 => exact hcanonical
  | base58check | hex | bech32 =>
      rw [addressTo, hcanonical, Option.bind_some, base64Decode_base64Encode, Option.bind_some]
      · exact write_encode sha256 p _
      · simp

/-- Addresses are canonical in one step, and two encodings are equal when their
payloads are. -/
theorem addressFormats_agree :
    (∀ (f : Format) (p : Payload),
      canonicalizeAddress sha256 (f.encode sha256 p) = some (base64Encode p.bytes)) ∧
    (∀ (f g : Format) (p q : Payload),
      addressesEqual sha256 (f.encode sha256 p) (g.encode sha256 q) = true ↔ p = q) ∧
    ∀ s : Bytes, (canonicalizeAddress sha256 s).bind (canonicalizeAddress sha256)
      = canonicalizeAddress sha256 s := by
  refine ⟨fun f p => canonicalizeAddress_encode sha256 p f, fun f g p q => ?_, fun s => ?_⟩
  · rw [addressesEqual, canonicalizeAddress_encode, canonicalizeAddress_encode]
    simp only [decide_eq_true_eq]
    refine ⟨fun heq => ?_, fun heq => by rw [heq]⟩
    have hbytes := base64Encode_injective heq
    cases p
    cases q
    simpa using hbytes
  · rcases hs : canonicalizeAddress sha256 s with _ | a
    · rfl
    · obtain ⟨p, rfl⟩ := canonicalizeAddress_some sha256 hs
      rw [Option.bind_some]
      exact canonicalizeAddress_base64 sha256 p

end Formats

theorem addressesEqual_base64_iff {sha256 : Bytes → Hash256} {script : Bytes} {p : Payload} :
    addressesEqual sha256 script (base64Encode p.bytes) = true ↔
      canonicalizeAddress sha256 script = some (base64Encode p.bytes) := by
  rw [addressesEqual, canonicalizeAddress_base64 sha256 p]
  cases hcanonical : canonicalizeAddress sha256 script with
  | none =>
      simp only [decide_eq_true_eq]
      refine ⟨fun heq => ?_, nofun⟩
      rw [heq, canonicalizeAddress_base64 sha256 p] at hcanonical
      cases hcanonical
  | some a => simp only [decide_eq_true_eq, Option.some_inj]

end Encoding

end Cryptex
