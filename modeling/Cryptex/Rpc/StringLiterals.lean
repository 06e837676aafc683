import Cryptex.Bridge.Text
import Cryptex.Lib.Radix
import Cryptex.Rpc.JsonRoundTrip

/-!
# The text of a string literal

The JSON grammar has four spellings for a character of a string: the character
itself, the escapes of one letter, the four hexadecimal digits of its code, and
two codes in a row, a surrogate pair, where the code has more than four digits.

The parser takes one escape at a time. It reads the first three spellings as
the UTF-8 of the character (`encodeCode_eq`), and each half of a pair as three
bytes of its own (`surrogates`).
-/

namespace Cryptex

namespace Rpc

open Encoding Bridge

/-! ## The grammar -/

/-- `unescaped`: no control character, quotation mark or backslash. -/
def Unescaped (ch : Char) : Prop := 0x20 ≤ ch.toNat ∧ ch.toNat ≠ 34 ∧ ch.toNat ≠ 92

/-- The escapes of one letter, with the codes that they stand for. -/
def shortEscapes : List (UInt8 × UInt8) :=
  [(34, 34), (92, 92), (47, 47), (98, 8), (102, 12), (110, 10), (114, 13), (116, 9)]

/-- `4HEXDIG`. -/
structure HexCode where
  digits : Bytes
  length_eq : digits.length = 4
  hex : ∀ d ∈ digits, isXdigit d = true

def HexCode.value (code : HexCode) : Nat := Radix.value 16 (code.digits.map hexValue)

/-- A character of a string literal, as it is spelled. -/
inductive Piece where
  | unescaped (ch : Char) (h : Unescaped ch)
  | short (esc value : UInt8) (h : (esc, value) ∈ shortEscapes)
  | code (hex : HexCode) (h : hex.value.isValidChar)
  | pair (high low : HexCode) (hhigh : 0xD800 ≤ high.value ∧ high.value < 0xDC00)
      (hlow : 0xDC00 ≤ low.value ∧ low.value < 0xE000)

namespace Piece

def bytes : Piece → Bytes
  | .unescaped ch _ => String.utf8EncodeChar ch
  | .short esc _ _ => [92, esc]
  | .code hex _ => 92 :: 117 :: hex.digits
  | .pair high low _ _ => 92 :: 117 :: (high.digits ++ 92 :: 117 :: low.digits)

/-- The character that is meant. -/
def char : Piece → Char
  | .unescaped ch _ => ch
  | .short _ value _ => Char.ofNat value.toNat
  | .code hex _ => Char.ofNat hex.value
  | .pair high low _ _ =>
      Char.ofNat (0x10000 + (high.value - 0xD800) * 0x400 + (low.value - 0xDC00))

def isPair : Piece → Bool
  | .pair .. => true
  | _ => false

end Piece

/-- A literal, with its quotation marks. -/
def literalBytes (literal : List Piece) : Bytes := 34 :: (literal.flatMap Piece.bytes ++ [34])

/-- What a literal denotes. -/
def literalText (literal : List Piece) : Text := literal.map Piece.char

/-! ## Codes -/

theorem hexValue_lt : ∀ d : UInt8, isXdigit d = true → hexValue d < 16 := by
  intro d hd
  simp only [isXdigit, Bool.or_eq_true, Bool.and_eq_true, decide_eq_true_eq,
    UInt8.le_iff_toNat_le] at hd
  unfold hexValue
  simp only [UInt8.le_iff_toNat_le]
  simp only [UInt8.reduceToNat] at hd ⊢
  split
  · omega
  · split <;> omega

theorem hexCode_loop : ∀ (digits : Bytes) (n : Nat), (∀ d ∈ digits, isXdigit d = true) →
    digits.foldlM (fun code hex => if isXdigit hex then some (code <<< 4 ||| hexValue hex) else none)
      n = some ((digits.map hexValue).foldl (fun n d => n * 16 + d) n)
  | [], _, _ => rfl
  | d :: digits, n, hhex => by
      have hd := hhex d List.mem_cons_self
      have hstep : n <<< 4 ||| hexValue d = n * 16 + hexValue d := by
        rw [Nat.shiftLeft_eq, Nat.mul_comm n,
          ← Nat.two_pow_add_eq_or_of_lt (i := 4) (hexValue_lt d hd)]
      rw [List.foldlM_cons, if_pos hd]
      exact (hexCode_loop digits _ fun d hd => hhex d (List.mem_cons_of_mem _ hd)).trans
        (by rw [hstep]; rfl)

namespace HexCode

variable (code : HexCode)

theorem hexCode_digits : hexCode code.digits = some code.value := by
  rw [hexCode, hexCode_loop _ _ code.hex, value, Radix.value_eq_foldl]

theorem value_lt : code.value < 0x10000 := by
  have hlt := Nat.ofDigits_lt_base_pow_length (b := 16) (l := (code.digits.map hexValue).reverse)
    (by decide) fun v hv => by
      obtain ⟨d, hd, rfl⟩ := List.mem_map.mp (List.mem_reverse.mp hv)
      exact hexValue_lt d (code.hex d hd)
  rwa [List.length_reverse, List.length_map, code.length_eq] at hlt

theorem parseChars_digits (rest out : Bytes) :
    parseChars (92 :: 117 :: (code.digits ++ rest)) out
      = parseChars rest (out ++ encodeCode code.value) := by
  obtain ⟨digits, hlength, hhex⟩ := code
  match digits, hlength with
  | [a, b, c, d], _ => exact parseChars_unicode (hexCode_digits ⟨[a, b, c, d], rfl, hhex⟩) rest out

end HexCode

/-! ## UTF-8 -/

/-- The halves of the pair that stands for a character, each as the parser
writes a code. -/
def surrogates (ch : Char) : Bytes :=
  encodeCode (0xD800 + (ch.toNat - 0x10000) / 0x400)
    ++ encodeCode (0xDC00 + (ch.toNat - 0x10000) % 0x400)

theorem toNat_ofNat {n : Nat} (h : n.isValidChar) : (Char.ofNat n).toNat = n := by
  rw [Char.ofNat, dif_pos h]
  rfl

theorem toNat_byte {n : Nat} (h : n < 0x100) : (UInt8.ofNat n).toNat = n :=
  UInt8.toNat_ofNat_of_lt' h

/-- The source's masks and shifts are those of UTF-8. -/
theorem encodeCode_arith (code : Nat) : encodeCode code =
    if code ≤ 0x7F then [UInt8.ofNat code]
    else if code ≤ 0x7FF then
      [UInt8.ofNat (code / 64 % 0x20 + 0xC0), UInt8.ofNat (code % 0x40 + 0x80)]
    else
      [UInt8.ofNat (code / 4096 % 0x10 + 0xE0), UInt8.ofNat (code / 64 % 0x40 + 0x80),
        UInt8.ofNat (code % 0x40 + 0x80)] := by
  have hmark (k bits n : Nat) : 2 ^ bits * k ||| n % 2 ^ bits = n % 2 ^ bits + 2 ^ bits * k := by
    rw [← Nat.two_pow_add_eq_or_of_lt (Nat.mod_lt _ (Nat.two_pow_pos bits)), Nat.add_comm]
  have h5 (n : Nat) : 0xC0 ||| (n &&& 0x1F) = n % 0x20 + 0xC0 := by
    rw [Nat.and_two_pow_sub_one_eq_mod n 5]
    exact hmark 6 5 n
  have h6 (n : Nat) : 0x80 ||| (n &&& 0x3F) = n % 0x40 + 0x80 := by
    rw [Nat.and_two_pow_sub_one_eq_mod n 6]
    exact hmark 2 6 n
  have h4 (n : Nat) : 0xE0 ||| (n &&& 0x0F) = n % 0x10 + 0xE0 := by
    rw [Nat.and_two_pow_sub_one_eq_mod n 4]
    exact hmark 14 4 n
  rw [encodeCode, h5, h6, h6, h4, Nat.shiftRight_eq_div_pow, Nat.shiftRight_eq_div_pow]

/-- A code of four digits that is a character's. -/
theorem encodeCode_eq {ch : Char} (h : ch.toNat < 0x10000) :
    encodeCode ch.toNat = String.utf8EncodeChar ch := by
  rw [encodeCode_arith, String.utf8EncodeChar]
  change _ = if ch.toNat ≤ 0x7F then _ else if ch.toNat ≤ 0x7FF then _ else
    if ch.toNat ≤ 0xFFFF then _ else _
  rw [if_pos (by omega : ch.toNat ≤ 0xFFFF)]
  rfl

/-- ASCII bytes stand for themselves only. -/
theorem toNat_of_mem_utf8EncodeChar {ch : Char} {b : UInt8} (hb : b ∈ String.utf8EncodeChar ch)
    (hlt : b.toNat < 0x80) : ch.toNat = b.toNat := by
  have hmulti (n : Nat) (hlow : 0x80 ≤ n) (hhigh : n < 0x100) : b ≠ UInt8.ofNat n := by
    rintro rfl
    rw [toNat_byte hhigh] at hlt
    omega
  unfold String.utf8EncodeChar at hb
  simp only at hb
  split at hb
  · next h =>
      rw [List.mem_singleton] at hb
      rw [hb, toNat_byte (by omega)]
      rfl
  · split at hb
    · simp only [List.mem_cons, List.not_mem_nil, or_false] at hb
      rcases hb with hb | hb
      · exact absurd hb (hmulti _ (by omega) (by omega))
      · exact absurd hb (hmulti _ (by omega) (by omega))
    · split at hb
      · simp only [List.mem_cons, List.not_mem_nil, or_false] at hb
        rcases hb with hb | hb | hb
        · exact absurd hb (hmulti _ (by omega) (by omega))
        · exact absurd hb (hmulti _ (by omega) (by omega))
        · exact absurd hb (hmulti _ (by omega) (by omega))
      · simp only [List.mem_cons, List.not_mem_nil, or_false] at hb
        rcases hb with hb | hb | hb | hb
        · exact absurd hb (hmulti _ (by omega) (by omega))
        · exact absurd hb (hmulti _ (by omega) (by omega))
        · exact absurd hb (hmulti _ (by omega) (by omega))
        · exact absurd hb (hmulti _ (by omega) (by omega))

/-- UTF-8 begins a character beyond the codes of four digits with another byte
than the parser begins a pair. -/
theorem surrogates_append_ne {ch : Char} (h : 0x10000 ≤ ch.toNat) (rest rest' : Bytes) :
    surrogates ch ++ rest ≠ String.utf8EncodeChar ch ++ rest' := by
  have hvalid : ch.toNat < 0xD800 ∨ 0xDFFF < ch.toNat ∧ ch.toNat < 0x110000 := ch.valid
  have hpair : ∃ tail, surrogates ch = 0xED :: tail := by
    rw [surrogates, encodeCode_arith, if_neg (by omega), if_neg (by omega)]
    refine ⟨_, congrArg₂ List.cons ?_ rfl⟩
    rw [show (0xD800 + (ch.toNat - 0x10000) / 0x400) / 4096 % 0x10 = 13 by omega]
    rfl
  have hwhole : ∃ tail, String.utf8EncodeChar ch
      = UInt8.ofNat (ch.toNat / 262144 % 0x08 + 0xF0) :: tail := by
    rw [String.utf8EncodeChar]
    change ∃ tail, (if ch.toNat ≤ 0x7F then _ else if ch.toNat ≤ 0x7FF then _ else
      if ch.toNat ≤ 0xFFFF then _ else _) = _
    rw [if_neg (by omega), if_neg (by omega), if_neg (by omega)]
    exact ⟨_, rfl⟩
  obtain ⟨tail, hpair⟩ := hpair
  obtain ⟨tail', hwhole⟩ := hwhole
  rw [hpair, hwhole]
  intro heq
  have hhead := congrArg UInt8.toNat (List.cons.inj heq).1
  rw [toNat_byte (by omega)] at hhead
  have : (0xED : UInt8).toNat = 0xED := rfl
  omega

/-! ## Reading a literal -/

/-- Bytes that are neither quotation marks nor backslashes. -/
theorem parseChars_plainBytes : ∀ (l rest out : Bytes), (∀ b ∈ l, b ≠ 34 ∧ b ≠ 92) →
    parseChars (l ++ rest) out = parseChars rest (out ++ l)
  | [], _, out, _ => by rw [List.nil_append, List.append_nil]
  | b :: l, rest, out, h => by
      obtain ⟨hquote, hback⟩ := h b List.mem_cons_self
      rw [List.cons_append, parseChars_plain hquote hback,
        parseChars_plainBytes l rest _ fun b hb => h b (List.mem_cons_of_mem _ hb),
        List.append_assoc, List.singleton_append]

theorem shortEscapes_simple : ∀ p ∈ shortEscapes, p.1 ≠ 117 ∧ simpleEscape p.1 = some p.2 ∧
    String.utf8EncodeChar (Char.ofNat p.2.toNat) = [p.2] := by decide

namespace Piece

/-- What the parser makes of the spelling. -/
def read (piece : Piece) : Bytes :=
  if piece.isPair then surrogates piece.char else String.utf8EncodeChar piece.char

theorem toNat_char_pair {high low : HexCode}
    (hhigh : 0xD800 ≤ high.value ∧ high.value < 0xDC00)
    (hlow : 0xDC00 ≤ low.value ∧ low.value < 0xE000) :
    (pair high low hhigh hlow).char.toNat
      = 0x10000 + (high.value - 0xD800) * 0x400 + (low.value - 0xDC00) := by
  have hvalid : (0x10000 + (high.value - 0xD800) * 0x400 + (low.value - 0xDC00)).isValidChar :=
    Or.inr ⟨by omega, by omega⟩
  exact toNat_ofNat hvalid

/-- A pair spells a character beyond the codes of four digits. -/
theorem le_of_isPair {piece : Piece} (h : piece.isPair = true) : 0x10000 ≤ piece.char.toNat := by
  cases piece with
  | pair high low hhigh hlow =>
      rw [toNat_char_pair hhigh hlow]
      omega
  | _ => cases h

theorem parseChars_bytes (piece : Piece) (rest out : Bytes) :
    parseChars (piece.bytes ++ rest) out = parseChars rest (out ++ piece.read) := by
  cases piece with
  | unescaped ch h =>
      refine parseChars_plainBytes _ rest out fun b hb => ⟨?_, ?_⟩
      · rintro rfl
        exact h.2.1 (toNat_of_mem_utf8EncodeChar hb (by decide))
      · rintro rfl
        exact h.2.2 (toNat_of_mem_utf8EncodeChar hb (by decide))
  | short esc value h =>
      obtain ⟨hne, hsimple, hencode⟩ := shortEscapes_simple _ h
      rw [show read (.short esc value h) = [value] from hencode]
      exact parseChars_simple hne hsimple rest out
  | code hex h =>
      have hchar : (Char.ofNat hex.value).toNat = hex.value := toNat_ofNat h
      have hencode := encodeCode_eq (lt_of_eq_of_lt hchar hex.value_lt)
      rw [hchar] at hencode
      rw [show read (.code hex h) = encodeCode hex.value from hencode.symm]
      exact hex.parseChars_digits rest out
  | pair high low hhigh hlow =>
      have hread : read (.pair high low hhigh hlow)
          = encodeCode high.value ++ encodeCode low.value := by
        have hupper : 0xD800 + ((pair high low hhigh hlow).char.toNat - 0x10000) / 0x400
            = high.value := by
          rw [toNat_char_pair hhigh hlow]
          omega
        have hlower : 0xDC00 + ((pair high low hhigh hlow).char.toNat - 0x10000) % 0x400
            = low.value := by
          rw [toNat_char_pair hhigh hlow]
          omega
        rw [read, isPair, if_pos rfl, surrogates, hupper, hlower]
      rw [hread]
      calc parseChars ((pair high low hhigh hlow).bytes ++ rest) out
          = parseChars (92 :: 117 :: (high.digits ++ (92 :: 117 :: (low.digits ++ rest)))) out := by
            rw [bytes, List.cons_append, List.cons_append, List.append_assoc]
            rfl
        _ = parseChars (92 :: 117 :: (low.digits ++ rest)) (out ++ encodeCode high.value) :=
            high.parseChars_digits _ out
        _ = parseChars rest (out ++ (encodeCode high.value ++ encodeCode low.value)) := by
            rw [low.parseChars_digits, List.append_assoc]

end Piece

theorem parseChars_literal : ∀ (literal : List Piece) (rest out : Bytes),
    parseChars (literal.flatMap Piece.bytes ++ 34 :: rest) out
      = .ok (out ++ literal.flatMap Piece.read, rest)
  | [], rest, out => by
      rw [List.flatMap_nil, List.flatMap_nil, List.nil_append, List.append_nil, parseChars_quote]
  | piece :: literal, rest, out => by
      rw [List.flatMap_cons, List.append_assoc, piece.parseChars_bytes,
        parseChars_literal literal rest, List.flatMap_cons, List.append_assoc]

theorem parseString_literal (literal : List Piece) (rest : Bytes) :
    parseString (literalBytes literal ++ rest) = .ok (literal.flatMap Piece.read, rest) := by
  rw [literalBytes, List.cons_append, List.append_assoc, parseString, if_pos rfl]
  exact parseChars_literal literal rest []

/-! ## Spellings of one text -/

/-- Characters, each with whether it is spelled as a pair. -/
abbrev Spelling := List (Bool × Char)

namespace Spelling

def read (l : Spelling) : Bytes :=
  l.flatMap fun p => if p.1 then surrogates p.2 else String.utf8EncodeChar p.2

/-- Only characters beyond the codes of four digits are spelled as pairs. -/
def Proper (l : Spelling) : Prop := ∀ p ∈ l, p.1 = true → 0x10000 ≤ p.2.toNat

theorem read_cons (paired : Bool) (ch : Char) (l : Spelling) :
    read ((paired, ch) :: l)
      = (if paired then surrogates ch else String.utf8EncodeChar ch) ++ read l :=
  List.flatMap_cons

/-- Of one text, what is read shows which characters were spelled as pairs. -/
theorem read_eq_iff : ∀ {l l' : Spelling}, l.Proper → l'.Proper →
    List.map Prod.snd l = List.map Prod.snd l' → (l.read = l'.read ↔ l = l')
  | [], [], _, _, _ => ⟨fun _ => rfl, fun _ => rfl⟩
  | [], _ :: _, _, _, h => by cases h
  | _ :: _, [], _, _, h => by cases h
  | (paired, ch) :: l, (paired', ch') :: l', hl, hl', h => by
      obtain ⟨rfl, htext⟩ := List.cons.inj h
      have ih := @read_eq_iff l l' (fun p hp => hl p (List.mem_cons_of_mem _ hp))
        (fun p hp => hl' p (List.mem_cons_of_mem _ hp)) htext
      have hch : paired = true → 0x10000 ≤ ch.toNat := hl _ List.mem_cons_self
      have hch' : paired' = true → 0x10000 ≤ ch.toNat := hl' _ List.mem_cons_self
      rw [read_cons, read_cons, List.cons.injEq, Prod.mk.injEq, ← ih]
      cases paired with
      | true =>
          cases paired' with
          | true => rw [List.append_cancel_left_eq, and_iff_right ⟨rfl, rfl⟩]
          | false =>
              exact ⟨fun heq => absurd heq (surrogates_append_ne (hch rfl) _ _),
                fun heq => absurd heq.1.1 (by decide)⟩
      | false =>
          cases paired' with
          | true =>
              exact ⟨fun heq => absurd heq.symm (surrogates_append_ne (hch' rfl) _ _),
                fun heq => absurd heq.1.1 (by decide)⟩
          | false => rw [List.append_cancel_left_eq, and_iff_right ⟨rfl, rfl⟩]

end Spelling

/-- How a literal spells its characters. -/
def spelling (literal : List Piece) : Spelling := literal.map fun piece => (piece.isPair, piece.char)

theorem proper_spelling (literal : List Piece) : (spelling literal).Proper := by
  intro p hp hpair
  obtain ⟨piece, -, rfl⟩ := List.mem_map.mp hp
  exact Piece.le_of_isPair hpair

theorem read_spelling (literal : List Piece) :
    (spelling literal).read = literal.flatMap Piece.read := by
  rw [Spelling.read, spelling, List.flatMap_map]
  rfl

theorem map_snd_spelling (literal : List Piece) :
    List.map Prod.snd (spelling literal) = literalText literal := by
  rw [spelling, List.map_map]
  rfl

theorem spelling_eq_iff {literal literal' : List Piece}
    (h : literalText literal = literalText literal') :
    spelling literal = spelling literal' ↔
      literal.map Piece.isPair = literal'.map Piece.isPair := by
  constructor
  · intro heq
    have hfst := congrArg (List.map Prod.fst) heq
    rwa [spelling, spelling, List.map_map, List.map_map] at hfst
  · intro heq
    rw [spelling, spelling, ← List.zip_map', ← List.zip_map', heq]
    exact congrArg _ h

/-- The text as UTF-8 is what is read of it without pairs. -/
theorem read_unpaired (t : Text) : Spelling.read (t.map (false, ·)) = t.encodeUtf8 := by
  rw [Spelling.read, List.flatMap_map, Text.encodeUtf8]
  rfl

/-- The parser reads a literal as the UTF-8 of its text exactly if it spells no
character as a pair. Two literals of one text are read alike exactly if they
spell the same characters as pairs. -/
theorem parseString_text_iff (literal : List Piece) (rest : Bytes) :
    (parseString (literalBytes literal ++ rest) = .ok ((literalText literal).encodeUtf8, rest) ↔
      ∀ piece ∈ literal, piece.isPair = false) ∧
    ∀ literal' : List Piece, literalText literal = literalText literal' →
      (parseString (literalBytes literal ++ rest) = parseString (literalBytes literal' ++ rest) ↔
        literal.map Piece.isPair = literal'.map Piece.isPair) := by
  constructor
  · have htext : List.map Prod.snd (spelling literal)
        = List.map Prod.snd ((literalText literal).map (false, ·)) := by
      rw [map_snd_spelling, List.map_map]
      exact (List.map_id _).symm
    have hproper : Spelling.Proper ((literalText literal).map (false, ·)) := by
      intro p hp hpair
      obtain ⟨ch, -, rfl⟩ := List.mem_map.mp hp
      cases hpair
    have hiff := Spelling.read_eq_iff (proper_spelling literal) hproper htext
    rw [read_spelling, read_unpaired, spelling, literalText, List.map_map, List.map_inj_left] at hiff
    rw [parseString_literal, Except.ok.injEq, Prod.mk.injEq, and_iff_left rfl, literalText, hiff]
    exact forall₂_congr fun piece _ => by simp
  · intro literal' htext
    have hiff := Spelling.read_eq_iff (proper_spelling literal) (proper_spelling literal')
      (by rw [map_snd_spelling, map_snd_spelling, htext])
    rw [parseString_literal, parseString_literal, Except.ok.injEq, Prod.mk.injEq, and_iff_left rfl,
      ← read_spelling, ← read_spelling, hiff]
    exact spelling_eq_iff htext

/-- `U+1F600`, as an encoder spells it that writes ASCII only. -/
def grinningFace : Piece :=
  .pair ⟨chars "d83d", by decide, by decide⟩ ⟨chars "de00", by decide, by decide⟩
    (by decide) (by decide)

theorem not_parseString_text : ¬ ∀ (literal : List Piece) (rest : Bytes),
    parseString (literalBytes literal ++ rest) = .ok ((literalText literal).encodeUtf8, rest) := by
  intro h
  have hread := h [grinningFace] []
  revert hread
  decide

end Rpc

end Cryptex
