import Cryptex.Types
import Mathlib.Data.Nat.Digits.Lemmas

/-!
# Text in the bridge daemon

Python strings as lists of characters, with what `bridge_daemon.py` uses of
them: hexadecimal digits, `lower`, `strip` and the form of an EVM address.
-/

namespace Cryptex

namespace Bridge

/-- A Python `str`. -/
abbrev Text := List Char

namespace Text

/-! ## Hexadecimal digits -/

def hexDigit (d : Nat) : Char :=
  if d < 10 then Char.ofNat (48 + d) else Char.ofNat (87 + d)

/-- The value of a digit in either case. -/
def hexVal (ch : Char) : Option Nat :=
  if 48 ≤ ch.toNat ∧ ch.toNat ≤ 57 then some (ch.toNat - 48)
  else if 97 ≤ ch.toNat ∧ ch.toNat ≤ 102 then some (ch.toNat - 87)
  else if 65 ≤ ch.toNat ∧ ch.toNat ≤ 70 then some (ch.toNat - 55)
  else none

theorem hexVal_hexDigit : ∀ d < 16, hexVal (hexDigit d) = some d := by decide

/-- A digit is a letter or a decimal digit in lower case. -/
theorem hexDigit_lower : ∀ d < 16, (hexDigit d).toLower = hexDigit d := by decide

/-- ASCII white space between bytes. -/
def isSpace (ch : Char) : Bool := ch = ' ' || (9 ≤ ch.toNat && ch.toNat ≤ 13)

/-- White space that `strip` removes, as far as ASCII goes. -/
def isStripped (ch : Char) : Bool := isSpace ch || (28 ≤ ch.toNat && ch.toNat ≤ 31)

theorem hexDigit_not_stripped : ∀ d < 16, isStripped (hexDigit d) = false := by decide

theorem isSpace_of_not_stripped {ch : Char} (h : isStripped ch = false) : isSpace ch = false :=
  (Bool.or_eq_false_iff.mp h).1

/-- Two digits for each byte. -/
def hexDigits : Bytes → Text
  | [] => []
  | b :: rest => hexDigit (b.toNat / 16) :: hexDigit (b.toNat % 16) :: hexDigits rest

@[simp] theorem length_hexDigits : ∀ (data : Bytes), (hexDigits data).length = 2 * data.length
  | [] => rfl
  | b :: rest => by
      rw [hexDigits, List.length_cons, List.length_cons, length_hexDigits rest, List.length_cons]
      omega

theorem hexDigits_append : ∀ (xs ys : Bytes), hexDigits (xs ++ ys) = hexDigits xs ++ hexDigits ys
  | [], _ => rfl
  | b :: rest, ys => by
      rw [List.cons_append, hexDigits, hexDigits, hexDigits_append rest ys]
      rfl

theorem mem_hexDigits {ch : Char} : ∀ {data : Bytes}, ch ∈ hexDigits data →
    ∃ d < 16, ch = hexDigit d
  | b :: rest, h => by
      have hb := b.toNat_lt
      rcases List.mem_cons.mp h with rfl | h
      · exact ⟨_, by omega, rfl⟩
      · rcases List.mem_cons.mp h with rfl | h
        · exact ⟨_, by omega, rfl⟩
        · exact mem_hexDigits h

/-- `bytes.fromhex`, which skips white space between the bytes. -/
def fromHex : Text → Option Bytes
  | [] => some []
  | hi :: rest =>
      if isSpace hi then fromHex rest
      else
        match rest with
        | [] => none
        | lo :: rest =>
            match hexVal hi, hexVal lo with
            | some x, some y => (fromHex rest).map (UInt8.ofNat (16 * x + y) :: ·)
            | _, _ => none

theorem fromHex_hexDigits : ∀ (data : Bytes), fromHex (hexDigits data) = some data
  | [] => rfl
  | b :: rest => by
      have hb := b.toNat_lt
      rw [hexDigits, fromHex, isSpace_of_not_stripped (hexDigit_not_stripped _ (by omega)),
        if_neg Bool.false_ne_true]
      simp only [hexVal_hexDigit (b.toNat / 16) (by omega),
        hexVal_hexDigit (b.toNat % 16) (by omega), fromHex_hexDigits rest, Option.map_some]
      rw [show 16 * (b.toNat / 16) + b.toNat % 16 = b.toNat by omega, UInt8.ofNat_toNat]

/-! ## Strings -/

/-- `str.lower`, as far as the hexadecimal digits go. -/
def lower (t : Text) : Text := t.map Char.toLower

theorem lower_hexDigits (data : Bytes) : lower (hexDigits data) = hexDigits data := by
  refine (List.map_congr_left fun ch h => ?_).trans (List.map_id _)
  obtain ⟨d, hd, rfl⟩ := mem_hexDigits h
  exact hexDigit_lower d hd

/-- `str.strip`. -/
def strip (t : Text) : Text :=
  ((t.dropWhile isStripped).reverse.dropWhile isStripped).reverse

theorem strip_of_not_space {t : Text} (h : ∀ ch ∈ t, isStripped ch = false) : strip t = t := by
  have hkeep : ∀ {l : Text}, (∀ ch ∈ l, isStripped ch = false) → l.dropWhile isStripped = l := by
    intro l hl
    cases l with
    | nil => rfl
    | cons ch rest => rw [List.dropWhile_cons_of_neg (by simp [hl ch List.mem_cons_self])]
  rw [strip, hkeep h, hkeep fun ch hch => h ch (List.mem_reverse.mp hch), List.reverse_reverse]

/-- The `0x` before hexadecimal digits. -/
def withPrefix (t : Text) : Text := '0' :: 'x' :: t

/-- A text without a leading `0x`. -/
def dropPrefix : Text → Text
  | '0' :: 'x' :: rest => rest
  | t => t

@[simp] theorem dropPrefix_withPrefix (t : Text) : dropPrefix (withPrefix t) = t := rfl

theorem lower_withPrefix (t : Text) : lower (withPrefix t) = withPrefix (lower t) := rfl

/-- A 32-byte value or a byte string as JSON-RPC writes it. -/
def ofBytes (data : Bytes) : Text := withPrefix (hexDigits data)

/-- A quantity as JSON-RPC writes it: no leading zeros. -/
def ofQuantity (n : Nat) : Text :=
  withPrefix (if n = 0 then ['0'] else ((Nat.digits 16 n).map hexDigit).reverse)

/-- The last characters of a text. -/
def takeLast (n : Nat) (t : Text) : Text := t.drop (t.length - n)

/-- The ASCII text of a string. -/
def ofString (s : String) : Text := s.toList

/-! ## UTF-8 -/

def encodeUtf8 (t : Text) : Bytes := t.flatMap String.utf8EncodeChar

/-- `bytes.decode("utf-8")`. -/
def decodeUtf8 (data : Bytes) : Option Text :=
  (ByteArray.mk data.toArray).utf8Decode?.map Array.toList

theorem mk_encodeUtf8 (t : Text) : ByteArray.mk (encodeUtf8 t).toArray = t.utf8Encode := by
  apply ByteArray.ext
  rw [List.utf8Encode, List.data_toByteArray, encodeUtf8]

theorem decodeUtf8_encodeUtf8 (t : Text) : decodeUtf8 (encodeUtf8 t) = some t := by
  rw [decodeUtf8, mk_encodeUtf8, List.utf8Decode?_utf8Encode, Option.map_some]

theorem encodeUtf8_of_decodeUtf8 {data : Bytes} {t : Text} (h : decodeUtf8 data = some t) :
    encodeUtf8 t = data := by
  obtain ⟨chars, hchars, rfl⟩ := Option.map_eq_some_iff.mp h
  have hsome : (ByteArray.mk data.toArray).utf8Decode?.isSome := by rw [hchars]; rfl
  have hget : (ByteArray.mk data.toArray).utf8Decode?.get hsome = chars := by
    simp only [hchars, Option.get_some]
  have hencode : chars.toList.utf8Encode = ByteArray.mk data.toArray := by
    rw [← hget]
    exact ByteArray.utf8Encode_get_utf8Decode?
  have harray : (encodeUtf8 chars.toList).toArray = data.toArray :=
    congrArg ByteArray.data ((mk_encodeUtf8 chars.toList).trans hencode)
  simpa using congrArg Array.toList harray

/-! ## Numbers -/

/-- The digits of a number after the first, single underscores between them. -/
def moreDigits : Nat → Text → Option Nat
  | n, [] => some n
  | n, ch :: rest =>
      match hexVal ch with
      | some d => moreDigits (16 * n + d) rest
      | none =>
          match rest with
          | [] => none
          | next :: rest =>
              if ch = '_' then (hexVal next).bind fun d => moreDigits (16 * n + d) rest else none

/-- The digits behind the sign and the prefix. -/
def firstDigits : Text → Option Nat
  | [] => none
  | ch :: rest => (hexVal ch).bind fun d => moreDigits d rest

/-- The digits behind the sign, with or without a prefix. -/
def unsignedInt16 : Text → Option Nat
  | '0' :: 'x' :: '_' :: rest => firstDigits rest
  | '0' :: 'X' :: '_' :: rest => firstDigits rest
  | '0' :: 'x' :: rest => firstDigits rest
  | '0' :: 'X' :: rest => firstDigits rest
  | rest => firstDigits rest

/-- `int(text, 16)` of an ASCII text. -/
def parseInt16 (t : Text) : Option Int :=
  match strip t with
  | '-' :: rest => (unsignedInt16 rest).map fun (n : Nat) => -(n : Int)
  | '+' :: rest => (unsignedInt16 rest).map fun (n : Nat) => (n : Int)
  | rest => (unsignedInt16 rest).map fun (n : Nat) => (n : Int)

theorem hexDigit_ne_underscore : ∀ d < 16, hexDigit d ≠ '_' := by decide

theorem moreDigits_digits : ∀ (l : List Nat) (n : Nat), (∀ d ∈ l, d < 16) →
    moreDigits n (l.map hexDigit) = some (l.foldl (fun n d => 16 * n + d) n)
  | [], _, _ => rfl
  | d :: rest, n, h => by
      rw [List.map_cons, moreDigits.eq_def]
      simp only [hexVal_hexDigit d (h d List.mem_cons_self)]
      exact moreDigits_digits rest _ fun e he => h e (List.mem_cons_of_mem _ he)

/-- A quantity is read back. -/
theorem parseInt16_ofQuantity (n : Nat) : parseInt16 (ofQuantity n) = some (n : Int) := by
  have hdigits : ∀ d ∈ (if n = 0 then [0] else (Nat.digits 16 n).reverse), d < 16 := by
    intro d hd
    split at hd
    · rw [List.mem_singleton.mp hd]
      omega
    · exact Nat.digits_lt_base (by omega) (List.mem_reverse.mp hd)
  have hform : ofQuantity n
      = withPrefix ((if n = 0 then [0] else (Nat.digits 16 n).reverse).map hexDigit) := by
    rw [ofQuantity]
    split
    · rfl
    · rw [List.map_reverse]
  have hvalue : (if n = 0 then [0] else (Nat.digits 16 n).reverse).foldl
      (fun n d => 16 * n + d) 0 = n := by
    split
    · next hzero => rw [hzero]; rfl
    · rw [List.foldl_reverse]
      conv_rhs => rw [← Nat.ofDigits_digits 16 n, Nat.ofDigits_eq_foldr]
      exact List.foldr_ext _ _ _ fun d _ m => by simp; omega
  have hne : (if n = 0 then [0] else (Nat.digits 16 n).reverse) ≠ [] := by
    split
    · simp
    · next hpos => exact fun hnil => hpos (Nat.digits_eq_nil_iff_eq_zero.mp (List.reverse_eq_nil_iff.mp hnil))
  rw [hform]
  generalize (if n = 0 then [0] else (Nat.digits 16 n).reverse) = l at hdigits hvalue hne
  obtain ⟨d, rest, rfl⟩ := List.exists_cons_of_ne_nil hne
  have hd := hdigits d List.mem_cons_self
  have hstrip : strip (withPrefix ((d :: rest).map hexDigit)) = withPrefix ((d :: rest).map hexDigit) := by
    refine strip_of_not_space fun ch hch => ?_
    rcases List.mem_cons.mp hch with rfl | hch
    · rfl
    · rcases List.mem_cons.mp hch with rfl | hch
      · rfl
      · obtain ⟨e, he, rfl⟩ := List.mem_map.mp hch
        exact hexDigit_not_stripped e (hdigits e he)
  have hread : firstDigits ((d :: rest).map hexDigit) = some n := by
    rw [List.map_cons, firstDigits, hexVal_hexDigit d hd, Option.bind_some,
      moreDigits_digits rest d fun e he => hdigits e (List.mem_cons_of_mem _ he), ← hvalue,
      List.foldl_cons, Nat.mul_zero, Nat.zero_add]
  have hunsigned : unsignedInt16 (withPrefix ((d :: rest).map hexDigit)) = some n := by
    rw [← hread, List.map_cons, withPrefix]
    exact unsignedInt16.eq_3 _ fun _ heq => hexDigit_ne_underscore d hd (List.cons.inj heq).1
  rw [parseInt16, hstrip]
  change (unsignedInt16 (withPrefix ((d :: rest).map hexDigit))).map _ = _
  rw [hunsigned]
  rfl

end Text

/-- The id of a native transaction as the node shows it. -/
def txidText (txid : Hash256) : Text := Text.hexDigits txid.toBytes

/-! ## Exceptions -/

/-- What the daemon raises. -/
inductive PyError where
  | bridgeError (message : Text)
  | unicodeDecodeError
  | valueError
  | indexError
  | osError
deriving DecidableEq

/-- A computation that returns has no step that raises. -/
theorem bind_eq_ok {ε α β : Type} {x : Except ε α} {f : α → Except ε β} {b : β} :
    (x >>= f) = .ok b ↔ ∃ a, x = .ok a ∧ f a = .ok b := by
  cases x with
  | error e => exact ⟨nofun, fun ⟨_, h, _⟩ => nomatch h⟩
  | ok a => exact ⟨fun h => ⟨a, rfl, h⟩, fun ⟨_, h, hf⟩ => by cases h; exact hf⟩

theorem returns_bind {ε α β : Type} {x : Except ε α} {f : α → Except ε β} {a : α} (hx : x = .ok a)
    (hf : ∃ b, f a = .ok b) : ∃ b, x >>= f = .ok b := by
  obtain ⟨b, hb⟩ := hf
  exact ⟨b, bind_eq_ok.mpr ⟨a, hx, hb⟩⟩

/-- A list is mapped element by element, when none raises. -/
theorem mapM_ok {ε α β : Type} {f : α → Except ε β} : ∀ {l : List α} {l' : List β},
    l.mapM f = .ok l' → List.Forall₂ (fun a b => f a = .ok b) l l'
  | [], _, h => by
      cases h
      exact .nil
  | a :: rest, l', h => by
      rw [List.mapM_cons] at h
      obtain ⟨b, hb, h⟩ := bind_eq_ok.mp h
      obtain ⟨bs, hbs, h⟩ := bind_eq_ok.mp h
      cases h
      exact .cons hb (mapM_ok hbs)

theorem exists_of_forall₂ {α β : Type} {r : α → β → Prop} {b : β} : ∀ {l : List α} {l' : List β},
    List.Forall₂ r l l' → b ∈ l' → ∃ a ∈ l, r a b
  | _, _, .cons (a := a) hr hrest, hb => by
      rcases List.mem_cons.mp hb with rfl | hb
      · exact ⟨a, List.mem_cons_self, hr⟩
      · obtain ⟨a', ha', hr'⟩ := exists_of_forall₂ hrest hb
        exact ⟨a', List.mem_cons_of_mem _ ha', hr'⟩

/-! ## Addresses -/

/-- The characters of `[a-fA-F0-9]`. -/
def isHexDigit (ch : Char) : Bool := (Text.hexVal ch).isSome

/-- `EVM_ADDRESS_RE.match`. The end of the pattern also matches before a last
line break. -/
def evmAddressRe : Text → Bool
  | '0' :: 'x' :: rest =>
      (rest.take 40).length = 40 && (rest.take 40).all isHexDigit &&
        (rest.drop 40 = [] || rest.drop 40 = ['\n'])
  | _ => false

/-- `normalize_evm_address`. -/
def normalizeEvmAddress (address : Text) : Except PyError Text :=
  let lowered := Text.lower (Text.strip address)
  if evmAddressRe lowered then .ok lowered
  else .error (.bridgeError (Text.ofString "invalid EVM address: " ++ address))

end Bridge

end Cryptex
