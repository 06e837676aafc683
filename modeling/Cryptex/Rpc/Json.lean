import Cryptex.Encoding.Address

/-!
# The JSON of the RPC server

`JsonValue`, `JsonParser`, `json_escape` and `json_serialize` of `rpc.cpp`. A
text is a list of bytes, and what a function of the parser has not read yet is
the list it returns.

The parser calls itself on what stands between brackets, and loops over
elements. Both have a bound here, which the length of the input provides for:
no text exceeds it (`parse_ne_deep`).
-/

namespace Cryptex

namespace Rpc

open Encoding

structure RpcException where
  code : Int
  message : String
deriving DecidableEq

inductive JsonValue where
  | null
  | bool (value : Bool)
  | number (raw : Bytes)
  | string (value : Bytes)
  | array (items : List JsonValue)
  | object (fields : List (Bytes × JsonValue))

/-- `set`: the value of a key that is there is replaced. -/
def setField : List (Bytes × JsonValue) → Bytes → JsonValue → List (Bytes × JsonValue)
  | [], key, value => [(key, value)]
  | (k, v) :: rest, key, value =>
      if k = key then (k, value) :: rest else (k, v) :: setField rest key value

/-! ## Writing -/

/-- What `json_escape` writes for a byte. -/
def escapeByte (ch : UInt8) : Bytes :=
  if ch = 34 then chars "\\\""
  else if ch = 92 then chars "\\\\"
  else if ch = 8 then chars "\\b"
  else if ch = 12 then chars "\\f"
  else if ch = 10 then chars "\\n"
  else if ch = 13 then chars "\\r"
  else if ch = 9 then chars "\\t"
  else if ch < 0x20 then
    -- `std::hex` with `setw(4)` and `setfill('0')`
    chars "\\u00" ++ [hexChar (ch.toNat / 16), hexChar (ch.toNat % 16)]
  else [ch]

def jsonEscape (input : Bytes) : Bytes := input.flatMap escapeByte

def quoted (s : Bytes) : Bytes := [34] ++ jsonEscape s ++ [34]

mutual

def jsonSerialize : JsonValue → Bytes
  | .null => chars "null"
  | .bool value => if value then chars "true" else chars "false"
  | .number raw => raw
  | .string value => quoted value
  | .array items => [91] ++ serializeItems true items ++ [93]
  | .object fields => [123] ++ serializeFields true fields ++ [125]

/-- The loop over an array. -/
def serializeItems : Bool → List JsonValue → Bytes
  | _, [] => []
  | first, item :: rest =>
      (if first then [] else [44]) ++ jsonSerialize item ++ serializeItems false rest

/-- The loop over an object. -/
def serializeFields : Bool → List (Bytes × JsonValue) → Bytes
  | _, [] => []
  | first, (key, item) :: rest =>
      (if first then [] else [44]) ++ (quoted key ++ [58] ++ jsonSerialize item)
        ++ serializeFields false rest

end

/-! ## Reading -/

/-- How the parser ends without a value: the source throws, or the bound of
this model is exceeded. -/
inductive Stop where
  | thrown (e : RpcException)
  | deep
deriving DecidableEq

/-- A value and what is left of the text. -/
abbrev Parsed (α : Type) := Except Stop (α × Bytes)

def refuse {α : Type} (message : String) : Except Stop α := .error (.thrown ⟨-32700, message⟩)

/-- `std::isdigit`. -/
def isDigit (ch : UInt8) : Bool := 48 ≤ ch && ch ≤ 57

def skipWs (s : Bytes) : Bytes := s.dropWhile isSpace

/-- `consume`. -/
def consume (text s : Bytes) : Option Bytes :=
  if text.isPrefixOf s then some (s.drop text.length) else none

def parseNull (s : Bytes) : Parsed JsonValue :=
  match consume (chars "null") s with
  | some rest => .ok (.null, rest)
  | none => refuse "unexpected JSON token"

def parseBool (s : Bytes) : Parsed JsonValue :=
  match consume (chars "true") s with
  | some rest => .ok (.bool true, rest)
  | none =>
      match consume (chars "false") s with
      | some rest => .ok (.bool false, rest)
      | none => refuse "invalid JSON boolean"

/-! ### Numbers -/

/-- One of some bytes, if it stands here. -/
def splitSign (signs : Bytes) : Bytes → Bytes × Bytes
  | ch :: rest => if ch ∈ signs then ([ch], rest) else ([], ch :: rest)
  | [] => ([], [])

/-- A run of digits, which is not empty. -/
def parseDigits : Bytes → Parsed Bytes
  | ch :: rest =>
      if isDigit ch then .ok ((ch :: rest).span isDigit) else refuse "invalid JSON number"
  | [] => refuse "invalid JSON number"

def parseInteger : Bytes → Parsed Bytes
  | ch :: rest => if ch = 48 then .ok ([ch], rest) else parseDigits (ch :: rest)
  | [] => refuse "invalid JSON number"

def parseFraction : Bytes → Parsed Bytes
  | ch :: rest =>
      if ch = 46 then (parseDigits rest).map fun p => (ch :: p.1, p.2) else .ok ([], ch :: rest)
  | [] => .ok ([], [])

def parseExponent : Bytes → Parsed Bytes
  | ch :: rest =>
      if ch = 101 ∨ ch = 69 then
        (parseDigits (splitSign [43, 45] rest).2).map fun p =>
          (ch :: ((splitSign [43, 45] rest).1 ++ p.1), p.2)
      else .ok ([], ch :: rest)
  | [] => .ok ([], [])

def parseNumber (s : Bytes) : Parsed JsonValue :=
  match parseInteger (splitSign [45] s).2 with
  | .error e => .error e
  | .ok (whole, s₁) =>
      match parseFraction s₁ with
      | .error e => .error e
      | .ok (fraction, s₂) =>
          (parseExponent s₂).map fun p =>
            (.number ((splitSign [45] s).1 ++ whole ++ fraction ++ p.1), p.2)

/-! ### Strings -/

def simpleEscape (esc : UInt8) : Option UInt8 :=
  if esc = 34 then some 34
  else if esc = 92 then some 92
  else if esc = 47 then some 47
  else if esc = 98 then some 8
  else if esc = 102 then some 12
  else if esc = 110 then some 10
  else if esc = 114 then some 13
  else if esc = 116 then some 9
  else none

/-- The code of the digits after `\u`. -/
def hexCode (digits : Bytes) : Option Nat :=
  digits.foldlM (fun code hex => if isXdigit hex then some (code <<< 4 ||| hexValue hex) else none) 0

/-- A code as the source writes it in UTF-8. -/
def encodeCode (code : Nat) : Bytes :=
  if code ≤ 0x7F then [UInt8.ofNat code]
  else if code ≤ 0x7FF then
    [UInt8.ofNat (0xC0 ||| (code >>> 6 &&& 0x1F)), UInt8.ofNat (0x80 ||| (code &&& 0x3F))]
  else
    [UInt8.ofNat (0xE0 ||| (code >>> 12 &&& 0x0F)), UInt8.ofNat (0x80 ||| (code >>> 6 &&& 0x3F)),
      UInt8.ofNat (0x80 ||| (code &&& 0x3F))]

/-- The loop of `parse_string`. -/
def parseChars : Bytes → Bytes → Parsed Bytes
  | [], _ => refuse "unterminated JSON string"
  | ch :: rest, out =>
      if ch = 34 then .ok (out, rest)
      else if ch = 92 then
        match rest with
        | [] => refuse "unterminated escape"
        | esc :: rest =>
            if esc = 117 then
              match rest with
              | a :: b :: c :: d :: rest =>
                  match hexCode [a, b, c, d] with
                  | some code => parseChars rest (out ++ encodeCode code)
                  | none => refuse "invalid unicode escape"
              | _ => refuse "short unicode escape"
            else
              match simpleEscape esc with
              | some ch => parseChars rest (out ++ [ch])
              | none => refuse "invalid string escape"
      else parseChars rest (out ++ [ch])

def parseString : Bytes → Parsed Bytes
  | ch :: rest => if ch = 34 then parseChars rest [] else refuse "expected JSON string"
  | [] => refuse "expected JSON string"

/-! ### Arrays and objects -/

section

variable {α β : Type}

/-- The loop of `parse_array` and `parse_object`: entries with commas between
them, until the closing byte. -/
def parseEntries (entry : Bytes → Parsed α) (add : β → α → β) (close : UInt8)
    (unterminated expected : String) : Nat → β → Bytes → Parsed β
  | 0, _, _ => .error .deep
  | fuel + 1, value, s =>
      match entry (skipWs s) with
      | .error e => .error e
      | .ok (item, s) =>
          match skipWs s with
          | [] => refuse unterminated
          | ch :: rest =>
              if ch = close then .ok (add value item, rest)
              else if ch ≠ 44 then refuse expected
              else parseEntries entry add close unterminated expected fuel (add value item) rest

/-- What follows the opening byte. -/
def parseEnclosed (entry : Bytes → Parsed α) (add : β → α → β) (close : UInt8)
    (unterminated expected : String) (empty : β) (s : Bytes) : Parsed β :=
  if (skipWs s).head? = some close then .ok (empty, (skipWs s).tail)
  else parseEntries entry add close unterminated expected (s.length + 1) empty (skipWs s)

end

/-- `parse_array`, after its bracket. -/
def parseArray (value : Bytes → Parsed JsonValue) (s : Bytes) : Parsed JsonValue :=
  (parseEnclosed value (fun items item => items ++ [item]) 93 "unterminated JSON array"
    "expected ',' in array" [] s).map fun p => (.array p.1, p.2)

/-- A key and its value. -/
def parseMember (value : Bytes → Parsed JsonValue) (s : Bytes) : Parsed (Bytes × JsonValue) :=
  if s.head? ≠ some 34 then refuse "expected object key"
  else
    match parseString s with
    | .error e => .error e
    | .ok (key, s) =>
        match skipWs s with
        | ch :: rest =>
            if ch = 58 then (value (skipWs rest)).map fun p => ((key, p.1), p.2)
            else refuse "expected ':' in object"
        | [] => refuse "expected ':' in object"

/-- `parse_object`, after its brace. -/
def parseObject (value : Bytes → Parsed JsonValue) (s : Bytes) : Parsed JsonValue :=
  (parseEnclosed (parseMember value) (fun fields field => setField fields field.1 field.2) 125
    "unterminated JSON object" "expected ',' in object" [] s).map fun p => (.object p.1, p.2)

def parseValue : Nat → Bytes → Parsed JsonValue
  | 0, _ => .error .deep
  | _ + 1, [] => refuse "unexpected end of JSON"
  | depth + 1, ch :: rest =>
      if ch = 110 then parseNull (ch :: rest)
      else if ch = 116 ∨ ch = 102 then parseBool (ch :: rest)
      else if ch = 34 then (parseString (ch :: rest)).map fun p => (.string p.1, p.2)
      else if ch = 91 then parseArray (parseValue depth) rest
      else if ch = 123 then parseObject (parseValue depth) rest
      else if ch = 45 ∨ isDigit ch then parseNumber (ch :: rest)
      else refuse "invalid JSON value"

/-- `JsonParser::parse`. -/
def parse (input : Bytes) : Except Stop JsonValue :=
  match parseValue (input.length + 1) (skipWs input) with
  | .error e => .error e
  | .ok (value, rest) => if skipWs rest ≠ [] then refuse "trailing JSON data" else .ok value

/-! ## The bounds are never reached -/

section

variable {α β : Type}

/-- What is read is not empty. -/
def Consumes (read : Bytes → Parsed α) : Prop :=
  ∀ s a rest, read s = .ok (a, rest) → rest.length < s.length

/-- The reader stays within the bounds of the model on texts that are shorter than `n`. -/
def Bounded (n : Nat) (read : Bytes → Parsed α) : Prop :=
  ∀ s, s.length < n → read s ≠ .error .deep

theorem length_skipWs (s : Bytes) : (skipWs s).length ≤ s.length :=
  (List.dropWhile_sublist _).length_le

theorem refuse_ne_deep {message : String} : (refuse message : Except Stop α) ≠ .error .deep := nofun

theorem map_eq_ok {x : Except Stop α} {f : α → β} {b : β} (h : x.map f = .ok b) :
    ∃ a, x = .ok a ∧ f a = b := by
  cases x with
  | error e => cases h
  | ok a => exact ⟨a, rfl, Except.ok.inj h⟩

theorem map_ne_deep {x : Except Stop α} {f : α → β} (h : x ≠ .error .deep) :
    x.map f ≠ .error .deep := by
  cases x with
  | error e => exact fun heq => h (congrArg Except.error (Except.error.inj heq))
  | ok a => exact nofun

theorem length_splitSign (signs s : Bytes) : (splitSign signs s).2.length ≤ s.length := by
  cases s with
  | nil => exact Nat.le_refl _
  | cons ch rest =>
      rw [splitSign]
      split
      · exact Nat.le_succ _
      · exact Nat.le_refl _

theorem consumes_parseDigits : Consumes parseDigits := by
  intro s a rest h
  cases s with
  | nil => cases h
  | cons ch tail =>
      rw [parseDigits] at h
      split at h
      · next hdigit =>
          rw [List.span_eq_takeWhile_dropWhile, List.dropWhile_cons_of_pos hdigit] at h
          cases h
          exact Nat.lt_succ_of_le (List.dropWhile_sublist _).length_le
      · cases h

theorem consumes_parseInteger : Consumes parseInteger := by
  intro s a rest h
  cases s with
  | nil => cases h
  | cons ch tail =>
      rw [parseInteger] at h
      split at h
      · cases h
        exact Nat.lt_succ_self _
      · exact consumes_parseDigits _ _ _ h

theorem length_parseFraction {s a rest : Bytes} (h : parseFraction s = .ok (a, rest)) :
    rest.length ≤ s.length := by
  cases s with
  | nil => cases h; exact Nat.le_refl _
  | cons ch tail =>
      rw [parseFraction] at h
      split at h
      · obtain ⟨p, hp, heq⟩ := map_eq_ok h
        cases heq
        have hlt := consumes_parseDigits _ _ _ hp
        rw [List.length_cons]
        omega
      · cases h
        exact Nat.le_refl _

theorem length_parseExponent {s a rest : Bytes} (h : parseExponent s = .ok (a, rest)) :
    rest.length ≤ s.length := by
  cases s with
  | nil => cases h; exact Nat.le_refl _
  | cons ch tail =>
      rw [parseExponent] at h
      split at h
      · obtain ⟨p, hp, heq⟩ := map_eq_ok h
        cases heq
        have hlt := consumes_parseDigits _ _ _ hp
        have hsign := length_splitSign [43, 45] tail
        rw [List.length_cons]
        omega
      · cases h
        exact Nat.le_refl _

theorem consumes_parseNumber : Consumes parseNumber := by
  intro s a rest h
  rw [parseNumber] at h
  split at h
  · cases h
  · next whole s₁ hwhole =>
      split at h
      · cases h
      · next fraction s₂ hfraction =>
          obtain ⟨p, hp, heq⟩ := map_eq_ok h
          cases heq
          have hsign := length_splitSign [45] s
          have hlt := consumes_parseInteger _ _ _ hwhole
          have hle := length_parseFraction hfraction
          have hexponent := length_parseExponent hp
          omega

/-! ### No part but the loops has a bound -/

theorem parseDigits_ne_deep (s : Bytes) : parseDigits s ≠ .error .deep := by
  cases s with
  | nil => exact refuse_ne_deep
  | cons ch rest =>
      rw [parseDigits]
      split
      · exact nofun
      · exact refuse_ne_deep

theorem parseInteger_ne_deep (s : Bytes) : parseInteger s ≠ .error .deep := by
  cases s with
  | nil => exact refuse_ne_deep
  | cons ch rest =>
      rw [parseInteger]
      split
      · exact nofun
      · exact parseDigits_ne_deep _

theorem parseFraction_ne_deep (s : Bytes) : parseFraction s ≠ .error .deep := by
  cases s with
  | nil => exact nofun
  | cons ch rest =>
      rw [parseFraction]
      split
      · exact map_ne_deep (parseDigits_ne_deep _)
      · exact nofun

theorem parseExponent_ne_deep (s : Bytes) : parseExponent s ≠ .error .deep := by
  cases s with
  | nil => exact nofun
  | cons ch rest =>
      rw [parseExponent]
      split
      · exact map_ne_deep (parseDigits_ne_deep _)
      · exact nofun

theorem parseNumber_ne_deep (s : Bytes) : parseNumber s ≠ .error .deep := by
  rw [parseNumber]
  split
  · next e he =>
      rintro h
      cases h
      exact parseInteger_ne_deep _ he
  · split
    · next e he =>
        rintro h
        cases h
        exact parseFraction_ne_deep _ he
    · exact map_ne_deep (parseExponent_ne_deep _)

theorem length_consume {text s rest : Bytes} (h : consume text s = some rest) :
    s.length = text.length + rest.length := by
  rw [consume] at h
  split at h
  · next hprefix =>
      obtain ⟨tail, rfl⟩ := List.isPrefixOf_iff_prefix.mp hprefix
      rw [List.drop_left] at h
      rw [← Option.some.inj h, List.length_append]
  · cases h

theorem parseNull_spec (s : Bytes) : parseNull s ≠ .error .deep ∧
    ∀ a rest, parseNull s = .ok (a, rest) → rest.length < s.length := by
  rw [parseNull]
  split
  · next rest h =>
      refine ⟨nofun, fun a rest' heq => ?_⟩
      cases heq
      have := length_consume h
      rw [show (chars "null").length = 4 from rfl] at this
      omega
  · exact ⟨refuse_ne_deep, nofun⟩

theorem parseBool_spec (s : Bytes) : parseBool s ≠ .error .deep ∧
    ∀ a rest, parseBool s = .ok (a, rest) → rest.length < s.length := by
  rw [parseBool]
  split
  · next rest h =>
      refine ⟨nofun, fun a rest' heq => ?_⟩
      cases heq
      have := length_consume h
      rw [show (chars "true").length = 4 from rfl] at this
      omega
  · split
    · next rest h =>
        refine ⟨nofun, fun a rest' heq => ?_⟩
        cases heq
        have := length_consume h
        rw [show (chars "false").length = 5 from rfl] at this
        omega
    · exact ⟨refuse_ne_deep, nofun⟩

theorem parseChars_spec (s out : Bytes) : parseChars s out ≠ .error .deep ∧
    ∀ a rest, parseChars s out = .ok (a, rest) → rest.length < s.length := by
  fun_induction parseChars s out with
  | case1 out => exact ⟨refuse_ne_deep, nofun⟩
  | case2 rest out =>
      refine ⟨nofun, fun a rest' h => ?_⟩
      cases h
      exact Nat.lt_succ_self _
  | case3 out hne => exact ⟨refuse_ne_deep, nofun⟩
  | case4 out a b c d rest code hcode hne ih =>
      refine ⟨ih.1, fun s rest' h => ?_⟩
      have := ih.2 s rest' h
      simp only [List.length_cons]
      omega
  | case5 out a b c d rest hcode hne => exact ⟨refuse_ne_deep, nofun⟩
  | case6 out rest hshort hne => exact ⟨refuse_ne_deep, nofun⟩
  | case7 out esc rest hesc ch hch hne ih =>
      refine ⟨ih.1, fun s rest' h => ?_⟩
      have := ih.2 s rest' h
      simp only [List.length_cons]
      omega
  | case8 out esc rest hesc hch hne => exact ⟨refuse_ne_deep, nofun⟩
  | case9 ch rest out hquote hback ih =>
      refine ⟨ih.1, fun s rest' h => ?_⟩
      have := ih.2 s rest' h
      rw [List.length_cons]
      omega

theorem parseString_spec (s : Bytes) : parseString s ≠ .error .deep ∧
    ∀ a rest, parseString s = .ok (a, rest) → rest.length < s.length := by
  cases s with
  | nil => exact ⟨refuse_ne_deep, nofun⟩
  | cons ch tail =>
      rw [parseString]
      split
      · refine ⟨(parseChars_spec tail []).1, fun a rest h => ?_⟩
        have := (parseChars_spec tail []).2 a rest h
        rw [List.length_cons]
        omega
      · exact ⟨refuse_ne_deep, nofun⟩

/-! ### The loops -/

variable {entry : Bytes → Parsed α} {add : β → α → β} {close : UInt8} {unterminated expected : String}

theorem consumes_parseEntries (hentry : Consumes entry) : ∀ (fuel : Nat) (value : β),
    Consumes (parseEntries entry add close unterminated expected fuel value)
  | 0, _ => fun s a rest h => by cases h
  | fuel + 1, value => fun s a rest h => by
      rw [parseEntries] at h
      split at h
      · cases h
      · next item s' hitem =>
          have hlt := hentry _ _ _ hitem
          have hskip := length_skipWs s
          have hskip' := length_skipWs s'
          split at h
          · cases h
          · next ch tail htail =>
              rw [htail, List.length_cons] at hskip'
              split at h
              · cases h
                omega
              · split at h
                · cases h
                · have := consumes_parseEntries hentry fuel _ _ _ _ h
                  omega

/-- A loop takes fewer rounds than the text has bytes. -/
theorem parseEntries_ne_deep {n : Nat} (hentry : Consumes entry) (hbounded : Bounded n entry) :
    ∀ (fuel : Nat) (value : β) (s : Bytes), s.length < n → s.length < fuel →
      parseEntries entry add close unterminated expected fuel value s ≠ .error .deep
  | fuel + 1, value, s, hn, hfuel => by
      have hskip := length_skipWs s
      rw [parseEntries]
      split
      · next e he =>
          rintro h
          cases h
          exact hbounded _ (by omega) he
      · next item s' hitem =>
          have hlt := hentry _ _ _ hitem
          have hskip' := length_skipWs s'
          split
          · exact refuse_ne_deep
          · next ch tail htail =>
              rw [htail, List.length_cons] at hskip'
              split
              · exact nofun
              · split
                · exact refuse_ne_deep
                · exact parseEntries_ne_deep hentry hbounded fuel _ _ (by omega) (by omega)

theorem parseEnclosed_spec (hentry : Consumes entry) (empty : β) (s : Bytes) :
    (∀ n, Bounded n entry → s.length < n →
      parseEnclosed entry add close unterminated expected empty s ≠ .error .deep) ∧
    ∀ a rest, parseEnclosed entry add close unterminated expected empty s = .ok (a, rest) →
      rest.length ≤ s.length := by
  have hskip := length_skipWs s
  rw [parseEnclosed]
  split
  · refine ⟨fun _ _ _ => nofun, fun a rest h => ?_⟩
    cases h
    rw [List.length_tail]
    omega
  · refine ⟨fun n hbounded hn => ?_, fun a rest h => ?_⟩
    · exact parseEntries_ne_deep hentry hbounded _ _ _ (by omega) (by omega)
    · have := consumes_parseEntries hentry _ _ _ _ _ h
      omega

theorem parseMember_spec {value : Bytes → Parsed JsonValue} (hvalue : Consumes value) :
    Consumes (parseMember value) ∧ ∀ n, Bounded n value → Bounded n (parseMember value) := by
  constructor
  · intro s a rest h
    rw [parseMember] at h
    split at h
    · cases h
    · split at h
      · cases h
      · next key s' hkey =>
          have hlt := (parseString_spec s).2 _ _ hkey
          have hskip := length_skipWs s'
          split at h
          · next ch tail htail =>
              rw [htail, List.length_cons] at hskip
              split at h
              · obtain ⟨p, hp, heq⟩ := map_eq_ok h
                cases heq
                have := hvalue _ _ _ hp
                have := length_skipWs tail
                omega
              · cases h
          · cases h
  · intro n hbounded s hn
    rw [parseMember]
    split
    · exact refuse_ne_deep
    · split
      · next e he =>
          rintro h
          cases h
          exact (parseString_spec s).1 he
      · next key s' hkey =>
          have hlt := (parseString_spec s).2 _ _ hkey
          have hskip := length_skipWs s'
          split
          · next ch tail htail =>
              rw [htail, List.length_cons] at hskip
              split
              · have := length_skipWs tail
                exact map_ne_deep (hbounded _ (by omega))
              · exact refuse_ne_deep
          · exact refuse_ne_deep

theorem parseValue_spec : ∀ depth : Nat,
    Consumes (parseValue depth) ∧ Bounded depth (parseValue depth)
  | 0 => ⟨fun _ _ _ h => (nomatch h), fun _ h => absurd h (Nat.not_lt_zero _)⟩
  | depth + 1 => by
      obtain ⟨hconsumes, hbounded⟩ := parseValue_spec depth
      obtain ⟨hmember, hmembers⟩ := parseMember_spec hconsumes
      constructor
      · intro s a rest h
        cases s with
        | nil => cases h
        | cons ch tail =>
            rw [parseValue] at h
            split at h
            · exact (parseNull_spec _).2 _ _ h
            split at h
            · exact (parseBool_spec _).2 _ _ h
            split at h
            · obtain ⟨p, hp, heq⟩ := map_eq_ok h
              cases heq
              exact (parseString_spec _).2 _ _ hp
            split at h
            · obtain ⟨p, hp, heq⟩ := map_eq_ok h
              cases heq
              exact Nat.lt_succ_of_le ((parseEnclosed_spec hconsumes _ _).2 _ _ hp)
            split at h
            · obtain ⟨p, hp, heq⟩ := map_eq_ok h
              cases heq
              exact Nat.lt_succ_of_le ((parseEnclosed_spec hmember _ _).2 _ _ hp)
            split at h
            · exact consumes_parseNumber _ _ _ h
            · cases h
      · intro s hs
        cases s with
        | nil => exact refuse_ne_deep
        | cons ch tail =>
            have htail : tail.length < depth := Nat.lt_of_succ_lt_succ hs
            rw [parseValue]
            split
            · exact (parseNull_spec _).1
            split
            · exact (parseBool_spec _).1
            split
            · exact map_ne_deep (parseString_spec _).1
            split
            · exact map_ne_deep ((parseEnclosed_spec hconsumes _ _).1 _ hbounded htail)
            split
            · exact map_ne_deep ((parseEnclosed_spec hmember _ _).1 _ (hmembers _ hbounded) htail)
            split
            · exact parseNumber_ne_deep _
            · exact refuse_ne_deep

/-- The parser ends with a value or an exception on every input. -/
theorem parse_ne_deep (input : Bytes) : parse input ≠ .error .deep := by
  rw [parse]
  split
  · next e he =>
      rintro h
      cases h
      have := length_skipWs input
      exact (parseValue_spec _).2 _ (by omega) he
  · split
    · exact refuse_ne_deep
    · exact nofun

end

end Rpc

end Cryptex
