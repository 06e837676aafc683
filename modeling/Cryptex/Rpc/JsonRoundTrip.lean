import Cryptex.Rpc.Json

/-!
# What the server writes it can read

The parser takes the text of a value back to the value, whatever is nested in
it: strings of any bytes, numbers of the JSON grammar, objects whose keys
differ.

Every part of the text is read up to a byte at which its reader stops. Behind
a value that is a comma, a closing byte or the end (`Delimited`).
-/

namespace Cryptex

namespace Rpc

open Encoding

/-! ## The values -/

/-- A run of digits. -/
def Digits (s : Bytes) : Prop := s ≠ [] ∧ ∀ ch ∈ s, isDigit ch = true

/-- `int`: zero, or digits of which the first is not zero. -/
def IntegerText (s : Bytes) : Prop := s = [48] ∨ (Digits s ∧ s.head? ≠ some 48)

/-- `[ frac ]`. -/
def FractionText (s : Bytes) : Prop := s = [] ∨ ∃ ds, Digits ds ∧ s = 46 :: ds

/-- `[ exp ]`. -/
def ExponentText (s : Bytes) : Prop :=
  s = [] ∨ ∃ e sign ds, (e = 101 ∨ e = 69) ∧ (sign = [] ∨ sign = [43] ∨ sign = [45]) ∧ Digits ds ∧
    s = e :: (sign ++ ds)

/-- The number grammar of JSON. -/
def NumberText (raw : Bytes) : Prop :=
  ∃ sign whole fraction exponent, (sign = [] ∨ sign = [45]) ∧ IntegerText whole ∧
    FractionText fraction ∧ ExponentText exponent ∧ raw = sign ++ whole ++ fraction ++ exponent

/-- Numbers follow the grammar, and the keys of an object differ. -/
inductive WellFormed : JsonValue → Prop where
  | null : WellFormed .null
  | bool (value : Bool) : WellFormed (.bool value)
  | number {raw : Bytes} : NumberText raw → WellFormed (.number raw)
  | string (value : Bytes) : WellFormed (.string value)
  | array {items : List JsonValue} : (∀ v ∈ items, WellFormed v) → WellFormed (.array items)
  | object {fields : List (Bytes × JsonValue)} : (fields.map Prod.fst).Nodup →
      (∀ f ∈ fields, WellFormed f.2) → WellFormed (.object fields)

/-- The end, or a byte that follows a value in an array or object. -/
def Delimited (s : Bytes) : Prop := ∀ ch ∈ s.head?, ch = 44 ∨ ch = 93 ∨ ch = 125

theorem skipWs_cons {ch : UInt8} (h : isSpace ch = false) (s : Bytes) :
    skipWs (ch :: s) = ch :: s :=
  List.dropWhile_cons_of_neg (by rw [h]; exact Bool.false_ne_true)

/-! ## Strings -/

theorem hexCode_control : ∀ n < 32, hexCode [48, 48, hexChar (n / 16), hexChar (n % 16)] = some n := by
  decide

theorem parseChars_quote (rest out : Bytes) : parseChars (34 :: rest) out = .ok (out, rest) := by
  rw [parseChars.eq_def]
  rfl

theorem parseChars_plain {ch : UInt8} (hquote : ch ≠ 34) (hback : ch ≠ 92) (rest out : Bytes) :
    parseChars (ch :: rest) out = parseChars rest (out ++ [ch]) := by
  rw [parseChars.eq_def]
  simp only [if_neg hquote, if_neg hback]

theorem parseChars_simple {esc ch : UInt8} (hne : esc ≠ 117) (h : simpleEscape esc = some ch)
    (rest out : Bytes) : parseChars (92 :: esc :: rest) out = parseChars rest (out ++ [ch]) := by
  rw [parseChars.eq_def]
  simp only [if_neg (by decide : ¬ (92 : UInt8) = 34), if_true, if_neg hne, h]

theorem parseChars_unicode {a b c d : UInt8} {code : Nat} (h : hexCode [a, b, c, d] = some code)
    (rest out : Bytes) :
    parseChars (92 :: 117 :: a :: b :: c :: d :: rest) out
      = parseChars rest (out ++ encodeCode code) := by
  rw [parseChars.eq_def]
  simp only [if_neg (by decide : ¬ (92 : UInt8) = 34), if_true, h]

/-- The text of a byte stands for the byte. -/
theorem parseChars_escapeByte (ch : UInt8) (rest out : Bytes) :
    parseChars (escapeByte ch ++ rest) out = parseChars rest (out ++ [ch]) := by
  rw [escapeByte]
  split
  · next h => rw [h]; exact parseChars_simple (by decide) rfl rest out
  split
  · next h => rw [h]; exact parseChars_simple (by decide) rfl rest out
  split
  · next h => rw [h]; exact parseChars_simple (by decide) rfl rest out
  split
  · next h => rw [h]; exact parseChars_simple (by decide) rfl rest out
  split
  · next h => rw [h]; exact parseChars_simple (by decide) rfl rest out
  split
  · next h => rw [h]; exact parseChars_simple (by decide) rfl rest out
  split
  · next h => rw [h]; exact parseChars_simple (by decide) rfl rest out
  split
  · next h =>
      have hcode := hexCode_control ch.toNat (UInt8.lt_iff_toNat_lt.mp h)
      have hencode : encodeCode ch.toNat = [ch] := by
        have hlt : ch.toNat < 32 := UInt8.lt_iff_toNat_lt.mp h
        rw [encodeCode, if_pos (by omega), UInt8.ofNat_toNat]
      rw [← hencode]
      exact parseChars_unicode hcode rest out
  · next hquote hback _ _ _ _ _ _ => exact parseChars_plain hquote hback rest out

theorem parseChars_jsonEscape : ∀ (s rest out : Bytes),
    parseChars (jsonEscape s ++ 34 :: rest) out = .ok (out ++ s, rest)
  | [], rest, out => by
      rw [jsonEscape, List.flatMap_nil, List.nil_append, parseChars_quote, List.append_nil]
  | ch :: s, rest, out => by
      rw [jsonEscape, List.flatMap_cons, List.append_assoc, parseChars_escapeByte]
      have hrest := parseChars_jsonEscape s rest (out ++ [ch])
      rw [jsonEscape] at hrest
      rw [hrest, List.append_assoc, List.singleton_append]

theorem parseString_quoted (s rest : Bytes) : parseString (quoted s ++ rest) = .ok (s, rest) := by
  have htext : quoted s ++ rest = 34 :: (jsonEscape s ++ 34 :: rest) := by
    rw [quoted, List.append_assoc, List.append_assoc]
    rfl
  rw [htext, parseString, if_pos rfl, parseChars_jsonEscape, List.nil_append]

/-! ## Numbers -/

theorem span_digits {ds rest : Bytes} (hds : ∀ ch ∈ ds, isDigit ch = true)
    (hrest : ∀ ch ∈ rest.head?, isDigit ch = false) : (ds ++ rest).span isDigit = (ds, rest) := by
  rw [List.span_eq_takeWhile_dropWhile, List.takeWhile_append_of_pos hds,
    List.dropWhile_append_of_pos hds]
  cases rest with
  | nil => simp
  | cons ch rest =>
      have hno : ¬ isDigit ch = true := by rw [hrest ch rfl]; exact Bool.false_ne_true
      rw [List.takeWhile_cons_of_neg hno, List.dropWhile_cons_of_neg hno, List.append_nil]

theorem parseDigits_append {ds rest : Bytes} (hds : Digits ds)
    (hrest : ∀ ch ∈ rest.head?, isDigit ch = false) : parseDigits (ds ++ rest) = .ok (ds, rest) := by
  obtain ⟨ch, ds', rfl⟩ := List.exists_cons_of_ne_nil hds.1
  rw [List.cons_append, parseDigits, if_pos (hds.2 ch List.mem_cons_self), ← List.cons_append,
    span_digits hds.2 hrest]

theorem parseInteger_append {whole rest : Bytes} (h : IntegerText whole)
    (hrest : ∀ ch ∈ rest.head?, isDigit ch = false) :
    parseInteger (whole ++ rest) = .ok (whole, rest) := by
  rcases h with rfl | ⟨hds, hzero⟩
  · rfl
  · obtain ⟨ch, ds', rfl⟩ := List.exists_cons_of_ne_nil hds.1
    have hne : ch ≠ 48 := fun heq => hzero (by rw [heq]; rfl)
    rw [List.cons_append, parseInteger, if_neg hne, ← List.cons_append, parseDigits_append hds hrest]

theorem parseFraction_append {fraction rest : Bytes} (h : FractionText fraction)
    (hrest : ∀ ch ∈ rest.head?, isDigit ch = false ∧ ch ≠ 46) :
    parseFraction (fraction ++ rest) = .ok (fraction, rest) := by
  rcases h with rfl | ⟨ds, hds, rfl⟩
  · cases rest with
    | nil => rfl
    | cons ch rest => rw [List.nil_append, parseFraction, if_neg (hrest ch rfl).2]
  · rw [List.cons_append, parseFraction, if_pos rfl,
      parseDigits_append hds fun ch hch => (hrest ch hch).1]
    rfl

theorem splitSign_append {signs sign s : Bytes} (hsign : sign = [] ∨ ∃ ch ∈ signs, sign = [ch])
    (hs : ∀ ch ∈ s.head?, ch ∉ signs) : splitSign signs (sign ++ s) = (sign, s) := by
  rcases hsign with rfl | ⟨ch, hch, rfl⟩
  · cases s with
    | nil => rfl
    | cons ch s => rw [List.nil_append, splitSign, if_neg (hs ch rfl)]
  · rw [List.singleton_append, splitSign, if_pos hch]

/-- A digit is none of the other bytes of a number. -/
theorem digit_ne {ch : UInt8} (h : isDigit ch = true) : ch ≠ 43 ∧ ch ≠ 45 ∧ ch ≠ 46 := by
  refine ⟨?_, ?_, ?_⟩ <;> rintro rfl <;> exact absurd h (by decide)

theorem Digits.head {ds rest : Bytes} (h : Digits ds) :
    ∀ ch ∈ (ds ++ rest).head?, isDigit ch = true := by
  obtain ⟨d, ds', rfl⟩ := List.exists_cons_of_ne_nil h.1
  intro ch hch
  cases hch
  exact h.2 d List.mem_cons_self

theorem parseExponent_append {exponent rest : Bytes} (h : ExponentText exponent)
    (hrest : Delimited rest) : parseExponent (exponent ++ rest) = .ok (exponent, rest) := by
  rcases h with rfl | ⟨e, sign, ds, he, hsign, hds, rfl⟩
  · cases rest with
    | nil => rfl
    | cons ch rest =>
        have hne : ¬ (ch = 101 ∨ ch = 69) := by
          rcases hrest ch rfl with rfl | rfl | rfl <;> decide
        rw [List.nil_append, parseExponent, if_neg hne]
  · have hdigit : ∀ ch ∈ rest.head?, isDigit ch = false := by
      intro ch hch
      rcases hrest ch hch with rfl | rfl | rfl <;> rfl
    have hsplit : splitSign [43, 45] (sign ++ (ds ++ rest)) = (sign, ds ++ rest) := by
      refine splitSign_append ?_ fun ch hch => ?_
      · rcases hsign with rfl | rfl | rfl
        · exact Or.inl rfl
        · exact Or.inr ⟨43, by decide, rfl⟩
        · exact Or.inr ⟨45, by decide, rfl⟩
      · have hne := digit_ne (hds.head ch hch)
        simp [hne.1, hne.2.1]
    rw [List.cons_append, List.append_assoc, parseExponent, if_pos he, hsplit,
      parseDigits_append hds hdigit]
    rfl

/-- What may stand behind the whole part, and behind the fraction. -/
theorem exponent_head {exponent rest : Bytes} (h : ExponentText exponent) (hrest : Delimited rest) :
    ∀ ch ∈ (exponent ++ rest).head?, isDigit ch = false ∧ ch ≠ 46 := by
  intro ch hch
  rcases h with rfl | ⟨e, sign, ds, he, -, -, rfl⟩
  · rcases hrest ch hch with rfl | rfl | rfl <;> decide
  · cases hch
    rcases he with rfl | rfl <;> decide

theorem fraction_head {fraction rest : Bytes} (h : FractionText fraction)
    (hrest : ∀ ch ∈ rest.head?, isDigit ch = false) :
    ∀ ch ∈ (fraction ++ rest).head?, isDigit ch = false := by
  intro ch hch
  rcases h with rfl | ⟨ds, -, rfl⟩
  · exact hrest ch hch
  · cases hch
    rfl

theorem IntegerText.digits {whole : Bytes} (h : IntegerText whole) : Digits whole := by
  rcases h with rfl | ⟨h, -⟩
  · exact ⟨by decide, by decide⟩
  · exact h

theorem parseNumber_append {raw rest : Bytes} (h : NumberText raw) (hrest : Delimited rest) :
    parseNumber (raw ++ rest) = .ok (.number raw, rest) := by
  obtain ⟨sign, whole, fraction, exponent, hsign, hwhole, hfraction, hexponent, rfl⟩ := h
  have hexp := exponent_head hexponent hrest
  have hfrac := fraction_head hfraction fun ch hch => (hexp ch hch).1
  have hsplit : splitSign [45] (sign ++ (whole ++ (fraction ++ (exponent ++ rest))))
      = (sign, whole ++ (fraction ++ (exponent ++ rest))) := by
    refine splitSign_append (hsign.imp_right fun h => ⟨45, by decide, h⟩) fun ch hch => ?_
    have hne := digit_ne (hwhole.digits.head ch hch)
    simp [hne.2.1]
  simp only [List.append_assoc] at *
  rw [parseNumber, hsplit]
  dsimp only
  rw [parseInteger_append hwhole hfrac]
  dsimp only
  rw [parseFraction_append hfraction hexp]
  dsimp only
  rw [parseExponent_append hexponent hrest]
  simp only [Except.map, List.append_assoc]

/-! ## Entries between commas -/

section

variable {α β : Type}

/-- Entries as the loops of `json_serialize` write them. -/
def separated (write : α → Bytes) : Bool → List α → Bytes
  | _, [] => []
  | first, a :: rest => (if first then [] else [44]) ++ write a ++ separated write false rest

theorem separated_cons (write : α → Bytes) (a : α) (rest : List α) :
    separated write false (a :: rest) = 44 :: separated write true (a :: rest) := by
  simp [separated]

theorem length_separated {write : α → Bytes} {n : Nat} : ∀ {first : Bool} {l : List α},
    (separated write first l).length ≤ n → ∀ a ∈ l, (write a).length ≤ n
  | first, b :: rest, h, a, ha => by
      rw [separated, List.length_append, List.length_append] at h
      rcases List.mem_cons.mp ha with rfl | ha
      · omega
      · have hrest : (separated write false rest).length ≤ n := by omega
        exact length_separated hrest a ha

variable {entry : Bytes → Parsed α} {write : α → Bytes} {add : β → α → β} {close : UInt8}
  {unterminated expected : String}

/-- The loop reads the entries one after the other. -/
theorem parseEntries_separated (hclose : close = 93 ∨ close = 125) (rest : Bytes) :
    ∀ {l : List α} {fuel : Nat} {value : β}, l ≠ [] → l.length ≤ fuel →
      (∀ a ∈ l, ∀ tail, Delimited tail → entry (skipWs (write a ++ tail)) = .ok (a, tail)) →
      parseEntries entry add close unterminated expected fuel value
          (separated write true l ++ close :: rest) = .ok (l.foldl add value, rest)
  | a :: l, fuel + 1, value, _, hfuel, hentry => by
      have hspace : isSpace close = false := by rcases hclose with rfl | rfl <;> rfl
      have hfirst : separated write true (a :: l) ++ close :: rest
          = write a ++ (separated write false l ++ close :: rest) := by
        rw [separated, if_pos rfl, List.nil_append, List.append_assoc]
      cases l with
      | nil =>
          have hone := hentry a List.mem_cons_self (close :: rest) fun ch hch => by
            cases hch
            exact Or.inr hclose
          rw [hfirst, separated, List.nil_append, parseEntries, hone]
          dsimp only
          rw [skipWs_cons hspace]
          dsimp only
          rw [if_pos rfl]
          rfl
      | cons b l =>
          have hne : (44 : UInt8) ≠ close := by rcases hclose with rfl | rfl <;> decide
          have htail : separated write false (b :: l) ++ close :: rest
              = 44 :: (separated write true (b :: l) ++ close :: rest) := by
            rw [separated_cons, List.cons_append]
          have hone := hentry a List.mem_cons_self
            (44 :: (separated write true (b :: l) ++ close :: rest)) fun ch hch => by
              cases hch
              exact Or.inl rfl
          have hrest : parseEntries entry add close unterminated expected fuel (add value a)
              (separated write true (b :: l) ++ close :: rest)
              = .ok ((b :: l).foldl add (add value a), rest) :=
            parseEntries_separated hclose rest (List.cons_ne_nil b l)
              (by rw [List.length_cons] at hfuel; omega)
              fun a' ha' => hentry a' (List.mem_cons_of_mem _ ha')
          rw [hfirst, htail, parseEntries, hone]
          dsimp only
          rw [skipWs_cons rfl]
          dsimp only
          rw [if_neg hne, if_neg (fun h => h rfl), hrest]
          rfl

end

section

variable {α β : Type}

/-- The first byte of every entry is one that the loop does not skip or end at. -/
def Begins (write : α → Bytes) (close : UInt8) (a : α) : Prop :=
  ∃ ch s, write a = ch :: s ∧ isSpace ch = false ∧ ch ≠ close

theorem Begins.skipWs {write : α → Bytes} {close : UInt8} {a : α} (h : Begins write close a)
    (tail : Bytes) : Rpc.skipWs (write a ++ tail) = write a ++ tail := by
  obtain ⟨ch, s, hwrite, hspace, -⟩ := h
  rw [hwrite, List.cons_append, skipWs_cons hspace]

theorem length_le_separated {write : α → Bytes} {close : UInt8} : ∀ {first : Bool} {l : List α},
    (∀ a ∈ l, Begins write close a) → l.length ≤ (separated write first l).length
  | _, [], _ => Nat.zero_le _
  | first, a :: l, h => by
      obtain ⟨ch, s, hwrite, -⟩ := h a List.mem_cons_self
      have hrest : l.length ≤ (separated write false l).length :=
        length_le_separated fun a' ha' => h a' (List.mem_cons_of_mem _ ha')
      rw [separated, hwrite, List.length_append, List.length_append, List.length_cons,
        List.length_cons]
      omega

theorem parseEnclosed_separated {entry : Bytes → Parsed α} {write : α → Bytes} {add : β → α → β}
    {close : UInt8} {unterminated expected : String} (hclose : close = 93 ∨ close = 125)
    (rest : Bytes) (empty : β) {l : List α} (hbegins : ∀ a ∈ l, Begins write close a)
    (hentry : ∀ a ∈ l, ∀ tail, Delimited tail → entry (write a ++ tail) = .ok (a, tail)) :
    parseEnclosed entry add close unterminated expected empty
      (separated write true l ++ close :: rest) = .ok (l.foldl add empty, rest) := by
  have hspace : isSpace close = false := by rcases hclose with rfl | rfl <;> rfl
  cases l with
  | nil =>
      rw [separated, List.nil_append, parseEnclosed, skipWs_cons hspace, List.head?_cons, if_pos rfl]
      rfl
  | cons a l =>
      obtain ⟨ch, s, hwrite, hch, hne⟩ := hbegins a List.mem_cons_self
      have htext : separated write true (a :: l) ++ close :: rest
          = ch :: (s ++ (separated write false l ++ close :: rest)) := by
        rw [separated, if_pos rfl, List.nil_append, hwrite, List.append_assoc, List.cons_append]
      have hskip : skipWs (separated write true (a :: l) ++ close :: rest)
          = separated write true (a :: l) ++ close :: rest := by
        rw [htext, skipWs_cons hch]
      have hhead : (separated write true (a :: l) ++ close :: rest).head? ≠ some close := by
        rw [htext]
        exact fun h => hne (Option.some.inj h)
      have hlength : (a :: l).length ≤ (separated write true (a :: l)).length :=
        length_le_separated hbegins
      rw [parseEnclosed, hskip, if_neg hhead]
      refine parseEntries_separated hclose rest (List.cons_ne_nil a l) ?_ fun a' ha' tail htail => ?_
      · rw [List.length_append]
        omega
      · rw [(hbegins a' ha').skipWs]
        exact hentry a' ha' tail htail

end

theorem serializeItems_eq : ∀ (first : Bool) (items : List JsonValue),
    serializeItems first items = separated jsonSerialize first items
  | _, [] => rfl
  | first, item :: rest => by
      rw [serializeItems, separated, serializeItems_eq false rest]

/-- The text of a key and its value. -/
def serializeField (field : Bytes × JsonValue) : Bytes :=
  quoted field.1 ++ [58] ++ jsonSerialize field.2

theorem serializeFields_eq : ∀ (first : Bool) (fields : List (Bytes × JsonValue)),
    serializeFields first fields = separated serializeField first fields
  | _, [] => rfl
  | first, (key, item) :: rest => by
      rw [serializeFields, separated, serializeFields_eq false rest, serializeField]

/-- Fresh keys are entered at the end. -/
theorem setField_of_notMem : ∀ {fields : List (Bytes × JsonValue)} {key : Bytes} (value : JsonValue),
    key ∉ fields.map Prod.fst → setField fields key value = fields ++ [(key, value)]
  | [], _, _, _ => rfl
  | (k, v) :: rest, key, value, h => by
      rw [List.map_cons, List.mem_cons, not_or] at h
      rw [setField, if_neg (Ne.symm h.1), setField_of_notMem value h.2, List.cons_append]

theorem foldl_setField : ∀ (fields acc : List (Bytes × JsonValue)),
    ((acc ++ fields).map Prod.fst).Nodup →
    fields.foldl (fun fields field => setField fields field.1 field.2) acc = acc ++ fields
  | [], acc, _ => by rw [List.foldl_nil, List.append_nil]
  | (key, value) :: rest, acc, h => by
      have hfresh : key ∉ acc.map Prod.fst := by
        rw [List.map_append, List.nodup_append] at h
        exact fun hmem => h.2.2 key hmem key List.mem_cons_self rfl
      rw [List.append_cons] at h
      rw [List.foldl_cons, setField_of_notMem value hfresh, foldl_setField rest _ h,
        List.append_assoc, List.singleton_append]

theorem foldl_append_singleton (items : List JsonValue) : ∀ acc : List JsonValue,
    items.foldl (fun items item => items ++ [item]) acc = acc ++ items := by
  induction items with
  | nil => exact fun acc => (List.append_nil acc).symm
  | cons item rest ih =>
      intro acc
      rw [List.foldl_cons, ih, List.append_assoc, List.singleton_append]

/-! ## Values -/

/-- The first byte of a value is neither white space nor a closing byte. -/
theorem serialize_head {v : JsonValue} (h : WellFormed v) : ∃ ch s, jsonSerialize v = ch :: s ∧
    isSpace ch = false ∧ ch ≠ 93 ∧ ch ≠ 125 := by
  cases h with
  | null => exact ⟨110, chars "ull", rfl, rfl, by decide, by decide⟩
  | bool value =>
      cases value with
      | true => exact ⟨116, chars "rue", rfl, rfl, by decide, by decide⟩
      | false => exact ⟨102, chars "alse", rfl, rfl, by decide, by decide⟩
  | @number raw hraw =>
      obtain ⟨sign, whole, fraction, exponent, hsign, hwhole, -, -, rfl⟩ := hraw
      rcases hsign with rfl | rfl
      · obtain ⟨d, ds, rfl⟩ := List.exists_cons_of_ne_nil hwhole.digits.1
        have hd := hwhole.digits.2 d List.mem_cons_self
        refine ⟨d, ds ++ fraction ++ exponent, by rw [jsonSerialize]; rfl, ?_, ?_, ?_⟩
        · have hge : 48 ≤ d := of_decide_eq_true (Bool.and_eq_true_iff.mp hd).1
          have hnat : 48 ≤ d.toNat := UInt8.le_iff_toNat_le.mp hge
          rw [isSpace, Bool.or_eq_false_iff, Bool.and_eq_false_iff]
          refine ⟨decide_eq_false ?_, Or.inr (decide_eq_false ?_)⟩
          · rintro rfl
            exact absurd hnat (by decide)
          · rw [UInt8.le_iff_toNat_le]
            have h13 : (13 : UInt8).toNat = 13 := rfl
            omega
        · rintro rfl
          exact absurd hd (by decide)
        · rintro rfl
          exact absurd hd (by decide)
      · exact ⟨45, whole ++ fraction ++ exponent, by rw [jsonSerialize]; rfl, rfl, by decide, by decide⟩
  | string value =>
      exact ⟨34, jsonEscape value ++ [34], by rw [jsonSerialize]; rfl, rfl, by decide, by decide⟩
  | @array items _ =>
      exact ⟨91, serializeItems true items ++ [93], by rw [jsonSerialize]; rfl, rfl, by decide,
        by decide⟩
  | @object fields _ _ =>
      exact ⟨123, serializeFields true fields ++ [125], by rw [jsonSerialize]; rfl, rfl, by decide,
        by decide⟩

theorem begins_of_wellFormed {v : JsonValue} (h : WellFormed v) {close : UInt8}
    (hclose : close = 93 ∨ close = 125) : Begins jsonSerialize close v := by
  obtain ⟨ch, s, htext, hspace, hbracket, hbrace⟩ := serialize_head h
  refine ⟨ch, s, htext, hspace, ?_⟩
  rcases hclose with rfl | rfl
  · exact hbracket
  · exact hbrace

theorem begins_field (field : Bytes × JsonValue) : Begins serializeField 125 field := by
  refine ⟨34, jsonEscape field.1 ++ [34] ++ [58] ++ jsonSerialize field.2, ?_, rfl, by decide⟩
  rw [serializeField, quoted]
  rfl

theorem parseMember_serializeField {value : Bytes → Parsed JsonValue} {field : Bytes × JsonValue}
    {tail : Bytes} (h : WellFormed field.2)
    (hvalue : value (jsonSerialize field.2 ++ tail) = .ok (field.2, tail)) :
    parseMember value (serializeField field ++ tail) = .ok (field, tail) := by
  have htext : serializeField field ++ tail
      = quoted field.1 ++ 58 :: (jsonSerialize field.2 ++ tail) := by
    rw [serializeField, List.append_assoc, List.append_assoc, List.singleton_append]
  have hhead : (quoted field.1 ++ 58 :: (jsonSerialize field.2 ++ tail)).head? = some 34 := rfl
  rw [htext, parseMember, if_neg (fun hne => hne hhead), parseString_quoted]
  dsimp only
  rw [skipWs_cons rfl]
  dsimp only
  rw [if_pos rfl, (begins_of_wellFormed h (Or.inl rfl)).skipWs, hvalue]
  rfl

theorem consume_append (text rest : Bytes) : consume text (text ++ rest) = some rest := by
  rw [consume, if_pos (List.isPrefixOf_iff_prefix.mpr (List.prefix_append _ _)), List.drop_left]

theorem parseValue_number {ch : UInt8} (h : ch = 45 ∨ isDigit ch = true) (depth : Nat) (s : Bytes) :
    parseValue (depth + 1) (ch :: s) = parseNumber (ch :: s) := by
  have hne : ch ≠ 110 ∧ ¬ (ch = 116 ∨ ch = 102) ∧ ch ≠ 34 ∧ ch ≠ 91 ∧ ch ≠ 123 := by
    rcases h with rfl | h
    · decide
    · refine ⟨?_, ?_, ?_, ?_, ?_⟩
      · rintro rfl; exact absurd h (by decide)
      · rintro (rfl | rfl) <;> exact absurd h (by decide)
      · rintro rfl; exact absurd h (by decide)
      · rintro rfl; exact absurd h (by decide)
      · rintro rfl; exact absurd h (by decide)
  obtain ⟨hn, htf, hquote, hbracket, hbrace⟩ := hne
  rw [parseValue, if_neg hn, if_neg htf, if_neg hquote, if_neg hbracket, if_neg hbrace, if_pos h]

theorem NumberText.head {raw : Bytes} (h : NumberText raw) :
    ∃ ch s, raw = ch :: s ∧ (ch = 45 ∨ isDigit ch = true) := by
  obtain ⟨sign, whole, fraction, exponent, rfl | rfl, hwhole, -, -, rfl⟩ := h
  · obtain ⟨d, ds, rfl⟩ := List.exists_cons_of_ne_nil hwhole.digits.1
    exact ⟨d, ds ++ fraction ++ exponent, rfl, Or.inr (hwhole.digits.2 d List.mem_cons_self)⟩
  · exact ⟨45, whole ++ fraction ++ exponent, rfl, Or.inl rfl⟩

/-- The text of a value is read back up to what follows it. The bound on the
nesting is used up byte by byte. -/
theorem parseValue_serialize {v : JsonValue} (h : WellFormed v) :
    ∀ (depth : Nat) (rest : Bytes), (jsonSerialize v).length ≤ depth → Delimited rest →
      parseValue depth (jsonSerialize v ++ rest) = .ok (v, rest) := by
  induction h with
  | null =>
      intro depth rest hdepth _
      obtain ⟨d, rfl⟩ : ∃ d, depth = d + 1 := ⟨depth - 1, by
        have : (jsonSerialize .null).length = 4 := rfl
        omega⟩
      have hread := consume_append (chars "null") rest
      rw [jsonSerialize]
      change parseNull (chars "null" ++ rest) = _
      rw [parseNull, hread]
  | bool value =>
      intro depth rest hdepth _
      obtain ⟨d, rfl⟩ : ∃ d, depth = d + 1 := ⟨depth - 1, by
        have : 0 < (jsonSerialize (.bool value)).length := by cases value <;> decide
        omega⟩
      cases value with
      | true =>
          have hread := consume_append (chars "true") rest
          rw [jsonSerialize]
          change parseBool (chars "true" ++ rest) = _
          rw [parseBool, hread]
      | false =>
          have hread := consume_append (chars "false") rest
          have hnot : consume (chars "true") (chars "false" ++ rest) = none := rfl
          rw [jsonSerialize]
          change parseBool (chars "false" ++ rest) = _
          rw [parseBool, hnot]
          dsimp only
          rw [hread]
  | @number raw hraw =>
      intro depth rest hdepth hrest
      have hread := parseNumber_append hraw hrest
      obtain ⟨ch, s, rfl, hch⟩ := hraw.head
      rw [jsonSerialize] at hdepth ⊢
      obtain ⟨d, rfl⟩ : ∃ d, depth = d + 1 := ⟨depth - 1, by rw [List.length_cons] at hdepth; omega⟩
      rw [List.cons_append, parseValue_number hch, ← List.cons_append, hread]
  | string value =>
      intro depth rest hdepth _
      have hread := parseString_quoted value rest
      have htext : quoted value ++ rest = 34 :: (jsonEscape value ++ [34] ++ rest) := rfl
      rw [jsonSerialize] at hdepth ⊢
      obtain ⟨d, rfl⟩ : ∃ d, depth = d + 1 := ⟨depth - 1, by
        rw [quoted, List.length_append, List.length_append, List.length_singleton] at hdepth
        omega⟩
      rw [htext] at hread ⊢
      rw [parseValue, if_neg (by decide), if_neg (by decide), if_pos rfl, hread]
      rfl
  | @array items hitems ih =>
      intro depth rest hdepth _
      rw [jsonSerialize, serializeItems_eq] at hdepth ⊢
      rw [List.length_append, List.length_append, List.length_singleton,
        List.length_singleton] at hdepth
      obtain ⟨d, rfl⟩ : ∃ d, depth = d + 1 := ⟨depth - 1, by omega⟩
      have htext : [91] ++ separated jsonSerialize true items ++ [93] ++ rest
          = 91 :: (separated jsonSerialize true items ++ 93 :: rest) := by
        rw [List.append_assoc, List.append_assoc]
        rfl
      have hshort : (separated jsonSerialize true items).length ≤ d := by omega
      rw [htext, parseValue, if_neg (by decide), if_neg (by decide), if_neg (by decide), if_pos rfl,
        parseArray, parseEnclosed_separated (Or.inl rfl) rest []
          (fun v hv => begins_of_wellFormed (hitems v hv) (Or.inl rfl))
          (fun v hv tail htail => ih v hv d tail (length_separated hshort v hv) htail),
        foldl_append_singleton, List.nil_append]
      rfl
  | @object fields hkeys hfields ih =>
      intro depth rest hdepth _
      rw [jsonSerialize, serializeFields_eq] at hdepth ⊢
      rw [List.length_append, List.length_append, List.length_singleton,
        List.length_singleton] at hdepth
      obtain ⟨d, rfl⟩ : ∃ d, depth = d + 1 := ⟨depth - 1, by omega⟩
      have htext : [123] ++ separated serializeField true fields ++ [125] ++ rest
          = 123 :: (separated serializeField true fields ++ 125 :: rest) := by
        rw [List.append_assoc, List.append_assoc]
        rfl
      have hshort : (separated serializeField true fields).length ≤ d := by omega
      have hmember : ∀ f ∈ fields, ∀ tail, Delimited tail →
          parseMember (parseValue d) (serializeField f ++ tail) = .ok (f, tail) := by
        intro f hf tail htail
        have hlength := length_separated hshort f hf
        rw [serializeField, List.length_append] at hlength
        exact parseMember_serializeField (hfields f hf) (ih f hf d tail (by omega) htail)
      rw [htext, parseValue, if_neg (by decide), if_neg (by decide), if_neg (by decide),
        if_neg (by decide), if_pos rfl, parseObject,
        parseEnclosed_separated (Or.inr rfl) rest [] (fun f _ => begins_field f) hmember,
        foldl_setField fields [] (by rw [List.nil_append]; exact hkeys), List.nil_append]
      rfl

/-- Parsing the text of a value returns the value. -/
theorem parse_jsonSerialize {v : JsonValue} (h : WellFormed v) : parse (jsonSerialize v) = .ok v := by
  obtain ⟨ch, s, htext, hspace, -⟩ := serialize_head h
  have hskip : skipWs (jsonSerialize v) = jsonSerialize v := by rw [htext, skipWs_cons hspace]
  have hread := parseValue_serialize h ((jsonSerialize v).length + 1) [] (Nat.le_succ _) nofun
  rw [List.append_nil] at hread
  rw [parse, hskip, hread]
  rfl

/-- An object with a nested array, a number with all its parts, and a key with
a quote, a line feed and a byte that is not ASCII. -/
theorem parse_jsonSerialize_nested :
    parse (jsonSerialize (.object [([34, 10, 200], .array [.number (chars "-10.5e+3"), .null]),
        ([], .bool true)]))
      = .ok (.object [([34, 10, 200], .array [.number (chars "-10.5e+3"), .null]), ([], .bool true)]) := by
  have hnumber : NumberText (chars "-10.5e+3") := by
    refine ⟨[45], chars "10", chars ".5", chars "e+3", Or.inr rfl, Or.inr ⟨⟨by decide, by decide⟩, by decide⟩,
      Or.inr ⟨chars "5", ⟨by decide, by decide⟩, rfl⟩,
      Or.inr ⟨101, [43], chars "3", Or.inl rfl, Or.inr (Or.inl rfl), ⟨by decide, by decide⟩, rfl⟩, rfl⟩
  refine parse_jsonSerialize (.object (by decide) fun f hf => ?_)
  rcases List.mem_cons.mp hf with rfl | hf
  · refine .array fun v hv => ?_
    rcases List.mem_cons.mp hv with rfl | hv
    · exact .number hnumber
    · rw [List.mem_singleton.mp hv]
      exact .null
  · rw [List.mem_singleton.mp hf]
    exact .bool true

end Rpc

end Cryptex
