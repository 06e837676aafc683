import Cryptex.Network.HistoryLines

/-!
# Reading text

`operator>>` of an `std::istringstream` for numbers and words. A stream is what
it still has to give; one that has failed gives nothing more.
-/

namespace Cryptex

open Encoding Mail

namespace TextInput

/-- `none` is a stream that has failed. -/
abbrev TextStream := Option Bytes

/-! ## Numbers -/

def dropSign (text : Bytes) : Bytes :=
  if text.head? = some 45 ∨ text.head? = some 43 then text.tail else text

/-- Sign and value of the number that comes next, and what is left behind it. -/
def extractNumeral (text : Bytes) : Option (Bool × Nat × Bytes) :=
  let text := text.dropWhile isSpace
  let unsigned := dropSign text
  let digits := unsigned.takeWhile isDigit
  if digits = [] then none
  else
    some (decide (text.head? = some 45), Radix.value 10 (digits.map fun ch => ch.toNat - 48),
      unsigned.drop digits.length)

/-- A signed number of `w` bits; the stream fails where the number does not
fit. -/
def extractInt (w : Nat) (ss : TextStream) : Int × TextStream :=
  match ss.bind extractNumeral with
  | none => (0, none)
  | some (negative, n, rest) =>
      let value : Int := if negative then -n else n
      if value < -2 ^ (w - 1) then (-2 ^ (w - 1), none)
      else if value ≥ 2 ^ (w - 1) then (2 ^ (w - 1) - 1, none)
      else (value, some rest)

/-- A number that a variable of `w` bits can hold. -/
def FitsInt (w : Nat) (z : Int) : Prop := -2 ^ (w - 1) ≤ z ∧ z < 2 ^ (w - 1)

instance (w : Nat) (z : Int) : Decidable (FitsInt w z) :=
  inferInstanceAs (Decidable (_ ∧ _))

/-- An unsigned number of `w` bits; with a minus it is its negative. -/
def extractNat (w : Nat) (ss : TextStream) : Nat × TextStream :=
  match ss.bind extractNumeral with
  | none => (0, none)
  | some (negative, n, rest) =>
      if n ≥ 2 ^ w then (2 ^ w - 1, none)
      else (if negative then (2 ^ w - n) % 2 ^ w else n, some rest)

/-- `operator<<` of a signed number. -/
def intText (z : Int) : Bytes := if z < 0 then 45 :: decimal z.natAbs else decimal z.natAbs

/-! ## Words -/

def isWordByte (ch : UInt8) : Bool := !isSpace ch

/-- A word; the variable keeps its value where there is none. -/
def extractWord (kept : Bytes) (ss : TextStream) : Bytes × TextStream :=
  match ss.map (·.dropWhile isSpace) with
  | none | some [] => (kept, none)
  | some text => (text.takeWhile isWordByte, some (text.dropWhile isWordByte))

/-- `std::getline(ss >> std::ws, value)` in the last line of a stream. -/
def extractRest (ss : TextStream) : Bytes :=
  match ss with
  | none => []
  | some text => text.dropWhile isSpace

/-- A word is not empty and has no white space. -/
structure IsWord (w : Bytes) : Prop where
  ne_nil : w ≠ []
  bytes : ∀ ch ∈ w, isSpace ch = false

instance (w : Bytes) : Decidable (IsWord w) :=
  decidable_of_iff (w ≠ [] ∧ ∀ ch ∈ w, isSpace ch = false)
    ⟨fun h => ⟨h.1, h.2⟩, fun h => ⟨h.1, h.2⟩⟩

/-! ## What is read of what was written -/

theorem extractNumeral_space {ch : UInt8} (h : isSpace ch = true) (text : Bytes) :
    extractNumeral (ch :: text) = extractNumeral text := by
  rw [extractNumeral, List.dropWhile_cons_of_pos h, extractNumeral]

/-- A number ends where no digit follows. -/
theorem takeWhile_decimal (n : Nat) {rest : Bytes} (h : ∀ ch ∈ rest.head?, isDigit ch = false) :
    (decimal n ++ rest).takeWhile isDigit = decimal n := by
  obtain ⟨l, -, hlt, -, hdecimal⟩ := exists_digits n
  have hdigits : ∀ ch ∈ decimal n, isDigit ch = true := by
    intro ch hch
    rw [hdecimal] at hch
    obtain ⟨d, hd, rfl⟩ := List.mem_map.mp hch
    exact isDigit_digit d (hlt d hd)
  rw [List.takeWhile_append_of_pos hdigits]
  cases rest with
  | nil => rw [List.takeWhile_nil, List.append_nil]
  | cons ch rest =>
      rw [List.takeWhile_cons_of_neg (by rw [h ch rfl]; decide), List.append_nil]

theorem value_decimal (n : Nat) :
    Radix.value 10 ((decimal n).map fun ch => ch.toNat - 48) = n := by
  obtain ⟨l, -, hlt, hvalue, hdecimal⟩ := exists_digits n
  have hmap : (decimal n).map (fun ch => ch.toNat - 48) = l := by
    rw [hdecimal, List.map_map]
    conv_rhs => rw [← List.map_id l]
    exact List.map_congr_left fun d hd => (not_special_digit d (hlt d hd)).2.2.2.2
  rw [hmap, hvalue]

/-- The first byte of a number is a digit. -/
theorem decimal_cons (n : Nat) : ∃ ch rest, decimal n = ch :: rest ∧ isSpace ch = false ∧
    ch ≠ 45 ∧ ch ≠ 43 := by
  obtain ⟨l, hne, hlt, -, hdecimal⟩ := exists_digits n
  obtain ⟨d, l', rfl⟩ := List.exists_cons_of_ne_nil hne
  have hd := not_special_digit d (hlt d List.mem_cons_self)
  exact ⟨_, _, hdecimal, hd.1, hd.2.1, hd.2.2.1⟩

theorem extractNumeral_decimal (n : Nat) {rest : Bytes}
    (h : ∀ ch ∈ rest.head?, isDigit ch = false) :
    extractNumeral (decimal n ++ rest) = some (false, n, rest) := by
  obtain ⟨ch, more, hcons, hspace, hminus, hplus⟩ := decimal_cons n
  have hdrop : (decimal n ++ rest).dropWhile isSpace = decimal n ++ rest := by
    rw [hcons, List.cons_append, List.dropWhile_cons_of_neg (by rw [hspace]; decide)]
  have hhead : (decimal n ++ rest).head? = some ch := by rw [hcons]; rfl
  have hne : decimal n ≠ [] := by rw [hcons]; exact List.cons_ne_nil _ _
  have hsign : dropSign (decimal n ++ rest) = decimal n ++ rest := by
    rw [dropSign, hhead]
    simp only [Option.some.injEq, hminus, hplus, or_self, if_false]
  rw [extractNumeral]
  simp only [hdrop, hsign, hhead, Option.some.injEq, hminus, decide_false,
    takeWhile_decimal n h, hne, value_decimal, List.drop_left, if_false]

theorem extractNumeral_minus (n : Nat) {rest : Bytes}
    (h : ∀ ch ∈ rest.head?, isDigit ch = false) :
    extractNumeral (45 :: decimal n ++ rest) = some (true, n, rest) := by
  obtain ⟨ch, more, hcons, -, -, -⟩ := decimal_cons n
  have hne : decimal n ≠ [] := by rw [hcons]; exact List.cons_ne_nil _ _
  have hdrop : (45 :: (decimal n ++ rest)).dropWhile isSpace = 45 :: (decimal n ++ rest) :=
    List.dropWhile_cons_of_neg (by decide)
  have hsign : dropSign (45 :: (decimal n ++ rest)) = decimal n ++ rest := if_pos (.inl rfl)
  rw [List.cons_append, extractNumeral]
  simp only [hdrop, hsign, List.head?_cons, decide_true, takeWhile_decimal n h, hne,
    value_decimal, List.drop_left, if_false]

theorem extractInt_text {w : Nat} {z : Int} (hz : FitsInt w z) {rest : Bytes}
    (h : ∀ ch ∈ rest.head?, isDigit ch = false) :
    extractInt w (some (intText z ++ rest)) = (z, some rest) := by
  have hnumeral : extractNumeral (intText z ++ rest) = some (decide (z < 0), z.natAbs, rest) := by
    rw [intText]
    by_cases hz : z < 0
    · rw [if_pos hz, extractNumeral_minus _ h, decide_eq_true hz]
    · rw [if_neg hz, extractNumeral_decimal _ h, decide_eq_false hz]
  have hvalue : (if decide (z < 0) = true then -(z.natAbs : Int) else z.natAbs) = z := by
    split
    · next hz => have := of_decide_eq_true hz; omega
    · next hz => have := of_decide_eq_false (Bool.not_eq_true _ ▸ hz); omega
  rw [extractInt, Option.bind_some, hnumeral]
  simp only [hvalue]
  rw [if_neg (not_lt.mpr hz.1), if_neg (not_le.mpr hz.2)]

theorem extractNat_text {w n : Nat} (hn : n < 2 ^ w) {rest : Bytes}
    (h : ∀ ch ∈ rest.head?, isDigit ch = false) :
    extractNat w (some (decimal n ++ rest)) = (n, some rest) := by
  rw [extractNat, Option.bind_some, extractNumeral_decimal n h]
  simp only [if_neg (Nat.not_le.mpr hn), Bool.false_eq_true, if_false]

theorem intText_not_space (z : Int) : ∀ ch ∈ intText z, isSpace ch = false := by
  intro ch hch
  rw [intText] at hch
  split at hch
  · obtain rfl | hch := List.mem_cons.mp hch
    · rfl
    · exact Chat.decimal_not_space _ ch hch
  · exact Chat.decimal_not_space _ ch hch

theorem extractInt_space {ch : UInt8} (h : isSpace ch = true) (w : Nat) (text : Bytes) :
    extractInt w (some (ch :: text)) = extractInt w (some text) := by
  rw [extractInt, Option.bind_some, extractNumeral_space h, extractInt, Option.bind_some]

theorem extractNat_space {ch : UInt8} (h : isSpace ch = true) (w : Nat) (text : Bytes) :
    extractNat w (some (ch :: text)) = extractNat w (some text) := by
  rw [extractNat, Option.bind_some, extractNumeral_space h, extractNat, Option.bind_some]

theorem extractWord_space {ch : UInt8} (h : isSpace ch = true) (kept text : Bytes) :
    extractWord kept (some (ch :: text)) = extractWord kept (some text) := by
  rw [extractWord, Option.map_some, List.dropWhile_cons_of_pos h, extractWord, Option.map_some]

/-- A text that opens with a byte of a word gives its first word. -/
theorem extractWord_open {ch : UInt8} (h : isSpace ch = false) (kept text : Bytes) :
    extractWord kept (some (ch :: text)) = ((ch :: text).takeWhile isWordByte,
      some ((ch :: text).dropWhile isWordByte)) := by
  rw [extractWord, Option.map_some, List.dropWhile_cons_of_neg (by rw [h]; decide)]

/-- The text opens with a byte that is no white space. -/
def Opens (text : Bytes) : Prop := ∃ ch rest, text = ch :: rest ∧ isSpace ch = false

theorem IsWord.opens {w : Bytes} (h : IsWord w) : Opens w := by
  obtain ⟨ch, rest, rfl⟩ := List.exists_cons_of_ne_nil h.ne_nil
  exact ⟨ch, rest, rfl, h.bytes ch List.mem_cons_self⟩

theorem takeWhile_tab (text rest : Bytes) :
    (text ++ 9 :: rest).takeWhile isWordByte = text.takeWhile isWordByte ∧
      (text ++ 9 :: rest).dropWhile isWordByte = text.dropWhile isWordByte ++ 9 :: rest := by
  induction text with
  | nil => exact ⟨rfl, rfl⟩
  | cons ch text ih =>
      rw [List.cons_append]
      by_cases h : isWordByte ch = true
      · rw [List.takeWhile_cons_of_pos h, List.takeWhile_cons_of_pos h, List.dropWhile_cons_of_pos h,
          List.dropWhile_cons_of_pos h, ih.1]
        exact ⟨rfl, ih.2⟩
      · rw [List.takeWhile_cons_of_neg h, List.takeWhile_cons_of_neg h, List.dropWhile_cons_of_neg h,
          List.dropWhile_cons_of_neg h]
        exact ⟨rfl, rfl⟩

/-- A field gives its first word. -/
theorem extractWord_opens (kept : Bytes) {text : Bytes} (h : Opens text) (rest : Bytes) :
    extractWord kept (some (text ++ 9 :: rest)) = (text.takeWhile isWordByte,
      some (text.dropWhile isWordByte ++ 9 :: rest)) := by
  obtain ⟨htake, hdrop⟩ := takeWhile_tab text rest
  obtain ⟨ch, more, rfl, hspace⟩ := h
  rw [List.cons_append] at htake hdrop ⊢
  rw [extractWord_open hspace, htake, hdrop]

theorem IsWord.takeWhile {w : Bytes} (h : IsWord w) :
    w.takeWhile isWordByte = w ∧ w.dropWhile isWordByte = [] := by
  have hw : ∀ ch ∈ w, isWordByte ch = true := fun ch hch => by rw [isWordByte, h.bytes ch hch]; rfl
  exact ⟨List.takeWhile_eq_self_iff.mpr hw, List.dropWhile_eq_nil_iff.mpr hw⟩

/-- A word between tabs is read as it is. -/
theorem extractWord_tab (kept : Bytes) {w : Bytes} (h : IsWord w) (rest : Bytes) :
    extractWord kept (some (w ++ 9 :: rest)) = (w, some (9 :: rest)) := by
  rw [extractWord_opens kept h.opens, h.takeWhile.1, h.takeWhile.2, List.nil_append]

/-! ## What is left is the end of the text -/

/-- What the stream still has to give is an end of the text. -/
def EndsIn (text : Bytes) (ss : TextStream) : Prop := ∀ rest, ss = some rest → rest <:+ text

variable {text : Bytes} {ss : TextStream}

theorem extractNumeral_suffix {negative : Bool} {n : Nat} {rest : Bytes}
    (h : extractNumeral text = some (negative, n, rest)) : rest <:+ text := by
  rw [extractNumeral] at h
  split at h
  · cases h
  · cases h
    refine ((List.drop_suffix _ _).trans ?_).trans (List.dropWhile_suffix isSpace)
    rw [dropSign]
    split
    · exact List.tail_suffix _
    · exact List.suffix_rfl

theorem endsIn_of_bind (h : EndsIn text ss) {negative : Bool} {n : Nat} {rest : Bytes}
    (hread : ss.bind extractNumeral = some (negative, n, rest)) : EndsIn text (some rest) := by
  obtain ⟨given, hss, hnumeral⟩ := Option.bind_eq_some_iff.mp hread
  intro rest' hrest
  cases hrest
  exact (extractNumeral_suffix hnumeral).trans (h given hss)

theorem endsIn_none : EndsIn text none := fun _ h => nomatch h

theorem EndsIn.extractInt (h : EndsIn text ss) (w : Nat) : EndsIn text (extractInt w ss).2 := by
  rw [TextInput.extractInt]
  cases hread : ss.bind extractNumeral with
  | none => exact endsIn_none
  | some numeral =>
      have hrest := endsIn_of_bind h hread
      dsimp only
      generalize (if numeral.1 = true then -(numeral.2.1 : Int) else numeral.2.1) = value
      split
      · exact endsIn_none
      · split
        · exact endsIn_none
        · exact hrest

theorem EndsIn.extractNat (h : EndsIn text ss) (w : Nat) : EndsIn text (extractNat w ss).2 := by
  rw [TextInput.extractNat]
  cases hread : ss.bind extractNumeral with
  | none => exact endsIn_none
  | some numeral =>
      dsimp only
      split
      · exact endsIn_none
      · exact endsIn_of_bind h hread

theorem EndsIn.extractWord (h : EndsIn text ss) (kept : Bytes) :
    EndsIn text (extractWord kept ss).2 := by
  rw [TextInput.extractWord]
  split
  · exact endsIn_none
  · exact endsIn_none
  · next given _ hmap =>
      obtain ⟨given', hss, rfl⟩ := Option.map_eq_some_iff.mp hmap
      intro rest hrest
      cases hrest
      exact ((List.dropWhile_suffix _).trans (List.dropWhile_suffix _)).trans (h given' hss)

/-- White space that is skipped ends at a byte of a word. -/
theorem head_skipped {ch : UInt8} {rest : Bytes} (h : text.dropWhile isSpace = ch :: rest) :
    isSpace ch = false := by
  have hnot := List.head?_dropWhile_not isSpace text
  rw [h] at hnot
  exact hnot

/-- What is read is what was kept, or a word. -/
theorem extractWord_fst (kept : Bytes) (ss : TextStream) :
    (extractWord kept ss).1 = kept ∨ IsWord (extractWord kept ss).1 := by
  cases ss with
  | none => exact .inl rfl
  | some given =>
      rw [extractWord, Option.map_some]
      cases hskip : given.dropWhile isSpace with
      | nil => exact .inl rfl
      | cons ch rest =>
          have hopen : isWordByte ch = true := by rw [isWordByte, head_skipped hskip]; rfl
          refine .inr ⟨?_, fun b hb => ?_⟩
          · dsimp only
            rw [List.takeWhile_cons_of_pos hopen]
            exact List.cons_ne_nil _ _
          · have hword : isWordByte b = true := List.mem_takeWhile_imp hb
            rwa [isWordByte, Bool.not_eq_true'] at hword

/-- What is read does not open with white space, and comes from the text. -/
theorem extractRest_spec (h : EndsIn text ss) :
    (∀ ch ∈ (extractRest ss).head?, isSpace ch = false) ∧ ∀ ch ∈ extractRest ss, ch ∈ text := by
  cases ss with
  | none => exact ⟨fun _ hch => (nomatch hch), fun _ hch => (nomatch hch)⟩
  | some given =>
      refine ⟨fun ch hch => ?_, fun ch hch => ?_⟩
      · obtain ⟨rest, hrest⟩ := List.head?_eq_some_iff.mp hch
        exact head_skipped hrest
      · exact (h given rfl).subset ((List.dropWhile_suffix isSpace).subset hch)

end TextInput

end Cryptex
