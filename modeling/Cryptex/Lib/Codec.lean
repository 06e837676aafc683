import Mathlib.Data.List.Basic

/-!
# Self-delimiting codecs

An encoder `enc : α → List β` with a decoder `dec` that consumes a prefix
of its input. `RoundTrip enc dec` says that the decoder reads back exactly
what the encoder wrote and leaves the rest of the input alone; encoders of
this kind are prefix free, so they compose by concatenation.

The module knows nothing about the symbols: `β` is bytes for a wire format,
but nothing below uses that.
-/

namespace Codec

variable {α β γ : Type*}

/-- A decoder consumes a prefix and returns the rest, or fails. -/
abbrev Decoder (α β : Type*) := List β → Option (α × List β)

/-- Decoding the encoding of `x` followed by anything gives `x` back and
leaves what followed. -/
def RoundTrip (enc : α → List β) (dec : Decoder α β) : Prop :=
  ∀ x rest, dec (enc x ++ rest) = some (x, rest)

/-- An encoder with a round trip is prefix free: where one encoding ends
is determined by the encoding itself. -/
theorem RoundTrip.append_inj {enc : α → List β} {dec : Decoder α β}
    (h : RoundTrip enc dec) {x y : α} {r s : List β}
    (heq : enc x ++ r = enc y ++ s) : x = y ∧ r = s := by
  have hx := h x r
  rw [heq, h y s] at hx
  simp only [Option.some.injEq, Prod.mk.injEq] at hx
  exact ⟨hx.1.symm, hx.2.symm⟩

theorem RoundTrip.injective {enc : α → List β} {dec : Decoder α β}
    (h : RoundTrip enc dec) : Function.Injective enc := fun x y hxy =>
  (h.append_inj (r := []) (s := []) (by rw [hxy])).1

/-! ## One decoder after another -/

/-- Decode with `dec`, then with what its result selects. -/
def andThen (dec : Decoder α β) (f : α → Decoder γ β) : Decoder γ β := fun data =>
  (dec data).bind fun p => f p.1 p.2

/-- The end of a sequence of decoders. -/
def done (x : α) : Decoder α β := fun data => some (x, data)

theorem andThen_of_eq {dec : Decoder α β} {data rest : List β} {x : α}
    (h : dec data = some (x, rest)) (f : α → Decoder γ β) : andThen dec f data = f x rest := by
  rw [andThen, h, Option.bind_some]

theorem andThen_eq_some {dec : Decoder α β} {f : α → Decoder γ β} {data : List β}
    {r : γ × List β} (h : andThen dec f data = some r) :
    ∃ x rest, dec data = some (x, rest) ∧ f x rest = some r := by
  obtain ⟨⟨x, rest⟩, hdec, hf⟩ := Option.bind_eq_some_iff.mp h
  exact ⟨x, rest, hdec, hf⟩

/-! ## Sequences of a known length -/

/-- Decode `n` items in a row. -/
def decodeN (dec : Decoder α β) : Nat → Decoder (List α) β
  | 0, input => some ([], input)
  | n + 1, input =>
      match dec input with
      | none => none
      | some (x, rest) =>
          match decodeN dec n rest with
          | none => none
          | some (xs, rest') => some (x :: xs, rest')

/-- Concatenated items are read back one by one once their number is known. -/
theorem decodeN_flatMap_of_mem {enc : α → List β} {dec : Decoder α β} : ∀ (xs : List α)
    (rest : List β), (∀ x ∈ xs, ∀ r, dec (enc x ++ r) = some (x, r)) →
    decodeN dec xs.length (xs.flatMap enc ++ rest) = some (xs, rest)
  | [], rest, _ => rfl
  | x :: xs, rest, h => by
      have hrest := decodeN_flatMap_of_mem xs rest fun y hy => h y (List.mem_cons_of_mem _ hy)
      simp only [List.length_cons, List.flatMap_cons, List.append_assoc, decodeN,
        h x List.mem_cons_self, hrest]

/-- Concatenated items that are not empty are at least as long as their number,
and as each of them. -/
theorem length_le_flatMap {enc : α → List β} (henc : ∀ x, enc x ≠ []) : ∀ xs : List α,
    xs.length ≤ (xs.flatMap enc).length ∧ ∀ x ∈ xs, (enc x).length ≤ (xs.flatMap enc).length
  | [] => ⟨Nat.zero_le _, nofun⟩
  | x :: xs => by
      obtain ⟨hnumber, hitem⟩ := length_le_flatMap henc xs
      have hpos := List.length_pos_of_ne_nil (henc x)
      rw [List.flatMap_cons, List.length_append, List.length_cons]
      refine ⟨by omega, fun y hy => ?_⟩
      obtain rfl | hy := List.mem_cons.mp hy
      · exact Nat.le_add_right _ _
      · have := hitem y hy
        omega

theorem length_of_decodeN {dec : Decoder α β} : ∀ {n : Nat} {input : List β}
    {xs : List α} {rest : List β}, decodeN dec n input = some (xs, rest) → xs.length = n
  | 0, input, xs, rest, h => by
      simp only [decodeN, Option.some.injEq, Prod.mk.injEq] at h
      rw [← h.1, List.length_nil]
  | n + 1, input, xs, rest, h => by
      simp only [decodeN] at h
      cases hd : dec input with
      | none => rw [hd] at h; cases h
      | some p =>
          obtain ⟨x, r⟩ := p
          rw [hd] at h
          simp only at h
          cases hn : decodeN dec n r with
          | none => rw [hn] at h; cases h
          | some q =>
              obtain ⟨ys, r'⟩ := q
              rw [hn] at h
              simp only [Option.some.injEq, Prod.mk.injEq] at h
              rw [← h.1, List.length_cons, length_of_decodeN hn]

/-! ## Decoders that accept nothing but encodings -/

/-- On the inputs of a given form, what the decoder consumes is the encoding
of what it returns. -/
def ExactOn (enc : α → List β) (dec : Decoder α β) (form : List β → Prop) : Prop :=
  ∀ {data x rest}, form data → dec data = some (x, rest) → data = enc x ++ rest

/-- `n` items in a row, each of a given form. -/
def FormN (dec : Decoder α β) (form : List β → Prop) : Nat → List β → Prop
  | 0, _ => True
  | n + 1, data => form data ∧ ∀ x rest, dec data = some (x, rest) → FormN dec form n rest

/-- Encodings in a row have the form that each of them has. -/
theorem formN_flatMap {enc : α → List β} {dec : Decoder α β} {form : List β → Prop} :
    ∀ (xs : List α) (rest : List β),
      (∀ x ∈ xs, ∀ r, dec (enc x ++ r) = some (x, r) ∧ form (enc x ++ r)) →
      FormN dec form xs.length (xs.flatMap enc ++ rest)
  | [], _, _ => trivial
  | x :: xs, rest, h => by
      obtain ⟨hx, hform⟩ := h x List.mem_cons_self (xs.flatMap enc ++ rest)
      rw [List.flatMap_cons, List.append_assoc]
      refine ⟨hform, fun y r hy => ?_⟩
      rw [hx] at hy
      cases hy
      exact formN_flatMap xs rest fun z hz => h z (List.mem_cons_of_mem _ hz)

theorem ExactOn.decodeN {enc : α → List β} {dec : Decoder α β} {form : List β → Prop}
    (h : ExactOn enc dec form) : ∀ {n : Nat} {data : List β} {xs : List α} {rest : List β},
    FormN dec form n data → decodeN dec n data = some (xs, rest) → data = xs.flatMap enc ++ rest
  | 0, data, xs, rest, _, hdec => by
      cases hdec
      rfl
  | n + 1, data, xs, rest, ⟨hform, hnext⟩, hdec => by
      rw [Codec.decodeN] at hdec
      cases hx : dec data with
      | none => rw [hx] at hdec; cases hdec
      | some res =>
          obtain ⟨x, r⟩ := res
          rw [hx] at hdec
          simp only at hdec
          cases hxs : Codec.decodeN dec n r with
          | none => rw [hxs] at hdec; cases hdec
          | some res' =>
              obtain ⟨ys, r'⟩ := res'
              rw [hxs] at hdec
              cases hdec
              rw [h hform hx, h.decodeN (hnext x r hx) hxs, List.flatMap_cons, List.append_assoc]

end Codec
