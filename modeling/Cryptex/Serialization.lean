import Cryptex.Lib.Codec
import Cryptex.Types

/-!
# Primitive codecs

`serialization.hpp`: little-endian integers, Bitcoin-style variable-length
integers and length-prefixed byte strings. The readers return `none` where
the source throws.
-/

namespace Cryptex

open Codec

/-! ## Integers -/

/-- `write_int` for an unsigned value of `width` bytes, little-endian. -/
def writeInt : Nat → Nat → Bytes
  | 0, _ => []
  | width + 1, value => UInt8.ofNat value :: writeInt width (value / 256)

/-- `read_int` for `width` bytes; fails on short input. -/
def readInt : Nat → Decoder Nat UInt8
  | 0, data => some (0, data)
  | _ + 1, [] => none
  | width + 1, b :: data =>
      match readInt width data with
      | none => none
      | some (value, rest) => some (b.toNat + 256 * value, rest)

@[simp] theorem length_writeInt : ∀ (width value : Nat), (writeInt width value).length = width
  | 0, _ => rfl
  | width + 1, value => by rw [writeInt, List.length_cons, length_writeInt width]

theorem readInt_writeInt : ∀ {width value : Nat} (rest : Bytes), value < 256 ^ width →
    readInt width (writeInt width value ++ rest) = some (value, rest)
  | 0, value, rest, h => by
      have hv : value = 0 := by simpa using h
      subst hv; rfl
  | width + 1, value, rest, h => by
      have hdiv : value / 256 < 256 ^ width := by
        rw [pow_succ] at h
        exact Nat.div_lt_of_lt_mul (by rw [Nat.mul_comm]; exact h)
      simp only [writeInt, List.cons_append, readInt, readInt_writeInt rest hdiv,
        UInt8.toNat_ofNat', Option.some.injEq, Prod.mk.injEq, and_true]
      omega

theorem readInt_exact : ∀ {width value : Nat} {data rest : Bytes},
    readInt width data = some (value, rest) → data = writeInt width value ++ rest
  | 0, value, data, rest, h => by
      cases h
      rfl
  | width + 1, value, [], rest, h => by cases h
  | width + 1, value, b :: data, rest, h => by
      simp only [readInt] at h
      cases hr : readInt width data with
      | none => rw [hr] at h; cases h
      | some res =>
          obtain ⟨v, r⟩ := res
          rw [hr] at h
          cases h
          have hb := b.toNat_lt
          have hhead : UInt8.ofNat (b.toNat + 256 * v) = b := by
            apply UInt8.toNat_inj.mp
            rw [UInt8.toNat_ofNat']
            omega
          rw [readInt_exact hr, writeInt, hhead, show (b.toNat + 256 * v) / 256 = v by omega,
            List.cons_append]

theorem readInt_lt : ∀ {width value : Nat} {data rest : Bytes},
    readInt width data = some (value, rest) → value < 256 ^ width
  | 0, value, data, rest, h => by
      simp only [readInt, Option.some.injEq, Prod.mk.injEq] at h
      rw [← h.1]; decide
  | width + 1, value, [], rest, h => by simp [readInt] at h
  | width + 1, value, b :: data, rest, h => by
      simp only [readInt] at h
      cases hr : readInt width data with
      | none => rw [hr] at h; cases h
      | some p =>
          obtain ⟨v, r⟩ := p
          rw [hr] at h
          simp only [Option.some.injEq, Prod.mk.injEq] at h
          have hv := readInt_lt hr
          have hb := b.toNat_lt
          rw [pow_succ]
          omega

def writeU32 (value : UInt32) : Bytes := writeInt 4 value.toNat

def readU32 : Decoder UInt32 UInt8 := fun data =>
  (readInt 4 data).map fun p => (UInt32.ofNat p.1, p.2)

def writeI32 (value : Int32) : Bytes := writeU32 value.toUInt32

def readI32 : Decoder Int32 UInt8 := fun data =>
  (readU32 data).map fun p => (p.1.toInt32, p.2)

def writeI64 (value : Int64) : Bytes := writeInt 8 value.toUInt64.toNat

def readI64 : Decoder Int64 UInt8 := fun data =>
  (readInt 8 data).map fun p => ((UInt64.ofNat p.1).toInt64, p.2)

theorem roundTrip_u32 : RoundTrip writeU32 readU32 := fun value rest => by
  have hlt : value.toNat < 256 ^ 4 := by
    have := value.toNat_lt; norm_num at this ⊢; exact this
  simp only [readU32, writeU32, readInt_writeInt rest hlt, Option.map_some, UInt32.ofNat_toNat]

theorem roundTrip_i32 : RoundTrip writeI32 readI32 := fun value rest => by
  simp only [readI32, writeI32, roundTrip_u32 _ rest, Option.map_some]
  rfl

theorem roundTrip_i64 : RoundTrip writeI64 readI64 := fun value rest => by
  have hlt : value.toUInt64.toNat < 256 ^ 8 := by
    have := value.toUInt64.toNat_lt; norm_num at this ⊢; exact this
  simp only [readI64, writeI64, readInt_writeInt rest hlt, Option.map_some, UInt64.ofNat_toNat]
  rfl

theorem readU32_exact {value : UInt32} {data rest : Bytes}
    (h : readU32 data = some (value, rest)) : data = writeU32 value ++ rest := by
  obtain ⟨⟨v, r⟩, hread, heq⟩ := Option.map_eq_some_iff.mp h
  cases heq
  have hlt := readInt_lt hread
  rw [writeU32, UInt32.toNat_ofNat', Nat.mod_eq_of_lt (by norm_num at hlt ⊢; exact hlt)]
  exact readInt_exact hread

theorem readI32_exact {value : Int32} {data rest : Bytes}
    (h : readI32 data = some (value, rest)) : data = writeI32 value ++ rest := by
  obtain ⟨⟨v, r⟩, hread, heq⟩ := Option.map_eq_some_iff.mp h
  cases heq
  exact readU32_exact hread

theorem readI64_exact {value : Int64} {data rest : Bytes}
    (h : readI64 data = some (value, rest)) : data = writeI64 value ++ rest := by
  obtain ⟨⟨v, r⟩, hread, heq⟩ := Option.map_eq_some_iff.mp h
  cases heq
  have hlt := readInt_lt hread
  have hval : (UInt64.ofNat v).toInt64.toUInt64.toNat = v := by
    show (UInt64.ofNat v).toNat = v
    rw [UInt64.toNat_ofNat', Nat.mod_eq_of_lt (by norm_num at hlt ⊢; exact hlt)]
  rw [writeI64, hval]
  exact readInt_exact hread

/-! ## Fixed 32-byte hashes -/

/-- The readers copy 32 bytes into an array and fail when fewer are left. -/
def readHash256 : Decoder Hash256 UInt8 := fun data =>
  if data.length < 32 then none
  else some (Hash256.ofBytes (data.take 32), data.drop 32)

theorem roundTrip_hash256 : RoundTrip Hash256.toBytes readHash256 := fun h rest => by
  have hlen : ¬ (h.toBytes ++ rest).length < 32 := by
    rw [List.length_append, Hash256.length_toBytes]; omega
  have htake : (h.toBytes ++ rest).take 32 = h.toBytes :=
    List.take_left' (Hash256.length_toBytes h)
  have hdrop : (h.toBytes ++ rest).drop 32 = rest :=
    List.drop_left' (Hash256.length_toBytes h)
  rw [readHash256, if_neg hlen, htake, hdrop, Hash256.ofBytes_toBytes]

theorem readHash256_exact {h : Hash256} {data rest : Bytes}
    (hread : readHash256 data = some (h, rest)) : data = h.toBytes ++ rest := by
  rw [readHash256] at hread
  split at hread
  · cases hread
  · next hlen =>
      cases hread
      rw [Hash256.toBytes_ofBytes (by rw [List.length_take]; omega), List.take_append_drop]

/-! ## Variable-length integers -/

def writeVarint (value : Nat) : Bytes :=
  if value < 0xFD then [UInt8.ofNat value]
  else if value ≤ 0xFFFF then 0xFD :: writeInt 2 value
  else if value ≤ 0xFFFFFFFF then 0xFE :: writeInt 4 value
  else 0xFF :: writeInt 8 value

theorem length_writeVarint (value : Nat) : (writeVarint value).length =
    if value < 0xFD then 1 else if value ≤ 0xFFFF then 3 else if value ≤ 0xFFFFFFFF then 5 else 9 := by
  rw [writeVarint]
  split
  · rfl
  · split
    · rfl
    · split <;> rfl

def readVarint : Decoder Nat UInt8
  | [] => none
  | first :: data =>
      if first < 0xFD then some (first.toNat, data)
      else if first = 0xFD then readInt 2 data
      else if first = 0xFE then readInt 4 data
      else readInt 8 data

theorem readVarint_writeVarint {value : Nat} (rest : Bytes) (h : value < 2 ^ 64) :
    readVarint (writeVarint value ++ rest) = some (value, rest) := by
  unfold writeVarint
  split
  · next h1 =>
    have hnat : (UInt8.ofNat value).toNat = value := by
      rw [UInt8.toNat_ofNat']; omega
    have hlt : UInt8.ofNat value < 0xFD := by
      rw [UInt8.lt_iff_toNat_lt, hnat]; exact h1
    simp only [List.cons_append, List.nil_append, readVarint, if_pos hlt, hnat]
  · split
    · next h2 =>
      simp only [List.cons_append, readVarint]
      exact readInt_writeInt rest (by norm_num; omega)
    · split
      · next h3 =>
        simp only [List.cons_append, readVarint]
        exact readInt_writeInt rest (by norm_num; omega)
      · simp only [List.cons_append, readVarint]
        exact readInt_writeInt rest (by norm_num; omega)

theorem readVarint_lt {value : Nat} {data rest : Bytes}
    (h : readVarint data = some (value, rest)) : value < 2 ^ 64 := by
  cases data with
  | nil => simp [readVarint] at h
  | cons first data =>
      simp only [readVarint] at h
      split at h
      · simp only [Option.some.injEq, Prod.mk.injEq] at h
        have := first.toNat_lt
        omega
      · split at h
        · have := readInt_lt h; omega
        · split at h
          · have := readInt_lt h; omega
          · have := readInt_lt h; omega

/-- The integer at the head of the data, if there is one, has its shortest
form. -/
def ShortVarint : Bytes → Prop
  | [] => True
  | first :: data =>
      if first < 0xFD then True
      else if first = 0xFD then ∀ value rest, readInt 2 data = some (value, rest) → 0xFD ≤ value
      else if first = 0xFE then ∀ value rest, readInt 4 data = some (value, rest) → 0xFFFF < value
      else ∀ value rest, readInt 8 data = some (value, rest) → 0xFFFFFFFF < value

theorem readVarint_exact {value : Nat} {data rest : Bytes} (hshort : ShortVarint data)
    (h : readVarint data = some (value, rest)) : data = writeVarint value ++ rest := by
  cases data with
  | nil => cases h
  | cons first data =>
      rw [readVarint] at h
      rw [ShortVarint] at hshort
      split at h
      · next hfirst =>
          cases h
          have hlt : first.toNat < 0xFD := UInt8.lt_iff_toNat_lt.mp hfirst
          rw [writeVarint, if_pos hlt, UInt8.ofNat_toNat]
          rfl
      · next hfirst =>
          rw [if_neg hfirst] at hshort
          split at h
          · next hFD =>
              rw [if_pos hFD] at hshort
              have hlo := hshort value rest h
              have hhi := readInt_lt h
              rw [writeVarint, if_neg (by omega), if_pos (by omega), readInt_exact h, hFD]
              rfl
          · next hFD =>
              rw [if_neg hFD] at hshort
              split at h
              · next hFE =>
                  rw [if_pos hFE] at hshort
                  have hlo := hshort value rest h
                  have hhi := readInt_lt h
                  rw [writeVarint, if_neg (by omega), if_neg (by omega), if_pos (by omega),
                    readInt_exact h, hFE]
                  rfl
              · next hFE =>
                  rw [if_neg hFE] at hshort
                  have hlo := hshort value rest h
                  -- the only marker that is left
                  have hFF : first = 0xFF := by
                    have h₁ : ¬ first.toNat < 0xFD := fun hlt => hfirst (UInt8.lt_iff_toNat_lt.mpr hlt)
                    have h₂ : first.toNat ≠ 0xFD := fun heq => hFD (UInt8.toNat_inj.mp heq)
                    have h₃ : first.toNat ≠ 0xFE := fun heq => hFE (UInt8.toNat_inj.mp heq)
                    have h₄ := first.toNat_lt
                    refine UInt8.toNat_inj.mp ?_
                    show first.toNat = 0xFF
                    omega
                  rw [writeVarint, if_neg (by omega), if_neg (by omega), if_neg (by omega),
                    readInt_exact h, hFF]
                  rfl

/-- What is written has its shortest form. -/
theorem shortVarint_writeVarint {value : Nat} (rest : Bytes) (h : value < 2 ^ 64) :
    ShortVarint (writeVarint value ++ rest) := by
  unfold writeVarint
  split
  · next h₁ =>
      have hlt : UInt8.ofNat value < 0xFD := by
        rw [UInt8.lt_iff_toNat_lt, UInt8.toNat_ofNat', Nat.mod_eq_of_lt (by omega)]
        exact h₁
      rw [List.cons_append, ShortVarint, if_pos hlt]
      trivial
  · next h₁ =>
      have hread : ∀ {width : Nat}, value < 256 ^ width → ∀ v r,
          readInt width (writeInt width value ++ rest) = some (v, r) → v = value := by
        intro width hlt v r hv
        rw [readInt_writeInt rest hlt] at hv
        cases hv
        rfl
      split
      · next h₂ =>
          intro v r hv
          have := hread (by norm_num; omega) v r hv
          omega
      · next h₂ =>
          split
          · next h₃ =>
              intro v r hv
              have := hread (by norm_num; omega) v r hv
              omega
          · next h₃ =>
              intro v r hv
              have := hread (by norm_num; omega) v r hv
              omega

/-! ## Length-prefixed byte strings -/

def writeBytes (bytes : Bytes) : Bytes := writeVarint bytes.length ++ bytes

theorem length_le_writeBytes (bytes : Bytes) : bytes.length ≤ (writeBytes bytes).length := by
  rw [writeBytes, List.length_append]
  omega

def writeVec (v : Vec UInt8) : Bytes := writeBytes v.toList

def readBytes : Decoder (Vec UInt8) UInt8 := fun data =>
  match h : readVarint data with
  | none => none
  | some (len, rest) =>
      if rest.length < len then none
      else some (⟨rest.take len, by
        have := readVarint_lt h
        rw [List.length_take]; omega⟩, rest.drop len)

theorem roundTrip_vec : RoundTrip writeVec readBytes := fun v rest => by
  have hread : readVarint (writeVec v ++ rest) = some (v.toList.length, v.toList ++ rest) := by
    rw [writeVec, writeBytes, List.append_assoc]
    exact readVarint_writeVarint _ v.size_lt
  unfold readBytes
  split
  · next h => rw [hread] at h; cases h
  · next len r h =>
    rw [hread] at h
    simp only [Option.some.injEq, Prod.mk.injEq] at h
    obtain ⟨rfl, rfl⟩ := h
    have hlen : ¬ (v.toList ++ rest).length < v.toList.length := by
      rw [List.length_append]; omega
    simp only [if_neg hlen, List.take_left, List.drop_left]

theorem readBytes_exact : ExactOn writeVec readBytes ShortVarint := by
  intro data v rest hshort h
  unfold readBytes at h
  split at h
  · cases h
  · next len r hread =>
      split at h
      · cases h
      · next hlen =>
          cases h
          have hdata := readVarint_exact hshort hread
          rw [writeVec, writeBytes, List.length_take, Nat.min_eq_left (by omega), List.append_assoc,
            List.take_append_drop]
          exact hdata

/-! ## Counted sequences -/

/-- A size followed by the items one after another. -/
def writeSeq {α : Type*} (enc : α → Bytes) (v : Vec α) : Bytes :=
  writeVarint v.toList.length ++ v.toList.flatMap enc

def readSeq {α : Type*} (dec : Decoder α UInt8) : Decoder (Vec α) UInt8 := fun data =>
  match hc : readVarint data with
  | none => none
  | some (count, rest) =>
      match hn : decodeN dec count rest with
      | none => none
      | some (xs, rest') => some (⟨xs, by
          rw [length_of_decodeN hn]; exact readVarint_lt hc⟩, rest')

theorem readSeq_writeSeq {α : Type*} {enc : α → Bytes} {dec : Decoder α UInt8} (v : Vec α)
    (h : ∀ x ∈ v.toList, ∀ r, dec (enc x ++ r) = some (x, r)) (rest : Bytes) :
    readSeq dec (writeSeq enc v ++ rest) = some (v, rest) := by
  have hread : readVarint (writeSeq enc v ++ rest)
      = some (v.toList.length, v.toList.flatMap enc ++ rest) := by
    rw [writeSeq, List.append_assoc]
    exact readVarint_writeVarint _ v.size_lt
  have hitems := decodeN_flatMap_of_mem v.toList rest h
  unfold readSeq
  split
  · next hc => rw [hread] at hc; cases hc
  · next count r hc =>
    rw [hread] at hc
    simp only [Option.some.injEq, Prod.mk.injEq] at hc
    obtain ⟨rfl, rfl⟩ := hc
    split
    · next hn => rw [hitems] at hn; cases hn
    · next xs r' hn =>
      rw [hitems] at hn
      simp only [Option.some.injEq, Prod.mk.injEq] at hn
      obtain ⟨rfl, rfl⟩ := hn
      rfl

theorem roundTrip_seq {α : Type*} {enc : α → Bytes} {dec : Decoder α UInt8}
    (h : RoundTrip enc dec) : RoundTrip (writeSeq enc) (readSeq dec) := fun v rest =>
  readSeq_writeSeq v (fun x _ => h x) rest

/-- The count has its shortest form, and every item its own form. -/
def SeqForm {α : Type*} (dec : Decoder α UInt8) (form : Bytes → Prop) (data : Bytes) : Prop :=
  ShortVarint data ∧ ∀ count rest, readVarint data = some (count, rest) → FormN dec form count rest

theorem seqForm_writeSeq {α : Type*} {enc : α → Bytes} {dec : Decoder α UInt8}
    {form : Bytes → Prop} (v : Vec α) (rest : Bytes)
    (h : ∀ x ∈ v.toList, ∀ r, dec (enc x ++ r) = some (x, r) ∧ form (enc x ++ r)) :
    SeqForm dec form (writeSeq enc v ++ rest) := by
  rw [writeSeq, List.append_assoc]
  refine ⟨shortVarint_writeVarint _ v.size_lt, fun count r hcount => ?_⟩
  rw [readVarint_writeVarint _ v.size_lt] at hcount
  cases hcount
  exact formN_flatMap v.toList rest h

theorem readSeq_exact {α : Type*} {enc : α → Bytes} {dec : Decoder α UInt8} {form : Bytes → Prop}
    (h : ExactOn enc dec form) : ExactOn (writeSeq enc) (readSeq dec) (SeqForm dec form) := by
  rintro data v rest ⟨hshort, hitems⟩ hread
  unfold readSeq at hread
  split at hread
  · cases hread
  · next count r hc =>
    split at hread
    · cases hread
    · next xs r' hn =>
      cases hread
      have hlen := length_of_decodeN hn
      have hdata := readVarint_exact hshort hc
      rw [h.decodeN (hitems count r hc) hn, ← hlen] at hdata
      exact hdata.trans (List.append_assoc _ _ _).symm

end Cryptex
