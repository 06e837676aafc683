import Cryptex.Bip39Words
import Cryptex.Encoding.Address
import Cryptex.Lib.BitGroups

/-!
# Recovery phrases

`bip39.cpp`: entropy and a checksum, cut into groups of eleven bits, as words
of a list, and back. SHA-256 is a parameter. An exception is `error` with its
text.
-/

namespace Cryptex

open Encoding BitGroups

namespace Bip39

/-! ## The functions -/

/-- `word_index`: the entries are emplaced in order, so that the first of
equal words counts. -/
def wordIndex (word : Bytes) : Option Nat := kEnglishWords.idxOf? word

/-- The loop of `split_words`, with the word that is being read. -/
def splitLoop : Bytes → Bytes → List Bytes
  | word, [] => if word = [] then [] else [word]
  | word, ch :: rest =>
      if isSpace ch then
        if word = [] then splitLoop [] rest else word :: splitLoop [] rest
      else splitLoop (word ++ [ch]) rest

def splitWords (mnemonic : Bytes) : List Bytes := splitLoop [] mnemonic

/-- Words with a space between each two of them. -/
def joinWords (words : List Bytes) : Bytes := [32].intercalate words

def entropyBytesForWords : Nat → Except Bytes Nat
  | 12 => .ok 16
  | 15 => .ok 20
  | 18 => .ok 24
  | 21 => .ok 28
  | 24 => .ok 32
  | _ => .error (literal "BIP39 supports 12, 15, 18, 21, or 24 words")

/-- Bit `i` of a string of bytes, the most significant bit of a byte first. -/
def bitAt (data : Bytes) (i : Nat) : Bool := (data.getD (i / 8) 0).toNat.testBit (7 - i % 8)

section

variable (sha256 : Bytes → Hash256)

/-- The first bits of the digest of the entropy. -/
def checksum (entropy : Bytes) (checksumBits : Nat) : List Bool :=
  (List.range checksumBits).map (bitAt (sha256 entropy).toBytes)

/-- The loop over the eleven bits of word `i`, in a `uint16_t`. -/
def indexOfBits (bits : List Bool) (i : Nat) : Nat :=
  (List.range 11).foldl
    (fun index j => (index <<< 1 ||| (bits.getD (i * 11 + j) false).toNat) % 2 ^ 16) 0

def entropyToMnemonic (entropy : Bytes) : Except Bytes Bytes :=
  if entropy = [] then .error (literal "entropy required")
  else
    let entBits := entropy.length * 8
    if entBits < 128 ∨ entBits > 256 ∨ entBits % 32 ≠ 0 then
      .error (literal "invalid entropy size for BIP39")
    else
      let checksumBits := entBits / 32
      let bits := entropy.flatMap (fun byte => expand 8 byte.toNat) ++
        checksum sha256 entropy checksumBits
      let wordCount := bits.length / 11
      .ok (joinWords ((List.range wordCount).map fun i => kEnglishWords.getD (indexOfBits bits i) []))

/-- The bits of a list of words, eleven for each. -/
def bitsOfWords : List Bytes → Except Bytes (List Bool)
  | [] => .ok []
  | word :: rest =>
      match wordIndex word with
      | none => .error (literal "unknown BIP39 word: " ++ word)
      | some value => (bitsOfWords rest).map fun bits => expand 11 value ++ bits

/-- One round of the loop that sets the bits of the entropy. -/
def setBit (bits : List Bool) (entropy : Bytes) (i : Nat) : Bytes :=
  if bits.getD i false then
    entropy.modify (i / 8) fun byte => byte ||| UInt8.ofNat (1 <<< (7 - i % 8))
  else entropy

/-- The bytes whose bits are the first `entBits` ones. -/
def entropyOfBits (bits : List Bool) (entBits : Nat) : Bytes :=
  (List.range entBits).foldl (setBit bits) (List.replicate (entBits / 8) 0)

def mnemonicToEntropy (mnemonic : Bytes) : Except Bytes Bytes := do
  let words := splitWords mnemonic
  let _ ← entropyBytesForWords words.length
  let bits ← bitsOfWords words
  let totalBits := bits.length
  let entBits := totalBits * 32 / 33
  let checksumBits := totalBits - entBits
  let entropy := entropyOfBits bits entBits
  if (List.range checksumBits).all fun i =>
      bits.getD (entBits + i) false == bitAt (sha256 entropy).toBytes i then
    .ok entropy
  else .error (literal "BIP39 checksum mismatch")

end

/-! ## Words and spaces -/

/-- A word that `split_words` reads as a whole. -/
structure Solid (word : Bytes) : Prop where
  ne_nil : word ≠ []
  solid : ∀ ch ∈ word, isSpace ch = false

theorem solid_of_mem {word : Bytes} (h : word ∈ kEnglishWords) : Solid word := by
  obtain ⟨hne, hletters⟩ := letters_kEnglishWords h
  refine ⟨hne, fun ch hch => ?_⟩
  obtain ⟨hlow, -⟩ := hletters ch hch
  have hlow' : 97 ≤ ch.toNat := UInt8.le_iff_toNat_le.mp hlow
  unfold isSpace
  rw [Bool.or_eq_false_iff, Bool.and_eq_false_iff]
  refine ⟨decide_eq_false fun heq => ?_, Or.inr (decide_eq_false fun hle => ?_)⟩
  · rw [heq] at hlow'
    exact absurd hlow' (by decide)
  · have hle' : ch.toNat ≤ 13 := UInt8.le_iff_toNat_le.mp hle
    omega

theorem splitLoop_solid (rest : Bytes) : ∀ {word : Bytes} (read : Bytes),
    (∀ ch ∈ word, isSpace ch = false) → splitLoop read (word ++ rest) = splitLoop (read ++ word) rest
  | [], read, _ => by rw [List.nil_append, List.append_nil]
  | ch :: word, read, h => by
      have hch : isSpace ch = false := h ch List.mem_cons_self
      rw [List.cons_append, splitLoop, if_neg (by rw [hch]; decide),
        splitLoop_solid rest (read ++ [ch]) (fun ch' h' => h ch' (List.mem_cons_of_mem _ h')),
        List.append_assoc, List.singleton_append]

theorem splitWords_joinWords : ∀ {words : List Bytes}, (∀ word ∈ words, Solid word) →
    splitWords (joinWords words) = words
  | [], _ => rfl
  | [word], h => by
      have hword := h word List.mem_cons_self
      have hsplit := splitLoop_solid [] [] hword.solid
      rw [List.append_nil, List.nil_append] at hsplit
      have hjoin : joinWords [word] = word := by simp [joinWords]
      rw [splitWords, hjoin, hsplit, splitLoop, if_neg hword.ne_nil]
  | word :: next :: rest, h => by
      have hword := h word List.mem_cons_self
      have hjoin : joinWords (word :: next :: rest) = word ++ 32 :: joinWords (next :: rest) := by
        simp [joinWords, List.intercalate, List.intersperse]
      have hspace : isSpace 32 = true := rfl
      have hrest : splitLoop [] (joinWords (next :: rest)) = next :: rest :=
        splitWords_joinWords fun w hw => h w (List.mem_cons_of_mem _ hw)
      rw [splitWords, hjoin, splitLoop_solid _ [] hword.solid, List.nil_append, splitLoop,
        if_pos hspace, if_neg hword.ne_nil, hrest]

/-! ## Words and bits -/

/-- The index of a word, as a group of bits; eleven zeros for other words. -/
def wordBits (word : Bytes) : List Bool := expand 11 (kEnglishWords.idxOf word)

theorem length_wordBits (word : Bytes) : (wordBits word).length = 11 := length_expand 11 _

theorem wordIndex_eq_some_iff {word : Bytes} {i : Nat} :
    wordIndex word = some i ↔ word ∈ kEnglishWords ∧ kEnglishWords.idxOf word = i := by
  rw [wordIndex]
  constructor
  · intro h
    have hmem : word ∈ kEnglishWords := by
      by_contra hnot
      rw [List.idxOf?_eq_none_iff.mpr hnot] at h
      cases h
    refine ⟨hmem, ?_⟩
    rw [List.idxOf_eq_getD_idxOf?, h]
    rfl
  · rintro ⟨hmem, rfl⟩
    obtain ⟨i, hi⟩ := Option.isSome_iff_exists.mp (List.isSome_idxOf?.mpr hmem)
    rw [hi, List.idxOf_eq_getD_idxOf?, hi]
    rfl

/-- The bits of words, if each of them is in the list. -/
theorem bitsOfWords_eq_ok_iff : ∀ {words : List Bytes} {bits : List Bool},
    bitsOfWords words = .ok bits ↔
      (∀ word ∈ words, word ∈ kEnglishWords) ∧ bits = words.flatMap wordBits
  | [], bits => by
      rw [bitsOfWords, List.flatMap_nil]
      constructor
      · intro h
        cases h
        exact ⟨nofun, rfl⟩
      · rintro ⟨-, rfl⟩
        rfl
  | word :: rest, bits => by
      rw [bitsOfWords]
      cases hindex : wordIndex word with
      | none =>
          refine iff_of_false (fun h => by cases h) fun h => ?_
          have := wordIndex_eq_some_iff.mpr ⟨h.1 word List.mem_cons_self, rfl⟩
          rw [hindex] at this
          cases this
      | some i =>
          obtain ⟨hmem, hi⟩ := wordIndex_eq_some_iff.mp hindex
          rw [List.forall_mem_cons, List.flatMap_cons, wordBits, hi]
          simp only
          constructor
          · intro h
            cases hrest : bitsOfWords rest with
            | error e => rw [hrest] at h; cases h
            | ok more =>
                rw [hrest] at h
                cases h
                obtain ⟨hall, rfl⟩ := bitsOfWords_eq_ok_iff.mp hrest
                exact ⟨⟨hmem, hall⟩, rfl⟩
          · rintro ⟨⟨-, hall⟩, rfl⟩
            rw [bitsOfWords_eq_ok_iff.mpr ⟨hall, rfl⟩]
            rfl

theorem idxOf_lt {word : Bytes} (h : word ∈ kEnglishWords) : kEnglishWords.idxOf word < 2 ^ 11 := by
  rw [show (2 : Nat) ^ 11 = 2048 from rfl, ← length_kEnglishWords]
  exact List.idxOf_lt_length_iff.mpr h

theorem getD_mem {i : Nat} (h : i < 2 ^ 11) : kEnglishWords.getD i [] ∈ kEnglishWords := by
  rw [show (2 : Nat) ^ 11 = 2048 from rfl, ← length_kEnglishWords] at h
  rw [List.getD_eq_getElem _ _ h]
  exact List.getElem_mem h

/-- A word has the bits of its index. -/
theorem wordBits_getD {i : Nat} (h : i < 2 ^ 11) : wordBits (kEnglishWords.getD i []) = expand 11 i := by
  rw [show (2 : Nat) ^ 11 = 2048 from rfl, ← length_kEnglishWords] at h
  rw [wordBits, List.getD_eq_getElem _ _ h, nodup_kEnglishWords.idxOf_getElem i h]

theorem getD_idxOf {word : Bytes} (h : word ∈ kEnglishWords) :
    kEnglishWords.getD (kEnglishWords.idxOf word) [] = word := by
  have hlt := List.idxOf_lt_length_iff.mpr h
  rw [List.getD_eq_getElem _ _ hlt, List.getElem_idxOf]

theorem wordBits_inj {word word' : Bytes} (h : word ∈ kEnglishWords) (h' : word' ∈ kEnglishWords)
    (hsame : wordBits word = wordBits word') : word = word' := by
  rw [wordBits, wordBits] at hsame
  rw [← getD_idxOf h, expand_inj (idxOf_lt h) (idxOf_lt h') hsame, getD_idxOf h']

/-- The loop computes the number of its group. -/
theorem indexOfBits_eq {bits : List Bool} {i : Nat} (h : 11 * (i + 1) ≤ bits.length) :
    indexOfBits bits i = pack (group 11 bits i) := by
  have hlength := length_group h
  -- by induction on the number of bits read
  have hloop : ∀ k ≤ 11, (List.range k).foldl
      (fun index j => (index <<< 1 ||| (bits.getD (i * 11 + j) false).toNat) % 2 ^ 16) 0
        = pack ((group 11 bits i).take k) := by
    intro k
    induction k with
    | zero => exact fun _ => rfl
    | succ k ih =>
        intro hk
        have hbit : (group 11 bits i)[k]? = some (bits.getD (i * 11 + k) false) := by
          rw [getElem?_group bits (by omega), Nat.mul_comm i, List.getD_eq_getElem?_getD,
            List.getElem?_eq_getElem (show 11 * i + k < bits.length by omega)]
          rfl
        have hsmall := pack_lt ((group 11 bits i).take (k + 1))
        have hpow : 2 ^ ((group 11 bits i).take (k + 1)).length ≤ 2 ^ 11 :=
          Nat.pow_le_pow_right (by omega) (by rw [List.length_take]; omega)
        rw [List.take_add_one, hbit, Option.toList_some, pack_append_singleton] at hsmall ⊢
        rw [List.range_succ, List.foldl_append, ih (by omega), List.foldl_cons, List.foldl_nil,
          ← Nat.shiftLeft_add_eq_or_of_lt (Bool.toNat_lt _), Nat.shiftLeft_eq, pow_one,
          Nat.mul_comm _ 2]
        refine Nat.mod_eq_of_lt ?_
        rw [List.take_add_one, hbit, Option.toList_some] at hpow
        omega
  rw [indexOfBits, hloop 11 (le_refl _), List.take_of_length_le hlength.le]

/-! ## Bytes and bits -/

theorem getElem?_flatMap_expand (data : Bytes) (i : Nat) :
    (data.flatMap fun byte => expand 8 byte.toNat)[i]? =
      if i < 8 * data.length then some (bitAt data i) else none := by
  have hlength : (data.flatMap fun byte => expand 8 byte.toNat).length = 8 * data.length :=
    length_flatMap (fun byte => length_expand 8 _) data
  split
  · next hi =>
      have hbyte : i / 8 < data.length := by omega
      have hmod : i % 8 < 8 := Nat.mod_lt i (by decide)
      have hgroup := group_flatMap (f := fun byte : UInt8 => expand 8 byte.toNat)
        (fun byte => length_expand 8 _) [] (List.getElem?_eq_getElem hbyte)
      have hget := getElem?_group (data.flatMap fun byte => expand 8 byte.toNat) (i := i / 8) hmod
      rw [List.append_nil] at hgroup
      rw [Nat.div_add_mod, hgroup, getElem?_expand, if_pos hmod] at hget
      rw [← hget, bitAt, List.getD_eq_getElem _ _ hbyte]
  · next hi => exact List.getElem?_eq_none (by omega)

theorem byteBits_inj {a b : UInt8} (h : expand 8 a.toNat = expand 8 b.toNat) : a = b := by
  have ha : a.toNat < 2 ^ 8 := a.toNat_lt
  have hb : b.toNat < 2 ^ 8 := b.toNat_lt
  exact UInt8.toNat_inj.mp (expand_inj ha hb h)

theorem flatMap_expand_inj {data data' : Bytes}
    (h : (data.flatMap fun byte => expand 8 byte.toNat) =
      data'.flatMap fun byte => expand 8 byte.toNat) : data = data' := by
  have hlength : ∀ byte : UInt8, (expand 8 byte.toNat).length = 8 := fun _ => length_expand 8 _
  have hwidth : 0 < 8 := by decide
  exact flatMap_inj hwidth hlength (fun a _ b _ hab => byteBits_inj hab) h

theorem length_setBit (bits : List Bool) (entropy : Bytes) (i : Nat) :
    (setBit bits entropy i).length = entropy.length := by
  unfold setBit
  split
  · exact List.length_modify ..
  · rfl

/-- A round sets its own bit. -/
theorem bitAt_setBit (bits : List Bool) {entropy : Bytes} {i k : Nat} (hi : i < 8 * entropy.length)
    : bitAt (setBit bits entropy k) i = ((decide (i = k) && bits.getD k false) || bitAt entropy i) := by
  unfold setBit
  split
  · next hbit =>
      have hbyte : i / 8 < entropy.length := by omega
      have hpow : (UInt8.ofNat (1 <<< (7 - k % 8))).toNat = 2 ^ (7 - k % 8) := by
        rw [Nat.shiftLeft_eq, Nat.one_mul, UInt8.toNat_ofNat']
        exact Nat.mod_eq_of_lt (Nat.pow_lt_pow_right (by decide) (by omega))
      rw [hbit, Bool.and_true, bitAt, bitAt, List.getD_eq_getElem?_getD, List.getElem?_modify,
        List.getD_eq_getElem _ _ hbyte, List.getElem?_eq_getElem hbyte, Option.map_eq_map,
        Option.map_some, Option.getD_some]
      by_cases hsame : k / 8 = i / 8
      · rw [if_pos hsame, UInt8.toNat_or, Nat.testBit_or, hpow, Nat.testBit_two_pow, Bool.or_comm]
        congr 1
        rw [decide_eq_decide]
        omega
      · have hne : i ≠ k := fun heq => hsame (by rw [heq])
        rw [if_neg hsame, decide_eq_false hne]
        rfl
  · next hbit =>
      rw [Bool.eq_false_iff.mpr hbit, Bool.and_false, Bool.false_or]

/-- The bytes have the bits they were made of. -/
theorem flatMap_entropyOfBits (bits : List Bool) {n : Nat} (h : 8 * n ≤ bits.length) :
    (entropyOfBits bits (8 * n)).length = n ∧
      (entropyOfBits bits (8 * n)).flatMap (fun byte => expand 8 byte.toNat) = bits.take (8 * n) := by
  -- by induction on the rounds, the first bits are set and the others are zero
  have hloop : ∀ k ≤ 8 * n,
      ((List.range k).foldl (setBit bits) (List.replicate n 0)).length = n ∧
        ∀ i < 8 * n, bitAt ((List.range k).foldl (setBit bits) (List.replicate n 0)) i =
          (decide (i < k) && bits.getD i false) := by
    intro k
    induction k with
    | zero =>
        refine fun _ => ⟨List.length_replicate, fun i hi => ?_⟩
        have hzero : (List.replicate n (0 : UInt8)).getD (i / 8) 0 = 0 := by
          rw [List.getD_eq_getElem?_getD, List.getElem?_replicate]
          split <;> rfl
        rw [decide_eq_false (Nat.not_lt_zero i), Bool.false_and, List.range_zero, List.foldl_nil,
          bitAt, hzero]
        exact Nat.zero_testBit _
    | succ k ih =>
        intro hk
        obtain ⟨hlen, hbits⟩ := ih (by omega)
        rw [List.range_succ, List.foldl_append, List.foldl_cons, List.foldl_nil]
        refine ⟨by rw [length_setBit, hlen], fun i hi => ?_⟩
        rw [bitAt_setBit bits (by rw [hlen]; exact hi), hbits i hi]
        by_cases heq : i = k
        · subst heq
          simp
        · have hiff : (i < k + 1) = (i < k) := propext (by omega)
          simp only [heq, decide_false, Bool.false_and, Bool.false_or, hiff]
  obtain ⟨hlen, hbits⟩ := hloop (8 * n) (le_refl _)
  have hdef : entropyOfBits bits (8 * n) =
      (List.range (8 * n)).foldl (setBit bits) (List.replicate n 0) := by
    rw [entropyOfBits, Nat.mul_div_cancel_left n (by decide)]
  rw [hdef]
  refine ⟨hlen, List.ext_getElem? fun i => ?_⟩
  rw [getElem?_flatMap_expand, hlen, List.getElem?_take]
  split
  · next hi =>
      rw [hbits i hi, decide_eq_true hi, Bool.true_and, List.getD_eq_getElem?_getD,
        List.getElem?_eq_getElem (by omega), Option.getD_some]
  · rfl

/-! ## Phrases -/

section

variable (sha256 : Bytes → Hash256)

/-- The bits of a phrase: the entropy and its checksum. -/
def phraseBits (entropy : Bytes) : List Bool :=
  entropy.flatMap (fun byte => expand 8 byte.toNat) ++
    checksum sha256 entropy (entropy.length * 8 / 32)

/-- The words of a phrase. -/
def phrase (entropy : Bytes) : List Bytes :=
  (List.range ((phraseBits sha256 entropy).length / 11)).map fun i =>
    kEnglishWords.getD (indexOfBits (phraseBits sha256 entropy) i) []

/-- A size of entropy: the bytes of `k` groups of 32 bits. -/
def Sized (entropy : Bytes) : Prop := ∃ k, 4 ≤ k ∧ k ≤ 8 ∧ entropy.length = 4 * k

theorem sized_iff {entropy : Bytes} : Sized entropy ↔ entropy.length ∈ [16, 20, 24, 28, 32] := by
  simp only [List.mem_cons, List.not_mem_nil, or_false]
  constructor
  · rintro ⟨k, hlow, hhigh, hlength⟩
    omega
  · intro h
    exact ⟨entropy.length / 4, by omega, by omega, by omega⟩

theorem entropyToMnemonic_eq {entropy : Bytes} (h : Sized entropy) :
    entropyToMnemonic sha256 entropy = .ok (joinWords (phrase sha256 entropy)) := by
  obtain ⟨k, hlow, hhigh, hlength⟩ := h
  have hne : entropy ≠ [] := fun hnil => by
    rw [hnil, List.length_nil] at hlength
    omega
  rw [entropyToMnemonic, if_neg hne]
  exact if_neg (by omega)

theorem length_phraseBits {entropy : Bytes} {k : Nat} (h : entropy.length = 4 * k) :
    (phraseBits sha256 entropy).length = 33 * k := by
  rw [phraseBits, List.length_append, length_flatMap (fun byte => length_expand 8 _), checksum,
    List.length_map, List.length_range, h]
  omega

theorem indexOfBits_lt {bits : List Bool} {i : Nat} (h : 11 * (i + 1) ≤ bits.length) :
    indexOfBits bits i < 2 ^ 11 := by
  rw [indexOfBits_eq h]
  exact lt_of_lt_of_eq (pack_lt _) (by rw [length_group h])

/-- The words of a phrase are in the list and have its bits. -/
theorem phrase_words {entropy : Bytes} {k : Nat} (h : entropy.length = 4 * k) :
    (phrase sha256 entropy).length = 3 * k ∧ (∀ word ∈ phrase sha256 entropy, word ∈ kEnglishWords) ∧
      (phrase sha256 entropy).flatMap wordBits = phraseBits sha256 entropy := by
  have hlength := length_phraseBits sha256 h
  have hcount : (phraseBits sha256 entropy).length / 11 = 3 * k := by omega
  have hindex : ∀ i < 3 * k, 11 * (i + 1) ≤ (phraseBits sha256 entropy).length := by omega
  rw [phrase, hcount]
  refine ⟨by rw [List.length_map, List.length_range], fun word hword => ?_, ?_⟩
  · obtain ⟨i, hi, rfl⟩ := List.mem_map.mp hword
    exact getD_mem (indexOfBits_lt (hindex i (List.mem_range.mp hi)))
  · rw [List.flatMap_map]
    calc (List.range (3 * k)).flatMap (fun i =>
          wordBits (kEnglishWords.getD (indexOfBits (phraseBits sha256 entropy) i) []))
        = (List.range (3 * k)).flatMap (group 11 (phraseBits sha256 entropy)) := by
          refine List.flatMap_congr fun i hi => ?_
          have hle := hindex i (List.mem_range.mp hi)
          have hexpand := expand_pack (group 11 (phraseBits sha256 entropy) i)
          rw [length_group hle] at hexpand
          rw [wordBits_getD (indexOfBits_lt hle), indexOfBits_eq hle, hexpand]
      _ = (phraseBits sha256 entropy).take (11 * (3 * k)) := flatMap_group 11 _ _
      _ = phraseBits sha256 entropy := List.take_of_length_le (by omega)

theorem length_of_words {n m : Nat} (h : entropyBytesForWords n = .ok m) :
    ∃ k, 4 ≤ k ∧ k ≤ 8 ∧ n = 3 * k := by
  unfold entropyBytesForWords at h
  split at h
  · exact ⟨4, by omega, by omega, rfl⟩
  · exact ⟨5, by omega, by omega, rfl⟩
  · exact ⟨6, by omega, by omega, rfl⟩
  · exact ⟨7, by omega, by omega, rfl⟩
  · exact ⟨8, by omega, by omega, rfl⟩
  · cases h

theorem entropyBytesForWords_ok {k : Nat} (hlow : 4 ≤ k) (hhigh : k ≤ 8) :
    entropyBytesForWords (3 * k) = .ok (4 * k) := by
  interval_cases k <;> rfl

theorem map_getD_eq (bits : List Bool) {m k : Nat} (h : m + k ≤ bits.length) :
    (List.range k).map (fun i => bits.getD (m + i) false) = (bits.drop m).take k := by
  refine List.ext_getElem? fun i => ?_
  rw [List.getElem?_map, List.getElem?_take]
  split
  · next hi =>
      rw [List.getElem?_range hi, Option.map_some, List.getElem?_drop, List.getD_eq_getElem?_getD,
        List.getElem?_eq_getElem (by omega), Option.getD_some]
  · next hi => rw [List.getElem?_eq_none (by rw [List.length_range]; omega), Option.map_none]

/-- The words of a phrase give the entropy and, behind it, what must be its
checksum. -/
theorem mnemonicToEntropy_eq {mnemonic : Bytes} {k : Nat} (hlow : 4 ≤ k) (hhigh : k ≤ 8)
    (hcount : (splitWords mnemonic).length = 3 * k)
    (hmem : ∀ word ∈ splitWords mnemonic, word ∈ kEnglishWords) :
    ∃ entropy : Bytes, entropy.length = 4 * k ∧
      entropy.flatMap (fun byte => expand 8 byte.toNat) =
        ((splitWords mnemonic).flatMap wordBits).take (8 * (4 * k)) ∧
      mnemonicToEntropy sha256 mnemonic =
        if ((splitWords mnemonic).flatMap wordBits).drop (8 * (4 * k)) = checksum sha256 entropy k
        then .ok entropy else .error (literal "BIP39 checksum mismatch") := by
  generalize hbits : (splitWords mnemonic).flatMap wordBits = bits
  have hlength : bits.length = 33 * k := by
    rw [← hbits, length_flatMap length_wordBits, hcount]
    omega
  have hent : bits.length * 32 / 33 = 8 * (4 * k) := by omega
  have hsum : bits.length - 8 * (4 * k) = k := by omega
  obtain ⟨hlen, htake⟩ := flatMap_entropyOfBits bits (n := 4 * k) (by omega)
  refine ⟨_, hlen, htake, ?_⟩
  have hmap := map_getD_eq bits (m := 8 * (4 * k)) (k := k) (by omega)
  rw [List.take_of_length_le (by rw [List.length_drop]; omega)] at hmap
  have hcheck : ∀ data : Bytes, (List.range k).all (fun i =>
      bits.getD (8 * (4 * k) + i) false == bitAt data i) = true ↔
        bits.drop (8 * (4 * k)) = (List.range k).map (bitAt data) := by
    intro data
    rw [← hmap, List.map_inj_left, List.all_eq_true]
    simp only [beq_iff_eq]
  have hwords : bitsOfWords (splitWords mnemonic) = .ok bits :=
    bitsOfWords_eq_ok_iff.mpr ⟨hmem, hbits.symm⟩
  simp only [mnemonicToEntropy, bind, Except.bind, hcount, entropyBytesForWords_ok hlow hhigh,
    hwords, hent, hsum, hcheck]
  rfl

/-- A phrase is accepted if the number of its words is right, the words are in
the list, and their bits are those of the entropy with its checksum. -/
theorem mnemonicToEntropy_eq_ok_iff {mnemonic entropy : Bytes} :
    mnemonicToEntropy sha256 mnemonic = .ok entropy ↔ Sized entropy ∧
      (∀ word ∈ splitWords mnemonic, word ∈ kEnglishWords) ∧
        (splitWords mnemonic).flatMap wordBits = phraseBits sha256 entropy := by
  have hsum : ∀ {k : Nat} {entropy : Bytes}, entropy.length = 4 * k →
      entropy.length * 8 / 32 = k := by omega
  have hfirst : ∀ entropy : Bytes,
      (entropy.flatMap fun byte => expand 8 byte.toNat).length = 8 * entropy.length :=
    length_flatMap fun byte => length_expand 8 _
  constructor
  · intro h
    have hparts := h
    simp only [mnemonicToEntropy, bind, Except.bind] at hparts
    cases hcount : entropyBytesForWords (splitWords mnemonic).length with
    | error e => rw [hcount] at hparts; cases hparts
    | ok n =>
        rw [hcount] at hparts
        cases hwords : bitsOfWords (splitWords mnemonic) with
        | error e => rw [hwords] at hparts; cases hparts
        | ok bits =>
            obtain ⟨k, hlow, hhigh, hcount⟩ := length_of_words hcount
            obtain ⟨hmem, -⟩ := bitsOfWords_eq_ok_iff.mp hwords
            obtain ⟨entropy', hlen, htake, heq⟩ := mnemonicToEntropy_eq sha256 hlow hhigh hcount hmem
            rw [heq] at h
            split at h
            · next hdrop =>
                cases h
                refine ⟨⟨k, hlow, hhigh, hlen⟩, hmem, ?_⟩
                rw [phraseBits, htake, hsum hlen, ← hdrop, List.take_append_drop]
            · cases h
  · rintro ⟨⟨k, hlow, hhigh, hlength⟩, hmem, hbits⟩
    have hcount : (splitWords mnemonic).length = 3 * k := by
      have hlen := length_phraseBits sha256 hlength
      rw [← hbits, length_flatMap length_wordBits] at hlen
      omega
    obtain ⟨entropy', hlen, htake, heq⟩ := mnemonicToEntropy_eq sha256 hlow hhigh hcount hmem
    have hfirst' : 8 * (4 * k) = (entropy.flatMap fun byte => expand 8 byte.toNat).length := by
      rw [hfirst, hlength]
    rw [hbits, phraseBits, hfirst', List.take_left] at htake
    have hsame : entropy' = entropy := flatMap_expand_inj htake
    rw [heq, hbits, phraseBits, hfirst', List.drop_left, hsum hlength, hsame, if_pos rfl]

/-- Recovery phrases and entropy of the five sizes are in bijection, the
phrases being counted by their words. -/
theorem mnemonic_bijection :
    (∀ entropy : Bytes, entropy.length ∈ [16, 20, 24, 28, 32] →
      (entropyToMnemonic sha256 entropy).bind (mnemonicToEntropy sha256) = .ok entropy) ∧
    ∀ mnemonic entropy : Bytes, mnemonicToEntropy sha256 mnemonic = .ok entropy →
      entropyToMnemonic sha256 entropy = .ok (joinWords (splitWords mnemonic)) := by
  constructor
  · intro entropy hlength
    have hsized := sized_iff.mpr hlength
    obtain ⟨k, hlow, hhigh, hk⟩ := hsized
    obtain ⟨hcount, hmem, hbits⟩ := phrase_words sha256 hk
    have hsplit := splitWords_joinWords fun word hword => solid_of_mem (hmem word hword)
    rw [entropyToMnemonic_eq sha256 ⟨k, hlow, hhigh, hk⟩]
    refine (mnemonicToEntropy_eq_ok_iff sha256).mpr ⟨⟨k, hlow, hhigh, hk⟩, ?_⟩
    rw [hsplit]
    exact ⟨hmem, hbits⟩
  · intro mnemonic entropy h
    obtain ⟨⟨k, hlow, hhigh, hk⟩, hmem, hbits⟩ := (mnemonicToEntropy_eq_ok_iff sha256).mp h
    obtain ⟨-, hmem', hbits'⟩ := phrase_words sha256 hk
    -- words of the list are determined by their bits
    have hphrase : phrase sha256 entropy = splitWords mnemonic := by
      refine flatMap_inj (by decide) length_wordBits (fun word hword word' hword' hsame => ?_)
        (hbits'.trans hbits.symm)
      exact wordBits_inj (hmem' word hword) (hmem word' hword') hsame
    rw [entropyToMnemonic_eq sha256 ⟨k, hlow, hhigh, hk⟩, hphrase]

end

/-- Sixteen zero bytes, with a digest of zeros. -/
theorem mnemonic_bijection_zero :
    (entropyToMnemonic (fun _ => 0) (List.replicate 16 0)).bind (mnemonicToEntropy fun _ => 0) =
      .ok (List.replicate 16 0) ∧
    entropyToMnemonic (fun _ => 0) (List.replicate 16 0) =
      .ok (joinWords (splitWords (joinWords (List.replicate 12 (literal "abandon"))))) :=
  ⟨(mnemonic_bijection fun _ => 0).1 (List.replicate 16 0) (by decide),
    (mnemonic_bijection fun _ => 0).2 (joinWords (List.replicate 12 (literal "abandon")))
      (List.replicate 16 0) (by decide +kernel)⟩

end Bip39

end Cryptex
