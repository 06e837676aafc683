import Cryptex.Miner.LaneKeccak
import Cryptex.Types

/-!
# The miner's hash

A header is 80 bytes and a block of SHA3-512 is 72, so the miner absorbs the
first 72 bytes of a header once (`prepare_prefix_state_x86_64`) and for each
nonce only the last eight with the padding
(`finalize_suffix_scalar_x86_64`, and four nonces at a time in
`finalize_suffix_batch4_x86_64`). Both give SHA3-512 of the header with that
nonce (`finalizeSuffixScalar_eq`, `finalizeSuffixBatch4_eq`).
-/

namespace Cryptex.Miner

/-! ## Little-endian words -/

def readU32Le (data : Bytes) : UInt32 :=
  (data.getD 0 0).toUInt32 ||| ((data.getD 1 0).toUInt32 <<< 8)
    ||| ((data.getD 2 0).toUInt32 <<< 16) ||| ((data.getD 3 0).toUInt32 <<< 24)

def readU64Le (data : Bytes) : UInt64 :=
  (List.range 8).foldl (fun value i =>
    value ||| ((data.getD i 0).toUInt64 <<< UInt64.ofNat (i * 8))) 0

/-- The four bytes that `set_header_nonce_le` and `write_u32_le` assign. -/
def u32LeBytes (value : UInt32) : Bytes :=
  [(value &&& 0xFF).toUInt8, ((value >>> 8) &&& 0xFF).toUInt8,
    ((value >>> 16) &&& 0xFF).toUInt8, ((value >>> 24) &&& 0xFF).toUInt8]

def writeU64LeBytes (value : UInt64) : Vector UInt8 8 := Vector.ofFn fun i =>
  ((value >>> UInt64.ofNat (i * 8)) &&& 0xFF).toUInt8

/-! ## Prefix and suffix -/

abbrev PowHashBytes := Vector UInt8 64

def preparePrefixState (headerTemplate : Vector UInt8 80) : Vector UInt64 25 :=
  keccakfScalarState (Vector.ofFn fun lane =>
    if lane.val < 9 then readU64Le (headerTemplate.toList.drop (lane * 8)) else 0)

/-- Bits and nonce as the word that follows the prefix. -/
def suffixWord (bits nonce : UInt32) : UInt64 := bits.toUInt64 ||| (nonce.toUInt64 <<< 32)

/-- The first eight lanes as the bytes of the hash. -/
def storeLanes (state : Vector UInt64 25) : PowHashBytes := Vector.ofFn fun k =>
  (writeU64LeBytes state[k.val / 8])[k.val % 8]

def finalizeSuffixScalar (prefixState : Vector UInt64 25) (bits nonce : UInt32) : PowHashBytes :=
  storeLanes (keccakfScalarState (addSuffix scalarOps prefixState (suffixWord bits nonce)))

def finalizeSuffixBatch4 (prefixState : Vector UInt64 25) (bits : UInt32)
    (nonces : Vector UInt32 4) : Vector PowHashBytes 4 :=
  let state := prefixState.map fun word => Vector.replicate 4 word
  let suffixWords := nonces.map (suffixWord bits)
  let state := keccakf4xAvx2 (addSuffix avx2Ops state suffixWords)
  Vector.ofFn fun candidate => storeLanes (state.map fun register => register.get candidate)

/-! ## Bits of the words -/

theorem toBitVec_shiftLeft (word : UInt64) {shift : Nat} (hshift : shift < 64) :
    (word <<< UInt64.ofNat shift).toBitVec = word.toBitVec <<< shift := by
  have hmod : (UInt64.ofNat shift).toBitVec.toNat % BitVec.toNat (64 : BitVec 64) = shift := by
    rw [UInt64.toNat_toBitVec, UInt64.toNat_ofNat']
    show shift % 2 ^ 64 % 64 = shift
    omega
  rw [UInt64.toBitVec_shiftLeft, BitVec.shiftLeft_eq', BitVec.toNat_umod, hmod]

theorem wordBit_zero (z : Fin 64) : wordBit 0 z = false := BitVec.getLsbD_zero

theorem wordBit_or (a b : UInt64) (z : Fin 64) :
    wordBit (a ||| b) z = (wordBit a z || wordBit b z) := by
  rw [wordBit, UInt64.toBitVec_or, BitVec.getLsbD_or]
  rfl

/-- A byte shifted to place `i` of a word. -/
theorem getLsbD_byte_shiftLeft {w : Nat} (byte : UInt8) (i : Nat) {j : Nat} (hj : j < w) :
    (byte.toBitVec.setWidth w <<< (i * 8)).getLsbD j
      = (decide (j / 8 = i) && byte.toBitVec.getLsbD (j % 8)) := by
  rw [BitVec.getLsbD_shiftLeft, BitVec.getLsbD_setWidth, decide_eq_true hj, Bool.true_and]
  by_cases hplace : j / 8 = i
  · rw [show j - i * 8 = j % 8 by omega, decide_eq_true hplace,
      decide_eq_false (show ¬ j < i * 8 by omega), decide_eq_true (show j % 8 < w by omega)]
    rfl
  · rw [decide_eq_false hplace, Bool.false_and]
    by_cases hlt : j < i * 8
    · rw [decide_eq_true hlt, Bool.not_true, Bool.false_and]
    · rw [BitVec.getLsbD_of_ge byte.toBitVec _ (by omega), Bool.and_false, Bool.and_false]

theorem wordBit_byte (byte : UInt8) {i : Nat} (hi : i < 8) (z : Fin 64) :
    wordBit (byte.toUInt64 <<< UInt64.ofNat (i * 8)) z
      = (decide (z.val / 8 = i) && byte.toBitVec.getLsbD (z % 8)) := by
  rw [wordBit, toBitVec_shiftLeft _ (by omega), UInt8.toBitVec_toUInt64,
    getLsbD_byte_shiftLeft _ _ z.isLt]

theorem wordBit_readU64Le (data : Bytes) (z : Fin 64) :
    wordBit (readU64Le data) z = (data.getD (z / 8) 0).toBitVec.getLsbD (z % 8) := by
  have hfold (places : List Nat) (hplaces : ∀ i ∈ places, i < 8) : ∀ value,
      wordBit (places.foldl (fun value i =>
        value ||| ((data.getD i 0).toUInt64 <<< UInt64.ofNat (i * 8))) value) z
        = (wordBit value z || (decide (z.val / 8 ∈ places)
            && (data.getD (z / 8) 0).toBitVec.getLsbD (z % 8))) := by
    induction places with
    | nil => simp
    | cons i places ih =>
        intro value
        rw [List.foldl_cons, ih fun i hi => hplaces i (List.mem_cons_of_mem _ hi), wordBit_or,
          wordBit_byte _ (hplaces i List.mem_cons_self), Bool.or_assoc]
        congr 1
        by_cases hi : z.val / 8 = i
        · subst hi
          simp
        · simp [hi]
  have hmem : z.val / 8 ∈ List.range 8 := List.mem_range.mpr (by omega)
  rw [readU64Le, hfold _ (fun i hi => List.mem_range.mp hi), decide_eq_true hmem, Bool.true_and,
    wordBit_zero, Bool.false_or]

theorem getLsbD_readU32Le (data : Bytes) {j : Nat} (hj : j < 32) :
    (readU32Le data).toBitVec.getLsbD j = (data.getD (j / 8) 0).toBitVec.getLsbD (j % 8) := by
  have hbytes : (readU32Le data).toBitVec
      = ((data.getD 0 0).toBitVec.setWidth 32 <<< (0 * 8))
        ||| ((data.getD 1 0).toBitVec.setWidth 32 <<< (1 * 8))
        ||| ((data.getD 2 0).toBitVec.setWidth 32 <<< (2 * 8))
        ||| ((data.getD 3 0).toBitVec.setWidth 32 <<< (3 * 8)) := by
    rw [Nat.zero_mul, BitVec.shiftLeft_zero]
    rfl
  have hplace : j / 8 = 0 ∨ j / 8 = 1 ∨ j / 8 = 2 ∨ j / 8 = 3 := by omega
  rw [hbytes]
  simp only [BitVec.getLsbD_or, getLsbD_byte_shiftLeft _ _ hj]
  rcases hplace with h | h | h | h <;> simp [h]

theorem getLsbD_u32LeBytes (value : UInt32) {i j : Nat} (hi : i < 4) (hj : j < 8) :
    ((u32LeBytes value).getD i 0).toBitVec.getLsbD j = value.toBitVec.getLsbD (8 * i + j) := by
  have hmask : (255#8).getLsbD j = true := by
    revert j
    decide
  have hplace : i = 0 ∨ i = 1 ∨ i = 2 ∨ i = 3 := by omega
  rcases hplace with rfl | rfl | rfl | rfl <;> simp [u32LeBytes, hj, hmask]

theorem getLsbD_writeU64LeBytes (value : UInt64) {i j : Nat} (hi : i < 8) (hj : j < 8) :
    (writeU64LeBytes value)[i].toBitVec.getLsbD j = value.toBitVec.getLsbD (8 * i + j) := by
  have hmask : (255#8).getLsbD j = true := by
    revert j
    decide
  have hmod : i * 8 % 18446744073709551616 % 64 = 8 * i := by omega
  simp [writeU64LeBytes, hj, hmask, hmod]

/-- The word after the prefix holds the last eight bytes of the header. -/
theorem wordBit_suffixWord (data : Bytes) (nonce : UInt32) (z : Fin 64)
    (hdata : 4 ≤ data.length) :
    wordBit (suffixWord (readU32Le data) nonce) z
      = ((data.take 4 ++ u32LeBytes nonce).getD (z / 8) 0).toBitVec.getLsbD (z % 8) := by
  have hz := z.isLt
  have hlen : (data.take 4).length = 4 := List.length_take_of_le hdata
  have hnonce : (nonce.toUInt64 <<< 32).toBitVec = nonce.toBitVec.setWidth 64 <<< 32 := rfl
  rw [suffixWord, wordBit_or, wordBit, wordBit, hnonce, UInt32.toBitVec_toUInt64,
    BitVec.getLsbD_setWidth, BitVec.getLsbD_shiftLeft, BitVec.getLsbD_setWidth,
    decide_eq_true hz, Bool.true_and, Bool.true_and, List.getD_eq_getElem?_getD]
  by_cases hlow : z.val < 32
  · rw [decide_eq_true hlow, Bool.not_true, Bool.false_and, Bool.or_false,
      getLsbD_readU32Le _ hlow, List.getElem?_append_left (by omega),
      List.getElem?_take_of_lt (by omega), List.getD_eq_getElem?_getD]
  · rw [BitVec.getLsbD_of_ge _ _ (Nat.not_lt.mp hlow), Bool.false_or,
      List.getElem?_append_right (by omega), hlen, ← List.getD_eq_getElem?_getD,
      getLsbD_u32LeBytes _ (by omega) (by omega), decide_eq_false hlow,
      decide_eq_true (show z.val - 32 < 64 by omega),
      show 8 * (z.val / 8 - 4) + z.val % 8 = z.val - 32 by omega]
    rfl

/-! ## The hash of a header -/

/-- What SHA3-512 adds to a message of 80 bytes: its two bits and the padding. -/
def trailer : List Bool := [false, true] ++ Keccak.pad 576 642

theorem length_trailer : trailer.length = 512 := by
  rw [trailer, List.length_append, Keccak.length_pad]
  rfl

theorem trailer_eq : trailer = [false, true, true] ++ List.replicate 508 false ++ [true] := rfl

/-- The bits that the miner adds to lanes 1 and 8. -/
theorem getD_trailer (k : Nat) :
    trailer.getD k false = decide (k = 1 ∨ k = 2 ∨ k = 511) := by
  have hlen : ([false, true, true] ++ List.replicate 508 false).length = 511 := by
    rw [List.length_append, List.length_replicate]
    rfl
  rw [trailer_eq, List.getD_eq_getElem?_getD]
  rcases Nat.lt_trichotomy k 511 with hlt | rfl | hgt
  · rw [List.getElem?_append_left (by omega)]
    match k with
    | 0 => rfl
    | 1 => rfl
    | 2 => rfl
    | k + 3 =>
        rw [decide_eq_false (by omega)]
        change ((List.replicate 508 false)[k]?).getD false = false
        rw [List.getElem?_replicate]
        split <;> rfl
  · rw [List.getElem?_append_right (by omega), hlen]
    rfl
  · rw [List.getElem?_eq_none (by rw [List.length_append, hlen]; exact hgt),
      decide_eq_false (by omega)]
    rfl

/-- The hash of 80 bytes, the first 72 of which are absorbed on their own. -/
theorem sha3_512_append {head suffix : Bytes} (hhead : head.length = 72)
    (hsuffix : suffix.length = 8) :
    Keccak.sha3_512 (head ++ suffix)
      = Keccak.bytesOf ((Keccak.stringOf (Keccak.keccakF
          ((Keccak.absorbed Keccak.keccakF 576 .zero (Keccak.bitsOf head)).xor
            (Keccak.arrayOf 64 (Keccak.bitsOf suffix ++ trailer))))).take 512) := by
  have hlen : (Keccak.bitsOf (head ++ suffix) ++ [false, true]).length = 642 := by
    rw [List.length_append, Keccak.length_bitsOf, List.length_append, hhead, hsuffix]
    rfl
  have hblock : (Keccak.bitsOf suffix ++ trailer).length = 576 := by
    rw [List.length_append, Keccak.length_bitsOf, hsuffix, length_trailer]
  have hdvd : 576 ∣ (Keccak.bitsOf head).length := by
    rw [Keccak.length_bitsOf, hhead]
  rw [Keccak.sha3_512, Keccak.sponge_permute (by omega) (by omega) (by omega), hlen,
    Keccak.bitsOf_append, List.append_assoc, List.append_assoc, ← trailer,
    Keccak.absorbed_append (by omega) hdvd, Keccak.absorbed_single (by omega) hblock]

/-- The state before the first permutation: nine lanes of the header. -/
theorem bits_headerLanes (headerTemplate : Vector UInt8 80) :
    bits wordBit (Vector.ofFn fun lane : Fin 25 =>
        if lane.val < 9 then readU64Le (headerTemplate.toList.drop (lane * 8)) else 0)
      = Keccak.arrayOf 64 (Keccak.bitsOf (headerTemplate.toList.take 72)) := by
  funext x y z
  have hz := z.isLt
  have hlt : 5 * y.val + x < 25 := by omega
  have hplace : 64 * (5 * y + x) + z.val = 8 * (8 * (5 * y + x) + z / 8) + z % 8 := by omega
  rw [bits_at _ x y z hlt rfl, Keccak.arrayOf, hplace,
    Keccak.getD_bitsOf _ _ (Nat.mod_lt _ (by omega)), Vector.getElem_ofFn,
    List.getD_eq_getElem?_getD]
  by_cases hhead : (5 * y + x : Nat) < 9
  · rw [if_pos hhead, wordBit_readU64Le, List.getD_eq_getElem?_getD, List.getElem?_drop,
      List.getElem?_take_of_lt (by omega), Nat.mul_comm _ 8]
  · rw [if_neg hhead, wordBit_zero, List.getElem?_eq_none]
    · exact BitVec.getLsbD_zero.symm
    · rw [List.length_take]
      omega

theorem bits_preparePrefixState (headerTemplate : Vector UInt8 80) :
    bits wordBit (preparePrefixState headerTemplate)
      = Keccak.absorbed Keccak.keccakF 576 .zero
          (Keccak.bitsOf (headerTemplate.toList.take 72)) := by
  have hlen : (Keccak.bitsOf (headerTemplate.toList.take 72)).length = 576 := by
    rw [Keccak.length_bitsOf, List.length_take, Vector.length_toList]
    rfl
  rw [preparePrefixState, keccakfScalarState, bits_keccakf scalarOps_implements,
    bits_headerLanes, Keccak.absorbed_single (by omega) hlen]
  congr 1
  funext x y z
  exact (Bool.false_xor _).symm

theorem getElem_addSuffix {ω : Type*} (ops : LaneOps ω) (prefixState : Vector ω 25) (word : ω)
    {lane : Nat} (hlane : lane < 25) :
    (addSuffix ops prefixState word)[lane]
      = if lane = 0 then ops.xor prefixState[0] word
        else if lane = 1 then ops.xor prefixState[1] (ops.const 0x06)
        else if lane = 8 then ops.xor prefixState[8] (ops.const ((1 : UInt64) <<< 63))
        else prefixState[lane] := by
  by_cases h0 : lane = 0
  · subst h0
    simp [addSuffix]
  · by_cases h1 : lane = 1
    · subst h1
      simp [addSuffix]
    · by_cases h8 : lane = 8
      · subst h8
        simp [addSuffix]
      · rw [if_neg h0, if_neg h1, if_neg h8, addSuffix, Vector.getElem_set_ne _ _ (Ne.symm h8),
          Vector.getElem_set_ne _ _ (Ne.symm h1), Vector.getElem_set_ne _ _ (Ne.symm h0)]

/-- Three lanes get the last block: the suffix, its two bits with the start of
the padding, and the end of the padding. -/
theorem bits_addSuffix {ω : Type*} {ops : LaneOps ω} {bit : ω → Fin 64 → Bool}
    (hops : ops.Implements bit) (prefixState : Vector ω 25) {word : ω} {suffix : Bytes}
    (hlen : suffix.length = 8) (hword : ∀ z : Fin 64,
      bit word z = (suffix.getD (z / 8) 0).toBitVec.getLsbD (z % 8)) :
    bits bit (addSuffix ops prefixState word)
      = (bits bit prefixState).xor (Keccak.arrayOf 64 (Keccak.bitsOf suffix ++ trailer)) := by
  have hsix : ∀ z : Fin 64,
      (0x06 : UInt64).toBitVec.getLsbD z = decide (z.val = 1 ∨ z.val = 2) := by
    decide
  have htop : ∀ z : Fin 64, ((1 : UInt64) <<< 63).toBitVec.getLsbD z = decide (z.val = 63) := by
    decide
  have hblock (lane : Nat) (z : Fin 64) :
      (Keccak.bitsOf suffix ++ trailer).getD (64 * lane + z) false
        = if lane = 0 then bit word z
          else decide (64 * (lane - 1) + z.val = 1 ∨ 64 * (lane - 1) + z.val = 2
            ∨ 64 * (lane - 1) + z.val = 511) := by
    have hz := z.isLt
    have hbits : (Keccak.bitsOf suffix).length = 64 := by rw [Keccak.length_bitsOf, hlen]
    rw [List.getD_eq_getElem?_getD]
    split
    next hzero =>
      subst hzero
      rw [List.getElem?_append_left (by omega), ← List.getD_eq_getElem?_getD, hword,
        ← Keccak.getD_bitsOf _ _ (Nat.mod_lt _ (by omega)), Nat.div_add_mod, Nat.mul_zero,
        Nat.zero_add]
    next hne =>
      rw [List.getElem?_append_right (by omega), ← List.getD_eq_getElem?_getD, getD_trailer,
        hbits, show 64 * lane + z.val - 64 = 64 * (lane - 1) + z by omega]
  have hadded {lane : Nat} (hlt : lane < 25) (z : Fin 64) :
      bit (addSuffix ops prefixState word)[lane] z
        = (bit prefixState[lane] z
          ^^ (Keccak.bitsOf suffix ++ trailer).getD (64 * lane + z) false) := by
    have hz := z.isLt
    rw [getElem_addSuffix ops prefixState word hlt, hblock]
    by_cases h0 : lane = 0
    · subst h0
      rw [if_pos rfl, if_pos rfl, hops.xor]
    · rw [if_neg h0, if_neg h0]
      by_cases h1 : lane = 1
      · subst h1
        rw [if_pos rfl, hops.xor, hops.const, hsix]
        congr 2
        apply propext
        omega
      · rw [if_neg h1]
        by_cases h8 : lane = 8
        · subst h8
          rw [if_pos rfl, hops.xor, hops.const, htop]
          congr 2
          apply propext
          omega
        · rw [if_neg h8, decide_eq_false (by omega), Bool.xor_false]
  funext x y z
  have hlt : 5 * y.val + x < 25 := by omega
  rw [Keccak.StateArray.xor, Keccak.arrayOf, bits_at _ x y z hlt rfl, bits_at _ x y z hlt rfl,
    hadded hlt]

/-- The first 512 bits of the state as bytes. -/
theorem bytesOf_bits (state : Vector UInt64 25) :
    Keccak.bytesOf ((Keccak.stringOf (bits wordBit state)).take 512)
      = (storeLanes state).toList := by
  have hlen : ((Keccak.stringOf (bits wordBit state)).take 512).length = 512 := by
    rw [List.length_take, Keccak.length_stringOf]
    rfl
  apply List.ext_getElem
  · rw [Keccak.bytesOf, List.length_map, List.length_range, hlen, Vector.length_toList]
  · intro k h₁ h₂
    have hk : k < 64 := by rwa [Vector.length_toList] at h₂
    apply UInt8.toBitVec_inj.mp
    apply BitVec.eq_of_getLsbD_eq
    intro j hj
    have hplace : 8 * k + j = 64 * (5 * (k / 8 / 5) + k / 8 % 5) + (8 * (k % 8) + j) := by omega
    have hstring := Keccak.getD_stringOf (bits wordBit state) ⟨k / 8 % 5, by omega⟩
      ⟨k / 8 / 5, by omega⟩ ⟨8 * (k % 8) + j, by omega⟩
    simp only [Keccak.bytesOf, List.getElem_map, List.getElem_range]
    rw [Keccak.getLsbD_byteAt _ _ hj, List.getD_eq_getElem?_getD,
      List.getElem?_take_of_lt (by omega), ← List.getD_eq_getElem?_getD, hplace]
    refine hstring.trans ?_
    rw [bits_at state _ _ _ (show k / 8 < 25 by omega) (Nat.div_add_mod _ 5),
      wordBit, Vector.getElem_toList]
    simp only [storeLanes, Vector.getElem_ofFn]
    rw [getLsbD_writeU64LeBytes _ (by omega) hj]

section Header

variable (headerTemplate : Vector UInt8 80)

/-- The bytes before the nonce are those of the prefix and the four that the
miner reads as the bits. -/
theorem take_header (nonce : UInt32) :
    headerTemplate.toList.take 72 ++ ((headerTemplate.toList.drop 72).take 4 ++ u32LeBytes nonce)
      = headerTemplate.toList.take 76 ++ u32LeBytes nonce := by
  rw [← List.append_assoc, ← List.take_add]

/-- KECCAK-f after the suffix gives the hash of the header with its nonce. -/
theorem sha3_512_header {ω : Type*} {ops : LaneOps ω} {bit : ω → Fin 64 → Bool}
    (hops : ops.Implements bit) {prefixState : Vector ω 25}
    (hstart : bits bit prefixState = bits wordBit (preparePrefixState headerTemplate))
    {word : ω} {nonce : UInt32}
    (hword : bit word = wordBit (suffixWord (readU32Le (headerTemplate.toList.drop 72)) nonce)) :
    Keccak.bytesOf ((Keccak.stringOf (bits bit (keccakf ops
        (addSuffix ops prefixState word)))).take 512)
      = Keccak.sha3_512 (headerTemplate.toList.take 76 ++ u32LeBytes nonce) := by
  have hhead : (headerTemplate.toList.take 72).length = 72 := by
    rw [List.length_take, Vector.length_toList]
    rfl
  have hdrop : (headerTemplate.toList.drop 72).length = 8 := by
    rw [List.length_drop, Vector.length_toList]
  have hsuffix : ((headerTemplate.toList.drop 72).take 4 ++ u32LeBytes nonce).length = 8 := by
    rw [List.length_append, List.length_take, hdrop]
    rfl
  have hbit (z : Fin 64) : bit word z
      = (((headerTemplate.toList.drop 72).take 4 ++ u32LeBytes nonce).getD (z / 8) 0
        ).toBitVec.getLsbD (z % 8) := by
    rw [hword, wordBit_suffixWord _ _ _ (by omega)]
  rw [← take_header, sha3_512_append hhead hsuffix, bits_keccakf hops,
    bits_addSuffix hops _ hsuffix hbit, hstart, bits_preparePrefixState]

theorem finalizeSuffixScalar_eq (nonce : UInt32) :
    (finalizeSuffixScalar (preparePrefixState headerTemplate)
        (readU32Le (headerTemplate.toList.drop 72)) nonce).toList
      = Keccak.sha3_512 (headerTemplate.toList.take 76 ++ u32LeBytes nonce) := by
  rw [finalizeSuffixScalar, ← bytesOf_bits, keccakfScalarState]
  exact sha3_512_header headerTemplate scalarOps_implements rfl rfl

/-- Each word of the registers hashes the header with a nonce of its own. -/
theorem finalizeSuffixBatch4_eq (nonces : Vector UInt32 4) {i : Nat} (hi : i < 4) :
    (finalizeSuffixBatch4 (preparePrefixState headerTemplate)
        (readU32Le (headerTemplate.toList.drop 72)) nonces)[i].toList
      = Keccak.sha3_512 (headerTemplate.toList.take 76 ++ u32LeBytes nonces[i]) := by
  have hword (state : Vector M256i 25) :
      bits wordBit (state.map fun register => register.get ⟨i, hi⟩)
        = bits (registerBit ⟨i, hi⟩) state := by
    funext x y z
    simp only [bits, Fin.getElem_fin, Vector.getElem_map, registerBit]
    rfl
  have hspread (state : Vector UInt64 25) :
      bits (registerBit ⟨i, hi⟩) (state.map fun word => Vector.replicate 4 word)
        = bits wordBit state := by
    funext x y z
    simp only [bits, Fin.getElem_fin, Vector.getElem_map, registerBit, Vector.getElem_replicate]
  have hnonce (bits : UInt32) : registerBit ⟨i, hi⟩ (nonces.map (suffixWord bits))
      = wordBit (suffixWord bits nonces[i]) := by
    funext z
    simp only [registerBit, Fin.getElem_fin, Vector.getElem_map]
  simp only [finalizeSuffixBatch4, Vector.getElem_ofFn]
  rw [← bytesOf_bits]
  exact (congrArg (fun A => Keccak.bytesOf ((Keccak.stringOf A).take 512)) (hword _)).trans
    (sha3_512_header headerTemplate (avx2Ops_implements ⟨i, hi⟩) (hspread _) (hnonce _))

end Header

end Cryptex.Miner
