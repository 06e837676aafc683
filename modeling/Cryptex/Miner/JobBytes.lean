import Cryptex.Block
import Cryptex.Miner.SuffixHash

/-!
# Headers, targets and hashes of a mining job

A mining job is bytes: the 80 bytes of a header (`serialize_header_fast`)
whose last four are assigned for each nonce, and the 64 bytes of a target.
A hash is held against the target by the order of its bytes, by `memcmp` or in
two chunks of 32 bytes (`hash_meets_target_avx2`); both compare the hash and
the target as numbers, as `Block::check_pow` does.
-/

namespace Cryptex.Miner

/-! ## Headers -/

/-- `memcpy` to an offset of a buffer. -/
def overwrite {n : Nat} (buffer : Vector UInt8 n) (offset : Nat) (data : Bytes) :
    Vector UInt8 n := Vector.ofFn fun i =>
  if offset ≤ i then (data[i - offset]?).getD buffer[i] else buffer[i]

def writeU32Le (buffer : Vector UInt8 80) (offset : Nat) (value : UInt32) : Vector UInt8 80 :=
  overwrite buffer offset (u32LeBytes value)

def setHeaderNonceLe (header : Vector UInt8 80) (nonce : UInt32) : Vector UInt8 80 :=
  overwrite header 76 (u32LeBytes nonce)

def serializeHeaderFast (header : BlockHeader) : Vector UInt8 80 :=
  let buffer := Vector.replicate 80 0
  let buffer := writeU32Le buffer 0 header.version.toUInt32
  let buffer := overwrite buffer 4 header.prevBlockHash.toBytes
  let buffer := overwrite buffer 36 header.merkleRoot.toBytes
  let buffer := writeU32Le buffer 68 header.timestamp
  let buffer := writeU32Le buffer 72 header.bits
  writeU32Le buffer 76 header.nonce

/-- A write inside the buffer, and what is before it. -/
theorem take_overwrite {n : Nat} (buffer : Vector UInt8 n) {offset : Nat} {data : Bytes}
    (hfits : offset + data.length ≤ n) :
    (overwrite buffer offset data).toList.take (offset + data.length)
      = buffer.toList.take offset ++ data := by
  have hbefore : (buffer.toList.take offset).length = offset := by
    rw [List.length_take, Vector.length_toList]
    omega
  apply List.ext_getElem
  · rw [List.length_take, Vector.length_toList, List.length_append, hbefore]
    omega
  · intro i h₁ h₂
    have hi : i < offset + data.length := by
      rwa [List.length_append, hbefore] at h₂
    simp only [List.getElem_take, Vector.getElem_toList, overwrite, Vector.getElem_ofFn]
    by_cases hle : offset ≤ i
    · rw [if_pos hle, List.getElem_append_right (by omega), List.getElem?_eq_getElem (by omega)]
      simp only [hbefore, Option.getD_some]
    · rw [if_neg hle, List.getElem_append_left (by omega), List.getElem_take,
        Vector.getElem_toList]
      rfl

theorem length_u32LeBytes (value : UInt32) : (u32LeBytes value).length = 4 := rfl

/-- The bytes assigned are those of the serialised integer. -/
theorem u32LeBytes_eq (value : UInt32) : u32LeBytes value = writeU32 value := by
  have hbyte (n : Nat) (hn : n < 32) : ((value >>> UInt32.ofNat n) &&& 0xFF).toUInt8
      = UInt8.ofNat (value.toNat / 2 ^ n) := by
    apply UInt8.toNat_inj.mp
    rw [UInt32.toNat_toUInt8, UInt32.toNat_and, UInt32.toNat_shiftRight, UInt32.toNat_ofNat',
      UInt8.toNat_ofNat', Nat.mod_eq_of_lt (show n < 2 ^ 32 by omega), Nat.mod_eq_of_lt hn,
      Nat.shiftRight_eq_div_pow]
    exact (congrArg (· % 2 ^ 8) (Nat.and_two_pow_sub_one_eq_mod (value.toNat / 2 ^ n) 8)).trans
      (Nat.mod_mod _ _)
  have hlow : (value &&& 0xFF).toUInt8 = UInt8.ofNat value.toNat := by
    have h := hbyte 0 (by omega)
    rwa [pow_zero, Nat.div_one, show UInt32.ofNat 0 = 0 from rfl, UInt32.shiftRight_zero] at h
  rw [writeU32, writeInt, writeInt, writeInt, writeInt, writeInt, Nat.div_div_eq_div_mul,
    Nat.div_div_eq_div_mul]
  exact congrArg₂ List.cons hlow (congrArg₂ List.cons (hbyte 8 (by omega))
    (congrArg₂ List.cons (hbyte 16 (by omega)) (congrArg₂ List.cons (hbyte 24 (by omega)) rfl)))

/-- The fast form of a header is its serialisation. -/
theorem toList_serializeHeaderFast (header : BlockHeader) :
    (serializeHeaderFast header).toList = header.serialize := by
  have hprev := Hash256.length_toBytes header.prevBlockHash
  have hroot := Hash256.length_toBytes header.merkleRoot
  have hwrite {n : Nat} (buffer : Vector UInt8 n) {offset stop : Nat} {data : Bytes}
      (hstop : offset + data.length = stop) (hfits : stop ≤ n) :
      (overwrite buffer offset data).toList.take stop = buffer.toList.take offset ++ data := by
    subst hstop
    exact take_overwrite buffer hfits
  have hwhole : (serializeHeaderFast header).toList
      = (serializeHeaderFast header).toList.take 80 :=
    (List.take_of_length_le (by rw [Vector.length_toList])).symm
  rw [hwhole, serializeHeaderFast, writeU32Le, writeU32Le, writeU32Le, writeU32Le,
    hwrite _ (by rw [length_u32LeBytes]) le_rfl,
    hwrite _ (by rw [length_u32LeBytes]) (by omega),
    hwrite _ (by rw [length_u32LeBytes]) (by omega),
    hwrite _ (by rw [hroot]) (by omega),
    hwrite _ (by rw [hprev]) (by omega),
    hwrite _ (by rw [length_u32LeBytes]) (by omega), List.take_zero, List.nil_append]
  simp only [u32LeBytes_eq, BlockHeader.serialize, writeI32]

/-- A header with its nonce assigned is that of the nonce. -/
theorem toList_setHeaderNonceLe (header : Vector UInt8 80) (nonce : UInt32) :
    (setHeaderNonceLe header nonce).toList = header.toList.take 76 ++ u32LeBytes nonce := by
  have hwrite := take_overwrite header (show 76 + (u32LeBytes nonce).length ≤ 80 from le_rfl)
  rwa [List.take_of_length_le (by rw [Vector.length_toList, length_u32LeBytes])] at hwrite

/-- Everything before the nonce is the same for all headers of a job. -/
theorem take_serialize (header : BlockHeader) (nonce : UInt32) :
    header.serialize.take 76 ++ u32LeBytes nonce
      = { header with nonce := nonce }.serialize := by
  have hlen : (writeI32 header.version ++ header.prevBlockHash.toBytes
      ++ header.merkleRoot.toBytes ++ writeU32 header.timestamp
      ++ writeU32 header.bits).length = 76 := by
    simp [writeI32, writeU32]
  rw [BlockHeader.serialize, List.take_append_of_le_length hlen.ge,
    List.take_of_length_le hlen.le, u32LeBytes_eq]
  rfl

/-! ## Hashes and targets -/

/-- The digest, or a target, as the 64 bytes of a job. -/
def hashBytes (value : Nat) : PowHashBytes :=
  ⟨(toPaddedBytes 64 value).toArray, by rw [List.size_toArray, length_toPaddedBytes]⟩

/-- `std::memcmp`. -/
def memcmp : Bytes → Bytes → Ordering
  | a :: as, b :: bs => (compare a b).then (memcmp as bs)
  | _, _ => .eq

def hashMeetsTargetScalar (hash target : PowHashBytes) : Bool :=
  (memcmp hash.toList target.toList).isLE

/-- `_mm256_movemask_epi8` of the comparison of two chunks: a bit for each
byte, set where they agree. -/
def equalMask (hash target : PowHashBytes) (offset : Nat) : BitVec 32 :=
  (BitVec.ofBoolListLE ((List.range 32).map fun i =>
    hash.toList.getD (offset + i) 0 == target.toList.getD (offset + i) 0)).setWidth 32

/-- `__builtin_ctz`. -/
def ctz (diff : BitVec 32) : Nat := ((List.range 32).find? diff.getLsbD).getD 32

def chunksMeetTarget (hash target : PowHashBytes) : List Nat → Bool
  | [] => true
  | offset :: offsets =>
      let mask := equalMask hash target offset
      if mask ≠ 0xFFFFFFFF then
        let lane := ctz (~~~mask)
        hash.toList.getD (offset + lane) 0 < target.toList.getD (offset + lane) 0
      else chunksMeetTarget hash target offsets

def hashMeetsTargetAvx2 (hash target : PowHashBytes) : Bool :=
  chunksMeetTarget hash target [0, 32]

def hashMeetsTargetX86_64 (hash target : PowHashBytes) (useAvx2 : Bool) : Bool :=
  if useAvx2 then hashMeetsTargetAvx2 hash target else hashMeetsTargetScalar hash target

theorem compare_of_lt {a b : UInt8} (h : a < b) : compare a b = .lt := by
  show compareOfLessAndEq a b = .lt
  rw [compareOfLessAndEq, if_pos h]

theorem compare_of_gt {a b : UInt8} (h : b < a) : compare a b = .gt := by
  show compareOfLessAndEq a b = .gt
  rw [compareOfLessAndEq, if_neg (UInt8.lt_asymm h), if_neg (UInt8.ne_of_lt h).symm]

theorem compare_same (a : UInt8) : compare a a = .eq := by
  show compareOfLessAndEq a a = .eq
  rw [compareOfLessAndEq, if_neg (UInt8.lt_irrefl a), if_pos rfl]

theorem memcmp_cons_same (a : UInt8) (as bs : Bytes) :
    memcmp (a :: as) (a :: bs) = memcmp as bs := by
  rw [memcmp, compare_same]
  rfl

theorem memcmp_self (as : Bytes) : memcmp as as = .eq := by
  induction as with
  | nil => rfl
  | cons a as ih => rw [memcmp_cons_same, ih]

/-- The first bytes decide when they differ. -/
theorem memcmp_cons_isLE {a b : UInt8} (hne : a ≠ b) (as bs : Bytes) :
    (memcmp (a :: as) (b :: bs)).isLE = decide (a < b) := by
  rcases UInt8.lt_or_lt_of_ne hne with h | h
  · rw [memcmp, compare_of_lt h, decide_eq_true h]
    rfl
  · rw [memcmp, compare_of_gt h, decide_eq_false (UInt8.lt_asymm h)]
    rfl

/-- Byte strings of one length compare as the numbers they write. -/
theorem memcmp_isLE : ∀ {as bs : Bytes}, as.length = bs.length →
    (memcmp as bs).isLE = decide (fromBytes as ≤ fromBytes bs)
  | [], [], _ => rfl
  | a :: as, b :: bs, h => by
      have hlen : as.length = bs.length := by simpa using h
      by_cases hab : a = b
      · subst hab
        rw [memcmp_cons_same, memcmp_isLE hlen, fromBytes_cons, fromBytes_cons, hlen]
        simp only [Nat.add_le_add_iff_left]
      · have ha := fromBytes_lt as
        have hb := fromBytes_lt bs
        rw [hlen] at ha
        rw [memcmp_cons_isLE hab, fromBytes_cons, fromBytes_cons, hlen]
        -- a difference of one byte outweighs all the bytes after it
        have hweigh {x y u v : Nat} (hxy : x < y) (hu : u < 256 ^ bs.length) :
            x * 256 ^ bs.length + u < y * 256 ^ bs.length + v := by
          have := Nat.mul_le_mul_right (256 ^ bs.length) (Nat.succ_le_of_lt hxy)
          rw [Nat.succ_mul] at this
          omega
        rcases UInt8.lt_or_lt_of_ne hab with h | h
        · rw [decide_eq_true h, decide_eq_true (hweigh (UInt8.lt_iff_toNat_lt.mp h) ha).le]
        · rw [decide_eq_false (UInt8.lt_asymm h),
            decide_eq_false (Nat.not_le.mpr (hweigh (UInt8.lt_iff_toNat_lt.mp h) hb))]

/-- The order is decided by the first byte that differs. -/
theorem memcmp_of_getD_ne : ∀ {i : Nat} {as bs : Bytes},
    i < as.length → as.length = bs.length →
    (∀ j < i, as.getD j 0 = bs.getD j 0) → as.getD i 0 ≠ bs.getD i 0 →
      (memcmp as bs).isLE = decide (as.getD i 0 < bs.getD i 0)
  | 0, a :: as, b :: bs, _, _, _, hne => memcmp_cons_isLE hne as bs
  | i + 1, a :: as, b :: bs, hi, hlen, hsame, hne => by
      obtain rfl : a = b := hsame 0 (Nat.succ_pos i)
      rw [memcmp_cons_same]
      exact memcmp_of_getD_ne (Nat.lt_of_succ_lt_succ hi) (Nat.succ.inj hlen)
        (fun j hj => hsame (j + 1) (Nat.succ_lt_succ hj)) hne

theorem getLsbD_equalMask (hash target : PowHashBytes) (offset : Nat) {i : Nat} (hi : i < 32) :
    (equalMask hash target offset).getLsbD i
      = (hash.toList.getD (offset + i) 0 == target.toList.getD (offset + i) 0) := by
  rw [equalMask, BitVec.getLsbD_setWidth, decide_eq_true hi, Bool.true_and,
    BitVec.getLsbD_ofBoolListLE, List.getD_eq_getElem?_getD, List.getElem?_map,
    List.getElem?_range hi]
  rfl

/-- The lowest set bit is found when there is one. -/
theorem ctz_spec {diff : BitVec 32} (hne : diff ≠ 0) :
    ctz diff < 32 ∧ diff.getLsbD (ctz diff) = true ∧ ∀ j < ctz diff, diff.getLsbD j = false := by
  cases hfind : (List.range 32).find? diff.getLsbD with
  | none =>
      refine absurd (BitVec.eq_of_getLsbD_eq fun i hi => ?_) hne
      show diff.getLsbD i = (0#32).getLsbD i
      rw [BitVec.getLsbD_zero]
      exact Bool.eq_false_iff.mpr (List.find?_eq_none.mp hfind i (List.mem_range.mpr hi))
  | some i =>
      obtain ⟨hbit, hi, hbefore⟩ := List.find?_range_eq_some.mp hfind
      rw [ctz, hfind, Option.getD_some]
      exact ⟨List.mem_range.mp hi, hbit, fun j hj => by simpa using hbefore j hj⟩

/-- One chunk: where its bytes agree the order is that of what follows, and
where they do not the first of them that differs decides. -/
theorem chunksMeetTarget_cons (hash target : PowHashBytes) {offset : Nat} (hoffset : offset ≤ 32)
    (hsame : ∀ j < offset, hash.toList.getD j 0 = target.toList.getD j 0) (offsets : List Nat) :
    (chunksMeetTarget hash target (offset :: offsets) = hashMeetsTargetScalar hash target) ∨
      ((∀ j < offset + 32, hash.toList.getD j 0 = target.toList.getD j 0) ∧
        chunksMeetTarget hash target (offset :: offsets)
          = chunksMeetTarget hash target offsets) := by
  by_cases hmask : equalMask hash target offset = 0xFFFFFFFF
  · right
    refine ⟨fun j hj => ?_, ?_⟩
    · by_cases hlt : j < offset
      · exact hsame j hlt
      · have hbit := getLsbD_equalMask hash target offset (show j - offset < 32 by omega)
        have hones : ∀ i < 32, (0xFFFFFFFF : BitVec 32).getLsbD i = true := by decide
        rw [hmask, hones _ (by omega), Nat.add_sub_cancel' (Nat.not_lt.mp hlt)] at hbit
        exact eq_of_beq hbit.symm
    · simp only [chunksMeetTarget, hmask, ne_eq, not_true_eq_false, if_false]
  · left
    have hne : ~~~(equalMask hash target offset) ≠ 0 := by
      intro hzero
      apply hmask
      calc equalMask hash target offset
          = ~~~(~~~(equalMask hash target offset)) := BitVec.not_not.symm
        _ = ~~~0 := by rw [hzero]
        _ = 0xFFFFFFFF := rfl
    obtain ⟨hlane, hdiff, hbefore⟩ := ctz_spec hne
    simp only [chunksMeetTarget, ne_eq, hmask, not_false_eq_true, if_true]
    generalize ctz (~~~(equalMask hash target offset)) = lane at *
    rw [BitVec.getLsbD_not, decide_eq_true hlane, Bool.true_and, getLsbD_equalMask _ _ _ hlane]
      at hdiff
    rw [hashMeetsTargetScalar, memcmp_of_getD_ne (i := offset + lane)]
    · rw [Vector.length_toList]
      omega
    · rw [Vector.length_toList, Vector.length_toList]
    · intro j hj
      by_cases hlt : j < offset
      · exact hsame j hlt
      · have hbit := hbefore (j - offset) (by omega)
        rw [BitVec.getLsbD_not, decide_eq_true (by omega), Bool.true_and,
          getLsbD_equalMask _ _ _ (by omega), Nat.add_sub_cancel' (Nat.not_lt.mp hlt)] at hbit
        simpa using hbit
    · simpa using hdiff

/-- Both comparisons give the same answer. -/
theorem hashMeetsTargetAvx2_eq (hash target : PowHashBytes) :
    hashMeetsTargetAvx2 hash target = hashMeetsTargetScalar hash target := by
  rw [hashMeetsTargetAvx2]
  rcases chunksMeetTarget_cons hash target (Nat.zero_le 32) (fun j hj => absurd hj j.not_lt_zero)
    [32] with hfirst | ⟨hsame, hfirst⟩
  · exact hfirst
  · rw [hfirst]
    rcases chunksMeetTarget_cons hash target le_rfl hsame [] with hsecond | ⟨hall, hsecond⟩
    · exact hsecond
    · -- all 64 bytes agree
      have heq : hash.toList = target.toList := by
        apply List.ext_getElem
        · rw [Vector.length_toList, Vector.length_toList]
        · intro i h₁ h₂
          have hi : i < 64 := by rwa [Vector.length_toList] at h₁
          have h := hall i hi
          rwa [List.getD_eq_getElem?_getD, List.getD_eq_getElem?_getD,
            List.getElem?_eq_getElem h₁, List.getElem?_eq_getElem h₂] at h
      rw [hsecond, hashMeetsTargetScalar, heq, memcmp_self]
      rfl

theorem hashMeetsTargetX86_64_eq (hash target : PowHashBytes) (useAvx2 : Bool) :
    hashMeetsTargetX86_64 hash target useAvx2 = hashMeetsTargetScalar hash target := by
  rw [hashMeetsTargetX86_64, hashMeetsTargetAvx2_eq, ite_self]

/-- A digest meets a target when it is no larger a number. -/
theorem hashBytes_meets (hash : Hash512) {target : Nat} (htarget : target < 2 ^ 512) :
    hashMeetsTargetScalar (hashBytes hash.toNat) (hashBytes target)
      = decide (hash.toNat ≤ target) := by
  have hwidth : (2 : Nat) ^ 512 = 256 ^ 64 := by
    rw [show (256 : Nat) = 2 ^ 8 from rfl, ← Nat.pow_mul]
  rw [hwidth] at htarget
  rw [hashMeetsTargetScalar, hashBytes, hashBytes, Vector.toList_mk, Vector.toList_mk,
    List.toList_toArray, List.toList_toArray,
    memcmp_isLE (by rw [length_toPaddedBytes, length_toPaddedBytes]),
    fromBytes_toPaddedBytes (toNat_lt_bytes hash (show 512 = 8 * 64 from rfl)),
    fromBytes_toPaddedBytes htarget]

end Cryptex.Miner
