import Cryptex.CompactTargets
import Cryptex.Miner.NonceSearch

/-!
# The miner searches the consensus hash

For a header with usable bits, a worker job finds what the search with the
library's hasher finds, with AVX2 or without, and that is the first nonce of
its sequence with which a block passes `Block::check_pow`
(`runWorkerJobX86_64_eq_scalar`). The library's SHA3-512 is the one assumption:
it has to be the function of FIPS 202.
-/

namespace Cryptex.Miner

/-- The library's SHA3-512 is that of the standard, byte for byte. -/
def FollowsFips (c : Crypto) : Prop :=
  ∀ data, (hashBytes (c.sha3_512 data).toNat).toList = Keccak.sha3_512 data

/-- The job that the miner makes of a header: `compact_target::expand` is
written to the target. -/
def PowWorkerJob.ofHeader (header : BlockHeader) (startNonce nonceStep : UInt32)
    (maxIterations : UInt64) : PowWorkerJob where
  header := serializeHeaderFast header
  target := hashBytes (CompactTarget.mk header.bits).expand
  startNonce := startNonce
  nonceStep := nonceStep
  maxIterations := maxIterations

/-- The same job without the x86-64 code: the hasher gets the 76 bytes before
the nonce once. -/
def searchJob (c : Crypto) (fuel : Nat) (job : PowWorkerJob) : Option NonceSearchResult :=
  runNonceSearchScalar c job.target (Sha3_512Hasher.update {} (job.header.toList.take 76))
    job.nonceStep job.maxIterations fuel job.header job.startNonce

section Job

variable {c : Crypto} {p : ChainParams} (header : BlockHeader)

/-- A block of the job with one of its nonces. -/
def withNonce (header : BlockHeader) (transactions : Vec Transaction) (nonce : UInt32) : Block :=
  ⟨{ header with nonce := nonce }, transactions⟩

/-- The hash of the header with a nonce, as the job has it. -/
def headerHash (c : Crypto) (header : BlockHeader) (nonce : UInt32) : PowHashBytes :=
  hashBytes ({ header with nonce := nonce }.powHash c).toNat

/-- The bytes before the nonce and the nonce are those of the header. -/
theorem nonceBytes (nonce : UInt32) :
    (serializeHeaderFast header).toList.take 76 ++ u32LeBytes nonce
      = { header with nonce := nonce }.serialize := by
  rw [toList_serializeHeaderFast, take_serialize]

theorem finalize_nonce (nonce : UInt32) :
    ((Sha3_512Hasher.update {} ((serializeHeaderFast header).toList.take 76)).update
      (u32LeBytes nonce)).finalize c = headerHash c header nonce := by
  rw [Sha3_512Hasher.finalize, Sha3_512Hasher.update, Sha3_512Hasher.update, List.nil_append,
    nonceBytes]
  rfl

/-- The miner's hash is the library's. -/
theorem finalizeSuffixScalar_header (hfips : FollowsFips c) (nonce : UInt32) :
    finalizeSuffixScalar (preparePrefixState (serializeHeaderFast header))
        (readU32Le ((serializeHeaderFast header).toList.drop 72)) nonce
      = headerHash c header nonce := by
  apply Vector.toList_inj.mp
  rw [finalizeSuffixScalar_eq, nonceBytes, headerHash, BlockHeader.powHash, hfips]

theorem finalizeSuffixBatch4_header (hfips : FollowsFips c) (nonces : Vector UInt32 4)
    {i : Nat} (hi : i < 4) :
    (finalizeSuffixBatch4 (preparePrefixState (serializeHeaderFast header))
        (readU32Le ((serializeHeaderFast header).toList.drop 72)) nonces)[i]
      = headerHash c header nonces[i] := by
  apply Vector.toList_inj.mp
  rw [finalizeSuffixBatch4_eq _ _ hi, nonceBytes, headerHash, BlockHeader.powHash, hfips]

/-- A hash is held against the target as the consensus rule does it. -/
theorem meets_eq_checkPow {target : Nat} (hbits : powTargetValid p header.bits = some target)
    (transactions : Vec Transaction) (start step : UInt32) (k : Nat) :
    meets (headerHash c header) (hashBytes (CompactTarget.mk header.bits).expand) start step k
      = (withNonce header transactions (candidate start step k)).checkPow c p := by
  have hvalid : (CompactTarget.mk header.bits).overflows 64 = false
      ∧ (CompactTarget.mk header.bits).expand = target := by
    rw [powTargetValid] at hbits
    split at hbits
    · cases hbits
    · next hfits =>
        split at hbits
        · cases hbits
        · split at hbits
          · cases hbits
          · simp only [Bool.or_eq_true, not_or, Bool.not_eq_true] at hfits
            exact ⟨hfits.2, Option.some.inj hbits⟩
  obtain ⟨hfits, rfl⟩ := hvalid
  have hcheck : (withNonce header transactions (candidate start step k)).checkPow c p
      = decide (({ header with nonce := candidate start step k }.powHash c).toNat
          ≤ (CompactTarget.mk header.bits).expand) := by
    simp only [Block.checkPow, withNonce, hbits]
    rfl
  rw [hcheck, meets, headerHash]
  generalize { header with nonce := candidate start step k }.powHash c = hash
  exact hashBytes_meets hash (CompactTarget.expand_lt hfits)

/-- A worker job reports what the search with the library's hasher reports. A
nonce it finds is the first one of its sequence that passes the consensus
check, and it finds one when there is one within its limit. -/
theorem runWorkerJobX86_64_eq_scalar (hfips : FollowsFips c) {target : Nat}
    (hbits : powTargetValid p header.bits = some target) (transactions : Vec Transaction)
    (useAvx2 : Bool) (start step : UInt32) {maxIterations : UInt64} (hmax : maxIterations ≠ 0)
    {fuel : Nat} (hfuel : maxIterations.toNat < fuel) :
    ∃ result, searchJob c fuel (.ofHeader header start step maxIterations) = some result ∧
      runWorkerJobX86_64 fuel useAvx2 (.ofHeader header start step maxIterations)
        = some ⟨result.found, result.nonce, result.iterations, result.hash⟩ ∧
      (result.found = true ↔ ∃ k < maxIterations.toNat,
        (withNonce header transactions (start + UInt32.ofNat k * step)).checkPow c p = true) ∧
      (result.found = true → ∃ k < maxIterations.toNat,
        result.nonce = start + UInt32.ofNat k * step ∧ result.iterations.toNat = k + 1 ∧
        (withNonce header transactions (start + UInt32.ofNat k * step)).checkPow c p = true ∧
        ∀ j < k, (withNonce header transactions (start + UInt32.ofNat j * step)).checkPow c p
          = false) := by
  have hmeets (k : Nat) := meets_eq_checkPow (c := c) header hbits transactions start step k
  have hnone : ∀ j < 0, meets (headerHash c header)
      (hashBytes (CompactTarget.mk header.bits).expand) start step j = false :=
    fun j hj => absurd hj j.not_lt_zero
  have hscalar := scalarLoop_eq hmax (finalize_nonce header) (serializeHeaderFast header)
    (Nat.zero_le maxIterations.toNat) hfuel hnone
  have hworker := chunkLoop_eq (.ofHeader header start step maxIterations) hmax
    (finalizeSuffixScalar_header header hfips) (finalizeSuffixBatch4_header header hfips) useAvx2
    hfuel (Nat.zero_le _) hfuel hnone
  rw [candidate_zero] at hscalar hworker
  refine ⟨_, hscalar, hworker, ?_⟩
  rcases outcome_cases (headerHash c header) (hashBytes (CompactTarget.mk header.bits).expand)
    start step maxIterations.toNat with ⟨k, hk, hhit, hbefore, houtcome⟩ | ⟨hmissed, houtcome⟩
  · rw [houtcome]
    refine ⟨⟨fun _ => ⟨k, hk, (hmeets k).symm.trans hhit⟩, fun _ => rfl⟩, fun _ => ?_⟩
    refine ⟨k, hk, rfl, ?_, (hmeets k).symm.trans hhit, fun j hj => ?_⟩
    · show (UInt64.ofNat (k + 1)).toNat = k + 1
      have := maxIterations.toNat_lt
      rw [UInt64.toNat_ofNat', Nat.mod_eq_of_lt (by omega)]
    · exact (hmeets j).symm.trans (hbefore j hj)
  · rw [houtcome, found_missed]
    refine ⟨⟨fun h => absurd h Bool.false_ne_true, ?_⟩, fun h => absurd h Bool.false_ne_true⟩
    rintro ⟨k, hk, hpow⟩
    exact absurd (((hmeets k).trans hpow).symm.trans (hmissed k hk)) Bool.true_eq_false.mp

end Job

/-- A library whose SHA3-512 is the function of the standard. -/
def fipsCrypto : Crypto where
  sha3_512 data := BitVec.ofNat 512 (fromBytes (Keccak.sha3_512 data))
  verifySignature _ _ _ := false
  pubkeyToAddress pubkey := pubkey
  addressesEqual a b := a = b

theorem toNat_ofNat_bytes {w n x : Nat} (hw : w = 8 * n) (hx : x < 256 ^ n) :
    (BitVec.ofNat w x).toNat = x := by
  subst hw
  rw [show (256 : Nat) = 2 ^ 8 from rfl, ← Nat.pow_mul] at hx
  rw [BitVec.toNat_ofNat, Nat.mod_eq_of_lt hx]

theorem followsFips_fipsCrypto : FollowsFips fipsCrypto := by
  intro data
  have hlen := Keccak.length_sha3_512 data
  have hlt := fromBytes_lt (Keccak.sha3_512 data)
  have hround := toPaddedBytes_fromBytes (Keccak.sha3_512 data)
  rw [hlen] at hlt hround
  have hvalue : (fipsCrypto.sha3_512 data).toNat = fromBytes (Keccak.sha3_512 data) :=
    toNat_ofNat_bytes (show 512 = 8 * 64 from rfl) hlt
  rw [hvalue, hashBytes, Vector.toList_mk, List.toList_toArray, hround]

/-- Two nonces of a header with the bits of the regtest limit. -/
theorem runWorkerJobX86_64_eq_scalar_two :
    let header : BlockHeader := { bits := 0x407fffff }
    let job := PowWorkerJob.ofHeader header 7 1 2
    ∃ result, searchJob fipsCrypto 3 job = some result ∧
      runWorkerJobX86_64 3 true job
        = some ⟨result.found, result.nonce, result.iterations, result.hash⟩ ∧
      (result.found = true ↔ ∃ k < (2 : UInt64).toNat,
        (withNonce header ⟨[], by decide⟩ (7 + UInt32.ofNat k * 1)).checkPow fipsCrypto .regtest
          = true) := by
  have h := runWorkerJobX86_64_eq_scalar (p := .regtest) { bits := 0x407fffff }
    followsFips_fipsCrypto
    (show powTargetValid .regtest 0x407fffff = some (CompactTarget.mk 0x407fffff).expand by
      decide)
    ⟨[], by decide⟩ true 7 1 (show (2 : UInt64) ≠ 0 by decide)
    (show (2 : UInt64).toNat < 3 by decide)
  obtain ⟨result, hscalar, hworker, hfound, -⟩ := h
  exact ⟨result, hscalar, hworker, hfound⟩

end Cryptex.Miner
