import Cryptex.Blockchain

/-!
# The dry run

`diagnose_tip_candidate`: a block is held against the tip without being
accepted. It is a validator of its own, written next to
`validated_prefix_length`, with a scratch UTXO set and a report for every
way to fail.
-/

namespace Cryptex

/-- `to_hex`: 64 digits. -/
def Hash256.toHex (h : Hash256) : String :=
  String.ofList (h.toBytes.flatMap fun b =>
    [Nat.digitChar (b.toNat / 16), Nat.digitChar (b.toNat % 16)])

/-- What `diagnose_tip_candidate` reports. -/
inductive TipReport where
  | stalePrevLink (expected found : Hash256)
  | bitsEncoding
  | pow
  | merkle
  | txcount
  | size
  | timestamp (candidate parent : UInt32)
  | bits (found expected : UInt32)
  | coinbaseMissing
  | txApply (txIndex : Nat)
  | coinbaseOverpay (coinbase allowed : Int64)
  | validTipExtension
deriving DecidableEq

/-- The text of a report. -/
def TipReport.text : TipReport → String
  | .stalePrevLink expected found =>
      "stale-prev-link expected=" ++ expected.toHex ++ " have=" ++ found.toHex
  | .bitsEncoding => "bits-encoding"
  | .pow => "pow"
  | .merkle => "merkle"
  | .txcount => "txcount"
  | .size => "size"
  | .timestamp candidate parent =>
      "timestamp candidate_ts=" ++ toString candidate ++ " parent_ts=" ++ toString parent
  | .bits found expected =>
      "bits have=" ++ toString found ++ " expected=" ++ toString expected
  | .coinbaseMissing => "coinbase-missing"
  | .txApply txIndex => "tx-apply tx_index=" ++ toString txIndex
  | .coinbaseOverpay coinbase allowed =>
      "coinbase-overpay coinbase=" ++ toString coinbase ++ " allowed=" ++ toString allowed
  | .validTipExtension => "valid-tip-extension"

namespace Blockchain

/-- `next_work_bits`. -/
def nextWorkBits (p : ChainParams) (s : Blockchain) (candidateTimestamp : UInt32) : UInt32 :=
  s.expectedBits p (s.bestHeight + 1) candidateTimestamp

/-- The header read from the height file of the tip. -/
def tipHeader (s : Blockchain) : Option BlockHeader := (s.getBlock s.bestHeight).map (·.header)

/-- The link a block on the tip must name, zero when the tip cannot be read. -/
def tipLink (c : Crypto) (s : Blockchain) : Hash256 := (s.tipHeader.map (·.hash c)).getD 0

section

variable (c : Crypto) (p : ChainParams) (env : Env)

/-- The transaction loop of the dry run, the coinbase limit included. -/
def diagnoseTransactions (s : Blockchain) (blk : Block) : TipReport :=
  match (applyTransactions c (UInt32.ofNat (s.bestHeight + 1)) 0 blk.transactions.toList
      s.utxo 0).2 with
  | .error txIndex => .txApply txIndex
  | .ok totalFees =>
      if coinbaseOut blk > getBlockReward (s.bestHeight + 1) + totalFees then
        .coinbaseOverpay (coinbaseOut blk) (getBlockReward (s.bestHeight + 1) + totalFees)
      else .validTipExtension

/-- `diagnose_tip_candidate`. -/
def diagnoseTipCandidate (s : Blockchain) (blk : Block) (skipPowCheck : Bool) : TipReport :=
  let parentHeader := s.tipHeader
  let expectedPrevLink := s.tipLink c
  if blk.header.prevBlockHash ≠ expectedPrevLink then
    .stalePrevLink expectedPrevLink blk.header.prevBlockHash
  else if !skipPowCheck && blk.header.prevBlockHash ≠ 0 &&
      !(CompactTarget.mk blk.header.bits).isCanonical Constants.powHashBytes then
    .bitsEncoding
  else if !skipPowCheck && blk.header.prevBlockHash ≠ 0 && !blk.checkPow c p then .pow
  else if Block.computeMerkleRoot c blk.transactions.toList ≠ blk.header.merkleRoot then .merkle
  else if blk.transactions.toList.length > Constants.maxTransactionsPerBlock then .txcount
  else if blk.serialize.length > Constants.maxBlockSizeBytes then .size
  else if !blockTimestampValid p env.now blk.header parentHeader then
    .timestamp blk.header.timestamp ((parentHeader.map (·.timestamp)).getD 0)
  else if blk.header.bits ≠ s.nextWorkBits p blk.header.timestamp then
    .bits blk.header.bits (s.nextWorkBits p blk.header.timestamp)
  else
    match blk.transactions.toList with
    | [] => .coinbaseMissing
    | coinbase :: _ =>
        if coinbase.isCoinbase then diagnoseTransactions c s blk else .coinbaseMissing

/-- The checks of the dry run. -/
structure ExtendsTip (s : Blockchain) (blk : Block) (skipPowCheck : Bool) : Prop where
  link : blk.header.prevBlockHash = s.tipLink c
  pow : skipPowCheck = false → blk.header.prevBlockHash ≠ 0 →
    (CompactTarget.mk blk.header.bits).isCanonical Constants.powHashBytes = true ∧
      blk.checkPow c p = true
  merkle : Block.computeMerkleRoot c blk.transactions.toList = blk.header.merkleRoot
  count : blk.transactions.toList.length ≤ Constants.maxTransactionsPerBlock
  size : blk.serialize.length ≤ Constants.maxBlockSizeBytes
  timestamp : blockTimestampValid p env.now blk.header s.tipHeader = true
  bits : blk.header.bits = s.nextWorkBits p blk.header.timestamp
  coinbase : ∃ coinbase rest, blk.transactions.toList = coinbase :: rest ∧ coinbase.isCoinbase = true
  transactions : ∃ map totalFees, applyTransactions c (UInt32.ofNat (s.bestHeight + 1)) 0
      blk.transactions.toList s.utxo 0 = (map, .ok totalFees) ∧
    ¬ coinbaseOut blk > getBlockReward (s.bestHeight + 1) + totalFees

end

variable {c : Crypto} {p : ChainParams} {env : Env} {s : Blockchain} {blk : Block} {skip : Bool}

theorem diagnoseTransactions_valid_iff : diagnoseTransactions c s blk = .validTipExtension ↔
    ∃ map totalFees, applyTransactions c (UInt32.ofNat (s.bestHeight + 1)) 0
        blk.transactions.toList s.utxo 0 = (map, .ok totalFees) ∧
      ¬ coinbaseOut blk > getBlockReward (s.bestHeight + 1) + totalFees := by
  unfold diagnoseTransactions
  cases happ : applyTransactions c (UInt32.ofNat (s.bestHeight + 1)) 0
      blk.transactions.toList s.utxo 0 with
  | mk map res =>
      cases res with
      | error i => simp
      | ok totalFees =>
          simp only [Prod.mk.injEq, Except.ok.injEq]
          split
          · next hover => simp [hover]
          · next hok => simpa using hok

/-- The report is positive exactly when no check fails. -/
theorem diagnoseTipCandidate_valid_iff :
    diagnoseTipCandidate c p env s blk skip = .validTipExtension ↔ ExtendsTip c p env s blk skip := by
  constructor
  · intro h
    unfold diagnoseTipCandidate at h
    simp only at h
    repeat' split at h
    all_goals try cases h
    next hlink hcanon hpow hmerkle hcount hsize htime hbits _ coinbase rest htxs hcb =>
      refine ⟨not_not.mp hlink, fun hskip hprev => ?_, not_not.mp hmerkle, Nat.not_lt.mp hcount,
        Nat.not_lt.mp hsize, by simpa using htime, not_not.mp hbits, ⟨coinbase, rest, htxs, hcb⟩,
        diagnoseTransactions_valid_iff.mp h⟩
      subst hskip
      simp only [hprev, ne_eq, not_false_eq_true, decide_true, Bool.not_false, Bool.and_true,
        Bool.true_and, Bool.not_eq_true', Bool.not_eq_false] at hcanon hpow
      exact ⟨hcanon, hpow⟩
  · intro h
    obtain ⟨coinbase, rest, htxs, hcb⟩ := h.coinbase
    have hpow : (!skip && decide (blk.header.prevBlockHash ≠ 0)) = true →
        (CompactTarget.mk blk.header.bits).isCanonical Constants.powHashBytes = true ∧
          blk.checkPow c p = true := by
      intro hchecked
      simp only [Bool.and_eq_true, Bool.not_eq_true', decide_eq_true_eq] at hchecked
      exact h.pow hchecked.1 hchecked.2
    unfold diagnoseTipCandidate
    simp only
    rw [if_neg (not_not.mpr h.link), if_neg, if_neg, if_neg (not_not.mpr h.merkle),
      if_neg (Nat.not_lt.mpr h.count), if_neg (Nat.not_lt.mpr h.size), if_neg (by simp [h.timestamp]),
      if_neg (not_not.mpr h.bits)]
    · simp only [htxs, hcb, if_true]
      exact diagnoseTransactions_valid_iff.mpr h.transactions
    · rw [Bool.and_eq_true]
      rintro ⟨hchecked, hbad⟩
      rw [(hpow hchecked).2] at hbad
      cases hbad
    · rw [Bool.and_eq_true]
      rintro ⟨hchecked, hbad⟩
      rw [(hpow hchecked).1] at hbad
      cases hbad

end Blockchain

end Cryptex
