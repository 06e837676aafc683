import Cryptex.Difficulty
import Cryptex.Utxo

/-!
# Validating a path of blocks

The body of `Blockchain::validated_prefix_length`: the blocks of a path from
genesis are checked one after another against the headers before them and a
UTXO set that starts empty. Reading the blocks of a path from the node's
maps and files is left to the caller, so this part depends on nothing but
the blocks, the clock and the proof-of-work setting.
-/

namespace Cryptex

/-! ## Timestamps -/

def blockTimestampTooFarInFuture (p : ChainParams) (now : Nat) (timestamp : UInt32) : Bool :=
  if p.maxFutureBlockTimeSeconds = 0 then false
  else timestamp.toNat > now + p.maxFutureBlockTimeSeconds.toNat

def blockTimestampValid (p : ChainParams) (now : Nat) (header : BlockHeader)
    (parent : Option BlockHeader) : Bool :=
  if blockTimestampTooFarInFuture p now header.timestamp then false
  else
    match parent with
    | some ph => !(header.timestamp ≤ ph.timestamp)
    | none => true

/-! ## Work -/

/-- `block_work`: the expected number of hashes behind a block with these
bits, zero when the bits are unusable. -/
def blockWork (p : ChainParams) (bits : UInt32) : Nat :=
  let compact : CompactTarget := ⟨bits⟩
  if compact.isNegative || compact.isZero || compact.overflows Constants.powHashBytes ||
      !compact.isCanonical Constants.powHashBytes then 0
  else if compact.expand > (CompactTarget.mk p.powLimitBits).expand then 0
  else if compact.expand = 0 then 0
  else (2 ^ 512 - 1) / (compact.expand + 1)

/-! ## One block -/

/-- The named reasons for which a path is refused at one of its blocks. -/
inductive PathFailure where
  | missingBlock
  | prevLink
  | timestamp
  | bitsEncoding
  | pow
  | merkle
  | bits
  | coinbaseMissing
  | txApply (txIndex : Nat)
  | coinbaseOverpay
deriving DecidableEq

/-- The text of `failure_reason`. -/
def PathFailure.reason : PathFailure → String
  | .missingBlock => "missing-block"
  | .prevLink => "prev-link"
  | .timestamp => "timestamp"
  | .bitsEncoding => "bits-encoding"
  | .pow => "pow"
  | .merkle => "merkle"
  | .bits => "bits"
  | .coinbaseMissing => "coinbase-missing"
  | .txApply _ => "tx-apply"
  | .coinbaseOverpay => "coinbase-overpay"

section

variable (c : Crypto) (p : ChainParams)

/-- `expected_bits_for`: the bits required after the headers `hist`; genesis
is measured against its own bits. -/
def expectedBitsFor (hist : List BlockHeader) (header : BlockHeader) : UInt32 :=
  if hist.length = 0 then header.bits
  else
    getNextWorkRequired p hist (hist.length - 1) (headerAt hist (hist.length - 1)).bits
      header.timestamp

/-- The header names its predecessor on the path; the first block need not
name anything. -/
def linkedTo (parent : Option BlockHeader) (header : BlockHeader) : Bool :=
  match parent with
  | some ph => header.prevBlockHash = ph.hash c
  | none => true

/-- The checks on a block that do not involve the UTXO set, in the order of
the source; `hist` holds the headers before it. -/
def checkHeaderOnPath (now : Nat) (skipPowCheck : Bool) (hist : List BlockHeader)
    (blk : Block) : Option PathFailure :=
  let parent := hist.getLast?
  if !linkedTo c parent blk.header then some .prevLink
  else if !blockTimestampValid p now blk.header parent then some .timestamp
  else if hist.length > 0 && !skipPowCheck &&
      !(CompactTarget.mk blk.header.bits).isCanonical Constants.powHashBytes then
    some .bitsEncoding
  else if hist.length > 0 && !skipPowCheck && !blk.checkPow c p then some .pow
  else if Block.computeMerkleRoot c blk.transactions.toList ≠ blk.header.merkleRoot then
    some .merkle
  else if blk.header.bits ≠ expectedBitsFor p hist blk.header then some .bits
  else
    match blk.transactions.toList with
    | [] => some .coinbaseMissing
    | coinbase :: _ => if coinbase.isCoinbase then none else some .coinbaseMissing

/-- The transaction loop: apply in order, add up the fees of the spends in
`int64_t`. Yields the map reached, and the fees or the index of the
transaction that was refused. -/
def applyTransactions (blockHeight : UInt32) :
    Nat → List Transaction → UTXOSet → Int64 → UTXOSet × Except Nat Int64
  | _, [], map, totalFees => (map, .ok totalFees)
  | i, tx :: rest, map, totalFees =>
      let r := UTXOSet.applyTransaction c map tx blockHeight
      if r.ok then
        applyTransactions blockHeight (i + 1) rest r.map
          (if tx.isCoinbase then totalFees else totalFees + r.fee)
      else (r.map, .error i)

/-- The value the first transaction of a block pays out. -/
def coinbaseOut (blk : Block) : Int64 :=
  match blk.transactions.toList with
  | [] => 0
  | coinbase :: _ => coinbase.totalOutputValue

/-- One block of a path: the map it leaves, and the reason if it is refused.
A block that is refused because of its transactions has changed the map. -/
def validateBlock (now : Nat) (skipPowCheck : Bool) (hist : List BlockHeader) (map : UTXOSet)
    (blk : Block) : UTXOSet × Option PathFailure :=
  match checkHeaderOnPath c p now skipPowCheck hist blk with
  | some failure => (map, some failure)
  | none =>
      match applyTransactions c (UInt32.ofNat hist.length) 0 blk.transactions.toList map 0 with
      | (map', .error txIndex) => (map', some (.txApply txIndex))
      | (map', .ok totalFees) =>
          if coinbaseOut blk > getBlockReward hist.length + totalFees then
            (map', some .coinbaseOverpay)
          else (map', none)

/-! ## A path -/

/-- What validating a path yields: how many blocks were accepted, the UTXO
set and tip bits reached, and the failure with its height, if any. -/
structure PrefixResult where
  length : Nat
  utxo : UTXOSet
  tipBits : UInt32
  failure : Option (PathFailure × Nat)

/-- The loop over the blocks of a path; `none` stands for a block that could
not be found. -/
def validateBlocks (now : Nat) (skipPowCheck : Bool) :
    List BlockHeader → UTXOSet → UInt32 → List (Option Block) → PrefixResult
  | hist, map, tipBits, [] => ⟨hist.length, map, tipBits, none⟩
  | hist, map, tipBits, none :: _ =>
      ⟨hist.length, map, tipBits, some (.missingBlock, hist.length)⟩
  | hist, map, tipBits, some blk :: rest =>
      match validateBlock c p now skipPowCheck hist map blk with
      | (map', some failure) => ⟨hist.length, map', tipBits, some (failure, hist.length)⟩
      | (map', none) =>
          validateBlocks now skipPowCheck (hist ++ [blk.header]) map' blk.header.bits rest

/-! ## Paths accepted in full -/

/-- The blocks extend the headers `hist` and the map `map` to the map `map'`,
every one of them accepted. -/
inductive Accepts (now : Nat) (skipPowCheck : Bool) :
    List BlockHeader → UTXOSet → List Block → UTXOSet → Prop where
  | nil {hist map} : Accepts now skipPowCheck hist map [] map
  | cons {hist map blk map₁ rest map'} :
      validateBlock c p now skipPowCheck hist map blk = (map₁, none) →
      Accepts now skipPowCheck (hist ++ [blk.header]) map₁ rest map' →
      Accepts now skipPowCheck hist map (blk :: rest) map'

variable {c p}

theorem validateBlocks_length_le {now : Nat} {skip : Bool} : ∀ {bs : List (Option Block)}
    {hist : List BlockHeader} {map : UTXOSet} {tipBits : UInt32},
    (validateBlocks c p now skip hist map tipBits bs).length ≤ hist.length + bs.length
  | [], _, _, _ => by simp [validateBlocks]
  | none :: _, _, _, _ => by simp [validateBlocks]
  | some blk :: rest, hist, map, tipBits => by
      rw [validateBlocks]
      split
      · simp
      · refine Nat.le_trans validateBlocks_length_le ?_
        simp only [List.length_append, List.length_cons, List.length_nil]
        omega

/-- The whole path was accepted exactly when every block was found and
accepted in turn. -/
theorem validateBlocks_full {now : Nat} {skip : Bool} : ∀ {bs : List (Option Block)}
    {hist : List BlockHeader} {map : UTXOSet} {tipBits : UInt32},
    (validateBlocks c p now skip hist map tipBits bs).length = hist.length + bs.length →
    ∃ blocks : List Block, bs = blocks.map some ∧
      Accepts c p now skip hist map blocks
        (validateBlocks c p now skip hist map tipBits bs).utxo ∧
      (validateBlocks c p now skip hist map tipBits bs).tipBits
        = (blocks.getLast?.map (·.header.bits)).getD tipBits
  | [], hist, map, tipBits, _ => ⟨[], rfl, .nil, rfl⟩
  | none :: rest, hist, map, tipBits, h => by simp [validateBlocks] at h
  | some blk :: rest, hist, map, tipBits, h => by
      rw [validateBlocks] at h ⊢
      cases hv : validateBlock c p now skip hist map blk with
      | mk map' failure =>
          rw [hv] at h
          cases failure with
          | some f => simp at h
          | none =>
              simp only at h ⊢
              have hlen : (validateBlocks c p now skip (hist ++ [blk.header]) map'
                  blk.header.bits rest).length = (hist ++ [blk.header]).length + rest.length := by
                rw [h]
                simp only [List.length_append, List.length_cons, List.length_nil]
                omega
              obtain ⟨blocks, rfl, hacc, hbits⟩ := validateBlocks_full hlen
              refine ⟨blk :: blocks, rfl, .cons hv hacc, ?_⟩
              rw [hbits]
              cases hl : blocks.getLast? with
              | none =>
                  rw [List.getLast?_eq_none_iff] at hl
                  subst hl; rfl
              | some last =>
                  rw [List.getLast?_cons, hl]
                  rfl

theorem Accepts.validateBlocks_eq {now : Nat} {skip : Bool} : ∀ {blocks : List Block}
    {hist : List BlockHeader} {map map' : UTXOSet} (tipBits : UInt32),
    Accepts c p now skip hist map blocks map' →
    validateBlocks c p now skip hist map tipBits (blocks.map some)
      = ⟨hist.length + blocks.length, map',
          (blocks.getLast?.map (·.header.bits)).getD tipBits, none⟩
  | [], hist, map, map', tipBits, h => by cases h; rfl
  | blk :: rest, hist, map, map', tipBits, h => by
      cases h with
      | cons hv hrest =>
          rw [List.map_cons, validateBlocks, hv]
          simp only
          rw [hrest.validateBlocks_eq blk.header.bits]
          simp only [List.length_append, List.length_cons, List.length_nil, PrefixResult.mk.injEq,
            true_and, and_true]
          refine ⟨by omega, ?_⟩
          rw [List.getLast?_cons]
          cases rest.getLast? <;> rfl

/-- The accepted blocks of a path and where the loop stopped: at the end, at
a missing block, or at a block that is refused, whose transactions may have
changed the map. -/
theorem validateBlocks_prefix {now : Nat} {skip : Bool} : ∀ (bs : List (Option Block))
    (hist : List BlockHeader) (map : UTXOSet) (tipBits : UInt32),
    ∃ blocks mid, Accepts c p now skip hist map blocks mid ∧
      (validateBlocks c p now skip hist map tipBits bs).length = hist.length + blocks.length ∧
      bs.take blocks.length = blocks.map some ∧
      (validateBlocks c p now skip hist map tipBits bs).tipBits
        = (blocks.getLast?.map (·.header.bits)).getD tipBits ∧
      ((validateBlocks c p now skip hist map tipBits bs).utxo = mid ∨
        ∃ blk failure, bs[blocks.length]? = some (some blk) ∧
          validateBlock c p now skip (hist ++ blocks.map (·.header)) mid blk
            = ((validateBlocks c p now skip hist map tipBits bs).utxo, some failure))
  | [], hist, map, tipBits => ⟨[], map, .nil, rfl, rfl, rfl, Or.inl rfl⟩
  | none :: rest, hist, map, tipBits => ⟨[], map, .nil, rfl, rfl, rfl, Or.inl rfl⟩
  | some blk :: rest, hist, map, tipBits => by
      rw [validateBlocks]
      cases hv : validateBlock c p now skip hist map blk with
      | mk map' failure =>
          cases failure with
          | some f =>
              refine ⟨[], map, .nil, rfl, rfl, rfl, Or.inr ⟨blk, f, rfl, ?_⟩⟩
              simpa using hv
          | none =>
              simp only
              obtain ⟨blocks, mid, hacc, hlen, htake, hbits, hutxo⟩ :=
                validateBlocks_prefix rest (hist ++ [blk.header]) map' blk.header.bits
              refine ⟨blk :: blocks, mid, .cons hv hacc, ?_, ?_, ?_, ?_⟩
              · rw [hlen]
                simp only [List.length_append, List.length_cons, List.length_nil]
                omega
              · rw [List.length_cons, List.take_succ_cons, htake, List.map_cons]
              · rw [hbits, List.getLast?_cons]
                cases blocks.getLast? <;> rfl
              · refine hutxo.imp_right ?_
                rintro ⟨b, f, hb, hrefused⟩
                exact ⟨b, f, by simpa using hb, by simpa using hrefused⟩

theorem checkHeaderOnPath_none {now : Nat} {skip : Bool} {hist : List BlockHeader} {blk : Block}
    (h : checkHeaderOnPath c p now skip hist blk = none) :
    linkedTo c hist.getLast? blk.header = true ∧
      blockTimestampValid p now blk.header hist.getLast? = true ∧
      (hist.length > 0 → skip = false →
        (CompactTarget.mk blk.header.bits).isCanonical Constants.powHashBytes = true ∧
          blk.checkPow c p = true) ∧
      Block.computeMerkleRoot c blk.transactions.toList = blk.header.merkleRoot ∧
      blk.header.bits = expectedBitsFor p hist blk.header ∧
      ∃ coinbase rest, blk.transactions.toList = coinbase :: rest ∧
        coinbase.isCoinbase = true := by
  unfold checkHeaderOnPath at h
  simp only at h
  repeat' split at h
  all_goals cases h
  next hlink hts hcanon hpow hmerkle hbits _ coinbase rest htxs hcb =>
    refine ⟨by simpa using hlink, by simpa using hts, fun hlen hskip => ?_,
      not_not.mp hmerkle, not_not.mp hbits, coinbase, rest, htxs, hcb⟩
    subst hskip
    simp only [hlen, decide_true, Bool.not_false, Bool.and_true, Bool.true_and,
      Bool.not_eq_true'] at hcanon hpow
    exact ⟨by simpa using hcanon, by simpa using hpow⟩

/-- A block that is accepted passed the header checks. -/
theorem validateBlock_none {now : Nat} {skip : Bool} {hist : List BlockHeader} {map map' : UTXOSet}
    {blk : Block} (h : validateBlock c p now skip hist map blk = (map', none)) :
    checkHeaderOnPath c p now skip hist blk = none ∧
      ∃ totalFees, applyTransactions c (UInt32.ofNat hist.length) 0 blk.transactions.toList map 0
          = (map', .ok totalFees) ∧
        ¬ coinbaseOut blk > getBlockReward hist.length + totalFees := by
  unfold validateBlock at h
  cases hcheck : checkHeaderOnPath c p now skip hist blk with
  | some f => rw [hcheck] at h; cases h
  | none =>
      rw [hcheck] at h
      refine ⟨rfl, ?_⟩
      simp only at h
      cases happ : applyTransactions c (UInt32.ofNat hist.length) 0 blk.transactions.toList map 0 with
      | mk map₁ res =>
          rw [happ] at h
          cases res with
          | error i => cases h
          | ok totalFees =>
              simp only at h
              split at h
              · cases h
              · next hle =>
                  cases h
                  exact ⟨totalFees, rfl, hle⟩

/-- The blocks of an accepted path name one another. -/
theorem Accepts.linked {now : Nat} {skip : Bool} {blocks : List Block} {hist : List BlockHeader}
    {map map' : UTXOSet} (h : Accepts c p now skip hist map blocks map') :
    blocks.IsChain fun b b' => b'.header.prevBlockHash = b.header.hash c := by
  induction h with
  | nil => exact .nil
  | @cons hist map blk map₁ rest map' hv hrest ih =>
      cases hrest with
      | nil => exact .singleton _
      | cons hv' _ =>
          refine .cons_cons ?_ ih
          have hlink := (checkHeaderOnPath_none (validateBlock_none hv').1).1
          rw [List.getLast?_append] at hlink
          simpa [linkedTo] using hlink

/-- A path accepted in full is accepted up to any point, with the map reached
there. -/
theorem Accepts.append_iff {now : Nat} {skip : Bool} : ∀ {xs ys : List Block}
    {hist : List BlockHeader} {map map' : UTXOSet},
    Accepts c p now skip hist map (xs ++ ys) map' ↔
      ∃ mid, Accepts c p now skip hist map xs mid ∧
        Accepts c p now skip (hist ++ xs.map (·.header)) mid ys map'
  | [], ys, hist, map, map' => by
      constructor
      · intro h
        exact ⟨map, .nil, by simpa using h⟩
      · rintro ⟨mid, hx, hy⟩
        cases hx
        simpa using hy
  | x :: xs, ys, hist, map, map' => by
      constructor
      · intro h
        rw [List.cons_append] at h
        cases h with
        | cons hv hrest =>
            obtain ⟨mid, hx, hy⟩ := Accepts.append_iff.mp hrest
            exact ⟨mid, .cons hv hx, by simpa using hy⟩
      · rintro ⟨mid, hx, hy⟩
        cases hx with
        | cons hv hrest =>
            exact .cons hv (Accepts.append_iff.mpr ⟨mid, hrest, by simpa using hy⟩)

end

end Cryptex
