import Cryptex.Utxo

/-!
# The mempool

`mempool.cpp`: admission of transactions against the UTXO set and the pool,
the orphans that wait for a parent, removal, expiry and trimming.

Admission of one transaction, without the orphans that waited for it, is
`addOne`; `addTransaction` takes the orphans next, as the source does. The
address decoder of `base64.cpp` and the orders in which hash tables are
traversed are fields of `Context`.
-/

namespace Cryptex

namespace Mempool

/-! ## Data -/

structure TxEntry where
  tx : Transaction
  size : Nat
  fee : Int64
  feeRatePerKb : Int64
  entryTime : Nat
deriving DecidableEq

structure OrphanEntry where
  tx : Transaction
  entryTime : Nat
deriving DecidableEq

inductive AcceptStatus where
  | accepted
  | duplicate
  | conflict
  | missingInputs
  | invalid
  | nonStandard
  | lowFee
  | poolFull
deriving DecidableEq

/-- A key of `sorted_by_feerate_`: fee rate, fee and id. -/
abbrev FeeKey := Int64 × Int64 × Hash256

/-- The order of `std::tuple`. -/
def FeeKey.lt (a b : FeeKey) : Bool :=
  a.1 < b.1 || (a.1 = b.1 && (a.2.1 < b.2.1 || (a.2.1 = b.2.1 && a.2.2.toNat < b.2.2.toNat)))

def TxEntry.key (e : TxEntry) (txHash : Hash256) : FeeKey := (e.feeRatePerKb, e.fee, txHash)

end Mempool

structure Mempool where
  txs : FinMap Hash256 Mempool.TxEntry
  /-- ascending (feerate, fee, hash) -/
  sortedByFeerate : List (Int64 × Int64 × Hash256)
  /-- outpoint to the transaction that spends it -/
  spentOutpoints : FinMap OutPoint Hash256
  orphans : FinMap Hash256 Mempool.OrphanEntry
  orphansByParent : List (Hash256 × Hash256)
  orphanOrder : List Hash256
  totalBytes : Nat

namespace Mempool

def empty : Mempool := ⟨∅, [], ∅, ∅, [], [], 0⟩

/-- `clear`. -/
def clear (_ : Mempool) : Mempool := empty

/-- What a call reads besides the pool. Time is in nanoseconds. -/
structure Context where
  utxo : UTXOSet
  currentHeight : UInt32
  now : Nat
  isStandardAddress : Bytes → Bool
  txVisit : FinMap.VisitOrder Hash256 TxEntry
  orphanVisit : FinMap.VisitOrder Hash256 OrphanEntry
  /-- the order of the ids under one key of `orphans_by_parent_` -/
  bucket : List Hash256 → List Hash256
  bucket_perm : ∀ l, (bucket l).Perm l

/-! ## Standard policy -/

/-- `"OP_RETURN:"`. -/
def opReturnPrefix : Bytes := [79, 80, 95, 82, 69, 84, 85, 82, 78, 58]

def isOpReturnScript (script : Bytes) : Bool := opReturnPrefix.isPrefixOf script

/-- The output loop of `violates_standard_policy`. -/
def outputsViolate (isStandardAddress : Bytes → Bool) : Bool → List TxOut → Bool
  | _, [] => false
  | sawOpReturn, out :: rest =>
      if isOpReturnScript out.scriptPubKey.toList then
        if sawOpReturn then true
        else if out.value ≠ 0 then true
        else if out.scriptPubKey.toList.length > 256 then true
        else outputsViolate isStandardAddress true rest
      else if !isStandardAddress out.scriptPubKey.toList then true
      else if out.value < Constants.dustLimitSats then true
      else outputsViolate isStandardAddress sawOpReturn rest

def violatesStandardPolicy (ctx : Context) (tx : Transaction) (txSize : Nat) : Bool :=
  txSize > Constants.maxStandardTxSizeBytes ||
    tx.inputs.toList.length > Constants.maxStandardTxInputs ||
    tx.outputs.toList.length > Constants.maxStandardTxOutputs ||
    tx.inputs.toList.any (fun txin => txin.scriptSig.toList = [] ||
      txin.scriptSig.toList.length > Constants.maxStandardScriptsigBytes) ||
    outputsViolate ctx.isStandardAddress false tx.outputs.toList

/-! ## Admission -/

def checkDoubleSpend (pool : Mempool) (tx : Transaction) : Bool :=
  tx.inputs.toList.any fun txin => (pool.spentOutpoints.lookup txin.prevout).isSome

/-- The inputs that were found, the ids of the parents that were not, and the
running `int64_t` sum. -/
structure Resolution where
  entries : List UTXOEntry
  missing : List Hash256
  inputSum : Int64

/-- The first input loop of `add_transaction`. -/
def resolveInputs (ctx : Context) (pool : Mempool) :
    List TxIn → List OutPoint → Resolution → Except AcceptStatus Resolution
  | [], _, r => .ok r
  | txin :: rest, seen, r =>
      if txin.prevout ∈ seen then .error .conflict
      else
        match ctx.utxo.lookup txin.prevout with
        | some entry =>
            resolveInputs ctx pool rest (txin.prevout :: seen)
              { r with
                entries := r.entries ++ [entry]
                inputSum := r.inputSum + entry.output.value }
        | none =>
            match pool.txs.lookup txin.prevout.txHash with
            | some parent =>
                match parent.tx.outputs.toList[txin.prevout.index.toNat]? with
                | none => .error .invalid
                | some out =>
                    resolveInputs ctx pool rest (txin.prevout :: seen)
                      { r with
                        entries := r.entries ++ [⟨out, ctx.currentHeight, parent.tx.isCoinbase⟩]
                        inputSum := r.inputSum + out.value }
            | none =>
                resolveInputs ctx pool rest (txin.prevout :: seen)
                  { r with
                    missing :=
                      if txin.prevout.txHash ∈ r.missing then r.missing
                      else r.missing ++ [txin.prevout.txHash] }

/-- One round of the second input loop: script, key, signature and maturity. -/
def inputAuthorised (c : Crypto) (currentHeight : UInt32) (tx : Transaction) (idx : Nat)
    (txin : TxIn) (entry : UTXOEntry) : Bool :=
  let sig := txin.scriptSig.toList
  if sig.length < 65 then false
  else
    let sigLen := sig.length - 65
    let signature := sig.take sigLen
    let pubkey := sig.drop sigLen
    if !c.addressesEqual (c.pubkeyToAddress pubkey) entry.output.scriptPubKey.toList then false
    else if !c.verifySignature (tx.sighash c idx entry.output.scriptPubKey) signature pubkey then
      false
    else
      !(entry.isCoinbase && currentHeight.toNat + 1 <
        entry.blockHeight.toNat + Constants.coinbaseMaturity.toNat)

/-- The second input loop. -/
def inputsAuthorised (c : Crypto) (currentHeight : UInt32) (tx : Transaction) :
    Nat → List (TxIn × UTXOEntry) → Bool
  | _, [] => true
  | idx, (txin, entry) :: rest =>
      inputAuthorised c currentHeight tx idx txin entry &&
        inputsAuthorised c currentHeight tx (idx + 1) rest

def minFee (txSize : Nat) : Int64 :=
  Int64.ofNat ((txSize + 999) / 1000 * Constants.minRelayFeeSatsPerKb)

def feeRate (fee : Int64) (txSize : Nat) : Int64 :=
  if txSize = 0 then fee else (fee * 1000) / Int64.ofNat txSize

/-- What the checks of `add_transaction` come to. -/
inductive Admission where
  | rejected (status : AcceptStatus)
  | orphan (missing : List Hash256)
  | entry (e : TxEntry)

/-- The checks of `add_transaction`, in the order of the source. -/
def admission (c : Crypto) (ctx : Context) (pool : Mempool) (tx : Transaction) : Admission :=
  if !tx.validateBasic then .rejected .invalid
  else if tx.isCoinbase then .rejected .invalid
  else if (pool.txs.lookup (tx.hash c)).isSome || (pool.orphans.lookup (tx.hash c)).isSome then
    .rejected .duplicate
  else if violatesStandardPolicy ctx tx tx.serialize.length then .rejected .nonStandard
  else if checkDoubleSpend pool tx then .rejected .conflict
  else
    match resolveInputs ctx pool tx.inputs.toList [] ⟨[], [], 0⟩ with
    | .error status => .rejected status
    | .ok r =>
        if r.missing ≠ [] then .orphan r.missing
        else
          let fee := r.inputSum - tx.totalOutputValue
          if fee < 0 then .rejected .invalid
          else if fee < minFee tx.serialize.length then .rejected .lowFee
          else if !inputsAuthorised c ctx.currentHeight tx 0 (tx.inputs.toList.zip r.entries) then
            .rejected .invalid
          else
            .entry ⟨tx, tx.serialize.length, fee, feeRate fee tx.serialize.length, ctx.now⟩

theorem resolveInputs_error {ctx : Context} {pool : Mempool} {status : AcceptStatus} :
    ∀ {ins : List TxIn} {seen : List OutPoint} {r : Resolution},
      resolveInputs ctx pool ins seen r = .error status → status = .conflict ∨ status = .invalid
  | [], _, _, h => by cases h
  | txin :: rest, seen, r, h => by
      rw [resolveInputs] at h
      split at h
      · cases h; exact Or.inl rfl
      · split at h
        · exact resolveInputs_error h
        · split at h
          · split at h
            · cases h; exact Or.inr rfl
            · exact resolveInputs_error h
          · exact resolveInputs_error h

/-- The checks that come before the inputs are looked up. -/
structure Admissible (c : Crypto) (ctx : Context) (pool : Mempool) (tx : Transaction) : Prop where
  basic : tx.validateBasic = true
  notCoinbase : tx.isCoinbase = false
  fresh : pool.txs.lookup (tx.hash c) = none
  notOrphan : pool.orphans.lookup (tx.hash c) = none
  standard : violatesStandardPolicy ctx tx tx.serialize.length = false
  unspent : checkDoubleSpend pool tx = false

/-- The checks on the amounts and the scripts, and the entry they admit. -/
structure Admits (c : Crypto) (ctx : Context) (tx : Transaction) (r : Resolution) (e : TxEntry) :
    Prop where
  found : r.missing = []
  nonneg : ¬ r.inputSum - tx.totalOutputValue < 0
  minFee : ¬ r.inputSum - tx.totalOutputValue < minFee tx.serialize.length
  authorised : inputsAuthorised c ctx.currentHeight tx 0 (tx.inputs.toList.zip r.entries) = true
  entry : e = ⟨tx, tx.serialize.length, r.inputSum - tx.totalOutputValue,
    feeRate (r.inputSum - tx.totalOutputValue) tx.serialize.length, ctx.now⟩

/-- What the checks can come to. -/
theorem admission_cases (c : Crypto) (ctx : Context) (pool : Mempool) (tx : Transaction) :
    (∃ status, admission c ctx pool tx = .rejected status ∧ status ≠ .accepted) ∨
      (Admissible c ctx pool tx ∧ ∃ r,
        resolveInputs ctx pool tx.inputs.toList [] ⟨[], [], 0⟩ = .ok r ∧
        ((r.missing ≠ [] ∧ admission c ctx pool tx = .orphan r.missing) ∨
          ∃ e, Admits c ctx tx r e ∧ admission c ctx pool tx = .entry e)) := by
  unfold admission
  by_cases hbasic : tx.validateBasic = true
  · by_cases hcb : tx.isCoinbase = true
    · left
      simp [hbasic, hcb]
    · by_cases hdup : ((pool.txs.lookup (tx.hash c)).isSome ||
          (pool.orphans.lookup (tx.hash c)).isSome) = true
      · left
        simp only [hbasic, hdup]
        simp [hcb]
      · by_cases hstd : violatesStandardPolicy ctx tx tx.serialize.length = true
        · left
          simp [hbasic, hcb, hdup, hstd]
        · by_cases hspend : checkDoubleSpend pool tx = true
          · left
            simp [hbasic, hcb, hdup, hstd, hspend]
          · rw [if_neg (by simp [hbasic]), if_neg hcb, if_neg hdup, if_neg hstd, if_neg hspend]
            simp only [Bool.or_eq_true, not_or, Bool.not_eq_true, Option.isSome_eq_false_iff,
              Option.isNone_iff_eq_none] at hdup
            have hadmissible : Admissible c ctx pool tx :=
              ⟨hbasic, by simpa using hcb, hdup.1, hdup.2, by simpa using hstd,
                by simpa using hspend⟩
            cases hres : resolveInputs ctx pool tx.inputs.toList [] ⟨[], [], 0⟩ with
            | error status =>
                left
                refine ⟨status, rfl, ?_⟩
                rcases resolveInputs_error hres with rfl | rfl <;> simp
            | ok r =>
                by_cases hmissing : r.missing = []
                · simp only [if_neg (not_not.mpr hmissing)]
                  split
                  · exact Or.inl ⟨_, rfl, by simp⟩
                  · next hfee =>
                      split
                      · exact Or.inl ⟨_, rfl, by simp⟩
                      · next hmin =>
                          split
                          · exact Or.inl ⟨_, rfl, by simp⟩
                          · next hauth =>
                              exact Or.inr ⟨hadmissible, r, rfl, Or.inr ⟨_,
                                ⟨hmissing, hfee, hmin, by simpa using hauth, rfl⟩, rfl⟩⟩
                · simp only [if_pos hmissing]
                  exact Or.inr ⟨hadmissible, r, rfl, Or.inl ⟨hmissing, rfl⟩⟩
  · left
    simp [hbasic]

/-! ## Entries -/

/-- Insertion into `sorted_by_feerate_`. -/
def insertKey (k : FeeKey) : List FeeKey → List FeeKey
  | [] => [k]
  | x :: xs =>
      if FeeKey.lt k x then k :: x :: xs
      else if k = x then x :: xs
      else x :: insertKey k xs

def insertEntry (pool : Mempool) (txHash : Hash256) (e : TxEntry) : Mempool :=
  { pool with
    txs := pool.txs.insert txHash e
    sortedByFeerate := insertKey (e.key txHash) pool.sortedByFeerate
    totalBytes := pool.totalBytes + e.size
    spentOutpoints := e.tx.inputs.toList.foldl (fun m txin => m.insert txin.prevout txHash)
      pool.spentOutpoints }

/-- `remove_transaction`. -/
def removeTransaction (pool : Mempool) (txHash : Hash256) : Mempool :=
  match pool.txs.lookup txHash with
  | none => pool
  | some e =>
      { pool with
        txs := pool.txs.erase txHash
        sortedByFeerate := pool.sortedByFeerate.erase (e.key txHash)
        totalBytes := pool.totalBytes - e.size
        spentOutpoints := e.tx.inputs.toList.foldl
          (fun m txin => if m.lookup txin.prevout = some txHash then m.erase txin.prevout else m)
          pool.spentOutpoints }

/-- The pool holds too many bytes or too many transactions. -/
def overLimits (pool : Mempool) : Bool :=
  pool.totalBytes > Constants.maxMempoolSizeBytes ||
    pool.txs.keys.card > Constants.maxMempoolTransactions

/-- The loop of `trim_to_limits`; every round removes the lowest key. -/
def trimLoop : Nat → Mempool → Mempool
  | 0, pool => pool
  | fuel + 1, pool =>
      match pool.sortedByFeerate with
      | [] => pool
      | k :: _ => if pool.overLimits then trimLoop fuel (pool.removeTransaction k.2.2) else pool

def trimToLimits (pool : Mempool) : Mempool := trimLoop pool.sortedByFeerate.length pool

/-! ## Orphans -/

def removeOrphan (pool : Mempool) (txHash : Hash256) : Mempool :=
  match pool.orphans.lookup txHash with
  | none => pool
  | some _ =>
      { pool with
        orphans := pool.orphans.erase txHash
        orphanOrder := pool.orphanOrder.filter (· ≠ txHash)
        orphansByParent := pool.orphansByParent.filter (·.2 ≠ txHash) }

/-- The loop of `add_orphan`: the oldest orphans go while there is no room. -/
def evictOrphans : Nat → Mempool → Mempool
  | 0, pool => pool
  | fuel + 1, pool =>
      match pool.orphanOrder with
      | [] => pool
      | evict :: rest =>
          if pool.orphanOrder.length ≥ Constants.maxMempoolOrphans then
            evictOrphans fuel (({ pool with orphanOrder := rest } : Mempool).removeOrphan evict)
          else pool

def addOrphan (pool : Mempool) (txHash : Hash256) (e : OrphanEntry) (missing : List Hash256) :
    Mempool :=
  if (pool.orphans.lookup txHash).isSome then pool
  else
    let pool := evictOrphans pool.orphanOrder.length pool
    { pool with
      orphans := pool.orphans.insert txHash e
      orphanOrder := pool.orphanOrder ++ [txHash]
      orphansByParent := pool.orphansByParent ++ missing.map fun parent => (parent, txHash) }

/-! ## Adding -/

/-- `add_transaction` up to the orphans. -/
def addOne (c : Crypto) (ctx : Context) (pool : Mempool) (tx : Transaction) :
    AcceptStatus × Mempool :=
  match admission c ctx pool tx with
  | .rejected status => (status, pool)
  | .orphan missing => (.missingInputs, pool.addOrphan (tx.hash c) ⟨tx, ctx.now⟩ missing)
  | .entry e =>
      let pool := trimToLimits (pool.insertEntry (tx.hash c) e)
      if (pool.txs.lookup (tx.hash c)).isSome then (.accepted, pool) else (.poolFull, pool)

/-- The ids that wait for a parent. -/
def waitingFor (ctx : Context) (pool : Mempool) (parent : Hash256) : List Hash256 :=
  ctx.bucket ((pool.orphansByParent.filter (·.1 = parent)).map Prod.snd)

/-- The loop of `process_orphans_for_parent`. -/
def processOrphans (add : Mempool → Transaction → Option (AcceptStatus × Mempool)) :
    Mempool → List Hash256 → Option Mempool
  | pool, [] => some pool
  | pool, k :: ready =>
      match pool.orphans.lookup k with
      | none => processOrphans add pool ready
      | some e =>
          match add (pool.removeOrphan k) e.tx with
          | none => none
          | some (_, pool) => processOrphans add pool ready

/-- `add_transaction`. The fuel bounds the depth to which orphans wait for
orphans; `none` when it runs out. -/
def addTransaction (c : Crypto) (ctx : Context) :
    Nat → Mempool → Transaction → Option (AcceptStatus × Mempool)
  | 0, _, _ => none
  | fuel + 1, pool, tx =>
      match addOne c ctx pool tx with
      | (.accepted, pool) =>
          (processOrphans (addTransaction c ctx fuel) pool (waitingFor ctx pool (tx.hash c))).map
            fun pool => (.accepted, pool)
      | (status, pool) => some (status, pool)

/-! ## Expiry -/

def expired (ctx : Context) (entryTime : Nat) : Bool :=
  (ctx.now - entryTime) / 1000000000 > Constants.mempoolTxExpirySeconds

def expireOldTransactions (ctx : Context) (pool : Mempool) : Mempool :=
  let toRemove := ((ctx.txVisit.visit pool.txs).filter fun e => expired ctx e.2.entryTime).map
    Prod.fst
  let pool := toRemove.foldl removeTransaction pool
  let orphanRemove := ((ctx.orphanVisit.visit pool.orphans).filter
    fun e => expired ctx e.2.entryTime).map Prod.fst
  orphanRemove.foldl removeOrphan pool

/-- `get_transactions`: the highest fee rate first. -/
def getTransactions (pool : Mempool) : List Transaction :=
  pool.sortedByFeerate.reverse.filterMap fun k => (pool.txs.lookup k.2.2).map (·.tx)

end Mempool

end Cryptex
