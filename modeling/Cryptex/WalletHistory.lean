import Cryptex.Lib.CoinReplay
import Cryptex.LocalMiner
import Cryptex.WalletKeys

/-!
# The history of a wallet

`history_entries` of `wallet.cpp`: a replay of the chain, and of the pool in
the order of `get_transactions`, with a table of its own of all outputs seen so
far. The balance is a scan of the UTXO map. As two ways to add up one ledger
(`CoinReplay`) they differ by the outputs that were replaced, by the inputs
that were listed without effect, and by the pool inputs that come before the
transaction they spend.
-/

namespace Cryptex

open Encoding

/-- The height of the next block, as the outputs of the pool get it. -/
def ChainReader.nextHeight (chain : ChainReader) : UInt32 := (chain.bestHeight + 1).toUInt32

namespace HdWallet

/-! ## Entries -/

/-- The direction of an entry. -/
inductive Direction where
  | mined
  | sent
  | self
  | received
deriving DecidableEq

structure HistoryEntry where
  txid : Bytes
  direction : Direction
  summaryAddress : Bytes
  fromAddresses : List Bytes
  toAddresses : List Bytes
  netSats : Int64
  receivedSats : Int64
  sentSats : Int64
  feeSats : Int64
  timestamp : UInt64
  blockHeight : Option UInt64
  confirmations : UInt64
  coinbase : Bool
  inMempool : Bool

/-- The loop of `dedupe_preserving_order`, with the values it has seen. -/
def dedupeLoop (seen : List Bytes) : List Bytes → List Bytes
  | [] => []
  | value :: rest =>
      if value = [] ∨ value ∈ seen then dedupeLoop seen rest
      else value :: dedupeLoop (value :: seen) rest

/-- `dedupe_preserving_order`. -/
def dedupePreservingOrder (values : List Bytes) : List Bytes := dedupeLoop [] values

/-- A sum in `int64_t`. -/
def sumValues (outs : List TxOut) : Int64 := outs.foldl (fun sum out => sum + out.value) 0

section

variable (lib : KeyLib)

/-- `owned_address_set`: every address in its canonical form. -/
def ownedAddressSet (w : HdWallet) : Except Stop (List Bytes) :=
  w.addresses.mapM fun address =>
    match canonicalizeAddress lib.sha256 address with
    | none => .error (.thrown .invalidAddress)
    | some canonical => .ok canonical

/-- Whether a script has a canonical form that is in a set of addresses. -/
def isOwned (owned : List Bytes) (script : Bytes) : Bool :=
  match canonicalizeAddress lib.sha256 script with
  | none => false
  | some canonical => decide (canonical ∈ owned)

/-- `label_for`. -/
def labelFor (w : HdWallet) (address : Bytes) : Bytes :=
  (w.labels.lookup (normalizeLabelKey lib address)).getD []

/-- What is shown of the counterparty of an entry. -/
def summaryAddress (w : HdWallet) (owned : List Bytes) (direction : Direction)
    (fromAddresses toAddresses : List Bytes) : Bytes :=
  let foreign :=
    if direction = .sent ∨ direction = .self then toAddresses.find? (!isOwned lib owned ·) else none
  let summary := ((foreign.or (toAddresses.find? (isOwned lib owned ·))).or fromAddresses.head?).getD []
  let label := w.labelFor lib summary
  if label = [] then summary else label ++ chars " <" ++ summary ++ chars ">"

/-- `make_entry`: nothing for a transaction that has no owned input and no
owned output. -/
def makeEntry (c : Crypto) (w : HdWallet) (owned : List Bytes) (bestHeight : UInt64) (seen : UTXOSet)
    (blockHeight : Option UInt64) (timestamp : UInt64) (inMempool : Bool) (tx : Transaction) :
    Option HistoryEntry :=
  let spent := tx.inputs.toList.filterMap fun txin => (seen.lookup txin.prevout).map (·.output)
  let outputs := tx.outputs.toList
  let ownedInputs := spent.filter fun out => isOwned lib owned out.scriptPubKey.toList
  let ownedOutputs := outputs.filter fun out => isOwned lib owned out.scriptPubKey.toList
  let hasExternalOutput := outputs.any fun out =>
    !isOwned lib owned out.scriptPubKey.toList &&
      !(chars "OP_RETURN:").isPrefixOf out.scriptPubKey.toList
  if ownedInputs = [] ∧ ownedOutputs = [] then none
  else
    let direction : Direction :=
      if tx.isCoinbase ∧ ownedOutputs ≠ [] then .mined
      else if ownedInputs ≠ [] ∧ hasExternalOutput then .sent
      else if ownedInputs ≠ [] ∧ ownedOutputs ≠ [] then .self
      else .received
    let fromAddresses := dedupePreservingOrder (spent.map fun out => out.scriptPubKey.toList)
    let toAddresses := dedupePreservingOrder (outputs.map fun out => out.scriptPubKey.toList)
    some
      { txid := hexEncode (tx.hash c).toBytes
        direction := direction
        summaryAddress := w.summaryAddress lib owned direction fromAddresses toAddresses
        fromAddresses := fromAddresses
        toAddresses := toAddresses
        netSats := sumValues ownedOutputs - sumValues ownedInputs
        receivedSats := sumValues ownedOutputs
        sentSats := sumValues ownedInputs
        feeSats :=
          if !tx.isCoinbase ∧ sumValues spent ≥ tx.totalOutputValue then
            sumValues spent - tx.totalOutputValue
          else 0
        timestamp := timestamp
        blockHeight := blockHeight
        confirmations :=
          match blockHeight with
          | none => 0
          | some h => if bestHeight ≥ h then bestHeight - h + 1 else 0
        coinbase := tx.isCoinbase
        inMempool := inMempool }

/-! ## The replay -/

/-- The table of outputs and the entries so far. -/
structure Replayed where
  seen : UTXOSet
  entries : List HistoryEntry

/-- One transaction: its entry, then its outputs. -/
def Replayed.visit (c : Crypto) (w : HdWallet) (owned : List Bytes) (bestHeight : UInt64)
    (height : UInt32) (blockHeight : Option UInt64) (timestamp : UInt64) (inMempool : Bool)
    (s : Replayed) (tx : Transaction) : Replayed where
  seen := UTXOSet.addOutputs c s.seen tx height
  entries := s.entries ++
    (makeEntry lib c w owned bestHeight s.seen blockHeight timestamp inMempool tx).toList

/-- The block of a height, if there is one. -/
def Replayed.visitHeight (c : Crypto) (w : HdWallet) (owned : List Bytes) (chain : ChainReader)
    (s : Replayed) (h : Nat) : Replayed :=
  match chain.blocks[h]? with
  | none => s
  | some blk =>
      blk.transactions.toList.foldl
        (Replayed.visit lib c w owned chain.bestHeight (UInt32.ofNat h) (some (UInt64.ofNat h))
          (UInt64.ofNat blk.header.timestamp.toNat) false) s

/-- The order of the entries: those of the pool first, then the highest block,
then the latest. -/
def HistoryEntry.precedes (a b : HistoryEntry) : Bool :=
  if a.inMempool ≠ b.inMempool then a.inMempool && !b.inMempool
  else if a.blockHeight ≠ b.blockHeight then
    decide (a.blockHeight.getD 0xFFFFFFFFFFFFFFFF > b.blockHeight.getD 0xFFFFFFFFFFFFFFFF)
  else decide (a.timestamp > b.timestamp)

/-- `history_entries`. -/
def historyEntries (c : Crypto) (w : HdWallet) (chain : ChainReader) (pool : Mempool)
    (includeMempool : Bool) (now : UInt64) : Except Stop (List HistoryEntry) :=
  match w.ownedAddressSet lib with
  | .error e => .error e
  | .ok owned =>
      let s := (List.range (chain.bestHeight.toNat + 1)).foldl
        (Replayed.visitHeight lib c w owned chain) ⟨∅, []⟩
      let s :=
        if includeMempool then
          pool.getTransactions.foldl
            (Replayed.visit lib c w owned chain.bestHeight chain.nextHeight none now true) s
        else s
      .ok (s.entries.mergeSort fun a b => !b.precedes a)

end

/-- The sum that `history` shows below the entries. -/
def historyBalance (entries : List HistoryEntry) : Int64 :=
  entries.foldl (fun balance entry => balance + entry.netSats) 0

def BalanceSummary.total (summary : BalanceSummary) : Int64 :=
  summary.spendable + summary.immature + summary.locked

end HdWallet

end Cryptex
