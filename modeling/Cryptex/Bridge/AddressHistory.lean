import Cryptex.Bridge.NativeJson
import Cryptex.ChainState

/-!
# The history of an address

`find_transaction`, the ids that `scan_address_summary` collects, and the
methods `getaddresstxids` and `getrawtransaction` of `rpc.cpp`.
-/

namespace Cryptex

open Encoding Bridge

namespace Blockchain

variable (crypto : Crypto) (sha256 : Bytes → Hash256) (s : Blockchain)

/-- `find_transaction`: the pool before the chain. -/
def findTransaction (txid : Hash256) : Option (Transaction × Option Nat) :=
  match s.mempool.txs.lookup txid with
  | some entry => some (entry.tx, none)
  | none =>
      (List.range (s.bestHeight + 1)).findSome? fun h =>
        match s.getBlock h with
        | none => none
        | some block =>
            (block.transactions.toList.find? fun tx => tx.hash crypto = txid).map (·, some h)

/-- The transactions of the chain, from genesis on. -/
def chainTransactions : List Transaction :=
  (List.range (s.bestHeight + 1)).flatMap fun h =>
    match s.getBlock h with
    | none => []
    | some block => block.transactions.toList

end Blockchain

section History

variable (crypto : Crypto) (sha256 : Bytes → Hash256)

/-- `matched` of `process_tx`. -/
def touches (address : Bytes) (seen : FinMap OutPoint TxOut) (tx : Transaction) : Bool :=
  (tx.inputs.toList.any fun input =>
    match seen.lookup input.prevout with
    | none => false
    | some out => addressesEqual sha256 out.scriptPubKey.toList address) ||
  tx.outputs.toList.any fun out => addressesEqual sha256 out.scriptPubKey.toList address

/-- `seen_outputs` after a transaction. -/
def seeOutputs (seen : FinMap OutPoint TxOut) (tx : Transaction) : FinMap OutPoint TxOut :=
  seen.insertAll (tx.outputs.toList.mapIdx fun i out => (⟨tx.hash crypto, UInt32.ofNat i⟩, out))

/-- The ids that `process_tx` collects. -/
def collectTxids (address : Bytes) : FinMap OutPoint TxOut → List Transaction → List Hash256
  | _, [] => []
  | seen, tx :: rest =>
      if touches sha256 address seen tx then
        tx.hash crypto :: collectTxids address (seeOutputs crypto seen tx) rest
      else collectTxids address (seeOutputs crypto seen tx) rest

namespace Blockchain

variable (s : Blockchain)

/-- `scan_address_summary`, the ids of it. -/
def addressTxids (address : Bytes) (includeMempool : Bool) : List Hash256 :=
  let canonical := (canonicalizeAddress sha256 address).getD address
  collectTxids crypto sha256 canonical ∅
    (s.chainTransactions ++ if includeMempool then s.mempool.getTransactions else [])

/-- `getaddresstxids`. -/
def getAddressTxids (address : Bytes) (includeMempool : Bool) (limit : Nat) : List Hash256 :=
  (s.addressTxids crypto sha256 address includeMempool).take limit

/-- `getrawtransaction`, verbose. -/
def getRawTransaction (txid : Hash256) : Option (TxJson Bytes) :=
  (s.findTransaction crypto txid).map fun located =>
    { txToJson sha256 crypto located.1 with
      confirmations := some
        (match located.2 with
        | none => 0
        | some height => s.bestHeight - height + 1) }

end Blockchain

variable {crypto sha256}

/-- A payment to the address is collected. -/
theorem mem_collectTxids {address : Bytes} {tx : Transaction}
    (hpays : ∃ out ∈ tx.outputs.toList,
      addressesEqual sha256 out.scriptPubKey.toList address = true) :
    ∀ {txs : List Transaction} {seen : FinMap OutPoint TxOut}, tx ∈ txs →
      tx.hash crypto ∈ collectTxids crypto sha256 address seen txs
  | first :: rest, seen, hmem => by
      rw [collectTxids]
      rcases List.mem_cons.mp hmem with rfl | hmem
      · rw [if_pos]
        · exact List.mem_cons_self
        · obtain ⟨out, hout, hequal⟩ := hpays
          exact Bool.or_eq_true_iff.mpr (.inr (List.any_eq_true.mpr ⟨out, hout, hequal⟩))
      · split
        · exact List.mem_cons_of_mem _ (mem_collectTxids hpays hmem)
        · exact mem_collectTxids hpays hmem

/-- Where all transactions are payments to the address, all of them are. -/
theorem collectTxids_eq_map {address : Bytes} : ∀ {txs : List Transaction}
    {seen : FinMap OutPoint TxOut}, (∀ tx ∈ txs, ∃ out ∈ tx.outputs.toList,
      addressesEqual sha256 out.scriptPubKey.toList address = true) →
    collectTxids crypto sha256 address seen txs = txs.map (·.hash crypto)
  | [], _, _ => rfl
  | tx :: rest, seen, hpays => by
      obtain ⟨out, hout, hequal⟩ := hpays tx List.mem_cons_self
      rw [collectTxids, if_pos, List.map_cons,
        collectTxids_eq_map fun t ht => hpays t (List.mem_cons_of_mem _ ht)]
      exact Bool.or_eq_true_iff.mpr (.inr (List.any_eq_true.mpr ⟨out, hout, hequal⟩))

/-- A payment to the address in the chain is in its history. -/
theorem Blockchain.mem_addressTxids {s : Blockchain} {address a : Bytes}
    (ha : canonicalizeAddress sha256 address = some a) {height : Nat} {block : Block}
    {tx : Transaction} (hheight : height ≤ s.bestHeight) (hblock : s.getBlock height = some block)
    (htx : tx ∈ block.transactions.toList)
    (hpays : ∃ out ∈ tx.outputs.toList, addressesEqual sha256 out.scriptPubKey.toList a = true)
    (includeMempool : Bool) : tx.hash crypto ∈ s.addressTxids crypto sha256 address includeMempool := by
  rw [addressTxids, ha]
  refine mem_collectTxids hpays (List.mem_append_left _ (List.mem_flatMap.mpr ⟨height, ?_, ?_⟩))
  · exact List.mem_range.mpr (Nat.lt_succ_of_le hheight)
  · rw [hblock]
    exact htx

end History

end Cryptex
