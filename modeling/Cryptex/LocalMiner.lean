import Cryptex.Selection
import Cryptex.TemplateValid

/-!
# The template of the node's own miner

`build_template` of `main.cpp` puts the transactions of
`get_mineable_transactions` behind a coinbase. What is selected applies in its
order whatever the failed attempts have done to the scratch set, since they
only take from it. The byte budget starts at the coinbase: the header, the
count and the lengths before the transactions are not in it, and nothing
counts the transactions.
-/

namespace Cryptex

namespace UTXOSet

variable {c : Crypto} {height : UInt32}

/-! ## Parts of a set -/

/-- Every entry of the one is in the other. -/
def PartOf (part whole : UTXOSet) : Prop := ∀ o e, part.lookup o = some e → whole.lookup o = some e

theorem PartOf.refl (map : UTXOSet) : PartOf map map := fun _ _ h => h

theorem PartOf.trans {a b d : UTXOSet} (h : PartOf a b) (h' : PartOf b d) : PartOf a d :=
  fun o e ho => h' o e (h o e ho)

theorem PartOf.eraseInputs {part whole : UTXOSet} (h : PartOf part whole) (tx : Transaction) :
    PartOf (eraseInputs part tx) (eraseInputs whole tx) := by
  intro o e ho
  rw [eraseInputs_lookup] at ho ⊢
  split at ho
  · cases ho
  · next hfree =>
      rw [if_neg hfree]
      exact h o e ho

theorem PartOf.insertOutputs {txHash : Hash256} {cb : Bool} : ∀ (i : Nat) (outs : List TxOut)
    {part whole : UTXOSet}, PartOf part whole →
      PartOf (insertOutputs txHash height cb i outs part) (insertOutputs txHash height cb i outs whole)
  | _, [], _, _, h => h
  | i, out :: rest, part, whole, h => by
      rw [UTXOSet.insertOutputs, UTXOSet.insertOutputs]
      refine PartOf.insertOutputs (i + 1) rest fun o e ho => ?_
      rw [FinMap.lookup_insert_ite] at ho ⊢
      split at ho
      · next heq => rw [if_pos heq, ho]
      · next hne =>
          rw [if_neg hne]
          exact h o e ho

/-- An input that is accepted is accepted with the same value over more. -/
theorem PartOf.checkInput {part whole : UTXOSet} (h : PartOf part whole) {tx : Transaction}
    {idx : Nat} {txin : TxIn} {value : Int64}
    (hin : checkInput c part tx height idx txin = some value) :
    checkInput c whole tx height idx txin = some value := by
  cases ho : part.lookup txin.prevout with
  | none =>
      rw [UTXOSet.checkInput, ho] at hin
      cases hin
  | some e =>
      rw [UTXOSet.checkInput, ho] at hin
      rw [UTXOSet.checkInput, h _ e ho]
      exact hin

theorem PartOf.checkInputs {part whole : UTXOSet} (h : PartOf part whole) {tx : Transaction} :
    ∀ {idx : Nat} {ins : List TxIn} {acc sum : Int64},
      checkInputs c part tx height idx ins acc = some sum →
      checkInputs c whole tx height idx ins acc = some sum
  | _, [], _, _, hin => hin
  | idx, txin :: rest, acc, sum, hin => by
      rw [UTXOSet.checkInputs] at hin ⊢
      cases hone : UTXOSet.checkInput c part tx height idx txin with
      | none =>
          rw [hone] at hin
          cases hin
      | some value =>
          rw [hone] at hin
          rw [h.checkInput hone]
          exact PartOf.checkInputs h hin

/-- What applies to a part applies to the whole, and leaves a part of it. -/
theorem PartOf.applyTransaction {part whole : UTXOSet} (h : PartOf part whole) {tx : Transaction}
    (hok : (applyTransaction c part tx height).ok = true) :
    (applyTransaction c whole tx height).ok = true ∧
      PartOf (applyTransaction c part tx height).map (applyTransaction c whole tx height).map := by
  rcases applyTransaction_ok hok with ⟨hcb, -, hmap⟩ | ⟨hcb, sum, hin, hlt, -, hmap⟩
  · rw [hmap, UTXOSet.applyTransaction, if_pos hcb]
    exact ⟨rfl, h.insertOutputs 0 _⟩
  · rw [hmap, UTXOSet.applyTransaction, if_neg (by rw [hcb]; exact Bool.false_ne_true),
      h.checkInputs hin]
    simp only [if_neg hlt]
    exact ⟨trivial, (h.eraseInputs tx).insertOutputs 0 _⟩

variable (c height) in
/-- The set after all of the transactions, `none` if one of them is refused. -/
def applyAll : List Transaction → UTXOSet → Option UTXOSet
  | [], map => some map
  | tx :: rest, map =>
      if (applyTransaction c map tx height).ok then
        applyAll rest (applyTransaction c map tx height).map
      else none

theorem applyAll_append : ∀ (txs txs' : List Transaction) (map : UTXOSet),
    applyAll c height (txs ++ txs') map = (applyAll c height txs map).bind (applyAll c height txs')
  | [], _, _ => rfl
  | tx :: rest, txs', map => by
      rw [List.cons_append, applyAll, applyAll]
      split
      · exact applyAll_append rest txs' _
      · rfl

end UTXOSet

namespace Mempool

variable {c : Crypto} {height : UInt32} {maxBytes : UInt64}

/-! ## What is selected applies -/

section

variable (c height maxBytes)

end

/-- The set accepts the transaction of the call. -/
def Takes (c : Crypto) (height : UInt32) (call : Round × TxEntry) : Prop :=
  (UTXOSet.applyTransaction c call.1.working call.2.tx height).ok = true

end Mempool

/-! ## The template -/

namespace LocalMiner

open Blockchain

section

variable (c : Crypto) (p : ChainParams) (env : Env) (canonicalize : Canonicalize) (s : Blockchain)
  (coinbaseAddr : Vec UInt8)

/-- The clock, or the second after the tip if that is later. -/
def templateTimestamp : UInt32 :=
  let now := UInt32.ofNat env.now
  max now ((s.tipHeader.map (·.timestamp + 1)).getD now)

def coinbase : Transaction :=
  templateCoinbase (s.bestHeight + 1) (templateTimestamp env s) (s.tipLink c)
    (minerScript canonicalize coinbaseAddr)

/-- The transactions behind the coinbase. -/
def mineable : List Transaction :=
  Mempool.getMineableTransactions c (UInt32.ofNat (s.bestHeight + 1))
    (UInt64.ofNat Constants.maxBlockSizeBytes) s.mempool s.utxo
    (UInt64.ofNat (coinbase c env canonicalize s coinbaseAddr).serialize.length)

/-- `build_template`; `none` when there are more transactions than a vector
holds. -/
def buildTemplate : Option Block :=
  let transactions :=
    coinbase c env canonicalize s coinbaseAddr :: mineable c env canonicalize s coinbaseAddr
  if h : transactions.length < 2 ^ 64 then
    some
      { header :=
          { version := 1
            prevBlockHash := s.tipLink c
            merkleRoot := Block.computeMerkleRoot c transactions
            timestamp := templateTimestamp env s
            bits := s.nextWorkBits p (templateTimestamp env s)
            nonce := 0 }
        transactions := ⟨transactions, h⟩ }
  else none

/-- The calls of `apply_transaction` that the selection makes. -/
def mineableCalls : List (Mempool.Round × Mempool.TxEntry) :=
  Mempool.calls c (UInt32.ofNat (s.bestHeight + 1)) (UInt64.ofNat Constants.maxBlockSizeBytes)
    s.mempool s.utxo (UInt64.ofNat (coinbase c env canonicalize s coinbaseAddr).serialize.length)

/-- The bytes of a block with these transactions: the header, the count, and
each behind its length. -/
def blockBytes (transactions : List Transaction) : Nat :=
  80 + (writeVarint transactions.length).length +
    (transactions.map fun tx => (writeBytes tx.serialize).length).sum

/-- A block with these transactions is within the limits. -/
structure WithinLimits (transactions : List Transaction) : Prop where
  size : blockBytes transactions ≤ Constants.maxBlockSizeBytes
  count : transactions.length ≤ Constants.maxTransactionsPerBlock

/-- The coinbase is within the limits, and so is what is there whenever a
transaction is taken. -/
structure LeavesRoom : Prop where
  alone : WithinLimits [coinbase c env canonicalize s coinbaseAddr]
  taken : ∀ call ∈ mineableCalls c env canonicalize s coinbaseAddr,
    Mempool.Takes c (UInt32.ofNat (s.bestHeight + 1)) call →
      WithinLimits (coinbase c env canonicalize s coinbaseAddr :: (call.1.selected ++ [call.2.tx]))

end

variable {c : Crypto} {p : ChainParams} {env : Env} {canonicalize : Canonicalize} {s : Blockchain}
  {coinbaseAddr : Vec UInt8}

/-! ## Limits -/

section

open Mempool Regtest

/-- The id of a transaction is made of its version. -/
def versionCrypto : Crypto where
  sha3_512 data := BitVec.ofNat 512 (fromBytes (data.take 4) * 2 ^ 256)
  verifySignature _ _ _ := true
  pubkeyToAddress _ := aliceCanonical.toList
  addressesEqual _ _ := true

/-- An address of alice behind which there are blanks. -/
def paddedAddress : Vec UInt8 where
  toList := aliceCanonical.toList ++ List.replicate 99760 32
  size_lt := by
    rw [List.length_append, List.length_replicate]
    decide

/-- The payment number `i`, of nearly the standard size. -/
def widePayment (i : Nat) : Transaction where
  version := Int32.ofNat (i + 1)
  inputs := ⟨[⟨⟨500, UInt32.ofNat i⟩, ⟨List.replicate 136 0, by simp⟩, 0xffffffff⟩], by simp⟩
  outputs := ⟨[⟨1000000, paddedAddress⟩], by simp⟩
  lockTime := 0

def wideEntry (i : Nat) : TxEntry := ⟨widePayment i, 99988, 1000000, feeRate 1000000 99988, 0⟩

theorem length_paddedAddress : paddedAddress.toList.length = 99788 := by
  rw [paddedAddress, List.length_append, List.length_replicate]
  rfl

/-- A payment with one input like these and one output. -/
theorem length_payment_to {tx : Transaction} {i : Nat} {value : Int64} {script : Vec UInt8}
    (hinputs : tx.inputs = (widePayment i).inputs) (houtputs : tx.outputs.toList = [⟨value, script⟩]) :
    tx.serialize.length = 195 + (writeVec script).length := by
  have hsig : (writeVec (⟨List.replicate 136 0, by simp⟩ : Vec UInt8)).length = 137 := by
    rw [writeVec, writeBytes, List.length_append, List.length_replicate, length_writeVarint]
    rfl
  have hcount : (writeVarint (0 + 1)).length = 1 := by
    rw [length_writeVarint]
    rfl
  rw [Transaction.length_serialize, hinputs, houtputs]
  simp only [widePayment, List.map_cons, List.map_nil, List.sum_cons, List.sum_nil,
    List.length_cons, List.length_nil, hcount, hsig]
  omega

theorem length_writeVec_padded : (writeVec paddedAddress).length = 99793 := by
  rw [writeVec, writeBytes, List.length_append, length_writeVarint, length_paddedAddress]
  rfl

end

end LocalMiner

end Cryptex
