import Cryptex.Bridge.NativeJson
import Cryptex.Mempool

/-!
# Payments of the wallet

`Wallet::create_payment` of `wallet.cpp`. What it asks of the chain is a
`ChainView`; ECDSA signatures are a parameter.
-/

namespace Cryptex

open Encoding

/-- The keys of a wallet, by address, and its first address. -/
structure Wallet where
  address : Bytes
  privkey : Bytes
  addresses : List Bytes
  privkeys : List Bytes
  pubkeys : List Bytes

/-- `wallet_state_approved`, what `list_unspent` returns, and
`address_has_chain_activity`. -/
structure ChainView where
  approved : Bool
  unspent : List (OutPoint × UTXOEntry)
  active : Bytes → Bool

/-- The arguments of `create_payment`. -/
structure Payment where
  toAddress : Bytes
  amountSats : Int64
  opReturnMsg : Bytes
  feePerKb : Int64
  selectedInputs : List OutPoint
  changeAddress : Option Bytes

inductive WalletError where
  | message (text : String)
  | invalidAddress
  | lengthError
deriving DecidableEq

namespace Wallet

def require (b : Bool) (text : String) : Except WalletError Unit :=
  if b then .ok () else .error (.message text)

/-- A container of this size can be built. -/
def vecOf {α : Type} (l : List α) : Except WalletError (Vec α) :=
  if h : l.length < 2 ^ 64 then .ok ⟨l, h⟩ else .error .lengthError

section CreatePayment

variable (c : Crypto) (sha256 : Bytes → Hash256) (signHash : Hash256 → Bytes → Vec UInt8)

/-- `canonicalize_address` with its exception. -/
def canonical (address : Bytes) : Except WalletError Bytes :=
  match canonicalizeAddress sha256 address with
  | none => .error .invalidAddress
  | some a => .ok a

/-- `canonicalize_address` where the exception is replaced. -/
def canonicalOr (text : String) (address : Bytes) : Except WalletError Bytes :=
  match canonicalizeAddress sha256 address with
  | none => .error (.message text)
  | some a => .ok a

def sumValues (selected : List (OutPoint × UTXOEntry)) : Int64 :=
  selected.foldl (fun total u => total + u.2.output.value) 0

/-- The fee for a size. -/
def feeFor (feePerKb : Int64) (size : Nat) : Int64 := Int64.ofNat ((size + 999) / 1000) * feePerKb

/-- The coins in turn until they cover the amount and the estimated fee. -/
def selectCoins (amountSats feePerKb : Int64) (toSize : Nat) :
    List (OutPoint × UTXOEntry) → List (OutPoint × UTXOEntry) → List (OutPoint × UTXOEntry)
  | [], selected => selected
  | u :: rest, selected =>
      let selected := selected ++ [u]
      let estimatedSize := 4 + 4 + 1 + selected.length * (36 + 1 + 110 + 4) + 1 + 2 * (8 + 1 + toSize)
      if sumValues selected ≥ amountSats + feeFor feePerKb estimatedSize then selected
      else selectCoins amountSats feePerKb toSize rest selected

/-- The coins that the caller has chosen. -/
def chosenCoins (view : ChainView) :
    List OutPoint → Except WalletError (List (OutPoint × UTXOEntry))
  | [] => .ok []
  | outpoint :: rest =>
      match view.unspent.find? (·.1 = outpoint) with
      | none => .error (.message "selected input is not available in wallet")
      | some u => (chosenCoins view rest).map (u :: ·)

/-- The inputs of a payment. -/
def coins (view : ChainView) (p : Payment) (canonicalTo : Bytes) :
    Except WalletError (List (OutPoint × UTXOEntry)) :=
  if p.selectedInputs ≠ [] then chosenCoins view p.selectedInputs
  else .ok (selectCoins p.amountSats p.feePerKb canonicalTo.length view.unspent [])

/-- The estimate of `create_payment` before the change is added. -/
def estimateSize (inputs : Nat) (outputs : List TxOut) : Nat :=
  4 + 4 + 1 + inputs * (36 + (1 + 110) + 4) + 1
    + (outputs.map fun o => 8 + (1 + o.scriptPubKey.toList.length)).sum

/-- `first_unused_wallet_address`. -/
def firstUnusedWalletAddress (active : Bytes → Bool) (exclude : Bytes) :
    List Bytes → Except WalletError (Option Bytes)
  | [] => .ok none
  | candidate :: rest => do
      let canonicalCandidate ← canonical sha256 candidate
      if canonicalCandidate = exclude then firstUnusedWalletAddress active exclude rest
      else if !active candidate then return some canonicalCandidate
      else firstUnusedWalletAddress active exclude rest

/-- The script of the change. -/
def changeScript (w : Wallet) (view : ChainView) (canonicalTo : Bytes) :
    Option Bytes → Except WalletError Bytes
  | some (b :: given) => canonicalOr sha256 "invalid change address format" (b :: given)
  | _ => do
      let exclude ← canonical sha256 canonicalTo
      match ← firstUnusedWalletAddress sha256 view.active exclude w.addresses with
      | some privacyChange => return privacyChange
      | none => canonical sha256 w.address

/-- The change, unless it is dust. -/
def changeOutputs (w : Wallet) (view : ChainView) (canonicalTo : Bytes) (changeAddress : Option Bytes)
    (change : Int64) : Except WalletError (List TxOut) :=
  if change ≥ Constants.dustLimitSats then do
    let script ← changeScript sha256 w view canonicalTo changeAddress
    return [{ value := change, scriptPubKey := ← vecOf script }]
  else .ok []

/-- The output for `op_return`: the message is hashed and signed. -/
def opReturnOutputs (w : Wallet) (opReturnMsg : Bytes) : Except WalletError (List TxOut) :=
  if opReturnMsg = [] then .ok []
  else do
    let sig := signHash (c.hash256 opReturnMsg) w.privkey
    return [{ value := 0, scriptPubKey := ← vecOf (Mempool.opReturnPrefix ++ base64Encode sig.toList) }]

/-- The key for a script; a later address with the same canonical form
replaces an earlier one. -/
def signingKey (canonicalAddresses : List Bytes) (script : Bytes) : Option Nat :=
  (canonicalAddresses.reverse.findIdx? (· = script)).map fun i => canonicalAddresses.length - 1 - i

/-- The signing loop, from input `i` on. -/
def signInputs (w : Wallet) (canonicalAddresses : List Bytes) :
    Nat → List (OutPoint × UTXOEntry) → Transaction → Except WalletError Transaction
  | _, [], tx => .ok tx
  | i, (_, entry) :: rest, tx => do
      let sigh := tx.sighash c i entry.output.scriptPubKey
      let script ← canonical sha256 entry.output.scriptPubKey.toList
      match signingKey canonicalAddresses script with
      | none => .error (.message "missing key for selected input")
      | some key =>
          let sig := signHash sigh (w.privkeys.getD key [])
          let scriptSig ← vecOf (sig.toList ++ w.pubkeys.getD key [])
          signInputs w canonicalAddresses (i + 1) rest
            { tx with
              inputs := tx.inputs.mapIdx fun j txin =>
                if j = i then { txin with scriptSig := scriptSig } else txin }

/-- `create_payment`. -/
def createPayment (w : Wallet) (view : ChainView) (p : Payment) :
    Except WalletError Transaction := do
  require view.approved "wallet is locked until chain sync is approved"
  require (p.amountSats > 0) "amount must be positive"
  let canonicalTo ← canonicalOr sha256 "invalid destination address format" p.toAddress
  let selected ← coins view p canonicalTo
  let total := sumValues selected
  require (total ≥ p.amountSats) "insufficient funds"
  let outTo : TxOut := { value := p.amountSats, scriptPubKey := ← vecOf canonicalTo }
  let fee := feeFor p.feePerKb (estimateSize selected.length [outTo])
  let change := total - p.amountSats - fee
  require (change ≥ 0) "insufficient for fee"
  let changeOut ← changeOutputs sha256 w view canonicalTo p.changeAddress change
  let opret ← opReturnOutputs c signHash w p.opReturnMsg
  let canonicalAddresses ← w.addresses.mapM (canonical sha256)
  let inputs ← vecOf (selected.map fun u =>
    { prevout := u.1, scriptSig := ⟨[], by decide⟩, sequence := 0xFFFFFFFF })
  let outputs ← vecOf (outTo :: (changeOut ++ opret))
  signInputs c sha256 signHash w canonicalAddresses 0 selected
    { version := 1, inputs := inputs, outputs := outputs, lockTime := 0 }

end CreatePayment

end Wallet

end Cryptex
