import Cryptex.Block
import Cryptex.Bridge.Text
import Cryptex.Encoding.Address

/-!
# Transactions as the native node shows them

`tx_to_json` of `rpc.cpp`, as far as the daemon reads it, and
`extract_recipient_from_tx` of `bridge_daemon.py`. The strings of the node are
bytes. The daemon decodes the body of a reply as UTF-8 before it parses it.
-/

namespace Cryptex

namespace Bridge

open Encoding

/-- An entry of `vout`. A missing key and `null` are both `none`. -/
structure OutputJson (σ : Type) where
  n : Nat
  valueSats : Int
  address : Option σ
  opReturnText : Option σ
deriving DecidableEq

structure InputJson (σ : Type) where
  txid : σ
  vout : Nat
deriving DecidableEq

/-- A verbose transaction. -/
structure TxJson (σ : Type) where
  txid : σ
  coinbase : Bool
  vin : List (InputJson σ)
  vout : List (OutputJson σ)
  confirmations : Option Nat
deriving DecidableEq

/-! ## The node -/

/-- The pushed bytes of a script that begins with 0x6a. -/
def opReturnPayload (bytes : Bytes) : Bytes :=
  match bytes.drop 1 with
  | [] => []
  | opcode :: pushed =>
      if opcode ≤ 75 ∧ opcode.toNat ≤ pushed.length then pushed.take opcode.toNat
      else if opcode = 0x4c ∧ pushed ≠ [] then
        let len := (pushed.getD 0 0).toNat
        if len ≤ (pushed.drop 1).length then (pushed.drop 1).take len else []
      else if opcode = 0x4d ∧ 1 < pushed.length then
        let len := (pushed.getD 0 0).toNat ||| (pushed.getD 1 0).toNat <<< 8
        if len ≤ (pushed.drop 2).length then (pushed.drop 2).take len else []
      else []

def isPrintable (ch : UInt8) : Bool := ch = 10 || ch = 13 || ch = 9 || (32 ≤ ch && ch ≤ 126)

section Node

variable (sha256 : Bytes → Hash256)

/-- The key `address` of `add_address_formats`: when one of the formats fails,
the script itself. -/
def addressField (script : Bytes) : Bytes :=
  match addressTo sha256 .base58check script, addressTo sha256 .base64 script,
      addressTo sha256 .hex script, addressTo sha256 .bech32 script with
  | some _, some base64, some _, some _ => base64
  | _, _, _, _ => script

/-- A script in base64 is its own address. -/
theorem addressField_base64 (p : Payload) :
    addressField sha256 (base64Encode p.bytes) = base64Encode p.bytes := by
  have hbase64 : addressTo sha256 .base64 (base64Encode p.bytes) = some (base64Encode p.bytes) :=
    canonicalizeAddress_base64 sha256 p
  rw [addressField]
  split
  · next h2 h3 h4 => exact Option.some.inj (h2.symm.trans hbase64)
  · rfl

/-- An output in `tx_to_json`. -/
def outputToJson (n : Nat) (out : TxOut) : OutputJson Bytes :=
  let script := out.scriptPubKey.toList
  if script.head? = some 0x6a then
    let payload := opReturnPayload script
    { n := n
      valueSats := out.value.toInt
      address := none
      opReturnText := if payload ≠ [] ∧ payload.all isPrintable then some payload else none }
  else
    { n := n
      valueSats := out.value.toInt
      address := some (addressField sha256 script)
      opReturnText := none }

/-- `tx_to_json`. -/
def txToJson (c : Crypto) (tx : Transaction) : TxJson Bytes where
  txid := hexEncode (Hash256.toBytes (tx.hash c))
  coinbase := tx.isCoinbase
  vin := tx.inputs.toList.map fun txin =>
    { txid := hexEncode (Hash256.toBytes txin.prevout.txHash), vout := txin.prevout.index.toNat }
  vout := tx.outputs.toList.mapIdx (outputToJson sha256)
  confirmations := none

end Node

/-! ## The daemon -/

def decodeText (s : Bytes) : Except PyError Text :=
  match Text.decodeUtf8 s with
  | none => .error .unicodeDecodeError
  | some t => .ok t

def decodeField : Option Bytes → Except PyError (Option Text)
  | none => .ok none
  | some s => (decodeText s).map some

/-- The strings of a reply, decoded. -/
def TxJson.decode (tx : TxJson Bytes) : Except PyError (TxJson Text) := do
  let txid ← decodeText tx.txid
  let vin ← tx.vin.mapM fun i => do return { txid := ← decodeText i.txid, vout := i.vout }
  let vout ← tx.vout.mapM fun o => do
    return { n := o.n, valueSats := o.valueSats, address := ← decodeField o.address,
             opReturnText := ← decodeField o.opReturnText }
  return { txid := txid, coinbase := tx.coinbase, vin := vin, vout := vout,
           confirmations := tx.confirmations }

/-- The reply of a node whose strings are UTF-8. -/
def TxJson.encode (tx : TxJson Text) : TxJson Bytes where
  txid := Text.encodeUtf8 tx.txid
  coinbase := tx.coinbase
  vin := tx.vin.map fun i => { txid := Text.encodeUtf8 i.txid, vout := i.vout }
  vout := tx.vout.map fun o =>
    { n := o.n
      valueSats := o.valueSats
      address := o.address.map Text.encodeUtf8
      opReturnText := o.opReturnText.map Text.encodeUtf8 }
  confirmations := tx.confirmations

theorem decodeText_encodeUtf8 (t : Text) : decodeText (Text.encodeUtf8 t) = .ok t := by
  rw [decodeText, Text.decodeUtf8_encodeUtf8]

theorem decodeField_encodeUtf8 (t : Option Text) :
    decodeField (t.map Text.encodeUtf8) = .ok t := by
  cases t with
  | none => rfl
  | some t =>
      rw [Option.map_some, decodeField, decodeText_encodeUtf8]
      rfl

theorem mapM_map_ok {ε α β : Type} {f : β → Except ε α} {g : α → β} (h : ∀ a, f (g a) = .ok a) :
    ∀ l : List α, (l.map g).mapM f = .ok l
  | [] => rfl
  | a :: l => by
      rw [List.map_cons, List.mapM_cons, h, mapM_map_ok h l]
      rfl

/-- Such a reply is read back. -/
theorem TxJson.decode_encode (tx : TxJson Text) : tx.encode.decode = .ok tx := by
  refine bind_eq_ok.mpr ⟨tx.txid, decodeText_encodeUtf8 _, ?_⟩
  refine bind_eq_ok.mpr ⟨tx.vin, mapM_map_ok (fun i => ?_) _, ?_⟩
  · exact bind_eq_ok.mpr ⟨i.txid, decodeText_encodeUtf8 _, rfl⟩
  · refine bind_eq_ok.mpr ⟨tx.vout, mapM_map_ok (fun o => ?_) _, rfl⟩
    exact bind_eq_ok.mpr ⟨o.address, decodeField_encodeUtf8 _,
      bind_eq_ok.mpr ⟨o.opReturnText, decodeField_encodeUtf8 _, rfl⟩⟩

/-- `extract_recipient_from_tx`, over the outputs. -/
def extractRecipient (memoPrefix : Text) : List (OutputJson Text) → Except PyError (Option Text)
  | [] => .ok none
  | output :: rest =>
      match output.opReturnText with
      | none => extractRecipient memoPrefix rest
      | some memo =>
          if !memoPrefix.isPrefixOf memo then extractRecipient memoPrefix rest
          else
            let recipient := Text.strip (memo.drop memoPrefix.length)
            if evmAddressRe recipient then (normalizeEvmAddress recipient).map some
            else extractRecipient memoPrefix rest

end Bridge

end Cryptex
