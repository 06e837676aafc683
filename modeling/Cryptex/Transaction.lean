import Cryptex.Serialization

/-!
# Transactions

`transaction.cpp`: outpoints, inputs, outputs and transactions with their
wire format, the transaction id and the signature hash.

The cryptography the source takes from OpenSSL (SHA3-512, ECDSA, the
SHA-256/RIPEMD-160 address hash) and the address comparison of `base64.cpp`
are the fields of `Crypto`; nothing about them is assumed.
-/

namespace Cryptex

open Codec

/-- The primitives the node is linked with. A digest is the big-endian value
of its 64 bytes. -/
structure Crypto where
  sha3_512 : Bytes → Hash512
  verifySignature : Hash256 → Bytes → Bytes → Bool
  pubkeyToAddress : Bytes → Bytes
  addressesEqual : Bytes → Bytes → Bool

/-- The first 32 bytes of the SHA3-512 digest: transaction ids, header links
and merkle nodes. -/
def Crypto.hash256 (c : Crypto) (data : Bytes) : Hash256 := (c.sha3_512 data).first

/-! ## Data -/

structure OutPoint where
  txHash : Hash256
  index : UInt32
deriving DecidableEq

structure TxIn where
  prevout : OutPoint
  scriptSig : Vec UInt8
  sequence : UInt32
deriving DecidableEq

structure TxOut where
  value : Int64
  scriptPubKey : Vec UInt8
deriving DecidableEq

structure Transaction where
  version : Int32
  inputs : Vec TxIn
  outputs : Vec TxOut
  lockTime : UInt32
deriving DecidableEq

/-! ## Wire format -/

namespace OutPoint

def serialize (o : OutPoint) : Bytes := o.txHash.toBytes ++ writeU32 o.index

def deserialize : Decoder OutPoint UInt8 := fun data =>
  match readHash256 data with
  | none => none
  | some (txHash, rest) => (readU32 rest).map fun p => (⟨txHash, p.1⟩, p.2)

theorem roundTrip : RoundTrip serialize deserialize := fun o rest => by
  simp only [serialize, deserialize, List.append_assoc, roundTrip_hash256 _ _,
    roundTrip_u32 _ _, Option.map_some]

theorem deserialize_exact {o : OutPoint} {data rest : Bytes}
    (h : deserialize data = some (o, rest)) : data = o.serialize ++ rest := by
  rw [deserialize] at h
  cases hhash : readHash256 data with
  | none => rw [hhash] at h; cases h
  | some res =>
      obtain ⟨txHash, r⟩ := res
      rw [hhash] at h
      obtain ⟨⟨index, r'⟩, hindex, heq⟩ := Option.map_eq_some_iff.mp h
      cases heq
      rw [readHash256_exact hhash, readU32_exact hindex, serialize, List.append_assoc]

end OutPoint

namespace TxIn

def serialize (i : TxIn) : Bytes :=
  i.prevout.serialize ++ writeVec i.scriptSig ++ writeU32 i.sequence

def deserialize : Decoder TxIn UInt8 := fun data =>
  match OutPoint.deserialize data with
  | none => none
  | some (prevout, rest) =>
      match readBytes rest with
      | none => none
      | some (scriptSig, rest') =>
          (readU32 rest').map fun p => (⟨prevout, scriptSig, p.1⟩, p.2)

theorem roundTrip : RoundTrip serialize deserialize := fun i rest => by
  simp only [serialize, deserialize, List.append_assoc, OutPoint.roundTrip _ _,
    roundTrip_vec _ _, roundTrip_u32 _ _, Option.map_some]

/-- The length of the script has its shortest form. -/
def Form (data : Bytes) : Prop :=
  ∀ prevout rest, OutPoint.deserialize data = some (prevout, rest) → ShortVarint rest

theorem deserialize_exact : ExactOn serialize deserialize Form := by
  intro data i rest hform h
  rw [deserialize] at h
  cases hprev : OutPoint.deserialize data with
  | none => rw [hprev] at h; cases h
  | some res =>
      obtain ⟨prevout, r⟩ := res
      rw [hprev] at h
      simp only at h
      cases hsig : readBytes r with
      | none => rw [hsig] at h; cases h
      | some res' =>
          obtain ⟨scriptSig, r'⟩ := res'
          rw [hsig] at h
          obtain ⟨⟨sequence, r''⟩, hseq, heq⟩ := Option.map_eq_some_iff.mp h
          cases heq
          rw [OutPoint.deserialize_exact hprev, readBytes_exact (hform _ _ hprev) hsig,
            readU32_exact hseq, serialize]
          simp only [List.append_assoc]

theorem form_serialize (i : TxIn) (rest : Bytes) : Form (i.serialize ++ rest) := by
  intro prevout r h
  rw [serialize, List.append_assoc, List.append_assoc, OutPoint.roundTrip _ _] at h
  cases h
  rw [writeVec, writeBytes, List.append_assoc]
  exact shortVarint_writeVarint _ i.scriptSig.size_lt

end TxIn

namespace TxOut

def serialize (o : TxOut) : Bytes := writeI64 o.value ++ writeVec o.scriptPubKey

def deserialize : Decoder TxOut UInt8 := fun data =>
  match readI64 data with
  | none => none
  | some (value, rest) => (readBytes rest).map fun p => (⟨value, p.1⟩, p.2)

theorem roundTrip : RoundTrip serialize deserialize := fun o rest => by
  simp only [serialize, deserialize, List.append_assoc, roundTrip_i64 _ _,
    roundTrip_vec _ _, Option.map_some]

/-- The length of the script has its shortest form. -/
def Form (data : Bytes) : Prop :=
  ∀ value rest, readI64 data = some (value, rest) → ShortVarint rest

theorem deserialize_exact : ExactOn serialize deserialize Form := by
  intro data o rest hform h
  rw [deserialize] at h
  cases hvalue : readI64 data with
  | none => rw [hvalue] at h; cases h
  | some res =>
      obtain ⟨value, r⟩ := res
      rw [hvalue] at h
      obtain ⟨⟨script, r'⟩, hscript, heq⟩ := Option.map_eq_some_iff.mp h
      cases heq
      rw [readI64_exact hvalue, readBytes_exact (hform _ _ hvalue) hscript, serialize,
        List.append_assoc]

theorem form_serialize (o : TxOut) (rest : Bytes) : Form (o.serialize ++ rest) := by
  intro value r h
  rw [serialize, List.append_assoc, roundTrip_i64 _ _] at h
  cases h
  rw [writeVec, writeBytes, List.append_assoc]
  exact shortVarint_writeVarint _ o.scriptPubKey.size_lt

end TxOut

namespace Transaction

def serialize (tx : Transaction) : Bytes :=
  writeI32 tx.version ++ writeSeq TxIn.serialize tx.inputs
    ++ writeSeq TxOut.serialize tx.outputs ++ writeU32 tx.lockTime

def deserialize : Decoder Transaction UInt8 := fun data =>
  match readI32 data with
  | none => none
  | some (version, rest) =>
      match readSeq TxIn.deserialize rest with
      | none => none
      | some (inputs, rest) =>
          match readSeq TxOut.deserialize rest with
          | none => none
          | some (outputs, rest) =>
              (readU32 rest).map fun p => (⟨version, inputs, outputs, p.1⟩, p.2)

theorem roundTrip : RoundTrip serialize deserialize := fun tx rest => by
  simp only [serialize, deserialize, List.append_assoc, roundTrip_i32 _ _,
    roundTrip_seq TxIn.roundTrip _ _, roundTrip_seq TxOut.roundTrip _ _,
    roundTrip_u32 _ _, Option.map_some]

/-- Both counts and every script length have their shortest forms. -/
def Form (data : Bytes) : Prop :=
  ∀ version rest, readI32 data = some (version, rest) →
    SeqForm TxIn.deserialize TxIn.Form rest ∧
      ∀ inputs rest', readSeq TxIn.deserialize rest = some (inputs, rest') →
        SeqForm TxOut.deserialize TxOut.Form rest'

theorem deserialize_exact : ExactOn serialize deserialize Form := by
  intro data tx rest hform h
  rw [deserialize] at h
  cases hversion : readI32 data with
  | none => rw [hversion] at h; cases h
  | some res =>
      obtain ⟨version, r₁⟩ := res
      obtain ⟨hins, houts⟩ := hform _ _ hversion
      rw [hversion] at h
      simp only at h
      cases hinputs : readSeq TxIn.deserialize r₁ with
      | none => rw [hinputs] at h; cases h
      | some res =>
          obtain ⟨inputs, r₂⟩ := res
          rw [hinputs] at h
          simp only at h
          cases houtputs : readSeq TxOut.deserialize r₂ with
          | none => rw [houtputs] at h; cases h
          | some res =>
              obtain ⟨outputs, r₃⟩ := res
              rw [houtputs] at h
              obtain ⟨⟨lockTime, r₄⟩, hlock, heq⟩ := Option.map_eq_some_iff.mp h
              cases heq
              rw [readI32_exact hversion, readSeq_exact TxIn.deserialize_exact hins hinputs,
                readSeq_exact TxOut.deserialize_exact (houts _ _ hinputs) houtputs,
                readU32_exact hlock, serialize]
              simp only [List.append_assoc]

theorem form_serialize (tx : Transaction) (rest : Bytes) : Form (tx.serialize ++ rest) := by
  intro version r h
  simp only [serialize, List.append_assoc] at h
  rw [roundTrip_i32 _ _] at h
  cases h
  constructor
  · exact seqForm_writeSeq _ _ fun i _ r => ⟨TxIn.roundTrip i r, i.form_serialize r⟩
  · intro inputs r hinputs
    rw [roundTrip_seq TxIn.roundTrip _ _] at hinputs
    cases hinputs
    exact seqForm_writeSeq _ _ fun o _ r => ⟨TxOut.roundTrip o r, o.form_serialize r⟩

theorem length_serialize (tx : Transaction) : tx.serialize.length =
    8 + (writeVarint tx.inputs.toList.length).length
      + (tx.inputs.toList.map fun i => 40 + (writeVec i.scriptSig).length).sum
      + (writeVarint tx.outputs.toList.length).length
      + (tx.outputs.toList.map fun o => 8 + (writeVec o.scriptPubKey).length).sum := by
  have hin : ∀ i : TxIn, i.serialize.length = 40 + (writeVec i.scriptSig).length := fun i => by
    simp only [TxIn.serialize, OutPoint.serialize, writeU32, List.length_append, length_writeInt,
      Hash256.length_toBytes]
    omega
  have hout : ∀ o : TxOut, o.serialize.length = 8 + (writeVec o.scriptPubKey).length := fun o => by
    simp only [TxOut.serialize, writeI64, List.length_append, length_writeInt]
  simp only [serialize, writeI32, writeU32, writeSeq, List.length_append, length_writeInt,
    List.length_flatMap, hin, hout]
  omega

/-- A transaction is determined by its bytes. -/
theorem serialize_injective : Function.Injective serialize := roundTrip.injective

/-! ## Ids and amounts -/

/-- The transaction id. -/
def hash (c : Crypto) (tx : Transaction) : Hash256 := c.hash256 tx.serialize

/-- The copy whose serialization is signed: every input script is cleared,
the one at `inputIndex` replaced by the script of the output it spends. -/
def sighashCopy (tx : Transaction) (inputIndex : Nat) (scriptPubKey : Vec UInt8) : Transaction :=
  { tx with
    inputs := tx.inputs.mapIdx fun i txin =>
      { txin with scriptSig := if i = inputIndex then scriptPubKey else ⟨[], Vec.nil_fits⟩ } }

/-- The byte string that is hashed for a signature; an index without an input
is refused. -/
def sighashString (tx : Transaction) (inputIndex : Nat) (scriptPubKey : Vec UInt8) : Option Bytes :=
  if inputIndex < tx.inputs.toList.length then
    some (tx.sighashCopy inputIndex scriptPubKey).serialize
  else none

/-- The signature hash (SIGHASH_ALL), for the index of an input. -/
def sighash (c : Crypto) (tx : Transaction) (inputIndex : Nat) (scriptPubKey : Vec UInt8) :
    Hash256 :=
  c.hash256 (tx.sighashCopy inputIndex scriptPubKey).serialize

/-- A single input whose prevout is null. -/
def isCoinbase (tx : Transaction) : Bool :=
  match tx.inputs.toList with
  | [txin] => txin.prevout.txHash = 0 && txin.prevout.index = 0xFFFFFFFF
  | _ => false

/-- The sum of the output values in `int64_t`. -/
def totalOutputValue (tx : Transaction) : Int64 :=
  tx.outputs.toList.foldl (fun sum out => sum + out.value) 0

/-- The checks on a transaction alone. -/
def validateBasic (tx : Transaction) : Bool :=
  if tx.outputs.toList = [] then false
  else if !tx.isCoinbase && tx.inputs.toList = [] then false
  else tx.outputs.toList.all fun out => !(out.value < 0)

end Transaction

end Cryptex
