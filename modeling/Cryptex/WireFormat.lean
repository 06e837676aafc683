import Cryptex.Block
import Cryptex.Utxo

/-!
# The wire format

What is written is read back. What is read need not be what would be
written: the readers take any form of a variable-length integer and ignore
what follows a transaction in its byte string. The string signed for an
input determines what the signature commits to.
-/

namespace Cryptex

open Codec

/-! ## Writing, then reading -/

namespace Block

theorem readTransaction_writeBytes {tx : Transaction} (h : tx.serialize.length < 2 ^ 64)
    (rest : Bytes) : readTransaction (writeBytes tx.serialize ++ rest) = some (tx, rest) := by
  have hbytes := roundTrip_vec ⟨tx.serialize, h⟩ rest
  have htx := Transaction.roundTrip tx []
  rw [List.append_nil] at htx
  rw [readTransaction]
  rw [writeVec] at hbytes
  rw [hbytes]
  simp only [htx, Option.map_some]

theorem deserialize_serialize {b : Block}
    (h : ∀ tx ∈ b.transactions.toList, tx.serialize.length < 2 ^ 64) (rest : Bytes) :
    deserialize (b.serialize ++ rest) = some (b, rest) := by
  have hseq : b.serialize = b.header.serialize
      ++ writeSeq (fun tx : Transaction => writeBytes tx.serialize) b.transactions := by
    rw [serialize, writeSeq, List.append_assoc]
  rw [hseq, List.append_assoc, deserialize, BlockHeader.roundTrip _ _]
  simp only
  rw [readSeq_writeSeq b.transactions (fun tx htx r => readTransaction_writeBytes (h tx htx) r)]
  rfl

end Block

/-- Every serialized value is read back with all its fields, and nothing of
what follows is consumed. The string of a transaction in a block has a 64-bit
length. -/
theorem wire_roundTrip :
    RoundTrip BlockHeader.serialize BlockHeader.deserialize ∧
      RoundTrip OutPoint.serialize OutPoint.deserialize ∧
      RoundTrip TxIn.serialize TxIn.deserialize ∧
      RoundTrip TxOut.serialize TxOut.deserialize ∧
      RoundTrip Transaction.serialize Transaction.deserialize ∧
      (∀ b : Block, (∀ tx ∈ b.transactions.toList, tx.serialize.length < 2 ^ 64) →
        ∀ rest, Block.deserialize (b.serialize ++ rest) = some (b, rest)) ∧
      RoundTrip UTXOEntry.serialize UTXOEntry.deserialize :=
  ⟨BlockHeader.roundTrip, OutPoint.roundTrip, TxIn.roundTrip, TxOut.roundTrip,
    Transaction.roundTrip, fun _ h rest => Block.deserialize_serialize h rest,
    UTXOEntry.roundTrip⟩

/-- A block with one transaction, and a byte behind it. -/
theorem wire_roundTrip_single :
    Block.deserialize ((⟨{}, ⟨[⟨1, ⟨[], by decide⟩, ⟨[⟨50, ⟨[1, 2], by decide⟩⟩], by decide⟩, 0⟩],
        by decide⟩⟩ : Block).serialize ++ [7])
      = some (⟨{}, ⟨[⟨1, ⟨[], by decide⟩, ⟨[⟨50, ⟨[1, 2], by decide⟩⟩], by decide⟩, 0⟩],
        by decide⟩⟩, [7]) :=
  wire_roundTrip.2.2.2.2.2.1 _ (by decide) [7]

/-! ## Reading, then writing -/

namespace Block

/-- A transaction of a block in canonical form: shortest lengths, and nothing
left of its byte string. -/
def TransactionForm (data : Bytes) : Prop :=
  ShortVarint data ∧ ∀ txData rest, readBytes data = some (txData, rest) →
    Transaction.Form txData.toList ∧
      ∀ tx left, Transaction.deserialize txData.toList = some (tx, left) → left = []

/-- Every variable-length integer that is read has its shortest form, and
every byte string of a transaction is used up. -/
def Form (data : Bytes) : Prop :=
  ∀ header rest, BlockHeader.deserialize data = some (header, rest) →
    SeqForm readTransaction TransactionForm rest

theorem readTransaction_exact :
    ExactOn (fun tx : Transaction => writeBytes tx.serialize) readTransaction TransactionForm := by
  rintro data tx rest ⟨hshort, hform⟩ h
  rw [readTransaction] at h
  cases hbytes : readBytes data with
  | none => rw [hbytes] at h; cases h
  | some res =>
      obtain ⟨txData, r⟩ := res
      obtain ⟨htx, hleft⟩ := hform _ _ hbytes
      rw [hbytes] at h
      obtain ⟨⟨tx', left⟩, hdec, heq⟩ := Option.map_eq_some_iff.mp h
      cases heq
      have hstring := Transaction.deserialize_exact htx hdec
      rw [hleft _ _ hdec, List.append_nil] at hstring
      rw [readBytes_exact hshort hbytes, writeVec, hstring]

theorem transactionForm_writeBytes {tx : Transaction} (h : tx.serialize.length < 2 ^ 64)
    (rest : Bytes) : TransactionForm (writeBytes tx.serialize ++ rest) := by
  constructor
  · rw [writeBytes, List.append_assoc]
    exact shortVarint_writeVarint _ h
  · intro txData r hread
    have hbytes := roundTrip_vec ⟨tx.serialize, h⟩ rest
    rw [writeVec] at hbytes
    rw [hbytes] at hread
    cases hread
    constructor
    · have hform := tx.form_serialize []
      rwa [List.append_nil] at hform
    · intro tx' left hdec
      have htx := Transaction.roundTrip tx []
      rw [List.append_nil] at htx
      rw [htx] at hdec
      cases hdec
      rfl

theorem length_transaction_le {b : Block} {tx : Transaction} (h : tx ∈ b.transactions.toList) :
    tx.serialize.length ≤ b.serialize.length := by
  obtain ⟨l, r, hsplit⟩ := List.append_of_mem h
  simp only [serialize, writeBytes, hsplit, List.flatMap_append, List.flatMap_cons,
    List.length_append]
  omega

/-- A block that is read from a string is written as that string exactly when
the string is in canonical form. -/
theorem serialize_eq_iff {data : Vec UInt8} {b : Block}
    (h : deserialize data.toList = some (b, [])) : b.serialize = data.toList ↔ Form data.toList := by
  constructor
  · intro heq header r hheader
    have hlen : ∀ tx ∈ b.transactions.toList, tx.serialize.length < 2 ^ 64 := by
      intro tx htx
      refine Nat.lt_of_le_of_lt (length_transaction_le htx) ?_
      rw [heq]
      exact data.size_lt
    have hseq : b.serialize = b.header.serialize
        ++ writeSeq (fun tx : Transaction => writeBytes tx.serialize) b.transactions := by
      rw [serialize, writeSeq, List.append_assoc]
    rw [← heq, hseq, BlockHeader.roundTrip _ _] at hheader
    cases hheader
    have hform := seqForm_writeSeq b.transactions [] fun tx htx r =>
      ⟨readTransaction_writeBytes (hlen tx htx) r, transactionForm_writeBytes (hlen tx htx) r⟩
    rwa [List.append_nil] at hform
  · intro hform
    rw [deserialize] at h
    cases hheader : BlockHeader.deserialize data.toList with
    | none => rw [hheader] at h; cases h
    | some res =>
        obtain ⟨header, r⟩ := res
        rw [hheader] at h
        obtain ⟨⟨txs, r'⟩, htxs, heq⟩ := Option.map_eq_some_iff.mp h
        cases heq
        have hrest := readSeq_exact readTransaction_exact (hform _ _ hheader) htxs
        rw [List.append_nil] at hrest
        rw [BlockHeader.deserialize_exact hheader, hrest, serialize, writeSeq, List.append_assoc]

/-- An empty block with its count in three bytes. -/
theorem not_serialize_deserialize : ¬ ∀ (data : Vec UInt8) (b : Block),
    deserialize data.toList = some (b, []) → b.serialize = data.toList := by
  intro h
  have hread : deserialize (List.replicate 80 0 ++ [0xFD, 0, 0])
      = some (⟨{ version := 0 }, ⟨[], by decide⟩⟩, []) := by decide
  have heq := h ⟨List.replicate 80 0 ++ [0xFD, 0, 0], by decide⟩ _ hread
  exact absurd (congrArg List.length heq) (by decide)

theorem serialize_eq_iff_empty :
    (⟨{ version := 0 }, ⟨[], by decide⟩⟩ : Block).serialize = List.replicate 80 0 ++ [0] ↔
      Form (List.replicate 80 0 ++ [0]) := by
  have hread : deserialize (⟨List.replicate 80 0 ++ [0], by decide⟩ : Vec UInt8).toList
      = some (⟨{ version := 0 }, ⟨[], by decide⟩⟩, []) := by decide
  exact serialize_eq_iff hread

end Block

/-! ## The string that is signed -/

namespace Transaction

theorem sighashCopy_script {tx : Transaction} {i j : Nat} {k : Vec UInt8} {txin : TxIn}
    (h : tx.inputs.toList[j]? = some txin) :
    (tx.sighashCopy i k).inputs.toList[j]?
      = some { txin with scriptSig := if j = i then k else ⟨[], by decide⟩ } := by
  rw [sighashCopy]
  simp only [Vec.mapIdx, List.getElem?_mapIdx, h, Option.map_some]

theorem sighashCopy_spends (tx : Transaction) (i : Nat) (k : Vec UInt8) :
    (tx.sighashCopy i k).inputs.toList.map (fun txin => (txin.prevout, txin.sequence))
      = tx.inputs.toList.map (fun txin => (txin.prevout, txin.sequence)) := by
  refine List.ext_getElem? fun j => ?_
  rw [List.getElem?_map, List.getElem?_map]
  cases hj : tx.inputs.toList[j]? with
  | none =>
      have hlen : (tx.sighashCopy i k).inputs.toList.length = tx.inputs.toList.length := by
        rw [sighashCopy, Vec.mapIdx, List.length_mapIdx]
      rw [List.getElem?_eq_none_iff] at hj
      rw [List.getElem?_eq_none_iff.mpr (hlen ▸ hj)]
  | some txin =>
      rw [sighashCopy_script hj]
      rfl

/-- Two equal strings are signed for the same version, outpoints, sequences,
outputs and lock time, the same input and the same script. -/
theorem sighashString_binds {t₁ t₂ : Transaction} {i₁ i₂ : Nat} {k₁ k₂ : Vec UInt8} {data : Bytes}
    (hk₁ : k₁.toList ≠ []) (h₁ : t₁.sighashString i₁ k₁ = some data)
    (h₂ : t₂.sighashString i₂ k₂ = some data) :
    t₁.version = t₂.version ∧
      t₁.inputs.toList.map (fun txin => (txin.prevout, txin.sequence))
        = t₂.inputs.toList.map (fun txin => (txin.prevout, txin.sequence)) ∧
      t₁.outputs = t₂.outputs ∧ t₁.lockTime = t₂.lockTime ∧ i₁ = i₂ ∧ k₁ = k₂ := by
  rw [sighashString] at h₁ h₂
  split at h₁
  · next hi₁ =>
      split at h₂
      · next hi₂ =>
          cases h₁
          have hcopy : t₁.sighashCopy i₁ k₁ = t₂.sighashCopy i₂ k₂ :=
            serialize_injective (Option.some.inj h₂).symm
          have hinputs : (t₁.sighashCopy i₁ k₁).inputs.toList = (t₂.sighashCopy i₂ k₂).inputs.toList := by
            rw [hcopy]
          -- the script at the signed input is the only one that is not empty
          have hindex : i₁ = i₂ := by
            by_contra hne
            have hscript₁ := sighashCopy_script (i := i₁) (k := k₁) (List.getElem?_eq_getElem hi₁)
            have hlt₂ : i₁ < t₂.inputs.toList.length := by
              have hlen := congrArg List.length hinputs
              simp only [sighashCopy, Vec.mapIdx, List.length_mapIdx] at hlen
              omega
            have hscript₂ := sighashCopy_script (i := i₂) (k := k₂) (List.getElem?_eq_getElem hlt₂)
            rw [if_pos rfl] at hscript₁
            rw [if_neg hne, ← hinputs, hscript₁] at hscript₂
            have hsig : k₁ = ⟨[], by decide⟩ := congrArg TxIn.scriptSig (Option.some.inj hscript₂)
            exact hk₁ (congrArg Vec.toList hsig)
          subst hindex
          have hscript₁ := sighashCopy_script (i := i₁) (k := k₁) (List.getElem?_eq_getElem hi₁)
          have hscript₂ := sighashCopy_script (i := i₁) (k := k₂) (List.getElem?_eq_getElem hi₂)
          rw [if_pos rfl] at hscript₁ hscript₂
          rw [← hinputs, hscript₁] at hscript₂
          have hkey := congrArg TxIn.scriptSig (Option.some.inj hscript₂)
          have hout := congrArg Transaction.outputs hcopy
          have hversion := congrArg Transaction.version hcopy
          have hlock := congrArg Transaction.lockTime hcopy
          refine ⟨hversion, ?_, hout, hlock, rfl, hkey⟩
          rw [← sighashCopy_spends t₁ i₁ k₁, ← sighashCopy_spends t₂ i₁ k₂, hinputs]
      · cases h₂
  · cases h₁

/-- A payment with a given input script. -/
def payment (scriptSig : Vec UInt8) : Transaction where
  version := 1
  inputs := ⟨[⟨⟨7, 0⟩, scriptSig, 5⟩], by simp⟩
  outputs := ⟨[⟨3, ⟨[9], by decide⟩⟩], by simp⟩
  lockTime := 0

/-- The input scripts are not part of the string. -/
theorem sighashString_binds_payment :
    (payment ⟨[], by decide⟩).outputs = (payment ⟨[1], by decide⟩).outputs := by
  have hsame : (payment ⟨[1], by decide⟩).sighashString 0 ⟨[4], by decide⟩
      = (payment ⟨[], by decide⟩).sighashString 0 ⟨[4], by decide⟩ := by decide
  have hkey : (⟨[4], by decide⟩ : Vec UInt8).toList ≠ [] := by decide
  exact (sighashString_binds hkey (show (payment ⟨[], by decide⟩).sighashString 0 ⟨[4], by decide⟩
    = some _ from rfl) hsame).2.2.1

end Transaction

end Cryptex
