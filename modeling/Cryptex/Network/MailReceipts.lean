import Cryptex.Network.ChatPayload
import Cryptex.Network.MailStore
import Cryptex.Lib.FinMap
import Mathlib.Logic.Equiv.List

/-!
# Receipts for kept mail

The messages about the distributed mail store in `network.cpp`: storing, the
receipts, the challenges for a proof of storage and the proofs, and the
maintenance of the challenges. What a peer is punished for is not part of it.
-/

namespace Cryptex

open Encoding Chat

namespace Mail

/-! ## Data -/

/-- With `sign_hash`. -/
structure MailLib extends ChatLib where
  signHash : Hash256 → Bytes → Bytes

structure PendingMailProofChallenge where
  challengeId : Bytes
  messageId : Bytes
  recipientAddress : Bytes
  replicaLabel : Bytes
  nonceB64 : Bytes
  createdAt : UInt64
deriving DecidableEq

/-- The message and the replica that are challenged. -/
def PendingMailProofChallenge.key (pending : PendingMailProofChallenge) : Bytes × Bytes :=
  (pending.messageId, pending.replicaLabel)

structure DhtMailProofPayload where
  challengeId : Bytes
  messageId : Bytes
  recipientAddress : Bytes
  replicaLabel : Bytes
  proofHashHex : Bytes
  respondedAt : UInt64

/-- What an event reads beside the state: the clock, the policy, the balances of
the chain (the inner `none` is an exception), the wallet, the advertised
endpoint, the id and the nonce that a challenge draws, and the order in which
the pending challenges are visited. -/
structure MailEnv where
  now : UInt64
  policy : MailPolicy
  balance : Option (Bytes → Option Int)
  wallet : Option Wallet
  advertised : Option Bytes
  draw : MailStorageReceipt → Bytes × Bytes
  visit : FinMap.VisitOrder Bytes PendingMailProofChallenge

/-- The two files and `pending_mail_challenges_`. -/
structure MailNode where
  recordLines : List Bytes
  receiptLines : List Bytes
  pending : FinMap Bytes PendingMailProofChallenge

inductive MailAction where
  | slashed (messageId replicaLabel : Bytes)
  | challenged (pending : PendingMailProofChallenge)
deriving DecidableEq

structure MailStep where
  node : MailNode
  log : List MailAction

def MailStep.none (n : MailNode) : MailStep := ⟨n, []⟩

/-- One step for each item. -/
def forEach {α : Type} (f : α → MailNode → MailStep) : List α → MailNode → MailStep
  | [], n => .none n
  | x :: xs, n =>
      let first := f x n
      let rest := forEach f xs first.node
      ⟨rest.node, first.log ++ rest.log⟩

namespace MailNode

/-- `mail_storage_receipts`. -/
def mailStorageReceipts (n : MailNode) (messageId : Option Bytes) : List MailStorageReceipt :=
  loadMailStorageReceipts n.receiptLines messageId

/-- `upsert_mail_storage_receipt`. -/
def upsert (receipt : MailStorageReceipt) (n : MailNode) : MailNode :=
  { n with receiptLines := upsertReceiptLine receipt n.receiptLines }

/-- `verified_mail_storage_receipt_count`. -/
def verifiedMailStorageReceiptCount (n : MailNode) : Nat :=
  (n.mailStorageReceipts none).countP MailStorageReceipt.verified

end MailNode

section

variable (lib : MailLib)

/-! ## Hashes and signatures -/

def digestHex (material : Bytes) : Bytes :=
  hexEncode (toPaddedBytes 64 (lib.sha3_512 material).toNat)

/-- `mail_storage_hash_hex`. -/
def mailStorageHashHex (record : DistributedMailRecord) : Bytes :=
  digestHex lib (record.payloadB64 ++ [10] ++ record.messageId ++ [10] ++ record.recipientAddress)

/-- `mail_storage_proof_hash_hex`. -/
def mailStorageProofHashHex (record : DistributedMailRecord) (nonceB64 : Bytes) : Bytes :=
  digestHex lib (record.payloadB64 ++ [10] ++ nonceB64 ++ [10] ++ record.messageId ++ [10] ++
    record.recipientAddress)

/-- `mail_receipt_signing_material`. -/
def mailReceiptSigningMaterial (receipt : MailStorageReceipt) : Bytes :=
  [10].intercalate
    [decimal receipt.version.toNat, receipt.messageId, receipt.recipientAddress,
      receipt.replicaLabel, receipt.storageHashHex, decimal receipt.storedAt.toNat,
      decimal receipt.expiresAt.toNat, decimal receipt.receiptAt.toNat, receipt.providerAddress,
      receipt.providerPubkeyB64]

def mailReceiptDigest (receipt : MailStorageReceipt) : Hash256 :=
  (lib.sha3_512 (mailReceiptSigningMaterial receipt)).first

/-- `verify_mail_receipt_signature`. -/
def verifyMailReceiptSignature (receipt : MailStorageReceipt) : Bool :=
  if receipt.providerAddress = [] ∨ receipt.providerPubkeyB64 = [] ∨
      receipt.providerSignatureB64 = [] then false
  else
    match base64Decode receipt.providerPubkeyB64, base64Decode receipt.providerSignatureB64 with
    | some pubkey, some signature =>
        checkAddress lib.toChatLib receipt.providerAddress pubkey &&
          lib.verifySignature (mailReceiptDigest lib receipt) signature pubkey
    | _, _ => false

/-- `sign_mail_receipt`. -/
def signMailReceipt (wallet : Option Wallet) (receipt : MailStorageReceipt) : MailStorageReceipt :=
  match wallet with
  | none => receipt
  | some w =>
      if w.addresses = [] ∨ w.pubkeys = [] ∨ w.privkeys = [] then receipt
      else
        let found := (w.addresses.findIdx? (· = w.address)).getD 0
        let index := if found ≥ w.pubkeys.length ∨ found ≥ w.privkeys.length then 0 else found
        let named :=
          { receipt with
            providerAddress := w.addresses.getD index []
            providerPubkeyB64 := base64Encode (w.pubkeys.getD index []) }
        { named with
          providerSignatureB64 :=
            base64Encode (lib.signHash (mailReceiptDigest lib named) (w.privkeys.getD index [])) }

/-- `refresh_mail_receipt_bond`. -/
def refreshMailReceiptBond (env : MailEnv) (receipt : MailStorageReceipt) : MailStorageReceipt :=
  match env.balance with
  | none =>
      { receipt with
        bondedBalanceSats := 0
        bondSatisfied := env.policy.minimumBondSats = 0 ∧ receipt.providerSignatureB64 ≠ [] }
  | some balance =>
      if receipt.providerAddress = [] then
        { receipt with
          bondedBalanceSats := 0
          bondSatisfied := env.policy.minimumBondSats = 0 ∧ receipt.providerSignatureB64 ≠ [] }
      else
        let bonded := UInt64.ofNat ((balance receipt.providerAddress).getD 0).toNat
        { receipt with
          bondedBalanceSats := bonded
          bondSatisfied := bonded ≥ env.policy.minimumBondSats }

/-! ## Slashing and challenging -/

/-- The receipt that `slash_mail_receipt` stores. -/
def slashedReceipt (env : MailEnv) (reason evidenceMaterial : Bytes)
    (receipt : MailStorageReceipt) : MailStorageReceipt :=
  { receipt with
    verified := false
    bondSatisfied := false
    slashed := true
    slashedAt := env.now
    slashReason := reason
    slashEvidenceHashHex :=
      digestHex lib (receipt.messageId ++ [10] ++ receipt.replicaLabel ++ [10] ++ reason ++ [10] ++
        evidenceMaterial) }

/-- `slash_mail_receipt`. -/
def slashMailReceipt (env : MailEnv) (reason evidenceMaterial : Bytes)
    (receipt : MailStorageReceipt) (n : MailNode) : MailStep :=
  ⟨n.upsert (slashedReceipt lib env reason evidenceMaterial receipt),
    [.slashed receipt.messageId receipt.replicaLabel]⟩

/-- The seconds between two challenges of a replica. -/
def MailPolicy.challengeInterval (policy : MailPolicy) : UInt64 :=
  (max policy.challengeIntervalMinutes 1).toUInt64 * 60

/-- The challenge that `maybe_issue_mail_storage_challenge` issues. -/
def newChallenge (env : MailEnv) (receipt : MailStorageReceipt) : PendingMailProofChallenge :=
  { challengeId := (env.draw receipt).1
    messageId := receipt.messageId
    recipientAddress := receipt.recipientAddress
    replicaLabel := receipt.replicaLabel
    nonceB64 := (env.draw receipt).2
    createdAt := env.now }

/-- `maybe_issue_mail_storage_challenge`. -/
def maybeIssueMailStorageChallenge (env : MailEnv) (receipt : MailStorageReceipt) (n : MailNode) :
    MailStep :=
  if env.policy.proofOfStorage = false ∨ receipt.messageId = [] ∨ receipt.replicaLabel = [] ∨
      receipt.slashed then .none n
  else
    let trusted := refreshMailReceiptBond env receipt
    if verifyMailReceiptSignature lib receipt = false then
      slashMailReceipt lib env (chars "invalid receipt signature") trusted.providerSignatureB64
        { trusted with bondSatisfied := false } n
    else if trusted.bondSatisfied = false then .none (n.upsert trusted)
    else if trusted.lastChallengedAt ≠ 0 ∧
        env.now < trusted.lastChallengedAt + env.policy.challengeInterval then .none n
    else
      let pending := newChallenge env trusted
      let n := { n with pending := n.pending.insert pending.challengeId pending }
      ⟨n.upsert { trusted with lastChallengedAt := env.now }, [.challenged pending]⟩

/-- Whether a challenge went unanswered for too long. -/
def timedOut (env : MailEnv) (pending : PendingMailProofChallenge) : Bool :=
  pending.createdAt ≠ 0 ∧
    env.now > pending.createdAt + (max env.policy.challengeIntervalMinutes 1).toUInt64 * 120

/-- What `maintain_mail_storage_proofs` does about one such challenge. -/
def slashTimedOut (env : MailEnv) (pending : PendingMailProofChallenge) (n : MailNode) : MailStep :=
  match (n.mailStorageReceipts (some pending.messageId)).find?
      (·.replicaLabel = pending.replicaLabel) with
  | none => .none n
  | some receipt =>
      slashMailReceipt lib env (chars "proof challenge timed out") pending.challengeId receipt n

/-- What it does about one receipt. -/
def challengeAgain (env : MailEnv) (receipt : MailStorageReceipt) (n : MailNode) : MailStep :=
  if receipt.slashed then .none n
  else if receipt.expiresAt ≠ 0 ∧ receipt.expiresAt < env.now then .none n
  else maybeIssueMailStorageChallenge lib env receipt n

/-- The challenges that timed out. -/
def expiredChallenges (env : MailEnv) (n : MailNode) : List PendingMailProofChallenge :=
  ((env.visit.visit n.pending).map Prod.snd).filter (timedOut env)

def withoutExpired (env : MailEnv) (n : MailNode) : MailNode :=
  { n with pending := FinMap.keepIf (fun pending => !timedOut env pending) n.pending }

/-- `maintain_mail_storage_proofs`. -/
def maintainMailStorageProofs (env : MailEnv) (n : MailNode) : MailStep :=
  if env.policy.proofOfStorage = false then .none n
  else
    let first := forEach (slashTimedOut lib env) (expiredChallenges env n) (withoutExpired env n)
    let rest := forEach (challengeAgain lib env) (first.node.mailStorageReceipts none) first.node
    ⟨rest.node, first.log ++ rest.log⟩

/-! ## Messages -/

/-- The receipt of this node for a record it keeps. -/
def ownReceipt (env : MailEnv) (remoteLabel : Bytes) (record : DistributedMailRecord) :
    MailStorageReceipt :=
  refreshMailReceiptBond env (signMailReceipt lib env.wallet
    { messageId := record.messageId
      recipientAddress := record.recipientAddress
      replicaLabel := env.advertised.getD remoteLabel
      storageHashHex := mailStorageHashHex lib record
      storedAt := record.storedAt
      expiresAt := record.expiresAt
      receiptAt := env.now })

/-- The DHT_MAIL_STORE handler. -/
def dhtMailStore (env : MailEnv) (remoteLabel : Bytes) (record : DistributedMailRecord)
    (n : MailNode) : MailStep :=
  if record.messageId = [] ∨ record.recipientAddress = [] then .none n
  else
    let record :=
      if record.peerLabel = [] then { record with peerLabel := remoteLabel } else record
    let n :=
      { n with
        recordLines :=
          storeDistributedMailRecord lib.toCrypto env.policy record env.now n.recordLines }
    .none (n.upsert (ownReceipt lib env remoteLabel record))

/-- A receipt as a message carries it: what the message leaves out has its
default, and an empty label is the peer's. -/
def receivedReceipt (remoteLabel : Bytes) (receipt : MailStorageReceipt) : MailStorageReceipt :=
  { receipt with
    replicaLabel := if receipt.replicaLabel = [] then remoteLabel else receipt.replicaLabel
    slashed := false
    slashedAt := 0
    slashReason := []
    slashEvidenceHashHex := [] }

/-- The DHT_MAIL_RECEIPT handler. -/
def dhtMailReceipt (env : MailEnv) (remoteLabel : Bytes) (receipt : MailStorageReceipt)
    (n : MailNode) : MailStep :=
  if receipt.messageId = [] then .none n
  else
    let received := refreshMailReceiptBond env (receivedReceipt remoteLabel receipt)
    if verifyMailReceiptSignature lib received = false then
      slashMailReceipt lib env (chars "invalid receipt signature") received.providerSignatureB64
        received n
    else maybeIssueMailStorageChallenge lib env received (n.upsert received)

/-- The copy of a challenged message that this node has. -/
def ownCopy (env : MailEnv) (pending : PendingMailProofChallenge) (n : MailNode) :
    Option DistributedMailRecord :=
  (loadDistributedMailRecords lib.toCrypto n.recordLines env.now (some pending.recipientAddress) 0).find?
    (·.messageId = pending.messageId)

/-- The receipt that a proof is about. -/
def provedReceipt (pending : PendingMailProofChallenge) (proof : DhtMailProofPayload)
    (n : MailNode) : Option MailStorageReceipt :=
  (n.mailStorageReceipts (some pending.messageId)).find? fun receipt =>
    receipt.replicaLabel = pending.replicaLabel ∨ receipt.replicaLabel = proof.replicaLabel

/-- That receipt under the label that the proof names. -/
def relabelled (env : MailEnv) (proof : DhtMailProofPayload) (receipt : MailStorageReceipt) :
    MailStorageReceipt :=
  refreshMailReceiptBond env
    (if proof.replicaLabel ≠ [] then { receipt with replicaLabel := proof.replicaLabel }
     else receipt)

/-- Whether a receipt may become verified. -/
def trustedForProof (receipt : MailStorageReceipt) : Bool :=
  verifyMailReceiptSignature lib receipt && receipt.bondSatisfied

/-- The DHT_MAIL_PROOF handler. -/
def dhtMailProof (env : MailEnv) (proof : DhtMailProofPayload) (n : MailNode) : MailStep :=
  match n.pending.lookup proof.challengeId with
  | none => .none n
  | some pending =>
      let n := { n with pending := n.pending.erase proof.challengeId }
      match ownCopy lib env pending n with
      | none => .none n
      | some record =>
          if mailStorageProofHashHex lib record pending.nonceB64 ≠ proof.proofHashHex then
            match provedReceipt pending proof n with
            | none => .none n
            | some receipt =>
                slashMailReceipt lib env (chars "invalid proof hash") proof.proofHashHex receipt n
          else
            match provedReceipt pending proof n with
            | none => .none n
            | some receipt =>
                let receipt := relabelled env proof receipt
                if trustedForProof lib receipt = false then
                  slashMailReceipt lib env
                    (chars "receipt lost trust during proof verification") proof.proofHashHex
                    receipt n
                else
                  .none (n.upsert
                    { receipt with
                      lastProofHashHex := proof.proofHashHex
                      verified := true
                      verifiedAt := proof.respondedAt
                      lastChallengedAt := pending.createdAt })

/-! ## Events -/

/-- A message about mail, a maintenance run, a restart, or a use of the store by
the rest of the node. `lookup` stands for DHT_MAIL_FIND, DHT_MAIL_RESULTS,
DHT_MAIL_CHALLENGE and DHT_MAIL_NAT_INTRO, which are answered from the store. -/
inductive MailEvent where
  | store (remoteLabel : Bytes) (record : DistributedMailRecord)
  | receipt (remoteLabel : Bytes) (receipt : MailStorageReceipt)
  | proof (proof : DhtMailProofPayload)
  | lookup
  | maintain
  | keep (record : DistributedMailRecord)
  | delete (messageId : Bytes)
  | prune
  | restart

/-- `delete_distributed_mail`. -/
def deleteDistributedMail (messageId : Bytes) (n : MailNode) : MailNode :=
  let deleted := deleteDistributedMailRecord messageId n.recordLines
  if deleted.2 then
    { n with
      recordLines := deleted.1
      receiptLines := saveMailStorageReceipts
        ((n.mailStorageReceipts none).filter (·.messageId ≠ messageId)) }
  else n

/-- `prune_distributed_mail_store`. -/
def pruneDistributedMailStore (env : MailEnv) (n : MailNode) : MailNode :=
  let records := lastOf env.policy.maxStoreItems.toNat
    (loadDistributedMailRecords lib.toCrypto n.recordLines env.now none 0)
  { n with
    recordLines := saveDistributedMailRecords records
    receiptLines := saveMailStorageReceipts
      ((n.mailStorageReceipts none).filter fun receipt =>
        records.any (·.messageId = receipt.messageId)) }

def MailEvent.run (env : MailEnv) (n : MailNode) : MailEvent → MailStep
  | .store remoteLabel record => dhtMailStore lib env remoteLabel record n
  | .receipt remoteLabel received => dhtMailReceipt lib env remoteLabel received n
  | .proof answer => dhtMailProof lib env answer n
  | .lookup => .none n
  | .maintain => maintainMailStorageProofs lib env n
  | .keep record =>
      .none
        { n with
          recordLines :=
            storeDistributedMailRecord lib.toCrypto env.policy record env.now n.recordLines }
  | .delete messageId => .none (deleteDistributedMail messageId n)
  | .prune => .none (pruneDistributedMailStore lib env n)
  | .restart => .none { n with pending := ∅ }

end

/-! ## What the steps do -/

variable {lib : MailLib} {env : MailEnv}

/-- Another receipt for the same message and replica, verified at the same time. -/
structure Carries (receipt updated : MailStorageReceipt) : Prop where
  key : updated.key = receipt.key
  verifiedAt : updated.verifiedAt = receipt.verifiedAt

theorem refreshMailReceiptBond_carries (env : MailEnv) (receipt : MailStorageReceipt) :
    Carries receipt (refreshMailReceiptBond env receipt) ∧
      (refreshMailReceiptBond env receipt).slashed = receipt.slashed := by
  rw [refreshMailReceiptBond.eq_def]
  split
  · exact ⟨⟨rfl, rfl⟩, rfl⟩
  · split
    · exact ⟨⟨rfl, rfl⟩, rfl⟩
    · exact ⟨⟨rfl, rfl⟩, rfl⟩

/-- What `maybe_issue_mail_storage_challenge` does: nothing, or it writes the
receipt again. -/
inductive IssueEffect (lib : MailLib) (receipt : MailStorageReceipt) (n : MailNode) :
    MailStep → Prop where
  | nothing : IssueEffect lib receipt n (.none n)
  | slashed (updated : MailStorageReceipt) (hcarries : Carries receipt updated)
      (hopen : receipt.slashed = false) (hinvalid : verifyMailReceiptSignature lib receipt = false)
      (hslashed : updated.slashed = true) :
      IssueEffect lib receipt n
        ⟨n.upsert updated, [.slashed updated.messageId updated.replicaLabel]⟩
  | refreshed (updated : MailStorageReceipt) (hcarries : Carries receipt updated)
      (hopen : receipt.slashed = false) (hslashed : updated.slashed = false) :
      IssueEffect lib receipt n (.none (n.upsert updated))
  | challenged (updated : MailStorageReceipt) (pending : PendingMailProofChallenge)
      (hcarries : Carries receipt updated) (hopen : receipt.slashed = false)
      (hslashed : updated.slashed = false) (hpending : pending.key = receipt.key) :
      IssueEffect lib receipt n
        ⟨{ n with pending := n.pending.insert pending.challengeId pending }.upsert updated,
          [.challenged pending]⟩

theorem issueEffect (env : MailEnv) (receipt : MailStorageReceipt) (n : MailNode) :
    IssueEffect lib receipt n (maybeIssueMailStorageChallenge lib env receipt n) := by
  obtain ⟨hcarries, hslashed⟩ := refreshMailReceiptBond_carries env receipt
  rw [maybeIssueMailStorageChallenge]
  split
  · exact .nothing
  · next hdue =>
      have hopen : receipt.slashed = false := by
        rw [not_or, not_or, not_or] at hdue
        exact Bool.eq_false_iff.mpr hdue.2.2.2
      rw [hopen] at hslashed
      dsimp only
      split
      · next hinvalid => exact .slashed _ ⟨hcarries.key, hcarries.verifiedAt⟩ hopen hinvalid rfl
      · split
        · exact .refreshed _ hcarries hopen hslashed
        · split
          · exact .nothing
          · exact .challenged _ _ ⟨hcarries.key, hcarries.verifiedAt⟩ hopen hslashed hcarries.key

/-- The proof answers a pending challenge about a message that the node has a
copy of, with the hash of that copy, and `receipt` is the one it is about. -/
structure ProofMatch (lib : MailLib) (env : MailEnv) (answer : DhtMailProofPayload) (n : MailNode)
    (pending : PendingMailProofChallenge) (receipt : MailStorageReceipt) : Prop where
  lookup : n.pending.lookup answer.challengeId = some pending
  hash : ∃ record, ownCopy lib env pending n = some record ∧
    mailStorageProofHashHex lib record pending.nonceB64 = answer.proofHashHex
  proved : provedReceipt pending answer n = some receipt

theorem ProofMatch.unique {answer : DhtMailProofPayload} {n : MailNode}
    {pending pending' : PendingMailProofChallenge} {receipt receipt' : MailStorageReceipt}
    (h : ProofMatch lib env answer n pending receipt)
    (h' : ProofMatch lib env answer n pending' receipt') : receipt' = receipt := by
  have hpending := Option.some.inj (h.lookup.symm.trans h'.lookup)
  have hproved := h'.proved
  rw [← hpending, h.proved] at hproved
  exact (Option.some.inj hproved).symm

/-- The state after the challenge of a proof is taken out. -/
def MailNode.answered (answer : DhtMailProofPayload) (n : MailNode) : MailNode :=
  { n with pending := n.pending.erase answer.challengeId }

theorem relabelled_fields (env : MailEnv) (answer : DhtMailProofPayload)
    (receipt : MailStorageReceipt) :
    (relabelled env answer receipt).slashed = receipt.slashed ∧
      (relabelled env answer receipt).verifiedAt = receipt.verifiedAt := by
  rw [relabelled, (refreshMailReceiptBond_carries env _).2,
    (refreshMailReceiptBond_carries env _).1.verifiedAt]
  split
  · exact ⟨rfl, rfl⟩
  · exact ⟨rfl, rfl⟩

/-- What the handler of a proof does. -/
inductive ProofEffect (lib : MailLib) (env : MailEnv) (answer : DhtMailProofPayload)
    (n : MailNode) : MailStep → Prop where
  | unknown (hlookup : n.pending.lookup answer.challengeId = none) :
      ProofEffect lib env answer n (.none n)
  | unmatched (hno : ∀ pending receipt, ¬ ProofMatch lib env answer n pending receipt) :
      ProofEffect lib env answer n (.none (n.answered answer))
  | failed (receipt : MailStorageReceipt) (reason evidence : Bytes)
      (hreceipt : receipt ∈ n.mailStorageReceipts none)
      (hno : ∀ pending receipt, ¬ ProofMatch lib env answer n pending receipt) :
      ProofEffect lib env answer n
        (slashMailReceipt lib env reason evidence receipt (n.answered answer))
  | untrusted (pending : PendingMailProofChallenge) (receipt : MailStorageReceipt)
      (reason evidence : Bytes) (hmatch : ProofMatch lib env answer n pending receipt)
      (huntrusted : trustedForProof lib (relabelled env answer receipt) = false) :
      ProofEffect lib env answer n
        (slashMailReceipt lib env reason evidence (relabelled env answer receipt)
          (n.answered answer))
  | proved (pending : PendingMailProofChallenge) (receipt : MailStorageReceipt)
      (hmatch : ProofMatch lib env answer n pending receipt)
      (htrusted : trustedForProof lib (relabelled env answer receipt) = true) :
      ProofEffect lib env answer n
        (.none ((n.answered answer).upsert
          { relabelled env answer receipt with
            lastProofHashHex := answer.proofHashHex
            verified := true
            verifiedAt := answer.respondedAt
            lastChallengedAt := pending.createdAt }))

theorem provedReceipt_mem {pending : PendingMailProofChallenge} {answer : DhtMailProofPayload}
    {n : MailNode} {receipt : MailStorageReceipt}
    (h : provedReceipt pending answer n = some receipt) :
    receipt ∈ n.mailStorageReceipts none :=
  (mem_loadMailStorageReceipts.mp (List.mem_of_find?_eq_some h)).1

theorem proofEffect (env : MailEnv) (answer : DhtMailProofPayload) (n : MailNode) :
    ProofEffect lib env answer n (dhtMailProof lib env answer n) := by
  rw [dhtMailProof.eq_def]
  cases hlookup : n.pending.lookup answer.challengeId with
  | none => exact .unknown hlookup
  | some pending =>
      have hcopy : ownCopy lib env pending { n with pending := n.pending.erase answer.challengeId }
          = ownCopy lib env pending n := rfl
      have hproved : provedReceipt pending answer
          { n with pending := n.pending.erase answer.challengeId }
            = provedReceipt pending answer n := rfl
      dsimp only
      rw [hcopy, hproved]
      -- the challenge and the copy are those of any match
      have hmatch : ∀ {pending' receipt}, ProofMatch lib env answer n pending' receipt →
          pending' = pending := fun h => Option.some.inj (h.lookup.symm.trans hlookup)
      cases hown : ownCopy lib env pending n with
      | none =>
          refine .unmatched fun pending' receipt h => ?_
          obtain ⟨record, hrecord, -⟩ := h.hash
          rw [hmatch h, hown] at hrecord
          cases hrecord
      | some record =>
          dsimp only
          by_cases hhash : mailStorageProofHashHex lib record pending.nonceB64 = answer.proofHashHex
          · rw [if_neg (not_not.mpr hhash)]
            cases hreceipt : provedReceipt pending answer n with
            | none =>
                refine .unmatched fun pending' receipt h => ?_
                have hproof := h.proved
                rw [hmatch h, hreceipt] at hproof
                cases hproof
            | some receipt =>
                have hfound : ProofMatch lib env answer n pending receipt :=
                  ⟨hlookup, ⟨record, hown, hhash⟩, hreceipt⟩
                dsimp only
                split
                · next huntrusted => exact .untrusted pending receipt _ _ hfound huntrusted
                · next htrusted =>
                    exact .proved pending receipt hfound (Bool.not_eq_false _ ▸ htrusted)
          · rw [if_pos hhash]
            have hno : ∀ pending' receipt, ¬ ProofMatch lib env answer n pending' receipt := by
              intro pending' receipt h
              obtain ⟨record', hrecord, hsame⟩ := h.hash
              rw [hmatch h, hown] at hrecord
              rw [hmatch h, ← Option.some.inj hrecord] at hsame
              exact hhash hsame
            cases hreceipt : provedReceipt pending answer n with
            | none => exact .unmatched hno
            | some receipt => exact .failed receipt _ _ (provedReceipt_mem hreceipt) hno

/-- What holds of the state is kept by a series of steps that each keep it. -/
theorem forEach_induct {α : Type} {f : α → MailNode → MailStep} (P : MailNode → Prop) :
    ∀ {xs : List α} {n : MailNode}, (∀ x ∈ xs, ∀ n, P n → P (f x n).node) → P n →
      P (forEach f xs n).node
  | [], n, _, hn => hn
  | x :: xs, n, hf, hn => by
      change P (forEach f xs (f x n).node).node
      exact forEach_induct P (fun y hy => hf y (List.mem_cons_of_mem _ hy))
        (hf x List.mem_cons_self n hn)

/-- An action of a series is one of its steps. -/
theorem mem_log_forEach {α : Type} {f : α → MailNode → MailStep} {a : MailAction} :
    ∀ {xs : List α} {n : MailNode}, a ∈ (forEach f xs n).log →
      ∃ x ∈ xs, ∃ n', a ∈ (f x n').log
  | [], n, h => by cases h
  | x :: xs, n, h => by
      rcases List.mem_append.mp h with hfirst | hrest
      · exact ⟨x, List.mem_cons_self, n, hfirst⟩
      · obtain ⟨y, hy, hlog⟩ := mem_log_forEach hrest
        exact ⟨y, List.mem_cons_of_mem _ hy, hlog⟩

/-! ## Where the pending challenges come from -/

/-- A challenge that is pending after a step was pending before, or the step
issued it. -/
def PendingFrom (n : MailNode) (step : MailStep) : Prop :=
  ∀ id pending, step.node.pending.lookup id = some pending →
    n.pending.lookup id = some pending ∨
      (pending.challengeId = id ∧ .challenged pending ∈ step.log)

theorem PendingFrom.of_subset {n : MailNode} {step : MailStep}
    (h : ∀ id pending, step.node.pending.lookup id = some pending →
      n.pending.lookup id = some pending) : PendingFrom n step :=
  fun id pending hlookup => .inl (h id pending hlookup)

theorem IssueEffect.pendingFrom {receipt : MailStorageReceipt} {n : MailNode} {step : MailStep}
    (heffect : IssueEffect lib receipt n step) : PendingFrom n step := by
  cases heffect with
  | nothing => exact .of_subset fun _ _ h => h
  | slashed updated hcarries hopen hinvalid hslashed => exact .of_subset fun _ _ h => h
  | refreshed updated hcarries hopen hslashed => exact .of_subset fun _ _ h => h
  | challenged updated pending hcarries hopen hslashed hpending =>
      intro id other hlookup
      have hinsert : (n.pending.insert pending.challengeId pending).lookup id = some other := hlookup
      rw [FinMap.lookup_insert_ite] at hinsert
      split at hinsert
      · next hid =>
          rw [← Option.some.inj hinsert]
          exact .inr ⟨hid.symm, List.mem_singleton_self _⟩
      · exact .inl hinsert

theorem forEach_pendingFrom {α : Type} {f : α → MailNode → MailStep}
    (hf : ∀ x n, PendingFrom n (f x n)) : ∀ (xs : List α) (n : MailNode),
      PendingFrom n (forEach f xs n)
  | [], n => .of_subset fun _ _ h => h
  | x :: xs, n => by
      intro id pending hlookup
      rcases forEach_pendingFrom hf xs (f x n).node id pending hlookup with hfirst | ⟨hid, hlog⟩
      · rcases hf x n id pending hfirst with hbefore | ⟨hid, hlog⟩
        · exact .inl hbefore
        · exact .inr ⟨hid, List.mem_append_left _ hlog⟩
      · exact .inr ⟨hid, List.mem_append_right _ hlog⟩

theorem slashTimedOut_pendingFrom (env : MailEnv) (pending : PendingMailProofChallenge)
    (n : MailNode) : PendingFrom n (slashTimedOut lib env pending n) := by
  rw [slashTimedOut.eq_def]
  split
  · exact .of_subset fun _ _ h => h
  · exact .of_subset fun _ _ h => h

theorem challengeAgain_pendingFrom (env : MailEnv) (receipt : MailStorageReceipt) (n : MailNode) :
    PendingFrom n (challengeAgain lib env receipt n) := by
  rw [challengeAgain]
  split
  · exact .of_subset fun _ _ h => h
  · split
    · exact .of_subset fun _ _ h => h
    · exact (issueEffect env receipt n).pendingFrom

theorem maintain_pendingFrom (env : MailEnv) (n : MailNode) :
    PendingFrom n (maintainMailStorageProofs lib env n) := by
  rw [maintainMailStorageProofs]
  split
  · exact .of_subset fun _ _ h => h
  · dsimp only
    intro id pending hlookup
    rcases forEach_pendingFrom (challengeAgain_pendingFrom env) _ _ id pending hlookup with
      hfirst | ⟨hid, hlog⟩
    · rcases forEach_pendingFrom (slashTimedOut_pendingFrom env) _ _ id pending hfirst with
        hkept | ⟨hid, hlog⟩
      · have hkept' : (FinMap.keepIf (fun pending => !timedOut env pending) n.pending).lookup id
            = some pending := hkept
        rw [FinMap.lookup_keepIf, Option.filter_eq_some_iff] at hkept'
        exact .inl hkept'.1
      · exact .inr ⟨hid, List.mem_append_left _ hlog⟩
    · exact .inr ⟨hid, List.mem_append_right _ hlog⟩

theorem step_pendingFrom (env : MailEnv) (n : MailNode) (event : MailEvent) :
    PendingFrom n (event.run lib env n) := by
  cases event with
  | store remoteLabel record =>
      change PendingFrom n (dhtMailStore lib env remoteLabel record n)
      rw [dhtMailStore]
      split
      · exact .of_subset fun _ _ h => h
      · exact .of_subset fun _ _ h => h
  | receipt remoteLabel received =>
      change PendingFrom n (dhtMailReceipt lib env remoteLabel received n)
      rw [dhtMailReceipt]
      split
      · exact .of_subset fun _ _ h => h
      · dsimp only
        split
        · exact .of_subset fun _ _ h => h
        · exact (issueEffect env _ (n.upsert _)).pendingFrom
  | proof answer =>
      have herase : ∀ id pending, (n.pending.erase answer.challengeId).lookup id = some pending →
          n.pending.lookup id = some pending := by
        intro id pending hlookup
        rw [FinMap.lookup_erase_ite] at hlookup
        split at hlookup
        · cases hlookup
        · exact hlookup
      change PendingFrom n (dhtMailProof lib env answer n)
      have heffect : ProofEffect lib env answer n _ := proofEffect env answer n
      revert heffect
      generalize dhtMailProof lib env answer n = step
      intro heffect
      cases heffect with
      | unknown hlookup => exact .of_subset fun _ _ h => h
      | unmatched hno => exact .of_subset herase
      | failed receipt reason evidence hreceipt hno => exact .of_subset herase
      | untrusted pending receipt reason evidence hmatch huntrusted => exact .of_subset herase
      | proved pending receipt hmatch htrusted => exact .of_subset herase
  | lookup => exact .of_subset fun _ _ h => h
  | maintain => exact maintain_pendingFrom env n
  | keep record => exact .of_subset fun _ _ h => h
  | delete messageId =>
      refine .of_subset fun id pending hlookup => ?_
      have hlookup' : (deleteDistributedMail messageId n).pending.lookup id = some pending := hlookup
      rw [deleteDistributedMail] at hlookup'
      split at hlookup'
      · exact hlookup'
      · exact hlookup'
  | prune => exact .of_subset fun _ _ h => h
  | restart =>
      refine .of_subset fun id pending hlookup => ?_
      have hempty : (∅ : FinMap Bytes PendingMailProofChallenge).lookup id = some pending := hlookup
      rw [Finmap.lookup_empty] at hempty
      cases hempty

/-! ### Samples -/

/-- Addresses are keys and every signature is valid. -/
def sampleMailLib : MailLib where
  sha3_512 _ := 0
  verifySignature _ _ _ := true
  pubkeyToAddress pubkey := pubkey
  addressesEqual a b := decide (a = b)
  verifyBlob _ _ _ := true
  sharedSecret _ _ := none
  deriveChatKey _ _ := none
  rsaUnwrap _ _ := none
  aesGcmDecrypt _ _ _ _ _ := none
  deserializeContent _ := none
  signHash _ _ := []

def textRank (text : Bytes) : Nat := Encodable.encode (text.map UInt8.toNat)

theorem textRank_injective : Function.Injective textRank := fun _ _ h =>
  List.map_injective_iff.mpr (fun _ _ => UInt8.toNat_inj.mp) (Encodable.encode_injective h)

def sampleMailEnv : MailEnv where
  now := 100
  policy := {}
  balance := none
  wallet := none
  advertised := none
  draw _ := ([1], [2])
  visit := .byRank textRank textRank_injective

/-- A receipt of replica `[2]` for message `[1]`. -/
def sampleReceipt : MailStorageReceipt where
  messageId := [1]
  recipientAddress := [7]
  replicaLabel := [2]
  storageHashHex := []
  providerAddress := [3]
  providerPubkeyB64 := base64Encode [3]
  providerSignatureB64 := base64Encode [4]

end Mail

end Cryptex
