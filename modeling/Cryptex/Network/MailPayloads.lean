import Cryptex.Network.MailReceipts
import Cryptex.Network.VoiceWire

/-!
# Payloads of the mail store

The payloads that peers exchange about stored mail in `network.cpp`. Each is
read as it was written, in the fields that its version has.
-/

namespace Cryptex

open Codec Voice
open Chat (writeU64)

namespace Mail.Wire

/-- A string at the end of a payload. -/
theorem readString_last {b : Bytes} (h : b.length < 2 ^ 64) :
    readString (writeBytes b) = some (b, []) := by
  rw [← List.append_nil (writeBytes b)]
  exact readString_write h []

/-! ## Stored mail -/

structure DhtMailStorePayload where
  version : UInt8 := 1
  record : DistributedMailRecord
deriving DecidableEq

namespace DhtMailStorePayload

def serialize (p : DhtMailStorePayload) : Bytes :=
  p.version :: (writeU32 p.record.version ++ (writeU64 p.record.storedAt ++
    (writeU64 p.record.expiresAt ++ (writeBytes p.record.messageId ++
    (writeBytes p.record.senderAddress ++ (writeBytes p.record.recipientAddress ++
    (writeBytes p.record.peerLabel ++ writeBytes p.record.payloadB64)))))))

def deserialize (data : Bytes) : Option DhtMailStorePayload := do
  let (version, data) ← readU8 data
  let (recordVersion, data) ← readU32 data
  let (storedAt, data) ← readU64 data
  let (expiresAt, data) ← readU64 data
  let (messageId, data) ← readString data
  let (sender, data) ← readString data
  let (recipient, data) ← readString data
  let (peer, data) ← readString data
  let (payloadB64, _) ← readString data
  some
    { version := version
      record :=
        { version := recordVersion
          storedAt := storedAt
          expiresAt := expiresAt
          messageId := messageId
          senderAddress := sender
          recipientAddress := recipient
          peerLabel := peer
          payloadB64 := payloadB64 } }

theorem deserialize_serialize {p : DhtMailStorePayload} (h : p.serialize.length < 2 ^ 64) :
    deserialize p.serialize = some p := by
  obtain ⟨version, recordVersion, storedAt, expiresAt, messageId, sender, recipient, peer,
    payloadB64⟩ := p
  have hmessageId := length_le_writeBytes messageId
  have hsender := length_le_writeBytes sender
  have hrecipient := length_le_writeBytes recipient
  have hpeer := length_le_writeBytes peer
  have hpayload := length_le_writeBytes payloadB64
  simp only [serialize, List.length_cons, List.length_append] at h ⊢
  refine (bind_of_eq (readU8_cons _ _) _).trans ?_
  refine (bind_of_eq (roundTrip_u32 _ _) _).trans ?_
  refine (bind_of_eq (readU64_write _ _) _).trans ?_
  refine (bind_of_eq (readU64_write _ _) _).trans ?_
  refine (bind_of_eq (readString_write (by omega) _) _).trans ?_
  refine (bind_of_eq (readString_write (by omega) _) _).trans ?_
  refine (bind_of_eq (readString_write (by omega) _) _).trans ?_
  refine (bind_of_eq (readString_write (by omega) _) _).trans ?_
  exact bind_of_eq (readString_last (by omega)) _

end DhtMailStorePayload

/-! ## Lookups -/

structure DhtMailFindPayload where
  version : UInt8 := 1
  queryId : Bytes
  recipientAddress : Bytes
  requesterLabel : Bytes
  limit : UInt32 := 64
  hops : UInt8 := 1
deriving DecidableEq

namespace DhtMailFindPayload

def serialize (p : DhtMailFindPayload) : Bytes :=
  p.version :: (writeBytes p.queryId ++ (writeBytes p.recipientAddress ++
    (writeBytes p.requesterLabel ++ (writeU32 p.limit ++ [p.hops]))))

def deserialize (data : Bytes) : Option DhtMailFindPayload := do
  let (version, data) ← readU8 data
  let (queryId, data) ← readString data
  let (recipient, data) ← readString data
  let (requester, data) ← readString data
  let (limit, data) ← readU32 data
  let (hops, _) ← readU8 data
  some
    { version := version
      queryId := queryId
      recipientAddress := recipient
      requesterLabel := requester
      limit := limit
      hops := hops }

theorem deserialize_serialize {p : DhtMailFindPayload} (h : p.serialize.length < 2 ^ 64) :
    deserialize p.serialize = some p := by
  obtain ⟨version, queryId, recipient, requester, limit, hops⟩ := p
  have hqueryId := length_le_writeBytes queryId
  have hrecipient := length_le_writeBytes recipient
  have hrequester := length_le_writeBytes requester
  simp only [serialize, List.length_cons, List.length_append] at h ⊢
  refine (bind_of_eq (readU8_cons _ _) _).trans ?_
  refine (bind_of_eq (readString_write (by omega) _) _).trans ?_
  refine (bind_of_eq (readString_write (by omega) _) _).trans ?_
  refine (bind_of_eq (readString_write (by omega) _) _).trans ?_
  refine (bind_of_eq (roundTrip_u32 _ _) _).trans ?_
  exact bind_of_eq (readU8_cons _ _) _

end DhtMailFindPayload

structure DhtMailResultsPayload where
  version : UInt8 := 1
  queryId : Bytes
  records : List DistributedMailRecord
deriving DecidableEq

namespace DhtMailResultsPayload

/-- A record in its own payload, as a string. -/
def writeRow (record : DistributedMailRecord) : Bytes :=
  writeBytes (DhtMailStorePayload.serialize { record := record })

def readRow : Decoder DistributedMailRecord UInt8 := fun data => do
  let (row, data) ← readString data
  let payload ← DhtMailStorePayload.deserialize row
  some (payload.record, data)

def serialize (p : DhtMailResultsPayload) : Bytes :=
  p.version :: (writeBytes p.queryId ++ (writeVarint p.records.length ++
    p.records.flatMap writeRow))

def deserialize (data : Bytes) : Option DhtMailResultsPayload := do
  let (version, data) ← readU8 data
  let (queryId, data) ← readString data
  let (count, data) ← readVarint data
  let (records, _) ← decodeN readRow count data
  some
    { version := version
      queryId := queryId
      records := records }

theorem writeRow_ne_nil (record : DistributedMailRecord) : writeRow record ≠ [] := by
  intro h
  have hlength := length_le_writeBytes (DhtMailStorePayload.serialize { record := record })
  rw [show writeBytes _ = [] from h] at hlength
  exact absurd hlength (Nat.not_succ_le_zero _)

theorem readRow_write {record : DistributedMailRecord} (h : (writeRow record).length < 2 ^ 64)
    (rest : Bytes) : readRow (writeRow record ++ rest) = some (record, rest) := by
  have hrow := length_le_writeBytes (DhtMailStorePayload.serialize { record := record })
  rw [writeRow] at h
  refine (bind_of_eq (readString_write (by omega) _) _).trans ?_
  exact bind_of_eq (DhtMailStorePayload.deserialize_serialize (by omega)) _

theorem deserialize_serialize {p : DhtMailResultsPayload} (h : p.serialize.length < 2 ^ 64) :
    deserialize p.serialize = some p := by
  obtain ⟨version, queryId, records⟩ := p
  have hqueryId := length_le_writeBytes queryId
  obtain ⟨hcount, hrow⟩ := length_le_flatMap writeRow_ne_nil records
  simp only [serialize, List.length_cons, List.length_append] at h ⊢
  refine (bind_of_eq (readU8_cons _ _) _).trans ?_
  refine (bind_of_eq (readString_write (by omega) _) _).trans ?_
  refine (bind_of_eq (readVarint_writeVarint _ (by omega)) _).trans ?_
  rw [← List.append_nil (records.flatMap writeRow)]
  refine bind_of_eq (decodeN_flatMap_of_mem records [] fun record hrecord rest => ?_) _
  have := hrow record hrecord
  exact readRow_write (by omega) rest

end DhtMailResultsPayload

/-! ## Receipts and proofs -/

structure DhtMailReceiptPayload where
  version : UInt8 := 2
  receipt : MailStorageReceipt
deriving DecidableEq

namespace DhtMailReceiptPayload

def serialize (p : DhtMailReceiptPayload) : Bytes :=
  p.version :: (writeU32 p.receipt.version ++ (writeBytes p.receipt.messageId ++
    (writeBytes p.receipt.recipientAddress ++ (writeBytes p.receipt.replicaLabel ++
    (writeBytes p.receipt.storageHashHex ++ (writeBytes p.receipt.lastProofHashHex ++
    (writeU64 p.receipt.storedAt ++ (writeU64 p.receipt.expiresAt ++
    (writeU64 p.receipt.receiptAt ++ (writeU64 p.receipt.verifiedAt ++
    (writeU64 p.receipt.lastChallengedAt ++ (writeFlag p.receipt.verified ++
    (writeBytes p.receipt.providerAddress ++ (writeBytes p.receipt.providerPubkeyB64 ++
    (writeBytes p.receipt.providerSignatureB64 ++ (writeU64 p.receipt.bondedBalanceSats ++
    writeFlag p.receipt.bondSatisfied))))))))))))))))

/-- The fields of the provider, which version 1 does not have. -/
def readProvider (receipt : MailStorageReceipt) : Decoder MailStorageReceipt UInt8 := fun data => do
  let (providerAddress, data) ← readString data
  let (providerPubkey, data) ← readString data
  let (providerSignature, data) ← readString data
  let (bondedBalanceSats, data) ← readU64 data
  let (bondSatisfied, data) ← readFlag data
  some
    ({ receipt with
        providerAddress := providerAddress
        providerPubkeyB64 := providerPubkey
        providerSignatureB64 := providerSignature
        bondedBalanceSats := bondedBalanceSats
        bondSatisfied := bondSatisfied }, data)

def deserialize (data : Bytes) : Option DhtMailReceiptPayload := do
  let (version, data) ← readU8 data
  let (receiptVersion, data) ← readU32 data
  let (messageId, data) ← readString data
  let (recipient, data) ← readString data
  let (replica, data) ← readString data
  let (storageHash, data) ← readString data
  let (lastProofHash, data) ← readString data
  let (storedAt, data) ← readU64 data
  let (expiresAt, data) ← readU64 data
  let (receiptAt, data) ← readU64 data
  let (verifiedAt, data) ← readU64 data
  let (lastChallengedAt, data) ← readU64 data
  let (verified, data) ← readFlag data
  let receipt : MailStorageReceipt :=
    { version := receiptVersion
      messageId := messageId
      recipientAddress := recipient
      replicaLabel := replica
      storageHashHex := storageHash
      lastProofHashHex := lastProofHash
      storedAt := storedAt
      expiresAt := expiresAt
      receiptAt := receiptAt
      verifiedAt := verifiedAt
      lastChallengedAt := lastChallengedAt
      verified := verified }
  if version ≥ 2 ∧ data ≠ [] then
    (readProvider receipt data).map fun read => { version := version, receipt := read.1 }
  else some { version := version, receipt := receipt }

theorem readProvider_write {receipt : MailStorageReceipt} {address pubkey signature : Bytes}
    {bonded : UInt64} {satisfied : Bool} (haddress : address.length < 2 ^ 64)
    (hpubkey : pubkey.length < 2 ^ 64) (hsignature : signature.length < 2 ^ 64) :
    readProvider receipt (writeBytes address ++ (writeBytes pubkey ++ (writeBytes signature ++
      (writeU64 bonded ++ writeFlag satisfied)))) =
      some
        ({ receipt with
            providerAddress := address
            providerPubkeyB64 := pubkey
            providerSignatureB64 := signature
            bondedBalanceSats := bonded
            bondSatisfied := satisfied }, []) := by
  refine (bind_of_eq (readString_write haddress _) _).trans ?_
  refine (bind_of_eq (readString_write hpubkey _) _).trans ?_
  refine (bind_of_eq (readString_write hsignature _) _).trans ?_
  refine (bind_of_eq (readU64_write _ _) _).trans ?_
  exact bind_of_eq (readFlag_write satisfied []) _

/-- The fields of a receipt in version 2. -/
def carried (receipt : MailStorageReceipt) : MailStorageReceipt :=
  { receipt with slashed := false, slashedAt := 0, slashReason := [], slashEvidenceHashHex := [] }

theorem deserialize_serialize {p : DhtMailReceiptPayload} (hversion : 2 ≤ p.version)
    (h : p.serialize.length < 2 ^ 64) :
    deserialize p.serialize = some { p with receipt := carried p.receipt } := by
  obtain ⟨version, receipt⟩ := p
  have hmessageId := length_le_writeBytes receipt.messageId
  have hrecipient := length_le_writeBytes receipt.recipientAddress
  have hreplica := length_le_writeBytes receipt.replicaLabel
  have hstorage := length_le_writeBytes receipt.storageHashHex
  have hproof := length_le_writeBytes receipt.lastProofHashHex
  have haddress := length_le_writeBytes receipt.providerAddress
  have hpubkey := length_le_writeBytes receipt.providerPubkeyB64
  have hsignature := length_le_writeBytes receipt.providerSignatureB64
  simp only [serialize, List.length_cons, List.length_append] at h ⊢
  refine (bind_of_eq (readU8_cons _ _) _).trans ?_
  refine (bind_of_eq (roundTrip_u32 _ _) _).trans ?_
  refine (bind_of_eq (readString_write (by omega) _) _).trans ?_
  refine (bind_of_eq (readString_write (by omega) _) _).trans ?_
  refine (bind_of_eq (readString_write (by omega) _) _).trans ?_
  refine (bind_of_eq (readString_write (by omega) _) _).trans ?_
  refine (bind_of_eq (readString_write (by omega) _) _).trans ?_
  refine (bind_of_eq (readU64_write _ _) _).trans ?_
  refine (bind_of_eq (readU64_write _ _) _).trans ?_
  refine (bind_of_eq (readU64_write _ _) _).trans ?_
  refine (bind_of_eq (readU64_write _ _) _).trans ?_
  refine (bind_of_eq (readU64_write _ _) _).trans ?_
  refine (bind_of_eq (readFlag_write _ _) _).trans ?_
  refine (if_pos ⟨hversion, ?tail⟩).trans ?read
  case tail =>
    intro hnil
    have hlength := congrArg List.length hnil
    simp only [List.length_append, List.length_nil, writeFlag, List.length_singleton] at hlength
    omega
  case read =>
    exact congrArg _ (readProvider_write (by omega) (by omega) (by omega))

end DhtMailReceiptPayload

structure DhtMailChallengePayload where
  version : UInt8 := 1
  challengeId : Bytes
  messageId : Bytes
  recipientAddress : Bytes
  requesterLabel : Bytes
  nonceB64 : Bytes
deriving DecidableEq

namespace DhtMailChallengePayload

def serialize (p : DhtMailChallengePayload) : Bytes :=
  p.version :: (writeBytes p.challengeId ++ (writeBytes p.messageId ++
    (writeBytes p.recipientAddress ++ (writeBytes p.requesterLabel ++ writeBytes p.nonceB64))))

def deserialize (data : Bytes) : Option DhtMailChallengePayload := do
  let (version, data) ← readU8 data
  let (challenge, data) ← readString data
  let (messageId, data) ← readString data
  let (recipient, data) ← readString data
  let (requester, data) ← readString data
  let (nonce, _) ← readString data
  some
    { version := version
      challengeId := challenge
      messageId := messageId
      recipientAddress := recipient
      requesterLabel := requester
      nonceB64 := nonce }

theorem deserialize_serialize {p : DhtMailChallengePayload} (h : p.serialize.length < 2 ^ 64) :
    deserialize p.serialize = some p := by
  obtain ⟨version, challenge, messageId, recipient, requester, nonce⟩ := p
  have hchallenge := length_le_writeBytes challenge
  have hmessageId := length_le_writeBytes messageId
  have hrecipient := length_le_writeBytes recipient
  have hrequester := length_le_writeBytes requester
  have hnonce := length_le_writeBytes nonce
  simp only [serialize, List.length_cons, List.length_append] at h ⊢
  refine (bind_of_eq (readU8_cons _ _) _).trans ?_
  refine (bind_of_eq (readString_write (by omega) _) _).trans ?_
  refine (bind_of_eq (readString_write (by omega) _) _).trans ?_
  refine (bind_of_eq (readString_write (by omega) _) _).trans ?_
  refine (bind_of_eq (readString_write (by omega) _) _).trans ?_
  exact bind_of_eq (readString_last (by omega)) _

end DhtMailChallengePayload

structure DhtMailProofPayload extends Mail.DhtMailProofPayload where
  version : UInt8 := 1

namespace DhtMailProofPayload

def serialize (p : DhtMailProofPayload) : Bytes :=
  p.version :: (writeBytes p.challengeId ++ (writeBytes p.messageId ++
    (writeBytes p.recipientAddress ++ (writeBytes p.replicaLabel ++
    (writeBytes p.proofHashHex ++ writeU64 p.respondedAt)))))

def deserialize (data : Bytes) : Option DhtMailProofPayload := do
  let (version, data) ← readU8 data
  let (challenge, data) ← readString data
  let (messageId, data) ← readString data
  let (recipient, data) ← readString data
  let (replica, data) ← readString data
  let (proof, data) ← readString data
  let (respondedAt, _) ← readU64 data
  some
    { version := version
      challengeId := challenge
      messageId := messageId
      recipientAddress := recipient
      replicaLabel := replica
      proofHashHex := proof
      respondedAt := respondedAt }

theorem deserialize_serialize {p : DhtMailProofPayload} (h : p.serialize.length < 2 ^ 64) :
    deserialize p.serialize = some p := by
  obtain ⟨⟨challenge, messageId, recipient, replica, proof, respondedAt⟩, version⟩ := p
  have hchallenge := length_le_writeBytes challenge
  have hmessageId := length_le_writeBytes messageId
  have hrecipient := length_le_writeBytes recipient
  have hreplica := length_le_writeBytes replica
  have hproof := length_le_writeBytes proof
  simp only [serialize, List.length_cons, List.length_append] at h ⊢
  refine (bind_of_eq (readU8_cons _ _) _).trans ?_
  refine (bind_of_eq (readString_write (by omega) _) _).trans ?_
  refine (bind_of_eq (readString_write (by omega) _) _).trans ?_
  refine (bind_of_eq (readString_write (by omega) _) _).trans ?_
  refine (bind_of_eq (readString_write (by omega) _) _).trans ?_
  refine (bind_of_eq (readString_write (by omega) _) _).trans ?_
  rw [← List.append_nil (writeU64 respondedAt)]
  exact bind_of_eq (readU64_write _ _) _

end DhtMailProofPayload

/-! ## Introductions -/

structure NatCandidate where
  type : UInt8 := 0
  label : Bytes
  priority : UInt32 := 0
deriving DecidableEq

structure DhtMailNatIntroPayload where
  version : UInt8 := 2
  initiatorLabel : Bytes
  targetLabel : Bytes
  purpose : Bytes
  sentAt : UInt64 := 0
  hops : UInt8 := 2
  requestReverse : Bool := true
  reverseResponse : Bool := false
  initiatorCandidates : List NatCandidate := []
deriving DecidableEq

namespace DhtMailNatIntroPayload

def writeCandidate (candidate : NatCandidate) : Bytes :=
  candidate.type :: (writeBytes candidate.label ++ writeU32 candidate.priority)

def readCandidate : Decoder NatCandidate UInt8 := fun data => do
  let (type, data) ← readU8 data
  let (label, data) ← readString data
  let (priority, data) ← readU32 data
  some ({ type := type, label := label, priority := priority }, data)

def serialize (p : DhtMailNatIntroPayload) : Bytes :=
  p.version :: (writeBytes p.initiatorLabel ++ (writeBytes p.targetLabel ++
    (writeBytes p.purpose ++ (writeU64 p.sentAt ++ (p.hops :: (writeFlag p.requestReverse ++
    (writeFlag p.reverseResponse ++ (writeVarint p.initiatorCandidates.length ++
    p.initiatorCandidates.flatMap writeCandidate))))))))

/-- The fields that version 1 does not have. -/
def readReverse (p : DhtMailNatIntroPayload) : Decoder DhtMailNatIntroPayload UInt8 := fun data => do
  let (requestReverse, data) ← readFlag data
  let (reverseResponse, data) ← readFlag data
  let (count, data) ← readVarint data
  let (candidates, data) ← decodeN readCandidate count data
  some
    ({ p with
        requestReverse := requestReverse
        reverseResponse := reverseResponse
        initiatorCandidates := candidates }, data)

def deserialize (data : Bytes) : Option DhtMailNatIntroPayload := do
  let (version, data) ← readU8 data
  let (initiator, data) ← readString data
  let (target, data) ← readString data
  let (purpose, data) ← readString data
  let (sentAt, data) ← readU64 data
  let (hops, data) ← readU8 data
  let payload : DhtMailNatIntroPayload :=
    { version := version
      initiatorLabel := initiator
      targetLabel := target
      purpose := purpose
      sentAt := sentAt
      hops := hops }
  if version ≥ 2 ∧ data ≠ [] then (readReverse payload data).map Prod.fst else some payload

/-- The fields of an introduction that its version has. -/
def carried (p : DhtMailNatIntroPayload) : DhtMailNatIntroPayload :=
  if p.version ≥ 2 then p
  else { p with requestReverse := true, reverseResponse := false, initiatorCandidates := [] }

theorem writeCandidate_ne_nil (candidate : NatCandidate) : writeCandidate candidate ≠ [] :=
  List.cons_ne_nil _ _

theorem readCandidate_write {candidate : NatCandidate}
    (h : (writeCandidate candidate).length < 2 ^ 64) (rest : Bytes) :
    readCandidate (writeCandidate candidate ++ rest) = some (candidate, rest) := by
  obtain ⟨type, label, priority⟩ := candidate
  have hlabel := length_le_writeBytes label
  simp only [writeCandidate, List.length_cons, List.length_append, List.cons_append,
    List.append_assoc] at h ⊢
  refine (bind_of_eq (readU8_cons _ _) _).trans ?_
  refine (bind_of_eq (readString_write (by omega) _) _).trans ?_
  exact bind_of_eq (roundTrip_u32 _ _) _

theorem readReverse_write {p : DhtMailNatIntroPayload} {reverse response : Bool}
    {candidates : List NatCandidate} (hcount : candidates.length < 2 ^ 64)
    (hread : ∀ candidate ∈ candidates, ∀ rest,
      readCandidate (writeCandidate candidate ++ rest) = some (candidate, rest)) :
    readReverse p (writeFlag reverse ++ (writeFlag response ++ (writeVarint candidates.length ++
      candidates.flatMap writeCandidate))) =
      some
        ({ p with
            requestReverse := reverse
            reverseResponse := response
            initiatorCandidates := candidates }, []) := by
  refine (bind_of_eq (readFlag_write _ _) _).trans ?_
  refine (bind_of_eq (readFlag_write _ _) _).trans ?_
  refine (bind_of_eq (readVarint_writeVarint _ hcount) _).trans ?_
  rw [← List.append_nil (candidates.flatMap writeCandidate)]
  exact bind_of_eq (decodeN_flatMap_of_mem candidates [] hread) _

theorem deserialize_serialize {p : DhtMailNatIntroPayload} (h : p.serialize.length < 2 ^ 64) :
    deserialize p.serialize = some p.carried := by
  obtain ⟨version, initiator, target, purpose, sentAt, hops, reverse, response, candidates⟩ := p
  have hinitiator := length_le_writeBytes initiator
  have htarget := length_le_writeBytes target
  have hpurpose := length_le_writeBytes purpose
  obtain ⟨hcount, hcandidate⟩ := length_le_flatMap writeCandidate_ne_nil candidates
  simp only [serialize, List.length_cons, List.length_append] at h ⊢
  refine (bind_of_eq (readU8_cons _ _) _).trans ?_
  refine (bind_of_eq (readString_write (by omega) _) _).trans ?_
  refine (bind_of_eq (readString_write (by omega) _) _).trans ?_
  refine (bind_of_eq (readString_write (by omega) _) _).trans ?_
  refine (bind_of_eq (readU64_write _ _) _).trans ?_
  refine (bind_of_eq (readU8_cons _ _) _).trans ?_
  by_cases hversion : version ≥ 2
  · rw [carried, if_pos hversion]
    refine (if_pos ⟨hversion, List.cons_ne_nil _ _⟩).trans ?_
    refine congrArg _ (readReverse_write (by omega) fun candidate hmem rest => ?_)
    have := hcandidate candidate hmem
    exact readCandidate_write (by omega) rest
  · rw [carried, if_neg hversion]
    exact if_neg fun h => hversion h.1

end DhtMailNatIntroPayload

end Mail.Wire

end Cryptex
