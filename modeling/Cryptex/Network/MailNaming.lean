import Cryptex.Network.ChatWire
import Cryptex.Network.MailSlashing

/-!
# What the id of stored mail says

A record of the mail store names its message and its recipient. Mail that
arrives as chat is named after its payload; a record that a peer sends, or that
a lookup finds, is kept under the names that it comes with, and keeps out
whatever has the same id.
-/

namespace Cryptex

open Codec Encoding Chat

namespace Mail

/-! ## Mail that arrives as chat -/

section

variable (lib : MailLib)

/-- `make_distributed_mail_record`. -/
def makeDistributedMailRecord (now : UInt64) (ttlHours : UInt32) (peerLabel : Bytes)
    (payload : ChatPayload) : DistributedMailRecord where
  storedAt := now
  expiresAt := now + (max ttlHours 1).toUInt64 * 60 * 60
  messageId := messageId lib.toChatLib payload
  senderAddress := payload.sender
  recipientAddress := payload.recipient
  peerLabel := peerLabel
  payloadB64 := base64Encode payload.serialize

/-- `record_distributed_mail`. -/
def recordDistributedMail (env : MailEnv) (ttlHours : UInt32) (peerLabel : Bytes)
    (payload : ChatPayload) (lines : List Bytes) : List Bytes :=
  if payload.chatType ≠ chatTypeMail ∨ payload.recipient = [] then lines
  else
    storeDistributedMailRecord lib.toCrypto env.policy
      (makeDistributedMailRecord lib env.now ttlHours peerLabel payload) env.now lines

/-! ## Traffic -/

/-- A CHAT message that is not refused, with the history after it, an event of
the store, or a call of `getp2pmail`. -/
inductive MailTraffic where
  | chat (env : MailEnv) (ttlHours : UInt32) (peerLabel : Bytes) (data : Vec UInt8)
      (history : List Bytes)
  | mail (env : MailEnv) (event : MailEvent)
  | fetch (policy : MailPolicy) (env : Option ImportEnv) (query : HistoryQuery)
      (found : List DistributedMailRecord)

/-- The store after a CHAT message. -/
def chatLines (env : MailEnv) (ttlHours : UInt32) (peerLabel : Bytes) (data : Vec UInt8)
    (lines : List Bytes) : List Bytes :=
  match ChatPayload.deserialize data.toList with
  | none => lines
  | some payload => recordDistributedMail lib env ttlHours peerLabel payload lines

def MailTraffic.run (box : Mailbox) : MailTraffic → Mailbox
  | .chat env ttlHours peerLabel data history =>
      { store :=
          { box.store with
            recordLines := chatLines lib env ttlHours peerLabel data box.store.recordLines }
        history := history }
  | .mail env event => { box with store := (event.run lib env box.store).node }
  | .fetch policy env query found => (getp2pmail lib policy env query found box).1

/-! ## Names -/

/-- The payload of a record. -/
def Holds (record : DistributedMailRecord) (payload : ChatPayload) : Prop :=
  ∃ data, base64Decode record.payloadB64 = some data ∧ ChatPayload.deserialize data = some payload

/-- A record has the names of its payload, if it has one. -/
def Named (record : DistributedMailRecord) : Prop :=
  ∀ payload, Holds record payload →
    record.messageId = messageId lib.toChatLib payload ∧ record.recipientAddress = payload.recipient

/-- A record has the names of its payload, or it has no payload and its id is
not that of any. -/
def Honest (record : DistributedMailRecord) : Prop :=
  Named lib record ∧
    ((∃ payload, Holds record payload) ∨
      ∀ payload, record.messageId ≠ messageId lib.toChatLib payload)

def storedRecords (lines : List Bytes) : List DistributedMailRecord :=
  lines.filterMap parseDistributedMailRecordLine

/-- Stored mail is what its id says: every record has the names of its payload,
and what keeps a message out holds a payload with the id of that message. -/
structure StoreTrue (lines : List Bytes) : Prop where
  named : ∀ record ∈ storedRecords lines, Named lib record
  refused : ∀ now payload, Stored lib.toCrypto lines now (messageId lib.toChatLib payload) →
    ∃ record ∈ storedRecords lines, ∃ kept, Holds record kept ∧
      messageId lib.toChatLib kept = messageId lib.toChatLib payload

/-! ## Runs whose records are honest -/

/-- A record that is offered to the store is refused or honest. -/
def Admissible (now : UInt64) (record : DistributedMailRecord) (lines : List Bytes) : Prop :=
  Stored lib.toCrypto lines now record.messageId ∨ Honest lib record

/-- So is every record that an import stores, at its turn. -/
def AllAdmissible (policy : MailPolicy) (now : UInt64) :
    List DistributedMailRecord → List Bytes → Prop
  | [], _ => True
  | record :: records, lines =>
      Admissible lib now record lines ∧ AllAdmissible policy now records
        (storeDistributedMailRecord lib.toCrypto policy record now lines)

/-- The records that others bring are refused or honest. -/
def MailTraffic.Admits (box : Mailbox) : MailTraffic → Prop
  | .mail env (.store _ record) =>
      record.messageId = [] ∨ record.recipientAddress = [] ∨
        Admissible lib env.now record box.store.recordLines
  | .mail env (.keep record) => Admissible lib env.now record box.store.recordLines
  | .fetch policy (some env) query found =>
      query.direction = some (chars "out") ∨
        AllAdmissible lib policy env.now found box.store.recordLines
  | _ => True

/-- The mailboxes that are reached from an empty store by such traffic. -/
inductive HonestRun : Mailbox → Prop
  | start (receiptLines history : List Bytes) : HonestRun ⟨⟨[], receiptLines, ∅⟩, history⟩
  | step {box : Mailbox} (traffic : MailTraffic) (h : HonestRun box)
      (hadmits : traffic.Admits lib box) : HonestRun (traffic.run lib box)

end

variable {lib : MailLib} {lines : List Bytes}

/-! ## Honest stores -/

def HonestStore (lib : MailLib) (lines : List Bytes) : Prop :=
  ∀ record ∈ storedRecords lines, Honest lib record

theorem HonestStore.storeTrue (h : HonestStore lib lines) : StoreTrue lib lines := by
  refine ⟨fun record hrecord => (h record hrecord).1, fun now payload hstored => ?_⟩
  obtain ⟨record, hload, hid⟩ := hstored
  obtain ⟨line, hline, hparse⟩ := exists_line_of_mem_load hload
  have hrecord : record ∈ storedRecords lines := List.mem_filterMap.mpr ⟨line, hline, hparse⟩
  obtain ⟨hnamed, hpayload⟩ := h record hrecord
  obtain ⟨kept, hkept⟩ := hpayload.resolve_right fun hnone => hnone payload hid
  exact ⟨record, hrecord, kept, hkept, (hnamed kept hkept).1.symm.trans hid⟩

/-- What a record brought by chat holds. -/
theorem holds_unique {record : DistributedMailRecord} {payload payload' : ChatPayload}
    (h : Holds record payload) (h' : Holds record payload') : payload = payload' := by
  obtain ⟨data, hdata, hread⟩ := h
  obtain ⟨data', hdata', hread'⟩ := h'
  rw [hdata] at hdata'
  cases hdata'
  rw [hread] at hread'
  exact Option.some.inj hread'

theorem messageId_profiled (payload : ChatPayload) :
    messageId lib.toChatLib payload.profiled = messageId lib.toChatLib payload := by
  rw [messageId, messageId, ChatPayload.serialize_profiled]

/-- Mail that arrives as chat has the names of its payload. -/
theorem honest_of_chat {data : Vec UInt8} {payload : ChatPayload}
    (hread : ChatPayload.deserialize data.toList = some payload)
    (htype : payload.chatType = chatTypeMail) (now : UInt64) (ttlHours : UInt32)
    (peerLabel : Bytes) :
    Honest lib (makeDistributedMailRecord lib now ttlHours peerLabel payload) := by
  obtain ⟨hlength, hversion⟩ := ChatPayload.serialize_of_deserialize hread
  have hcurrent : 2 ≤ payload.version := by
    refine hversion.resolve_right fun hold => ?_
    rw [htype] at hold
    exact absurd hold (by decide)
  have hdecode := ChatPayload.deserialize_serialize hcurrent (lt_of_le_of_lt hlength data.size_lt)
  have hholds : Holds (makeDistributedMailRecord lib now ttlHours peerLabel payload)
      payload.profiled := by
    refine ⟨payload.serialize, ?_, hdecode⟩
    rw [makeDistributedMailRecord, base64Decode_base64Encode]
  have hnamed : Named lib (makeDistributedMailRecord lib now ttlHours peerLabel payload) := by
    intro other hother
    have heq := holds_unique hholds hother
    have hid : messageId lib.toChatLib payload.profiled = messageId lib.toChatLib payload :=
      messageId_profiled payload
    have hrecipient : payload.profiled.recipient = payload.recipient := rfl
    rw [heq] at hid hrecipient
    simp only [makeDistributedMailRecord]
    exact ⟨hid.symm, hrecipient.symm⟩
  exact ⟨hnamed, .inl ⟨_, hholds⟩⟩

/-! ## What a step keeps -/

section

variable {now : UInt64}

theorem HonestStore.of_subset {kept : List Bytes} (h : HonestStore lib lines)
    (hsub : ∀ record ∈ storedRecords kept, record ∈ storedRecords lines) : HonestStore lib kept :=
  fun record hrecord => h record (hsub record hrecord)

/-- Pruning keeps what it keeps. -/
theorem HonestStore.pruned (h : HonestStore lib lines) (limit : Nat) :
    HonestStore lib (saveDistributedMailRecords
      (lastOf limit (loadDistributedMailRecords lib.toCrypto lines now none 0))) := by
  refine h.of_subset fun record hrecord => ?_
  rw [storedRecords, parse_saved] at hrecord
  obtain ⟨line, hline, hparse⟩ := exists_line_of_mem_load ((lastOf_suffix _ _).subset hrecord)
  exact List.mem_filterMap.mpr ⟨line, hline, hparse⟩

theorem HonestStore.appended {record : DistributedMailRecord} (h : HonestStore lib lines)
    (hadmissible : Admissible lib now record lines) :
    HonestStore lib (appendDistributedMailRecord lib.toCrypto record now lines) := by
  rw [appendDistributedMailRecord]
  split
  · exact h
  · next hnew =>
      have hhonest := hadmissible.resolve_left fun ⟨earlier, hearlier, hid⟩ =>
        hnew (List.any_eq_true.mpr ⟨earlier, hearlier, decide_eq_true hid⟩)
      intro other hother
      rw [storedRecords, List.filterMap_append, List.mem_append] at hother
      obtain hold | hother := hother
      · exact h other hold
      · rw [List.filterMap_cons, parse_serialize_record] at hother
        rw [List.mem_singleton.mp hother]
        exact hhonest

theorem HonestStore.stored {policy : MailPolicy} {record : DistributedMailRecord}
    (h : HonestStore lib lines) (hadmissible : Admissible lib now record lines) :
    HonestStore lib (storeDistributedMailRecord lib.toCrypto policy record now lines) := by
  rw [storeDistributedMailRecord]
  split
  · exact (h.appended hadmissible).pruned _
  · exact h.appended hadmissible

theorem HonestStore.deleted {n : MailNode} (messageId : Bytes)
    (h : HonestStore lib n.recordLines) :
    HonestStore lib (deleteDistributedMail messageId n).recordLines := by
  rw [deleteDistributedMail]
  split
  · refine h.of_subset fun record hrecord => ?_
    rw [deleteDistributedMailRecord] at hrecord
    split at hrecord
    · exact hrecord
    · exact (List.filter_sublist.filterMap _).subset hrecord
  · exact h

end

/-! ## What leaves the records alone -/

section

variable (env : MailEnv) (n : MailNode)

theorem maybeIssue_recordLines (receipt : MailStorageReceipt) :
    (maybeIssueMailStorageChallenge lib env receipt n).node.recordLines = n.recordLines := by
  have heffect : IssueEffect lib receipt n _ := issueEffect env receipt n
  revert heffect
  generalize maybeIssueMailStorageChallenge lib env receipt n = step
  intro heffect
  cases heffect <;> rfl

theorem proof_recordLines (answer : DhtMailProofPayload) :
    (dhtMailProof lib env answer n).node.recordLines = n.recordLines := by
  have heffect : ProofEffect lib env answer n _ := proofEffect env answer n
  revert heffect
  generalize dhtMailProof lib env answer n = step
  intro heffect
  cases heffect <;> rfl

theorem maintain_recordLines :
    (maintainMailStorageProofs lib env n).node.recordLines = n.recordLines := by
  rw [maintainMailStorageProofs]
  split
  · rfl
  · have hslash : (forEach (slashTimedOut lib env) (expiredChallenges env n)
        (withoutExpired env n)).node.recordLines = n.recordLines := by
      refine forEach_induct (·.recordLines = n.recordLines) (fun pending _ m hm => ?_) rfl
      rw [slashTimedOut]
      split
      · exact hm
      · exact hm
    refine forEach_induct (·.recordLines = n.recordLines) (fun receipt _ m hm => ?_) hslash
    rw [challengeAgain]
    split
    · exact hm
    · split
      · exact hm
      · exact (maybeIssue_recordLines env m receipt).trans hm

end

/-! ## Runs -/

variable {box : Mailbox}

theorem honest_event {env : MailEnv} {event : MailEvent}
    (h : HonestStore lib box.store.recordLines)
    (hadmits : (MailTraffic.mail env event).Admits lib box) :
    HonestStore lib (event.run lib env box.store).node.recordLines := by
  cases event with
  | store remoteLabel record =>
      rw [MailEvent.run, dhtMailStore]
      split
      · exact h
      · next hnamed =>
          rw [not_or] at hnamed
          have hadmissible := (hadmits.resolve_left hnamed.1).resolve_left hnamed.2
          -- the label of the peer changes nothing that is named
          refine h.stored ?_
          split
          · exact hadmissible
          · exact hadmissible
  | receipt remoteLabel received =>
      rw [MailEvent.run, dhtMailReceipt_recordLines]
      exact h
  | proof answer =>
      rw [MailEvent.run, proof_recordLines]
      exact h
  | lookup => exact h
  | maintain =>
      rw [MailEvent.run, maintain_recordLines]
      exact h
  | keep record => exact h.stored hadmits
  | delete messageId => exact h.deleted messageId
  | prune => exact h.pruned _
  | restart => exact h

theorem honest_chat {env : MailEnv} {ttlHours : UInt32} {peerLabel : Bytes} {data : Vec UInt8}
    (h : HonestStore lib lines) : HonestStore lib (chatLines lib env ttlHours peerLabel data lines) := by
  rw [chatLines]
  split
  · exact h
  · next payload hread =>
      rw [recordDistributedMail]
      split
      · exact h
      · next hmail =>
          rw [not_or, not_not] at hmail
          exact h.stored (.inr (honest_of_chat hread hmail.1 env.now ttlHours peerLabel))

theorem honest_found {policy : MailPolicy} {now : UInt64} : ∀ {found : List DistributedMailRecord}
    {lines : List Bytes}, HonestStore lib lines → AllAdmissible lib policy now found lines →
    HonestStore lib (found.foldl (fun lines record =>
      storeDistributedMailRecord lib.toCrypto policy record now lines) lines)
  | [], _, h, _ => h
  | record :: found, lines, h, hall => by
      rw [List.foldl_cons]
      exact honest_found (h.stored hall.1) hall.2

theorem honest_import {env : ImportEnv} : ∀ {records : List DistributedMailRecord}
    {seen : List Bytes} {box : Mailbox}, HonestStore lib box.store.recordLines →
    HonestStore lib (importLoop lib env records seen box).store.recordLines
  | [], _, _, h => h
  | record :: records, seen, box, h => by
      rw [importLoop]
      split
      · exact honest_import h
      · refine honest_import ?_
        dsimp only
        split
        · exact h.deleted record.messageId
        · exact h

theorem honest_fetch {policy : MailPolicy} {env : Option ImportEnv} {query : HistoryQuery}
    {found : List DistributedMailRecord} (h : HonestStore lib box.store.recordLines)
    (hadmits : (MailTraffic.fetch policy env query found).Admits lib box) :
    HonestStore lib (getp2pmail lib policy env query found box).1.store.recordLines := by
  cases env with
  | none => exact h
  | some env =>
      unfold getp2pmail
      dsimp only
      split
      · exact h
      · next hin => exact honest_import (honest_found h (hadmits.resolve_left hin))

theorem HonestRun.honest (h : HonestRun lib box) : HonestStore lib box.store.recordLines := by
  induction h with
  | start receiptLines history => exact fun record hrecord => nomatch hrecord
  | step traffic _ hadmits ih =>
      cases traffic with
      | chat env ttlHours peerLabel data history => exact honest_chat ih
      | mail env event => exact honest_event ih hadmits
      | fetch policy env query found => exact honest_fetch ih hadmits

/-- While the records that others bring are refused or honest, stored mail is
what its id says. -/
theorem stored_mail_true (lib : MailLib) {box : Mailbox} (h : HonestRun lib box) :
    StoreTrue lib box.store.recordLines := h.honest.storeTrue

def emptyMailbox : Mailbox := ⟨⟨[], [], ∅⟩, []⟩

/-- The mail of another, as chat. -/
def mailChat : MailTraffic :=
  .chat sampleMailEnv 1 [9] ⟨mailPayload.serialize, by decide⟩ []

theorem mailChat_true : StoreTrue sampleMailLib
    (mailChat.run sampleMailLib emptyMailbox).store.recordLines :=
  stored_mail_true sampleMailLib (.step mailChat (.start [] []) trivial)

/-! ## A record under another id -/

/-- The mail under an id that is not its own. -/
def misnamedMail : DistributedMailRecord := { storedMail with messageId := [1], peerLabel := [9] }

theorem misnamed_not_named : ¬ Named sampleMailLib misnamedMail := by
  intro h
  have hholds : Holds misnamedMail mailPayload :=
    ⟨mailPayload.serialize, base64Decode_base64Encode _,
      ChatPayload.deserialize_serialize (by decide) (by decide)⟩
  have hlength := congrArg List.length (h mailPayload hholds).1
  rw [messageId, length_hexEncode, length_toPaddedBytes] at hlength
  exact absurd hlength (by decide)

/-- A peer sends mail under an id that is not its own, and the node keeps it. -/
theorem not_stored_mail_true : ¬ ∀ (lib : MailLib) (traffic : List MailTraffic),
    StoreTrue lib (traffic.foldl (MailTraffic.run lib) emptyMailbox).store.recordLines := by
  intro h
  have hlines : (([.mail sampleMailEnv (.store [9] misnamedMail)] : List MailTraffic).foldl
      (MailTraffic.run sampleMailLib) emptyMailbox).store.recordLines =
        [serializeDistributedMailRecordLine misnamedMail] := by decide
  have htrue := h sampleMailLib [.mail sampleMailEnv (.store [9] misnamedMail)]
  rw [hlines] at htrue
  refine misnamed_not_named (htrue.named misnamedMail ?_)
  rw [storedRecords, List.filterMap_cons, parse_serialize_record]
  exact List.mem_singleton.mpr rfl

end Mail

end Cryptex
