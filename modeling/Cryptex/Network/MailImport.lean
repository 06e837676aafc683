import Cryptex.Network.ChatHistory
import Cryptex.Network.MailReceipts
import Cryptex.Network.VoiceWire

/-!
# Importing mail

`getp2pmail` copies mail from the distributed store into the history. It skips
a record whose id is that of an entry which the query shows, or of one that the
call has imported. The entry has the id of the payload that the record carries,
which a peer need not have named the record by, and the query may hide entries.
-/

namespace Cryptex

open Codec Encoding Chat Mail

namespace Chat

/-- `ChatPayload::deserialize`. -/
def ChatPayload.deserialize : Bytes → Option ChatPayload
  | [] => none
  | first :: data =>
      if first ≤ 1 then do
        let (channel, data) ← Voice.readString data
        let (recipient, data) ← Voice.readString data
        let (body, _) ← Voice.readString data
        some ⟨1, first, 0, 0, 0, 0, 0, [], [], channel, recipient, [], [], body, [], [], []⟩
      else do
        let (chatType, data) ← Voice.readU8 data
        let (flags, data) ← Voice.readU8 data
        let (kdfProfile, data) ← if first ≥ 3 then Voice.readU8 data else some (0, data)
        let (cipherProfile, data) ← if first ≥ 4 then Voice.readU8 data else some (0, data)
        let (timestamp, data) ← Voice.readU64 data
        let (nonce, data) ← Voice.readU64 data
        let (sender, data) ← Voice.readString data
        let (senderPubkey, data) ← Voice.readString data
        let (channel, data) ← Voice.readString data
        let (recipient, data) ← Voice.readString data
        let (recipientPubkey, data) ← Voice.readString data
        let (wrappedKey, data) ← Voice.readString data
        let (body, data) ← Voice.readString data
        let (iv, data) ← Voice.readString data
        let (authTag, data) ← Voice.readString data
        let (signature, _) ← Voice.readString data
        some ⟨first, chatType, flags, kdfProfile, cipherProfile, timestamp, nonce, sender,
          senderPubkey, channel, recipient, recipientPubkey, wrappedKey, body, iv, authTag, signature⟩

def encryptionModeName : EncryptionMode → Bytes
  | .ecdh => chars "ecdh"
  | .rsa => chars "rsa"

end Chat

namespace Mail

/-! ## The entry of a record -/

/-- What an entry takes from the content of a message. -/
structure ContentDetails where
  subject : Bytes
  mailTo : Bytes
  mailCc : Bytes
  message : Bytes
  contentType : Bytes
  mimeType : Bytes
  attachmentName : Bytes
  attachmentPath : Bytes
  attachmentSize : UInt64
  audioPrivacy : Bytes
  transcript : Bytes

/-- What an import reads beside the store: the clock, the policy of the mail,
the wallet of the session, and the details of a content, `none` where its
attachment cannot be kept. -/
structure ImportEnv where
  now : UInt64
  proofOfStorage : Bool
  requiredVerifiedReplicas : UInt32
  pruneImported : Bool
  wallet : ChatWallet
  details : ParsedMessage → Option ContentDetails

section

variable (lib : MailLib)

def walletOwnsAddress (wallet : ChatWallet) (address : Bytes) : Bool :=
  wallet.addresses.any (lib.addressesEqual · address)

/-- `distributed_mail_record_to_entry`. -/
def distributedMailRecordToEntry (env : ImportEnv) (record : DistributedMailRecord) :
    Option HistoryEntry := do
  let data ← base64Decode record.payloadB64
  let payload ← ChatPayload.deserialize data
  guard (payload.chatType = chatTypeMail)
  guard (record.recipientAddress = [] ∨ walletOwnsAddress lib env.wallet record.recipientAddress)
  let parsed ← parseChatPayload lib.toChatLib (some env.wallet) env.now.toInt64.toInt payload
  let details ← env.details parsed
  some
    { direction := chars "in"
      legacy := parsed.legacy
      authenticated := parsed.authenticated
      encrypted := parsed.encrypted
      decrypted := parsed.decrypted
      isPrivate := true
      timestamp := parsed.timestamp
      nonce := parsed.nonce
      messageId := parsed.messageId
      senderAddress :=
        if parsed.senderAddress = [] then record.senderAddress else parsed.senderAddress
      senderPubkey := base64Encode payload.senderPubkey
      recipientAddress :=
        if parsed.recipientAddress = [] then record.recipientAddress else parsed.recipientAddress
      recipientPubkey := base64Encode payload.recipientPubkey
      channel := parsed.channel
      subject := details.subject
      mailTo := details.mailTo
      mailCc := details.mailCc
      message := details.message
      peerLabel := if record.peerLabel = [] then chars "distributed-store" else record.peerLabel
      status :=
        if parsed.decrypted then chars "synced-from-distributed-store"
        else chars "received-opaque-store"
      contentType := details.contentType
      mimeType := details.mimeType
      attachmentName := details.attachmentName
      attachmentPath := details.attachmentPath
      attachmentSize := details.attachmentSize
      audioPrivacy := details.audioPrivacy
      encryptionMode := encryptionModeName parsed.encryptionMode
      transcript := details.transcript }

/-! ## The call -/

/-- The store of the node and its history of mail. -/
structure Mailbox where
  store : MailNode
  history : List Bytes

/-- A receipt that counts for the import. -/
def trustedReceipt (receipt : MailStorageReceipt) : Bool :=
  receipt.verified && receipt.bondSatisfied && receipt.providerSignatureB64 ≠ [] &&
    !receipt.slashed

/-- The record has no receipts, or enough of them count. -/
def enoughReplicas (env : ImportEnv) (store : MailNode) (record : DistributedMailRecord) : Bool :=
  let receipts := store.mailStorageReceipts (some record.messageId)
  !env.proofOfStorage || receipts = [] ||
    receipts.countP trustedReceipt ≥ (max env.requiredVerifiedReplicas 1).toNat

/-- The entry that is imported for a record, unless its id was seen. -/
def importable (env : ImportEnv) (store : MailNode) (seen : List Bytes)
    (record : DistributedMailRecord) : Option HistoryEntry :=
  if record.messageId ∈ seen then none
  else if enoughReplicas env store record then distributedMailRecordToEntry lib env record
  else none

/-- The loop of `getp2pmail` over the records that are left. -/
def importLoop (env : ImportEnv) : List DistributedMailRecord → List Bytes → Mailbox → Mailbox
  | [], _, box => box
  | record :: records, seen, box =>
      match importable lib env box.store seen record with
      | none => importLoop env records seen box
      | some entry =>
          importLoop env records (entry.messageId :: seen)
            { store :=
                if env.pruneImported then deleteDistributedMail record.messageId box.store
                else box.store
              history := appendHistoryEntry entry box.history }

/-- The ids of the entries that a query shows. -/
def seenIds (history : List Bytes) (query : HistoryQuery) : List Bytes :=
  (loadHistory lib.toCrypto history { query with limit := 0 }).map HistoryEntry.messageId

/-- `getp2pmail`: the records that the lookups return are stored before the
import, and the entries that match the query are returned. Without a wallet
session, or for sent mail, nothing is imported. -/
def getp2pmail (policy : MailPolicy) (env : Option ImportEnv) (query : HistoryQuery)
    (found : List DistributedMailRecord) (box : Mailbox) : Mailbox × List HistoryEntry :=
  let box :=
    match env with
    | none => box
    | some env =>
        if query.direction = some (chars "out") then box
        else
          let lines := found.foldl (fun lines record =>
            storeDistributedMailRecord lib.toCrypto policy record env.now lines)
            box.store.recordLines
          importLoop lib env (loadDistributedMailRecords lib.toCrypto lines env.now none 1000)
            (seenIds lib box.history query) { box with store.recordLines := lines }
  (box, loadHistory lib.toCrypto box.history query)

end

/-! ## Inbound ids -/

/-- The ids of the inbound entries for which `p` holds. -/
def inboundIds (p : HistoryEntry → Bool) (history : List Bytes) : List Bytes :=
  ((history.filterMap parseHistoryEntry).filter fun entry =>
    entry.direction = chars "in" && p entry).map HistoryEntry.messageId

/-- No two inbound entries of the history have one id. -/
def UniqueMail (history : List Bytes) : Prop := (inboundIds (fun _ => true) history).Nodup

section

variable (lib : MailLib)

/-- A record that is imported has no id of an inbound entry that the query
hides, and if it is named by another id than that of its payload, none of one
that is shown or was imported before. -/
def SafeImports (env : ImportEnv) (hidden : List Bytes) :
    List DistributedMailRecord → List Bytes → List Bytes → MailNode → Prop
  | [], _, _, _ => True
  | record :: records, seen, taken, store =>
      match importable lib env store seen record with
      | none => SafeImports env hidden records seen taken store
      | some entry =>
          entry.messageId ∉ hidden ∧
            (entry.messageId ≠ record.messageId → entry.messageId ∉ taken) ∧
            SafeImports env hidden records (entry.messageId :: seen) (entry.messageId :: taken)
              (if env.pruneImported then deleteDistributedMail record.messageId store else store)

/-- A call of `getp2pmail`, and what the store holds when it is made. -/
structure MailCall where
  policy : MailPolicy
  env : Option ImportEnv
  query : HistoryQuery
  found : List DistributedMailRecord
  store : MailNode

/-- The history after the call. -/
def MailCall.run (call : MailCall) (history : List Bytes) : List Bytes :=
  (getp2pmail lib call.policy call.env call.query call.found ⟨call.store, history⟩).1.history

/-- The lines of the store after the lookups. -/
def MailCall.lines (call : MailCall) (env : ImportEnv) : List Bytes :=
  call.found.foldl (fun lines record =>
    storeDistributedMailRecord lib.toCrypto call.policy record env.now lines) call.store.recordLines

/-- What the call imports is safe. -/
def MailCall.Safe (call : MailCall) (history : List Bytes) : Prop :=
  ∀ env, call.env = some env → call.query.direction ≠ some (chars "out") →
    SafeImports lib env (inboundIds (fun entry => !matchesQuery lib.toCrypto entry call.query) history)
      (loadDistributedMailRecords lib.toCrypto (call.lines lib env) env.now none 1000)
      (seenIds lib history call.query)
      (inboundIds (fun entry => matchesQuery lib.toCrypto entry call.query) history)
      { call.store with recordLines := call.lines lib env }

/-- The history is right before and after every call. -/
def UniqueRun : List Bytes → List MailCall → Prop
  | history, [] => UniqueMail history
  | history, call :: calls => UniqueMail history ∧ UniqueRun (call.run lib history) calls

def SafeCalls : List Bytes → List MailCall → Prop
  | _, [] => True
  | history, call :: calls => call.Safe lib history ∧ SafeCalls (call.run lib history) calls

end

variable {lib : MailLib} {env : ImportEnv}

/-! ## What an import adds -/

theorem tab_notMem_hexEncode (data : Bytes) : (9 : UInt8) ∉ hexEncode data := fun h =>
  absurd (hexEncode_not_space data 9 h) (by decide)

/-- The entry of a record is inbound and has the id of its payload. -/
theorem entry_fields {record : DistributedMailRecord} {entry : HistoryEntry}
    (h : distributedMailRecordToEntry lib env record = some entry) :
    entry.direction = chars "in" ∧ ∃ payload, entry.messageId = messageId lib.toChatLib payload := by
  simp only [distributedMailRecordToEntry, Option.bind_eq_bind, Option.bind_eq_some_iff] at h
  obtain ⟨data, -, payload, -, -, -, -, -, parsed, hparsed, details, -, hentry⟩ := h
  cases hentry
  exact ⟨rfl, payload, (parseChatPayload_fields hparsed).1⟩

theorem importable_fields {store : MailNode} {seen : List Bytes} {record : DistributedMailRecord}
    {entry : HistoryEntry} (h : importable lib env store seen record = some entry) :
    record.messageId ∉ seen ∧ entry.direction = chars "in" ∧ (9 : UInt8) ∉ entry.messageId := by
  rw [importable] at h
  split at h
  · cases h
  · next hseen =>
      split at h
      · obtain ⟨hdirection, payload, hid⟩ := entry_fields h
        refine ⟨hseen, hdirection, ?_⟩
        rw [hid]
        exact tab_notMem_hexEncode _
      · cases h

theorem inboundIds_append (p : HistoryEntry → Bool) {entry : HistoryEntry} (history : List Bytes)
    (hdirection : entry.direction = chars "in") (hid : (9 : UInt8) ∉ entry.messageId)
    (hp : p entry = true) :
    inboundIds p (appendHistoryEntry entry history) = inboundIds p history ++ [entry.messageId] := by
  have htab : (9 : UInt8) ∉ entry.direction := by
    rw [hdirection]
    decide
  rw [inboundIds, appendHistoryEntry, List.filterMap_append, List.filter_append, List.map_append]
  simp [parse_serialize_entry htab hid, hdirection, hp, inboundIds]

/-- The history only grows. -/
theorem importLoop_keeps : ∀ (records : List DistributedMailRecord) (seen : List Bytes)
    (box : Mailbox), inboundIds (fun _ => true) box.history
      <+: inboundIds (fun _ => true) (importLoop lib env records seen box).history
  | [], _, _ => List.prefix_rfl
  | record :: records, seen, box => by
      rw [importLoop]
      cases h : importable lib env box.store seen record with
      | none => exact importLoop_keeps records seen box
      | some entry =>
          obtain ⟨-, hdirection, hid⟩ := importable_fields h
          refine List.IsPrefix.trans ?_ (importLoop_keeps records _ _)
          rw [inboundIds_append _ _ hdirection hid rfl]
          exact List.prefix_append _ _

variable (lib env) in
theorem importLoop_unique_iff {hidden : List Bytes} : ∀ (records : List DistributedMailRecord)
    (seen taken : List Bytes) (box : Mailbox), UniqueMail box.history →
      (∀ id, id ∈ inboundIds (fun _ => true) box.history ↔ id ∈ hidden ∨ id ∈ taken) →
      taken ⊆ seen →
      (UniqueMail (importLoop lib env records seen box).history ↔
        SafeImports lib env hidden records seen taken box.store)
  | [], _, _, _, hunique, _, _ => iff_of_true hunique trivial
  | record :: records, seen, taken, box, hunique, hids, hsub => by
      rw [importLoop, SafeImports]
      cases h : importable lib env box.store seen record with
      | none => exact importLoop_unique_iff records seen taken box hunique hids hsub
      | some entry =>
          obtain ⟨hrecord, hdirection, hid⟩ := importable_fields h
          dsimp only
          -- the id of the record was not seen, so an honest one is not taken
          have hfresh : (entry.messageId ∉ hidden ∧
              (entry.messageId ≠ record.messageId → entry.messageId ∉ taken)) ↔
              entry.messageId ∉ inboundIds (fun _ => true) box.history := by
            rw [hids, not_or]
            refine and_congr_right fun _ => ⟨fun hforged htaken => ?_, fun hnot _ => hnot⟩
            by_cases hsame : entry.messageId = record.messageId
            · exact hrecord (hsame ▸ hsub htaken)
            · exact hforged hsame htaken
          have happend := inboundIds_append (fun _ => true) box.history hdirection hid rfl
          have hstep : UniqueMail (appendHistoryEntry entry box.history) ↔
              entry.messageId ∉ inboundIds (fun _ => true) box.history := by
            rw [UniqueMail, happend, List.nodup_append_comm, List.singleton_append, List.nodup_cons]
            exact and_iff_left hunique
          have hids' : ∀ id,
              id ∈ inboundIds (fun _ => true) (appendHistoryEntry entry box.history) ↔
                id ∈ hidden ∨ id ∈ entry.messageId :: taken := by
            intro id
            rw [happend, List.mem_append, hids, List.mem_singleton, List.mem_cons, or_assoc,
              or_comm (a := id ∈ taken)]
          have hsub' := List.cons_subset_cons entry.messageId hsub
          rw [← and_assoc, hfresh, ← hstep]
          constructor
          · intro hafter
            have hnow := hafter.sublist (importLoop_keeps records _ _).sublist
            exact ⟨hnow, (importLoop_unique_iff records _ _ _ hnow hids' hsub').mp hafter⟩
          · rintro ⟨hnow, hrest⟩
            exact (importLoop_unique_iff records _ _ _ hnow hids' hsub').mpr hrest

/-! ## What a run of calls keeps -/

variable (lib) in
/-- An inbound entry is hidden by the query or shown. -/
theorem mem_inboundIds_iff (query : HistoryQuery) (history : List Bytes) (id : Bytes) :
    id ∈ inboundIds (fun _ => true) history ↔
      id ∈ inboundIds (fun entry => !matchesQuery lib.toCrypto entry query) history ∨
        id ∈ inboundIds (fun entry => matchesQuery lib.toCrypto entry query) history := by
  simp only [inboundIds, List.mem_map, List.mem_filter, Bool.and_eq_true, Bool.not_eq_true']
  constructor
  · rintro ⟨entry, ⟨hmem, hin, -⟩, rfl⟩
    cases hmatch : matchesQuery lib.toCrypto entry query with
    | false => exact Or.inl ⟨entry, ⟨hmem, hin, hmatch⟩, rfl⟩
    | true => exact Or.inr ⟨entry, ⟨hmem, hin, hmatch⟩, rfl⟩
  · rintro (⟨entry, ⟨hmem, hin, -⟩, rfl⟩ | ⟨entry, ⟨hmem, hin, -⟩, rfl⟩)
    · exact ⟨entry, ⟨hmem, hin, trivial⟩, rfl⟩
    · exact ⟨entry, ⟨hmem, hin, trivial⟩, rfl⟩

variable (lib) in
/-- What is shown is seen. -/
theorem shown_subset_seen (query : HistoryQuery) (history : List Bytes) :
    inboundIds (fun entry => matchesQuery lib.toCrypto entry query) history
      ⊆ seenIds lib history query := by
  intro id hid
  obtain ⟨entry, hentry, rfl⟩ := List.mem_map.mp hid
  obtain ⟨hmem, hboth⟩ := List.mem_filter.mp hentry
  exact List.mem_map_of_mem (mem_loadHistory.mpr ⟨hmem, ((Bool.and_eq_true _ _).mp hboth).2⟩)

theorem call_unique_iff (call : MailCall) {history : List Bytes} (h : UniqueMail history) :
    UniqueMail (call.run lib history) ↔ call.Safe lib history := by
  simp only [MailCall.run, getp2pmail, MailCall.Safe]
  cases call.env with
  | none => exact iff_of_true h nofun
  | some env =>
      dsimp only
      split
      · next hout => exact iff_of_true h fun _ _ hnot => absurd hout hnot
      · next hin =>
          have hloop := importLoop_unique_iff lib env
            (loadDistributedMailRecords lib.toCrypto (call.lines lib env) env.now none 1000)
            (seenIds lib history call.query) _
            ⟨{ call.store with recordLines := call.lines lib env }, history⟩ h
            (mem_inboundIds_iff lib call.query history)
            (shown_subset_seen lib call.query history)
          refine hloop.trans ⟨fun hsafe env' henv _ => ?_, fun hsafe => hsafe env rfl hin⟩
          cases henv
          exact hsafe

theorem uniqueRun_iff_from : ∀ (calls : List MailCall) {history : List Bytes}, UniqueMail history →
    (UniqueRun lib history calls ↔ SafeCalls lib history calls)
  | [], _, h => iff_of_true h trivial
  | call :: calls, history, h => by
      rw [UniqueRun, SafeCalls, ← call_unique_iff call h, and_iff_right h]
      constructor
      · intro hrun
        have hafter : UniqueMail (call.run lib history) := by
          cases calls with
          | nil => exact hrun
          | cons next rest => exact hrun.1
        exact ⟨hafter, (uniqueRun_iff_from calls hafter).mp hrun⟩
      · rintro ⟨hafter, hrun⟩
        exact (uniqueRun_iff_from calls hafter).mpr hrun

/-- Over any run of calls no two inbound entries of the history have one id,
exactly if none had at first and every call is a safe one. -/
theorem mail_unique_iff (lib : MailLib) (history : List Bytes) (calls : List MailCall) :
    UniqueRun lib history calls ↔ UniqueMail history ∧ SafeCalls lib history calls := by
  constructor
  · intro hrun
    have h : UniqueMail history := by
      cases calls with
      | nil => exact hrun
      | cons call rest => exact hrun.1
    exact ⟨h, (uniqueRun_iff_from calls h).mp hrun⟩
  · rintro ⟨h, hsafe⟩
    exact (uniqueRun_iff_from calls h).mpr hsafe

/-- A mail for the address `[7]`. -/
def mailPayload : ChatPayload where
  version := 4
  chatType := chatTypeMail
  flags := 3
  kdfProfile := 0
  cipherProfile := 0
  timestamp := 100
  nonce := 1
  sender := [5]
  senderPubkey := [5]
  channel := []
  recipient := [7]
  recipientPubkey := [7]
  wrappedKey := []
  body := [1]
  iv := [2]
  authTag := [3]
  signature := [4]

def storedMail : DistributedMailRecord where
  storedAt := 100
  expiresAt := 0
  messageId := messageId sampleMailLib.toChatLib mailPayload
  senderAddress := [5]
  recipientAddress := [7]
  peerLabel := []
  payloadB64 := base64Encode mailPayload.serialize

def readerWallet : ChatWallet where
  address := [7]
  privkey := []
  addresses := [[7]]
  privkeys := [[8]]
  pubkeys := [[6]]
  chatRsaPrivateKeyPem := []
  chatRsaPublicKeyPem := []

/-- The wallet decrypts what it is sent. -/
def openMailLib : MailLib :=
  { sampleMailLib with
    sharedSecret := fun _ _ => some [1]
    deriveChatKey := fun _ _ => some [1]
    aesGcmDecrypt := fun _ _ _ _ _ => some [1]
    deserializeContent := fun _ => some emptyContent }

def readerEnv : ImportEnv where
  now := 100
  proofOfStorage := true
  requiredVerifiedReplicas := 1
  pruneImported := false
  wallet := readerWallet
  details _ := some ⟨[], [], [], [1], [], [], [], [], 0, [], []⟩

/-- The reader asks for its mail. -/
def readMail (query : HistoryQuery) : MailCall where
  policy := {}
  env := some readerEnv
  query := query
  found := []
  store := ⟨[serializeDistributedMailRecordLine storedMail], [], ∅⟩

/-- The second call hides what the first one imported. -/
theorem not_mail_unique : ¬ ∀ (lib : MailLib) (history : List Bytes) (calls : List MailCall),
    UniqueMail history → UniqueRun lib history calls := by
  intro h
  obtain ⟨-, -, hafter⟩ := h openMailLib [] [readMail {}, readMail { channel := some [9] }]
    List.nodup_nil
  have htwice : ¬ UniqueMail ((readMail { channel := some [9] }).run openMailLib
      ((readMail {}).run openMailLib [])) := by
    rw [UniqueMail]
    decide +kernel
  exact htwice hafter

end Mail

end Cryptex
