import Cryptex.Network.MailStore

/-!
# Chat and mail history

The history files of `chat_history.cpp`, one line of fields for each entry. A
line that cannot be read is skipped.
-/

namespace Cryptex

open Encoding Mail

namespace Chat

structure HistoryEntry where
  version : UInt32 := 1
  direction : Bytes := []
  legacy : Bool := false
  authenticated : Bool := false
  encrypted : Bool := false
  decrypted : Bool := false
  isPrivate : Bool := false
  timestamp : UInt64 := 0
  nonce : UInt64 := 0
  messageId : Bytes := []
  senderAddress : Bytes := []
  senderPubkey : Bytes := []
  recipientAddress : Bytes := []
  recipientPubkey : Bytes := []
  channel : Bytes := []
  subject : Bytes := []
  mailTo : Bytes := []
  mailCc : Bytes := []
  mailBcc : Bytes := []
  message : Bytes := []
  peerLabel : Bytes := []
  status : Bytes := []
  contentType : Bytes := []
  mimeType : Bytes := []
  attachmentName : Bytes := []
  attachmentPath : Bytes := []
  attachmentSize : UInt64 := 0
  audioPrivacy : Bytes := []
  encryptionMode : Bytes := []
  transcript : Bytes := []
deriving DecidableEq

structure HistoryQuery where
  limit : Nat := 50
  sinceTimestamp : Option UInt64 := none
  channel : Option Bytes := none
  address : Option Bytes := none
  direction : Option Bytes := none
  privateOnly : Option Bool := none

/-! ## Lines -/

/-- The fields of an entry in its line. -/
def entryFields (entry : HistoryEntry) : List Bytes :=
  [decimal entry.version.toNat, entry.direction, boolField entry.isPrivate, boolField entry.legacy,
    boolField entry.authenticated, boolField entry.encrypted, boolField entry.decrypted,
    decimal entry.timestamp.toNat, decimal entry.nonce.toNat, entry.messageId,
    base64Encode entry.senderAddress, base64Encode entry.senderPubkey,
    base64Encode entry.recipientAddress, base64Encode entry.recipientPubkey,
    base64Encode entry.channel, base64Encode entry.subject, base64Encode entry.mailTo,
    base64Encode entry.mailCc, base64Encode entry.mailBcc, base64Encode entry.message,
    base64Encode entry.peerLabel, base64Encode entry.status, base64Encode entry.contentType,
    base64Encode entry.mimeType, base64Encode entry.attachmentName,
    base64Encode entry.attachmentPath, decimal entry.attachmentSize.toNat,
    base64Encode entry.audioPrivacy, base64Encode entry.encryptionMode,
    base64Encode entry.transcript]

def serializeHistoryEntry (entry : HistoryEntry) : Bytes := joinFields (entryFields entry)

/-- What a line has after the channel depends on the number of its fields. -/
def parseHistoryEntry (line : Bytes) : Option HistoryEntry := do
  let fields := line.splitOn 9
  let field (i : Nat) := fields.getD i []
  let decoded (present : Bool) (i : Nat) : Option Bytes :=
    if present then base64Decode (field i) else some []
  guard (fields.length ∈ [18, 25, 26, 27, 30])
  let version ← stoul32 (field 0)
  let timestamp ← stoull (field 7)
  let nonce ← stoull (field 8)
  let senderAddress ← base64Decode (field 10)
  let senderPubkey ← base64Decode (field 11)
  let recipientAddress ← base64Decode (field 12)
  let recipientPubkey ← base64Decode (field 13)
  let channel ← base64Decode (field 14)
  let mail := decide (fields.length ≥ 30)
  let subject ← decoded (fields.length ≥ 27) 15
  let mailTo ← decoded mail 16
  let mailCc ← decoded mail 17
  let mailBcc ← decoded mail 18
  let text := if fields.length ≥ 30 then 19 else if fields.length ≥ 27 then 16 else 15
  let message ← base64Decode (field text)
  let peerLabel ← base64Decode (field (text + 1))
  let status ← base64Decode (field (text + 2))
  let offset := if fields.length ≥ 30 then 4 else if fields.length ≥ 27 then 1 else 0
  let content := decide (fields.length ≥ 25)
  let contentType ← decoded content (18 + offset)
  let mimeType ← decoded content (19 + offset)
  let attachmentName ← decoded content (20 + offset)
  let attachmentPath ← decoded content (21 + offset)
  let attachmentSize ← if content then stoull (field (22 + offset)) else some 0
  let audioPrivacy ← decoded content (23 + offset)
  let encryptionMode ← decoded content (24 + offset)
  let transcript ← decoded (content && fields.length ≥ 26 + offset) (25 + offset)
  some
    { version := version
      direction := field 1
      legacy := field 3 = [49]
      authenticated := field 4 = [49]
      encrypted := field 5 = [49]
      decrypted := field 6 = [49]
      isPrivate := field 2 = [49]
      timestamp := timestamp
      nonce := nonce
      messageId := field 9
      senderAddress := senderAddress
      senderPubkey := senderPubkey
      recipientAddress := recipientAddress
      recipientPubkey := recipientPubkey
      channel := channel
      subject := subject
      mailTo := mailTo
      mailCc := mailCc
      mailBcc := mailBcc
      message := message
      peerLabel := peerLabel
      status := status
      contentType := contentType
      mimeType := mimeType
      attachmentName := attachmentName
      attachmentPath := attachmentPath
      attachmentSize := attachmentSize
      audioPrivacy := audioPrivacy
      encryptionMode := encryptionMode
      transcript := transcript }

/-- An entry whose direction and id have no tab is split into its fields. -/
theorem split_serializeHistoryEntry {entry : HistoryEntry}
    (hdirection : (9 : UInt8) ∉ entry.direction) (hid : (9 : UInt8) ∉ entry.messageId) :
    (serializeHistoryEntry entry).splitOn 9 = entryFields entry := by
  refine splitMailStoreLine_join (List.cons_ne_nil _ _) fun field hfield => ?_
  have hbool : ∀ b, (9 : UInt8) ∉ boolField b := by decide
  simp only [entryFields, List.mem_cons, List.not_mem_nil, or_false] at hfield
  rcases hfield with rfl | rfl | rfl | rfl | rfl | rfl | rfl | rfl | rfl | rfl | rfl | rfl | rfl |
    rfl | rfl | rfl | rfl | rfl | rfl | rfl | rfl | rfl | rfl | rfl | rfl | rfl | rfl | rfl | rfl |
    rfl <;>
    first
      | exact hdirection
      | exact hid
      | exact tab_notMem_encode _
      | exact tab_notMem_decimal _
      | exact hbool _

/-- Such an entry is read as it was written. -/
theorem parse_serialize_entry {entry : HistoryEntry} (hdirection : (9 : UInt8) ∉ entry.direction)
    (hid : (9 : UInt8) ∉ entry.messageId) :
    parseHistoryEntry (serializeHistoryEntry entry) = some entry := by
  rw [parseHistoryEntry, split_serializeHistoryEntry hdirection hid]
  simp only [entryFields]
  simp [stoul32_decimal, base64Decode_base64Encode, stoull_decimal, boolField_eq_one]

/-! ## The file -/

def appendHistoryEntry (entry : HistoryEntry) (lines : List Bytes) : List Bytes :=
  lines ++ [serializeHistoryEntry entry]

section

variable (lib : Crypto)

def addressMatches (filter candidate : Bytes) : Bool :=
  if filter = [] then true
  else if candidate = [] then false
  else lib.addressesEqual filter candidate || filter = candidate

def matchesQuery (entry : HistoryEntry) (query : HistoryQuery) : Bool :=
  query.sinceTimestamp.all (fun since => !(entry.timestamp < since)) &&
    query.channel.all (fun channel => entry.channel = channel) &&
    query.direction.all (fun direction => entry.direction = direction) &&
    query.privateOnly.all (fun only => entry.isPrivate = only) &&
    query.address.all fun address =>
      addressMatches lib address entry.senderAddress ||
        addressMatches lib address entry.recipientAddress

def entryLess (a b : HistoryEntry) : Bool :=
  if a.timestamp ≠ b.timestamp then a.timestamp < b.timestamp else textLess a.messageId b.messageId

/-- `load_history`. -/
def loadHistory (lines : List Bytes) (query : HistoryQuery) : List HistoryEntry :=
  lastOf query.limit
    (((lines.filterMap parseHistoryEntry).filter (matchesQuery lib · query)).insertionSort
      fun a b => entryLess b a = false)

variable {lib}

/-- Without a limit, the entries that match the query are loaded. -/
theorem mem_loadHistory {lines : List Bytes} {query : HistoryQuery} {entry : HistoryEntry} :
    entry ∈ loadHistory lib lines { query with limit := 0 } ↔
      entry ∈ lines.filterMap parseHistoryEntry ∧ matchesQuery lib entry query = true := by
  rw [loadHistory, lastOf_zero, List.mem_insertionSort,
    List.mem_filter]
  rfl

end

end Chat

end Cryptex
