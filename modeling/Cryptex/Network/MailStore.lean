import Cryptex.Lib.Radix
import Cryptex.Lib.Table
import Cryptex.Encoding.Address
import Cryptex.Transaction

/-!
# The mail store

The two files of the distributed mail store in `network.cpp`, the mail that is
kept for others and the receipts of those who keep it, line by line.
-/

namespace Cryptex

open Encoding

namespace Mail

/-! ## Data -/

structure DistributedMailRecord where
  version : UInt32 := 1
  storedAt : UInt64
  expiresAt : UInt64
  messageId : Bytes
  senderAddress : Bytes
  recipientAddress : Bytes
  peerLabel : Bytes
  payloadB64 : Bytes
deriving DecidableEq

structure MailStorageReceipt where
  version : UInt32 := 1
  messageId : Bytes
  recipientAddress : Bytes
  replicaLabel : Bytes
  storageHashHex : Bytes
  lastProofHashHex : Bytes := []
  storedAt : UInt64 := 0
  expiresAt : UInt64 := 0
  receiptAt : UInt64 := 0
  verifiedAt : UInt64 := 0
  lastChallengedAt : UInt64 := 0
  providerAddress : Bytes := []
  providerPubkeyB64 : Bytes := []
  providerSignatureB64 : Bytes := []
  bondedBalanceSats : UInt64 := 0
  bondSatisfied : Bool := false
  verified : Bool := false
  slashed : Bool := false
  slashedAt : UInt64 := 0
  slashReason : Bytes := []
  slashEvidenceHashHex : Bytes := []
deriving DecidableEq

/-- The message and the replica of a receipt. -/
def MailStorageReceipt.key (receipt : MailStorageReceipt) : Bytes × Bytes :=
  (receipt.messageId, receipt.replicaLabel)

/-- The fields of the replication policy that the store uses. -/
structure MailPolicy where
  maxStoreItems : UInt32 := 5000
  pruneExpired : Bool := true
  proofOfStorage : Bool := true
  challengeIntervalMinutes : UInt32 := 30
  minimumBondSats : UInt64 := 0

/-! ## Numbers -/

/-- `operator<<` of an unsigned integer. -/
def decimal (n : Nat) : Bytes :=
  if n = 0 then [48] else (Nat.digits 10 n).reverse.map fun d => UInt8.ofNat (48 + d)

def isDigit (ch : UInt8) : Bool := 48 ≤ ch && ch ≤ 57

/-- `std::stoull`; `none` is an exception. -/
def stoull (s : Bytes) : Option UInt64 :=
  let trimmed := s.dropWhile isSpace
  let negative := trimmed.head? = some 45
  let unsigned := if negative ∨ trimmed.head? = some 43 then trimmed.tail else trimmed
  let digits := unsigned.takeWhile isDigit
  let n := Radix.value 10 (digits.map fun ch => ch.toNat - 48)
  if digits = [] ∨ n ≥ 2 ^ 64 then none
  else some (if negative then 0 - UInt64.ofNat n else UInt64.ofNat n)

theorem isDigit_digit : ∀ d < 10, isDigit (UInt8.ofNat (48 + d)) = true := by decide

theorem not_special_digit : ∀ d < 10, isSpace (UInt8.ofNat (48 + d)) = false ∧
    UInt8.ofNat (48 + d) ≠ 45 ∧ UInt8.ofNat (48 + d) ≠ 43 ∧ UInt8.ofNat (48 + d) ≠ 9 ∧
      (UInt8.ofNat (48 + d)).toNat - 48 = d := by decide

/-- A number is written as digits whose value it is. -/
theorem exists_digits (n : Nat) : ∃ l : List Nat, l ≠ [] ∧ (∀ d ∈ l, d < 10) ∧
    Radix.value 10 l = n ∧ decimal n = l.map fun d => UInt8.ofNat (48 + d) := by
  by_cases h : n = 0
  · exact ⟨[0], by simp, by simp, by rw [h]; rfl, by rw [decimal, if_pos h]; rfl⟩
  · refine ⟨(Nat.digits 10 n).reverse, ?_, fun d hd => ?_, Radix.value_reverse_digits n, ?_⟩
    · rw [Ne, List.reverse_eq_nil_iff, Nat.digits_eq_nil_iff_eq_zero]
      exact h
    · exact Nat.digits_lt_base (by decide) (List.mem_reverse.mp hd)
    · rw [decimal, if_neg h]

theorem stoull_decimal (n : UInt64) : stoull (decimal n.toNat) = some n := by
  obtain ⟨l, hne, hlt, hvalue, hdecimal⟩ := exists_digits n.toNat
  obtain ⟨d, l', rfl⟩ := List.exists_cons_of_ne_nil hne
  have hd := not_special_digit d (hlt d List.mem_cons_self)
  have hhead : (decimal n.toNat).head? = some (UInt8.ofNat (48 + d)) := by
    rw [hdecimal, List.map_cons, List.head?_cons]
  have htrim : (decimal n.toNat).dropWhile isSpace = decimal n.toNat := by
    rw [hdecimal, List.map_cons, List.dropWhile_cons_of_neg (by rw [hd.1]; decide)]
  have hdigits : (decimal n.toNat).takeWhile isDigit = decimal n.toNat := by
    rw [List.takeWhile_eq_self_iff]
    intro ch hch
    rw [hdecimal] at hch
    obtain ⟨e, he, rfl⟩ := List.mem_map.mp hch
    exact isDigit_digit e (hlt e he)
  have hmap : (decimal n.toNat).map (fun ch => ch.toNat - 48) = d :: l' := by
    rw [hdecimal, List.map_map]
    conv_rhs => rw [← List.map_id (d :: l')]
    exact List.map_congr_left fun e he => (not_special_digit e (hlt e he)).2.2.2.2
  have hnil : decimal n.toNat ≠ [] := by
    intro h
    rw [h] at hhead
    cases hhead
  have hsmall : ¬ n.toNat ≥ 2 ^ 64 := Nat.not_le.mpr n.toNat_lt
  have hminus : ¬ some (UInt8.ofNat (48 + d)) = some 45 := fun h => hd.2.1 (Option.some.inj h)
  have hplus : ¬ some (UInt8.ofNat (48 + d)) = some 43 := fun h => hd.2.2.1 (Option.some.inj h)
  rw [stoull]
  simp only [htrim, hhead, hminus, hplus, or_self, if_false, hdigits, hmap, hvalue, hnil, hsmall,
    UInt64.ofNat_toNat]

theorem tab_notMem_decimal (n : Nat) : (9 : UInt8) ∉ decimal n := by
  obtain ⟨l, -, hlt, -, hdecimal⟩ := exists_digits n
  rw [hdecimal]
  intro h
  obtain ⟨d, hd, htab⟩ := List.mem_map.mp h
  exact (not_special_digit d (hlt d hd)).2.2.2.1 htab

/-! ## Lines -/

def joinFields (fields : List Bytes) : Bytes := [9].intercalate fields

/-- `split_mail_store_line`. -/
def splitMailStoreLine (line : Bytes) : List Bytes := line.splitOn 9

def encodeMailStoreField (value : Bytes) : Bytes := base64Encode value

def decodeMailStoreField (value : Bytes) : Option Bytes := base64Decode value

def boolField (b : Bool) : Bytes := if b then [49] else [48]

/-- `static_cast<uint32_t>(std::stoul(value))`. -/
def stoul32 (value : Bytes) : Option UInt32 := (stoull value).map UInt64.toUInt32

theorem tab_notMem_encode (value : Bytes) : (9 : UInt8) ∉ encodeMailStoreField value := by
  obtain ⟨digits, padding, heq, hdigits, hpadding⟩ := digitsThenPadding_base64Encode value
  rw [encodeMailStoreField, heq]
  intro h
  rcases List.mem_append.mp h with hdigit | hpad
  · obtain ⟨i, hi⟩ := hdigits 9 hdigit
    have hspace := digit_not_space (i % 64) (Nat.mod_lt i (by decide))
    rw [← encodeDigit_mod, ← hi] at hspace
    cases hspace
  · rcases hpadding with rfl | rfl | rfl
    · cases hpad
    · cases List.mem_singleton.mp hpad
    · rcases List.mem_cons.mp hpad with hfirst | hrest
      · cases hfirst
      · cases List.mem_singleton.mp hrest

theorem splitMailStoreLine_join {fields : List Bytes} (hne : fields ≠ [])
    (htab : ∀ field ∈ fields, (9 : UInt8) ∉ field) :
    splitMailStoreLine (joinFields fields) = fields :=
  List.splitOn_intercalate 9 htab hne

theorem decodeMailStoreField_encode (value : Bytes) :
    decodeMailStoreField (encodeMailStoreField value) = some value :=
  base64Decode_base64Encode value

theorem stoul32_decimal (n : UInt32) : stoul32 (decimal n.toNat) = some n := by
  have h := stoull_decimal n.toUInt64
  rw [UInt32.toNat_toUInt64] at h
  rw [stoul32, h, Option.map_some, UInt32.toUInt32_toUInt64]

/-- The fields of a receipt in its line. -/
def receiptFields (receipt : MailStorageReceipt) : List Bytes :=
  [decimal receipt.version.toNat, encodeMailStoreField receipt.messageId,
    encodeMailStoreField receipt.recipientAddress, encodeMailStoreField receipt.replicaLabel,
    encodeMailStoreField receipt.storageHashHex, encodeMailStoreField receipt.lastProofHashHex,
    decimal receipt.storedAt.toNat, decimal receipt.expiresAt.toNat,
    decimal receipt.receiptAt.toNat, decimal receipt.verifiedAt.toNat,
    decimal receipt.lastChallengedAt.toNat, encodeMailStoreField receipt.providerAddress,
    encodeMailStoreField receipt.providerPubkeyB64,
    encodeMailStoreField receipt.providerSignatureB64, decimal receipt.bondedBalanceSats.toNat,
    boolField receipt.bondSatisfied, boolField receipt.slashed, decimal receipt.slashedAt.toNat,
    encodeMailStoreField receipt.slashReason, encodeMailStoreField receipt.slashEvidenceHashHex]

/-- `serialize_mail_storage_receipt_line`. -/
def serializeMailStorageReceiptLine (receipt : MailStorageReceipt) : Bytes :=
  joinFields (receiptFields receipt)

/-- A receipt as it comes back from the file: the verified flag is not in its
line. -/
def MailStorageReceipt.reloaded (receipt : MailStorageReceipt) : MailStorageReceipt :=
  { receipt with verified := receipt.verifiedAt ≠ 0 }

/-- The fields of a receipt as they are in its line. -/
def parseReceiptFields (line : Bytes) : Option MailStorageReceipt := do
  let fields := splitMailStoreLine line
  let field (i : Nat) := fields.getD i []
  guard (fields.length = 11 ∨ fields.length = 16 ∨ fields.length = 20)
  let version ← stoul32 (field 0)
  let messageId ← decodeMailStoreField (field 1)
  let recipientAddress ← decodeMailStoreField (field 2)
  let replicaLabel ← decodeMailStoreField (field 3)
  let storageHashHex ← decodeMailStoreField (field 4)
  let lastProofHashHex ← decodeMailStoreField (field 5)
  let storedAt ← stoull (field 6)
  let expiresAt ← stoull (field 7)
  let receiptAt ← stoull (field 8)
  let verifiedAt ← stoull (field 9)
  let lastChallengedAt ← stoull (field 10)
  let provider := fields.length ≥ 16
  let slash := fields.length ≥ 20
  let providerAddress ← if provider then decodeMailStoreField (field 11) else some []
  let providerPubkeyB64 ← if provider then decodeMailStoreField (field 12) else some []
  let providerSignatureB64 ← if provider then decodeMailStoreField (field 13) else some []
  let bondedBalanceSats ← if provider then stoull (field 14) else some 0
  let slashedAt ← if slash then stoull (field 17) else some 0
  let slashReason ← if slash then decodeMailStoreField (field 18) else some []
  let slashEvidenceHashHex ← if slash then decodeMailStoreField (field 19) else some []
  some
    { version := version
      messageId := messageId
      recipientAddress := recipientAddress
      replicaLabel := replicaLabel
      storageHashHex := storageHashHex
      lastProofHashHex := lastProofHashHex
      storedAt := storedAt
      expiresAt := expiresAt
      receiptAt := receiptAt
      verifiedAt := verifiedAt
      lastChallengedAt := lastChallengedAt
      providerAddress := providerAddress
      providerPubkeyB64 := providerPubkeyB64
      providerSignatureB64 := providerSignatureB64
      bondedBalanceSats := bondedBalanceSats
      bondSatisfied := provider ∧ field 15 = [49]
      slashed := slash ∧ field 16 = [49]
      slashedAt := slashedAt
      slashReason := slashReason
      slashEvidenceHashHex := slashEvidenceHashHex }

/-- `parse_mail_storage_receipt_line`. -/
def parseMailStorageReceiptLine (line : Bytes) : Option MailStorageReceipt :=
  (parseReceiptFields line).map MailStorageReceipt.reloaded

theorem boolField_eq_one (b : Bool) : (boolField b = [49]) ↔ b = true := by
  cases b <;> decide

/-- A receipt that is written and read again. -/
theorem parse_serialize_receipt (receipt : MailStorageReceipt) :
    parseMailStorageReceiptLine (serializeMailStorageReceiptLine receipt)
      = some receipt.reloaded := by
  have hsplit : splitMailStoreLine (serializeMailStorageReceiptLine receipt)
      = receiptFields receipt := by
    refine splitMailStoreLine_join (List.cons_ne_nil _ _) fun field hfield => ?_
    simp only [receiptFields, List.mem_cons, List.not_mem_nil, or_false] at hfield
    have hbool : ∀ b, (9 : UInt8) ∉ boolField b := by decide
    rcases hfield with rfl | rfl | rfl | rfl | rfl | rfl | rfl | rfl | rfl | rfl | rfl | rfl | rfl |
      rfl | rfl | rfl | rfl | rfl | rfl | rfl <;>
      first
        | exact tab_notMem_encode _
        | exact tab_notMem_decimal _
        | exact hbool _
  rw [parseMailStorageReceiptLine, parseReceiptFields, hsplit]
  simp only [receiptFields]
  simp [stoul32_decimal, decodeMailStoreField_encode, stoull_decimal, boolField_eq_one,
    MailStorageReceipt.reloaded]

/-! ## Receipts -/

/-- `operator<` of `std::string`. -/
def textLess (a b : Bytes) : Bool := List.lex a b fun x y => decide (x < y)

theorem textLess_false_iff {a b : Bytes} : textLess a b = false ↔ b ≤ a := List.lex_eq_false_iff_ge

theorem byTime_false_iff {t t' : UInt64} {id id' : Bytes} :
    (if t' ≠ t then decide (t' < t) else textLess id' id) = false ↔ t < t' ∨ t = t' ∧ id ≤ id' := by
  split
  · rw [decide_eq_false_iff_not]
    grind
  · rw [textLess_false_iff]
    grind

/-- Sorting by a time, and by an id where two times are equal. -/
theorem pairwise_byTime {α : Type} (time : α → UInt64) (id : α → Bytes) (l : List α) :
    (l.insertionSort fun a b =>
      (if time b ≠ time a then decide (time b < time a) else textLess (id b) (id a)) = false
      ).Pairwise fun a b =>
        (if time b ≠ time a then decide (time b < time a) else textLess (id b) (id a)) = false := by
  have : Std.Total fun a b =>
      (if time b ≠ time a then decide (time b < time a) else textLess (id b) (id a)) = false := by
    refine ⟨fun a b => ?_⟩
    rw [byTime_false_iff, byTime_false_iff]
    have := List.le_total (id a) (id b)
    grind
  have : IsTrans α fun a b =>
      (if time b ≠ time a then decide (time b < time a) else textLess (id b) (id a)) = false := by
    refine ⟨fun a b c hab hbc => ?_⟩
    rw [byTime_false_iff] at hab hbc ⊢
    rcases hab with hab | ⟨hab, hid⟩ <;> rcases hbc with hbc | ⟨hbc, hid'⟩
    · exact .inl (by grind)
    · exact .inl (by grind)
    · exact .inl (by grind)
    · exact .inr ⟨hab.trans hbc, List.le_trans hid hid'⟩
  exact List.pairwise_insertionSort _ l

def receiptLess (a b : MailStorageReceipt) : Bool :=
  if a.messageId ≠ b.messageId then textLess a.messageId b.messageId
  else textLess a.replicaLabel b.replicaLabel

/-- `load_mail_storage_receipts_file`. -/
def loadMailStorageReceipts (lines : List Bytes) (messageId : Option Bytes) :
    List MailStorageReceipt :=
  ((lines.filterMap parseMailStorageReceiptLine).filter fun receipt =>
    match messageId with
    | none => true
    | some id => id = [] || receipt.messageId = id).insertionSort fun a b => receiptLess b a = false

/-- `save_mail_storage_receipts_file`. -/
def saveMailStorageReceipts (receipts : List MailStorageReceipt) : List Bytes :=
  receipts.map serializeMailStorageReceiptLine

/-- The lines of `upsert_mail_storage_receipt`. -/
def upsertReceiptLine (receipt : MailStorageReceipt) (lines : List Bytes) : List Bytes :=
  saveMailStorageReceipts
    (Table.upsert MailStorageReceipt.key receipt (loadMailStorageReceipts lines none))

theorem mem_loadMailStorageReceipts {lines : List Bytes} {messageId : Option Bytes}
    {receipt : MailStorageReceipt} :
    receipt ∈ loadMailStorageReceipts lines messageId ↔
      receipt ∈ loadMailStorageReceipts lines none ∧
        ∀ id, messageId = some id → id = [] ∨ receipt.messageId = id := by
  rw [loadMailStorageReceipts, loadMailStorageReceipts, List.mem_insertionSort,
    List.mem_insertionSort, List.mem_filter, List.mem_filter]
  cases messageId with
  | none => simp
  | some id => simp

theorem filterMap_parse_save (receipts : List MailStorageReceipt) :
    (saveMailStorageReceipts receipts).filterMap parseMailStorageReceiptLine
      = receipts.map MailStorageReceipt.reloaded := by
  rw [saveMailStorageReceipts, List.filterMap_map]
  induction receipts with
  | nil => rfl
  | cons receipt rest ih =>
      rw [List.filterMap_cons, Function.comp_apply, parse_serialize_receipt, List.map_cons, ih]

/-- What is loaded after a save. -/
theorem mem_load_save {receipts : List MailStorageReceipt} {receipt : MailStorageReceipt} :
    receipt ∈ loadMailStorageReceipts (saveMailStorageReceipts receipts) none ↔
      ∃ saved ∈ receipts, saved.reloaded = receipt := by
  rw [loadMailStorageReceipts, List.mem_insertionSort, List.mem_filter, filterMap_parse_save,
    List.mem_map]
  simp

@[simp] theorem reloaded_key (receipt : MailStorageReceipt) : receipt.reloaded.key = receipt.key :=
  rfl

/-- A loaded receipt is verified if it has a time of verification. -/
theorem verified_of_mem_load {lines : List Bytes} {receipt : MailStorageReceipt}
    (h : receipt ∈ loadMailStorageReceipts lines none) : receipt.reloaded = receipt := by
  rw [loadMailStorageReceipts, List.mem_insertionSort, List.mem_filter, List.mem_filterMap] at h
  obtain ⟨⟨line, -, hparse⟩, -⟩ := h
  obtain ⟨fields, -, hreloaded⟩ := Option.map_eq_some_iff.mp hparse
  rw [← hreloaded]
  rfl

/-- Keeping some of the receipts. -/
theorem mem_load_filter {lines : List Bytes} {p : MailStorageReceipt → Bool}
    {receipt : MailStorageReceipt} :
    receipt ∈ loadMailStorageReceipts
        (saveMailStorageReceipts ((loadMailStorageReceipts lines none).filter p)) none ↔
      receipt ∈ loadMailStorageReceipts lines none ∧ p receipt = true := by
  rw [mem_load_save]
  constructor
  · rintro ⟨saved, hsaved, hreceipt⟩
    obtain ⟨hload, hp⟩ := List.mem_filter.mp hsaved
    rw [verified_of_mem_load hload] at hreceipt
    exact hreceipt ▸ ⟨hload, hp⟩
  · rintro ⟨hload, hp⟩
    exact ⟨receipt, List.mem_filter.mpr ⟨hload, hp⟩, verified_of_mem_load hload⟩

/-- The receipts after an upsert: the new one, and those that were there. -/
theorem mem_load_upsert {receipt other : MailStorageReceipt} {lines : List Bytes}
    (h : other ∈ loadMailStorageReceipts (upsertReceiptLine receipt lines) none) :
    other = receipt.reloaded ∨ other ∈ loadMailStorageReceipts lines none := by
  obtain ⟨saved, hsaved, hother⟩ := mem_load_save.mp h
  rcases Table.mem_of_mem_upsert hsaved with hnew | hold
  · exact .inl (hnew ▸ hother.symm)
  · rw [verified_of_mem_load hold] at hother
    exact .inr (hother ▸ hold)

theorem mem_load_upsert_self (receipt : MailStorageReceipt) (lines : List Bytes) :
    receipt.reloaded ∈ loadMailStorageReceipts (upsertReceiptLine receipt lines) none :=
  mem_load_save.mpr ⟨receipt, Table.mem_upsert_self _ _ _, rfl⟩

theorem mem_load_upsert_of_ne {receipt other : MailStorageReceipt} {lines : List Bytes}
    (hne : other.key ≠ receipt.key) (h : other ∈ loadMailStorageReceipts lines none) :
    other ∈ loadMailStorageReceipts (upsertReceiptLine receipt lines) none :=
  mem_load_save.mpr ⟨other, Table.mem_upsert_of_ne hne h, verified_of_mem_load h⟩

/-- The keys that were there are still there. -/
theorem exists_key_upsert (receipt : MailStorageReceipt) {lines : List Bytes} {k : Bytes × Bytes}
    (h : ∃ other ∈ loadMailStorageReceipts lines none, other.key = k) :
    ∃ other ∈ loadMailStorageReceipts (upsertReceiptLine receipt lines) none, other.key = k := by
  obtain ⟨saved, hsaved, hkey⟩ := Table.exists_key_upsert receipt h
  exact ⟨saved.reloaded, mem_load_save.mpr ⟨saved, hsaved, rfl⟩, hkey⟩

/-- The keys of the receipts are distinct. -/
def UniqueReceipts (lines : List Bytes) : Prop :=
  ((loadMailStorageReceipts lines none).map MailStorageReceipt.key).Nodup

theorem uniqueReceipts_save {receipts : List MailStorageReceipt} :
    UniqueReceipts (saveMailStorageReceipts receipts) ↔
      (receipts.map MailStorageReceipt.key).Nodup := by
  have hperm : ((loadMailStorageReceipts (saveMailStorageReceipts receipts) none).map
      MailStorageReceipt.key).Perm (receipts.map MailStorageReceipt.key) := by
    rw [loadMailStorageReceipts, filterMap_parse_save, List.filter_true]
    refine ((List.perm_insertionSort _ _).map _).trans ?_
    rw [List.map_map]
    exact List.Perm.refl _
  exact hperm.nodup_iff

theorem UniqueReceipts.upsert {lines : List Bytes} (h : UniqueReceipts lines)
    (receipt : MailStorageReceipt) : UniqueReceipts (upsertReceiptLine receipt lines) :=
  uniqueReceipts_save.mpr (Table.nodup_key_upsert receipt h)

theorem UniqueReceipts.filter {lines : List Bytes} (h : UniqueReceipts lines)
    (p : MailStorageReceipt → Bool) : UniqueReceipts
      (saveMailStorageReceipts ((loadMailStorageReceipts lines none).filter p)) :=
  uniqueReceipts_save.mpr (List.Nodup.sublist (List.filter_sublist.map _) h)

/-- With distinct keys, a receipt that was written is the only one for its pair. -/
theorem UniqueReceipts.eq_of_upsert {lines : List Bytes} (h : UniqueReceipts lines)
    {receipt other : MailStorageReceipt}
    (hother : other ∈ loadMailStorageReceipts (upsertReceiptLine receipt lines) none)
    (hkey : other.key = receipt.key) : other = receipt.reloaded := by
  obtain ⟨saved, hsaved, rfl⟩ := mem_load_save.mp hother
  rw [Table.eq_of_mem_upsert h hsaved hkey]

/-! ## Mail -/

def recordFields (record : DistributedMailRecord) : List Bytes :=
  [decimal record.version.toNat, decimal record.storedAt.toNat, decimal record.expiresAt.toNat,
    encodeMailStoreField record.messageId, encodeMailStoreField record.senderAddress,
    encodeMailStoreField record.recipientAddress, encodeMailStoreField record.peerLabel,
    encodeMailStoreField record.payloadB64]

/-- `serialize_distributed_mail_record_line`. -/
def serializeDistributedMailRecordLine (record : DistributedMailRecord) : Bytes :=
  joinFields (recordFields record)

/-- `parse_distributed_mail_record_line`. -/
def parseDistributedMailRecordLine (line : Bytes) : Option DistributedMailRecord := do
  let fields := splitMailStoreLine line
  let field (i : Nat) := fields.getD i []
  guard (fields.length = 8)
  let version ← stoul32 (field 0)
  let storedAt ← stoull (field 1)
  let expiresAt ← stoull (field 2)
  let messageId ← decodeMailStoreField (field 3)
  let senderAddress ← decodeMailStoreField (field 4)
  let recipientAddress ← decodeMailStoreField (field 5)
  let peerLabel ← decodeMailStoreField (field 6)
  let payloadB64 ← decodeMailStoreField (field 7)
  some
    { version := version
      storedAt := storedAt
      expiresAt := expiresAt
      messageId := messageId
      senderAddress := senderAddress
      recipientAddress := recipientAddress
      peerLabel := peerLabel
      payloadB64 := payloadB64 }

theorem parse_serialize_record (record : DistributedMailRecord) :
    parseDistributedMailRecordLine (serializeDistributedMailRecordLine record) = some record := by
  have hsplit : splitMailStoreLine (serializeDistributedMailRecordLine record)
      = recordFields record := by
    refine splitMailStoreLine_join (List.cons_ne_nil _ _) fun field hfield => ?_
    simp only [recordFields, List.mem_cons, List.not_mem_nil, or_false] at hfield
    rcases hfield with rfl | rfl | rfl | rfl | rfl | rfl | rfl | rfl <;>
      first
        | exact tab_notMem_encode _
        | exact tab_notMem_decimal _
  rw [parseDistributedMailRecordLine, hsplit]
  simp only [recordFields]
  simp [stoul32_decimal, decodeMailStoreField_encode, stoull_decimal]

def recordLess (a b : DistributedMailRecord) : Bool :=
  if a.storedAt ≠ b.storedAt then a.storedAt < b.storedAt else textLess a.messageId b.messageId

/-- Whether a record is past its time. -/
def DistributedMailRecord.expired (now : UInt64) (record : DistributedMailRecord) : Bool :=
  record.expiresAt ≠ 0 && record.expiresAt < now

/-- The last `limit` of a list; zero is no limit. -/
def lastOf {α : Type} (limit : Nat) (l : List α) : List α :=
  if limit > 0 ∧ l.length > limit then l.drop (l.length - limit) else l

theorem lastOf_suffix {α : Type} (limit : Nat) (l : List α) : lastOf limit l <:+ l := by
  rw [lastOf]
  split
  · exact List.drop_suffix _ _
  · exact List.suffix_rfl

theorem lastOf_zero {α : Type} (l : List α) : lastOf 0 l = l :=
  if_neg fun h => absurd h.1 (Nat.lt_irrefl 0)

theorem lastOf_nil {α : Type} (limit : Nat) : lastOf limit ([] : List α) = [] := by
  rw [lastOf, List.drop_nil, ite_self]

/-- There are as many as the limit if one was dropped. -/
theorem length_lastOf_of_notMem {α : Type} {limit : Nat} {l : List α} {x : α} (h : x ∈ l)
    (hdropped : x ∉ lastOf limit l) : 0 < limit ∧ (lastOf limit l).length = limit := by
  rw [lastOf] at hdropped ⊢
  split at hdropped
  · next hcut =>
      rw [if_pos hcut, List.length_drop]
      omega
  · exact absurd h hdropped

theorem length_lastOf {α : Type} {limit : Nat} {l : List α} (h : 0 < limit) :
    (lastOf limit l).length ≤ limit := by
  rw [lastOf]
  split
  · rw [List.length_drop]
    omega
  · omega

section

variable (lib : Crypto)

/-- `load_distributed_mail_records_file`. -/
def loadDistributedMailRecords (lines : List Bytes) (now : UInt64) (recipient : Option Bytes)
    (limit : Nat) : List DistributedMailRecord :=
  lastOf limit
    (((lines.filterMap parseDistributedMailRecordLine).filter fun record =>
      !record.expired now &&
        match recipient with
        | none => true
        | some address => address = [] || lib.addressesEqual address record.recipientAddress
      ).insertionSort fun a b => recordLess b a = false)

variable {lib} in
/-- What is loaded for one recipient is loaded for all. -/
theorem mem_loadDistributedMailRecords {lines : List Bytes} {now : UInt64}
    {recipient : Option Bytes} {record : DistributedMailRecord}
    (h : record ∈ loadDistributedMailRecords lib lines now recipient 0) :
    record ∈ loadDistributedMailRecords lib lines now none 0 := by
  rw [loadDistributedMailRecords, lastOf_zero, List.mem_insertionSort, List.mem_filter] at h ⊢
  rw [Bool.and_eq_true] at h
  exact ⟨h.1, by rw [h.2.1]; rfl⟩

/-- `append_distributed_mail_record_file`. -/
def appendDistributedMailRecord (record : DistributedMailRecord) (now : UInt64)
    (lines : List Bytes) : List Bytes :=
  if (loadDistributedMailRecords lib lines now none 0).any (·.messageId = record.messageId) then
    lines
  else lines ++ [serializeDistributedMailRecordLine record]

/-- `save_distributed_mail_records_file`. -/
def saveDistributedMailRecords (records : List DistributedMailRecord) : List Bytes :=
  records.map serializeDistributedMailRecordLine

/-- `delete_distributed_mail_record_file`, and whether a record was there. -/
def deleteDistributedMailRecord (messageId : Bytes) (lines : List Bytes) : List Bytes × Bool :=
  let kept := lines.filter fun line =>
    match parseDistributedMailRecordLine line with
    | none => true
    | some record => record.messageId ≠ messageId
  if messageId = [] ∨ kept.length = lines.length then (lines, false) else (kept, true)

/-- `distributed_mail_record_count_file`. -/
def distributedMailRecordCount (lines : List Bytes) (now : UInt64) : Nat :=
  ((lines.filterMap parseDistributedMailRecordLine).filter fun record => !record.expired now).length

/-- `store_distributed_mail_record`. -/
def storeDistributedMailRecord (policy : MailPolicy) (record : DistributedMailRecord) (now : UInt64)
    (lines : List Bytes) : List Bytes :=
  let lines := appendDistributedMailRecord lib record now lines
  if policy.pruneExpired ∨ distributedMailRecordCount lines now > policy.maxStoreItems.toNat then
    saveDistributedMailRecords (lastOf policy.maxStoreItems.toNat
      (loadDistributedMailRecords lib lines now none 0))
  else lines

/-- Whether the store holds a message that has not expired. -/
def Stored (lines : List Bytes) (now : UInt64) (messageId : Bytes) : Prop :=
  ∃ record ∈ loadDistributedMailRecords lib lines now none 0, record.messageId = messageId

end

/-! ## What is stored -/

variable {lib : Crypto}

/-- A loaded record has a line. -/
theorem exists_line_of_mem_load {lines : List Bytes} {now : UInt64} {record : DistributedMailRecord}
    (h : record ∈ loadDistributedMailRecords lib lines now none 0) :
    ∃ line ∈ lines, parseDistributedMailRecordLine line = some record := by
  rw [loadDistributedMailRecords, lastOf_zero, List.mem_insertionSort, List.mem_filter, List.mem_filterMap] at h
  exact h.1

/-- A record that has a line and has not expired is loaded. -/
theorem mem_load_of_line {lines : List Bytes} {now : UInt64} {record : DistributedMailRecord}
    (hline : serializeDistributedMailRecordLine record ∈ lines)
    (hfresh : record.expired now = false) :
    record ∈ loadDistributedMailRecords lib lines now none 0 := by
  rw [loadDistributedMailRecords, lastOf_zero, List.mem_insertionSort, List.mem_filter, List.mem_filterMap]
  exact ⟨⟨_, hline, parse_serialize_record record⟩, by rw [hfresh]; rfl⟩

theorem parse_saved (records : List DistributedMailRecord) :
    (saveDistributedMailRecords records).filterMap parseDistributedMailRecordLine = records := by
  rw [saveDistributedMailRecords, List.filterMap_map]
  have hparse : records.filterMap
      (parseDistributedMailRecordLine ∘ serializeDistributedMailRecordLine) =
      records.filterMap some :=
    List.filterMap_congr fun record _ => parse_serialize_record record
  rw [hparse, List.filterMap_some]

/-- What is loaded after a save was saved. -/
theorem mem_of_mem_load_save {records : List DistributedMailRecord} {now : UInt64}
    {record : DistributedMailRecord}
    (h : record ∈ loadDistributedMailRecords lib (saveDistributedMailRecords records) now none 0) :
    record ∈ records := by
  obtain ⟨line, hline, hparse⟩ := exists_line_of_mem_load h
  obtain ⟨saved, hsaved, rfl⟩ := List.mem_map.mp hline
  rw [parse_serialize_record] at hparse
  exact Option.some.inj hparse ▸ hsaved

/-- A message that is stored after a deletion is not the deleted one. -/
theorem stored_ne_deleted {lines : List Bytes} {now : UInt64} {messageId m : Bytes}
    (hdeleted : (deleteDistributedMailRecord messageId lines).2 = true)
    (h : Stored lib (deleteDistributedMailRecord messageId lines).1 now m) : m ≠ messageId := by
  rw [deleteDistributedMailRecord] at hdeleted h
  split at hdeleted
  · cases hdeleted
  · next hfound =>
      rw [if_neg hfound] at h
      obtain ⟨record, hrecord, hm⟩ := h
      obtain ⟨line, hline, hparse⟩ := exists_line_of_mem_load hrecord
      have hkept := (List.mem_filter.mp hline).2
      rw [hparse] at hkept
      rw [← hm]
      exact of_decide_eq_true hkept

end Mail

end Cryptex
