import Cryptex.Lib.Runs
import Cryptex.Network.MailPayloads

/-!
# Looking mail up

`dht_lookup_mail` joins the mail that is kept here with what peers answer. It
sorts the records by time and then drops those whose neighbour has the same id,
so two copies of a message become one only if no other message was stored
between them.
-/

namespace Cryptex

open Encoding Runs

namespace Mail

/-! ## The lookup -/

/-- A `DHT_MAIL_RESULTS` message. -/
structure MailReply where
  peerLabel : Bytes
  payload : Wire.DhtMailResultsPayload

/-- A record of a reply is kept unless its message has one. -/
def addResult (peerLabel : Bytes) (rows : List DistributedMailRecord)
    (record : DistributedMailRecord) : List DistributedMailRecord :=
  let record := if record.peerLabel = [] then { record with peerLabel := peerLabel } else record
  if rows.any (·.messageId = record.messageId) then rows else rows ++ [record]

/-- The handler of `DHT_MAIL_RESULTS`, for the rows of one query. -/
def dhtMailResults (queryId : Bytes) (rows : List DistributedMailRecord) (reply : MailReply) :
    List DistributedMailRecord :=
  if reply.payload.queryId = [] ∨ reply.payload.queryId ≠ queryId then rows
  else reply.payload.records.foldl (addResult reply.peerLabel) rows

/-- A call: the store and the clock, the peers that are asked, and the replies
up to the end of the wait. -/
structure LookupCall where
  lines : List Bytes
  now : UInt64
  recipient : Bytes
  labels : List Bytes
  queryId : Bytes
  replies : List MailReply

/-- The rows that wait for the call. -/
def LookupCall.rows (call : LookupCall) : List DistributedMailRecord :=
  call.replies.foldl (dhtMailResults call.queryId) []

section

variable (sha256 : Bytes → Hash256) (lib : Crypto)

/-- `dht_lookup_mail`; the messages to the peers are left out. -/
def dhtLookupMail (call : LookupCall) (limit : Nat) : List DistributedMailRecord :=
  match canonicalizeAddress sha256 call.recipient with
  | none => loadDistributedMailRecords lib call.lines call.now none limit
  | some normalized =>
      let kept := loadDistributedMailRecords lib call.lines call.now (some normalized) limit
      if call.labels = [] then kept
      else
        let sorted := (kept ++ call.rows).insertionSort fun a b => recordLess b a = false
        lastOf limit (firsts DistributedMailRecord.messageId sorted)

/-- What a call can find: the mail that is kept here, and the rows if peers were
asked. -/
def LookupCall.found (call : LookupCall) : List DistributedMailRecord :=
  match canonicalizeAddress sha256 call.recipient with
  | none => loadDistributedMailRecords lib call.lines call.now none 0
  | some normalized =>
      loadDistributedMailRecords lib call.lines call.now (some normalized) 0 ++
        if call.labels = [] then [] else call.rows

end

/-! ## The order of records -/

theorem recordLess_false_iff {a b : DistributedMailRecord} : recordLess b a = false ↔
    a.storedAt < b.storedAt ∨ a.storedAt = b.storedAt ∧ a.messageId ≤ b.messageId := byTime_false_iff

theorem storedAt_le {a b : DistributedMailRecord} (h : ¬ recordLess b a = true) :
    a.storedAt ≤ b.storedAt := by
  rw [Bool.not_eq_true, recordLess_false_iff] at h
  rcases h with h | ⟨h, -⟩
  · exact UInt64.le_of_lt h
  · exact h ▸ UInt64.le_refl _

theorem recordLess_total (a b : DistributedMailRecord) (hne : a.messageId ≠ b.messageId) :
    recordLess a b = true ∨ recordLess b a = true := by
  by_contra h
  rw [not_or, Bool.not_eq_true, Bool.not_eq_true, recordLess_false_iff, recordLess_false_iff] at h
  obtain ⟨h | ⟨heq, hle⟩, h' | ⟨heq', hle'⟩⟩ := h
  · grind
  · grind
  · grind
  · exact hne (List.le_antisymm hle' hle)

theorem recordLess_asymm {a b : DistributedMailRecord} (h : recordLess a b = true) :
    ¬ recordLess b a = true := by
  intro h'
  rw [← Bool.not_eq_false, recordLess_false_iff] at h h'
  have := List.le_total a.messageId b.messageId
  grind

theorem pairwise_sort (l : List DistributedMailRecord) :
    (l.insertionSort fun a b => recordLess b a = false).Pairwise fun a b => ¬ recordLess b a = true :=
  (pairwise_byTime DistributedMailRecord.storedAt DistributedMailRecord.messageId l).imp
    fun h => Bool.not_eq_true _ ▸ h

/-! ## The store -/

/-- The records of a file that are not past their time. -/
def unexpired (now : UInt64) (lines : List Bytes) : List DistributedMailRecord :=
  (lines.filterMap parseDistributedMailRecordLine).filter fun record => !record.expired now

/-- No two records have one id. -/
def DistinctIds (records : List DistributedMailRecord) : Prop :=
  (records.map DistributedMailRecord.messageId).Nodup

theorem DistinctIds.subset_perm {l l' : List DistributedMailRecord} (h : DistinctIds l)
    (hsub : l'.Subperm l) : DistinctIds l' := by
  obtain ⟨m, hperm, hsub⟩ := hsub
  exact (hperm.map _).nodup_iff.mp ((hsub.map _).nodup h)

section

variable {lib : Crypto} {lines : List Bytes} {now : UInt64}

theorem load_limit (recipient : Option Bytes) (limit : Nat) :
    loadDistributedMailRecords lib lines now recipient limit =
      lastOf limit (loadDistributedMailRecords lib lines now recipient 0) := by
  rw [loadDistributedMailRecords, loadDistributedMailRecords, lastOf_zero]

theorem load_subperm (recipient : Option Bytes) :
    (loadDistributedMailRecords lib lines now recipient 0).Subperm (unexpired now lines) := by
  rw [loadDistributedMailRecords, lastOf_zero]
  refine (List.perm_insertionSort _ _).subperm.trans ?_
  refine (List.monotone_filter_right _ fun record h => ?_).subperm
  rw [Bool.and_eq_true] at h
  exact h.1

theorem load_perm : (loadDistributedMailRecords lib lines now none 0).Perm (unexpired now lines) := by
  rw [loadDistributedMailRecords, lastOf_zero, unexpired]
  simp only [Bool.and_true]
  exact List.perm_insertionSort _ _

theorem load_sorted (recipient : Option Bytes) :
    (loadDistributedMailRecords lib lines now recipient 0).Pairwise
      fun a b => ¬ recordLess b a = true := by
  rw [loadDistributedMailRecords, lastOf_zero]
  exact pairwise_sort _

end

/-! ## The most recent messages -/

/-- A result that has each message once, and the most recent ones if there are
more than the limit. A message is as recent as the latest of its copies. -/
structure MostRecent (limit : Nat) (found result : List DistributedMailRecord) : Prop where
  sound : ∀ record ∈ result, record ∈ found
  distinct : DistinctIds result
  bounded : 0 < limit → result.length ≤ limit
  full : limit = 0 ∨ result.length < limit →
    ∀ copy ∈ found, copy.messageId ∈ result.map DistributedMailRecord.messageId
  recent : ∀ copy ∈ found, copy.messageId ∉ result.map DistributedMailRecord.messageId →
    ∀ record ∈ result, ∃ latest ∈ found, latest.messageId = record.messageId ∧
      copy.storedAt ≤ latest.storedAt

/-- Between two copies of a message no other message was stored. -/
def CopiesAdjacent (found : List DistributedMailRecord) : Prop :=
  Unsplit (fun a b => recordLess a b = true) DistributedMailRecord.messageId found

section

variable {kept rows : List DistributedMailRecord} {limit : Nat}

theorem DistinctIds.eq {records : List DistributedMailRecord} (h : DistinctIds records)
    {a b : DistributedMailRecord} (ha : a ∈ records) (hb : b ∈ records)
    (heq : a.messageId = b.messageId) : a = b := List.inj_on_of_nodup_map h ha hb heq

theorem copiesAdjacent_of_distinct (h : DistinctIds kept) : CopiesAdjacent kept := by
  intro a ha m hm b hb hab ham hmb
  by_contra hne
  obtain rfl := h.eq ha hb hab
  exact recordLess_asymm ham hmb

/-- What is dropped is not later than what stays. -/
theorem not_less_of_dropped {l : List DistributedMailRecord} {record copy : DistributedMailRecord}
    (hsorted : l.Pairwise fun a b => ¬ recordLess b a = true) (hcopy : copy ∈ l)
    (hdropped : copy ∉ lastOf limit l) (hrecord : record ∈ lastOf limit l) :
    ¬ recordLess record copy = true := by
  obtain ⟨earlier, hl⟩ := lastOf_suffix limit l
  rw [← hl] at hcopy hsorted
  have hearlier : copy ∈ earlier := (List.mem_append.mp hcopy).resolve_right hdropped
  exact (List.pairwise_append.mp hsorted).2.2 copy hearlier record hrecord

/-- The last records of a sorted list with different ids are the most recent. -/
theorem mostRecent_lastOf (hsorted : kept.Pairwise fun a b => ¬ recordLess b a = true)
    (hdistinct : DistinctIds kept) : MostRecent limit kept (lastOf limit kept) where
  sound record hrecord := (lastOf_suffix limit kept).subset hrecord
  distinct := hdistinct.subset_perm (lastOf_suffix limit kept).sublist.subperm
  bounded hpos := length_lastOf hpos
  full hfew copy hcopy := by
    by_contra hnot
    have hdropped : copy ∉ lastOf limit kept := fun hmem => hnot (List.mem_map_of_mem hmem)
    obtain ⟨hpos, hlength⟩ := length_lastOf_of_notMem hcopy hdropped
    omega
  recent copy hcopy hnot record hrecord := by
    have hdropped : copy ∉ lastOf limit kept := fun hmem => hnot (List.mem_map_of_mem hmem)
    exact ⟨record, (lastOf_suffix limit kept).subset hrecord, rfl,
      storedAt_le (not_less_of_dropped hsorted hcopy hdropped hrecord)⟩

/-! ## Merging -/

/-- What `dht_lookup_mail` makes of the records that it has joined. -/
def merged (limit : Nat) (joined : List DistributedMailRecord) : List DistributedMailRecord :=
  lastOf limit (firsts DistributedMailRecord.messageId
    (joined.insertionSort fun a b => recordLess b a = false))

section

variable {joined : List DistributedMailRecord}

theorem mem_of_mem_merged {record : DistributedMailRecord} (h : record ∈ merged limit joined) :
    record ∈ joined := by
  have hfirsts := (lastOf_suffix _ _).subset h
  exact (List.mem_insertionSort _).mp (firsts_sublist.subset hfirsts)

/-- The merged records have different ids exactly if copies are adjacent. -/
theorem distinctIds_firsts_iff : DistinctIds (firsts DistributedMailRecord.messageId
    (joined.insertionSort fun a b => recordLess b a = false)) ↔ CopiesAdjacent joined := by
  have hmem : ∀ record, (record ∈ joined.insertionSort fun a b => recordLess b a = false) ↔
      record ∈ joined := fun record => List.mem_insertionSort _
  rw [DistinctIds, nodup_firsts_iff, grouped_iff_unsplit (pairwise_sort joined) recordLess_total,
    CopiesAdjacent, Unsplit, Unsplit]
  simp only [hmem]

theorem mem_ids_firsts {id : Bytes} : id ∈ (firsts DistributedMailRecord.messageId
    (joined.insertionSort fun a b => recordLess b a = false)).map DistributedMailRecord.messageId ↔
      id ∈ joined.map DistributedMailRecord.messageId := by
  rw [mem_keys_firsts]
  exact ((List.perm_insertionSort _ joined).map _).mem_iff

/-- A copy whose message is left out is not later than what stays. -/
theorem not_less_of_left_out (hadjacent : CopiesAdjacent joined) {copy record : DistributedMailRecord}
    (hcopy : copy ∈ joined)
    (hout : copy.messageId ∉ (merged limit joined).map DistributedMailRecord.messageId)
    (hrecord : record ∈ merged limit joined) : ¬ recordLess record copy = true := by
  intro hless
  -- the copy that stands for the message comes before the record
  obtain ⟨first, hfirst, hid⟩ := List.mem_map.mp (mem_ids_firsts.mpr (List.mem_map_of_mem hcopy))
  have hfirstOut : first ∉ merged limit joined := fun hmem =>
    hout (hid ▸ List.mem_map_of_mem hmem)
  have hsorted := (pairwise_sort joined).sublist
    (firsts_sublist : (firsts DistributedMailRecord.messageId _).Sublist _)
  have hbefore := not_less_of_dropped hsorted hfirst hfirstOut hrecord
  have hne : first.messageId ≠ record.messageId := fun heq =>
    hout (hid ▸ heq ▸ List.mem_map_of_mem hrecord)
  have hfirstLess := (recordLess_total first record hne).resolve_right hbefore
  have hfirstMem := (List.mem_insertionSort _).mp (firsts_sublist.subset hfirst)
  exact hne (hadjacent first hfirstMem record (mem_of_mem_merged hrecord) copy hcopy hid
    hfirstLess hless).symm

/-- A message is left out only for the limit. -/
theorem length_of_left_out {copy : DistributedMailRecord} (hcopy : copy ∈ joined)
    (hout : copy.messageId ∉ (merged limit joined).map DistributedMailRecord.messageId) :
    0 < limit ∧ (merged limit joined).length = limit := by
  obtain ⟨first, hfirst, hid⟩ := List.mem_map.mp (mem_ids_firsts.mpr (List.mem_map_of_mem hcopy))
  exact length_lastOf_of_notMem hfirst fun hmem => hout (hid ▸ List.mem_map_of_mem hmem)

/-- As many messages as the limit are all there is if none of them is left
out. -/
theorem perm_of_none_left_out {last : List DistributedMailRecord} (hdistinct : DistinctIds last)
    (hlength : last.length = limit) (hpos : 0 < limit)
    (hall : ∀ other ∈ last, other.messageId ∈
      (merged limit joined).map DistributedMailRecord.messageId) :
    (last.map DistributedMailRecord.messageId).Perm
      ((merged limit joined).map DistributedMailRecord.messageId) := by
  have hsub : last.map DistributedMailRecord.messageId ⊆
      (merged limit joined).map DistributedMailRecord.messageId := by
    intro id hid
    obtain ⟨other, hmem, rfl⟩ := List.mem_map.mp hid
    exact hall other hmem
  have hfew : (merged limit joined).length ≤ limit := length_lastOf hpos
  refine (List.Nodup.subperm hdistinct hsub).perm_of_length_le ?_
  rw [List.length_map, List.length_map, hlength]
  exact hfew

end

theorem mostRecent_merged (hsorted : kept.Pairwise fun a b => ¬ recordLess b a = true)
    (hdistinct : DistinctIds kept) (hadjacent : CopiesAdjacent (kept ++ rows)) :
    MostRecent limit (kept ++ rows) (merged limit (lastOf limit kept ++ rows)) := by
  have hsub : ∀ record ∈ lastOf limit kept ++ rows, record ∈ kept ++ rows := by
    intro record hrecord
    obtain hlast | hrow := List.mem_append.mp hrecord
    · exact List.mem_append_left _ ((lastOf_suffix limit kept).subset hlast)
    · exact List.mem_append_right _ hrow
  have hjoined : CopiesAdjacent (lastOf limit kept ++ rows) := fun a ha m hm b hb =>
    hadjacent a (hsub a ha) m (hsub m hm) b (hsub b hb)
  have hfirsts := distinctIds_firsts_iff.mpr hjoined
  have hresult : DistinctIds (merged limit (lastOf limit kept ++ rows)) :=
    hfirsts.subset_perm (lastOf_suffix _ _).sublist.subperm
  have hlast := hdistinct.subset_perm (lastOf_suffix limit kept).sublist.subperm
  constructor
  case sound => exact fun record hrecord => hsub record (mem_of_mem_merged hrecord)
  case distinct => exact hresult
  case bounded => exact fun hpos => length_lastOf hpos
  case full =>
    intro hfew copy hcopy
    by_contra hout
    by_cases hmem : copy ∈ lastOf limit kept ++ rows
    · obtain ⟨hpos, hlength⟩ := length_of_left_out hmem hout
      omega
    · rw [List.mem_append, not_or] at hmem
      have hkept := (List.mem_append.mp hcopy).resolve_right hmem.2
      obtain ⟨hpos, hlength⟩ := length_lastOf_of_notMem hkept hmem.1
      have hshort := hfew.resolve_left (Nat.ne_of_gt hpos)
      have hall : ∀ other ∈ lastOf limit kept, other.messageId ∈
          (merged limit (lastOf limit kept ++ rows)).map DistributedMailRecord.messageId := by
        intro other hother
        by_contra hotherOut
        have := (length_of_left_out (List.mem_append_left rows hother) hotherOut).2
        omega
      have hcount := (perm_of_none_left_out hlast hlength hpos hall).length_eq
      rw [List.length_map, List.length_map, hlength] at hcount
      omega
  case recent =>
    intro copy hcopy hout record hrecord
    by_cases hmem : copy ∈ lastOf limit kept ++ rows
    · exact ⟨record, hsub record (mem_of_mem_merged hrecord), rfl,
        storedAt_le (not_less_of_left_out hjoined hmem hout hrecord)⟩
    · rw [List.mem_append, not_or] at hmem
      have hkept := (List.mem_append.mp hcopy).resolve_right hmem.2
      obtain ⟨hpos, hlength⟩ := length_lastOf_of_notMem hkept hmem.1
      by_cases hother : record.messageId ∈ (lastOf limit kept).map DistributedMailRecord.messageId
      · obtain ⟨latest, hlatest, hid⟩ := List.mem_map.mp hother
        exact ⟨latest, hsub latest (List.mem_append_left _ hlatest), hid,
          storedAt_le (not_less_of_dropped hsorted hkept hmem.1 hlatest)⟩
      · have hleft : ∃ other ∈ lastOf limit kept, other.messageId ∉
            (merged limit (lastOf limit kept ++ rows)).map DistributedMailRecord.messageId := by
          by_contra hnone
          have hperm := perm_of_none_left_out hlast hlength hpos fun other hmemOther =>
            not_not.mp fun hotherOut => hnone ⟨other, hmemOther, hotherOut⟩
          exact hother (hperm.mem_iff.mpr (List.mem_map_of_mem hrecord))
        obtain ⟨other, hmemOther, hotherOut⟩ := hleft
        have hjoinedOther := List.mem_append_left rows hmemOther
        exact ⟨record, hsub record (mem_of_mem_merged hrecord), rfl, UInt64.le_trans
          (storedAt_le (not_less_of_dropped hsorted hkept hmem.1 hmemOther))
          (storedAt_le (not_less_of_left_out hjoined hjoinedOther hotherOut hrecord))⟩

end

/-! ## Stores that the node wrote -/

/-- What the node does to its store. -/
inductive StoreOp where
  | store (policy : MailPolicy) (record : DistributedMailRecord)
  | delete (messageId : Bytes)

def StoreOp.run (lib : Crypto) (now : UInt64) (lines : List Bytes) : StoreOp → List Bytes
  | .store policy record => storeDistributedMailRecord lib policy record now lines
  | .delete messageId => (deleteDistributedMailRecord messageId lines).1

/-- The store at a time, under a clock that never goes back. -/
inductive StoreAt (lib : Crypto) : UInt64 → List Bytes → Prop
  | empty (now : UInt64) : StoreAt lib now []
  | run {now : UInt64} {lines : List Bytes} (op : StoreOp) (h : StoreAt lib now lines) :
      StoreAt lib now (op.run lib now lines)
  | later {now later : UInt64} {lines : List Bytes} (h : StoreAt lib now lines)
      (hlater : now ≤ later) : StoreAt lib later lines

section

variable {lib : Crypto} {lines : List Bytes} {now : UInt64}

theorem distinct_append {record : DistributedMailRecord} (h : DistinctIds (unexpired now lines)) :
    DistinctIds (unexpired now (appendDistributedMailRecord lib record now lines)) := by
  rw [appendDistributedMailRecord]
  split
  · exact h
  · next hnew =>
      have hparse : unexpired now (lines ++ [serializeDistributedMailRecordLine record]) =
          unexpired now lines ++ [record].filter fun record => !record.expired now := by
        rw [unexpired, List.filterMap_append, List.filter_append, List.filterMap_cons,
          parse_serialize_record]
        rfl
      have hsub : ([record].filter fun record => !record.expired now).Sublist [record] :=
        List.filter_sublist
      refine DistinctIds.subset_perm (l := unexpired now lines ++ [record]) ?_ ?_
      · rw [DistinctIds, List.map_append, List.map_singleton, ← List.concat_eq_append,
          List.nodup_concat]
        refine ⟨fun hmem => hnew ?_, h⟩
        obtain ⟨earlier, hearlier, hid⟩ := List.mem_map.mp hmem
        exact List.any_eq_true.mpr ⟨earlier, load_perm.mem_iff.mpr hearlier, decide_eq_true hid⟩
      · rw [hparse]
        exact (hsub.append_left _).subperm

theorem distinct_store {policy : MailPolicy} {record : DistributedMailRecord}
    (h : DistinctIds (unexpired now lines)) :
    DistinctIds (unexpired now (storeDistributedMailRecord lib policy record now lines)) := by
  have happended : DistinctIds (unexpired now (appendDistributedMailRecord lib record now lines)) :=
    distinct_append h
  rw [storeDistributedMailRecord]
  split
  · rw [unexpired, parse_saved]
    refine happended.subset_perm (List.filter_sublist.subperm.trans ?_)
    exact (lastOf_suffix _ _).sublist.subperm.trans (load_subperm none)
  · exact happended

theorem distinct_delete {messageId : Bytes} (h : DistinctIds (unexpired now lines)) :
    DistinctIds (unexpired now (deleteDistributedMailRecord messageId lines).1) := by
  rw [deleteDistributedMailRecord]
  split
  · exact h
  · exact h.subset_perm ((List.filter_sublist.filterMap _).filter _).subperm

theorem distinct_later {later : UInt64} (hlater : now ≤ later)
    (h : DistinctIds (unexpired now lines)) : DistinctIds (unexpired later lines) := by
  refine h.subset_perm (List.monotone_filter_right _ fun record hfresh => ?_).subperm
  simp only [DistributedMailRecord.expired, Bool.not_eq_true', Bool.and_eq_false_iff,
    decide_eq_false_iff_not] at hfresh ⊢
  exact hfresh.imp_right fun hnot hlt => hnot (UInt64.lt_of_lt_of_le hlt hlater)

/-- No two records in the store that count have one id. -/
theorem StoreAt.distinct (h : StoreAt lib now lines) : DistinctIds (unexpired now lines) := by
  induction h with
  | empty now => exact List.nodup_nil
  | run op _ ih =>
      cases op with
      | store policy record => exact distinct_store ih
      | delete messageId => exact distinct_delete ih
  | later _ hlater ih => exact distinct_later hlater ih

end

/-! ## What a lookup returns -/

section

variable (sha256 : Bytes → Hash256) (lib : Crypto)

/-- The calls of a node find each message once, and the most recent ones under a
limit, exactly if between two copies of a message no other message was stored. -/
theorem dhtLookupMail_mostRecent_iff (call : LookupCall) (hstore : StoreAt lib call.now call.lines) :
    (∀ limit, MostRecent limit (call.found sha256 lib) (dhtLookupMail sha256 lib call limit)) ↔
      CopiesAdjacent (call.found sha256 lib) := by
  have hkept : ∀ recipient, DistinctIds
      (loadDistributedMailRecords lib call.lines call.now recipient 0) :=
    fun recipient => hstore.distinct.subset_perm (load_subperm recipient)
  have hlocal : ∀ recipient limit, MostRecent limit
      (loadDistributedMailRecords lib call.lines call.now recipient 0)
      (loadDistributedMailRecords lib call.lines call.now recipient limit) := by
    intro recipient limit
    rw [load_limit recipient limit]
    exact mostRecent_lastOf (load_sorted recipient) (hkept recipient)
  rw [LookupCall.found]
  unfold dhtLookupMail
  split
  · exact iff_of_true (hlocal none) (copiesAdjacent_of_distinct (hkept none))
  · next normalized _ =>
      simp only
      split
      · rw [List.append_nil]
        exact iff_of_true (hlocal _) (copiesAdjacent_of_distinct (hkept _))
      · constructor
        · intro h
          have hdistinct := (h 0).distinct
          rw [lastOf_zero] at hdistinct
          exact distinctIds_firsts_iff.mp hdistinct
        · intro h limit
          rw [load_limit (some normalized) limit]
          exact mostRecent_merged (load_sorted _) (hkept _) h

end

/-! ## A message that is kept twice -/

def readerAddress : Bytes := base64Encode (List.replicate 20 7)

def mailAt (messageId : Bytes) (storedAt : UInt64) : DistributedMailRecord where
  storedAt := storedAt
  expiresAt := 0
  messageId := messageId
  senderAddress := [1]
  recipientAddress := readerAddress
  peerLabel := [3]
  payloadB64 := []

/-- The node keeps two messages, and a peer has kept the first one since later. -/
def splitCall : LookupCall where
  lines := [serializeDistributedMailRecordLine (mailAt [65] 1),
    serializeDistributedMailRecordLine (mailAt [66] 2)]
  now := 10
  recipient := readerAddress
  labels := [[9]]
  queryId := [5]
  replies := [⟨[9], { queryId := [5], records := [mailAt [65] 3] }⟩]

theorem splitCall_store : StoreAt sampleMailLib.toCrypto splitCall.now splitCall.lines := by
  have hlines : splitCall.lines = StoreOp.run sampleMailLib.toCrypto 10
      (StoreOp.run sampleMailLib.toCrypto 10 [] (.store {} (mailAt [65] 1)))
      (.store {} (mailAt [66] 2)) := by decide
  rw [hlines]
  exact (StoreAt.empty 10).run _ |>.run _

/-- The lookup returns the first message twice. -/
theorem not_lookup_distinct : ¬ ∀ (sha256 : Bytes → Hash256) (lib : Crypto) (call : LookupCall)
    (limit : Nat), StoreAt lib call.now call.lines →
      DistinctIds (dhtLookupMail sha256 lib call limit) := by
  intro h
  have hids : (dhtLookupMail (fun _ => 0) sampleMailLib.toCrypto splitCall 0).map
      DistributedMailRecord.messageId = [[65], [66], [65]] := by decide
  have hdistinct := h (fun _ => 0) sampleMailLib.toCrypto splitCall 0 splitCall_store
  rw [DistinctIds, hids] at hdistinct
  exact absurd hdistinct (by decide)

theorem dhtLookupMail_split : ¬ ∀ limit, MostRecent limit
    (splitCall.found (fun _ => 0) sampleMailLib.toCrypto)
    (dhtLookupMail (fun _ => 0) sampleMailLib.toCrypto splitCall limit) := by
  intro h
  have hadjacent := (dhtLookupMail_mostRecent_iff _ _ splitCall splitCall_store).mp h
  have hid := hadjacent (mailAt [65] 1) (by decide) (mailAt [66] 2) (by decide)
    (mailAt [65] 3) (by decide) rfl (by decide) (by decide)
  exact absurd hid (by decide)

end Mail

end Cryptex
