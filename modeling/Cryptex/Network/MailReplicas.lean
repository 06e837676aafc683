import Mathlib.Data.List.Sort
import Cryptex.Lib.Newest
import Cryptex.Network.MailLookup
import Cryptex.Network.MailNaming
import Cryptex.Network.MailVerified

/-!
# What replicas of the mail store hold

A node keeps the newest mail that it can hold. Two nodes that were given the
same mail hold the same, in whatever order and how often it came
(`replicas_converge`), and no run of the node takes its store beyond its
capacity (`store_within_capacity`).
-/

namespace Cryptex

open Newest

namespace Mail

variable {lib : Crypto} {lines : List Bytes} {now : UInt64}

/-! ## The order of records -/

/-- Older, or as old and with a smaller id. -/
def Older (a b : DistributedMailRecord) : Prop := recordLess a b = true

instance : DecidableRel Older := fun a b => inferInstanceAs (Decidable (recordLess a b = true))

theorem older_irrefl (a : DistributedMailRecord) : ¬ Older a a := fun h => recordLess_asymm h h

instance : Std.Irrefl Older := ⟨older_irrefl⟩

instance : Std.Antisymm Older :=
  ⟨fun _ _ hab hba => absurd hba (recordLess_asymm hab)⟩

theorem older_trans (a b c : DistributedMailRecord) (hab : Older a b) (hbc : Older b c) :
    Older a c := by
  have hba := Bool.not_eq_true _ ▸ recordLess_asymm hab
  have hcb := Bool.not_eq_true _ ▸ recordLess_asymm hbc
  by_contra hac
  rw [Older, Bool.not_eq_true, recordLess_false_iff] at hac
  rw [Older, ← Bool.not_eq_false, recordLess_false_iff] at hab
  rw [recordLess_false_iff] at hcb
  refine hab ?_
  rcases hcb with hcb | ⟨hcb, hcbId⟩
  · rcases hac with hac | ⟨hac, -⟩
    · exact .inl (UInt64.lt_trans hcb hac)
    · exact .inl (hac ▸ hcb)
  · rcases hac with hac | ⟨hac, hacId⟩
    · exact .inl (hcb ▸ hac)
    · exact .inr ⟨hcb.trans hac, List.le_trans hcbId hacId⟩

/-- Records with different ids are loaded in ascending order. -/
theorem load_older (h : DistinctIds (unexpired now lines)) :
    (loadDistributedMailRecords lib lines now none 0).Pairwise Older := by
  have hdistinct := h.subset_perm (@load_subperm lib lines now none)
  have hids := List.pairwise_map.mp hdistinct
  refine (load_sorted none).imp₂ (fun a b hle hne => ?_) hids
  exact (recordLess_total a b hne).resolve_right hle

/-! ## What a store makes of its records -/

/-- The records of a file. -/
def recorded (lines : List Bytes) : List DistributedMailRecord :=
  lines.filterMap parseDistributedMailRecordLine

theorem unexpired_eq (h : ∀ record ∈ recorded lines, record.expired now = false) :
    unexpired now lines = recorded lines :=
  List.filter_eq_self.mpr fun record hrecord => by rw [h record hrecord]; rfl

theorem recorded_append (record : DistributedMailRecord) :
    recorded (lines ++ [serializeDistributedMailRecordLine record]) = recorded lines ++ [record] := by
  rw [recorded, List.filterMap_append, List.filterMap_cons, parse_serialize_record,
    List.filterMap_nil]
  rfl

theorem lastOf_eq_drop {α : Type} {limit : Nat} (h : 0 < limit) (l : List α) :
    lastOf limit l = l.drop (l.length - limit) := by
  rw [lastOf]
  split
  · rfl
  · next hfew =>
      rw [not_and, not_lt] at hfew
      rw [Nat.sub_eq_zero_of_le (hfew h), List.drop_zero]

/-- The file holds the newest `limit` of some records. -/
structure HoldsNewest (limit : Nat) (given : Finset DistributedMailRecord) (lines : List Bytes) :
    Prop where
  distinct : DistinctIds (recorded lines)
  newest : (recorded lines).toFinset = keep Older limit given

variable {limit : Nat} {given : Finset DistributedMailRecord} {record : DistributedMailRecord}
  {policy : MailPolicy}

/-- Records with one id are the same. -/
def SameIds (given : Finset DistributedMailRecord) : Prop :=
  ∀ a ∈ given, ∀ b ∈ given, a.messageId = b.messageId → a = b

theorem recorded_appendRecord (hids : SameIds (insert record given))
    (hfresh : ∀ r ∈ insert record given, r.expired now = false)
    (hsub : ∀ r ∈ recorded lines, r ∈ given) (hdistinct : DistinctIds (recorded lines)) :
    DistinctIds (recorded (appendDistributedMailRecord lib record now lines)) ∧
      (recorded (appendDistributedMailRecord lib record now lines)).toFinset =
        insert record (recorded lines).toFinset := by
  have hunexpired : unexpired now lines = recorded lines :=
    unexpired_eq fun r hr => hfresh r (Finset.mem_insert_of_mem (hsub r hr))
  rw [appendDistributedMailRecord]
  split
  · next hknown =>
      obtain ⟨r, hr, hid⟩ := List.any_eq_true.mp hknown
      have hmem : r ∈ recorded lines := hunexpired ▸ load_perm.mem_iff.mp hr
      have heq : r = record := hids r (Finset.mem_insert_of_mem (hsub r hmem)) record
        (Finset.mem_insert_self _ _) (of_decide_eq_true hid)
      refine ⟨hdistinct, (Finset.insert_eq_of_mem ?_).symm⟩
      exact List.mem_toFinset.mpr (heq ▸ hmem)
  · next hnew =>
      rw [recorded_append]
      constructor
      · rw [DistinctIds, List.map_append, List.map_singleton, ← List.concat_eq_append,
          List.nodup_concat]
        refine ⟨fun hmem => hnew ?_, hdistinct⟩
        obtain ⟨r, hr, hid⟩ := List.mem_map.mp hmem
        refine List.any_eq_true.mpr ⟨r, load_perm.mem_iff.mpr ?_, decide_eq_true hid⟩
        rw [hunexpired]
        exact hr
      · rw [List.toFinset_append, List.toFinset_cons, List.toFinset_nil, insert_empty_eq,
          Finset.union_comm, Finset.singleton_union]

/-- Keeping the newest after another record came. -/
theorem HoldsNewest.store (h : HoldsNewest policy.maxStoreItems.toNat given lines)
    (hpos : 0 < policy.maxStoreItems.toNat) (hids : SameIds (insert record given))
    (hfresh : ∀ r ∈ insert record given, r.expired now = false) :
    HoldsNewest policy.maxStoreItems.toNat (insert record given)
      (storeDistributedMailRecord lib policy record now lines) := by
  have hsub : ∀ r ∈ recorded lines, r ∈ given := fun r hr =>
    keep_subset (h.newest ▸ List.mem_toFinset.mpr hr)
  obtain ⟨hdistinct, hrecorded⟩ := @recorded_appendRecord lib lines now given record hids hfresh hsub
    h.distinct
  have hkeep : keep Older policy.maxStoreItems.toNat
      (recorded (appendDistributedMailRecord lib record now lines)).toFinset =
        keep Older policy.maxStoreItems.toNat (insert record given) := by
    rw [hrecorded, h.newest, keep_insert_keep older_trans older_irrefl]
  have hunexpired : unexpired now (appendDistributedMailRecord lib record now lines) =
      recorded (appendDistributedMailRecord lib record now lines) := by
    refine unexpired_eq fun r hr => hfresh r ?_
    rw [← List.mem_toFinset, hrecorded] at hr
    exact Finset.insert_subset_insert record (fun x hx => hsub x (List.mem_toFinset.mp hx)) hr
  rw [storeDistributedMailRecord]
  split
  · have hload := @load_older lib _ now (hunexpired ▸ hdistinct)
    constructor
    · rw [recorded, parse_saved]
      refine (hunexpired ▸ hdistinct).subset_perm ?_
      exact (lastOf_suffix _ _).sublist.subperm.trans (load_subperm none)
    · rw [recorded, parse_saved, ← hkeep, lastOf_eq_drop hpos]
      ext r
      rw [List.mem_toFinset, mem_drop_iff_keep older_trans older_irrefl hload, ← hunexpired,
        List.toFinset_eq_of_perm _ _ load_perm]
  · next hfew =>
      rw [not_or, not_lt] at hfew
      refine ⟨hdistinct, ?_⟩
      rw [← hkeep, keep_of_card_le older_irrefl]
      refine (List.toFinset_card_le _).trans ?_
      rw [← hunexpired]
      exact hfew.2

/-! ## Replicas -/

/-- What a node is given to keep, each record at a time of its clock. -/
abbrev Arrivals := List (UInt64 × DistributedMailRecord)

def Arrivals.records (arrivals : Arrivals) : Finset DistributedMailRecord :=
  (arrivals.map Prod.snd).toFinset

/-- The file after all of it, from an empty one. -/
def storeAll (lib : Crypto) (policy : MailPolicy) (arrivals : Arrivals) : List Bytes :=
  arrivals.foldl (fun lines a => storeDistributedMailRecord lib policy a.2 a.1 lines) []

/-- A record is told by its id, and none is past its time while others come. -/
structure Calm (arrivals : Arrivals) : Prop where
  same : SameIds arrivals.records
  fresh : ∀ a ∈ arrivals, ∀ r ∈ arrivals.records, r.expired a.1 = false

theorem holdsNewest_storeAll (hpos : 0 < policy.maxStoreItems.toNat) {arrivals : Arrivals}
    (h : Calm arrivals) :
    HoldsNewest policy.maxStoreItems.toNat arrivals.records (storeAll lib policy arrivals) := by
  induction arrivals using List.reverseRecOn with
  | nil => exact ⟨List.nodup_nil, (keep_of_card_le older_irrefl (Nat.zero_le _)).symm⟩
  | append_singleton arrivals a ih =>
      have hrecords : Arrivals.records (arrivals ++ [a]) = insert a.2 (Arrivals.records arrivals) := by
        rw [Arrivals.records, List.map_append, List.toFinset_append, List.map_singleton,
          List.toFinset_cons, List.toFinset_nil, insert_empty_eq, Finset.union_comm,
          Finset.singleton_union]
        rfl
      have hsub : Arrivals.records arrivals ⊆ Arrivals.records (arrivals ++ [a]) :=
        hrecords ▸ Finset.subset_insert _ _
      have hbefore := ih
        { same := fun x hx y hy => h.same x (hsub hx) y (hsub hy)
          fresh := fun b hb r hr => h.fresh b (List.mem_append_left _ hb) r (hsub hr) }
      have hids : SameIds (insert a.2 (Arrivals.records arrivals)) := hrecords ▸ h.same
      have hfresh : ∀ r ∈ insert a.2 (Arrivals.records arrivals), r.expired a.1 = false :=
        fun r hr => h.fresh a (List.mem_append_right _ (List.mem_singleton_self a)) r (hrecords ▸ hr)
      have hafter := @HoldsNewest.store lib _ a.1 _ a.2 policy hbefore hpos hids hfresh
      rw [hrecords, storeAll, List.foldl_append]
      exact hafter

/-- What is loaded is the newest of what was given. -/
theorem HoldsNewest.mem_load (h : HoldsNewest limit given lines)
    (hfresh : ∀ r ∈ given, r.expired now = false) {r : DistributedMailRecord} :
    r ∈ loadDistributedMailRecords lib lines now none 0 ↔ r ∈ keep Older limit given := by
  have hunexpired : unexpired now lines = recorded lines :=
    unexpired_eq fun r hr => hfresh r (keep_subset (h.newest ▸ List.mem_toFinset.mpr hr))
  rw [load_perm.mem_iff, hunexpired, ← h.newest, List.mem_toFinset]

theorem HoldsNewest.load_pairwise (h : HoldsNewest limit given lines) (lib : Crypto)
    (hfresh : ∀ r ∈ given, r.expired now = false) :
    (loadDistributedMailRecords lib lines now none 0).Pairwise Older := by
  have hunexpired : unexpired now lines = recorded lines :=
    unexpired_eq fun r hr => hfresh r (keep_subset (h.newest ▸ List.mem_toFinset.mpr hr))
  exact load_older (hunexpired ▸ h.distinct)

/-- Two nodes with room for as many, given the same mail in any order and as
often as it may be, hold the same mail: the newest of it. -/
theorem replicas_converge (lib lib' : Crypto) {policy policy' : MailPolicy}
    (hmax : policy.maxStoreItems = policy'.maxStoreItems) (hpos : 0 < policy.maxStoreItems.toNat)
    {arrivals arrivals' : Arrivals} (h : Calm arrivals) (h' : Calm arrivals')
    (hsame : arrivals.records = arrivals'.records) {now : UInt64}
    (hnow : ∀ r ∈ arrivals.records, r.expired now = false) :
    loadDistributedMailRecords lib (storeAll lib policy arrivals) now none 0 =
        loadDistributedMailRecords lib' (storeAll lib' policy' arrivals') now none 0 ∧
      ∀ r, r ∈ loadDistributedMailRecords lib (storeAll lib policy arrivals) now none 0 ↔
        r ∈ arrivals.records ∧
          (above Older arrivals.records r).card < policy.maxStoreItems.toNat := by
  have hholds := @holdsNewest_storeAll lib policy hpos arrivals h
  have hholds' := @holdsNewest_storeAll lib' policy' (hmax ▸ hpos) arrivals' h'
  rw [← hmax, ← hsame] at hholds'
  have hload := hholds.load_pairwise lib hnow
  have hload' := hholds'.load_pairwise lib' hnow
  refine ⟨hload.eq_of_mem_iff hload' fun {r} => ?_, fun r => ?_⟩
  · rw [hholds.mem_load hnow, hholds'.mem_load hnow]
  · rw [hholds.mem_load hnow, mem_keep]

def threeMails : Arrivals := [(5, mailAt [65] 1), (6, mailAt [66] 2), (9, mailAt [67] 3)]

/-- In another order, and one of them twice. -/
def mixedMails : Arrivals :=
  [(7, mailAt [67] 3), (8, mailAt [65] 1), (8, mailAt [67] 3), (9, mailAt [66] 2)]

theorem threeMails_calm : Calm threeMails where
  same := by rw [SameIds]; decide
  fresh := by decide

theorem mixedMails_calm : Calm mixedMails where
  same := by rw [SameIds]; decide
  fresh := by decide

def roomForTwo : MailPolicy where
  maxStoreItems := 2

theorem replicas_converge_three :
    loadDistributedMailRecords sampleMailLib.toCrypto
        (storeAll sampleMailLib.toCrypto roomForTwo threeMails) 9 none 0 =
      loadDistributedMailRecords sampleMailLib.toCrypto
        (storeAll sampleMailLib.toCrypto roomForTwo mixedMails) 9 none 0 :=
  (replicas_converge sampleMailLib.toCrypto sampleMailLib.toCrypto rfl (by decide) threeMails_calm
    mixedMails_calm (by decide) (by decide)).1

/-! ## The capacity -/

/-- The mail that counts is no more than there is room for, and no message is
there twice. -/
structure Within (capacity : Nat) (now : UInt64) (lines : List Bytes) : Prop where
  count : distributedMailRecordCount lines now ≤ capacity
  distinct : DistinctIds (unexpired now lines)

variable {capacity : Nat}

theorem Within.later {later : UInt64} (h : Within capacity now lines) (hlater : now ≤ later) :
    Within capacity later lines where
  count := by
    refine le_trans (List.monotone_filter_right _ fun record hfresh => ?_).length_le h.count
    simp only [DistributedMailRecord.expired, Bool.not_eq_true', Bool.and_eq_false_iff,
      decide_eq_false_iff_not] at hfresh ⊢
    exact hfresh.imp_right fun hnot hlt => hnot (UInt64.lt_of_lt_of_le hlt hlater)
  distinct := distinct_later hlater h.distinct

/-- What is saved is no more than the records that are saved. -/
theorem count_saved_le (records : List DistributedMailRecord) :
    distributedMailRecordCount (saveDistributedMailRecords records) now ≤ records.length := by
  rw [distributedMailRecordCount, parse_saved]
  exact List.length_filter_le _ _

theorem within_saved (hpos : 0 < limit) (hlimit : limit ≤ capacity)
    (h : DistinctIds (unexpired now lines)) : Within capacity now
      (saveDistributedMailRecords (lastOf limit (loadDistributedMailRecords lib lines now none 0))) where
  count := (count_saved_le _).trans ((length_lastOf hpos).trans hlimit)
  distinct := by
    rw [unexpired, parse_saved]
    refine h.subset_perm (List.filter_sublist.subperm.trans ?_)
    exact (lastOf_suffix _ _).sublist.subperm.trans (load_subperm none)

theorem within_store (hpos : 0 < policy.maxStoreItems.toNat)
    (hlimit : policy.maxStoreItems.toNat ≤ capacity) (h : DistinctIds (unexpired now lines)) :
    Within capacity now (storeDistributedMailRecord lib policy record now lines) := by
  have happended : DistinctIds (unexpired now (appendDistributedMailRecord lib record now lines)) :=
    distinct_append h
  rw [storeDistributedMailRecord]
  split
  · exact within_saved hpos hlimit happended
  · next hfew =>
      rw [not_or, not_lt] at hfew
      exact ⟨hfew.2.trans hlimit, happended⟩

theorem Within.delete {messageId : Bytes} (h : Within capacity now lines) :
    Within capacity now (deleteDistributedMailRecord messageId lines).1 where
  count := by
    rw [deleteDistributedMailRecord]
    split
    · exact h.count
    · exact le_trans ((List.filter_sublist.filterMap _).filter _).length_le h.count
  distinct := distinct_delete h.distinct

variable {mailLib : MailLib}

theorem Within.event {env : MailEnv} {n : MailNode} {event : MailEvent}
    (hpos : 0 < env.policy.maxStoreItems.toNat) (hlimit : env.policy.maxStoreItems.toNat ≤ capacity)
    (h : Within capacity env.now n.recordLines) :
    Within capacity env.now (event.run mailLib env n).node.recordLines := by
  cases event with
  | store remoteLabel received =>
      rw [MailEvent.run, dhtMailStore]
      split
      · exact h
      · exact within_store hpos hlimit h.distinct
  | receipt remoteLabel received =>
      rw [MailEvent.run, dhtMailReceipt_recordLines]
      exact h
  | proof answer =>
      rw [MailEvent.run, proof_recordLines]
      exact h
  | lookup => exact h
  | maintain =>
      rw [MailEvent.run, maintain_recordLines]
      exact h
  | keep kept => exact within_store hpos hlimit h.distinct
  | delete messageId =>
      rw [MailEvent.run]
      change Within capacity env.now (deleteDistributedMail messageId n).recordLines
      rw [deleteDistributedMail]
      split
      · exact h.delete
      · exact h
  | prune => exact within_saved hpos hlimit h.distinct
  | restart => exact h

/-- The times of the events, between the start and the end. -/
def Forward (start : UInt64) (events : List (MailEnv × MailEvent)) (later : UInt64) : Prop :=
  (start :: (events.map fun e => e.1.now) ++ [later]).Pairwise (· ≤ ·)

/-- A node with room for some mail never keeps more, whatever it is sent and in
whatever order, and it never keeps a message twice. -/
theorem store_within_capacity (mailLib : MailLib) {capacity : Nat} : ∀
    {events : List (MailEnv × MailEvent)} {n : MailNode} {start later : UInt64},
    Within capacity start n.recordLines → Forward start events later →
    (∀ e ∈ events, 0 < e.1.policy.maxStoreItems.toNat ∧ e.1.policy.maxStoreItems.toNat ≤ capacity) →
    Within capacity later (runMail mailLib n events).recordLines
  | [], n, start, later, h, hforward, _ =>
      h.later ((List.pairwise_cons.mp hforward).1 later (List.mem_singleton_self later))
  | (env, event) :: events, n, start, later, h, hforward, hroom => by
      obtain ⟨hfirst, hrest⟩ := List.pairwise_cons.mp hforward
      obtain ⟨hpos, hlimit⟩ := hroom (env, event) List.mem_cons_self
      have hnow : Within capacity env.now n.recordLines := h.later (hfirst env.now List.mem_cons_self)
      rw [runMail]
      exact store_within_capacity mailLib (hnow.event hpos hlimit) hrest
        fun e he => hroom e (List.mem_cons_of_mem _ he)

/-- Three messages are kept one after the other, and one comes from a peer. -/
def busyNode : List (MailEnv × MailEvent) :=
  let env : MailEnv := { sampleMailEnv with policy := roomForTwo }
  [({ env with now := 5 }, .keep (mailAt [65] 1)), ({ env with now := 6 }, .keep (mailAt [66] 2)),
    ({ env with now := 6 }, .store [9] (mailAt [65] 7)), ({ env with now := 9 }, .keep (mailAt [67] 3))]

theorem within_empty : Within 2 0 [] := ⟨Nat.zero_le 2, List.nodup_nil⟩

theorem store_within_capacity_busy : Within 2 10
    (runMail sampleMailLib (freshMailNode []) busyNode).recordLines :=
  store_within_capacity sampleMailLib within_empty (show Forward 0 _ 10 by rw [Forward]; decide)
    (by decide)

end Mail

end Cryptex
