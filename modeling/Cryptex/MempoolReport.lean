import Cryptex.LocalMiner
import Cryptex.OrphanOrder

/-!
# What `add_transaction` reports

A transaction that has been admitted stays in the pool if the entries that pay
at least as much fit within the limits, with every orphan that it promotes. The
status is fixed before the orphans are promoted, and a transaction that finds
no room may have evicted others first.
-/

namespace Cryptex

namespace Mempool

variable {c : Crypto} {ctx : Context} {pool pool' : Mempool} {tx : Transaction}

/-! ## Room for a key -/

/-- The size of the entry of a key. -/
def keySize (pool : Mempool) (k : FeeKey) : Nat := ((pool.txs.lookup k.2.2).map (·.size)).getD 0

/-- The keys of the entries that pay at least as much as a given key. -/
def richer (pool : Mempool) (k : FeeKey) : List FeeKey :=
  pool.sortedByFeerate.filter fun k' => !FeeKey.lt k' k

/-- The entries that pay at least as much fit within the limits. -/
structure HasRoom (pool : Mempool) (k : FeeKey) : Prop where
  bytes : ((pool.richer k).map pool.keySize).sum ≤ Constants.maxMempoolSizeBytes
  count : (pool.richer k).length ≤ Constants.maxMempoolTransactions

theorem Consistent.nodup_ids (hs : pool.Consistent c) :
    (pool.sortedByFeerate.map fun k => k.2.2).Nodup := by
  refine hs.ascending.nodup.map_on fun k hk k' hk' hid => ?_
  obtain ⟨e, he, hkey⟩ := hs.sorted.mp hk
  obtain ⟨e', he', hkey'⟩ := hs.sorted.mp hk'
  rw [hid, he'] at he
  cases he
  rw [hkey, hkey', hid]

theorem Consistent.mem_ids (hs : pool.Consistent c) (h : Hash256) :
    h ∈ pool.sortedByFeerate.map (fun k => k.2.2) ↔ ∃ e, pool.txs.lookup h = some e := by
  constructor
  · intro hmem
    obtain ⟨k, hk, rfl⟩ := List.mem_map.mp hmem
    obtain ⟨e, he, -⟩ := hs.sorted.mp hk
    exact ⟨e, he⟩
  · rintro ⟨e, he⟩
    exact List.mem_map.mpr ⟨e.key h, hs.sorted.mpr ⟨e, he, rfl⟩, rfl⟩

theorem Consistent.card_eq (hs : pool.Consistent c) :
    pool.txs.keys.card = pool.sortedByFeerate.length := by
  rw [FinMap.card_keys_eq hs.nodup_ids hs.mem_ids, List.length_map]

theorem Consistent.totalBytes_eq (hs : pool.Consistent c) :
    pool.totalBytes = (pool.sortedByFeerate.map pool.keySize).sum := by
  have hsum := hs.bytes
  rw [FinMap.sumBy_eq_sum _ hs.nodup_ids hs.mem_ids, List.map_map] at hsum
  have hsame : (pool.sortedByFeerate.map fun k =>
      (pool.txs.lookup k.2.2).elim 0 fun e => (e.size : Int)) =
        (pool.sortedByFeerate.map pool.keySize).map fun n : Nat => (n : Int) := by
    rw [List.map_map]
    refine List.map_congr_left fun k _ => ?_
    rw [Function.comp_apply, keySize]
    cases pool.txs.lookup k.2.2 <;> rfl
  have hcast : ∀ l : List Nat, (l.map fun n : Nat => (n : Int)).sum = (l.sum : Int) := by
    intro l
    induction l with
    | nil => rfl
    | cons n l ih => rw [List.map_cons, List.sum_cons, ih, List.sum_cons, Nat.cast_add]
  have hwhole : (pool.totalBytes : Int) =
      (((pool.sortedByFeerate.map pool.keySize).sum : Nat) : Int) := by
    rw [hsum, ← hcast, ← hsame]
    rfl
  exact Nat.cast_inj.mp hwhole

theorem overLimits_eq_false_iff : pool.overLimits = false ↔
    pool.totalBytes ≤ Constants.maxMempoolSizeBytes ∧
      pool.txs.keys.card ≤ Constants.maxMempoolTransactions := by
  rw [overLimits, Bool.or_eq_false_iff]
  simp only [decide_eq_false_iff_not, Nat.not_lt, gt_iff_lt]

/-- A pool within its limits has room for all of its keys. -/
theorem Consistent.hasRoom (hs : pool.Consistent c) (hlimits : pool.overLimits = false)
    (k : FeeKey) : pool.HasRoom k := by
  obtain ⟨hbytes, hcount⟩ := overLimits_eq_false_iff.mp hlimits
  rw [hs.totalBytes_eq] at hbytes
  rw [hs.card_eq] at hcount
  have hsub : (pool.richer k).Sublist pool.sortedByFeerate := List.filter_sublist
  have hsum := (hsub.map pool.keySize).sum_le_sum fun _ _ => Nat.zero_le _
  exact ⟨Nat.le_trans hsum hbytes, Nat.le_trans hsub.length_le hcount⟩

/-- Room for a key is room for every key that pays more. -/
theorem HasRoom.mono {k k' : FeeKey} (h : pool.HasRoom k) (hlt : FeeKey.lt k k' = true) :
    pool.HasRoom k' := by
  have hsub : (pool.richer k').Sublist (pool.richer k) := by
    refine List.monotone_filter_right _ fun x hx => ?_
    rw [Bool.not_eq_true'] at hx ⊢
    rw [Bool.eq_false_iff] at hx ⊢
    exact fun hxk => hx (FeeKey.lt_trans hxk hlt)
  have hsum := (hsub.map pool.keySize).sum_le_sum fun _ _ => Nat.zero_le _
  exact ⟨Nat.le_trans hsum h.bytes, Nat.le_trans hsub.length_le h.count⟩

theorem FeeKey.lt_asymm {a b : FeeKey} (h : FeeKey.lt a b = true) : FeeKey.lt b a = false := by
  rw [Bool.eq_false_iff]
  intro h'
  have hself := FeeKey.lt_trans h h'
  rw [FeeKey.lt_irrefl] at hself
  cases hself

/-! ## Trimming -/

theorem removeTransaction_of_lookup {h : Hash256} {e : TxEntry} (he : pool.txs.lookup h = some e) :
    (pool.removeTransaction h).txs = pool.txs.erase h ∧
      (pool.removeTransaction h).sortedByFeerate = pool.sortedByFeerate.erase (e.key h) := by
  unfold removeTransaction
  rw [he]
  exact ⟨rfl, rfl⟩

/-- Without its lowest key, a pool has the same keys above the others. -/
theorem Consistent.hasRoom_removeLowest (hs : pool.Consistent c) {k₀ k : FeeKey}
    {rest : List FeeKey} (hsorted : pool.sortedByFeerate = k₀ :: rest) (hk : k ∈ rest) :
    (pool.removeTransaction k₀.2.2).HasRoom k ↔ pool.HasRoom k := by
  obtain ⟨e₀, he₀, hkey⟩ := hs.sorted.mp (hsorted ▸ List.mem_cons_self : k₀ ∈ pool.sortedByFeerate)
  obtain ⟨htxs, hlist⟩ := removeTransaction_of_lookup he₀
  rw [← hkey, hsorted, List.erase_cons_head] at hlist
  have hasc := hs.ascending
  rw [hsorted, Ascending, List.pairwise_cons] at hasc
  have hricher : (pool.removeTransaction k₀.2.2).richer k = pool.richer k := by
    rw [richer, richer, hlist, hsorted, List.filter_cons, if_neg (by rw [hasc.1 k hk]; decide)]
  have hids := hs.nodup_ids
  rw [hsorted, List.map_cons, List.nodup_cons] at hids
  have hsizes : (pool.richer k).map (pool.removeTransaction k₀.2.2).keySize =
      (pool.richer k).map pool.keySize := by
    refine List.map_congr_left fun k' hk' => ?_
    rw [← hricher, richer, hlist] at hk'
    have hmem : k'.2.2 ∈ rest.map fun k => k.2.2 :=
      List.mem_map_of_mem (f := fun k : FeeKey => k.2.2) (List.mem_filter.mp hk').1
    have hne : k'.2.2 ≠ k₀.2.2 := fun heq => hids.1 (heq ▸ hmem)
    rw [keySize, keySize, htxs, Finmap.lookup_erase_ne hne]
  constructor
  · rintro ⟨hbytes, hcount⟩
    rw [hricher] at hbytes hcount
    rw [hsizes] at hbytes
    exact ⟨hbytes, hcount⟩
  · rintro ⟨hbytes, hcount⟩
    refine ⟨?_, ?_⟩
    · rw [hricher, hsizes]
      exact hbytes
    · rw [hricher]
      exact hcount

/-- An entry survives the trimming exactly if there is room for it. -/
theorem Consistent.trimLoop_keeps_iff {h : Hash256} {e : TxEntry} : ∀ {fuel : Nat}
    {pool : Mempool}, pool.Consistent c → pool.sortedByFeerate.length ≤ fuel →
    pool.txs.lookup h = some e →
    ((Mempool.trimLoop fuel pool).txs.lookup h = some e ↔ pool.HasRoom (e.key h))
  | 0, pool, hs, hfuel, he => by
      have hmem : e.key h ∈ pool.sortedByFeerate := hs.sorted.mpr ⟨e, he, rfl⟩
      rw [List.eq_nil_of_length_eq_zero (Nat.le_zero.mp hfuel)] at hmem
      cases hmem
  | fuel + 1, pool, hs, hfuel, he => by
      have hmem : e.key h ∈ pool.sortedByFeerate := hs.sorted.mpr ⟨e, he, rfl⟩
      rw [Mempool.trimLoop]
      split
      · next hnil =>
          rw [hnil] at hmem
          cases hmem
      · next k₀ rest hsorted =>
          obtain ⟨e₀, he₀, hkey⟩ :=
            hs.sorted.mp (hsorted ▸ List.mem_cons_self : k₀ ∈ pool.sortedByFeerate)
          obtain ⟨htxs, hlist⟩ := removeTransaction_of_lookup he₀
          split
          · next hover =>
              rw [hsorted] at hmem
              rcases List.mem_cons.mp hmem with hfirst | hlater
              · -- the entry is the lowest one and goes first
                have hid : k₀.2.2 = h := by rw [← hfirst]; rfl
                refine iff_of_false (fun hkept => ?_) fun hroom => ?_
                · have hgone := lookup_trimLoop hkept
                  rw [htxs, hid, Finmap.lookup_erase] at hgone
                  cases hgone
                · have hall : pool.richer (e.key h) = pool.sortedByFeerate := by
                    have hasc := hs.ascending
                    rw [hsorted, Ascending, List.pairwise_cons] at hasc
                    rw [richer, List.filter_eq_self, hsorted]
                    intro k' hk'
                    rw [Bool.not_eq_true', hfirst]
                    rcases List.mem_cons.mp hk' with rfl | hk'
                    · exact FeeKey.lt_irrefl _
                    · exact FeeKey.lt_asymm (hasc.1 k' hk')
                  obtain ⟨hbytes, hcount⟩ := hroom
                  rw [hall] at hbytes hcount
                  rw [← hs.totalBytes_eq] at hbytes
                  rw [← hs.card_eq] at hcount
                  rw [overLimits_eq_false_iff.mpr ⟨hbytes, hcount⟩] at hover
                  cases hover
              · have hids := hs.nodup_ids
                rw [hsorted, List.map_cons, List.nodup_cons] at hids
                have hne : h ≠ k₀.2.2 := by
                  intro heq
                  exact hids.1 (heq ▸ List.mem_map_of_mem (f := fun k : FeeKey => k.2.2) hlater)
                have hlen : (pool.removeTransaction k₀.2.2).sortedByFeerate.length ≤ fuel := by
                  rw [hlist, ← hkey, hsorted, List.erase_cons_head]
                  rw [hsorted, List.length_cons] at hfuel
                  omega
                rw [(hs.removeTransaction k₀.2.2).trimLoop_keeps_iff hlen
                  (by rw [htxs, Finmap.lookup_erase_ne hne, he])]
                exact hs.hasRoom_removeLowest hsorted hlater
          · next hover =>
              exact iff_of_true he (hs.hasRoom (Bool.not_eq_true _ ▸ hover) _)

/-- What is kept is kept as it was. -/
theorem Consistent.trim_lookup (hs : pool.Consistent c) {h : Hash256} {e : TxEntry}
    (he : pool.txs.lookup h = some e) :
    (pool.trimToLimits.txs.lookup h = some e ∧ pool.HasRoom (e.key h)) ∨
      (pool.trimToLimits.txs.lookup h = none ∧ ¬ pool.HasRoom (e.key h)) := by
  have hiff := hs.trimLoop_keeps_iff (Nat.le_refl _) he
  rw [trimToLimits]
  by_cases hroom : pool.HasRoom (e.key h)
  · exact Or.inl ⟨hiff.mpr hroom, hroom⟩
  · refine Or.inr ⟨?_, hroom⟩
    cases hkept : (Mempool.trimLoop pool.sortedByFeerate.length pool).txs.lookup h with
    | none => rfl
    | some e' =>
        have hold := lookup_trimLoop hkept
        rw [he] at hold
        cases hold
        exact absurd (hiff.mp hkept) hroom

/-! ## A transaction that finds no room -/

theorem insertKey_of_lowest {k : FeeKey} : ∀ {l : List FeeKey}, k ∉ l →
    (∀ x ∈ l, FeeKey.lt x k = false) → insertKey k l = k :: l
  | [], _, _ => rfl
  | x :: l, hnot, hlow => by
      have hlt : FeeKey.lt k x = true :=
        FeeKey.lt_of_not (by rw [hlow x List.mem_cons_self]; decide)
          fun heq => hnot (heq ▸ List.mem_cons_self)
      rw [insertKey, if_pos hlt]

/-- Removing a transaction that was just inserted restores the pool. -/
theorem removeTransaction_insertEntry {h : Hash256} {e : TxEntry}
    (hfresh : pool.txs.lookup h = none)
    (hunspent : ∀ txin ∈ e.tx.inputs.toList, pool.spentOutpoints.lookup txin.prevout = none)
    (hsorted : insertKey (e.key h) pool.sortedByFeerate = e.key h :: pool.sortedByFeerate) :
    (pool.insertEntry h e).removeTransaction h = pool := by
  have hlook : (pool.insertEntry h e).txs.lookup h = some e := Finmap.lookup_insert _
  have hspent : e.tx.inputs.toList.foldl
      (fun m txin => if m.lookup txin.prevout = some h then m.erase txin.prevout else m)
      (e.tx.inputs.toList.foldl (fun m txin => m.insert txin.prevout h) pool.spentOutpoints)
        = pool.spentOutpoints := by
    refine Finmap.ext_lookup fun o => Option.ext fun h' => ?_
    rw [lookup_foldl_release, lookup_foldl_insert]
    constructor
    · rintro ⟨⟨rfl, txin, htxin, heq⟩ | ⟨-, hold⟩, hnot⟩
      · exact absurd heq (hnot rfl txin htxin)
      · exact hold
    · intro hold
      have hother : ∀ txin ∈ e.tx.inputs.toList, txin.prevout ≠ o := by
        intro txin htxin heq
        rw [← heq, hunspent txin htxin] at hold
        cases hold
      refine ⟨Or.inr ⟨hother, hold⟩, fun _ => hother⟩
  unfold removeTransaction
  rw [hlook]
  simp only [insertEntry, hsorted, List.erase_cons_head, hspent, Nat.add_sub_cancel,
    FinMap.erase_insert_eq hfresh]

section

variable (c : Crypto) (ctx : Context)

/-- The pool with a transaction that the checks admit. -/
abbrev admitted (pool : Mempool) (tx : Transaction) (e : TxEntry) : Mempool :=
  pool.insertEntry (tx.hash c) e

/-- A pass over a transaction leaves room for a key. -/
def LeavesRoom (k : FeeKey) (x : Mempool × Transaction) : Prop :=
  ∀ e, admission c ctx x.1 x.2 = .entry e → (admitted c x.1 x.2 e).HasRoom k

end

theorem lookup_admitted (c : Crypto) (pool : Mempool) (tx : Transaction) (e : TxEntry) :
    (admitted c pool tx e).txs.lookup (tx.hash c) = some e := Finmap.lookup_insert _

theorem lookup_admitted_ne (c : Crypto) (pool : Mempool) (tx : Transaction) (e : TxEntry)
    {h : Hash256} (hne : h ≠ tx.hash c) :
    (admitted c pool tx e).txs.lookup h = pool.txs.lookup h := Finmap.lookup_insert_of_ne _ hne

theorem sorted_admitted (c : Crypto) (pool : Mempool) (tx : Transaction) (e : TxEntry) :
    (admitted c pool tx e).sortedByFeerate = insertKey (e.key (tx.hash c)) pool.sortedByFeerate :=
  rfl

theorem totalBytes_admitted (c : Crypto) (pool : Mempool) (tx : Transaction) (e : TxEntry) :
    (admitted c pool tx e).totalBytes = pool.totalBytes + e.size := rfl

theorem admission_entry {e : TxEntry} (h : admission c ctx pool tx = .entry e) :
    Admissible c ctx pool tx ∧ e.tx = tx ∧
      addOne c ctx pool tx =
        (if ((admitted c pool tx e).trimToLimits.txs.lookup (tx.hash c)).isSome then .accepted
          else .poolFull, (admitted c pool tx e).trimToLimits) := by
  rcases admission_cases c ctx pool tx with ⟨status, hadm, -⟩ | ⟨hok, r, -, ⟨-, hadm⟩ | ⟨e', he, hadm⟩⟩
  · rw [h] at hadm
    cases hadm
  · rw [h] at hadm
    cases hadm
  · rw [h] at hadm
    cases hadm
    refine ⟨hok, by rw [he.entry], ?_⟩
    rw [addOne, h]
    simp only
    split <;> rfl

theorem Sound.admitted (hs : pool.Sound c) {e : TxEntry} (h : admission c ctx pool tx = .entry e) :
    (Mempool.admitted c pool tx e).Consistent c := by
  obtain ⟨hok, htx, -⟩ := admission_entry h
  subst htx
  exact hs.consistent.insertEntry hok.fresh (checkDoubleSpend_false hok.unspent)

/-- A pool that is full is as it was unless something pays less. -/
theorem full_unchanged_iff (hs : pool.Sound c) {e : TxEntry}
    (h : admission c ctx pool tx = .entry e)
    (hroom : ¬ (admitted c pool tx e).HasRoom (e.key (tx.hash c))) :
    (admitted c pool tx e).trimToLimits = pool ↔
      ∀ k ∈ pool.sortedByFeerate, FeeKey.lt k (e.key (tx.hash c)) = false := by
  obtain ⟨hok, htx, -⟩ := admission_entry h
  have hcons := hs.admitted h
  have hnot : e.key (tx.hash c) ∉ pool.sortedByFeerate := by
    intro hmem
    obtain ⟨e', he', -⟩ := hs.consistent.sorted.mp hmem
    have hnone : pool.txs.lookup (e.key (tx.hash c)).2.2 = none := hok.fresh
    rw [hnone] at he'
    cases he'
  constructor
  · intro hsame k hk
    by_contra hlt
    rw [Bool.not_eq_false] at hlt
    -- the entry of a lower key has no room either
    obtain ⟨e', he', hkey⟩ := hs.consistent.sorted.mp hk
    have hne : k.2.2 ≠ tx.hash c := by
      intro heq
      rw [heq, hok.fresh] at he'
      cases he'
    have hin : (admitted c pool tx e).txs.lookup k.2.2 = some e' := by
      rw [lookup_admitted_ne _ _ _ _ hne, he']
    rcases hcons.trim_lookup hin with ⟨-, hlow⟩ | ⟨hgone, -⟩
    · rw [← hkey] at hlow
      exact hroom (hlow.mono hlt)
    · rw [hsame, he'] at hgone
      cases hgone
  · intro hlow
    have hsorted := insertKey_of_lowest hnot hlow
    have hback : (admitted c pool tx e).removeTransaction (tx.hash c) = pool := by
      refine removeTransaction_insertEntry hok.fresh ?_ hsorted
      rw [htx]
      exact checkDoubleSpend_false hok.unspent
    have hlist : (admitted c pool tx e).sortedByFeerate =
        e.key (tx.hash c) :: pool.sortedByFeerate := hsorted
    have hover : (admitted c pool tx e).overLimits = true := by
      by_contra hno
      exact hroom (hcons.hasRoom (Bool.eq_false_iff.mpr hno) _)
    have hid : (e.key (tx.hash c)).2.2 = tx.hash c := rfl
    have hwithin : ∀ fuel, trimLoop fuel pool = pool := by
      intro fuel
      cases fuel with
      | zero => rfl
      | succ fuel =>
          rw [trimLoop, hs.withinLimits]
          split <;> rfl
    rw [trimToLimits, hlist, List.length_cons, trimLoop, hlist]
    simp only [hover, if_true, hid, hback, hwithin]

/-! ## What the promotions do -/

/-- The entry is in the pool, and its id waits nowhere. -/
structure Kept (h : Hash256) (e : TxEntry) (pool : Mempool) : Prop where
  entry : pool.txs.lookup h = some e
  orphans : pool.orphans.lookup h = none

/-- The id is neither in the pool nor among the orphans. -/
structure Gone (h : Hash256) (pool : Mempool) : Prop where
  txs : pool.txs.lookup h = none
  orphans : pool.orphans.lookup h = none

theorem lookup_removeOrphan {h k : Hash256} (hnone : pool.orphans.lookup h = none) :
    (pool.removeOrphan k).orphans.lookup h = none := by
  unfold removeOrphan
  split
  · exact hnone
  · simp only [FinMap.lookup_erase_ite, hnone, ite_self]

/-- A pass over another transaction does not queue the id. -/
theorem lookup_orphans_addOne (hs : pool.Sound c) {h : Hash256} (hne : tx.hash c ≠ h)
    (hnone : pool.orphans.lookup h = none) : (addOne c ctx pool tx).2.orphans.lookup h = none := by
  rcases addOne_cases c ctx pool tx with ⟨status, heq, -⟩ | ⟨-, r, -, ⟨-, heq⟩ | ⟨e, -, heq, -⟩⟩
  · rw [heq]
    exact hnone
  · rw [heq, addOrphan]
    split
    · exact hnone
    · simp only [FinMap.lookup_insert_ite, if_neg hne.symm]
      exact (hs.orphansOk.evictOrphans (Nat.le_refl _)).2.2.2 h hnone
  · have hsame : (admitted c pool tx e).trimToLimits.orphans = pool.orphans :=
      (trimLoop_sameOrphans _ _).1
    rw [heq, hsame]
    exact hnone

/-- A pass that admits nothing leaves the entries alone. -/
theorem addOne_txs_of_not_entry (hs : pool.Sound c)
    (h : ∀ e, admission c ctx pool tx ≠ .entry e) : (addOne c ctx pool tx).2.txs = pool.txs := by
  unfold addOne
  cases hadm : admission c ctx pool tx with
  | rejected status => rfl
  | orphan missing => exact (hs.orphansOk.addOrphan tx ctx.now missing).2.txs
  | entry e => exact absurd hadm (h e)

variable (ctx) in
/-- A pass over another transaction keeps the entry if it leaves room for it,
and drops it otherwise. -/
theorem kept_addOne {h : Hash256} {e : TxEntry} (hs : pool.Sound c) (hkept : pool.Kept h e)
    (hne : tx.hash c ≠ h) :
    ((addOne c ctx pool tx).2.Kept h e ∧ LeavesRoom c ctx (e.key h) (pool, tx)) ∨
      ((addOne c ctx pool tx).2.Gone h ∧ ¬ LeavesRoom c ctx (e.key h) (pool, tx)) := by
  have horphans : (addOne c ctx pool tx).2.orphans.lookup h = none :=
    lookup_orphans_addOne hs hne hkept.orphans
  by_cases hentry : ∃ e', admission c ctx pool tx = .entry e'
  · obtain ⟨e', he'⟩ := hentry
    obtain ⟨-, -, hone⟩ := admission_entry he'
    have hin : (admitted c pool tx e').txs.lookup h = some e := by
      rw [lookup_admitted_ne _ _ _ _ hne.symm, hkept.entry]
    have hroom : LeavesRoom c ctx (e.key h) (pool, tx) ↔
        (admitted c pool tx e').HasRoom (e.key h) := by
      refine ⟨fun hleaves => hleaves e' he', fun hroom e'' he'' => ?_⟩
      rw [he'] at he''
      cases he''
      exact hroom
    rw [hroom]
    rw [hone] at horphans ⊢
    rcases (hs.admitted he').trim_lookup hin with ⟨hlook, hyes⟩ | ⟨hlook, hno⟩
    · exact Or.inl ⟨⟨hlook, horphans⟩, hyes⟩
    · exact Or.inr ⟨⟨hlook, horphans⟩, hno⟩
  · have hnot : ∀ e', admission c ctx pool tx ≠ .entry e' := fun e' he' => hentry ⟨e', he'⟩
    refine Or.inl ⟨⟨?_, horphans⟩, fun e' he' => absurd he' (hnot e')⟩
    rw [addOne_txs_of_not_entry hs hnot]
    exact hkept.entry

theorem gone_addOne (hs : pool.Sound c) {h : Hash256} (hgone : pool.Gone h) (hne : tx.hash c ≠ h) :
    (addOne c ctx pool tx).2.Gone h := by
  refine ⟨?_, lookup_orphans_addOne hs hne hgone.orphans⟩
  by_cases hentry : ∃ e', admission c ctx pool tx = .entry e'
  · obtain ⟨e', he'⟩ := hentry
    obtain ⟨-, -, hone⟩ := admission_entry he'
    rw [hone]
    cases hlook : (admitted c pool tx e').trimToLimits.txs.lookup h with
    | none => rfl
    | some e'' =>
        have hold := lookup_trimLoop hlook
        rw [lookup_admitted_ne _ _ _ _ hne.symm, hgone.txs] at hold
        cases hold
  · rw [addOne_txs_of_not_entry hs fun e' he' => hentry ⟨e', he'⟩]
    exact hgone.txs

/-- What some passes do to the entry of an id that waits nowhere: it stays
exactly if each of them leaves room for it, and it does not come back. -/
structure Settles (c : Crypto) (ctx : Context) (h : Hash256) (e : TxEntry)
    (pool pool' : Mempool) (passes : List (Mempool × Transaction)) : Prop where
  orphans : pool'.orphans.lookup h = none
  kept : pool.Kept h e → (∀ x ∈ passes, LeavesRoom c ctx (e.key h) x) → pool'.Kept h e
  lost : pool.Kept h e → ¬ (∀ x ∈ passes, LeavesRoom c ctx (e.key h) x) → pool'.Gone h
  gone : pool.Gone h → pool'.Gone h

namespace Settles

variable {h : Hash256} {e : TxEntry} {ps ps' : List (Mempool × Transaction)}

theorem refl (hnone : pool.orphans.lookup h = none) : Settles c ctx h e pool pool [] where
  orphans := hnone
  kept := fun hkept _ => hkept
  lost := fun _ hnot => absurd (fun x hx => by cases hx) hnot
  gone := id

theorem trans {mid : Mempool} (h₁ : Settles c ctx h e pool mid ps)
    (h₂ : Settles c ctx h e mid pool' ps') : Settles c ctx h e pool pool' (ps ++ ps') where
  orphans := h₂.orphans
  kept := fun hkept hall => h₂.kept
    (h₁.kept hkept fun x hx => hall x (List.mem_append_left _ hx))
    fun x hx => hall x (List.mem_append_right _ hx)
  lost := fun hkept hnot => by
    by_cases hfirst : ∀ x ∈ ps, LeavesRoom c ctx (e.key h) x
    · refine h₂.lost (h₁.kept hkept hfirst) fun hsecond => hnot fun x hx => ?_
      rcases List.mem_append.mp hx with hx | hx
      · exact hfirst x hx
      · exact hsecond x hx
    · exact h₂.gone (h₁.lost hkept hfirst)
  gone := fun hgone => h₂.gone (h₁.gone hgone)

theorem removeOrphan {k : Hash256} (hnone : pool.orphans.lookup h = none) :
    Settles c ctx h e pool (pool.removeOrphan k) [] := by
  have htxs : (pool.removeOrphan k).txs = pool.txs := (removeOrphan_samePool k).txs
  have horphans : (pool.removeOrphan k).orphans.lookup h = none := lookup_removeOrphan hnone
  refine ⟨horphans, fun hkept _ => ⟨?_, horphans⟩, fun _ hnot => ?_, fun hgone => ⟨?_, horphans⟩⟩
  · rw [htxs]
    exact hkept.entry
  · exact absurd (fun x hx => by cases hx) hnot
  · rw [htxs]
    exact hgone.txs

theorem addOne (hs : pool.Sound c) (hne : tx.hash c ≠ h) (hnone : pool.orphans.lookup h = none) :
    Settles c ctx h e pool (Mempool.addOne c ctx pool tx).2 [(pool, tx)] := by
  have hiff : (∀ x ∈ [(pool, tx)], LeavesRoom c ctx (e.key h) x) ↔
      LeavesRoom c ctx (e.key h) (pool, tx) := List.forall_mem_singleton
  refine ⟨lookup_orphans_addOne hs hne hnone, fun hkept hall => ?_, fun hkept hnot => ?_,
    fun hgone => gone_addOne hs hgone hne⟩
  · rcases kept_addOne ctx hs hkept hne with ⟨hstill, -⟩ | ⟨-, hno⟩
    · exact hstill
    · exact absurd (hiff.mp hall) hno
  · rcases kept_addOne ctx hs hkept hne with ⟨-, hyes⟩ | ⟨hgone, -⟩
    · exact absurd (hiff.mpr hyes) hnot
    · exact hgone

/-- The orphans of a list, one after another. -/
theorem processOrphans
    {steps : Mempool → Transaction → List (Mempool × Transaction)}
    {add : Mempool → Transaction → Option (AcceptStatus × Mempool)}
    (hadd : ∀ {pool tx status pool'}, pool.Sound c → tx.hash c ≠ h →
      pool.orphans.lookup h = none → add pool tx = some (status, pool') →
      pool'.Sound c ∧ Settles c ctx h e pool pool' (steps pool tx)) :
    ∀ (ready : List Hash256) {pool pool' : Mempool}, pool.Sound c →
      pool.orphans.lookup h = none → Mempool.processOrphans add pool ready = some pool' →
      pool'.Sound c ∧ Settles c ctx h e pool pool' (orphanPasses steps add pool ready) := by
  intro ready
  induction ready with
  | nil =>
      intro pool pool' hs hnone hrun
      cases hrun
      exact ⟨hs, refl hnone⟩
  | cons k ready ih =>
      intro pool pool' hs hnone hrun
      rw [Mempool.processOrphans] at hrun
      rw [orphanPasses]
      cases hk : pool.orphans.lookup k with
      | none =>
          rw [hk] at hrun
          exact ih hs hnone hrun
      | some o =>
          rw [hk] at hrun
          simp only at hrun ⊢
          -- an orphan lies under its own id, and nothing lies under this one
          have hne : o.tx.hash c ≠ h := by
            intro heq
            rw [← heq, hs.orphansOk.id hk, hk] at hnone
            cases hnone
          cases hacc : add (pool.removeOrphan k) o.tx with
          | none =>
              rw [hacc] at hrun
              cases hrun
          | some res =>
              obtain ⟨status, mid⟩ := res
              rw [hacc] at hrun
              obtain ⟨hmid, hfirst⟩ :=
                hadd (hs.removeOrphan k) hne (lookup_removeOrphan hnone) hacc
              obtain ⟨hs', hrest⟩ := ih hmid hfirst.orphans hrun
              exact ⟨hs', (removeOrphan hnone).trans (hfirst.trans hrest)⟩

/-- A call for another transaction. -/
theorem addTransaction : ∀ (fuel : Nat) {pool : Mempool} {tx : Transaction}
    {status : AcceptStatus} {pool' : Mempool}, pool.Sound c → tx.hash c ≠ h →
      pool.orphans.lookup h = none →
      Mempool.addTransaction c ctx fuel pool tx = some (status, pool') →
      pool'.Sound c ∧ Settles c ctx h e pool pool' (passes c ctx fuel pool tx) := by
  intro fuel
  induction fuel with
  | zero => intro pool tx status pool' _ _ _ hrun; cases hrun
  | succ fuel ih =>
      intro pool tx status pool' hs hne hnone hrun
      have hsone : (Mempool.addOne c ctx pool tx).2.Sound c := hs.addOne
      have hone : Settles c ctx h e pool (Mempool.addOne c ctx pool tx).2 [(pool, tx)] :=
        addOne hs hne hnone
      rw [Mempool.addTransaction] at hrun
      rw [passes]
      generalize Mempool.addOne c ctx pool tx = res at hrun hsone hone
      obtain ⟨v, t⟩ := res
      cases v with
      | accepted =>
          obtain ⟨t', hloop, heq⟩ := Option.map_eq_some_iff.mp hrun
          cases heq
          obtain ⟨hs', hrest⟩ := processOrphans ih _ hsone hone.orphans hloop
          exact ⟨hs', hone.trans hrest⟩
      | _ =>
          cases hrun
          exact ⟨hsone, hone⟩

end Settles

/-! ## What the status says -/

/-- The status says what happened to the transaction. -/
structure Reports (c : Crypto) (tx : Transaction) (pool pool' : Mempool) (status : AcceptStatus) :
    Prop where
  accepted : status = .accepted ↔
    (pool'.txs.lookup (tx.hash c)).isSome ∧ pool.txs.lookup (tx.hash c) = none
  waiting : status = .missingInputs → (pool'.orphans.lookup (tx.hash c)).isSome
  refused : status ≠ .accepted → status ≠ .missingInputs → pool' = pool

/-- If there is room for the entry that is admitted, then each call for an
orphan leaves room for it; and if there is none, then nothing pays less. -/
structure Spares (c : Crypto) (ctx : Context) (fuel : Nat) (pool : Mempool) (tx : Transaction)
    (e : TxEntry) : Prop where
  room : (admitted c pool tx e).HasRoom (e.key (tx.hash c)) →
    ∀ x ∈ (passes c ctx fuel pool tx).tail, LeavesRoom c ctx (e.key (tx.hash c)) x
  noRoom : ¬ (admitted c pool tx e).HasRoom (e.key (tx.hash c)) →
    ∀ k ∈ pool.sortedByFeerate, FeeKey.lt k (e.key (tx.hash c)) = false

theorem rejected_ne_missingInputs {status : AcceptStatus}
    (h : admission c ctx pool tx = .rejected status) : status ≠ .missingInputs := by
  rintro rfl
  unfold admission at h
  split at h
  · cases h
  · split at h
    · cases h
    · split at h
      · cases h
      · split at h
        · cases h
        · split at h
          · cases h
          · split at h
            · next hres =>
                cases h
                rcases resolveInputs_error hres with heq | heq <;> cases heq
            · split at h
              · cases h
              · simp only at h
                split at h
                · cases h
                · split at h
                  · cases h
                  · split at h <;> cases h

theorem lookup_addOrphan (o : OrphanEntry) (missing : List Hash256)
    {h : Hash256} (hfresh : pool.orphans.lookup h = none) :
    (pool.addOrphan h o missing).orphans.lookup h = some o := by
  rw [addOrphan, hfresh, if_neg (by decide)]
  exact Finmap.lookup_insert _

theorem reports_rejected {status : AcceptStatus} (h : admission c ctx pool tx = .rejected status)
    (hne : status ≠ .accepted) : Reports c tx pool pool status := by
  refine ⟨iff_of_false hne ?_, fun heq => absurd heq (rejected_ne_missingInputs h),
    fun _ _ => rfl⟩
  rintro ⟨hin, hnone⟩
  rw [hnone] at hin
  cases hin

theorem reports_orphan (hs : pool.Sound c) (hok : Admissible c ctx pool tx) (now : Nat)
    (missing : List Hash256) :
    Reports c tx pool (pool.addOrphan (tx.hash c) ⟨tx, now⟩ missing) .missingInputs := by
  have hsame : (pool.addOrphan (tx.hash c) ⟨tx, now⟩ missing).txs = pool.txs :=
    (hs.orphansOk.addOrphan tx now missing).2.txs
  refine ⟨iff_of_false (by decide) ?_, fun _ => ?_, fun _ hne => absurd rfl hne⟩
  · rintro ⟨hin, -⟩
    rw [hsame, hok.fresh] at hin
    cases hin
  · rw [lookup_addOrphan _ _ hok.notOrphan]
    rfl

/-- A transaction that found no room. -/
theorem reports_poolFull_iff {e : TxEntry}
    (hgone : (admitted c pool tx e).trimToLimits.txs.lookup (tx.hash c) = none) :
    Reports c tx pool (admitted c pool tx e).trimToLimits .poolFull ↔
      (admitted c pool tx e).trimToLimits = pool := by
  constructor
  · intro hreports
    exact hreports.refused (by decide) (by decide)
  · intro hsame
    refine ⟨iff_of_false (by decide) ?_, nofun, fun _ _ => hsame⟩
    rintro ⟨hin, -⟩
    rw [hgone] at hin
    cases hin

/-- A transaction that was accepted. -/
theorem reports_accepted_iff (hfresh : pool.txs.lookup (tx.hash c) = none) :
    Reports c tx pool pool' .accepted ↔ (pool'.txs.lookup (tx.hash c)).isSome := by
  constructor
  · intro hreports
    exact (hreports.accepted.mp rfl).1
  · intro hin
    exact ⟨iff_of_true rfl ⟨hin, hfresh⟩, nofun, fun hne => absurd rfl hne⟩

/-- A call says what happened exactly if the entry that it admits is spared by
the orphans it promotes, or evicts nothing where it is refused. -/
theorem addTransaction_reports_iff (hs : pool.Sound c) {fuel : Nat}
    (hfuel : pool.orphans.keys.card < fuel) :
    ∃ status pool', addTransaction c ctx fuel pool tx = some (status, pool') ∧
      (Reports c tx pool pool' status ↔
        ∀ e, admission c ctx pool tx = .entry e → Spares c ctx fuel pool tx e) := by
  obtain ⟨status, pool', hrun, -⟩ := addTransaction_total c ctx fuel pool tx hfuel
  refine ⟨status, pool', hrun, ?_⟩
  cases fuel with
  | zero => cases hrun
  | succ fuel =>
      rcases admission_cases c ctx pool tx with
        ⟨status', hadm, hne⟩ | ⟨hok, r, -, ⟨-, hadm⟩ | ⟨e, -, hadm⟩⟩
      · -- the checks refuse it
        have hres : some (status', pool) = some (status, pool') := by
          rw [← hrun, addTransaction, addOne, hadm]
          cases status' with
          | accepted => exact absurd rfl hne
          | _ => rfl
        cases hres
        refine iff_of_true (reports_rejected hadm hne) fun e he => ?_
        rw [hadm] at he
        cases he
      · -- it waits for its parents
        rw [addTransaction, addOne, hadm] at hrun
        cases hrun
        refine iff_of_true (reports_orphan hs hok _ _) fun e he => ?_
        rw [hadm] at he
        cases he
      · have hcons := hs.admitted hadm
        obtain ⟨-, -, hone⟩ := admission_entry hadm
        have hin := lookup_admitted c pool tx e
        have hsone : (addOne c ctx pool tx).2.Sound c := hs.addOne
        have hall : (∀ e', admission c ctx pool tx = .entry e' →
            Spares c ctx (fuel + 1) pool tx e') ↔ Spares c ctx (fuel + 1) pool tx e := by
          refine ⟨fun h => h e hadm, fun h e' he' => ?_⟩
          rw [hadm] at he'
          cases he'
          exact h
        rw [hall]
        rcases hcons.trim_lookup hin with ⟨hkept, hroom⟩ | ⟨hgone, hroom⟩
        · -- it is in the pool when the orphans are promoted
          rw [hkept, Option.isSome_some, if_pos rfl] at hone
          have htail : (passes c ctx (fuel + 1) pool tx).tail =
              orphanPasses (passes c ctx fuel) (addTransaction c ctx fuel)
                (admitted c pool tx e).trimToLimits
                (waitingFor ctx (admitted c pool tx e).trimToLimits (tx.hash c)) := by
            rw [passes, hone, List.tail_cons]
          rw [addTransaction, hone] at hrun
          obtain ⟨pool'', hloop, heq⟩ := Option.map_eq_some_iff.mp hrun
          cases heq
          have horphans : (admitted c pool tx e).trimToLimits.orphans = pool.orphans :=
            (trimLoop_sameOrphans _ _).1
          have hnone : (admitted c pool tx e).trimToLimits.orphans.lookup (tx.hash c) = none := by
            rw [horphans]
            exact hok.notOrphan
          rw [hone] at hsone
          obtain ⟨-, hsettles⟩ := Settles.processOrphans (e := e)
            (Settles.addTransaction fuel) _ hsone hnone hloop
          have hstart : (admitted c pool tx e).trimToLimits.Kept (tx.hash c) e := ⟨hkept, hnone⟩
          rw [reports_accepted_iff hok.fresh]
          constructor
          · intro hstays
            refine ⟨fun _ => ?_, fun hno => absurd hroom hno⟩
            rw [htail]
            by_contra hnot
            rw [(hsettles.lost hstart hnot).txs] at hstays
            cases hstays
          · intro hspares
            have hpasses := hspares.room hroom
            rw [htail] at hpasses
            rw [(hsettles.kept hstart hpasses).entry]
            rfl
        · -- it is among those that are trimmed
          rw [hgone, Option.isSome_none, if_neg (by decide)] at hone
          rw [addTransaction, hone] at hrun
          cases hrun
          rw [reports_poolFull_iff hgone, full_unchanged_iff hs hadm hroom]
          exact ⟨fun hlow => ⟨fun h => absurd h hroom, fun _ => hlow⟩, fun h => h.noRoom hroom⟩

open Regtest in
/-- A payment that enters an empty pool. -/
theorem addTransaction_reports_payment : ∃ status pool',
    addTransaction crypto (context confirmed) 1 empty payment = some (status, pool') ∧
      Reports crypto payment empty pool' status := by
  obtain ⟨status, pool', hrun, hiff⟩ : ∃ status pool',
      addTransaction crypto (context confirmed) 1 empty payment = some (status, pool') ∧
        (Reports crypto payment empty pool' status ↔
          ∀ e, admission crypto (context confirmed) empty payment = .entry e →
            Spares crypto (context confirmed) 1 empty payment e) :=
    addTransaction_reports_iff sound_empty (Nat.lt_succ_self 0)
  have hone : (passes crypto (context confirmed) 1 empty payment).length = 1 := by decide +kernel
  refine ⟨status, pool', hrun, hiff.mpr fun e _ => ⟨fun _ x hx => ?_, fun _ k hk => by cases hk⟩⟩
  rw [passes_of_length hone] at hx
  cases hx

/-! ## A pool that makes room for nothing -/

section

open Regtest LocalMiner

theorem toNat_upper_half {v w x : Nat} (hv : v = w + w) (h : x < 2 ^ w) :
    (BitVec.extractLsb' w w (BitVec.ofNat v (x * 2 ^ w))).toNat = x := by
  subst hv
  have hsmall : x * 2 ^ w < 2 ^ (w + w) := by
    rw [Nat.pow_add]
    exact Nat.mul_lt_mul_of_pos_right h (Nat.two_pow_pos w)
  rw [BitVec.extractLsb'_toNat, BitVec.toNat_ofNat, Nat.mod_eq_of_lt hsmall,
    Nat.shiftRight_eq_div_pow, Nat.mul_div_cancel _ (Nat.two_pow_pos w), Nat.mod_eq_of_lt h]

theorem version_of_hash {tx tx' : Transaction} (h : tx.hash versionCrypto = tx'.hash versionCrypto) :
    tx.version = tx'.version := by
  have hfour : ∀ t : Transaction, t.serialize.take 4 = writeI32 t.version := by
    intro t
    rw [Transaction.serialize, List.append_assoc, List.append_assoc]
    exact List.take_left' (length_writeInt 4 _)
  have hlen : ∀ t : Transaction, (t.serialize.take 4).length = 4 := by
    intro t
    rw [hfour]
    exact length_writeInt 4 _
  have hnat : ∀ t : Transaction, (t.hash versionCrypto).toNat = fromBytes (t.serialize.take 4) := by
    intro t
    have hbound := fromBytes_lt (t.serialize.take 4)
    rw [hlen] at hbound
    have hlt : fromBytes (t.serialize.take 4) < 2 ^ 256 := Nat.lt_of_lt_of_le hbound (by decide)
    simp only [Transaction.hash, Crypto.hash256, Hash512.first, versionCrypto]
    exact toNat_upper_half rfl hlt
  have hbytes : writeI32 tx.version = writeI32 tx'.version := by
    rw [← hfour, ← hfour, ← toPaddedBytes_fromBytes (tx.serialize.take 4),
      ← toPaddedBytes_fromBytes (tx'.serialize.take 4), hlen, hlen, ← hnat, ← hnat, h]
  have hread := roundTrip_i32 tx.version []
  rw [hbytes, roundTrip_i32, Option.some.injEq, Prod.mk.injEq] at hread
  exact hread.1.symm

/-- The outputs that the payments spend. -/
def crowdCoins : Nat → UTXOSet
  | 0 => ∅
  | n + 1 => (crowdCoins n).insert ⟨500, UInt32.ofNat n⟩ ⟨⟨2000000, aliceCanonical⟩, 1, false⟩

def crowdContext (n : Nat) : Context :=
  { Regtest.context (crowdCoins n) with isStandardAddress := fun _ => true }

/-- The payment number `i` with another output. -/
def paying (i : Nat) (value : Int64) (script : Vec UInt8) : Transaction :=
  { widePayment i with outputs := ⟨[⟨value, script⟩], by simp⟩ }

/-- What the pool keeps of such a payment. -/
def payingEntry (i : Nat) (value : Int64) (script : Vec UInt8) (size : Nat) : TxEntry :=
  ⟨paying i value script, size, 2000000 - value, feeRate (2000000 - value) size, 0⟩

/-- A payment that pays little, and `n` large ones that pay more. -/
def crowd : Nat → Mempool
  | 0 => empty.insertEntry ((paying 3001 1999000 aliceCanonical).hash versionCrypto)
      (payingEntry 3001 1999000 aliceCanonical 224)
  | n + 1 => (crowd n).insertEntry ((widePayment n).hash versionCrypto) (wideEntry n)

theorem lookup_crowdCoins {n : Nat} : ∀ {m : Nat}, n < m →
    (crowdCoins m).lookup ⟨500, UInt32.ofNat n⟩ = some ⟨⟨2000000, aliceCanonical⟩, 1, false⟩
  | m + 1, hlt => by
      rw [crowdCoins, FinMap.lookup_insert_ite]
      split
      · rfl
      · next hne =>
          have hnm : n ≠ m := by
            rintro rfl
            exact hne rfl
          exact lookup_crowdCoins (by omega)

theorem blankSig_fits : (List.replicate 136 (0 : UInt8)).length < 2 ^ 64 := by simp

def blankSig : Vec UInt8 := ⟨List.replicate 136 0, blankSig_fits⟩

theorem inputs_paying (i : Nat) (value : Int64) (script : Vec UInt8) :
    (paying i value script).inputs.toList =
      [⟨⟨500, UInt32.ofNat i⟩, blankSig, 0xffffffff⟩] := rfl

theorem totalOutputValue_paying (i : Nat) (value : Int64) (script : Vec UInt8) :
    (paying i value script).totalOutputValue = value := by
  have houtputs : (paying i value script).outputs.toList = [⟨value, script⟩] := rfl
  rw [Transaction.totalOutputValue, houtputs, List.foldl_cons, List.foldl_nil, Int64.zero_add]

theorem resolveInputs_paying {pool : Mempool} {n i : Nat} {value : Int64} {script : Vec UInt8}
    (hi : i < n) : resolveInputs (crowdContext n) pool (paying i value script).inputs.toList []
      ⟨[], [], 0⟩ = .ok ⟨[⟨⟨2000000, aliceCanonical⟩, 1, false⟩], [], 2000000⟩ := by
  have hcoin : (crowdContext n).utxo.lookup ⟨500, UInt32.ofNat i⟩ =
      some ⟨⟨2000000, aliceCanonical⟩, 1, false⟩ := lookup_crowdCoins hi
  rw [inputs_paying, resolveInputs, if_neg List.not_mem_nil]
  simp only [hcoin]
  rw [resolveInputs]
  rfl

/-- Such a payment is admitted if it is new and its output is free. -/
theorem admission_paying {pool : Mempool} {n i size : Nat} {value : Int64} {script : Vec UInt8}
    (hi : i < n) (hsize : (paying i value script).serialize.length = size)
    (hmax : size ≤ Constants.maxStandardTxSizeBytes)
    (hstandard : outputsViolate (fun _ => true) false [⟨value, script⟩] = false)
    (hvalue : ¬ value < 0) (hfee : ¬ 2000000 - value < 0) (hmin : ¬ 2000000 - value < minFee size)
    (hfresh : pool.txs.lookup ((paying i value script).hash versionCrypto) = none)
    (horphans : pool.orphans = ∅)
    (hunspent : pool.spentOutpoints.lookup ⟨500, UInt32.ofNat i⟩ = none) :
    admission versionCrypto (crowdContext n) pool (paying i value script) =
      .entry (payingEntry i value script size) := by
  have hok : Admissible versionCrypto (crowdContext n) pool (paying i value script) := by
    refine ⟨?_, ?_, hfresh, ?_, ?_, ?_⟩
    · simp [Transaction.validateBasic, paying, widePayment, hvalue]
    · simp [Transaction.isCoinbase, paying, widePayment]
    · rw [horphans]
      rfl
    · have houtputs : outputsViolate (crowdContext n).isStandardAddress false
          (paying i value script).outputs.toList = false := hstandard
      rw [violatesStandardPolicy, hsize, houtputs]
      simp [paying, widePayment, Constants.maxStandardTxInputs, Constants.maxStandardTxOutputs,
        Constants.maxStandardScriptsigBytes]
      omega
    · rw [checkDoubleSpend, inputs_paying, List.any_cons, hunspent]
      rfl
  refine (admission_of_admissible hok (resolveInputs_paying hi)).2 _ ⟨rfl, ?_, ?_, ?_, ?_⟩
  · rw [totalOutputValue_paying]
    exact hfee
  · rw [hsize, totalOutputValue_paying]
    exact hmin
  · rw [inputs_paying, List.zip_cons_cons, inputsAuthorised, inputAuthorised]
    simp [versionCrypto, inputsAuthorised, blankSig]
  · rw [hsize, totalOutputValue_paying]
    rfl

/-- A call whose transaction is admitted, fits, and is waited for by nothing. -/
theorem addTransaction_of_entry {c : Crypto} {ctx : Context} {pool : Mempool} {tx : Transaction}
    {e : TxEntry} (h : admission c ctx pool tx = .entry e)
    (hlimits : (pool.insertEntry (tx.hash c) e).overLimits = false)
    (horphans : pool.orphansByParent = []) (fuel : Nat) :
    addTransaction c ctx (fuel + 1) pool tx = some (.accepted, pool.insertEntry (tx.hash c) e) := by
  have hin : (pool.insertEntry (tx.hash c) e).txs.lookup (tx.hash c) = some e :=
    Finmap.lookup_insert _
  have hone : addOne c ctx pool tx = (.accepted, pool.insertEntry (tx.hash c) e) := by
    rw [addOne, h]
    simp only [trimToLimits_of_withinLimits hlimits, hin, Option.isSome_some, if_true]
  have hnone : waitingFor ctx (pool.insertEntry (tx.hash c) e) (tx.hash c) = [] := by
    rw [waitingFor, insertEntry, horphans]
    exact (ctx.bucket_perm []).eq_nil
  rw [addTransaction, hone]
  simp only [hnone, processOrphans, Option.map_some]

theorem crowd_orphans : ∀ n, SameOrphans empty (crowd n)
  | 0 => ⟨rfl, rfl, rfl⟩
  | n + 1 => crowd_orphans n

theorem crowd_lookup {h : Hash256} {e : TxEntry} {n : Nat}
    (he : (crowd n).txs.lookup h = some e) :
      e = payingEntry 3001 1999000 aliceCanonical 224 ∨ ∃ i < n, e = wideEntry i := by
  induction n with
  | zero =>
      rw [crowd, insertEntry, FinMap.lookup_insert_ite] at he
      split at he
      · exact Or.inl (Option.some.inj he).symm
      · exact absurd he (by rw [empty]; exact Option.some_ne_none e ∘ Eq.symm)
  | succ n ih =>
      rw [crowd, insertEntry, FinMap.lookup_insert_ite] at he
      split at he
      · exact Or.inr ⟨n, Nat.lt_succ_self n, (Option.some.inj he).symm⟩
      · rcases ih he with hpoor | ⟨i, hi, hwide⟩
        · exact Or.inl hpoor
        · exact Or.inr ⟨i, Nat.lt_succ_of_lt hi, hwide⟩

/-- A payment with a later number is new to the pool. -/
theorem crowd_fresh {n m : Nat} (value : Int64) (script : Vec UInt8) (hnm : n ≤ m) (hm : m ≤ 3000)
    (hs : (crowd n).Consistent versionCrypto) :
    (crowd n).txs.lookup ((paying m value script).hash versionCrypto) = none ∧
      (crowd n).spentOutpoints.lookup ⟨500, UInt32.ofNat m⟩ = none := by
  have hindex : ∀ {h e}, (crowd n).txs.lookup h = some e → ∃ i ≤ 3001, i ≠ m ∧
      e.tx.version = Int32.ofNat (i + 1) ∧ 
      ∀ txin ∈ e.tx.inputs.toList, txin.prevout.index = UInt32.ofNat i := by
    intro h e he
    rcases crowd_lookup he with rfl | ⟨i, hi, rfl⟩
    · refine ⟨3001, Nat.le_refl _, by omega, rfl, fun txin htxin => ?_⟩
      rw [payingEntry, inputs_paying, List.mem_singleton] at htxin
      rw [htxin]
    · refine ⟨i, by omega, by omega, rfl, fun txin htxin => ?_⟩
      rw [wideEntry, widePayment, List.mem_singleton] at htxin
      rw [htxin]
  constructor
  · cases hlook : (crowd n).txs.lookup ((paying m value script).hash versionCrypto) with
    | none => rfl
    | some e =>
        obtain ⟨i, hi, hne, hversion, -⟩ := hindex hlook
        have hsame := version_of_hash (hs.id hlook)
        have hpaying : (paying m value script).version = Int32.ofNat (m + 1) := rfl
        rw [hversion, hpaying] at hsame
        have hint := congrArg Int32.toInt hsame
        rw [Int32.toInt_ofNat_of_lt (by omega), Int32.toInt_ofNat_of_lt (by omega)] at hint
        omega
  · cases hlook : (crowd n).spentOutpoints.lookup ⟨500, UInt32.ofNat m⟩ with
    | none => rfl
    | some h =>
        obtain ⟨e, he, txin, htxin, hprev⟩ := hs.spent.mp hlook
        obtain ⟨i, hi, hne, -, hall⟩ := hindex he
        have hsame := hall txin htxin
        rw [hprev] at hsame
        have hnat := congrArg UInt32.toNat hsame
        simp only [UInt32.toNat_ofNat'] at hnat
        omega

theorem length_paying (i : Nat) (value : Int64) (script : Vec UInt8) :
    (paying i value script).serialize.length =
      195 + (writeVarint script.toList.length).length + script.toList.length := by
  have hinputs : (paying i value script).inputs = (widePayment i).inputs := rfl
  rw [length_payment_to hinputs rfl, writeVec, writeBytes, List.length_append, Nat.add_assoc]

theorem length_paying_padded (i : Nat) (value : Int64) :
    (paying i value paddedAddress).serialize.length = 99988 := by
  have hscript := length_writeVec_padded
  rw [writeVec, writeBytes, List.length_append] at hscript
  rw [length_paying]
  omega

theorem wideEntry_eq (i : Nat) : wideEntry i = payingEntry i 1000000 paddedAddress 99988 := rfl

theorem widePayment_eq (i : Nat) : widePayment i = paying i 1000000 paddedAddress := rfl

theorem crowd_succ (n : Nat) : crowd (n + 1) = (crowd n).insertEntry
    ((paying n 1000000 paddedAddress).hash versionCrypto)
    (payingEntry n 1000000 paddedAddress 99988) := by
  rw [crowd, wideEntry_eq, widePayment_eq]

theorem crowd_totals (n : Nat) : (crowd n).totalBytes = 224 + n * 99988 ∧
    (crowd n).txs.keys.card ≤ n + 1 := by
  induction n with
  | zero => exact ⟨rfl, FinMap.card_keys_insert_le _ _ _⟩
  | succ n ih =>
      obtain ⟨hbytes, hcard⟩ := ih
      have hsucc : (crowd (n + 1)).totalBytes = (crowd n).totalBytes + 99988 := rfl
      refine ⟨by omega, Nat.le_trans (FinMap.card_keys_insert_le _ _ _) ?_⟩
      exact Nat.succ_le_succ hcard

theorem crowd_withinLimits {n : Nat} (hn : n ≤ 3000) : (crowd n).overLimits = false := by
  obtain ⟨hbytes, hcard⟩ := crowd_totals n
  rw [overLimits_eq_false_iff, hbytes, Constants.maxMempoolSizeBytes,
    Constants.maxMempoolTransactions]
  omega

theorem admission_padded {pool : Mempool} {i : Nat} {value : Int64} (hi : i < 3002)
    (hstandard : outputsViolate (fun _ => true) false [⟨value, paddedAddress⟩] = false)
    (hvalue : ¬ value < 0) (hfee : ¬ 2000000 - value < 0)
    (hmin : ¬ 2000000 - value < minFee 99988)
    (hfresh : pool.txs.lookup ((paying i value paddedAddress).hash versionCrypto) = none)
    (horphans : pool.orphans = ∅)
    (hunspent : pool.spentOutpoints.lookup ⟨500, UInt32.ofNat i⟩ = none) :
    admission versionCrypto (crowdContext 3002) pool (paying i value paddedAddress) =
      .entry (payingEntry i value paddedAddress 99988) :=
  admission_paying hi (length_paying_padded i value) (by decide) hstandard hvalue hfee hmin hfresh
    horphans hunspent

theorem crowd_step {n : Nat} (hn : n < 3000) (hs : (crowd n).Consistent versionCrypto) :
    addTransaction versionCrypto (crowdContext 3002) 1 (crowd n) (widePayment n) =
      some (.accepted, crowd (n + 1)) := by
  obtain ⟨horphans, -, hparents⟩ := crowd_orphans n
  obtain ⟨hfresh, hunspent⟩ := crowd_fresh 1000000 paddedAddress (Nat.le_refl n) (Nat.le_of_lt hn) hs
  have hadm : admission versionCrypto (crowdContext 3002) (crowd n)
      (paying n 1000000 paddedAddress) = .entry (payingEntry n 1000000 paddedAddress 99988) :=
    admission_padded (by omega) (by decide) (by decide) (by decide) (by decide)
      hfresh horphans hunspent
  have hlimits := crowd_withinLimits hn
  rw [crowd_succ] at hlimits ⊢
  exact addTransaction_of_entry hadm hlimits hparents 0

theorem crowd_start : addTransaction versionCrypto (crowdContext 3002) 1 empty
    (paying 3001 1999000 aliceCanonical) = some (.accepted, crowd 0) := by
  have hsize : (paying 3001 1999000 aliceCanonical).serialize.length = 224 := by
    rw [length_paying]
    rfl
  have hadm : admission versionCrypto (crowdContext 3002) empty
      (paying 3001 1999000 aliceCanonical) = .entry (payingEntry 3001 1999000 aliceCanonical 224) :=
    admission_paying (by omega) hsize (by decide)
    (by decide) (by decide) (by decide) (by decide) rfl rfl rfl
  exact addTransaction_of_entry hadm (crowd_withinLimits (Nat.zero_le _)) rfl 0

theorem crowd_reachable {n : Nat} (hn : n ≤ 3000) : Reachable versionCrypto .any (crowd n) := by
  induction n with
  | zero => exact .add .start trivial (fun _ _ => trivial) crowd_start
  | succ n ih =>
      have hbefore := ih (Nat.le_of_succ_le hn)
      exact .add hbefore trivial (fun _ _ => trivial)
        (crowd_step hn (sound_of_reachable hbefore).consistent)

/-- The payment that finds no room. -/
def middlePayment : Transaction := paying 3000 1500000 paddedAddress

def middleEntry : TxEntry := payingEntry 3000 1500000 paddedAddress 99988

def middleKey : FeeKey := middleEntry.key (middlePayment.hash versionCrypto)

def poorKey : FeeKey := (payingEntry 3001 1999000 aliceCanonical 224).key
  ((paying 3001 1999000 aliceCanonical).hash versionCrypto)

theorem crowd_consistent : (crowd 3000).Consistent versionCrypto :=
  (sound_of_reachable (crowd_reachable (Nat.le_refl 3000))).consistent

theorem middleKey_rate : middleKey.1 = 5000 := by decide

theorem poorKey_lt : FeeKey.lt poorKey middleKey = true := by
  have hpoor : poorKey.1 = 4464 := by decide
  rw [FeeKey.lt_iff, hpoor, middleKey_rate]
  exact Or.inl (by decide)

theorem poorKey_mem : ∀ n, poorKey ∈ (crowd n).sortedByFeerate
  | 0 => List.mem_singleton_self _
  | n + 1 => mem_insertKey.mpr (Or.inr (poorKey_mem n))

/-- Only the payment that pays little pays less. -/
theorem crowd_lower {k : FeeKey} (hk : k ∈ (crowd 3000).sortedByFeerate)
    (hlt : FeeKey.lt k middleKey = true) : k = poorKey ∧
      (crowd 3000).txs.lookup k.2.2 = some (payingEntry 3001 1999000 aliceCanonical 224) := by
  obtain ⟨e, he, hkey⟩ := crowd_consistent.sorted.mp hk
  have hid := crowd_consistent.id he
  rcases crowd_lookup he with rfl | ⟨i, -, rfl⟩
  · refine ⟨?_, he⟩
    rw [hkey, ← hid]
    rfl
  · have hrate : k.1 = feeRate 1000000 99988 := congrArg Prod.fst hkey
    have hwide : feeRate 1000000 99988 = 10001 := by decide
    rw [FeeKey.lt_iff, middleKey_rate, hrate, hwide] at hlt
    rcases hlt with hlt | ⟨heq, -⟩
    · exact absurd hlt (by decide)
    · exact absurd heq (by decide)

theorem admission_middle : admission versionCrypto (crowdContext 3002) (crowd 3000) middlePayment =
    .entry middleEntry := by
  obtain ⟨horphans, -, -⟩ := crowd_orphans 3000
  obtain ⟨hfresh, hunspent⟩ := crowd_fresh 1500000 paddedAddress (Nat.le_refl 3000)
    (Nat.le_refl 3000) crowd_consistent
  exact admission_padded (by omega) (by decide) (by decide) (by decide)
    (by decide) hfresh horphans hunspent

theorem middle_consistent :
    (admitted versionCrypto (crowd 3000) middlePayment middleEntry).Consistent versionCrypto :=
  (sound_of_reachable (crowd_reachable (Nat.le_refl 3000))).admitted admission_middle

/-- The payments that pay more fill the pool. -/
theorem middle_noRoom :
    ¬ (admitted versionCrypto (crowd 3000) middlePayment middleEntry).HasRoom middleKey := by
  rintro ⟨hbytes, -⟩
  have hcons := middle_consistent
  have hsize : middleEntry.size = 99988 := by rw [middleEntry, payingEntry]
  have htotal := totalBytes_admitted versionCrypto (crowd 3000) middlePayment middleEntry
  rw [hcons.totalBytes_eq, (crowd_totals 3000).1, hsize] at htotal
  have hsplit := ((List.filter_append_perm (fun k => !FeeKey.lt k middleKey)
    (admitted versionCrypto (crowd 3000) middlePayment middleEntry).sortedByFeerate).map
      (admitted versionCrypto (crowd 3000) middlePayment middleEntry).keySize).sum_eq
  rw [htotal, List.map_append, List.sum_append] at hsplit
  -- below the key there is the small one alone
  have hlower : ∀ k ∈ (admitted versionCrypto (crowd 3000) middlePayment
      middleEntry).sortedByFeerate.filter (fun k => !!FeeKey.lt k middleKey), k = poorKey ∧
        (admitted versionCrypto (crowd 3000) middlePayment middleEntry).keySize k = 224 := by
    intro k hk
    rw [List.mem_filter, Bool.not_not, sorted_admitted, mem_insertKey] at hk
    rcases hk.1 with hself | hold
    · have hlt : FeeKey.lt k k = true := by
        rw [← middleKey] at hself
        rw [hself]
        exact hself ▸ hk.2
      rw [FeeKey.lt_irrefl] at hlt
      cases hlt
    · obtain ⟨hpoor, hlook⟩ : k = poorKey ∧ (crowd 3000).txs.lookup k.2.2 =
          some (payingEntry 3001 1999000 aliceCanonical 224) := crowd_lower hold hk.2
      have hne : k.2.2 ≠ middlePayment.hash versionCrypto := by
        intro heq
        rw [heq, middlePayment, (crowd_fresh 1500000 paddedAddress (Nat.le_refl 3000) (Nat.le_refl 3000)
          crowd_consistent).1] at hlook
        cases hlook
      refine ⟨hpoor, ?_⟩
      rw [keySize, lookup_admitted_ne _ _ _ _ hne, hlook]
      rfl
  have hnodup := hcons.ascending.nodup.filter (fun k => !!FeeKey.lt k middleKey)
  have hsmall : (((admitted versionCrypto (crowd 3000) middlePayment
      middleEntry).sortedByFeerate.filter (fun k => !!FeeKey.lt k middleKey)).map
        (admitted versionCrypto (crowd 3000) middlePayment middleEntry).keySize).sum ≤ 224 := by
    revert hlower hnodup
    generalize (admitted versionCrypto (crowd 3000) middlePayment
      middleEntry).sortedByFeerate.filter (fun k => !!FeeKey.lt k middleKey) = low
    intro hlower hnodup
    match low with
    | [] => exact Nat.zero_le _
    | [k] =>
        rw [List.map_singleton, List.sum_singleton, (hlower k List.mem_cons_self).2]
    | k :: k' :: rest =>
        have hsame := (hlower k' (List.mem_cons_of_mem _ List.mem_cons_self)).1
        rw [← (hlower k List.mem_cons_self).1] at hsame
        rw [List.nodup_cons, hsame] at hnodup
        exact absurd List.mem_cons_self hnodup.1
  rw [Constants.maxMempoolSizeBytes] at hbytes
  rw [richer] at hbytes
  omega

/-- A pool is full, and makes room before it refuses a payment. -/
theorem not_reports_middle : ¬ ∀ (c : Crypto) (ctx : Context) (pool pool' : Mempool)
    (tx : Transaction) (fuel : Nat) (status : AcceptStatus), Reachable c .any pool →
      addTransaction c ctx fuel pool tx = some (status, pool') →
      Reports c tx pool pool' status := by
  intro h
  have hreach := crowd_reachable (Nat.le_refl 3000)
  obtain ⟨-, -, hone⟩ := admission_entry admission_middle
  have hin : (admitted versionCrypto (crowd 3000) middlePayment middleEntry).txs.lookup
      (middlePayment.hash versionCrypto) = some middleEntry := lookup_admitted _ _ _ _
  rcases middle_consistent.trim_lookup hin with ⟨-, hroom⟩ | ⟨hgone, -⟩
  · exact middle_noRoom hroom
  · rw [hgone, Option.isSome_none, if_neg (by decide)] at hone
    have hrun : addTransaction versionCrypto (crowdContext 3002) 1 (crowd 3000) middlePayment =
        some (.poolFull, (admitted versionCrypto (crowd 3000) middlePayment
          middleEntry).trimToLimits) := by
      rw [addTransaction, hone]
    have hsame := (h _ _ _ _ _ _ _ hreach hrun).refused (by decide) (by decide)
    have hlow := (full_unchanged_iff (sound_of_reachable hreach) admission_middle
      middle_noRoom).mp hsame poorKey (poorKey_mem 3000)
    have hlt : FeeKey.lt poorKey (middleEntry.key (middlePayment.hash versionCrypto)) = true :=
      poorKey_lt
    rw [hlt] at hlow
    cases hlow

end

end Mempool

end Cryptex
