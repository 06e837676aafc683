import Cryptex.Regtest

/-!
# The redundant structures of the mempool

`sorted_by_feerate_`, `total_bytes_`, `spent_outpoints_` and the two orphan
lists repeat what `txs_` and `orphans_` hold. `Consistent` says that they
agree and that the limits hold; every operation preserves it.
-/

namespace Cryptex

namespace Mempool

/-! ## The order of the keys -/

theorem FeeKey.lt_iff {a b : FeeKey} : FeeKey.lt a b = true ↔
    a.1.toInt < b.1.toInt ∨ (a.1.toInt = b.1.toInt ∧ (a.2.1.toInt < b.2.1.toInt ∨
      (a.2.1.toInt = b.2.1.toInt ∧ a.2.2.toNat < b.2.2.toNat))) := by
  simp only [FeeKey.lt, Bool.or_eq_true, Bool.and_eq_true, decide_eq_true_eq,
    Int64.lt_iff_toInt_lt, Int64.toInt_inj]

theorem FeeKey.lt_irrefl (a : FeeKey) : FeeKey.lt a a = false := by
  rw [Bool.eq_false_iff]
  intro h
  rw [FeeKey.lt_iff] at h
  omega

theorem FeeKey.lt_trans {a b d : FeeKey} (hab : FeeKey.lt a b = true)
    (hbd : FeeKey.lt b d = true) : FeeKey.lt a d = true := by
  rw [FeeKey.lt_iff] at *
  omega

theorem FeeKey.lt_of_not {a b : FeeKey} (hlt : ¬ FeeKey.lt a b = true) (hne : a ≠ b) :
    FeeKey.lt b a = true := by
  rw [FeeKey.lt_iff] at *
  by_contra hnot
  refine hne (Prod.ext (Int64.toInt_inj.mp (by omega))
    (Prod.ext (Int64.toInt_inj.mp (by omega)) (BitVec.eq_of_toNat_eq (by omega))))

/-- The keys ascend, so that none is there twice. -/
abbrev Ascending (l : List FeeKey) : Prop := l.Pairwise fun a b => FeeKey.lt a b = true

theorem Ascending.nodup {l : List FeeKey} (h : Ascending l) : l.Nodup := by
  refine h.imp fun {a b} hab heq => ?_
  rw [heq, FeeKey.lt_irrefl] at hab
  cases hab

theorem mem_insertKey {k x : FeeKey} : ∀ {l : List FeeKey}, x ∈ insertKey k l ↔ x = k ∨ x ∈ l
  | [] => by simp [insertKey]
  | y :: l => by
      rw [insertKey]
      split
      · simp
      · split
        · next heq => simp [heq]
        · simp only [List.mem_cons, mem_insertKey (l := l)]
          tauto

theorem Ascending.insertKey (k : FeeKey) : ∀ {l : List FeeKey}, Ascending l →
    Ascending (Mempool.insertKey k l)
  | [], _ => List.pairwise_singleton _ _
  | y :: l, h => by
      obtain ⟨hy, hl⟩ := List.pairwise_cons.mp h
      rw [Mempool.insertKey]
      split
      · next hlt =>
          refine List.pairwise_cons.mpr ⟨fun x hx => ?_, h⟩
          rcases List.mem_cons.mp hx with rfl | hx
          · exact hlt
          · exact FeeKey.lt_trans hlt (hy x hx)
      · next hlt =>
          split
          · exact h
          · next hne =>
              refine List.pairwise_cons.mpr ⟨fun x hx => ?_, Ascending.insertKey k hl⟩
              rcases mem_insertKey.mp hx with rfl | hx
              · exact FeeKey.lt_of_not hlt hne
              · exact hy x hx

/-! ## Consistency -/

/-- The structures that repeat `txs_` agree with it. -/
structure Consistent (c : Crypto) (pool : Mempool) : Prop where
  id : ∀ {h e}, pool.txs.lookup h = some e → e.tx.hash c = h
  ascending : Ascending pool.sortedByFeerate
  sorted : ∀ {k}, k ∈ pool.sortedByFeerate ↔
    ∃ e, pool.txs.lookup k.2.2 = some e ∧ k = e.key k.2.2
  bytes : (pool.totalBytes : Int) = pool.txs.sumBy fun e => e.size
  spent : ∀ {o h}, pool.spentOutpoints.lookup o = some h ↔
    ∃ e, pool.txs.lookup h = some e ∧ ∃ txin ∈ e.tx.inputs.toList, txin.prevout = o

/-- The orphan list holds the orphans, each once, and no more than allowed. -/
structure OrphansOk (c : Crypto) (pool : Mempool) : Prop where
  id : ∀ {h e}, pool.orphans.lookup h = some e → e.tx.hash c = h
  nodup : pool.orphanOrder.Nodup
  mem : ∀ {h}, h ∈ pool.orphanOrder ↔ ∃ e, pool.orphans.lookup h = some e
  bound : pool.orphanOrder.length ≤ Constants.maxMempoolOrphans

/-- All of it, with the limits of the pool. -/
structure Sound (c : Crypto) (pool : Mempool) : Prop where
  consistent : pool.Consistent c
  withinLimits : pool.overLimits = false
  orphansOk : pool.OrphansOk c

variable {c : Crypto} {ctx : Context} {pool : Mempool} {tx : Transaction}

theorem sound_empty : Sound c empty := by
  refine ⟨⟨?_, .nil, ?_, rfl, ?_⟩, rfl, ⟨?_, .nil, ?_, by decide⟩⟩ <;> intros <;>
    simp_all [empty]

/-! ## Insertion and removal -/

theorem lookup_foldl_insert {txHash : Hash256} {o : OutPoint} {h : Hash256} :
    ∀ {ins : List TxIn} {m : FinMap OutPoint Hash256},
      (ins.foldl (fun m txin => m.insert txin.prevout txHash) m).lookup o = some h ↔
        (h = txHash ∧ ∃ txin ∈ ins, txin.prevout = o) ∨
          ((∀ txin ∈ ins, txin.prevout ≠ o) ∧ m.lookup o = some h)
  | [], m => by simp
  | i :: ins, m => by
      rw [List.foldl_cons, lookup_foldl_insert, FinMap.lookup_insert_ite]
      by_cases ho : o = i.prevout
      · subst ho
        simp only [if_true, Option.some.injEq, List.mem_cons, exists_eq_or_imp, true_or, and_true,
          forall_eq_or_imp, ne_eq, not_true_eq_false, false_and, or_false]
        constructor
        · rintro (⟨rfl, -⟩ | ⟨-, rfl⟩) <;> rfl
        · rintro rfl
          by_cases hex : ∃ txin ∈ ins, txin.prevout = i.prevout
          · exact Or.inl ⟨rfl, hex⟩
          · exact Or.inr ⟨fun txin htxin heq => hex ⟨txin, htxin, heq⟩, rfl⟩
      · have hne : ¬ i.prevout = o := fun heq => ho heq.symm
        simp [if_neg ho, hne]

/-- A transaction that is fresh and spends nothing the pool spends. -/
theorem Consistent.insertEntry (hs : pool.Consistent c) {e : TxEntry}
    (hfresh : pool.txs.lookup (e.tx.hash c) = none)
    (hunspent : ∀ txin ∈ e.tx.inputs.toList, pool.spentOutpoints.lookup txin.prevout = none) :
    (pool.insertEntry (e.tx.hash c) e).Consistent c := by
  refine ⟨?_, hs.ascending.insertKey _, ?_, ?_, ?_⟩
  · intro h e' he'
    simp only [Mempool.insertEntry, FinMap.lookup_insert_ite] at he'
    split at he'
    · next heq => cases he'; exact heq.symm
    · exact hs.id he'
  · intro k
    simp only [Mempool.insertEntry, FinMap.lookup_insert_ite]
    rw [mem_insertKey, hs.sorted]
    by_cases hk : k.2.2 = e.tx.hash c
    · simp only [if_pos hk, Option.some.injEq, exists_eq_left']
      constructor
      · rintro (rfl | ⟨e', he', -⟩)
        · rfl
        · rw [hk, hfresh] at he'
          cases he'
      · intro heq
        exact Or.inl (by rw [heq, hk])
    · simp only [if_neg hk]
      constructor
      · rintro (rfl | h)
        · exact absurd rfl hk
        · exact h
      · exact Or.inr
  · simp only [Mempool.insertEntry]
    rw [FinMap.sumBy_insert_of_lookup_none _ _ hfresh, Nat.cast_add, hs.bytes]
    omega
  · intro o h
    simp only [Mempool.insertEntry, FinMap.lookup_insert_ite]
    rw [lookup_foldl_insert, hs.spent]
    by_cases hh : h = e.tx.hash c
    · subst hh
      simp only [if_true, Option.some.injEq, exists_eq_left', true_and]
      constructor
      · rintro (hin | ⟨-, e', he', -⟩)
        · exact hin
        · rw [hfresh] at he'
          cases he'
      · exact Or.inl
    · simp only [if_neg hh]
      constructor
      · rintro (⟨heq, -⟩ | ⟨-, hold⟩)
        · exact absurd heq hh
        · exact hold
      · intro hold
        refine Or.inr ⟨fun txin htxin heq => ?_, hold⟩
        have hspent := hs.spent.mpr hold
        rw [← heq, hunspent txin htxin] at hspent
        cases hspent

theorem lookup_foldl_release {txHash : Hash256} {o : OutPoint} {h : Hash256} :
    ∀ {ins : List TxIn} {m : FinMap OutPoint Hash256},
      (ins.foldl (fun m txin => if m.lookup txin.prevout = some txHash then m.erase txin.prevout
        else m) m).lookup o = some h ↔
        m.lookup o = some h ∧ (h = txHash → ∀ txin ∈ ins, txin.prevout ≠ o)
  | [], m => by simp
  | i :: ins, m => by
      rw [List.foldl_cons, lookup_foldl_release]
      have hone : (if m.lookup i.prevout = some txHash then m.erase i.prevout else m).lookup o
          = some h ↔ m.lookup o = some h ∧ (h = txHash → i.prevout ≠ o) := by
        split
        · next hi =>
            rw [FinMap.lookup_erase_ite]
            split
            · next ho =>
                subst ho
                constructor
                · intro hfalse; cases hfalse
                · rintro ⟨hm, hne⟩
                  rw [hi] at hm
                  cases hm
                  exact absurd rfl (hne rfl)
            · next ho =>
                constructor
                · intro hm; exact ⟨hm, fun _ heq => ho heq.symm⟩
                · exact And.left
        · next hi =>
            constructor
            · intro hm
              refine ⟨hm, ?_⟩
              rintro rfl heq
              rw [heq] at hi
              exact hi hm
            · exact And.left
      rw [hone]
      simp only [List.mem_cons, forall_eq_or_imp]
      tauto

theorem Consistent.removeTransaction (hs : pool.Consistent c) (txHash : Hash256) :
    (pool.removeTransaction txHash).Consistent c := by
  unfold Mempool.removeTransaction
  cases hlook : pool.txs.lookup txHash with
  | none => exact hs
  | some e =>
      have hid := hs.id hlook
      refine ⟨?_, hs.ascending.sublist (List.erase_sublist ..), ?_, ?_, ?_⟩
      · intro h e' he'
        simp only [FinMap.lookup_erase_ite] at he'
        split at he'
        · cases he'
        · exact hs.id he'
      · intro k
        simp only [FinMap.lookup_erase_ite]
        rw [hs.ascending.nodup.mem_erase_iff, hs.sorted]
        by_cases hk : k.2.2 = txHash
        · simp only [if_pos hk]
          constructor
          · rintro ⟨hne, e', he', heq⟩
            rw [hk, hlook] at he'
            cases he'
            exact absurd (heq.trans (by rw [hk])) hne
          · rintro ⟨e', he', -⟩
            cases he'
        · simp only [if_neg hk]
          constructor
          · exact And.right
          · intro h
            exact ⟨fun heq => hk (by rw [heq]; rfl), h⟩
      · have herase := FinMap.sumBy_erase (fun e : TxEntry => (e.size : Int)) hlook
        have hnn : FinMap.AllValues (fun e : TxEntry => 0 ≤ (e.size : Int)) pool.txs :=
          fun _ _ _ => Int.natCast_nonneg _
        have hle := FinMap.le_sumBy hnn hlook
        have hbytes := hs.bytes
        simp only
        omega
      · intro o h
        rw [lookup_foldl_release, hs.spent]
        simp only [FinMap.lookup_erase_ite]
        by_cases hh : h = txHash
        · subst hh
          simp only [hlook, Option.some.injEq, exists_eq_left', true_implies, if_true]
          constructor
          · rintro ⟨⟨txin, htxin, heq⟩, hnot⟩
            exact absurd heq (hnot txin htxin)
          · rintro ⟨e', he', -⟩
            cases he'
        · simp only [if_neg hh]
          constructor
          · exact And.left
          · intro h'
            exact ⟨h', fun heq => absurd heq hh⟩

/-! ## Trimming -/

theorem Consistent.trimLoop : ∀ {fuel : Nat} {pool : Mempool}, pool.Consistent c →
    (Mempool.trimLoop fuel pool).Consistent c
  | 0, _, hs => hs
  | fuel + 1, pool, hs => by
      rw [Mempool.trimLoop]
      split
      · exact hs
      · split
        · exact (hs.removeTransaction _).trimLoop
        · exact hs

theorem overLimits_of_empty (hs : pool.Consistent c) (h : pool.sortedByFeerate = []) :
    pool.overLimits = false := by
  have hnone : ∀ k, pool.txs.lookup k = none := by
    intro k
    cases hk : pool.txs.lookup k with
    | none => rfl
    | some e =>
        have hmem : e.key k ∈ pool.sortedByFeerate := hs.sorted.mpr ⟨e, hk, rfl⟩
        rw [h] at hmem
        cases hmem
  have hempty : pool.txs = ∅ := Finmap.ext_lookup fun k => by
    rw [hnone, Finmap.lookup_empty]
  have hbytes := hs.bytes
  rw [hempty, FinMap.sumBy_empty] at hbytes
  rw [overLimits, hempty, show pool.totalBytes = 0 by omega]
  rfl

/-- A round for every key brings the pool within its limits. -/
theorem trimLoop_withinLimits : ∀ {fuel : Nat} {pool : Mempool}, pool.Consistent c →
    pool.sortedByFeerate.length ≤ fuel → (Mempool.trimLoop fuel pool).overLimits = false
  | 0, pool, hs, hfuel => by
      exact overLimits_of_empty hs (List.eq_nil_of_length_eq_zero (Nat.le_zero.mp hfuel))
  | fuel + 1, pool, hs, hfuel => by
      rw [Mempool.trimLoop]
      split
      · next hnil => exact overLimits_of_empty hs hnil
      · next k rest hcons =>
          split
          · refine trimLoop_withinLimits (hs.removeTransaction _) ?_
            obtain ⟨e, he, hk⟩ := hs.sorted.mp (hcons ▸ List.mem_cons_self : k ∈ pool.sortedByFeerate)
            have hlen : (pool.removeTransaction k.2.2).sortedByFeerate.length
                = pool.sortedByFeerate.length - 1 := by
              unfold Mempool.removeTransaction
              rw [he]
              simp only
              rw [← hk, List.length_erase_of_mem (by rw [hcons]; exact List.mem_cons_self)]
            omega
          · next hover => exact Bool.not_eq_true _ ▸ hover

/-! ## Orphans -/

/-- An operation on the pool proper leaves the orphans alone. -/
def SameOrphans (pool pool' : Mempool) : Prop :=
  pool'.orphans = pool.orphans ∧ pool'.orphanOrder = pool.orphanOrder ∧
    pool'.orphansByParent = pool.orphansByParent

/-- An operation on the orphans leaves the pool proper alone. -/
def SamePool (pool pool' : Mempool) : Prop :=
  pool' = { pool with
    orphans := pool'.orphans
    orphansByParent := pool'.orphansByParent
    orphanOrder := pool'.orphanOrder }

theorem removeTransaction_sameOrphans (pool : Mempool) (txHash : Hash256) :
    SameOrphans pool (pool.removeTransaction txHash) := by
  unfold removeTransaction
  split <;> exact ⟨rfl, rfl, rfl⟩

theorem trimLoop_sameOrphans : ∀ (fuel : Nat) (pool : Mempool),
    SameOrphans pool (trimLoop fuel pool)
  | 0, _ => ⟨rfl, rfl, rfl⟩
  | fuel + 1, pool => by
      rw [trimLoop]
      split
      · exact ⟨rfl, rfl, rfl⟩
      · split
        · obtain ⟨h₁, h₂, h₃⟩ := removeTransaction_sameOrphans pool _
          obtain ⟨g₁, g₂, g₃⟩ := trimLoop_sameOrphans fuel _
          exact ⟨g₁.trans h₁, g₂.trans h₂, g₃.trans h₃⟩
        · exact ⟨rfl, rfl, rfl⟩

theorem OrphansOk.congr {pool' : Mempool} (h : SameOrphans pool pool') (hs : pool.OrphansOk c) :
    pool'.OrphansOk c := by
  obtain ⟨h₁, h₂, -⟩ := h
  constructor
  · rw [h₁]; exact hs.id
  · rw [h₂]; exact hs.nodup
  · rw [h₁, h₂]; exact hs.mem
  · rw [h₂]; exact hs.bound

theorem removeOrphan_samePool (txHash : Hash256) : SamePool pool (pool.removeOrphan txHash) := by
  unfold removeOrphan
  split <;> rfl

theorem SamePool.consistent {pool' : Mempool} (h : SamePool pool pool') (hs : pool.Consistent c) :
    pool'.Consistent c := by
  rw [h]
  exact ⟨hs.id, hs.ascending, hs.sorted, hs.bytes, hs.spent⟩

theorem SamePool.overLimits {pool' : Mempool} (h : SamePool pool pool') :
    pool'.overLimits = pool.overLimits := by
  rw [h]
  rfl

theorem OrphansOk.removeOrphan (hs : pool.OrphansOk c) (txHash : Hash256) :
    (pool.removeOrphan txHash).OrphansOk c := by
  unfold Mempool.removeOrphan
  split
  · exact hs
  · refine ⟨?_, hs.nodup.filter _, ?_, ?_⟩
    · intro h e he
      simp only [FinMap.lookup_erase_ite] at he
      split at he
      · cases he
      · exact hs.id he
    · intro h
      simp only [List.mem_filter, decide_eq_true_eq, FinMap.lookup_erase_ite, hs.mem]
      by_cases hh : h = txHash
      · simp [hh]
      · simp [hh]
    · exact Nat.le_trans (List.length_filter_le _ _) hs.bound

/-- The oldest orphan leaves both lists. -/
theorem OrphansOk.evict (hs : pool.OrphansOk c) {evict : Hash256} {rest : List Hash256}
    (horder : pool.orphanOrder = evict :: rest) :
    (({ pool with orphanOrder := rest } : Mempool).removeOrphan evict).OrphansOk c ∧
      (({ pool with orphanOrder := rest } : Mempool).removeOrphan evict).orphanOrder = rest := by
  have hnd := hs.nodup
  rw [horder, List.nodup_cons] at hnd
  obtain ⟨e, he⟩ := hs.mem.mp (horder ▸ List.mem_cons_self)
  have hfilter : rest.filter (· ≠ evict) = rest := by
    rw [List.filter_eq_self]
    intro h hh
    simp only [decide_eq_true_eq]
    rintro rfl
    exact hnd.1 hh
  have hval : ({ pool with orphanOrder := rest } : Mempool).removeOrphan evict
      = { pool with
          orphans := pool.orphans.erase evict
          orphanOrder := rest
          orphansByParent := pool.orphansByParent.filter (·.2 ≠ evict) } := by
    rw [Mempool.removeOrphan]
    simp only [he, hfilter]
  rw [hval]
  refine ⟨⟨?_, hnd.2, ?_, ?_⟩, rfl⟩
  · intro h e' he'
    simp only [FinMap.lookup_erase_ite] at he'
    split at he'
    · cases he'
    · exact hs.id he'
  · intro h
    have hmem := hs.mem (h := h)
    rw [horder, List.mem_cons] at hmem
    simp only [FinMap.lookup_erase_ite]
    by_cases hh : h = evict
    · subst hh
      simp [hnd.1]
    · simp only [hh, false_or] at hmem
      simp [hh, hmem]
  · have hb := hs.bound
    rw [horder, List.length_cons] at hb
    simp only
    omega

/-- Eviction makes room for one orphan. -/
theorem OrphansOk.evictOrphans : ∀ {fuel : Nat} {pool : Mempool}, pool.OrphansOk c →
    pool.orphanOrder.length ≤ fuel →
    (Mempool.evictOrphans fuel pool).OrphansOk c ∧
      (Mempool.evictOrphans fuel pool).orphanOrder.length < Constants.maxMempoolOrphans ∧
      SamePool pool (Mempool.evictOrphans fuel pool) ∧
      ∀ h, pool.orphans.lookup h = none → (Mempool.evictOrphans fuel pool).orphans.lookup h = none
  | 0, pool, hs, hfuel => by
      refine ⟨hs, ?_, rfl, fun _ h => h⟩
      rw [Mempool.evictOrphans, Nat.le_zero.mp hfuel]
      decide
  | fuel + 1, pool, hs, hfuel => by
      rw [Mempool.evictOrphans]
      split
      · next hnil =>
          refine ⟨hs, ?_, rfl, fun _ h => h⟩
          rw [hnil]
          decide
      · next evict rest horder =>
          split
          · obtain ⟨hok, hrest⟩ := hs.evict horder
            have hlen : (({ pool with orphanOrder := rest } : Mempool).removeOrphan
                evict).orphanOrder.length ≤ fuel := by
              rw [hrest]
              rw [horder, List.length_cons] at hfuel
              omega
            obtain ⟨h₁, h₂, h₃, h₄⟩ := hok.evictOrphans hlen
            have hsame : SamePool pool
                (({ pool with orphanOrder := rest } : Mempool).removeOrphan evict) := by
              unfold Mempool.removeOrphan
              split <;> rfl
            refine ⟨h₁, h₂, ?_, fun h hnone => h₄ h ?_⟩
            · rw [SamePool] at h₃ hsame ⊢
              rw [h₃, hsame]
            · unfold Mempool.removeOrphan
              split
              · exact hnone
              · simp only [FinMap.lookup_erase_ite]
                split
                · rfl
                · exact hnone
          · next hlt => exact ⟨hs, by omega, rfl, fun _ h => h⟩

theorem OrphansOk.addOrphan (hs : pool.OrphansOk c) (tx : Transaction) (now : Nat)
    (missing : List Hash256) :
    (pool.addOrphan (tx.hash c) ⟨tx, now⟩ missing).OrphansOk c ∧
      SamePool pool (pool.addOrphan (tx.hash c) ⟨tx, now⟩ missing) := by
  unfold Mempool.addOrphan
  split
  · exact ⟨hs, rfl⟩
  · next hnew =>
      obtain ⟨hok, hlt, hsame, hnone⟩ := hs.evictOrphans (Nat.le_refl _)
      have hnew' := hnone (tx.hash c) (by simpa using hnew)
      generalize Mempool.evictOrphans pool.orphanOrder.length pool = t at hok hlt hsame hnew'
      refine ⟨⟨?_, ?_, ?_, ?_⟩, ?_⟩
      · intro h e he
        simp only [FinMap.lookup_insert_ite] at he
        split at he
        · next heq => cases he; exact heq.symm
        · exact hok.id he
      · refine List.nodup_append.mpr ⟨hok.nodup, List.nodup_singleton _, ?_⟩
        intro a ha b hb
        rw [List.mem_singleton] at hb
        rintro rfl
        obtain ⟨e, he⟩ := hok.mem.mp ha
        rw [hb, hnew'] at he
        cases he
      · intro h
        simp only [List.mem_append, List.mem_singleton, hok.mem, FinMap.lookup_insert_ite]
        by_cases hh : h = tx.hash c
        · simp [hh]
        · simp [hh]
      · rw [List.length_append, List.length_singleton]
        exact hlt
      · rw [SamePool] at hsame
        simp only [SamePool]
        rw [hsame]

/-! ## One transaction -/

theorem checkDoubleSpend_false {tx : Transaction} (h : checkDoubleSpend pool tx = false) :
    ∀ txin ∈ tx.inputs.toList, pool.spentOutpoints.lookup txin.prevout = none := by
  intro txin htxin
  have hnone := List.any_eq_false.mp h txin htxin
  simpa using hnone

/-- What one pass over a transaction can do. -/
theorem addOne_cases (c : Crypto) (ctx : Context) (pool : Mempool) (tx : Transaction) :
    (∃ status, addOne c ctx pool tx = (status, pool) ∧ status ≠ .accepted) ∨
      (Admissible c ctx pool tx ∧ ∃ r,
        resolveInputs ctx pool tx.inputs.toList [] ⟨[], [], 0⟩ = .ok r ∧
        ((r.missing ≠ [] ∧ addOne c ctx pool tx
            = (.missingInputs, pool.addOrphan (tx.hash c) ⟨tx, ctx.now⟩ r.missing)) ∨
          ∃ e, Admits c ctx tx r e ∧
            (addOne c ctx pool tx).2 = trimToLimits (pool.insertEntry (tx.hash c) e) ∧
            ((addOne c ctx pool tx).1 = .accepted ∨ (addOne c ctx pool tx).1 = .poolFull))) := by
  unfold addOne
  rcases admission_cases c ctx pool tx with ⟨status, hadm, hne⟩ | ⟨hok, r, hres, hcase⟩
  · rw [hadm]
    exact Or.inl ⟨status, rfl, hne⟩
  · right
    refine ⟨hok, r, hres, ?_⟩
    rcases hcase with ⟨hmissing, hadm⟩ | ⟨e, he, hadm⟩
    · rw [hadm]
      exact Or.inl ⟨hmissing, rfl⟩
    · rw [hadm]
      refine Or.inr ⟨e, he, ?_⟩
      simp only
      split
      · exact ⟨rfl, Or.inl rfl⟩
      · exact ⟨rfl, Or.inr rfl⟩

theorem Consistent.admit (hs : pool.Consistent c) (hok : Admissible c ctx pool tx)
    {r : Resolution} {e : TxEntry} (he : Admits c ctx tx r e) :
    (pool.insertEntry (tx.hash c) e).Consistent c := by
  have htx : e.tx = tx := by rw [he.entry]
  rw [← htx]
  refine hs.insertEntry (by rw [htx]; exact hok.fresh) ?_
  rw [htx]
  exact checkDoubleSpend_false hok.unspent

theorem Sound.addOne (hs : pool.Sound c) : (Mempool.addOne c ctx pool tx).2.Sound c := by
  rcases addOne_cases c ctx pool tx with ⟨status, heq, -⟩ | ⟨hok, r, hres, hcase⟩
  · rw [heq]
    exact hs
  · rcases hcase with ⟨-, heq⟩ | ⟨e, he, heq, -⟩
    · obtain ⟨horphans, hsame⟩ := hs.orphansOk.addOrphan tx ctx.now r.missing
      rw [heq]
      exact ⟨hsame.consistent hs.consistent, hsame.overLimits.trans hs.withinLimits, horphans⟩
    · have hins := hs.consistent.admit hok he
      rw [heq]
      have hsame : SameOrphans pool (pool.insertEntry (tx.hash c) e) := ⟨rfl, rfl, rfl⟩
      exact ⟨hins.trimLoop, trimLoop_withinLimits hins (Nat.le_refl _),
        (hs.orphansOk.congr hsame).congr (trimLoop_sameOrphans _ _)⟩

theorem Sound.removeOrphan (hs : pool.Sound c) (txHash : Hash256) :
    (pool.removeOrphan txHash).Sound c :=
  have hsame : SamePool pool (pool.removeOrphan txHash) := removeOrphan_samePool txHash
  ⟨hsame.consistent hs.consistent, hsame.overLimits.trans hs.withinLimits,
    hs.orphansOk.removeOrphan txHash⟩

/-! ## The passes of a call -/

section

variable (c : Crypto) (ctx : Context)

/-- The passes over the orphans of a list, given those of one transaction. -/
def orphanPasses (passes : Mempool → Transaction → List (Mempool × Transaction))
    (add : Mempool → Transaction → Option (AcceptStatus × Mempool)) :
    Mempool → List Hash256 → List (Mempool × Transaction)
  | _, [] => []
  | pool, k :: ready =>
      match pool.orphans.lookup k with
      | none => orphanPasses passes add pool ready
      | some e =>
          passes (pool.removeOrphan k) e.tx ++
            match add (pool.removeOrphan k) e.tx with
            | none => []
            | some (_, pool) => orphanPasses passes add pool ready

/-- The passes that a call of `add_transaction` makes: each transaction it
looks at, with the pool before. -/
def passes : Nat → Mempool → Transaction → List (Mempool × Transaction)
  | 0, _, _ => []
  | fuel + 1, pool, tx =>
      (pool, tx) ::
        match addOne c ctx pool tx with
        | (.accepted, pool) =>
            orphanPasses (passes fuel) (addTransaction c ctx fuel) pool
              (waitingFor ctx pool (tx.hash c))
        | _ => []

end

section

variable {I : Mempool → Prop} {Q : Mempool → Transaction → Prop}

theorem processOrphans_rule
    {steps : Mempool → Transaction → List (Mempool × Transaction)}
    {add : Mempool → Transaction → Option (AcceptStatus × Mempool)}
    (hadd : ∀ pool tx status pool', I pool → (∀ x ∈ steps pool tx, Q x.1 x.2) →
      add pool tx = some (status, pool') → I pool')
    (horphan : ∀ pool h, I pool → I (pool.removeOrphan h)) :
    ∀ (ready : List Hash256) {pool pool' : Mempool}, I pool →
      (∀ x ∈ orphanPasses steps add pool ready, Q x.1 x.2) →
      processOrphans add pool ready = some pool' → I pool' := by
  intro ready
  induction ready with
  | nil =>
      intro pool pool' hpool _ h
      cases h
      exact hpool
  | cons k ready ih =>
      intro pool pool' hpool hok h
      rw [processOrphans] at h
      rw [orphanPasses] at hok
      cases hk : pool.orphans.lookup k with
      | none =>
          rw [hk] at h hok
          exact ih hpool hok h
      | some e =>
          rw [hk] at h hok
          simp only at h hok
          cases hacc : add (pool.removeOrphan k) e.tx with
          | none => rw [hacc] at h; cases h
          | some res =>
              obtain ⟨status, t⟩ := res
              rw [hacc] at h hok
              simp only at h hok
              have ht : I t := hadd _ _ status t (horphan pool k hpool)
                (fun x hx => hok x (List.mem_append_left _ hx)) hacc
              exact ih ht (fun x hx => hok x (List.mem_append_right _ hx)) h

/-- What every pass of a call preserves, and dropping an orphan too, the call
preserves. -/
theorem addTransaction_rule
    (hstep : ∀ pool tx, I pool → Q pool tx → I (Mempool.addOne c ctx pool tx).2)
    (horphan : ∀ pool h, I pool → I (pool.removeOrphan h)) :
    ∀ (fuel : Nat) (pool : Mempool) (tx : Transaction) (status : AcceptStatus) (pool' : Mempool),
      I pool → (∀ x ∈ passes c ctx fuel pool tx, Q x.1 x.2) →
      addTransaction c ctx fuel pool tx = some (status, pool') → I pool' := by
  intro fuel
  induction fuel with
  | zero => intro pool tx status pool' _ _ h; cases h
  | succ fuel ih =>
      intro pool tx status pool' hpool hok h
      rw [addTransaction] at h
      rw [passes] at hok
      have hone : I (Mempool.addOne c ctx pool tx).2 :=
        hstep pool tx hpool (hok (pool, tx) List.mem_cons_self)
      generalize Mempool.addOne c ctx pool tx = res at h hok hone
      obtain ⟨v, t⟩ := res
      cases v with
      | accepted =>
          simp only at h hok hone
          obtain ⟨t', hloop, heq⟩ := Option.map_eq_some_iff.mp h
          cases heq
          exact processOrphans_rule ih horphan _ hone
            (fun x hx => hok x (List.mem_cons_of_mem _ hx)) hloop
      | _ => cases h; exact hone

end

/-! ## Runs -/

/-- The conditions under which a run of the mempool proceeds. -/
structure Rules where
  context : Context → Prop
  pass : Context → Mempool → Transaction → Prop
  remove : Mempool → Hash256 → Prop
  expire : Context → Mempool → Prop
  trim : Mempool → Prop

/-- The pools that the operations lead to from the empty one. -/
inductive Reachable (c : Crypto) (R : Rules) : Mempool → Prop where
  | start : Reachable c R empty
  | add {ctx : Context} {fuel : Nat} {pool : Mempool} {tx : Transaction} {status : AcceptStatus}
      {pool' : Mempool} : Reachable c R pool → R.context ctx →
      (∀ x ∈ passes c ctx fuel pool tx, R.pass ctx x.1 x.2) →
      addTransaction c ctx fuel pool tx = some (status, pool') → Reachable c R pool'
  | remove {pool : Mempool} {h : Hash256} : Reachable c R pool → R.remove pool h → Reachable c R (pool.removeTransaction h)
  | expire {ctx : Context} {pool : Mempool} : Reachable c R pool → R.context ctx → R.expire ctx pool →
      Reachable c R (pool.expireOldTransactions ctx)
  | trim {pool : Mempool} : Reachable c R pool → R.trim pool → Reachable c R pool.trimToLimits
  | clear {pool : Mempool} : Reachable c R pool → Reachable c R pool.clear

/-- No conditions. -/
def Rules.any : Rules where
  context := fun _ => True
  pass := fun _ _ _ => True
  remove := fun _ _ => True
  expire := fun _ _ => True
  trim := fun _ => True

/-- Removing a transaction frees room. -/
theorem removeTransaction_overLimits (h : pool.overLimits = false) (txHash : Hash256) :
    (pool.removeTransaction txHash).overLimits = false := by
  unfold Mempool.removeTransaction
  split
  · exact h
  · next e he =>
      simp only [overLimits, Bool.or_eq_false_iff, decide_eq_false_iff_not, Nat.not_lt] at h ⊢
      constructor
      · omega
      · refine Nat.le_trans (Finset.card_le_card fun k hk => ?_) h.2
        rw [Finmap.mem_keys] at hk ⊢
        exact (Finmap.mem_erase.mp hk).2

theorem Sound.removeTransaction (hs : pool.Sound c) (txHash : Hash256) :
    (pool.removeTransaction txHash).Sound c :=
  ⟨hs.consistent.removeTransaction txHash, removeTransaction_overLimits hs.withinLimits txHash,
    hs.orphansOk.congr (removeTransaction_sameOrphans pool txHash)⟩

theorem Sound.foldl {f : Mempool → Hash256 → Mempool}
    (hf : ∀ pool h, Sound c pool → Sound c (f pool h)) (hs : List Hash256) (h : pool.Sound c) :
    (hs.foldl f pool).Sound c := by
  induction hs generalizing pool with
  | nil => exact h
  | cons x _ ih => exact ih (hf pool x h)

/-- The redundant structures agree in every pool that any operations lead to. -/
theorem sound_of_reachable {R : Rules} (h : Reachable c R pool) : pool.Sound c := by
  induction h with
  | start => exact sound_empty
  | add _ _ _ hadd ih =>
      exact addTransaction_rule (Q := fun _ _ => True) (fun _ _ hp _ => hp.addOne)
        (fun _ h hp => hp.removeOrphan h) _ _ _ _ _ ih (fun _ _ => trivial) hadd
  | remove _ _ ih => exact ih.removeTransaction _
  | expire _ _ _ ih =>
      exact Sound.foldl (fun _ h hp => hp.removeOrphan h) _
        (Sound.foldl (fun _ h hp => hp.removeTransaction h) _ ih)
  | trim _ _ ih =>
      exact ⟨ih.consistent.trimLoop, trimLoop_withinLimits ih.consistent (Nat.le_refl _),
        ih.orphansOk.congr (trimLoop_sameOrphans _ _)⟩
  | clear _ _ => exact sound_empty

/-- What the redundant structures of a pool say, in terms of `txs_` and
`orphans_`. -/
structure Representation (pool : Mempool) : Prop where
  sorted : ∀ k, k ∈ pool.sortedByFeerate ↔
    ∃ e, pool.txs.lookup k.2.2 = some e ∧ k = e.key k.2.2
  sortedOnce : pool.sortedByFeerate.Nodup
  bytes : (pool.totalBytes : Int) = pool.txs.sumBy fun e => e.size
  spent : ∀ o h, pool.spentOutpoints.lookup o = some h ↔
    ∃ e, pool.txs.lookup h = some e ∧ ∃ txin ∈ e.tx.inputs.toList, txin.prevout = o
  exclusive : ∀ h h' e e', pool.txs.lookup h = some e → pool.txs.lookup h' = some e' →
    ∀ i ∈ e.tx.inputs.toList, ∀ j ∈ e'.tx.inputs.toList, i.prevout = j.prevout → h = h'
  byteLimit : pool.totalBytes ≤ Constants.maxMempoolSizeBytes
  countLimit : pool.txs.keys.card ≤ Constants.maxMempoolTransactions
  orphans : ∀ h, h ∈ pool.orphanOrder ↔ ∃ e, pool.orphans.lookup h = some e
  orphansOnce : pool.orphanOrder.Nodup
  orphanLimit : pool.orphans.keys.card ≤ Constants.maxMempoolOrphans

/-- After any operations the redundant structures say what they should. -/
theorem representation_of_reachable (h : Reachable c Rules.any pool) : pool.Representation := by
  obtain ⟨hs, hlimits, horphans⟩ := sound_of_reachable h
  simp only [overLimits, Bool.or_eq_false_iff, decide_eq_false_iff_not, Nat.not_lt] at hlimits
  refine ⟨fun k => hs.sorted, hs.ascending.nodup, hs.bytes, fun o k => hs.spent, ?_, hlimits.1,
    hlimits.2, fun k => horphans.mem, horphans.nodup, ?_⟩
  · intro k k' e e' he he' i hi j hj heq
    have hspent := hs.spent.mpr ⟨e, he, i, hi, rfl⟩
    rw [heq, hs.spent.mpr ⟨e', he', j, hj, rfl⟩] at hspent
    exact (Option.some.inj hspent).symm
  · rw [FinMap.card_keys_eq horphans.nodup fun k => horphans.mem]
    exact horphans.bound

open Regtest in
theorem representation_payment : ∃ pool,
    addTransaction crypto (context confirmed) 1 empty payment = some (.accepted, pool) ∧
      pool.Representation := by
  have hacc : (addTransaction crypto (context confirmed) 1 empty payment).map Prod.fst
      = some .accepted := by decide +kernel
  obtain ⟨⟨status, pool⟩, h, rfl⟩ := Option.map_eq_some_iff.mp hacc
  exact ⟨pool, h, representation_of_reachable (.add .start trivial (fun _ _ => trivial) h)⟩

/-! ## Calls return -/

theorem card_removeOrphan {h : Hash256} {e : OrphanEntry} (he : pool.orphans.lookup h = some e) :
    (pool.removeOrphan h).orphans.keys.card + 1 = pool.orphans.keys.card := by
  have hmem : h ∈ pool.orphans.keys :=
    Finmap.mem_keys.mpr (Finmap.mem_of_lookup_eq_some he)
  have hval : (pool.removeOrphan h).orphans = pool.orphans.erase h := by
    unfold removeOrphan
    rw [he]
  rw [hval, Finmap.keys_erase, Finset.card_erase_of_mem hmem]
  have := Finset.card_pos.mpr ⟨h, hmem⟩
  omega

theorem card_evictOrphans : ∀ {fuel : Nat} {pool : Mempool},
    (evictOrphans fuel pool).orphans.keys.card ≤ pool.orphans.keys.card
  | 0, _ => Nat.le_refl _
  | fuel + 1, pool => by
      rw [evictOrphans]
      split
      · exact Nat.le_refl _
      · next evict rest _ =>
          split
          · refine Nat.le_trans card_evictOrphans ?_
            cases he : pool.orphans.lookup evict with
            | none =>
                rw [removeOrphan]
                simp only [he]
                exact Nat.le_refl _
            | some e =>
                have hcard : (({ pool with orphanOrder := rest } : Mempool).removeOrphan
                    evict).orphans.keys.card + 1 = pool.orphans.keys.card :=
                  @card_removeOrphan { pool with orphanOrder := rest } evict e he
                omega
          · exact Nat.le_refl _

/-- A pass makes one orphan at most, and none when it accepts. -/
theorem card_addOne (c : Crypto) (ctx : Context) (pool : Mempool) (tx : Transaction) :
    (addOne c ctx pool tx).2.orphans.keys.card ≤ pool.orphans.keys.card + 1 ∧
    ((addOne c ctx pool tx).1 = .accepted →
      (addOne c ctx pool tx).2.orphans.keys.card ≤ pool.orphans.keys.card) := by
  rcases addOne_cases c ctx pool tx with ⟨status, heq, -⟩ | ⟨-, r, -, ⟨-, heq⟩ | ⟨e, -, heq, -⟩⟩
  · rw [heq]
    exact ⟨Nat.le_succ _, fun _ => Nat.le_refl _⟩
  · rw [heq]
    refine ⟨?_, fun h => by cases h⟩
    unfold addOrphan
    split
    · exact Nat.le_succ _
    · refine Nat.le_trans (FinMap.card_keys_insert_le _ _ _) ?_
      exact Nat.succ_le_succ card_evictOrphans
  · have hsame : (addOne c ctx pool tx).2.orphans = pool.orphans := by
      rw [heq]
      exact (trimLoop_sameOrphans _ _).1
    rw [hsame]
    exact ⟨Nat.le_succ _, fun _ => Nat.le_refl _⟩

/-- With a round more than there are orphans, a call returns. -/
theorem addTransaction_total (c : Crypto) (ctx : Context) :
    ∀ (fuel : Nat) (pool : Mempool) (tx : Transaction), pool.orphans.keys.card < fuel →
      ∃ status pool', addTransaction c ctx fuel pool tx = some (status, pool') ∧
        pool'.orphans.keys.card ≤ pool.orphans.keys.card + 1 := by
  intro fuel
  induction fuel with
  | zero => intro pool tx h; exact absurd h (Nat.not_lt_zero _)
  | succ fuel ih =>
      intro pool tx hfuel
      have hloop : ∀ (ready : List Hash256) (t : Mempool), t.orphans.keys.card ≤ fuel →
          ∃ t', processOrphans (addTransaction c ctx fuel) t ready = some t' ∧
            t'.orphans.keys.card ≤ t.orphans.keys.card := by
        intro ready
        induction ready with
        | nil => intro t _; exact ⟨t, rfl, Nat.le_refl _⟩
        | cons k ready ihr =>
            intro t ht
            rw [processOrphans]
            cases hk : t.orphans.lookup k with
            | none => exact ihr t ht
            | some e =>
                have hcard := card_removeOrphan hk
                obtain ⟨status, t₁, hadd, hle⟩ := ih (t.removeOrphan k) e.tx (by omega)
                simp only [hadd]
                obtain ⟨t₂, hrest, hle₂⟩ := ihr t₁ (by omega)
                exact ⟨t₂, hrest, by omega⟩
      obtain ⟨hone, hacc⟩ := card_addOne c ctx pool tx
      rw [addTransaction]
      generalize addOne c ctx pool tx = res at hone hacc
      obtain ⟨status, t⟩ := res
      cases status with
      | accepted =>
          simp only at hone hacc ⊢
          have hle := hacc trivial
          obtain ⟨t', hrun, hle'⟩ := hloop (waitingFor ctx t (tx.hash c)) t (by omega)
          exact ⟨.accepted, t', by rw [hrun]; rfl, by omega⟩
      | _ => exact ⟨_, t, rfl, hone⟩

end Mempool

end Cryptex
