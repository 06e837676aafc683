import Cryptex.MempoolClosure
import Cryptex.OrphanOrder

/-!
# Orphans whose parents arrive

A transaction that the pool accepts takes the orphans along that are listed
under its id, each of which may take others along in turn. Every round removes
an orphan before it looks at it, so the orphans bound the depth of the calls
(`addTransaction_total`). Here: what the rounds look at, and what they leave.

The list is written when an orphan is queued and names the parents that it
lacks then. What carries the argument is that every orphan is listed under a
parent that it lacks now (`Listed`), or is still to be looked at: a parent that
arrives is the one under which the list finds the orphan. The invariant holds
as long as the calls read one UTXO set, and a change of the chain clears the
pool.
-/

namespace Cryptex

namespace Mempool

variable {c : Crypto} {ctx : Context} {pool pool' : Mempool} {tx : Transaction} {utxo : UTXOSet}

/-! ## What a call looks at -/

section

variable (c : Crypto) (ctx : Context)

/-- The looks of the loop over the orphans of a parent, given those of a call:
the parent that has arrived, and the orphan. -/
def orphanLooks (looks : Mempool → Transaction → List (Hash256 × Hash256))
    (add : Mempool → Transaction → Option (AcceptStatus × Mempool)) (parent : Hash256) :
    Mempool → List Hash256 → List (Hash256 × Hash256)
  | _, [] => []
  | pool, k :: ready =>
      (parent, k) ::
        match pool.orphans.lookup k with
        | none => orphanLooks looks add parent pool ready
        | some e =>
            looks (pool.removeOrphan k) e.tx ++
              match add (pool.removeOrphan k) e.tx with
              | none => []
              | some (_, pool) => orphanLooks looks add parent pool ready

/-- Which orphan a call of `add_transaction` looks at for which parent. -/
def looks : Nat → Mempool → Transaction → List (Hash256 × Hash256)
  | 0, _, _ => []
  | fuel + 1, pool, tx =>
      match addOne c ctx pool tx with
      | (.accepted, pool) =>
          orphanLooks (looks fuel) (addTransaction c ctx fuel) (tx.hash c) pool
            (waitingFor ctx pool (tx.hash c))
      | _ => []

end

/-! ## More fuel changes nothing -/

theorem processOrphans_mono {add add' : Mempool → Transaction → Option (AcceptStatus × Mempool)}
    (hadd : ∀ pool tx r, add pool tx = some r → add' pool tx = some r) :
    ∀ (ready : List Hash256) {pool pool' : Mempool}, processOrphans add pool ready = some pool' →
      processOrphans add' pool ready = some pool'
  | [], _, _, h => h
  | k :: ready, pool, pool', h => by
      rw [processOrphans] at h ⊢
      cases hk : pool.orphans.lookup k with
      | none =>
          rw [hk] at h
          exact processOrphans_mono hadd ready h
      | some e =>
          rw [hk] at h
          simp only at h ⊢
          cases hone : add (pool.removeOrphan k) e.tx with
          | none => rw [hone] at h; cases h
          | some r =>
              rw [hone] at h
              rw [hadd _ _ _ hone]
              exact processOrphans_mono hadd ready h

theorem addTransaction_mono {r : AcceptStatus × Mempool} : ∀ {fuel fuel' : Nat} {pool : Mempool}
    {tx : Transaction}, fuel ≤ fuel' → addTransaction c ctx fuel pool tx = some r →
      addTransaction c ctx fuel' pool tx = some r
  | 0, _, _, _, _, h => by cases h
  | _ + 1, 0, _, _, hle, _ => absurd hle (Nat.not_succ_le_zero _)
  | fuel + 1, fuel' + 1, pool, tx, hle, h => by
      rw [addTransaction] at h ⊢
      generalize addOne c ctx pool tx = res at h ⊢
      obtain ⟨status, t⟩ := res
      cases status with
      | accepted =>
          obtain ⟨t', hloop, heq⟩ := Option.map_eq_some_iff.mp h
          have hmono := processOrphans_mono
            (fun _ _ _ hone => addTransaction_mono (Nat.le_of_succ_le_succ hle) hone) _ hloop
          exact Option.map_eq_some_iff.mpr ⟨t', hmono, heq⟩
      | _ => exact h

/-! ## The list of orphans by parent -/

/-- What the first input loop notes as missing: each parent once, and only
parents of inputs that are absent. -/
theorem resolveInputs_missing : ∀ {ins : List TxIn} {seen : List OutPoint} {r r' : Resolution},
    resolveInputs ctx pool ins seen r = .ok r' → (r.missing.Nodup → r'.missing.Nodup) ∧
      ∀ h ∈ r'.missing, h ∈ r.missing ∨
        ∃ txin ∈ ins, Absent ctx.utxo pool txin ∧ txin.prevout.txHash = h
  | [], _, _, _, h => by
      cases h
      exact ⟨id, fun _ hmem => Or.inl hmem⟩
  | txin :: rest, seen, r, r', h => by
      have htail {q : Resolution} (hq : resolveInputs ctx pool rest (txin.prevout :: seen) q = .ok r')
          (hmissing : q.missing = r.missing) : (r.missing.Nodup → r'.missing.Nodup) ∧
            ∀ h ∈ r'.missing, h ∈ r.missing ∨
              ∃ i ∈ txin :: rest, Absent ctx.utxo pool i ∧ i.prevout.txHash = h := by
        obtain ⟨hnodup, hmem⟩ := resolveInputs_missing hq
        rw [hmissing] at hnodup hmem
        refine ⟨hnodup, fun k hk => (hmem k hk).imp_right ?_⟩
        rintro ⟨i, hi, habsent⟩
        exact ⟨i, List.mem_cons_of_mem _ hi, habsent⟩
      rw [resolveInputs] at h
      split at h
      · cases h
      · split at h
        · exact htail h rfl
        · next hunconfirmed =>
            split at h
            · split at h
              · cases h
              · exact htail h rfl
            · next hnone =>
                obtain ⟨hnodup, hmem⟩ := resolveInputs_missing h
                simp only at hnodup hmem
                split at hnodup
                · next hknown =>
                    rw [if_pos hknown] at hmem
                    refine ⟨hnodup, fun k hk => (hmem k hk).imp_right ?_⟩
                    rintro ⟨i, hi, habsent⟩
                    exact ⟨i, List.mem_cons_of_mem _ hi, habsent⟩
                · next hnew =>
                    rw [if_neg hnew] at hmem
                    refine ⟨fun hr => hnodup (List.nodup_append.mpr ⟨hr, List.nodup_singleton _, ?_⟩),
                      fun k hk => ?_⟩
                    · rintro a ha b hb rfl
                      exact hnew (List.mem_singleton.mp hb ▸ ha)
                    · rcases hmem k hk with hk | ⟨i, hi, habsent⟩
                      · rcases List.mem_append.mp hk with hk | hk
                        · exact Or.inl hk
                        · exact Or.inr ⟨txin, List.mem_cons_self, ⟨hunconfirmed, hnone⟩,
                            (List.mem_singleton.mp hk).symm⟩
                      · exact Or.inr ⟨i, List.mem_cons_of_mem _ hi, habsent⟩

/-- The list has each pair once. The second of a pair is an orphan, and spends
an output of the first. -/
structure Indexed (pool : Mempool) : Prop where
  nodup : pool.orphansByParent.Nodup
  orphan : ∀ x ∈ pool.orphansByParent, ∃ e, pool.orphans.lookup x.2 = some e ∧
    ∃ txin ∈ e.tx.inputs.toList, txin.prevout.txHash = x.1

theorem indexed_empty : Indexed empty := ⟨.nil, fun _ hx => nomatch hx⟩

theorem Indexed.congr (hs : pool.Indexed) (h : SameOrphans pool pool') : pool'.Indexed := by
  obtain ⟨horphans, -, hlist⟩ := h
  constructor
  · rw [hlist]
    exact hs.nodup
  · rw [hlist, horphans]
    exact hs.orphan

theorem Indexed.removeOrphan (hs : pool.Indexed) (h : Hash256) : (pool.removeOrphan h).Indexed := by
  cases he : pool.orphans.lookup h with
  | none =>
      rw [Mempool.removeOrphan, he]
      exact hs
  | some e =>
      rw [removeOrphan_of_some he]
      refine ⟨hs.nodup.filter _, fun x hx => ?_⟩
      obtain ⟨hx, hne⟩ := List.mem_filter.mp hx
      obtain ⟨e', he', hspends⟩ := hs.orphan x hx
      refine ⟨e', ?_, hspends⟩
      rw [FinMap.lookup_erase_ite, if_neg (by simpa using hne)]
      exact he'

/-- What survives the removal of an orphan and any order survives eviction. -/
theorem evictOrphans_rule {I : Mempool → Prop} (hdrop : ∀ pool h, I pool → I (pool.removeOrphan h))
    (horder : ∀ (pool : Mempool) (l : List Hash256), I pool → I { pool with orphanOrder := l }) :
    ∀ (fuel : Nat) {pool : Mempool}, I pool → I (evictOrphans fuel pool)
  | 0, _, h => h
  | fuel + 1, pool, h => by
      rw [evictOrphans]
      split
      · exact h
      · next evict rest _ =>
          split
          · exact evictOrphans_rule hdrop horder fuel (hdrop _ evict (horder pool rest h))
          · exact h

/-- The same for an orphan that is queued: the rest is its own entry. -/
theorem addOrphan_rule {I : Mempool → Prop} (hdrop : ∀ pool h, I pool → I (pool.removeOrphan h))
    (horder : ∀ (pool : Mempool) (l : List Hash256), I pool → I { pool with orphanOrder := l })
    {h : Hash256} {e : OrphanEntry} {missing : List Hash256} (hnew : pool.orphans.lookup h = none)
    (hpush : ∀ t : Mempool, I t → t.orphans.lookup h = none → t.txs = pool.txs →
      I { t with
        orphans := t.orphans.insert h e
        orphanOrder := t.orphanOrder ++ [h]
        orphansByParent := t.orphansByParent ++ missing.map fun parent => (parent, h) })
    (hs : I pool) : I (pool.addOrphan h e missing) := by
  rw [addOrphan, if_neg (by simp [hnew])]
  have hevict := evictOrphans_rule
    (I := fun t => I t ∧ t.orphans.lookup h = none ∧ t.txs = pool.txs)
    (fun t k ht => ⟨hdrop t k ht.1, ?_, ?_⟩) (fun t l ht => ⟨horder t l ht.1, ht.2⟩)
    pool.orphanOrder.length ⟨hs, hnew, rfl⟩
  · exact hpush _ hevict.1 hevict.2.1 hevict.2.2
  · cases hk : t.orphans.lookup k with
    | none =>
        rw [Mempool.removeOrphan, hk]
        exact ht.2.1
    | some o =>
        rw [removeOrphan_of_some hk]
        simp only [FinMap.lookup_erase_ite]
        split
        · rfl
        · exact ht.2.1
  · exact (removeOrphan_samePool k).txs.trans ht.2.2

theorem Indexed.addOrphan (hs : pool.Indexed) {h : Hash256} {e : OrphanEntry}
    {missing : List Hash256} (hnew : pool.orphans.lookup h = none) (hnodup : missing.Nodup)
    (hmissing : ∀ parent ∈ missing, ∃ txin ∈ e.tx.inputs.toList, txin.prevout.txHash = parent) :
    (pool.addOrphan h e missing).Indexed := by
  refine addOrphan_rule (fun _ k ht => ht.removeOrphan k) (fun _ _ ht => ⟨ht.nodup, ht.orphan⟩)
    hnew (fun t ht hnone _ => ⟨?_, fun x hx => ?_⟩) hs
  · refine List.nodup_append.mpr ⟨ht.nodup, hnodup.map fun a b heq => congrArg Prod.fst heq, ?_⟩
    rintro x hx y hy rfl
    obtain ⟨parent, -, rfl⟩ := List.mem_map.mp hy
    obtain ⟨o, ho, -⟩ := ht.orphan _ hx
    rw [hnone] at ho
    cases ho
  · rcases List.mem_append.mp hx with hx | hx
    · obtain ⟨o, ho, hspends⟩ := ht.orphan x hx
      have hne : x.2 ≠ h := by
        rintro rfl
        rw [hnone] at ho
        cases ho
      exact ⟨o, by rw [FinMap.lookup_insert_ite, if_neg hne, ho], hspends⟩
    · obtain ⟨parent, hparent, rfl⟩ := List.mem_map.mp hx
      exact ⟨e, by rw [FinMap.lookup_insert_ite, if_pos rfl], hmissing parent hparent⟩

theorem Indexed.addOne (hs : pool.Indexed) : (Mempool.addOne c ctx pool tx).2.Indexed := by
  rcases addOne_cases c ctx pool tx with ⟨status, heq, -⟩ | ⟨hok, r, hres, hcase⟩
  · rw [heq]
    exact hs
  · rcases hcase with ⟨-, heq⟩ | ⟨e, -, heq, -⟩
    · obtain ⟨hnodup, hmem⟩ := resolveInputs_missing hres
      rw [heq]
      refine hs.addOrphan hok.notOrphan (hnodup .nil) fun parent hparent => ?_
      rcases hmem parent hparent with hnil | ⟨txin, htxin, -, hparent⟩
      · cases hnil
      · exact ⟨txin, htxin, hparent⟩
    · rw [heq]
      have hsame : SameOrphans pool (pool.insertEntry (tx.hash c) e) := ⟨rfl, rfl, rfl⟩
      exact (hs.congr hsame).congr (trimLoop_sameOrphans _ _)

theorem Indexed.addTransaction (hs : pool.Indexed) {fuel : Nat} {status : AcceptStatus}
    (h : Mempool.addTransaction c ctx fuel pool tx = some (status, pool')) : pool'.Indexed :=
  addTransaction_rule (Q := fun _ _ => True) (fun _ _ hp _ => hp.addOne)
    (fun _ k hp => hp.removeOrphan k) _ _ _ _ _ hs (fun _ _ => True.intro) h

theorem Sound.addTransaction (hs : pool.Sound c) {fuel : Nat} {status : AcceptStatus}
    (h : Mempool.addTransaction c ctx fuel pool tx = some (status, pool')) : pool'.Sound c :=
  addTransaction_rule (Q := fun _ _ => True) (fun _ _ hp _ => hp.addOne)
    (fun _ k hp => hp.removeOrphan k) _ _ _ _ _ hs (fun _ _ => True.intro) h

/-- What each call, the loss of an orphan and the loss of a transaction preserve
holds after any operations that the conditions allow. -/
theorem Reachable.rule {R : Rules} {I : Mempool → Prop} (hempty : I empty)
    (hadd : ∀ {ctx fuel pool tx status pool'}, R.context ctx → I pool →
      addTransaction c ctx fuel pool tx = some (status, pool') → I pool')
    (horphan : ∀ pool h, I pool → I (pool.removeOrphan h))
    (hremove : ∀ pool h, I pool → I (pool.removeTransaction h)) (h : Reachable c R pool) :
    I pool := by
  have hfold {f : Mempool → Hash256 → Mempool} (hf : ∀ t k, I t → I (f t k)) (hs : List Hash256) :
      ∀ t, I t → I (hs.foldl f t) := by
    induction hs with
    | nil => exact fun t ht => ht
    | cons k _ ih => exact fun t ht => ih _ (hf t k ht)
  have htrim : ∀ (fuel : Nat) (t : Mempool), I t → I (trimLoop fuel t) := by
    intro fuel
    induction fuel with
    | zero => exact fun t ht => ht
    | succ fuel ih =>
        intro t ht
        rw [trimLoop]
        split
        · exact ht
        · split
          · exact ih _ (hremove _ _ ht)
          · exact ht
  induction h with
  | start => exact hempty
  | add _ hctx _ hcall ih => exact hadd hctx ih hcall
  | remove _ _ ih => exact hremove _ _ ih
  | expire _ _ _ ih => exact hfold horphan _ _ (hfold hremove _ _ ih)
  | trim _ _ ih => exact htrim _ _ ih
  | clear _ _ => exact hempty

/-- The list is in order in every pool that any operations lead to. -/
theorem indexed_of_reachable {R : Rules} (h : Reachable c R pool) : pool.Indexed :=
  h.rule indexed_empty (fun _ hp => hp.addTransaction) (fun _ k hp => hp.removeOrphan k)
    fun t k hp => hp.congr (removeTransaction_sameOrphans t k)

/-! ## Each orphan once for each parent -/

/-- A call leaves no new orphans but its own transaction. The parents that it
looks for were orphans too or are its own transaction, and are no orphans any
more. -/
structure Promotes (pool : Mempool) (h : Hash256) (pool' : Mempool)
    (seen : List (Hash256 × Hash256)) : Prop where
  orphans : ∀ k, pool.orphans.lookup k = none → k ≠ h → pool'.orphans.lookup k = none
  parents : ∀ x ∈ seen, (pool.orphans.lookup x.1 = none → x.1 = h) ∧
    pool'.orphans.lookup x.1 = none
  nodup : seen.Nodup

theorem lookup_orphans_removeOrphan (k : Hash256) (pool : Mempool) {h : Hash256} :
    (pool.removeOrphan h).orphans.lookup k = if k = h then none else pool.orphans.lookup k := by
  cases he : pool.orphans.lookup h with
  | none =>
      have hsame : pool.removeOrphan h = pool := by rw [Mempool.removeOrphan, he]
      rw [hsame]
      split
      · next heq => rw [heq, he]
      · rfl
  | some e => rw [removeOrphan_of_some he, FinMap.lookup_erase_ite]

/-- A pass makes no orphan of another transaction. -/
theorem addOne_orphans {k : Hash256} (hk : pool.orphans.lookup k = none) (hne : k ≠ tx.hash c) :
    (addOne c ctx pool tx).2.orphans.lookup k = none := by
  rcases addOne_cases c ctx pool tx with ⟨_, heq, -⟩ | ⟨hok, r, -, ⟨-, heq⟩ | ⟨e, -, heq, -⟩⟩
  · rw [heq]
    exact hk
  · rw [heq]
    refine addOrphan_rule (I := fun t => t.orphans.lookup k = none) (fun t j ht => ?_)
      (fun _ _ ht => ht) hok.notOrphan (fun t ht _ _ => ?_) hk
    · rw [lookup_orphans_removeOrphan, ht, ite_self]
    · rw [FinMap.lookup_insert_ite, if_neg hne, ht]
  · have hsame : (addOne c ctx pool tx).2.orphans = pool.orphans := by
      rw [heq]
      exact (trimLoop_sameOrphans _ _).1
    rw [hsame, hk]

theorem notOrphan_of_accepted (h : (addOne c ctx pool tx).1 = .accepted) :
    pool.orphans.lookup (tx.hash c) = none := by
  rcases addOne_cases c ctx pool tx with ⟨status, heq, hne⟩ | ⟨hok, -⟩
  · rw [heq] at h
    exact absurd h hne
  · exact hok.notOrphan

theorem addOne_sameOrphans (h : (addOne c ctx pool tx).1 = .accepted) :
    SameOrphans pool (addOne c ctx pool tx).2 := by
  rcases addOne_cases c ctx pool tx with ⟨status, heq, hne⟩ | ⟨-, r, -, ⟨-, heq⟩ | ⟨e, -, heq, -⟩⟩
  · rw [heq] at h
    exact absurd h hne
  · rw [heq] at h
    cases h
  · rw [heq]
    exact trimLoop_sameOrphans _ _

theorem nodup_waitingFor (hi : pool.Indexed) (parent : Hash256) :
    (waitingFor ctx pool parent).Nodup := by
  refine (ctx.bucket_perm _).nodup_iff.mpr ?_
  refine (List.nodup_map_iff_inj_on (hi.nodup.filter _)).mpr fun x hx y hy heq => ?_
  have hx1 : x.1 = parent := by simpa using (List.mem_filter.mp hx).2
  have hy1 : y.1 = parent := by simpa using (List.mem_filter.mp hy).2
  exact Prod.ext (hx1.trans hy1.symm) heq

/-- The loop over the orphans of a parent that is none itself. -/
theorem orphanLooks_promotes {fuel : Nat} {parent : Hash256}
    (hcall : ∀ {pool : Mempool} {tx : Transaction} {status : AcceptStatus} {pool' : Mempool},
      pool.Sound c → pool.Indexed → addTransaction c ctx fuel pool tx = some (status, pool') →
      Promotes pool (tx.hash c) pool' (looks c ctx fuel pool tx)) :
    ∀ {ready : List Hash256} {pool pool' : Mempool}, pool.Sound c → pool.Indexed → ready.Nodup →
      pool.orphans.lookup parent = none →
      processOrphans (addTransaction c ctx fuel) pool ready = some pool' →
      (∀ k, pool.orphans.lookup k = none → pool'.orphans.lookup k = none) ∧
      (∀ x ∈ orphanLooks (looks c ctx fuel) (addTransaction c ctx fuel) parent pool ready,
        (x.1 = parent → x.2 ∈ ready) ∧ (pool.orphans.lookup x.1 = none → x.1 = parent) ∧
          pool'.orphans.lookup x.1 = none) ∧
      (orphanLooks (looks c ctx fuel) (addTransaction c ctx fuel) parent pool ready).Nodup
  | [], pool, pool', _, _, _, _, h => by
      cases h
      exact ⟨fun _ hk => hk, nofun, .nil⟩
  | k :: ready, pool, pool', hs, hi, hready, hparent, h => by
      obtain ⟨hk, hnodup⟩ := List.nodup_cons.mp hready
      rw [processOrphans] at h
      rw [orphanLooks]
      cases he : pool.orphans.lookup k with
      | none =>
          rw [he] at h
          obtain ⟨horphans, hseen, hrest⟩ := orphanLooks_promotes hcall hs hi hnodup hparent h
          refine ⟨horphans, fun x hx => ?_, List.nodup_cons.mpr ⟨fun hmem => ?_, hrest⟩⟩
          · rcases List.mem_cons.mp hx with rfl | hx
            · exact ⟨fun _ => List.mem_cons_self, fun _ => rfl, horphans _ hparent⟩
            · exact (hseen x hx).imp_left fun hmem heq => List.mem_cons_of_mem _ (hmem heq)
          · exact hk ((hseen _ hmem).1 rfl)
      | some e =>
          rw [he] at h
          simp only at h ⊢
          cases hone : addTransaction c ctx fuel (pool.removeOrphan k) e.tx with
          | none => rw [hone] at h; cases h
          | some res =>
              obtain ⟨status, t⟩ := res
              rw [hone] at h
              have hid : e.tx.hash c = k := hs.orphansOk.id he
              have hcalled := hcall (hs.removeOrphan k) (hi.removeOrphan k) hone
              rw [hid] at hcalled
              have hsound : t.Sound c := (hs.removeOrphan k).addTransaction hone
              have hindexed : t.Indexed := (hi.removeOrphan k).addTransaction hone
              have hsubset (j : Hash256) (hj : pool.orphans.lookup j = none) :
                  t.orphans.lookup j = none := by
                have hne : j ≠ k := by
                  rintro rfl
                  rw [he] at hj
                  cases hj
                exact hcalled.orphans j (by rw [lookup_orphans_removeOrphan, if_neg hne, hj]) hne
              obtain ⟨horphans, hseen, hrest⟩ :=
                orphanLooks_promotes hcall hsound hindexed hnodup (hsubset _ hparent) h
              -- the calls for an orphan look for parents that were orphans before
              have hfresh : ∀ x ∈ looks c ctx fuel (pool.removeOrphan k) e.tx,
                  pool.orphans.lookup x.1 ≠ none := fun x hx hnone => by
                have hx1 : x.1 = k := (hcalled.parents x hx).1 (by
                  rw [lookup_orphans_removeOrphan, hnone, ite_self])
                rw [hx1, he] at hnone
                cases hnone
              refine ⟨fun j hj => horphans j (hsubset j hj), fun x hx => ?_, ?_⟩
              · rcases List.mem_cons.mp hx with rfl | hx
                · exact ⟨fun _ => List.mem_cons_self, fun _ => rfl, horphans _ (hsubset _ hparent)⟩
                rcases List.mem_append.mp hx with hx | hx
                · refine ⟨fun heq => absurd (heq ▸ hparent) (hfresh x hx),
                    fun hnone => absurd hnone (hfresh x hx), horphans _ (hcalled.parents x hx).2⟩
                · obtain ⟨hmem, hwas, hgone⟩ := hseen x hx
                  exact ⟨fun heq => List.mem_cons_of_mem _ (hmem heq),
                    fun hnone => hwas (hsubset _ hnone), hgone⟩
              · refine List.nodup_cons.mpr ⟨fun hmem => ?_, List.nodup_append.mpr
                  ⟨hcalled.nodup, hrest, ?_⟩⟩
                · rcases List.mem_append.mp hmem with hmem | hmem
                  · exact hfresh _ hmem hparent
                  · exact hk ((hseen _ hmem).1 rfl)
                · rintro x hx y hy rfl
                  have hx1 : x.1 = parent := (hseen x hy).2.1 (hcalled.parents x hx).2
                  exact hfresh x hx (hx1 ▸ hparent)

theorem addTransaction_promotes : ∀ {fuel : Nat} {pool : Mempool} {tx : Transaction}
    {status : AcceptStatus} {pool' : Mempool}, pool.Sound c → pool.Indexed →
    addTransaction c ctx fuel pool tx = some (status, pool') →
    Promotes pool (tx.hash c) pool' (looks c ctx fuel pool tx)
  | 0, _, _, _, _, _, _, h => by cases h
  | fuel + 1, pool, tx, status, pool', hs, hi, h => by
      have hsound : (addOne c ctx pool tx).2.Sound c := hs.addOne
      have hindexed : (addOne c ctx pool tx).2.Indexed := hi.addOne
      have horphans (k : Hash256) : pool.orphans.lookup k = none → k ≠ tx.hash c →
          (addOne c ctx pool tx).2.orphans.lookup k = none := addOne_orphans
      have haccepted : (addOne c ctx pool tx).1 = .accepted →
          pool.orphans.lookup (tx.hash c) = none ∧ SameOrphans pool (addOne c ctx pool tx).2 :=
        fun h => ⟨notOrphan_of_accepted h, addOne_sameOrphans h⟩
      rw [addTransaction] at h
      rw [looks]
      generalize addOne c ctx pool tx = res at h hsound hindexed horphans haccepted
      obtain ⟨v, t⟩ := res
      cases v with
      | accepted =>
          obtain ⟨hnone, hsame, -⟩ := haccepted rfl
          have hparent : t.orphans.lookup (tx.hash c) = none := by
            rw [show t.orphans = pool.orphans from hsame, hnone]
          obtain ⟨t', hloop, heq⟩ := Option.map_eq_some_iff.mp h
          cases heq
          obtain ⟨hkept, hseen, hnodup⟩ := orphanLooks_promotes
            (fun hs hi h => addTransaction_promotes hs hi h) hsound hindexed
            (nodup_waitingFor hindexed _) hparent hloop
          refine ⟨fun k hk hne => hkept k (horphans k hk hne), fun x hx => ⟨fun hold => ?_,
            (hseen x hx).2.2⟩, hnodup⟩
          exact (hseen x hx).2.1 (by rw [show t.orphans = pool.orphans from hsame, hold])
      | _ =>
          cases h
          exact ⟨horphans, fun x hx => (by cases hx), .nil⟩

/-! ## No orphan is left that lacks nothing -/

/-- The orphans are listed under a parent that they lack, save for some that
are still to be looked at. -/
def ListedBut (utxo : UTXOSet) (pending : List Hash256) (pool : Mempool) : Prop :=
  ∀ h e, pool.orphans.lookup h = some e → h ∉ pending → ∃ txin ∈ e.tx.inputs.toList,
    Absent utxo pool txin ∧ (txin.prevout.txHash, h) ∈ pool.orphansByParent

/-- Every orphan is listed under a parent that it lacks. -/
def Listed (utxo : UTXOSet) (pool : Mempool) : Prop := ListedBut utxo [] pool

theorem Listed.not_ready (hs : pool.Listed utxo) (h : Hash256) : ¬ Ready utxo pool h := by
  rintro ⟨e, he, hready⟩
  obtain ⟨txin, htxin, habsent, -⟩ := hs h e he List.not_mem_nil
  exact hready txin htxin habsent

theorem listed_empty : Listed utxo empty := fun _ _ he => by cases he

/-- Losing transactions, a pool loses none of the parents that its orphans lack. -/
theorem ListedBut.congr {pending : List Hash256} (hs : pool.ListedBut utxo pending)
    (h : SameOrphans pool pool')
    (htxs : ∀ k, pool.txs.lookup k = none → pool'.txs.lookup k = none) :
    pool'.ListedBut utxo pending := by
  obtain ⟨horphans, -, hlist⟩ := h
  intro k e he hk
  rw [horphans] at he
  obtain ⟨txin, htxin, habsent, hmem⟩ := hs k e he hk
  exact ⟨txin, htxin, ⟨habsent.1, htxs _ habsent.2⟩, hlist ▸ hmem⟩

/-- An orphan that is taken out need not be looked at any more. -/
theorem ListedBut.removeOrphan {pending : List Hash256} {k : Hash256}
    (hs : pool.ListedBut utxo (k :: pending)) : (pool.removeOrphan k).ListedBut utxo pending := by
  intro h e he hpending
  rw [lookup_orphans_removeOrphan] at he
  split at he
  · cases he
  · next hne =>
      have hmem : h ∉ k :: pending := by
        rw [List.mem_cons, not_or]
        exact ⟨hne, hpending⟩
      obtain ⟨txin, htxin, habsent, hlist⟩ := hs h e he hmem
      have htxs : (pool.removeOrphan k).txs = pool.txs := (removeOrphan_samePool k).txs
      refine ⟨txin, htxin, ⟨habsent.1, htxs ▸ habsent.2⟩, ?_⟩
      unfold Mempool.removeOrphan
      split
      · exact hlist
      · exact List.mem_filter.mpr ⟨hlist, by simpa using hne⟩

theorem ListedBut.mono {pending pending' : List Hash256} (hs : pool.ListedBut utxo pending)
    (h : pending ⊆ pending') : pool.ListedBut utxo pending' :=
  fun k e he hk => hs k e he fun hmem => hk (h hmem)

theorem ListedBut.addOrphan {pending : List Hash256} (hs : pool.ListedBut utxo pending)
    {h : Hash256} {e : OrphanEntry} {missing : List Hash256} (hnew : pool.orphans.lookup h = none)
    (hmissing : ∃ txin ∈ e.tx.inputs.toList, Absent utxo pool txin ∧ txin.prevout.txHash ∈ missing) :
    (pool.addOrphan h e missing).ListedBut utxo pending := by
  refine addOrphan_rule (fun _ k ht => (ht.mono (List.subset_cons_self k _)).removeOrphan)
    (fun _ _ ht => ht) hnew (fun t ht _ htxs => fun k o ho hk => ?_) hs
  simp only [FinMap.lookup_insert_ite] at ho
  split at ho
  · next heq =>
      cases ho
      obtain ⟨txin, htxin, habsent, hmem⟩ := hmissing
      refine ⟨txin, htxin, ⟨habsent.1, htxs ▸ habsent.2⟩, List.mem_append_right _ ?_⟩
      rw [heq]
      exact List.mem_map_of_mem hmem
  · obtain ⟨txin, htxin, habsent, hmem⟩ := ht k o ho hk
    exact ⟨txin, htxin, habsent, List.mem_append_left _ hmem⟩

theorem lookup_of_not_accepted (hnone : pool.txs.lookup (tx.hash c) = none)
    (h : (addOne c ctx pool tx).1 ≠ .accepted) :
    (addOne c ctx pool tx).2.txs.lookup (tx.hash c) = none := by
  unfold addOne at h ⊢
  cases hadm : admission c ctx pool tx with
  | rejected status => exact hnone
  | orphan missing =>
      have htxs : (pool.addOrphan (tx.hash c) ⟨tx, ctx.now⟩ missing).txs = pool.txs := by
        unfold addOrphan
        split
        · rfl
        · exact evictOrphans_rule (I := fun t => t.txs = pool.txs)
            (fun _ k ht => (removeOrphan_samePool k).txs.trans ht) (fun _ _ ht => ht) _ rfl
      exact (congrArg (Finmap.lookup _) htxs).trans hnone
  | entry e =>
      simp only [hadm] at h ⊢
      split
      · next hkept => exact absurd (by rw [if_pos hkept]) h
      · next hgone => exact Option.not_isSome_iff_eq_none.mp hgone

/-- A pass makes the orphans pending that are listed under the id of its
transaction, if it accepts it, and no others. -/
theorem ListedBut.addOne {pending : List Hash256} (hs : pool.ListedBut ctx.utxo pending) :
    (Mempool.addOne c ctx pool tx).2.ListedBut ctx.utxo
      (if (Mempool.addOne c ctx pool tx).1 = .accepted then
        waitingFor ctx (Mempool.addOne c ctx pool tx).2 (tx.hash c) ++ pending else pending) := by
  rcases addOne_cases c ctx pool tx with ⟨status, heq, hne⟩ | ⟨hok, r, hres, hcase⟩
  · rw [heq, if_neg hne]
    exact hs
  · rcases hcase with ⟨hmissing, heq⟩ | ⟨e, he, heq, -⟩
    · rw [heq, if_neg nofun]
      obtain ⟨parent, hparent⟩ := List.exists_mem_of_ne_nil _ hmissing
      refine hs.addOrphan hok.notOrphan ?_
      rcases (resolveInputs_missing hres).2 parent hparent with hnil | ⟨txin, htxin, habsent, rfl⟩
      · cases hnil
      · exact ⟨txin, htxin, habsent, hparent⟩
    · have htxs (k : Hash256) (hne : k ≠ tx.hash c) (hk : pool.txs.lookup k = none) :
          (Mempool.addOne c ctx pool tx).2.txs.lookup k = none := by
        rw [heq, trimToLimits, without_trimLoop _ _ k, lookup_insertEntry, if_neg hne, hk, ite_self]
      have hsame : SameOrphans pool (Mempool.addOne c ctx pool tx).2 := by
        rw [heq]
        exact trimLoop_sameOrphans _ _
      split
      · intro k o ho hk
        rw [hsame.1] at ho
        rw [List.mem_append, not_or] at hk
        obtain ⟨txin, htxin, habsent, hmem⟩ := hs k o ho hk.2
        have hlisted := hsame.2.2 ▸ hmem
        have hparent : txin.prevout.txHash ≠ tx.hash c := fun hparent =>
          hk.1 ((ctx.bucket_perm _).mem_iff.mpr (List.mem_map.mpr
            ⟨_, List.mem_filter.mpr ⟨hlisted, by simpa using hparent⟩, rfl⟩))
        exact ⟨txin, htxin, ⟨habsent.1, htxs _ hparent habsent.2⟩, hlisted⟩
      · next hne =>
          refine hs.congr hsame fun k hk => ?_
          by_cases hk' : k = tx.hash c
          · rw [hk']
            exact lookup_of_not_accepted hok.fresh hne
          · exact htxs k hk' hk

/-- The loop over pending orphans settles them. -/
theorem ListedBut.processOrphans {pending : List Hash256}
    {add : Mempool → Transaction → Option (AcceptStatus × Mempool)}
    (hadd : ∀ {pool : Mempool} {tx : Transaction} {status : AcceptStatus} {pool' : Mempool}
      {pending : List Hash256}, pool.ListedBut utxo pending → add pool tx = some (status, pool') →
      pool'.ListedBut utxo pending) :
    ∀ {ready : List Hash256} {pool pool' : Mempool}, pool.ListedBut utxo (ready ++ pending) →
      Mempool.processOrphans add pool ready = some pool' → pool'.ListedBut utxo pending
  | [], _, _, hs, h => by
      cases h
      exact hs
  | k :: ready, pool, pool', hs, h => by
      have hremoved : (pool.removeOrphan k).ListedBut utxo (ready ++ pending) := hs.removeOrphan
      rw [Mempool.processOrphans] at h
      cases he : pool.orphans.lookup k with
      | none =>
          rw [he] at h
          have hsame : pool.removeOrphan k = pool := by rw [Mempool.removeOrphan, he]
          rw [hsame] at hremoved
          exact ListedBut.processOrphans hadd hremoved h
      | some e =>
          rw [he] at h
          simp only at h
          cases hone : add (pool.removeOrphan k) e.tx with
          | none => rw [hone] at h; cases h
          | some res =>
              rw [hone] at h
              exact ListedBut.processOrphans hadd (hadd hremoved hone) h

theorem ListedBut.addTransaction : ∀ {fuel : Nat} {pool : Mempool} {tx : Transaction}
    {status : AcceptStatus} {pool' : Mempool} {pending : List Hash256},
    pool.ListedBut ctx.utxo pending →
    Mempool.addTransaction c ctx fuel pool tx = some (status, pool') →
    pool'.ListedBut ctx.utxo pending
  | 0, _, _, _, _, _, _, h => by cases h
  | fuel + 1, pool, tx, status, pool', pending, hs, h => by
      have hone : (Mempool.addOne c ctx pool tx).2.ListedBut ctx.utxo
          (if (Mempool.addOne c ctx pool tx).1 = .accepted then
            waitingFor ctx (Mempool.addOne c ctx pool tx).2 (tx.hash c) ++ pending
          else pending) := hs.addOne
      rw [Mempool.addTransaction] at h
      generalize Mempool.addOne c ctx pool tx = res at h hone
      obtain ⟨v, t⟩ := res
      cases v with
      | accepted =>
          rw [if_pos rfl] at hone
          obtain ⟨t', hloop, heq⟩ := Option.map_eq_some_iff.mp h
          cases heq
          exact hone.processOrphans (fun hs h => hs.addTransaction h) hloop
      | _ =>
          cases h
          exact hone

/-- Runs whose calls read one UTXO set. -/
def Rules.reading (utxo : UTXOSet) : Rules where
  context := fun ctx => ctx.utxo = utxo
  pass := fun _ _ _ => True
  remove := fun _ _ => True
  expire := fun _ _ => True
  trim := fun _ => True

theorem listed_of_reachable (h : Reachable c (.reading utxo) pool) : pool.Listed utxo := by
  refine h.rule listed_empty (fun hctx ht hadd => ?_)
    (fun t k ht => (ht.mono (List.nil_subset _)).removeOrphan) fun t k ht => ?_
  · cases hctx
    exact ht.addTransaction hadd
  · refine ht.congr (removeTransaction_sameOrphans t k) fun j hj => ?_
    rw [without_removeTransaction t k j, hj, ite_self]

/-- A call returns. From a pool that operations lead to it looks at no orphan
twice for one parent. It leaves no orphan that lacks nothing if before each was
listed under a parent that it lacked, and they are in every run whose calls read one
UTXO set. -/
theorem orphans_promoted (c : Crypto) (ctx : Context) (pool : Mempool) (tx : Transaction) :
    ∃ status pool',
      (∀ fuel, pool.orphans.keys.card < fuel →
        addTransaction c ctx fuel pool tx = some (status, pool') ∧
          (Reachable c .any pool → (looks c ctx fuel pool tx).Nodup)) ∧
      (pool.Listed ctx.utxo → pool'.Listed ctx.utxo ∧ ∀ h, ¬ Ready ctx.utxo pool' h) ∧
      (Reachable c (.reading ctx.utxo) pool → pool.Listed ctx.utxo) := by
  obtain ⟨status, pool', hcall, -⟩ := addTransaction_total c ctx _ pool tx (Nat.lt_succ_self _)
  refine ⟨status, pool', fun fuel hfuel => ?_, fun hlisted => ?_, listed_of_reachable⟩
  · have hreturns := addTransaction_mono hfuel hcall
    exact ⟨hreturns, fun hreach => (addTransaction_promotes (sound_of_reachable hreach)
      (indexed_of_reachable hreach) hreturns).nodup⟩
  · have hlisted' : pool'.Listed ctx.utxo := ListedBut.addTransaction hlisted hcall
    exact ⟨hlisted', hlisted'.not_ready⟩

section

open Regtest

/-- 180000 of the outputs of `payment` and of another transaction. -/
def jointPayment : Transaction where
  version := 1
  inputs := ⟨[⟨⟨0x9b58c99dc7df8151ded21db129cc6c5d52a5f49a163d1a93cd733d1654d80276, 0⟩, scriptSig
      0x6677bd1664d8af24eb610e0487da77ae91f06c1088f6ef1c1226e8d849039aea
      0x41bedceded3a9cb1bfc3ff0eeadd748501eed2626aeea6f5060c091f7efd7669 alice, 0xffffffff⟩,
    ⟨⟨0x8, 0⟩, scriptSig
      0x8469dd7644f2dc2637b040ed6d743311ea7b6f40f9ab693d6128b04d0630d9e3
      0x799bdb5aa6355776336b0f434e778ac6e6bcdf48d7fe17267b01b2b985a48b21 alice, 0xffffffff⟩], by simp⟩
  outputs := ⟨[⟨180000, aliceAddress⟩], by simp⟩
  lockTime := 0

/-- The tables, with the digest of `jointPayment`. -/
def jointCrypto : Crypto :=
  { crypto with
    sha3_512 := fun data =>
      if data = jointPayment.serialize then
        0xd2b30c5ae90bad1f571023436717b2f04f46e274b5429af18ab3a911bde7d5962f60770db52921d2b035ce9a89e4b2c07fcc33853a6b1153af4ac90096f87374
      else crypto.sha3_512 data }

/-- The other transaction has been confirmed. -/
def jointConfirmed : UTXOSet := confirmed.insert ⟨8, 0⟩ ⟨⟨100000, aliceAddress⟩, 10, false⟩

/-- `jointPayment` is queued for the one parent, the other leaves the pool, the
one is confirmed, and the other comes back: the pools around its return. -/
def jointRun : Option (Mempool × AcceptStatus × Mempool) :=
  (addTransaction jointCrypto (context confirmed) 1 empty payment).bind fun x =>
    (addTransaction jointCrypto (context confirmed) 1 x.2 jointPayment).bind fun y =>
      (addTransaction jointCrypto (context jointConfirmed) 1
        (y.2.removeTransaction (payment.hash jointCrypto)) payment).map fun z =>
          (y.2.removeTransaction (payment.hash jointCrypto), z)

theorem reachable_jointRun {before after : Mempool} {status : AcceptStatus}
    (h : jointRun = some (before, status, after)) : Reachable jointCrypto .any before ∧
      addTransaction jointCrypto (context jointConfirmed) 1 before payment
        = some (status, after) := by
  obtain ⟨⟨status₁, pool₁⟩, h₁, h⟩ := Option.bind_eq_some_iff.mp h
  obtain ⟨⟨status₂, pool₂⟩, h₂, h⟩ := Option.bind_eq_some_iff.mp h
  obtain ⟨⟨status₃, pool₃⟩, h₃, heq⟩ := Option.map_eq_some_iff.mp h
  cases heq
  have hadded : Reachable jointCrypto .any pool₂ :=
    .add (.add .start True.intro (fun _ _ => True.intro) h₁) True.intro (fun _ _ => True.intro) h₂
  exact ⟨hadded.remove True.intro, h₃⟩

theorem not_orphans_promoted : ¬ ∀ (c : Crypto) (ctx : Context) (fuel : Nat) (pool pool' : Mempool)
    (tx : Transaction), Reachable c .any pool → (∀ h, ¬ Ready ctx.utxo pool h) →
      addTransaction c ctx fuel pool tx = some (.accepted, pool') →
      pool'.totalBytes < Constants.maxMempoolSizeBytes →
      pool'.txs.keys.card < Constants.maxMempoolTransactions → ∀ h, ¬ Ready ctx.utxo pool' h := by
  have hbefore : jointRun.map (fun x => (x.1.orphans.keys,
      (x.1.orphans.lookup (jointPayment.hash jointCrypto)).map (·.tx),
      (x.1.txs.lookup (payment.hash jointCrypto)).isSome))
        = some ({jointPayment.hash jointCrypto}, some jointPayment, false) := by decide +kernel
  have hafter : jointRun.map (fun x => (x.2.1,
      (x.2.2.orphans.lookup (jointPayment.hash jointCrypto)).map (·.tx),
      (x.2.2.txs.lookup (payment.hash jointCrypto)).isSome))
        = some (.accepted, some jointPayment, true) := by decide +kernel
  have hlimits : jointRun.map (fun x =>
      (decide (x.2.2.totalBytes < Constants.maxMempoolSizeBytes),
        decide (x.2.2.txs.keys.card < Constants.maxMempoolTransactions)))
        = some (true, true) := by decide +kernel
  obtain ⟨⟨before, status, after⟩, hrun, hbefore⟩ := Option.map_eq_some_iff.mp hbefore
  rw [hrun, Option.map_some, Option.some.injEq] at hafter hlimits
  simp only [Prod.mk.injEq, Option.map_eq_some_iff, Option.isSome_eq_false_iff,
    Option.isNone_iff_eq_none, Option.isSome_iff_exists, decide_eq_true_eq] at hbefore hafter hlimits
  obtain ⟨hkeys, ⟨e, he, htx⟩, hgone⟩ := hbefore
  obtain ⟨rfl, ⟨e', he', htx'⟩, parent, hparent⟩ := hafter
  obtain ⟨hreach, hcall⟩ := reachable_jointRun hrun
  have hspends : ∃ txin ∈ jointPayment.inputs.toList, jointConfirmed.lookup txin.prevout = none ∧
      txin.prevout.txHash = payment.hash jointCrypto := by decide +kernel
  have hpresent : ∀ txin ∈ jointPayment.inputs.toList,
      (jointConfirmed.lookup txin.prevout).isSome = true ∨
        txin.prevout.txHash = payment.hash jointCrypto := by decide +kernel
  intro hclaim
  refine hclaim jointCrypto (context jointConfirmed) 1 before after payment hreach
    (fun h hready => ?_) hcall hlimits.1 hlimits.2 (jointPayment.hash jointCrypto)
    ⟨e', he', fun txin htxin habsent => ?_⟩
  · obtain ⟨o, ho, hready⟩ := hready
    have hmem : h ∈ before.orphans.keys := Finmap.mem_keys.mpr (Finmap.mem_of_lookup_eq_some ho)
    rw [hkeys, Finset.mem_singleton] at hmem
    rw [hmem, he] at ho
    cases ho
    obtain ⟨txin, htxin, hunconfirmed, hhash⟩ := hspends
    exact hready txin (htx ▸ htxin) ⟨hunconfirmed, hhash ▸ hgone⟩
  · obtain ⟨hunconfirmed, hnone⟩ := habsent
    rw [htx'] at htxin
    rcases hpresent txin htxin with hsome | hhash
    · rw [show jointConfirmed.lookup txin.prevout = none from hunconfirmed] at hsome
      cases hsome
    · rw [hhash, hparent] at hnone
      cases hnone

end

end Mempool

end Cryptex
