import Cryptex.MempoolInvariant
import Mathlib.Algebra.BigOperators.Ring.Finset

/-!
# Orphans and the order of arrival

A set of transactions that spend each other's outputs, each of which the
mempool would take once its parents are there, may arrive in any order. Those
that come early wait among the orphans; whichever order it was, the pool ends
up with all of them.
-/

namespace Cryptex

namespace Mempool

variable {c : Crypto} {ctx ctx' : Context} {pool pool' : Mempool} {tx : Transaction}
  {T : List Transaction}

/-! ## The set that arrives -/

/-- The transaction spends an output of the other. -/
def Spends (c : Crypto) (tx parent : Transaction) : Prop :=
  ∃ txin ∈ tx.inputs.toList, txin.prevout.txHash = parent.hash c

instance (c : Crypto) (tx parent : Transaction) : Decidable (Spends c tx parent) :=
  inferInstanceAs (Decidable (∃ txin ∈ tx.inputs.toList, _))

/-- The pool with a transaction more. -/
def hold (c : Crypto) (pool : Mempool) (tx : Transaction) : Mempool :=
  pool.insertEntry (tx.hash c) ⟨tx, tx.serialize.length, 0, 0, 0⟩

/-- A pool with the given transactions and nothing else. -/
def holding (c : Crypto) (txs : List Transaction) : Mempool := txs.foldl (hold c) empty

/-- The pool that has the parents of a transaction. -/
def parentsOnly (c : Crypto) (T : List Transaction) (tx : Transaction) : Mempool :=
  holding c (T.filter (Spends c tx ·))

/-- A finite acyclic set without conflicting inputs, within the limits of the
pool, each member of which is admitted once its parents are there. -/
structure Arrivable (c : Crypto) (ctx : Context) (T : List Transaction) : Prop where
  ids : (T.map (·.hash c)).Nodup
  acyclic : ∃ rank : Hash256 → Nat, ∀ tx ∈ T, ∀ parent ∈ T, Spends c tx parent →
    rank (parent.hash c) < rank (tx.hash c)
  disjoint : T.Pairwise fun tx tx' => ∀ i ∈ tx.inputs.toList, ∀ j ∈ tx'.inputs.toList,
    i.prevout ≠ j.prevout
  acceptable : ∀ tx ∈ T, ∃ e, admission c ctx (parentsOnly c T tx) tx = .entry e
  bytes : (T.map (·.serialize.length)).sum ≤ Constants.maxMempoolSizeBytes
  count : T.length ≤ Constants.maxMempoolTransactions

/-- Each of `W` has an input that is not confirmed and whose parent has not
arrived or is in `W` itself. -/
structure Waits (c : Crypto) (utxo : UTXOSet) (arrived W : List Transaction) : Prop where
  nodup : W.Nodup
  subset : ∀ tx ∈ W, tx ∈ arrived
  waits : ∀ tx ∈ W, ∃ txin ∈ tx.inputs.toList, utxo.lookup txin.prevout = none ∧
    ∀ parent ∈ arrived, parent.hash c = txin.prevout.txHash → parent ∈ W

/-- In no prefix of the order more transactions wait than there is room for. -/
def OrphanRoom (c : Crypto) (utxo : UTXOSet) (order : List Transaction) : Prop :=
  ∀ arrived W, arrived <+: order → Waits c utxo arrived W → W.length ≤ Constants.maxMempoolOrphans

/-- The calls read one chain and one standard policy. -/
structure SameChain (ctx ctx' : Context) : Prop where
  utxo : ctx'.utxo = ctx.utxo
  currentHeight : ctx'.currentHeight = ctx.currentHeight
  isStandardAddress : ctx'.isStandardAddress = ctx.isStandardAddress

/-- A run of `add_transaction` calls. -/
inductive Delivers (c : Crypto) : Mempool → List (Context × Transaction) → Mempool → Prop where
  | nil (pool : Mempool) : Delivers c pool [] pool
  | cons {ctx : Context} {tx : Transaction} {calls : List (Context × Transaction)} {fuel : Nat}
      {pool pool' pool'' : Mempool} {status : AcceptStatus} :
      addTransaction c ctx fuel pool tx = some (status, pool') → Delivers c pool' calls pool'' →
      Delivers c pool ((ctx, tx) :: calls) pool''

/-- The entry without the time of its arrival. -/
def TxEntry.untimed (e : TxEntry) : TxEntry := { e with entryTime := 0 }

/-- The pools differ in the times of arrival at most. -/
structure SameButTimes (pool pool' : Mempool) : Prop where
  txs : ∀ h, (pool.txs.lookup h).map TxEntry.untimed = (pool'.txs.lookup h).map TxEntry.untimed
  sortedByFeerate : pool.sortedByFeerate = pool'.sortedByFeerate
  spentOutpoints : pool.spentOutpoints = pool'.spentOutpoints
  totalBytes : pool.totalBytes = pool'.totalBytes
  orphans : pool.orphans = pool'.orphans
  orphanOrder : pool.orphanOrder = pool'.orphanOrder
  orphansByParent : pool.orphansByParent = pool'.orphansByParent

/-! ## Looking up the inputs -/

/-- A parent that the second pool holds the first one holds too. -/
def PartOf (full part : Mempool) (ins : List TxIn) : Prop :=
  ∀ txin ∈ ins, ∀ e, part.txs.lookup txin.prevout.txHash = some e →
    ∃ e', full.txs.lookup txin.prevout.txHash = some e' ∧ e'.tx = e.tx

/-- The input is neither confirmed nor made by the pool. -/
def Absent (utxo : UTXOSet) (pool : Mempool) (txin : TxIn) : Prop :=
  utxo.lookup txin.prevout = none ∧ pool.txs.lookup txin.prevout.txHash = none

/-- A part of the pool resolves what all of it resolves, save for the parents
that the part lacks. -/
theorem resolveInputs_part (hchain : SameChain ctx ctx') {full part : Mempool} :
    ∀ {ins : List TxIn} {seen : List OutPoint} {r r₁ s : Resolution}, PartOf full part ins →
      resolveInputs ctx full ins seen r = .ok r₁ → r₁.missing = [] →
      ∃ r₁', resolveInputs ctx' part ins seen s = .ok r₁' ∧
        (∀ h, h ∈ r₁'.missing ↔ h ∈ s.missing ∨
          ∃ txin ∈ ins, Absent ctx.utxo part txin ∧ txin.prevout.txHash = h) ∧
        ((∀ txin ∈ ins, ¬ Absent ctx.utxo part txin) → s = r → r₁' = r₁)
  | [], seen, r, r₁, s, _, h, _ => by
      cases h
      exact ⟨s, rfl, by simp, fun _ hr => hr⟩
  | txin :: rest, seen, r, r₁, s, hpart, h, hfull => by
      have htail : PartOf full part rest := fun i hi => hpart i (List.mem_cons_of_mem _ hi)
      rw [resolveInputs] at h
      split at h
      · cases h
      · next hseen =>
          rw [resolveInputs, if_neg hseen, hchain.utxo]
          split at h
          · next entry hentry =>
              obtain ⟨r₁', hres, hmissing, hsame⟩ := resolveInputs_part (s := { s with
                entries := s.entries ++ [entry]
                inputSum := s.inputSum + entry.output.value }) hchain htail h hfull
              refine ⟨r₁', hres, fun k => ?_, fun hnot hr => hsame (fun i hi => ?_) (by rw [hr])⟩
              · simp [hmissing, Absent, hentry]
              · exact hnot i (List.mem_cons_of_mem _ hi)
          · next hunconfirmed =>
              cases hheld : part.txs.lookup txin.prevout.txHash with
              | some parent =>
                  obtain ⟨parent', hparent', htx⟩ := hpart txin List.mem_cons_self _ hheld
                  rw [hparent'] at h
                  simp only [htx] at h ⊢
                  split at h
                  · cases h
                  · next out hout =>
                      obtain ⟨r₁', hres, hmissing, hsame⟩ := resolveInputs_part (s := { s with
                        entries := s.entries ++
                          [⟨out, ctx.currentHeight, parent.tx.isCoinbase⟩]
                        inputSum := s.inputSum + out.value }) hchain htail h hfull
                      rw [hchain.currentHeight]
                      refine ⟨r₁', hres, fun k => ?_, fun hnot hr => hsame (fun i hi => ?_)
                        (by rw [hr])⟩
                      · simp [hmissing, Absent, hheld]
                      · exact hnot i (List.mem_cons_of_mem _ hi)
              | none =>
                  have habsent : Absent ctx.utxo part txin := ⟨hunconfirmed, hheld⟩
                  have hrest : ∃ q, resolveInputs ctx full rest (txin.prevout :: seen) q
                      = .ok r₁ := by
                    split at h
                    · split at h
                      · cases h
                      · exact ⟨_, h⟩
                    · exact ⟨_, h⟩
                  obtain ⟨q, hq⟩ := hrest
                  obtain ⟨r₁', hres, hmissing, -⟩ := resolveInputs_part (s := { s with
                    missing :=
                      if txin.prevout.txHash ∈ s.missing then s.missing
                      else s.missing ++ [txin.prevout.txHash] }) hchain htail hq hfull
                  refine ⟨r₁', hres, fun k => ?_, fun hnot => ?_⟩
                  · rw [hmissing]
                    simp only [List.mem_cons, exists_eq_or_imp, habsent, true_and]
                    split
                    · next hmem =>
                        constructor
                        · tauto
                        · rintro (hk | rfl | hk)
                          · exact Or.inl hk
                          · exact Or.inl hmem
                          · exact Or.inr hk
                    · simp only [List.mem_append, List.mem_singleton, or_assoc]
                      tauto
                  · exact absurd habsent (hnot txin List.mem_cons_self)

/-! ## A pool with given transactions -/

theorem lookup_insertEntry {h k : Hash256} {e : TxEntry} :
    (pool.insertEntry h e).txs.lookup k = if k = h then some e else pool.txs.lookup k :=
  FinMap.lookup_insert_ite ..

theorem lookup_foldl_hold {txs : List Transaction} {h : Hash256} {e : TxEntry} :
    ∀ {pool : Mempool}, (txs.foldl (hold c) pool).txs.lookup h = some e →
      (e.tx ∈ txs ∧ e.tx.hash c = h) ∨ pool.txs.lookup h = some e := by
  induction txs with
  | nil => exact Or.inr
  | cons tx txs ih =>
      intro pool he
      rcases ih he with ⟨hmem, hid⟩ | hold
      · exact Or.inl ⟨List.mem_cons_of_mem _ hmem, hid⟩
      · rw [Mempool.hold, lookup_insertEntry] at hold
        split at hold
        · next heq =>
            cases hold
            exact Or.inl ⟨List.mem_cons_self, heq.symm⟩
        · exact Or.inr hold

theorem isSome_foldl_hold {txs : List Transaction} {h : Hash256} : ∀ {pool : Mempool},
    (h ∈ txs.map (·.hash c) ∨ (pool.txs.lookup h).isSome) →
      ((txs.foldl (hold c) pool).txs.lookup h).isSome := by
  induction txs with
  | nil =>
      intro pool hmem
      simpa using hmem
  | cons tx txs ih =>
      intro pool hmem
      refine ih ?_
      rw [hold, lookup_insertEntry]
      rw [List.map_cons, List.mem_cons, or_assoc] at hmem
      rcases hmem with rfl | hmem | hsome
      · simp
      · exact Or.inl hmem
      · right
        split
        · rfl
        · exact hsome

theorem lookup_holding {txs : List Transaction} {h : Hash256} {e : TxEntry}
    (he : (holding c txs).txs.lookup h = some e) : e.tx ∈ txs ∧ e.tx.hash c = h := by
  rcases lookup_foldl_hold he with hmem | hold
  · exact hmem
  · cases hold

theorem holding_lookup {txs : List Transaction} (hmem : tx ∈ txs) :
    ∃ e, (holding c txs).txs.lookup (tx.hash c) = some e :=
  Option.isSome_iff_exists.mp
    (isSome_foldl_hold (Or.inl (List.mem_map_of_mem (f := (·.hash c)) hmem)))

theorem Arrivable.eq_of_hash (hT : Arrivable c ctx T) {tx tx' : Transaction} (htx : tx ∈ T)
    (htx' : tx' ∈ T) (h : tx.hash c = tx'.hash c) : tx = tx' :=
  List.inj_on_of_nodup_map hT.ids htx htx' h

/-- What the transactions of the set come to once their parents are there. -/
def Recorded (c : Crypto) (ctx : Context) (T : List Transaction) (e : TxEntry) : Prop :=
  e.tx ∈ T ∧ ∃ e₀, admission c ctx (parentsOnly c T e.tx) e.tx = .entry e₀ ∧ e.untimed = e₀.untimed

/-! ## The state of a run -/

/-- The pool and the orphans hold transactions of the set; an orphan is listed
under every parent it still lacks. -/
structure Progress (c : Crypto) (ctx : Context) (T : List Transaction) (pool : Mempool) : Prop where
  sound : pool.Sound c
  recorded : ∀ h e, pool.txs.lookup h = some e → Recorded c ctx T e
  orphaned : ∀ h e, pool.orphans.lookup h = some e → e.tx ∈ T ∧ pool.txs.lookup h = none
  listed : ∀ h e, pool.orphans.lookup h = some e → ∀ txin ∈ e.tx.inputs.toList,
    Absent ctx.utxo pool txin → (txin.prevout.txHash, h) ∈ pool.orphansByParent
  orphan : ∀ x ∈ pool.orphansByParent, ∃ e, pool.orphans.lookup x.2 = some e

theorem mem_parents {parent : Transaction} (hparent : parent ∈ T) (h : Spends c tx parent) :
    parent ∈ T.filter (Spends c tx ·) :=
  List.mem_filter.mpr ⟨hparent, by simpa using h⟩

theorem Progress.partOf (hP : Progress c ctx T pool) (hT : Arrivable c ctx T) :
    PartOf (parentsOnly c T tx) pool tx.inputs.toList := by
  intro txin htxin e he
  have hid := hP.sound.consistent.id he
  obtain ⟨hmem, -⟩ := hP.recorded _ e he
  have hspends : Spends c tx e.tx := ⟨txin, htxin, hid.symm⟩
  obtain ⟨e', he'⟩ := holding_lookup (c := c) (mem_parents hmem hspends)
  rw [hid] at he'
  obtain ⟨hmem', hid'⟩ := lookup_holding he'
  exact ⟨e', he', hT.eq_of_hash (List.mem_filter.mp hmem').1 hmem (hid'.trans hid.symm)⟩

/-! ## Admission over a part of the set -/

/-- What is admissible is judged by its inputs. -/
theorem admission_of_admissible (hok : Admissible c ctx pool tx) {r : Resolution}
    (hres : resolveInputs ctx pool tx.inputs.toList [] ⟨[], [], 0⟩ = .ok r) :
    (r.missing ≠ [] → admission c ctx pool tx = .orphan r.missing) ∧
      ∀ e, Admits c ctx tx r e → admission c ctx pool tx = .entry e := by
  unfold admission
  rw [if_neg (by simp [hok.basic]), if_neg (by simp [hok.notCoinbase]),
    if_neg (by simp [hok.fresh, hok.notOrphan]), if_neg (by simp [hok.standard]),
    if_neg (by simp [hok.unspent]), hres]
  constructor
  · intro hmissing
    simp only [if_pos hmissing]
  · intro e he
    simp only [if_neg (not_not.mpr he.found), if_neg he.nonneg, if_neg he.minFee]
    rw [if_neg (by simp [he.authorised]), he.entry]

/-- With the parents of the set a transaction is admissible. -/
theorem Arrivable.admits (hT : Arrivable c ctx T) (htx : tx ∈ T) :
    Admissible c ctx (parentsOnly c T tx) tx ∧ ∃ r e,
      resolveInputs ctx (parentsOnly c T tx) tx.inputs.toList [] ⟨[], [], 0⟩ = .ok r ∧
      Admits c ctx tx r e ∧ admission c ctx (parentsOnly c T tx) tx = .entry e := by
  obtain ⟨e, hadm⟩ := hT.acceptable tx htx
  rcases admission_cases c ctx (parentsOnly c T tx) tx with
    ⟨status, hrej, -⟩ | ⟨hok, r, hres, ⟨-, horphan⟩ | ⟨e', he', hentry⟩⟩
  · rw [hadm] at hrej
    cases hrej
  · rw [hadm] at horphan
    cases horphan
  · exact ⟨hok, r, e', hres, he', hentry⟩

theorem Arrivable.disjoint_of_ne (hT : Arrivable c ctx T) {tx tx' : Transaction} (htx : tx ∈ T)
    (htx' : tx' ∈ T) (hne : tx ≠ tx') :
    ∀ i ∈ tx.inputs.toList, ∀ j ∈ tx'.inputs.toList, i.prevout ≠ j.prevout := by
  have : Std.Symm fun tx tx' : Transaction => ∀ i ∈ tx.inputs.toList,
      ∀ j ∈ tx'.inputs.toList, i.prevout ≠ j.prevout :=
    ⟨fun _ _ h i hi j hj heq => h j hj i hi heq.symm⟩
  exact hT.disjoint.forall htx htx' hne

/-- A member of the set that the pool does not know is admissible. -/
theorem Progress.admissible (hP : Progress c ctx T pool) (hT : Arrivable c ctx T)
    (hchain : SameChain ctx ctx') (htx : tx ∈ T) (hfresh : pool.txs.lookup (tx.hash c) = none)
    (hnew : pool.orphans.lookup (tx.hash c) = none) : Admissible c ctx' pool tx := by
  obtain ⟨hok, -⟩ := hT.admits htx
  refine ⟨hok.basic, hok.notCoinbase, hfresh, hnew, ?_, ?_⟩
  · rw [← hok.standard, violatesStandardPolicy, violatesStandardPolicy, hchain.isStandardAddress]
  · refine List.any_eq_false.mpr fun txin htxin hspent => ?_
    obtain ⟨h, hh⟩ := Option.isSome_iff_exists.mp hspent
    obtain ⟨e, he, i, hi, heq⟩ := hP.sound.consistent.spent.mp hh
    have hne : tx ≠ e.tx := by
      rintro rfl
      rw [hP.sound.consistent.id he, he] at hfresh
      cases hfresh
    exact hT.disjoint_of_ne htx (hP.recorded h e he).1 hne txin htxin i hi heq.symm

/-- It is admitted when no parent is missing, and an orphan otherwise. -/
theorem Progress.admission (hP : Progress c ctx T pool) (hT : Arrivable c ctx T)
    (hchain : SameChain ctx ctx') (htx : tx ∈ T) (hfresh : pool.txs.lookup (tx.hash c) = none)
    (hnew : pool.orphans.lookup (tx.hash c) = none) :
    ((∀ txin ∈ tx.inputs.toList, ¬ Absent ctx.utxo pool txin) ∧ ∃ e,
        Mempool.admission c ctx' pool tx = .entry e ∧ e.tx = tx ∧ Recorded c ctx T e ∧
          e.size = tx.serialize.length) ∨
      ∃ missing, missing ≠ [] ∧ Mempool.admission c ctx' pool tx = .orphan missing ∧
        ∀ h, h ∈ missing ↔
          ∃ txin ∈ tx.inputs.toList, Absent ctx.utxo pool txin ∧ txin.prevout.txHash = h := by
  obtain ⟨-, r, e, hres, he, hentry⟩ := hT.admits htx
  obtain ⟨r', hres', hmissing, hsame⟩ := resolveInputs_part (s := ⟨[], [], 0⟩) hchain
    (hP.partOf hT) hres he.found
  simp only [List.not_mem_nil, false_or] at hmissing
  obtain ⟨horphan, hadmits⟩ := admission_of_admissible (hP.admissible hT hchain htx hfresh hnew) hres'
  by_cases hnil : r'.missing = []
  · left
    have hnone : ∀ txin ∈ tx.inputs.toList, ¬ Absent ctx.utxo pool txin := by
      intro txin htxin habsent
      have hmem := (hmissing _).mpr ⟨txin, htxin, habsent, rfl⟩
      rw [hnil] at hmem
      cases hmem
    have hr := hsame hnone rfl
    subst hr
    refine ⟨hnone, { e with entryTime := ctx'.now }, hadmits _ ?_, ?_, ⟨?_, e, ?_, rfl⟩, ?_⟩
    · exact ⟨he.found, he.nonneg, he.minFee, hchain.currentHeight ▸ he.authorised,
        by rw [he.entry]⟩
    · rw [he.entry]
    · rw [he.entry]
      exact htx
    · rw [← hentry, he.entry]
    · rw [he.entry]
  · exact Or.inr ⟨r'.missing, hnil, horphan hnil, hmissing⟩

/-! ## Room for the set -/

theorem Recorded.size {e : TxEntry} (h : Recorded c ctx T e) : e.size = e.tx.serialize.length := by
  obtain ⟨-, e₀, hadm, heq⟩ := h
  rcases admission_cases c ctx (parentsOnly c T e.tx) e.tx with
    ⟨status, hrej, -⟩ | ⟨-, r, -, ⟨-, horphan⟩ | ⟨e', he', hentry⟩⟩
  · rw [hadm] at hrej
    cases hrej
  · rw [hadm] at horphan
    cases horphan
  · rw [hadm] at hentry
    cases hentry
    have hsize : e.untimed.size = e₀.untimed.size := by rw [heq]
    rw [he'.entry] at hsize
    exact hsize

/-- The ids of the members that the pool holds. -/
def pooledIds (c : Crypto) (T : List Transaction) (pool : Mempool) : List Hash256 :=
  (T.filter fun tx => (pool.txs.lookup (tx.hash c)).isSome).map (·.hash c)

theorem Arrivable.pooledIds_nodup (hT : Arrivable c ctx T) (pool : Mempool) :
    (pooledIds c T pool).Nodup :=
  hT.ids.sublist (List.filter_sublist.map _)

theorem mem_pooledIds (hs : pool.Consistent c)
    (hrec : ∀ h e, pool.txs.lookup h = some e → Recorded c ctx T e) (k : Hash256) :
    k ∈ pooledIds c T pool ↔ ∃ e, pool.txs.lookup k = some e := by
  simp only [pooledIds, List.mem_map, List.mem_filter, Option.isSome_iff_exists]
  constructor
  · rintro ⟨tx, ⟨-, e, he⟩, rfl⟩
    exact ⟨e, he⟩
  · rintro ⟨e, he⟩
    have hid := hs.id he
    exact ⟨e.tx, ⟨(hrec k e he).1, e, by rw [hid]; exact he⟩, hid⟩

/-- What is recorded of the set fits the pool. -/
theorem Arrivable.withinLimits (hT : Arrivable c ctx T) (hs : pool.Consistent c)
    (hrec : ∀ h e, pool.txs.lookup h = some e → Recorded c ctx T e) :
    pool.overLimits = false := by
  have hnd := hT.pooledIds_nodup pool
  have hmem := mem_pooledIds hs hrec
  have hcard : pool.txs.keys.card ≤ T.length := by
    rw [FinMap.card_keys_eq hnd hmem, pooledIds, List.length_map]
    exact List.length_filter_le _ _
  have hbytes : pool.totalBytes ≤ (T.map (·.serialize.length)).sum := by
    have hsum : (pool.totalBytes : Int)
        = (((T.filter fun tx => (pool.txs.lookup (tx.hash c)).isSome).map
            fun tx => (tx.serialize.length : Int)).sum) := by
      rw [hs.bytes, FinMap.sumBy_eq_sum _ hnd hmem, pooledIds, List.map_map]
      congr 1
      refine List.map_congr_left fun tx htx => ?_
      obtain ⟨htx, hsome⟩ := List.mem_filter.mp htx
      obtain ⟨e, he⟩ := Option.isSome_iff_exists.mp hsome
      have heq : e.tx = tx := hT.eq_of_hash (hrec _ e he).1 htx (hs.id he)
      rw [Function.comp_apply, he, Option.elim_some, (hrec _ e he).size, heq]
    have hle : ((T.filter fun tx => (pool.txs.lookup (tx.hash c)).isSome).map
        fun tx => tx.serialize.length).sum ≤ (T.map (·.serialize.length)).sum :=
      (List.filter_sublist.map _).sum_le_sum (fun _ _ => Nat.zero_le _)
    have hcast : (((T.filter fun tx => (pool.txs.lookup (tx.hash c)).isSome).map
        fun tx => (tx.serialize.length : Int)).sum)
        = ((((T.filter fun tx => (pool.txs.lookup (tx.hash c)).isSome).map
            fun tx => tx.serialize.length).sum : Nat) : Int) := by
      rw [Nat.cast_list_sum, List.map_map]
      rfl
    omega
  have hcount := hT.count
  have hroom := hT.bytes
  simp only [overLimits, Bool.or_eq_false_iff, decide_eq_false_iff_not, Nat.not_lt]
  omega

theorem trimToLimits_of_withinLimits (h : pool.overLimits = false) : pool.trimToLimits = pool := by
  unfold trimToLimits
  cases hl : pool.sortedByFeerate with
  | nil => rfl
  | cons k rest =>
      rw [List.length_cons, trimLoop, hl]
      simp only [h, Bool.false_eq_true, if_false]

/-! ## One arrival -/

/-- The pool or the orphans hold the transaction. -/
def Known (pool : Mempool) (h : Hash256) : Prop :=
  (∃ e, pool.txs.lookup h = some e) ∨ ∃ e, pool.orphans.lookup h = some e

/-- An orphan that lacks nothing any more. -/
def Ready (utxo : UTXOSet) (pool : Mempool) (h : Hash256) : Prop :=
  ∃ e, pool.orphans.lookup h = some e ∧ ∀ txin ∈ e.tx.inputs.toList, ¬ Absent utxo pool txin

/-- What the arrival of a transaction of the set leads to. -/
structure Arrives (c : Crypto) (ctx : Context) (T : List Transaction) (pool : Mempool)
    (txHash : Hash256) (pool' : Mempool) : Prop where
  progress : Progress c ctx T pool'
  known : ∀ h, Known pool' h ↔ h = txHash ∨ Known pool h
  ready : ∀ h, Ready ctx.utxo pool' h → Ready ctx.utxo pool h
  length : pool'.orphanOrder.length ≤ pool.orphanOrder.length + 1

theorem evictOrphans_of_room (h : pool.orphanOrder.length < Constants.maxMempoolOrphans)
    (fuel : Nat) : evictOrphans fuel pool = pool := by
  cases fuel with
  | zero => rfl
  | succ fuel =>
      rw [evictOrphans]
      split
      · rfl
      · rw [if_neg (by omega)]

theorem addOrphan_of_room {h : Hash256} {e : OrphanEntry} {missing : List Hash256}
    (hnew : pool.orphans.lookup h = none)
    (hroom : pool.orphanOrder.length < Constants.maxMempoolOrphans) :
    pool.addOrphan h e missing = { pool with
      orphans := pool.orphans.insert h e
      orphanOrder := pool.orphanOrder ++ [h]
      orphansByParent := pool.orphansByParent ++ missing.map fun parent => (parent, h) } := by
  rw [addOrphan, if_neg (by simp [hnew]), evictOrphans_of_room hroom]

theorem removeOrphan_of_some {h : Hash256} {e : OrphanEntry} (he : pool.orphans.lookup h = some e) :
    pool.removeOrphan h = { pool with
      orphans := pool.orphans.erase h
      orphanOrder := pool.orphanOrder.filter (· ≠ h)
      orphansByParent := pool.orphansByParent.filter (·.2 ≠ h) } := by
  rw [removeOrphan, he]

theorem Absent.of_insertEntry {utxo : UTXOSet} {h : Hash256} {e : TxEntry} {txin : TxIn}
    (habsent : Absent utxo (pool.insertEntry h e) txin) : Absent utxo pool txin := by
  obtain ⟨hunconfirmed, hnone⟩ := habsent
  rw [lookup_insertEntry] at hnone
  split at hnone
  · cases hnone
  · exact ⟨hunconfirmed, hnone⟩

theorem Progress.insertEntry (hP : Progress c ctx T pool) {e : TxEntry}
    (hsound : (pool.insertEntry (tx.hash c) e).Sound c) (he : Recorded c ctx T e)
    (hnew : pool.orphans.lookup (tx.hash c) = none) :
    Progress c ctx T (pool.insertEntry (tx.hash c) e) := by
  refine ⟨hsound, fun h e' he' => ?_, fun h o ho => ?_, fun h o ho txin htxin habsent => ?_,
    hP.orphan⟩
  · rw [lookup_insertEntry] at he'
    split at he'
    · cases he'
      exact he
    · exact hP.recorded h e' he'
  · obtain ⟨hmem, hnone⟩ := hP.orphaned h o ho
    refine ⟨hmem, ?_⟩
    rw [lookup_insertEntry, if_neg, hnone]
    rintro rfl
    have ho' : pool.orphans.lookup (tx.hash c) = some o := ho
    rw [hnew] at ho'
    cases ho'
  · exact hP.listed h o ho txin htxin habsent.of_insertEntry

theorem Progress.addOrphan (hP : Progress c ctx T pool) (htx : tx ∈ T) {now : Nat}
    {missing : List Hash256} (hfresh : pool.txs.lookup (tx.hash c) = none)
    (hnew : pool.orphans.lookup (tx.hash c) = none)
    (hroom : pool.orphanOrder.length < Constants.maxMempoolOrphans)
    (hmissing : ∀ h, h ∈ missing ↔
      ∃ txin ∈ tx.inputs.toList, Absent ctx.utxo pool txin ∧ txin.prevout.txHash = h)
    (hsound : (pool.addOrphan (tx.hash c) ⟨tx, now⟩ missing).Sound c) :
    Progress c ctx T (pool.addOrphan (tx.hash c) ⟨tx, now⟩ missing) := by
  rw [addOrphan_of_room hnew hroom] at hsound ⊢
  refine ⟨hsound, hP.recorded, fun h o ho => ?_, fun h o ho txin htxin habsent => ?_,
    fun x hx => ?_⟩
  · simp only [FinMap.lookup_insert_ite] at ho
    split at ho
    · next heq =>
        cases ho
        rw [heq]
        exact ⟨htx, hfresh⟩
    · exact hP.orphaned h o ho
  · simp only [FinMap.lookup_insert_ite] at ho
    rw [List.mem_append]
    split at ho
    · next heq =>
        cases ho
        right
        rw [heq]
        exact List.mem_map_of_mem ((hmissing _).mpr ⟨txin, htxin, habsent, rfl⟩)
    · exact Or.inl (hP.listed h o ho txin htxin habsent)
  · simp only [FinMap.lookup_insert_ite]
    split
    · exact ⟨_, rfl⟩
    · next hne =>
        rcases List.mem_append.mp hx with hx | hx
        · exact hP.orphan x hx
        · obtain ⟨parent, -, rfl⟩ := List.mem_map.mp hx
          exact absurd rfl hne

theorem Progress.removeOrphan (hP : Progress c ctx T pool) (h : Hash256) :
    Progress c ctx T (pool.removeOrphan h) := by
  have hsound := hP.sound.removeOrphan h
  cases he : pool.orphans.lookup h with
  | none =>
      have hsame : pool.removeOrphan h = pool := by rw [Mempool.removeOrphan, he]
      rw [hsame]
      exact hP
  | some e =>
      rw [removeOrphan_of_some he] at hsound ⊢
      refine ⟨hsound, hP.recorded, fun k o ho => ?_, fun k o ho txin htxin habsent => ?_,
        fun x hx => ?_⟩
      · simp only [FinMap.lookup_erase_ite] at ho
        split at ho
        · cases ho
        · exact hP.orphaned k o ho
      · simp only [FinMap.lookup_erase_ite] at ho
        split at ho
        · cases ho
        · next hne =>
            exact List.mem_filter.mpr ⟨hP.listed k o ho txin htxin habsent, by simpa using hne⟩
      · obtain ⟨hx, hne⟩ := List.mem_filter.mp hx
        simp only [FinMap.lookup_erase_ite]
        rw [if_neg (by simpa using hne)]
        exact hP.orphan x hx

/-- One pass over a member that the pool does not know. -/
theorem Progress.addOne (hP : Progress c ctx T pool) (hT : Arrivable c ctx T)
    (hchain : SameChain ctx ctx') (htx : tx ∈ T) (hunknown : ¬ Known pool (tx.hash c))
    (hroom : (∃ txin ∈ tx.inputs.toList, Absent ctx.utxo pool txin) →
      pool.orphanOrder.length < Constants.maxMempoolOrphans) :
    (∃ pool', Mempool.addOne c ctx' pool tx = (.accepted, pool') ∧ Progress c ctx T pool' ∧
        (∀ h, Known pool' h ↔ h = tx.hash c ∨ Known pool h) ∧
        (∀ h, Ready ctx.utxo pool' h →
          Ready ctx.utxo pool h ∨ h ∈ waitingFor ctx' pool' (tx.hash c)) ∧
        pool'.orphanOrder = pool.orphanOrder) ∨
      ∃ pool', Mempool.addOne c ctx' pool tx = (.missingInputs, pool') ∧
        Arrives c ctx T pool (tx.hash c) pool' := by
  have hfresh : pool.txs.lookup (tx.hash c) = none :=
    Option.eq_none_iff_forall_ne_some.mpr fun e he => hunknown (Or.inl ⟨e, he⟩)
  have hnew : pool.orphans.lookup (tx.hash c) = none :=
    Option.eq_none_iff_forall_ne_some.mpr fun e he => hunknown (Or.inr ⟨e, he⟩)
  have hsound : (Mempool.addOne c ctx' pool tx).2.Sound c := hP.sound.addOne
  rcases hP.admission hT hchain htx hfresh hnew with
    ⟨hpresent, e, hadm, rfl, he, -⟩ | ⟨missing, hne, hadm, hmissing⟩
  · left
    have hrec : ∀ h e', (pool.insertEntry (e.tx.hash c) e).txs.lookup h = some e' →
        Recorded c ctx T e' := by
      intro h e' he'
      rw [lookup_insertEntry] at he'
      split at he'
      · cases he'
        exact he
      · exact hP.recorded h e' he'
    have hok := hP.admissible hT hchain htx hfresh hnew
    have hins : (pool.insertEntry (e.tx.hash c) e).Consistent c :=
      hP.sound.consistent.insertEntry hfresh (checkDoubleSpend_false hok.unspent)
    have hval : Mempool.addOne c ctx' pool e.tx = (.accepted, pool.insertEntry (e.tx.hash c) e) := by
      rw [Mempool.addOne, hadm]
      simp only
      rw [trimToLimits_of_withinLimits (hT.withinLimits hins hrec), if_pos]
      rw [lookup_insertEntry, if_pos rfl]
      rfl
    rw [hval] at hsound
    refine ⟨_, hval, hP.insertEntry hsound he hnew, fun h => ?_, fun h hready => ?_, rfl⟩
    · simp only [Known, lookup_insertEntry]
      by_cases hh : h = e.tx.hash c
      · simp [hh]
      · simp [hh, Mempool.insertEntry]
    · obtain ⟨o, ho, hpresent'⟩ := hready
      have ho' : pool.orphans.lookup h = some o := ho
      by_cases hall : ∀ txin ∈ o.tx.inputs.toList, ¬ Absent ctx.utxo pool txin
      · exact Or.inl ⟨o, ho', hall⟩
      · right
        push Not at hall
        obtain ⟨txin, htxin, habsent⟩ := hall
        have hlisted := hP.listed h o ho' txin htxin habsent
        have hparent : txin.prevout.txHash = e.tx.hash c := by
          by_contra hother
          refine hpresent' txin htxin ⟨habsent.1, ?_⟩
          rw [lookup_insertEntry, if_neg hother]
          exact habsent.2
        refine (ctx'.bucket_perm _).mem_iff.mpr
          (List.mem_map.mpr ⟨(txin.prevout.txHash, h), ?_, rfl⟩)
        exact List.mem_filter.mpr ⟨hlisted, by simpa using hparent⟩
  · right
    obtain ⟨k, hk⟩ := List.exists_mem_of_ne_nil missing hne
    obtain ⟨txin, htxin, habsent, -⟩ := (hmissing k).mp hk
    have hlt := hroom ⟨txin, htxin, habsent⟩
    have hval : Mempool.addOne c ctx' pool tx
        = (.missingInputs, pool.addOrphan (tx.hash c) ⟨tx, ctx'.now⟩ missing) := by
      rw [Mempool.addOne, hadm]
    rw [hval] at hsound
    refine ⟨_, hval, hP.addOrphan htx hfresh hnew hlt hmissing hsound, fun h => ?_, ?_, ?_⟩
    · rw [addOrphan_of_room hnew hlt]
      simp only [Known, FinMap.lookup_insert_ite]
      by_cases hh : h = tx.hash c
      · simp [hh]
      · simp [hh]
    · rw [addOrphan_of_room hnew hlt]
      rintro h ⟨o, ho, hpresent⟩
      simp only [FinMap.lookup_insert_ite] at ho
      split at ho
      · cases ho
        exact absurd habsent (hpresent txin htxin)
      · exact ⟨o, ho, hpresent⟩
    · rw [addOrphan_of_room hnew hlt, List.length_append, List.length_singleton]

/-! ## A call -/

/-- What is known and what is ready without one of the orphans. -/
theorem removeOrphan_known {k : Hash256} {o : OrphanEntry} (hP : Progress c ctx T pool)
    (hk : pool.orphans.lookup k = some o) :
    ¬ Known (pool.removeOrphan k) k ∧
      (∀ h, Known pool h ↔ h = k ∨ Known (pool.removeOrphan k) h) ∧
      (∀ utxo h, Ready utxo (pool.removeOrphan k) h → Ready utxo pool h ∧ h ≠ k) ∧
      (pool.removeOrphan k).orphanOrder.length < pool.orphanOrder.length := by
  have hpool := (hP.orphaned k o hk).2
  rw [removeOrphan_of_some hk]
  simp only [Known, Ready, FinMap.lookup_erase_ite]
  refine ⟨?_, fun h => ?_, ?_, ?_⟩
  · rintro (⟨e, he⟩ | ⟨e, he⟩)
    · rw [hpool] at he
      cases he
    · simp at he
  · by_cases hh : h = k
    · subst hh
      simp [hk]
    · simp [hh]
  · rintro utxo h ⟨e, he, hpresent⟩
    split at he
    · cases he
    · next hne => exact ⟨⟨e, he, hpresent⟩, hne⟩
  · refine List.length_filter_lt_length_iff_exists.mpr ⟨k, ?_, by simp⟩
    exact hP.sound.orphansOk.mem.mpr ⟨o, hk⟩

/-- A call with a member that the pool does not know. -/
theorem Progress.addTransaction (hT : Arrivable c ctx T) (hchain : SameChain ctx ctx') :
    ∀ (fuel : Nat) {pool : Mempool} {tx : Transaction} {status : AcceptStatus} {pool' : Mempool},
      Progress c ctx T pool → tx ∈ T → ¬ Known pool (tx.hash c) →
      ((∃ txin ∈ tx.inputs.toList, Absent ctx.utxo pool txin) →
        pool.orphanOrder.length < Constants.maxMempoolOrphans) →
      Mempool.addTransaction c ctx' fuel pool tx = some (status, pool') →
      Arrives c ctx T pool (tx.hash c) pool' := by
  intro fuel
  induction fuel with
  | zero => intro pool tx status pool' _ _ _ _ h; cases h
  | succ fuel ih =>
      -- the orphans of a bucket: what is ready beyond `ready₀` is still in the bucket
      have hloop : ∀ (ready₀ : Hash256 → Prop) (ready : List Hash256) {pool pool' : Mempool},
          Progress c ctx T pool →
          (∀ h, Ready ctx.utxo pool h → ready₀ h ∨ h ∈ ready) →
          processOrphans (Mempool.addTransaction c ctx' fuel) pool ready = some pool' →
          Progress c ctx T pool' ∧ (∀ h, Known pool' h ↔ Known pool h) ∧
            (∀ h, Ready ctx.utxo pool' h → ready₀ h) ∧
            pool'.orphanOrder.length ≤ pool.orphanOrder.length := by
        intro ready₀ ready
        induction ready with
        | nil =>
            intro pool pool' hP hready h
            cases h
            exact ⟨hP, fun _ => Iff.rfl, fun k hk => (hready k hk).resolve_right (by simp),
              Nat.le_refl _⟩
        | cons k ready ihr =>
            intro pool pool' hP hready h
            rw [processOrphans] at h
            cases hk : pool.orphans.lookup k with
            | none =>
                rw [hk] at h
                refine ihr hP (fun j hj => ?_) h
                rcases hready j hj with hold | hmem
                · exact Or.inl hold
                · rcases List.mem_cons.mp hmem with rfl | hmem
                  · obtain ⟨o, ho, -⟩ := hj
                    rw [hk] at ho
                    cases ho
                  · exact Or.inr hmem
            | some o =>
                rw [hk] at h
                simp only at h
                cases hadd : Mempool.addTransaction c ctx' fuel (pool.removeOrphan k) o.tx with
                | none => rw [hadd] at h; cases h
                | some res =>
                    obtain ⟨status, pool₁⟩ := res
                    rw [hadd] at h
                    have hid := hP.sound.orphansOk.id hk
                    obtain ⟨hunknown, hknown, hfewer, hlen⟩ := removeOrphan_known hP hk
                    have hbound := hP.sound.orphansOk.bound
                    have harr := ih (hP.removeOrphan k) (hP.orphaned k o hk).1
                      (by rw [hid]; exact hunknown) (fun _ => by omega) hadd
                    rw [hid] at harr
                    obtain ⟨hP', hknown', hready', hlen'⟩ := ihr harr.progress
                      (fun j hj => by
                        obtain ⟨hj, hne⟩ := hfewer _ j (harr.ready j hj)
                        rcases hready j hj with hold | hmem
                        · exact Or.inl hold
                        · exact Or.inr ((List.mem_cons.mp hmem).resolve_left hne)) h
                    have hlast := harr.length
                    exact ⟨hP', fun j => by rw [hknown', harr.known, hknown], hready', by omega⟩
      intro pool tx status pool' hP htx hunknown hroom h
      rw [Mempool.addTransaction] at h
      rcases hP.addOne hT hchain htx hunknown hroom with
        ⟨pool₁, hval, hP₁, hknown₁, hready₁, horder₁⟩ | ⟨pool₁, hval, harr⟩
      · rw [hval] at h
        obtain ⟨pool₂, hrun, heq⟩ := Option.map_eq_some_iff.mp h
        cases heq
        obtain ⟨hP₂, hknown₂, hready₂, hlen₂⟩ := hloop _ _ hP₁ hready₁ hrun
        refine ⟨hP₂, fun k => by rw [hknown₂, hknown₁], hready₂, ?_⟩
        rw [horder₁] at hlen₂
        omega
      · rw [hval] at h
        cases h
        exact harr

/-! ## A run -/

/-- Where a run stands after some of the transactions. -/
structure Arrived (c : Crypto) (ctx : Context) (T arrived : List Transaction) (pool : Mempool) :
    Prop where
  progress : Progress c ctx T pool
  known : ∀ h, Known pool h ↔ h ∈ arrived.map (·.hash c)
  noneReady : ∀ h, ¬ Ready ctx.utxo pool h

theorem arrived_empty : Arrived c ctx T [] empty := by
  have hnone : ∀ {V : Type} (h : Hash256), (∅ : FinMap Hash256 V).lookup h = none :=
    fun h => Finmap.lookup_empty h
  refine ⟨⟨sound_empty, ?_, ?_, ?_, ?_⟩, fun h => ?_, fun h => ?_⟩
  · intro h e he
    cases he
  · intro h e he
    cases he
  · intro h e he
    cases he
  · intro x hx
    cases hx
  · simp [Known, empty]
  · rintro ⟨e, he, -⟩
    cases he

/-- The members that arrived and are orphans still. -/
def waiting (c : Crypto) (pool : Mempool) (arrived : List Transaction) : List Transaction :=
  arrived.filter fun tx => (pool.orphans.lookup (tx.hash c)).isSome

variable {arrived : List Transaction}

theorem Arrived.length_waiting (hA : Arrived c ctx T arrived pool)
    (hnd : (arrived.map (·.hash c)).Nodup) :
    (waiting c pool arrived).length = pool.orphanOrder.length := by
  have hperm : ((waiting c pool arrived).map (·.hash c)).Perm pool.orphanOrder := by
    refine (List.perm_ext_iff_of_nodup (hnd.sublist (List.filter_sublist.map _))
      hA.progress.sound.orphansOk.nodup).mpr fun h => ?_
    rw [hA.progress.sound.orphansOk.mem, List.mem_map]
    constructor
    · rintro ⟨tx, htx, rfl⟩
      exact Option.isSome_iff_exists.mp (List.mem_filter.mp htx).2
    · rintro ⟨o, ho⟩
      obtain ⟨tx, htx, rfl⟩ := List.mem_map.mp ((hA.known h).mp (Or.inr ⟨o, ho⟩))
      exact ⟨tx, List.mem_filter.mpr ⟨htx, Option.isSome_iff_exists.mpr ⟨o, ho⟩⟩, rfl⟩
  rw [← hperm.length_eq, List.length_map]

/-- A parent that the pool lacks waits as well if it has arrived. -/
theorem Arrived.parent_waits (hA : Arrived c ctx T arrived pool) {txin : TxIn}
    (habsent : Absent ctx.utxo pool txin) {parent : Transaction} (hparent : parent ∈ arrived)
    (hid : parent.hash c = txin.prevout.txHash) : parent ∈ waiting c pool arrived := by
  refine List.mem_filter.mpr ⟨hparent, Option.isSome_iff_exists.mpr ?_⟩
  rcases (hA.known _).mpr (List.mem_map_of_mem (f := (·.hash c)) hparent) with ⟨e, he⟩ | ho
  · rw [hid, habsent.2] at he
    cases he
  · exact ho

/-- There is room for a transaction that has to wait. -/
theorem Arrived.room (hT : Arrivable c ctx T) (hA : Arrived c ctx T arrived pool)
    {order : List Transaction} (horder : order.Perm T) (hpre : arrived ++ [tx] <+: order)
    (hroom : OrphanRoom c ctx.utxo order)
    (hmissing : ∃ txin ∈ tx.inputs.toList, Absent ctx.utxo pool txin) :
    pool.orphanOrder.length < Constants.maxMempoolOrphans := by
  have hids : ((arrived ++ [tx]).map (·.hash c)).Nodup :=
    ((horder.map _).nodup_iff.mpr hT.ids).sublist (hpre.sublist.map _)
  have hnd : (arrived.map (·.hash c)).Nodup :=
    hids.sublist ((List.sublist_append_left _ _).map _)
  have hmem : ∀ t ∈ arrived, t ∈ T := fun t ht =>
    horder.mem_iff.mp (hpre.subset (List.mem_append_left _ ht))
  have hparents : ∀ {txin : TxIn}, Absent ctx.utxo pool txin → ∀ parent ∈ arrived ++ [tx],
      parent.hash c = txin.prevout.txHash → parent ∈ tx :: waiting c pool arrived := by
    intro txin habsent parent hparent hid
    rcases List.mem_append.mp hparent with hparent | hparent
    · exact List.mem_cons_of_mem _ (hA.parent_waits habsent hparent hid)
    · rw [List.mem_singleton.mp hparent]
      exact List.mem_cons_self
  have hwaits : Waits c ctx.utxo (arrived ++ [tx]) (tx :: waiting c pool arrived) := by
    have hall : (arrived ++ [tx]).Nodup := hids.of_map
    refine ⟨?_, fun t ht => ?_, fun t ht => ?_⟩
    · refine List.nodup_cons.mpr ⟨fun hin => ?_, hall.of_append_left.filter _⟩
      exact (List.nodup_append.mp hall).2.2 _ (List.mem_filter.mp hin).1 _ (List.mem_singleton_self _) rfl
    · rcases List.mem_cons.mp ht with rfl | ht
      · simp
      · exact List.mem_append_left _ (List.mem_filter.mp ht).1
    · rcases List.mem_cons.mp ht with rfl | ht
      · obtain ⟨txin, htxin, habsent⟩ := hmissing
        exact ⟨txin, htxin, habsent.1, hparents habsent⟩
      · obtain ⟨ht, hsome⟩ := List.mem_filter.mp ht
        obtain ⟨o, ho⟩ := Option.isSome_iff_exists.mp hsome
        have heq : o.tx = t := hT.eq_of_hash (hA.progress.orphaned _ o ho).1 (hmem t ht)
          (hA.progress.sound.orphansOk.id ho)
        have hnot := hA.noneReady (t.hash c)
        simp only [Ready, not_exists, not_and, not_forall, not_not] at hnot
        obtain ⟨txin, htxin, habsent⟩ := hnot o ho
        rw [heq] at htxin
        exact ⟨txin, htxin, habsent.1, hparents habsent⟩
  have hle := hroom _ _ hpre hwaits
  rw [List.length_cons, hA.length_waiting hnd] at hle
  omega

/-- A run delivers the transactions of its calls. -/
theorem Arrived.delivers (hT : Arrivable c ctx T) {calls : List (Context × Transaction)}
    (h : Delivers c pool calls pool') : ∀ {arrived : List Transaction},
    Arrived c ctx T arrived pool → (∀ x ∈ calls, SameChain ctx x.1) →
    (arrived ++ calls.map Prod.snd).Perm T →
    OrphanRoom c ctx.utxo (arrived ++ calls.map Prod.snd) →
    Arrived c ctx T (arrived ++ calls.map Prod.snd) pool' := by
  induction h with
  | nil pool =>
      intro arrived hA _ _ _
      simpa using hA
  | @cons ctx' tx calls fuel pool pool₁ pool₂ status hadd _ ih =>
      intro arrived hA hchain horder hroom
      have hsplit : arrived ++ ((ctx', tx) :: calls).map Prod.snd
          = arrived ++ [tx] ++ calls.map Prod.snd := by simp
      rw [hsplit] at horder hroom ⊢
      have hpre : arrived ++ [tx] <+: arrived ++ [tx] ++ calls.map Prod.snd :=
        List.prefix_append _ _
      have htx : tx ∈ T := horder.mem_iff.mp (by simp)
      have hids : ((arrived ++ [tx]).map (·.hash c)).Nodup :=
        ((horder.map _).nodup_iff.mpr hT.ids).sublist (hpre.sublist.map _)
      have hunknown : ¬ Known pool (tx.hash c) := by
        rw [hA.known]
        rw [List.map_append] at hids
        intro hmem
        exact (List.nodup_append.mp hids).2.2 _ hmem _ (List.mem_singleton_self _) rfl
      have harr := hA.progress.addTransaction hT (hchain _ List.mem_cons_self) fuel htx hunknown
        (hA.room hT horder hpre hroom) hadd
      refine ih ⟨harr.progress, fun k => ?_, fun k hk => hA.noneReady k (harr.ready k hk)⟩
        (fun x hx => hchain x (List.mem_cons_of_mem _ hx)) horder hroom
      rw [harr.known, hA.known, List.map_append, List.mem_append, List.map_singleton,
        List.mem_singleton]
      exact Or.comm

/-! ## The end of a run -/

/-- What an unconfirmed input refers to is a member that comes earlier in the
order of the spends. -/
theorem Arrivable.parent (hT : Arrivable c ctx T) (htx : tx ∈ T) {txin : TxIn}
    (htxin : txin ∈ tx.inputs.toList) (hunconfirmed : ctx.utxo.lookup txin.prevout = none) :
    ∃ parent ∈ T, parent.hash c = txin.prevout.txHash ∧ Spends c tx parent := by
  obtain ⟨-, r, e, hres, he, -⟩ := hT.admits htx
  have hself : PartOf (parentsOnly c T tx) (parentsOnly c T tx) tx.inputs.toList :=
    fun _ _ e he => ⟨e, he, rfl⟩
  obtain ⟨r', hres', hmissing, -⟩ := resolveInputs_part (s := ⟨[], [], 0⟩)
    (⟨rfl, rfl, rfl⟩ : SameChain ctx ctx) hself hres he.found
  rw [hres] at hres'
  cases hres'
  cases hheld : (parentsOnly c T tx).txs.lookup txin.prevout.txHash with
  | none =>
      have hmem := (hmissing _).mpr (Or.inr ⟨txin, htxin, ⟨hunconfirmed, hheld⟩, rfl⟩)
      rw [he.found] at hmem
      cases hmem
  | some parent =>
      obtain ⟨hmem, hid⟩ := lookup_holding hheld
      obtain ⟨hmem, hspends⟩ := List.mem_filter.mp hmem
      exact ⟨parent.tx, hmem, hid, by simpa using hspends⟩

/-- A pool that has the whole set, and no orphans. -/
structure Settled (c : Crypto) (ctx : Context) (T : List Transaction) (pool : Mempool) : Prop where
  consistent : pool.Consistent c
  recorded : ∀ h e, pool.txs.lookup h = some e → Recorded c ctx T e
  all : ∀ tx ∈ T, ∃ e, pool.txs.lookup (tx.hash c) = some e
  orphans : pool.orphans = ∅
  orphanOrder : pool.orphanOrder = []
  orphansByParent : pool.orphansByParent = []

theorem Arrived.settled (hT : Arrivable c ctx T) (hA : Arrived c ctx T arrived pool)
    (horder : arrived.Perm T) : pool.Settled c ctx T := by
  obtain ⟨rank, hrank⟩ := hT.acyclic
  have hP := hA.progress
  have hpooled : ∀ n, ∀ tx ∈ T, rank (tx.hash c) = n → ∃ e, pool.txs.lookup (tx.hash c) = some e := by
    intro n
    induction n using Nat.strong_induction_on with
    | _ n ih =>
        intro tx htx hn
        have hknown := (hA.known (tx.hash c)).mpr
          (List.mem_map_of_mem (f := (·.hash c)) (horder.mem_iff.mpr htx))
        refine hknown.resolve_right ?_
        rintro ⟨o, ho⟩
        have heq : o.tx = tx := hT.eq_of_hash (hP.orphaned _ o ho).1 htx (hP.sound.orphansOk.id ho)
        -- every parent is of lower rank, so that nothing is missing
        refine hA.noneReady _ ⟨o, ho, fun txin htxin habsent => ?_⟩
        rw [heq] at htxin
        obtain ⟨parent, hparent, hid, hspends⟩ := hT.parent htx htxin habsent.1
        obtain ⟨e, he⟩ := ih _ (hn ▸ hrank tx htx parent hparent hspends) parent hparent rfl
        rw [hid, habsent.2] at he
        cases he
  have hall : ∀ tx ∈ T, ∃ e, pool.txs.lookup (tx.hash c) = some e :=
    fun tx htx => hpooled _ tx htx rfl
  have hnone : ∀ h, pool.orphans.lookup h = none := by
    intro h
    refine Option.eq_none_iff_forall_ne_some.mpr fun o ho => ?_
    obtain ⟨hmem, hfresh⟩ := hP.orphaned h o ho
    obtain ⟨e, he⟩ := hall o.tx hmem
    rw [hP.sound.orphansOk.id ho, hfresh] at he
    cases he
  refine ⟨hP.sound.consistent, hP.recorded, hall, Finmap.ext_lookup fun h => ?_, ?_, ?_⟩
  · rw [hnone, Finmap.lookup_empty]
  · refine List.eq_nil_iff_forall_not_mem.mpr fun h hh => ?_
    obtain ⟨o, ho⟩ := hP.sound.orphansOk.mem.mp hh
    rw [hnone] at ho
    cases ho
  · refine List.eq_nil_iff_forall_not_mem.mpr fun x hx => ?_
    obtain ⟨o, ho⟩ := hP.orphan x hx
    rw [hnone] at ho
    cases ho

/-- The set determines what is recorded of it. -/
theorem Recorded.untimed_eq (hT : Arrivable c ctx T) {e e' : TxEntry} (h : Recorded c ctx T e)
    (h' : Recorded c ctx T e') (hid : e.tx.hash c = e'.tx.hash c) : e.untimed = e'.untimed := by
  obtain ⟨hmem, e₀, hadm, heq⟩ := h
  obtain ⟨hmem', e₀', hadm', heq'⟩ := h'
  rw [← hT.eq_of_hash hmem hmem' hid, hadm] at hadm'
  cases hadm'
  rw [heq, heq']

theorem Settled.lookup_eq (hT : Arrivable c ctx T) (h : pool.Settled c ctx T)
    (h' : pool'.Settled c ctx T) {k : Hash256} {e : TxEntry} (he : pool.txs.lookup k = some e) :
    ∃ e', pool'.txs.lookup k = some e' ∧ e.untimed = e'.untimed := by
  have hid := h.consistent.id he
  obtain ⟨e', he'⟩ := h'.all e.tx (h.recorded k e he).1
  rw [hid] at he'
  exact ⟨e', he', (h.recorded k e he).untimed_eq hT (h'.recorded k e' he')
    (hid.trans (h'.consistent.id he').symm)⟩

theorem TxEntry.untimed_congr {e e' : TxEntry} (h : e.untimed = e'.untimed) :
    e.tx = e'.tx ∧ e.size = e'.size ∧ ∀ k, e.key k = e'.key k := by
  obtain ⟨tx, size, fee, rate, time⟩ := e
  obtain ⟨tx', size', fee', rate', time'⟩ := e'
  simp only [untimed, TxEntry.mk.injEq, and_true] at h
  obtain ⟨rfl, rfl, rfl, rfl⟩ := h
  exact ⟨rfl, rfl, fun _ => rfl⟩

/-- The redundant structures of a settled pool follow from its transactions. -/
theorem Settled.sorted_subset (hT : Arrivable c ctx T) (h : pool.Settled c ctx T)
    (h' : pool'.Settled c ctx T) {k : FeeKey} (hk : k ∈ pool.sortedByFeerate) :
    k ∈ pool'.sortedByFeerate := by
  obtain ⟨e, he, heq⟩ := h.consistent.sorted.mp hk
  obtain ⟨e', he', hsame⟩ := h.lookup_eq hT h' he
  refine h'.consistent.sorted.mpr ⟨e', he', ?_⟩
  rw [← (TxEntry.untimed_congr hsame).2.2]
  exact heq

theorem Settled.spent_subset (hT : Arrivable c ctx T) (h : pool.Settled c ctx T)
    (h' : pool'.Settled c ctx T) {o : OutPoint} {k : Hash256}
    (hspent : pool.spentOutpoints.lookup o = some k) : pool'.spentOutpoints.lookup o = some k := by
  obtain ⟨e, he, hin⟩ := h.consistent.spent.mp hspent
  obtain ⟨e', he', hsame⟩ := h.lookup_eq hT h' he
  rw [(TxEntry.untimed_congr hsame).1] at hin
  exact h'.consistent.spent.mpr ⟨e', he', hin⟩

theorem Ascending.ext {l l' : List FeeKey} (h : Ascending l) (h' : Ascending l')
    (hmem : ∀ k, k ∈ l ↔ k ∈ l') : l = l' := by
  refine List.Perm.eq_of_pairwise (fun a b _ _ hab hba => ?_) h h'
    ((List.perm_ext_iff_of_nodup h.nodup h'.nodup).mpr hmem)
  have hlt := FeeKey.lt_trans hab hba
  rw [FeeKey.lt_irrefl] at hlt
  cases hlt

theorem Settled.sameButTimes (hT : Arrivable c ctx T) (h : pool.Settled c ctx T)
    (h' : pool'.Settled c ctx T) : SameButTimes pool pool' := by
  refine ⟨fun k => ?_, ?_, ?_, ?_, h.orphans.trans h'.orphans.symm,
    h.orphanOrder.trans h'.orphanOrder.symm, h.orphansByParent.trans h'.orphansByParent.symm⟩
  · cases hk : pool.txs.lookup k with
    | some e =>
        obtain ⟨e', he', hsame⟩ := h.lookup_eq hT h' hk
        rw [he', Option.map_some, Option.map_some, hsame]
    | none =>
        cases hk' : pool'.txs.lookup k with
        | none => rfl
        | some e' =>
            obtain ⟨e, he, -⟩ := h'.lookup_eq hT h hk'
            rw [hk] at he
            cases he
  · exact h.consistent.ascending.ext h'.consistent.ascending fun k =>
      ⟨h.sorted_subset hT h', h'.sorted_subset hT h⟩
  · refine Finmap.ext_lookup fun o => Option.ext fun k => ?_
    exact ⟨h.spent_subset hT h', h'.spent_subset hT h⟩
  · have hmem : ∀ k, k ∈ pooledIds c T pool' ↔ ∃ e, pool.txs.lookup k = some e := by
      intro k
      rw [mem_pooledIds h'.consistent h'.recorded]
      constructor
      · rintro ⟨e', he'⟩
        obtain ⟨e, he, -⟩ := h'.lookup_eq hT h he'
        exact ⟨e, he⟩
      · rintro ⟨e, he⟩
        obtain ⟨e', he', -⟩ := h.lookup_eq hT h' he
        exact ⟨e', he'⟩
    have hnd := hT.pooledIds_nodup pool'
    have hbytes := h.consistent.bytes
    have hbytes' := h'.consistent.bytes
    rw [FinMap.sumBy_eq_sum _ hnd hmem] at hbytes
    rw [FinMap.sumBy_eq_sum _ hnd (mem_pooledIds h'.consistent h'.recorded)] at hbytes'
    have hsum : ((pooledIds c T pool').map fun k => (pool.txs.lookup k).elim 0
          fun e => (e.size : Int))
        = (pooledIds c T pool').map fun k => (pool'.txs.lookup k).elim 0 fun e => (e.size : Int) := by
      refine List.map_congr_left fun k hk => ?_
      obtain ⟨e, he⟩ := (hmem k).mp hk
      obtain ⟨e', he', hsame⟩ := h.lookup_eq hT h' he
      rw [he, he', Option.elim_some, Option.elim_some, (TxEntry.untimed_congr hsame).2.1]
    rw [hsum] at hbytes
    omega

/-- Every call returns, so every order of calls is a run. -/
theorem exists_delivers (c : Crypto) (calls : List (Context × Transaction)) (pool : Mempool) :
    ∃ pool', Delivers c pool calls pool' := by
  induction calls generalizing pool with
  | nil => exact ⟨pool, .nil pool⟩
  | cons call calls ih =>
      obtain ⟨status, pool₁, hadd, -⟩ := addTransaction_total c call.1 _ pool call.2
        (Nat.lt_succ_self _)
      obtain ⟨pool₂, hrest⟩ := ih pool₁
      exact ⟨pool₂, .cons hadd hrest⟩

theorem Delivers.settled (hT : Arrivable c ctx T) {calls : List (Context × Transaction)}
    (hchain : ∀ x ∈ calls, SameChain ctx x.1) (horder : (calls.map Prod.snd).Perm T)
    (hroom : OrphanRoom c ctx.utxo (calls.map Prod.snd)) (h : Delivers c empty calls pool) :
    pool.Settled c ctx T := by
  have harr := arrived_empty.delivers hT h hchain (by simpa using horder) (by simpa using hroom)
  exact harr.settled hT (by simpa using horder)

/-- Whatever the order of the calls, they end with one pool, which has all of
the set, and with no orphan. -/
theorem delivers_same (hT : Arrivable c ctx T) {calls calls' : List (Context × Transaction)}
    (hchain : ∀ x ∈ calls, SameChain ctx x.1) (hchain' : ∀ x ∈ calls', SameChain ctx x.1)
    (horder : (calls.map Prod.snd).Perm T) (horder' : (calls'.map Prod.snd).Perm T)
    (hroom : OrphanRoom c ctx.utxo (calls.map Prod.snd))
    (hroom' : OrphanRoom c ctx.utxo (calls'.map Prod.snd)) :
    (∃ pool, Delivers c empty calls pool) ∧
      ∀ pool pool', Delivers c empty calls pool → Delivers c empty calls' pool' →
        SameButTimes pool pool' ∧
        (∀ tx ∈ T, ∃ e, pool.txs.lookup (tx.hash c) = some e ∧ e.tx = tx) ∧
        pool.orphans = ∅ ∧ pool.orphanOrder = [] ∧ pool.orphansByParent = [] := by
  refine ⟨exists_delivers c calls empty, fun pool pool' h h' => ?_⟩
  have hs := h.settled hT hchain horder hroom
  have hs' := h'.settled hT hchain' horder' hroom'
  refine ⟨hs.sameButTimes hT hs', fun tx htx => ?_, hs.orphans, hs.orphanOrder, hs.orphansByParent⟩
  obtain ⟨e, he⟩ := hs.all tx htx
  exact ⟨e, he, hT.eq_of_hash (hs.recorded _ e he).1 htx (hs.consistent.id he)⟩

/-- A short order leaves room. -/
theorem orphanRoom_of_length {utxo : UTXOSet} {order : List Transaction}
    (h : order.length ≤ Constants.maxMempoolOrphans) : OrphanRoom c utxo order := by
  intro arrived W hpre hwaits
  have hle : W.length ≤ arrived.length :=
    (List.subperm_of_subset hwaits.nodup hwaits.subset).length_le
  exact hle.trans (hpre.length_le.trans h)

open Regtest in
theorem arrivable_payments :
    Arrivable crypto (context confirmed) [payment, childPayment] := by
  constructor
  · decide +kernel
  · exact ⟨fun h => if h = payment.hash crypto then 0 else 1, by decide +kernel⟩
  · decide
  · have hall : ∀ tx ∈ [payment, childPayment],
        (match admission crypto (context confirmed)
            (parentsOnly crypto [payment, childPayment] tx) tx with
          | .entry _ => true
          | _ => false) = true := by decide +kernel
    intro tx htx
    have hentry := hall tx htx
    split at hentry
    · next e he => exact ⟨e, he⟩
    · cases hentry
  · decide +kernel
  · decide

open Regtest in
/-- The payment before its child, or after it. -/
theorem delivers_same_payments :
    (∃ pool, Delivers crypto empty
      [(context confirmed, childPayment), (context confirmed, payment)] pool) ∧
    ∀ pool pool',
      Delivers crypto empty [(context confirmed, childPayment), (context confirmed, payment)] pool →
      Delivers crypto empty [(context confirmed, payment), (context confirmed, childPayment)] pool' →
        SameButTimes pool pool' ∧
        (∀ tx ∈ [payment, childPayment],
          ∃ e, pool.txs.lookup (tx.hash crypto) = some e ∧ e.tx = tx) ∧
        pool.orphans = ∅ ∧ pool.orphanOrder = [] ∧ pool.orphansByParent = [] := by
  have hchain : ∀ {calls : List (Context × Transaction)},
      calls.map Prod.fst = [context confirmed, context confirmed] →
      ∀ x ∈ calls, SameChain (context confirmed) x.1 := by
    intro calls hcalls x hx
    have hmem := List.mem_map_of_mem (f := Prod.fst) hx
    rw [hcalls] at hmem
    have heq : x.1 = context confirmed := by simpa using hmem
    rw [heq]
    exact ⟨rfl, rfl, rfl⟩
  exact delivers_same arrivable_payments (hchain rfl) (hchain rfl) (.swap _ _ _) (.refl _)
    (orphanRoom_of_length (by decide)) (orphanRoom_of_length (by decide))

end Mempool

end Cryptex
