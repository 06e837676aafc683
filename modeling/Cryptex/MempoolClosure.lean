import Cryptex.MempoolInvariant

/-!
# Parents in the mempool

A transaction is admitted when its inputs are confirmed or made by the pool.
Removal, expiry and trimming take single transactions: what spends their
outputs stays. The pool stays closed as long as nothing that stays needs
what goes.
-/

namespace Cryptex

namespace Mempool

variable {c : Crypto} {ctx : Context} {pool pool' : Mempool} {tx : Transaction} {utxo : UTXOSet}

/-- Every input of the pool is confirmed or an output of another transaction
of the pool. -/
def Closed (utxo : UTXOSet) (pool : Mempool) : Prop :=
  ∀ h e, pool.txs.lookup h = some e → ∀ txin ∈ e.tx.inputs.toList,
    (∃ entry, utxo.lookup txin.prevout = some entry) ∨
      ∃ parent, txin.prevout.txHash ≠ h ∧ pool.txs.lookup txin.prevout.txHash = some parent ∧
        txin.prevout.index.toNat < parent.tx.outputs.toList.length

/-- No transaction that stays needs one of those that go. -/
def Unneeded (utxo : UTXOSet) (pool : Mempool) (gone : List Hash256) : Prop :=
  ∀ h e, pool.txs.lookup h = some e → h ∉ gone → ∀ txin ∈ e.tx.inputs.toList,
    txin.prevout.txHash ∈ gone → ∃ entry, utxo.lookup txin.prevout = some entry

/-- The pool without some of its transactions. -/
def Without (pool pool' : Mempool) (gone : List Hash256) : Prop :=
  ∀ h, pool'.txs.lookup h = if h ∈ gone then none else pool.txs.lookup h

/-- A closed pool stays closed exactly when nothing that stays needs what goes. -/
theorem Without.closed_iff {gone : List Hash256} (hwithout : Without pool pool' gone)
    (hs : pool.Closed utxo) : pool'.Closed utxo ↔ Unneeded utxo pool gone := by
  constructor
  · intro hclosed h e he hstays txin htxin hgone
    have he' : pool'.txs.lookup h = some e := by rw [hwithout, if_neg hstays, he]
    rcases hclosed h e he' txin htxin with hconf | ⟨parent, -, hparent, -⟩
    · exact hconf
    · rw [hwithout, if_pos hgone] at hparent
      cases hparent
  · intro hunneeded h e he txin htxin
    rw [hwithout] at he
    split at he
    · cases he
    · next hstays =>
        rcases hs h e he txin htxin with hconf | ⟨parent, hne, hparent, hindex⟩
        · exact Or.inl hconf
        · by_cases hgone : txin.prevout.txHash ∈ gone
          · exact Or.inl (hunneeded h e he hstays txin htxin hgone)
          · exact Or.inr ⟨parent, hne, by rw [hwithout, if_neg hgone, hparent], hindex⟩

theorem without_removeTransaction (pool : Mempool) (h : Hash256) :
    Without pool (pool.removeTransaction h) [h] := by
  intro k
  unfold removeTransaction
  split
  · next hnone =>
      split
      · next hk => rw [List.mem_singleton.mp hk, hnone]
      · rfl
  · simp only [FinMap.lookup_erase_ite, List.mem_singleton]

theorem Without.trans {gone gone' : List Hash256} {pool'' : Mempool} (h : Without pool pool' gone)
    (h' : Without pool' pool'' gone') : Without pool pool'' (gone ++ gone') := by
  intro k
  rw [h', h]
  simp only [List.mem_append]
  by_cases hk : k ∈ gone
  · simp [hk]
  · simp [hk]

theorem without_foldl (gone : List Hash256) (pool : Mempool) :
    Without pool (gone.foldl removeTransaction pool) gone := by
  induction gone generalizing pool with
  | nil => intro k; simp
  | cons h gone ih => exact (without_removeTransaction pool h).trans (ih _)

/-- The ids that the rounds of `trim_to_limits` take. -/
def trimmed : Nat → Mempool → List Hash256
  | 0, _ => []
  | fuel + 1, pool =>
      match pool.sortedByFeerate with
      | [] => []
      | k :: _ => if pool.overLimits then k.2.2 :: trimmed fuel (pool.removeTransaction k.2.2) else []

theorem without_trimLoop : ∀ (fuel : Nat) (pool : Mempool),
    Without pool (trimLoop fuel pool) (trimmed fuel pool)
  | 0, _ => fun _ => rfl
  | fuel + 1, pool => by
      rw [trimLoop, trimmed]
      cases pool.sortedByFeerate with
      | nil => exact fun _ => rfl
      | cons k rest =>
          simp only
          split
          · exact (without_removeTransaction pool _).trans (without_trimLoop fuel _)
          · exact fun _ => rfl

/-- The ids that `expire_old_transactions` takes. -/
def expiredIds (ctx : Context) (pool : Mempool) : List Hash256 :=
  ((ctx.txVisit.visit pool.txs).filter fun e => expired ctx e.2.entryTime).map Prod.fst

/-! ## Admission -/

/-- Where the parents of the inputs are when none is missing. -/
theorem resolveInputs_supported : ∀ {ins : List TxIn} {seen : List OutPoint} {r r' : Resolution},
    resolveInputs ctx pool ins seen r = .ok r' → r'.missing = [] → r.missing = [] ∧
      ∀ txin ∈ ins, (∃ entry, ctx.utxo.lookup txin.prevout = some entry) ∨
        ∃ parent, pool.txs.lookup txin.prevout.txHash = some parent ∧
          txin.prevout.index.toNat < parent.tx.outputs.toList.length
  | [], _, _, _, h, hr => by
      cases h
      exact ⟨hr, fun _ htxin => by cases htxin⟩
  | txin :: rest, seen, r, r', h, hr => by
      rw [resolveInputs] at h
      split at h
      · cases h
      · split at h
        · next entry hentry =>
            obtain ⟨hmissing, hrest⟩ := resolveInputs_supported h hr
            refine ⟨hmissing, fun i hi => ?_⟩
            rcases List.mem_cons.mp hi with rfl | hi
            · exact Or.inl ⟨entry, hentry⟩
            · exact hrest i hi
        · split at h
          · next parent hparent =>
              split at h
              · cases h
              · next out hout =>
                  obtain ⟨hmissing, hrest⟩ := resolveInputs_supported h hr
                  refine ⟨hmissing, fun i hi => ?_⟩
                  rcases List.mem_cons.mp hi with rfl | hi
                  · exact Or.inr ⟨parent, hparent, (List.getElem?_eq_some_iff.mp hout).1⟩
                  · exact hrest i hi
          · obtain ⟨hmissing, -⟩ := resolveInputs_supported h hr
            simp only at hmissing
            split at hmissing
            · next hmem =>
                rw [hmissing] at hmem
                cases hmem
            · exact absurd hmissing (by simp)

theorem Closed.insertEntry (hs : pool.Closed utxo) {h : Hash256} {e : TxEntry}
    (hfresh : pool.txs.lookup h = none)
    (hsupported : ∀ txin ∈ e.tx.inputs.toList,
      (∃ entry, utxo.lookup txin.prevout = some entry) ∨
        ∃ parent, pool.txs.lookup txin.prevout.txHash = some parent ∧
          txin.prevout.index.toNat < parent.tx.outputs.toList.length) :
    (pool.insertEntry h e).Closed utxo := by
  have hkept : ∀ {k parent}, pool.txs.lookup k = some parent → k ≠ h ∧
      (pool.insertEntry h e).txs.lookup k = some parent := by
    intro k parent hk
    have hne : k ≠ h := by
      rintro rfl
      rw [hfresh] at hk
      cases hk
    exact ⟨hne, by rw [Mempool.insertEntry]; simp only [FinMap.lookup_insert_ite, if_neg hne, hk]⟩
  intro h' e' he' txin htxin
  rw [Mempool.insertEntry] at he'
  simp only [FinMap.lookup_insert_ite] at he'
  split at he'
  · next heq =>
      cases he'
      rcases hsupported txin htxin with hconf | ⟨parent, hparent, hindex⟩
      · exact Or.inl hconf
      · obtain ⟨hne, hlook⟩ := hkept hparent
        exact Or.inr ⟨parent, by rw [heq]; exact hne, hlook, hindex⟩
  · rcases hs h' e' he' txin htxin with hconf | ⟨parent, hne, hparent, hindex⟩
    · exact Or.inl hconf
    · exact Or.inr ⟨parent, hne, (hkept hparent).2, hindex⟩

/-- What is trimmed after a transaction has been admitted is not needed. -/
def TrimsUnneeded (c : Crypto) (ctx : Context) (pool : Mempool) (tx : Transaction) : Prop :=
  ∀ e, admission c ctx pool tx = .entry e →
    Unneeded ctx.utxo (pool.insertEntry (tx.hash c) e)
      (trimmed (pool.insertEntry (tx.hash c) e).sortedByFeerate.length
        (pool.insertEntry (tx.hash c) e))

theorem Closed.congr (hs : pool.Closed utxo) (h : pool'.txs = pool.txs) : pool'.Closed utxo := by
  intro k e he
  rw [h] at he ⊢
  exact hs k e he

theorem SamePool.txs (h : SamePool pool pool') : pool'.txs = pool.txs := by
  rw [h]

theorem Closed.addOne (hs : pool.Closed ctx.utxo) (hsound : pool.Sound c)
    (hunneeded : TrimsUnneeded c ctx pool tx) : (Mempool.addOne c ctx pool tx).2.Closed ctx.utxo := by
  unfold Mempool.addOne
  rcases admission_cases c ctx pool tx with ⟨status, hadm, -⟩ | ⟨hok, r, hres, hcase⟩
  · rw [hadm]
    exact hs
  · rcases hcase with ⟨-, hadm⟩ | ⟨e, he, hadm⟩
    · rw [hadm]
      exact hs.congr (hsound.orphansOk.addOrphan tx ctx.now r.missing).2.txs
    · have htx : e.tx = tx := by rw [he.entry]
      obtain ⟨-, hsupported⟩ := resolveInputs_supported hres he.found
      have hins : (pool.insertEntry (tx.hash c) e).Closed ctx.utxo := by
        refine hs.insertEntry hok.fresh ?_
        rw [htx]
        exact hsupported
      have htrim : (trimToLimits (pool.insertEntry (tx.hash c) e)).Closed ctx.utxo :=
        ((without_trimLoop _ _).closed_iff hins).mpr (hunneeded e hadm)
      rw [hadm]
      simp only
      split <;> exact htrim

/-! ## Runs -/

/-- Runs over one UTXO set and height in which nothing that goes is needed by
what stays. -/
def Rules.unneeded (c : Crypto) (utxo : UTXOSet) (height : UInt32) : Rules where
  context := fun ctx => ctx.utxo = utxo ∧ ctx.currentHeight = height
  pass := fun ctx pool tx => TrimsUnneeded c ctx pool tx
  remove := fun pool h => Unneeded utxo pool [h]
  expire := fun ctx pool => Unneeded utxo pool (expiredIds ctx pool)
  trim := fun pool => Unneeded utxo pool (trimmed pool.sortedByFeerate.length pool)

theorem foldl_removeOrphan_txs (hs : List Hash256) (pool : Mempool) :
    (hs.foldl removeOrphan pool).txs = pool.txs := by
  induction hs generalizing pool with
  | nil => rfl
  | cons h hs ih => exact (ih _).trans (removeOrphan_samePool h).txs

/-- In a run in which nothing that goes is needed by what stays, the pool is
closed throughout. -/
theorem closed_of_unneeded {height : UInt32}
    (h : Reachable c (Rules.unneeded c utxo height) pool) : pool.Closed utxo := by
  induction h with
  | start =>
      intro h e he
      cases he
  | @add ctx fuel pool tx status pool' hpool hctx hpass hadd ih =>
      obtain ⟨rfl, -⟩ := hctx
      exact (addTransaction_rule (I := fun p => p.Sound c ∧ p.Closed ctx.utxo)
        (Q := TrimsUnneeded c ctx)
        (fun p t hp hq => ⟨hp.1.addOne, hp.2.addOne hp.1 hq⟩)
        (fun p k hp => ⟨hp.1.removeOrphan k, hp.2.congr (removeOrphan_samePool k).txs⟩)
        fuel pool tx status pool' ⟨sound_of_reachable hpool, ih⟩ hpass hadd).2
  | remove _ hunneeded ih => exact ((without_removeTransaction _ _).closed_iff ih).mpr hunneeded
  | expire _ _ hunneeded ih =>
      refine Closed.congr ?_ (foldl_removeOrphan_txs _ _)
      exact ((without_foldl _ _).closed_iff ih).mpr hunneeded
  | trim _ hunneeded ih => exact ((without_trimLoop _ _).closed_iff ih).mpr hunneeded
  | clear _ _ =>
      intro h e he
      cases he

/-- Within the limits nothing is trimmed. -/
theorem unneeded_of_withinLimits (fuel : Nat) (h : pool.overLimits = false) :
    Unneeded utxo pool (trimmed fuel pool) := by
  have hnil : trimmed fuel pool = [] := by
    cases fuel with
    | zero => rfl
    | succ fuel =>
        rw [trimmed]
        split
        · rfl
        · rw [h, if_neg Bool.false_ne_true]
  rw [hnil]
  intro _ _ _ _ _ _ hmem
  cases hmem

/-- A call that makes one pass makes it over its own transaction. -/
theorem passes_of_length {fuel : Nat} (h : (passes c ctx fuel pool tx).length = 1) :
    passes c ctx fuel pool tx = [(pool, tx)] := by
  cases fuel with
  | zero => cases h
  | succ fuel =>
      rw [passes] at h ⊢
      rw [List.eq_nil_of_length_eq_zero (Nat.succ.inj h)]

open Regtest in
theorem closed_payment : ∃ pool,
    addTransaction crypto (context confirmed) 1 empty payment = some (.accepted, pool) ∧
      pool.Closed confirmed := by
  have hacc : (addTransaction crypto (context confirmed) 1 empty payment).map Prod.fst
      = some .accepted := by decide +kernel
  obtain ⟨⟨status, pool⟩, h, rfl⟩ := Option.map_eq_some_iff.mp hacc
  have hone : (passes crypto (context confirmed) 1 empty payment).length = 1 := by decide +kernel
  have hroom : (match admission crypto (context confirmed) empty payment with
      | .entry e => (empty.insertEntry (payment.hash crypto) e).overLimits
      | _ => false) = false := by decide +kernel
  have hpass : ∀ x ∈ passes crypto (context confirmed) 1 empty payment,
      TrimsUnneeded crypto (context confirmed) x.1 x.2 := by
    intro x hx
    rw [passes_of_length hone, List.mem_singleton] at hx
    subst hx
    intro e he
    simp only at he
    simp only [he] at hroom
    exact unneeded_of_withinLimits _ hroom
  have hctx : (Rules.unneeded crypto confirmed 10).context (context confirmed) := ⟨rfl, rfl⟩
  exact ⟨pool, h, closed_of_unneeded (Reachable.start.add hctx hpass h)⟩

/-- Runs over one UTXO set and height. -/
def Rules.fixed (utxo : UTXOSet) (height : UInt32) : Rules where
  context := fun ctx => ctx.utxo = utxo ∧ ctx.currentHeight = height
  pass := fun _ _ _ => True
  remove := fun _ _ => True
  expire := fun _ _ => True
  trim := fun _ => True

open Regtest in
/-- A payment and a payment of its output are added, and the first is removed. -/
theorem not_closed_of_remove : ∃ pool, Reachable crypto (Rules.fixed confirmed 10) pool ∧
    ¬ pool.Closed confirmed := by
  have hrun : ((addTransaction crypto (context confirmed) 1 empty payment).bind fun x =>
      (addTransaction crypto (context confirmed) 1 x.2 childPayment).map fun y =>
        (((y.2.removeTransaction (payment.hash crypto)).txs.lookup (childPayment.hash crypto)).map
          (·.tx), ((y.2.removeTransaction (payment.hash crypto)).txs.lookup
            (payment.hash crypto)).isSome)) = some (some childPayment, false) := by decide +kernel
  obtain ⟨⟨status₁, pool₁⟩, h₁, hrest⟩ := Option.bind_eq_some_iff.mp hrun
  obtain ⟨⟨status₂, pool₂⟩, h₂, heq⟩ := Option.map_eq_some_iff.mp hrest
  simp only [Prod.mk.injEq, Option.map_eq_some_iff, Option.isSome_eq_false_iff,
    Option.isNone_iff_eq_none] at heq
  obtain ⟨⟨e, he, htx⟩, hgone⟩ := heq
  have hreach : Reachable crypto (Rules.fixed confirmed 10)
      (pool₂.removeTransaction (payment.hash crypto)) :=
    .remove (.add (.add .start ⟨rfl, rfl⟩ (fun _ _ => trivial) h₁) ⟨rfl, rfl⟩
      (fun _ _ => trivial) h₂) trivial
  refine ⟨_, hreach, fun hclosed => ?_⟩
  have hspends : ∃ txin ∈ childPayment.inputs.toList,
      txin.prevout.txHash = payment.hash crypto ∧ confirmed.lookup txin.prevout = none := by
    decide +kernel
  obtain ⟨txin, htxin, hparent, hunconfirmed⟩ := hspends
  rcases hclosed _ e he txin (htx ▸ htxin) with ⟨entry, hentry⟩ | ⟨parent, -, hlook, -⟩
  · rw [hunconfirmed] at hentry
    cases hentry
  · rw [hparent, hgone] at hlook
    cases hlook

end Mempool

end Cryptex
