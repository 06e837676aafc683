import Cryptex.Backing
import Cryptex.Template

/-!
# Mining the mempool

The transactions of a template are applied one after another on top of the
UTXO set over which the mempool admitted them. What the mempool has checked
carries over, save for three things: the order of the transactions, an
output of the template's own coinbase, and amounts that wrapped.
-/

namespace Cryptex

namespace Mempool

variable {c : Crypto} {utxo : UTXOSet} {T : Set Transaction} {pool : Mempool}

/-! ## What `get_transactions` returns -/

theorem map_hash_getTransactions (h : pool.Consistent c) :
    pool.getTransactions.map (·.hash c) = pool.sortedByFeerate.reverse.map (·.2.2) := by
  rw [getTransactions]
  have hall : ∀ k ∈ pool.sortedByFeerate.reverse, ∃ e, pool.txs.lookup k.2.2 = some e := fun k hk =>
    (h.sorted.mp (List.mem_reverse.mp hk)).imp fun _ he => he.1
  generalize pool.sortedByFeerate.reverse = keys at hall
  induction keys with
  | nil => rfl
  | cons k keys ih =>
      obtain ⟨e, he⟩ := hall k List.mem_cons_self
      rw [List.filterMap_cons, he]
      simp only [Option.map_some, List.map_cons]
      rw [h.id he, ih fun k' hk' => hall k' (List.mem_cons_of_mem _ hk')]

/-- No id is listed twice. -/
theorem nodup_getTransactions (h : pool.Consistent c) :
    (pool.getTransactions.map (·.hash c)).Nodup := by
  rw [map_hash_getTransactions h]
  refine List.Nodup.map_on (fun k hk k' hk' heq => ?_) (List.nodup_reverse.mpr h.ascending.nodup)
  obtain ⟨e, he, hkey⟩ := h.sorted.mp (List.mem_reverse.mp hk)
  obtain ⟨e', he', hkey'⟩ := h.sorted.mp (List.mem_reverse.mp hk')
  rw [heq, he'] at he
  cases he
  rw [hkey, hkey', heq]

theorem mem_getTransactions (h : pool.Consistent c) {tx : Transaction}
    (hmem : tx ∈ pool.getTransactions) : ∃ e, pool.txs.lookup (tx.hash c) = some e ∧ e.tx = tx := by
  rw [getTransactions] at hmem
  obtain ⟨k, -, hk⟩ := List.mem_filterMap.mp hmem
  obtain ⟨e, he, rfl⟩ := Option.map_eq_some_iff.mp hk
  exact ⟨e, by rw [h.id he, he], rfl⟩

/-- Two pooled transactions spend no output in common. -/
theorem Consistent.disjoint (h : pool.Consistent c) {tx tx' : Transaction}
    (htx : tx ∈ pool.getTransactions) (htx' : tx' ∈ pool.getTransactions)
    (hne : tx.hash c ≠ tx'.hash c) {i j : TxIn} (hi : i ∈ tx.inputs.toList)
    (hj : j ∈ tx'.inputs.toList) : i.prevout ≠ j.prevout := by
  obtain ⟨e, he, rfl⟩ := mem_getTransactions h htx
  obtain ⟨e', he', rfl⟩ := mem_getTransactions h htx'
  intro heq
  have hspent := h.spent.mpr ⟨e, he, i, hi, rfl⟩
  rw [heq, h.spent.mpr ⟨e', he', j, hj, rfl⟩] at hspent
  exact hne (Option.some.inj hspent).symm

/-- The fee that is recorded for a transaction. -/
def feeOf (c : Crypto) (pool : Mempool) (tx : Transaction) : Int64 :=
  ((pool.txs.lookup (tx.hash c)).map (·.fee)).getD 0

end Mempool

/-! ## Outputs and the transactions behind them -/

/-- An id stands for one transaction, among those of a set and those whose
outputs are unspent. -/
structure DistinctIds (c : Crypto) (utxo : UTXOSet) (T : Set Transaction) : Prop where
  distinct : ∀ tx ∈ T, ∀ tx' ∈ T, tx.hash c = tx'.hash c → tx = tx'
  confirmed : ∀ tx ∈ T, ∀ o e, utxo.lookup o = some e → o.txHash = tx.hash c →
    tx.outputs.toList[o.index.toNat]? = some e.output

section

variable (c : Crypto) (utxo : UTXOSet) (coinbase : Transaction)

/-- What an outpoint leads to after a coinbase and transactions were applied,
whatever they have spent. -/
def foundAfter (height : UInt32) (done : List Transaction) (o : OutPoint) : Option UTXOEntry :=
  ((coinbase :: done).findSome? fun tx => UTXOSet.created c tx height o).or (utxo.lookup o)

/-- An input can be spent after the transactions applied so far. -/
def InputReady (done : List Transaction) (txin : TxIn) : Prop :=
  txin.prevout.txHash ≠ coinbase.hash c ∧
    (utxo.lookup txin.prevout = none → ∃ parent ∈ done, parent.hash c = txin.prevout.txHash)

end

variable {c : Crypto} {utxo : UTXOSet} {coinbase : Transaction} {T : Set Transaction}
  {currentHeight height : UInt32} {done : List Transaction}

theorem UTXOSet.created_some {tx : Transaction} {o : OutPoint} {e : UTXOEntry}
    (h : UTXOSet.created c tx height o = some e) : o.txHash = tx.hash c ∧
      ∃ out, tx.outputs.toList[o.index.toNat]? = some out ∧ e = ⟨out, height, tx.isCoinbase⟩ := by
  unfold UTXOSet.created at h
  split at h
  · next hid =>
      obtain ⟨out, hout, rfl⟩ := Option.map_eq_some_iff.mp h
      exact ⟨hid, out, hout, rfl⟩
  · cases h

/-- One more transaction adds what it creates. -/
theorem foundAfter_snoc (hids : DistinctIds c utxo T) (hcb : coinbase ∈ T)
    (hdone : ∀ tx ∈ done, tx ∈ T) {tx : Transaction} (htx : tx ∈ T) (o : OutPoint) :
    foundAfter c utxo coinbase height (done ++ [tx]) o
      = (UTXOSet.created c tx height o).or (foundAfter c utxo coinbase height done o) := by
  rw [foundAfter, foundAfter, ← List.cons_append, List.findSome?_append, Option.or_assoc]
  simp only [List.findSome?_cons, List.findSome?_nil]
  cases hnew : UTXOSet.created c tx height o with
  | none => rfl
  | some e =>
      cases hold : List.findSome? (fun t => UTXOSet.created c t height o) (coinbase :: done) with
      | none =>
          simp only [List.findSome?_cons] at hold
          rw [hold]
          rfl
      | some e' =>
          -- both stand for the same transaction
          obtain ⟨t, ht, hcreated⟩ := List.exists_of_findSome?_eq_some hold
          have htT : t ∈ T := by
            rcases List.mem_cons.mp ht with rfl | ht
            · exact hcb
            · exact hdone t ht
          have hsame := hids.distinct t htT tx htx
            ((UTXOSet.created_some hcreated).1.symm.trans (UTXOSet.created_some hnew).1)
          rw [hsame, hnew] at hcreated
          simp only [List.findSome?_cons] at hold
          rw [hold, ← hcreated]

/-- A ready input leads to its output, in an entry that has matured. -/
theorem foundAfter_ready (hids : DistinctIds c utxo T) (hdone : ∀ tx ∈ done, tx ∈ T)
    (hspend : ∀ tx ∈ done, tx.isCoinbase = false) {txin : TxIn} {entry : UTXOEntry}
    (hbacks : Mempool.Backs c utxo currentHeight T txin entry)
    (hready : InputReady c utxo coinbase done txin) :
    ∃ found, foundAfter c utxo coinbase height done txin.prevout = some found ∧
      found.output = entry.output ∧ (found.isCoinbase = true → found = entry) := by
  have hown : UTXOSet.created c coinbase height txin.prevout = none := by
    rw [UTXOSet.created, if_neg hready.1]
  rw [foundAfter, List.findSome?_cons, hown]
  cases hmade : done.findSome? fun tx => UTXOSet.created c tx height txin.prevout with
  | some found =>
      obtain ⟨tx, htx, hcreated⟩ := List.exists_of_findSome?_eq_some hmade
      obtain ⟨hid, out, hout, rfl⟩ := UTXOSet.created_some hcreated
      refine ⟨_, rfl, ?_, fun hcb => ?_⟩
      · rcases hbacks with hconf | ⟨-, parent, hparent, hhash, -, out', hout', rfl⟩
        · have := hids.confirmed tx (hdone tx htx) _ _ hconf hid
          rw [hout] at this
          exact Option.some.inj this
        · rw [hids.distinct parent hparent tx (hdone tx htx) (hhash.trans hid), hout] at hout'
          exact Option.some.inj hout'
      · rw [hspend tx htx] at hcb
        cases hcb
  | none =>
      rcases hbacks with hconf | ⟨hnone, parent, hparent, hhash, -, out, hout, rfl⟩
      · exact ⟨entry, hconf, rfl, fun _ => rfl⟩
      · obtain ⟨parent', hmem, hhash'⟩ := hready.2 hnone
        have hnot := List.findSome?_eq_none_iff.mp hmade parent' hmem
        rw [hids.distinct parent' (hdone _ hmem) parent hparent (hhash'.trans hhash.symm),
          UTXOSet.created, if_pos hhash.symm, hout] at hnot
        cases hnot

/-- An input that is not ready leads nowhere or to an output of the coinbase. -/
theorem foundAfter_not_ready (hids : DistinctIds c utxo T) (hcb : coinbase ∈ T)
    (hisCb : coinbase.isCoinbase = true) (hdone : ∀ tx ∈ done, tx ∈ T)
    (hspend : ∀ tx ∈ done, tx.isCoinbase = false) {txin : TxIn}
    (hready : ¬ InputReady c utxo coinbase done txin) :
    foundAfter c utxo coinbase height done txin.prevout = none ∨
      ∃ found, foundAfter c utxo coinbase height done txin.prevout = some found ∧
        found.isCoinbase = true ∧ found.blockHeight = height := by
  rw [foundAfter, List.findSome?_cons]
  cases hown : UTXOSet.created c coinbase height txin.prevout with
  | some found =>
      obtain ⟨-, out, -, rfl⟩ := UTXOSet.created_some hown
      exact Or.inr ⟨_, rfl, hisCb, rfl⟩
  | none =>
      left
      have hmade : done.findSome? (fun tx => UTXOSet.created c tx height txin.prevout) = none ∧
          utxo.lookup txin.prevout = none := by
        by_cases hid : txin.prevout.txHash = coinbase.hash c
        · -- the coinbase has no such output, and nothing else has its id
          constructor
          · refine List.findSome?_eq_none_iff.mpr fun tx htx => ?_
            rw [UTXOSet.created, if_neg]
            intro hid'
            have hsame := hids.distinct tx (hdone tx htx) coinbase hcb (hid'.symm.trans hid)
            rw [← hsame, hspend tx htx] at hisCb
            cases hisCb
          · cases hconf : utxo.lookup txin.prevout with
            | none => rfl
            | some e =>
                rw [UTXOSet.created, if_pos hid, hids.confirmed coinbase hcb _ _ hconf hid] at hown
                cases hown
        · simp only [InputReady, not_and, Classical.not_imp, not_exists] at hready
          obtain ⟨hnone, hno⟩ := hready hid
          refine ⟨List.findSome?_eq_none_iff.mpr fun tx htx => ?_, hnone⟩
          rw [UTXOSet.created, if_neg]
          exact fun hid' => hno tx htx hid'.symm
      rw [hmade.1, hmade.2]
      rfl

/-! ## Applying a pooled transaction -/

/-- What the mempool knows about an entry is enough for the input loop once
every input is ready. -/
theorem checkInputs_ready (hheight : height.toNat = currentHeight.toNat + 1)
    (hids : DistinctIds c utxo T) (hdone : ∀ tx ∈ done, tx ∈ T)
    (hspend : ∀ tx ∈ done, tx.isCoinbase = false) {map : UTXOSet} {tx : Transaction} :
    ∀ {ins : List TxIn} {entries : List UTXOEntry} {idx : Nat} {sum : Int64},
      List.Forall₂ (Mempool.Backs c utxo currentHeight T) ins entries →
      Mempool.inputsAuthorised c currentHeight tx idx (ins.zip entries) = true →
      (∀ txin ∈ ins, map.lookup txin.prevout = foundAfter c utxo coinbase height done txin.prevout) →
      (∀ txin ∈ ins, InputReady c utxo coinbase done txin) →
      UTXOSet.checkInputs c map tx height idx ins sum
        = some (entries.foldl (fun sum entry => sum + entry.output.value) sum) := by
  intro ins entries idx sum hall hauth hmap hready
  induction hall generalizing idx sum with
  | nil => rfl
  | @cons txin entry ins entries hentry _ ih =>
      rw [List.zip_cons_cons, Mempool.inputsAuthorised, Bool.and_eq_true] at hauth
      obtain ⟨found, hfound, hout, hold⟩ :
          ∃ found, foundAfter c utxo coinbase height done txin.prevout = some found ∧
            found.output = entry.output ∧ (found.isCoinbase = true → found = entry) :=
        foundAfter_ready hids hdone hspend hentry (hready txin List.mem_cons_self)
      rw [UTXOSet.checkInputs, Mempool.checkInput_of_authorised hheight
        ((hmap txin List.mem_cons_self).trans hfound) hout hold hauth.1]
      exact ih hauth.2 (fun i hi => hmap i (List.mem_cons_of_mem _ hi))
        (fun i hi => hready i (List.mem_cons_of_mem _ hi))

/-- An input that leads to nothing, or to a coinbase of the same height, is refused. -/
theorem checkInput_none {map : UTXOSet} {tx : Transaction} {idx : Nat} {txin : TxIn}
    (h : map.lookup txin.prevout = none ∨ ∃ found, map.lookup txin.prevout = some found ∧
      found.isCoinbase = true ∧ found.blockHeight = height) :
    UTXOSet.checkInput c map tx height idx txin = none := by
  unfold UTXOSet.checkInput
  rcases h with hnone | ⟨found, hfound, hcb, hage⟩
  · rw [hnone]
  · rw [hfound]
    simp only
    split
    · rfl
    · split
      · rfl
      · split
        · rfl
        · rw [if_pos]
          rw [hcb, hage, UInt32.sub_self]
          decide

theorem checkInputs_not_ready (hids : DistinctIds c utxo T) (hcb : coinbase ∈ T)
    (hisCb : coinbase.isCoinbase = true) (hdone : ∀ tx ∈ done, tx ∈ T)
    (hspend : ∀ tx ∈ done, tx.isCoinbase = false) {map : UTXOSet} {tx : Transaction} :
    ∀ {ins : List TxIn} {idx : Nat} {sum : Int64},
      (∀ txin ∈ ins, map.lookup txin.prevout = foundAfter c utxo coinbase height done txin.prevout) →
      (∃ txin ∈ ins, ¬ InputReady c utxo coinbase done txin) →
      UTXOSet.checkInputs c map tx height idx ins sum = none
  | [], _, _, _, h => by
      obtain ⟨_, hmem, -⟩ := h
      cases hmem
  | txin :: ins, idx, sum, hmap, h => by
      rw [UTXOSet.checkInputs]
      by_cases hready : InputReady c utxo coinbase done txin
      · obtain ⟨i, hi, hnot⟩ := h
        have hrest : i ∈ ins := by
          rcases List.mem_cons.mp hi with rfl | hi
          · exact absurd hready hnot
          · exact hi
        split
        · rfl
        · exact checkInputs_not_ready hids hcb hisCb hdone hspend
            (fun j hj => hmap j (List.mem_cons_of_mem _ hj)) ⟨i, hrest, hnot⟩
      · rw [checkInput_none]
        rw [hmap txin List.mem_cons_self]
        exact foundAfter_not_ready hids hcb hisCb hdone hspend hready

theorem UTXOSet.lookup_eraseInputs_of_notMem {map : UTXOSet} {tx : Transaction} {o : OutPoint}
    (ho : ∀ txin ∈ tx.inputs.toList, o ≠ txin.prevout) :
    (UTXOSet.eraseInputs map tx).lookup o = map.lookup o := by
  refine UTXOSet.eraseInputs_lookup_ne _ _ fun hmem => ?_
  obtain ⟨txin, htxin, heq⟩ := List.mem_map.mp hmem
  exact ho txin htxin heq.symm

/-- A transaction can be mined after those applied so far: every input is
ready, and the amounts have not wrapped. -/
structure TxReady (c : Crypto) (utxo : UTXOSet) (coinbase : Transaction) (done : List Transaction)
    (tx : Transaction) (fee : Int64) : Prop where
  inputs : ∀ txin ∈ tx.inputs.toList, InputReady c utxo coinbase done txin
  amounts : tx.totalOutputValue ≤ fee + tx.totalOutputValue

/-- A backed entry is applied exactly when it is ready, with the recorded fee. -/
theorem applyTransaction_backed (hheight : height.toNat = currentHeight.toNat + 1)
    (hids : DistinctIds c utxo T) (hcb : coinbase ∈ T) (hisCb : coinbase.isCoinbase = true)
    (hdone : ∀ tx ∈ done, tx ∈ T) (hspend : ∀ tx ∈ done, tx.isCoinbase = false) {map : UTXOSet}
    {e : Mempool.TxEntry} (he : Mempool.Backed c utxo currentHeight T e)
    (hmap : ∀ txin ∈ e.tx.inputs.toList,
      map.lookup txin.prevout = foundAfter c utxo coinbase height done txin.prevout) :
    ((UTXOSet.applyTransaction c map e.tx height).ok = true ↔
        TxReady c utxo coinbase done e.tx e.fee) ∧
      ((UTXOSet.applyTransaction c map e.tx height).ok = true →
        (UTXOSet.applyTransaction c map e.tx height).fee = e.fee ∧
        ∀ o, (∀ txin ∈ e.tx.inputs.toList, o ≠ txin.prevout) →
          (UTXOSet.applyTransaction c map e.tx height).map.lookup o
            = (UTXOSet.created c e.tx height o).or (map.lookup o)) := by
  obtain ⟨entries, hall, hauth, hfee⟩ := he.resolved
  have hsum : e.fee + e.tx.totalOutputValue = Mempool.valueOf entries := by
    rw [hfee, Int64.sub_add_cancel]
  have hlen : e.tx.outputs.toList.length ≤ 2 ^ 32 :=
    Nat.le_trans he.outputs (by decide)
  by_cases hready : ∀ txin ∈ e.tx.inputs.toList, InputReady c utxo coinbase done txin
  · have hcheck : UTXOSet.checkInputs c map e.tx height 0 e.tx.inputs.toList 0
        = some (Mempool.valueOf entries) :=
      checkInputs_ready hheight hids hdone hspend hall hauth hmap hready
    rw [UTXOSet.applyTransaction, he.notCoinbase, if_neg Bool.false_ne_true, hcheck]
    simp only
    by_cases hlt : Mempool.valueOf entries < e.tx.totalOutputValue
    · rw [if_pos hlt]
      refine ⟨⟨fun h => by simp at h, fun h => ?_⟩, fun h => by simp at h⟩
      have hle := h.amounts
      rw [hsum] at hle
      exact absurd hlt (Int64.not_lt.mpr hle)
    · rw [if_neg hlt]
      refine ⟨⟨fun _ => ⟨hready, ?_⟩, fun _ => rfl⟩, fun _ => ⟨hfee.symm, fun o ho => ?_⟩⟩
      · rw [hsum]
        exact Int64.not_lt.mp hlt
      · rw [UTXOSet.lookup_addOutputs hlen, UTXOSet.lookup_eraseInputs_of_notMem ho]
  · have hcheck : UTXOSet.checkInputs c map e.tx height 0 e.tx.inputs.toList 0 = none := by
      refine checkInputs_not_ready hids hcb hisCb hdone hspend hmap ?_
      simpa only [not_forall, exists_prop] using hready
    rw [UTXOSet.applyTransaction, he.notCoinbase, if_neg Bool.false_ne_true, hcheck]
    exact ⟨⟨fun h => by simp at h, fun h => absurd h.inputs hready⟩, fun h => by simp at h⟩

/-! ## Applying a list of them -/

/-- Every transaction of a list can be mined after the ones before it. -/
def AllReady (c : Crypto) (utxo : UTXOSet) (coinbase : Transaction) (fee : Transaction → Int64)
    (done txs : List Transaction) : Prop :=
  ∀ before tx after, txs = before ++ tx :: after →
    TxReady c utxo coinbase (done ++ before) tx (fee tx)

theorem allReady_cons {fee : Transaction → Int64} {tx : Transaction} {rest : List Transaction} :
    AllReady c utxo coinbase fee done (tx :: rest) ↔
      TxReady c utxo coinbase done tx (fee tx) ∧
        AllReady c utxo coinbase fee (done ++ [tx]) rest := by
  constructor
  · intro h
    refine ⟨by simpa using h [] tx rest rfl, fun before tx' after heq => ?_⟩
    have := h (tx :: before) tx' after (by rw [heq, List.cons_append])
    rwa [List.append_assoc, List.singleton_append]
  · rintro ⟨hfirst, hrest⟩ before tx' after heq
    cases before with
    | nil =>
        cases heq
        simpa using hfirst
    | cons tx'' before =>
        rw [List.cons_append, List.cons.injEq] at heq
        obtain ⟨rfl, heq⟩ := heq
        have := hrest before tx' after heq
        rwa [List.append_assoc, List.singleton_append] at this

/-- A list of backed entries that share no inputs is applied exactly when each
is ready, and the fees are the recorded ones. -/
theorem applyTransactions_backed (hheight : height.toNat = currentHeight.toNat + 1)
    (hids : DistinctIds c utxo T) (hcb : coinbase ∈ T) (hisCb : coinbase.isCoinbase = true)
    {fee : Transaction → Int64} {total : Int64} : ∀ {txs done : List Transaction} {i : Nat}
      {map : UTXOSet} {fees : Int64},
      (∀ tx ∈ txs, ∃ e, Mempool.Backed c utxo currentHeight T e ∧ e.tx = tx ∧ e.fee = fee tx) →
      txs.Pairwise (fun tx tx' => ∀ i ∈ tx.inputs.toList, ∀ j ∈ tx'.inputs.toList,
        i.prevout ≠ j.prevout) →
      (∀ tx ∈ done, tx ∈ T) → (∀ tx ∈ done, tx.isCoinbase = false) →
      (∀ tx ∈ txs, ∀ txin ∈ tx.inputs.toList,
        map.lookup txin.prevout = foundAfter c utxo coinbase height done txin.prevout) →
      ((∃ map', applyTransactions c height i txs map fees = (map', .ok total)) ↔
        AllReady c utxo coinbase fee done txs ∧
          total = txs.foldl (fun sum tx => sum + fee tx) fees)
  | [], done, i, map, fees, _, _, _, _, _ => by
      rw [applyTransactions, List.foldl_nil]
      constructor
      · rintro ⟨_, heq⟩
        cases heq
        exact ⟨fun before tx after h => by simp at h, rfl⟩
      · rintro ⟨-, rfl⟩
        exact ⟨map, rfl⟩
  | tx :: rest, done, i, map, fees, hback, hdisj, hdone, hspend, hmap => by
      obtain ⟨e, he, rfl, hfee⟩ := hback tx List.mem_cons_self
      obtain ⟨hfirst, hdisj⟩ := List.pairwise_cons.mp hdisj
      obtain ⟨hok, hres⟩ := applyTransaction_backed hheight hids hcb hisCb hdone hspend he
        (hmap _ List.mem_cons_self)
      rw [hfee] at hok
      rw [applyTransactions, allReady_cons, List.foldl_cons]
      by_cases happ : (UTXOSet.applyTransaction c map e.tx height).ok = true
      · obtain ⟨hrfee, hlookup⟩ := hres happ
        have hmap' : ∀ t ∈ rest, ∀ txin ∈ t.inputs.toList,
            (UTXOSet.applyTransaction c map e.tx height).map.lookup txin.prevout
              = foundAfter c utxo coinbase height (done ++ [e.tx]) txin.prevout := by
          intro t ht txin htxin
          rw [hlookup _ fun i hi => (hfirst t ht i hi txin htxin).symm,
            foundAfter_snoc hids hcb hdone he.offered, hmap t (List.mem_cons_of_mem _ ht) txin htxin]
        have hdone' : ∀ t ∈ done ++ [e.tx], t ∈ T ∧ t.isCoinbase = false := by
          intro t ht
          rcases List.mem_append.mp ht with ht | ht
          · exact ⟨hdone t ht, hspend t ht⟩
          · rw [List.mem_singleton.mp ht]
            exact ⟨he.offered, he.notCoinbase⟩
        rw [if_pos happ, he.notCoinbase, if_neg Bool.false_ne_true, hrfee, hfee,
          applyTransactions_backed hheight hids hcb hisCb
            (fun t ht => hback t (List.mem_cons_of_mem _ ht)) hdisj (fun t ht => (hdone' t ht).1)
            (fun t ht => (hdone' t ht).2) hmap']
        simp only [hok.mp happ, true_and]
      · rw [if_neg happ]
        constructor
        · rintro ⟨_, heq⟩
          cases heq
        · rintro ⟨⟨hready, -⟩, -⟩
          exact absurd (hok.mpr hready) happ

end Cryptex
