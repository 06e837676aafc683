import Cryptex.MempoolClosure
import Cryptex.MempoolConsensus

/-!
# What backs a pooled transaction

Between two blocks the mempool is filled over one UTXO set and height. Every
entry then stands for inputs that were resolved to confirmed outputs or to
outputs of transactions that were offered before it, whether or not these are
still in the pool.
-/

namespace Cryptex

namespace Mempool

section

variable (c : Crypto) (utxo : UTXOSet) (height : UInt32) (T : Set Transaction)

/-- Runs over one UTXO set and height that are offered transactions of a set. -/
def Rules.offered : Rules where
  context := fun ctx => ctx.utxo = utxo ∧ ctx.currentHeight = height
  pass := fun _ _ tx => tx ∈ T
  remove := fun _ _ => True
  expire := fun _ _ => True
  trim := fun _ => True

/-- What an input is resolved to. -/
def Backs (txin : TxIn) (entry : UTXOEntry) : Prop :=
  utxo.lookup txin.prevout = some entry ∨
    utxo.lookup txin.prevout = none ∧ ∃ parent ∈ T, parent.hash c = txin.prevout.txHash ∧
      parent.isCoinbase = false ∧ ∃ out, parent.outputs.toList[txin.prevout.index.toNat]? = some out ∧
        entry = ⟨out, height, false⟩

/-- The values of entries, added up in `int64_t`. -/
def valueOf (entries : List UTXOEntry) : Int64 :=
  entries.foldl (fun sum entry => sum + entry.output.value) 0

/-- An entry of the pool with the outputs that back it. -/
structure Backed (e : TxEntry) : Prop where
  offered : e.tx ∈ T
  notCoinbase : e.tx.isCoinbase = false
  outputs : e.tx.outputs.toList.length ≤ Constants.maxStandardTxOutputs
  nodup : (e.tx.inputs.toList.map TxIn.prevout).Nodup
  nonneg : ¬ e.fee < 0
  resolved : ∃ entries, List.Forall₂ (Backs c utxo height T) e.tx.inputs.toList entries ∧
    inputsAuthorised c height e.tx 0 (e.tx.inputs.toList.zip entries) = true ∧
    e.fee = valueOf entries - e.tx.totalOutputValue

end

variable {c : Crypto} {utxo : UTXOSet} {height : UInt32} {T : Set Transaction} {ctx : Context}
  {pool : Mempool} {tx : Transaction}

/-! ## Admission -/

/-- The resolution of inputs none of which is missing. -/
theorem resolveInputs_backs
    (hpool : ∀ h e, pool.txs.lookup h = some e →
      e.tx.hash c = h ∧ e.tx ∈ T ∧ e.tx.isCoinbase = false) :
    ∀ {ins : List TxIn} {seen : List OutPoint} {r r' : Resolution},
      resolveInputs ctx pool ins seen r = .ok r' → r'.missing = [] →
      (ins.map TxIn.prevout).Nodup ∧ (∀ txin ∈ ins, txin.prevout ∉ seen) ∧
      ∃ entries, List.Forall₂ (Backs c ctx.utxo ctx.currentHeight T) ins entries ∧
        r'.entries = r.entries ++ entries ∧
        r'.inputSum = entries.foldl (fun sum entry => sum + entry.output.value) r.inputSum
  | [], seen, r, r', h, _ => by
      cases h
      exact ⟨.nil, by simp, [], .nil, by simp, rfl⟩
  | txin :: rest, seen, r, r', h, hfound => by
      rw [resolveInputs] at h
      split at h
      · cases h
      · next hseen =>
          -- the rest of the inputs, once this one has its entry
          have hstep : ∀ {entry : UTXOEntry} {s : Resolution},
              Backs c ctx.utxo ctx.currentHeight T txin entry →
              s.entries = r.entries ++ [entry] → s.inputSum = r.inputSum + entry.output.value →
              resolveInputs ctx pool rest (txin.prevout :: seen) s = .ok r' →
              ((txin :: rest).map TxIn.prevout).Nodup ∧
              (∀ i ∈ txin :: rest, i.prevout ∉ seen) ∧
              ∃ entries, List.Forall₂ (Backs c ctx.utxo ctx.currentHeight T) (txin :: rest) entries ∧
                r'.entries = r.entries ++ entries ∧
                r'.inputSum
                  = entries.foldl (fun sum entry => sum + entry.output.value) r.inputSum := by
            intro entry s hbacks hentries hsum hrest
            obtain ⟨hnd, hnew, entries, hall, hlist, htotal⟩ :=
              resolveInputs_backs hpool hrest hfound
            refine ⟨?_, fun i hi => ?_, entry :: entries, .cons hbacks hall, ?_, ?_⟩
            · rw [List.map_cons, List.nodup_cons]
              refine ⟨fun hmem => ?_, hnd⟩
              obtain ⟨i, hi, heq⟩ := List.mem_map.mp hmem
              exact hnew i hi (by rw [heq]; exact List.mem_cons_self)
            · rcases List.mem_cons.mp hi with rfl | hi
              · exact hseen
              · exact fun hmem => hnew i hi (List.mem_cons_of_mem _ hmem)
            · rw [hlist, hentries, List.append_assoc, List.singleton_append]
            · rw [htotal, hsum, List.foldl_cons]
          split at h
          · next entry hentry => exact hstep (Or.inl hentry) rfl rfl h
          · next hnone =>
              split at h
              · next parent hparent =>
                  obtain ⟨hid, hmem, hcb⟩ := hpool _ _ hparent
                  split at h
                  · cases h
                  · next out hout =>
                      refine hstep (Or.inr ⟨hnone, parent.tx, hmem, hid, hcb, out, hout, ?_⟩)
                        rfl rfl h
                      rw [hcb]
              · -- a missing parent stays missing
                obtain ⟨hmissing, -⟩ := resolveInputs_supported h hfound
                simp only at hmissing
                split at hmissing
                · next hmem =>
                    rw [hmissing] at hmem
                    cases hmem
                · exact absurd hmissing (by simp)

theorem outputs_of_standard {size : Nat} (h : violatesStandardPolicy ctx tx size = false) :
    tx.outputs.toList.length ≤ Constants.maxStandardTxOutputs := by
  unfold violatesStandardPolicy at h
  simp only [Bool.or_eq_false_iff, decide_eq_false_iff_not, Nat.not_lt] at h
  exact h.1.1.2

/-- An admitted transaction is backed. -/
theorem Admits.backed (hok : Admissible c ctx pool tx) {r : Resolution} {e : TxEntry}
    (hres : resolveInputs ctx pool tx.inputs.toList [] ⟨[], [], 0⟩ = .ok r)
    (h : Admits c ctx tx r e)
    (hpool : ∀ h e, pool.txs.lookup h = some e →
      e.tx.hash c = h ∧ e.tx ∈ T ∧ e.tx.isCoinbase = false) (htx : tx ∈ T) :
    Backed c ctx.utxo ctx.currentHeight T e := by
  obtain ⟨hnd, -, entries, hall, hentries, hsum⟩ := resolveInputs_backs hpool hres h.found
  have hauth := h.authorised
  rw [hentries, List.nil_append] at hauth
  have hnonneg := h.nonneg
  rw [h.entry]
  refine ⟨htx, hok.notCoinbase, outputs_of_standard hok.standard, hnd, hnonneg, entries, hall,
    hauth, ?_⟩
  rw [valueOf, ← hsum]

/-! ## Runs -/

/-- Every entry is backed. -/
def AllBacked (c : Crypto) (utxo : UTXOSet) (height : UInt32) (T : Set Transaction)
    (pool : Mempool) : Prop :=
  ∀ h e, pool.txs.lookup h = some e → Backed c utxo height T e

theorem AllBacked.addOne (hsound : pool.Sound c)
    (hs : pool.AllBacked c ctx.utxo ctx.currentHeight T) (htx : tx ∈ T) :
    (Mempool.addOne c ctx pool tx).2.AllBacked c ctx.utxo ctx.currentHeight T := by
  rcases addOne_cases c ctx pool tx with ⟨status, heq, -⟩ | ⟨hok, r, hres, hcase⟩
  · rw [heq]
    exact hs
  · rcases hcase with ⟨-, heq⟩ | ⟨e, he, heq, -⟩
    · rw [heq]
      intro h e' he'
      rw [(hsound.orphansOk.addOrphan tx ctx.now r.missing).2.txs] at he'
      exact hs h e' he'
    · rw [heq]
      intro h e' he'
      have hold := lookup_trimLoop he'
      rw [insertEntry] at hold
      simp only [FinMap.lookup_insert_ite] at hold
      split at hold
      · cases hold
        exact he.backed hok hres (fun k e'' hk =>
          ⟨hsound.consistent.id hk, (hs k e'' hk).offered, (hs k e'' hk).notCoinbase⟩) htx
      · exact hs h e' hold

theorem lookup_foldl_removeTransaction {h : Hash256} {e : TxEntry} : ∀ {l : List Hash256}
    {pool : Mempool}, (l.foldl removeTransaction pool).txs.lookup h = some e →
      pool.txs.lookup h = some e
  | [], _, hlook => hlook
  | _ :: _, _, hlook => lookup_removeTransaction (lookup_foldl_removeTransaction hlook)

/-- Every pool of a run over one UTXO set and height is backed by it. -/
theorem backed_of_reachable (h : Reachable c (Rules.offered utxo height T) pool) :
    pool.AllBacked c utxo height T := by
  induction h with
  | start =>
      intro k e he
      cases he
  | @add ctx fuel pool tx status pool' hpool hctx hpass hadd ih =>
      obtain ⟨rfl, rfl⟩ := hctx
      exact (addTransaction_rule
        (I := fun q => q.Sound c ∧ q.AllBacked c ctx.utxo ctx.currentHeight T)
        (Q := fun _ t => t ∈ T) (fun q t hq ht => ⟨hq.1.addOne, hq.2.addOne hq.1 ht⟩)
        (fun q k hq => ⟨hq.1.removeOrphan k, fun h e he => hq.2 h e
          (by rw [← (removeOrphan_samePool k).txs]; exact he)⟩)
        fuel pool tx status pool' ⟨sound_of_reachable hpool, ih⟩ hpass hadd).2
  | remove _ _ ih => exact fun k e he => ih k e (lookup_removeTransaction he)
  | expire _ _ _ ih =>
      intro k e he
      rw [expireOldTransactions] at he
      simp only [foldl_removeOrphan_txs] at he
      exact ih k e (lookup_foldl_removeTransaction he)
  | trim _ _ ih => exact fun k e he => ih k e (lookup_trimLoop he)
  | clear _ _ =>
      intro k e he
      cases he

end Mempool

end Cryptex
