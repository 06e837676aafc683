import Cryptex.Mempool
import Cryptex.Spending

/-!
# The transactions of an external miner

`get_mineable_transactions`: rounds over the pooled transactions, best fee
rate first, each applied to a scratch copy of the UTXO set; what fails is
tried again for as long as a round applies something. The scratch set is used
on after every failure, so that it has to be what it was.
-/

namespace Cryptex

namespace Mempool

/-! ## The rounds -/

/-- What a round carries along: the scratch set, the bytes taken, the
transactions selected, and what is left for the next one. -/
structure Round where
  working : UTXOSet
  totalBytes : UInt64
  selected : List Transaction
  madeProgress : Bool
  nextPending : List TxEntry

section

variable (c : Crypto) (nextBlockHeight : UInt32) (maxBlockBytes : UInt64)

/-- An entry whose bytes do not fit is dropped. -/
def Fits (r : Round) (entry : TxEntry) : Prop :=
  ¬ r.totalBytes + UInt64.ofNat entry.size > maxBlockBytes

instance (r : Round) (entry : TxEntry) : Decidable (Fits maxBlockBytes r entry) :=
  inferInstanceAs (Decidable (¬ _))

def selectOne (r : Round) (entry : TxEntry) : Round :=
  if Fits maxBlockBytes r entry then
    let applied := UTXOSet.applyTransaction c r.working entry.tx nextBlockHeight
    if applied.ok then
      { r with
        working := applied.map
        totalBytes := r.totalBytes + UInt64.ofNat entry.size
        selected := r.selected ++ [entry.tx]
        madeProgress := true }
    else { r with working := applied.map, nextPending := r.nextPending ++ [entry] }
  else r

/-- A round over the entries, from what the last one left. -/
def selectRound (pending : List TxEntry) (r : Round) : Round :=
  pending.foldl (selectOne c nextBlockHeight maxBlockBytes)
    { r with madeProgress := false, nextPending := [] }

theorem length_selectOne (r : Round) (entry : TxEntry) :
    (selectOne c nextBlockHeight maxBlockBytes r entry).nextPending.length ≤
        r.nextPending.length + 1 ∧
      ((selectOne c nextBlockHeight maxBlockBytes r entry).madeProgress = true →
        r.madeProgress = true ∨
          (selectOne c nextBlockHeight maxBlockBytes r entry).nextPending.length ≤
            r.nextPending.length) := by
  rw [selectOne]
  split
  · dsimp only
    split
    · exact ⟨Nat.le_succ _, fun _ => Or.inr (Nat.le_refl _)⟩
    · rw [List.length_append]
      exact ⟨Nat.le_refl _, fun h => Or.inl h⟩
  · exact ⟨by omega, fun h => Or.inl h⟩

theorem length_foldl_selectOne : ∀ (pending : List TxEntry) (r : Round),
    (pending.foldl (selectOne c nextBlockHeight maxBlockBytes) r).nextPending.length ≤
        r.nextPending.length + pending.length ∧
      ((pending.foldl (selectOne c nextBlockHeight maxBlockBytes) r).madeProgress = true →
        r.madeProgress = true ∨
          (pending.foldl (selectOne c nextBlockHeight maxBlockBytes) r).nextPending.length <
            r.nextPending.length + pending.length)
  | [], r => ⟨Nat.le_refl _, fun h => Or.inl h⟩
  | entry :: rest, r => by
      obtain ⟨hone, hprogress⟩ := length_selectOne c nextBlockHeight maxBlockBytes r entry
      obtain ⟨hrest, hlater⟩ := length_foldl_selectOne rest
        (selectOne c nextBlockHeight maxBlockBytes r entry)
      rw [List.foldl_cons, List.length_cons]
      refine ⟨by omega, fun h => ?_⟩
      rcases hlater h with hnow | hlt
      · rcases hprogress hnow with hbefore | hle
        · exact Or.inl hbefore
        · exact Or.inr (by omega)
      · exact Or.inr (by omega)

/-- A round that applies something leaves less. -/
theorem length_selectRound {pending : List TxEntry} {r : Round}
    (h : (selectRound c nextBlockHeight maxBlockBytes pending r).madeProgress = true) :
    (selectRound c nextBlockHeight maxBlockBytes pending r).nextPending.length < pending.length := by
  rcases (length_foldl_selectOne c nextBlockHeight maxBlockBytes pending _).2 h with hno | hlt
  · cases hno
  · simpa [selectRound] using hlt

/-- The rounds, until one applies nothing or none is left. -/
def selectLoop (pending : List TxEntry) (r : Round) : Round :=
  if pending = [] then r
  else
    if (selectRound c nextBlockHeight maxBlockBytes pending r).madeProgress then
      selectLoop (selectRound c nextBlockHeight maxBlockBytes pending r).nextPending
        (selectRound c nextBlockHeight maxBlockBytes pending r)
    else selectRound c nextBlockHeight maxBlockBytes pending r
termination_by pending.length
decreasing_by exact length_selectRound c nextBlockHeight maxBlockBytes (by assumption)

/-- The entries, best fee rate first. -/
def orderedEntries (pool : Mempool) : List TxEntry :=
  pool.sortedByFeerate.reverse.filterMap fun key => pool.txs.lookup key.2.2

def selection (pool : Mempool) (utxo : UTXOSet) (reservedBytes : UInt64) : Round :=
  selectLoop c nextBlockHeight maxBlockBytes (orderedEntries pool) ⟨utxo, reservedBytes, [], false, []⟩

def getMineableTransactions (pool : Mempool) (utxo : UTXOSet) (reservedBytes : UInt64) :
    List Transaction :=
  (selection c nextBlockHeight maxBlockBytes pool utxo reservedBytes).selected

/-! ## What the scratch set is asked -/

/-- The states and entries of the calls that a round makes. -/
def roundCalls : List TxEntry → Round → List (Round × TxEntry)
  | [], _ => []
  | entry :: rest, r =>
      (if Fits maxBlockBytes r entry then [(r, entry)] else [])
        ++ roundCalls rest (selectOne c nextBlockHeight maxBlockBytes r entry)

def loopCalls (pending : List TxEntry) (r : Round) : List (Round × TxEntry) :=
  if pending = [] then []
  else
    roundCalls c nextBlockHeight maxBlockBytes pending { r with madeProgress := false, nextPending := [] }
      ++ if (selectRound c nextBlockHeight maxBlockBytes pending r).madeProgress then
        loopCalls (selectRound c nextBlockHeight maxBlockBytes pending r).nextPending
          (selectRound c nextBlockHeight maxBlockBytes pending r)
      else []
termination_by pending.length
decreasing_by exact length_selectRound c nextBlockHeight maxBlockBytes (by assumption)

/-- The calls of `apply_transaction` that a selection makes. -/
def calls (pool : Mempool) (utxo : UTXOSet) (reservedBytes : UInt64) : List (Round × TxEntry) :=
  loopCalls c nextBlockHeight maxBlockBytes (orderedEntries pool) ⟨utxo, reservedBytes, [], false, []⟩

/-- A call takes no output from the scratch set but those that the
transaction it selects spends. -/
def LosesOnlySpent (call : Round × TxEntry) : Prop :=
  ∀ o e, call.1.working.lookup o = some e →
    (selectOne c nextBlockHeight maxBlockBytes call.1 call.2).working.lookup o = none →
    (selectOne c nextBlockHeight maxBlockBytes call.1 call.2).selected
        = call.1.selected ++ [call.2.tx] ∧
      o ∈ call.2.tx.inputs.toList.map TxIn.prevout

/-- Outputs of the first scratch set that no transaction selected by the end
spends are in the last one. -/
structure KeepsUnspent (r r' : Round) : Prop where
  selected : ∀ tx ∈ r.selected, tx ∈ r'.selected
  unspent : ∀ o e, r.working.lookup o = some e →
    (∀ tx ∈ r'.selected, o ∉ tx.inputs.toList.map TxIn.prevout) →
    ∃ e', r'.working.lookup o = some e'

end

theorem KeepsUnspent.refl (r : Round) : KeepsUnspent r r :=
  ⟨fun _ h => h, fun _ e h _ => ⟨e, h⟩⟩

theorem KeepsUnspent.trans {r r' r'' : Round} (h : KeepsUnspent r r') (h' : KeepsUnspent r' r'') :
    KeepsUnspent r r'' := by
  refine ⟨fun tx htx => h'.selected tx (h.selected tx htx), fun o e ho hfree => ?_⟩
  obtain ⟨e', he'⟩ := h.unspent o e ho fun tx htx => hfree tx (h'.selected tx htx)
  exact h'.unspent o e' he' hfree

variable {c : Crypto} {height : UInt32} {maxBytes : UInt64}

/-! ## One call -/

theorem exists_lookup_insertOutputs {txHash : Hash256} {cb : Bool} {o : OutPoint} :
    ∀ (i : Nat) (outs : List TxOut) {map : UTXOSet}, (∃ e, map.lookup o = some e) →
      ∃ e, Finmap.lookup o (UTXOSet.insertOutputs txHash height cb i outs map) = some e
  | _, [], _, h => h
  | i, out :: rest, map, ⟨e, he⟩ => by
      rw [UTXOSet.insertOutputs]
      refine exists_lookup_insertOutputs (i + 1) rest ?_
      rw [FinMap.lookup_insert_ite]
      split
      · exact ⟨_, rfl⟩
      · exact ⟨e, he⟩

/-- A success removes no more than its inputs. -/
theorem mem_inputs_of_lookup_none {map : UTXOSet} {tx : Transaction} {o : OutPoint} {e : UTXOEntry}
    (hok : (UTXOSet.applyTransaction c map tx height).ok = true) (ho : map.lookup o = some e)
    (hgone : (UTXOSet.applyTransaction c map tx height).map.lookup o = none) :
    o ∈ tx.inputs.toList.map TxIn.prevout := by
  by_contra hno
  obtain ⟨e', he'⟩ : ∃ e', (UTXOSet.applyTransaction c map tx height).map.lookup o = some e' := by
    rcases UTXOSet.applyTransaction_ok hok with ⟨-, -, hmap⟩ | ⟨-, s, -, -, -, hmap⟩
    · rw [hmap]
      exact exists_lookup_insertOutputs 0 _ ⟨e, ho⟩
    · rw [hmap]
      refine exists_lookup_insertOutputs 0 _ ⟨e, ?_⟩
      rw [UTXOSet.eraseInputs_lookup, if_neg hno, ho]
  rw [hgone] at he'
  cases he'

theorem selectOne_of_ok {r : Round} {entry : TxEntry} (hfits : Fits maxBytes r entry)
    (hok : (UTXOSet.applyTransaction c r.working entry.tx height).ok = true) :
    selectOne c height maxBytes r entry =
      { r with
        working := (UTXOSet.applyTransaction c r.working entry.tx height).map
        totalBytes := r.totalBytes + UInt64.ofNat entry.size
        selected := r.selected ++ [entry.tx]
        madeProgress := true } := by
  rw [selectOne, if_pos hfits]
  exact if_pos hok

theorem selectOne_of_failed {r : Round} {entry : TxEntry} (hfits : Fits maxBytes r entry)
    (hfail : (UTXOSet.applyTransaction c r.working entry.tx height).ok = false) :
    selectOne c height maxBytes r entry =
      { r with
        working := (UTXOSet.applyTransaction c r.working entry.tx height).map
        nextPending := r.nextPending ++ [entry] } := by
  rw [selectOne, if_pos hfits]
  exact if_neg (by rw [hfail]; exact Bool.false_ne_true)

theorem losesOnlySpent_iff {call : Round × TxEntry} (hfits : Fits maxBytes call.1 call.2) :
    LosesOnlySpent c height maxBytes call ↔
      ¬ UTXOSet.Overspends c call.1.working call.2.tx height := by
  obtain ⟨r, entry⟩ := call
  constructor
  · intro h hover
    obtain ⟨txin, hmem⟩ := List.exists_mem_of_ne_nil _ hover.named
    obtain ⟨⟨e, he⟩, hgone⟩ := UTXOSet.lookup_of_overspends hover (List.mem_map_of_mem hmem)
    have hone := selectOne_of_failed hfits (UTXOSet.not_ok_of_overspends hover)
    have hselected := (h txin.prevout e he (by rw [hone]; exact hgone)).1
    rw [hone] at hselected
    exact absurd (congrArg List.length hselected) (by simp)
  · intro hnot o e ho hgone
    cases hok : (UTXOSet.applyTransaction c r.working entry.tx height).ok with
    | true =>
        rw [selectOne_of_ok hfits hok] at hgone ⊢
        exact ⟨rfl, mem_inputs_of_lookup_none hok ho hgone⟩
    | false =>
        rw [selectOne_of_failed hfits hok] at hgone
        dsimp only at hgone ho
        rw [UTXOSet.refused_map_eq_iff.mpr hnot hok, ho] at hgone
        cases hgone

theorem keepsUnspent_selectOne {r : Round} {entry : TxEntry}
    (h : Fits maxBytes r entry → LosesOnlySpent c height maxBytes (r, entry)) :
    KeepsUnspent r (selectOne c height maxBytes r entry) := by
  by_cases hfits : Fits maxBytes r entry
  · have hselected : ∀ tx ∈ r.selected, tx ∈ (selectOne c height maxBytes r entry).selected := by
      intro tx htx
      cases hok : (UTXOSet.applyTransaction c r.working entry.tx height).ok with
      | true =>
          rw [selectOne_of_ok hfits hok]
          exact List.mem_append_left _ htx
      | false =>
          rw [selectOne_of_failed hfits hok]
          exact htx
    refine ⟨hselected, fun o e ho hfree => ?_⟩
    cases hgone : (selectOne c height maxBytes r entry).working.lookup o with
    | some e' => exact ⟨e', rfl⟩
    | none =>
        obtain ⟨htaken, hspends⟩ := h hfits o e ho hgone
        refine absurd hspends (hfree entry.tx ?_)
        rw [htaken]
        exact List.mem_append_right _ List.mem_cons_self
  · rw [selectOne, if_neg hfits]
    exact .refl r

/-! ## A whole selection -/

theorem keepsUnspent_foldl : ∀ {pending : List TxEntry} {r : Round},
    (∀ call ∈ roundCalls c height maxBytes pending r, LosesOnlySpent c height maxBytes call) →
    KeepsUnspent r (pending.foldl (selectOne c height maxBytes) r)
  | [], r, _ => .refl r
  | entry :: rest, r, h => by
      have hone : KeepsUnspent r (selectOne c height maxBytes r entry) :=
        keepsUnspent_selectOne fun hfits => h (r, entry) (by
          rw [roundCalls, if_pos hfits]
          exact List.mem_append_left _ List.mem_cons_self)
      exact hone.trans (keepsUnspent_foldl fun call hcall => h call (by
        rw [roundCalls]
        exact List.mem_append_right _ hcall))

theorem keepsUnspent_selectRound {pending : List TxEntry} {r : Round}
    (h : ∀ call ∈ roundCalls c height maxBytes pending { r with madeProgress := false, nextPending := [] },
      LosesOnlySpent c height maxBytes call) :
    KeepsUnspent r (selectRound c height maxBytes pending r) := by
  have hfold := keepsUnspent_foldl h
  exact ⟨hfold.selected, hfold.unspent⟩

theorem keepsUnspent_selectLoop {pending : List TxEntry} {r : Round}
    (h : ∀ call ∈ loopCalls c height maxBytes pending r, LosesOnlySpent c height maxBytes call) :
    KeepsUnspent r (selectLoop c height maxBytes pending r) := by
  induction pending, r using selectLoop.induct c height maxBytes with
  | case1 r =>
      rw [selectLoop, if_pos rfl]
      exact .refl r
  | case2 pending r hne hprogress ih =>
      rw [loopCalls, if_neg hne, if_pos hprogress] at h
      rw [selectLoop, if_neg hne, if_pos hprogress]
      exact (keepsUnspent_selectRound fun call hcall => h call (List.mem_append_left _ hcall)).trans
        (ih fun call hcall => h call (List.mem_append_right _ hcall))
  | case3 pending r hne hprogress =>
      rw [loopCalls, if_neg hne] at h
      rw [selectLoop, if_neg hne, if_neg hprogress]
      exact keepsUnspent_selectRound fun call hcall => h call (List.mem_append_left _ hcall)

theorem fits_of_mem_roundCalls {call : Round × TxEntry} : ∀ {pending : List TxEntry} {r : Round},
    call ∈ roundCalls c height maxBytes pending r → Fits maxBytes call.1 call.2
  | entry :: rest, r, h => by
      rw [roundCalls, List.mem_append] at h
      rcases h with h | h
      · split at h
        · next hfits =>
            rw [List.mem_singleton] at h
            rw [h]
            exact hfits
        · cases h
      · exact fits_of_mem_roundCalls h

theorem fits_of_mem_loopCalls {call : Round × TxEntry} {pending : List TxEntry} {r : Round}
    (h : call ∈ loopCalls c height maxBytes pending r) : Fits maxBytes call.1 call.2 := by
  induction pending, r using selectLoop.induct c height maxBytes with
  | case1 r =>
      rw [loopCalls, if_pos rfl] at h
      cases h
  | case2 pending r hne hprogress ih =>
      rw [loopCalls, if_neg hne, if_pos hprogress, List.mem_append] at h
      rcases h with h | h
      · exact fits_of_mem_roundCalls h
      · exact ih h
  | case3 pending r hne hprogress =>
      rw [loopCalls, if_neg hne, if_neg hprogress, List.append_nil] at h
      exact fits_of_mem_roundCalls h

/-- A failed application changes nothing unless its transaction overspends,
and a selection loses an unspent output only to such a transaction. -/
theorem failed_apply_harmless_iff (c : Crypto) (height : UInt32) :
    (∀ (map : UTXOSet) (tx : Transaction),
      ((UTXOSet.applyTransaction c map tx height).ok = false →
        (UTXOSet.applyTransaction c map tx height).map = map) ↔
      ¬ UTXOSet.Overspends c map tx height) ∧
    (∀ (maxBytes : UInt64) (pool : Mempool) (utxo : UTXOSet) (reserved : UInt64),
      ((∀ call ∈ calls c height maxBytes pool utxo reserved, LosesOnlySpent c height maxBytes call) ↔
        ∀ call ∈ calls c height maxBytes pool utxo reserved,
          ¬ UTXOSet.Overspends c call.1.working call.2.tx height) ∧
      ((∀ call ∈ calls c height maxBytes pool utxo reserved,
          ¬ UTXOSet.Overspends c call.1.working call.2.tx height) →
        ∀ o e, utxo.lookup o = some e →
          (∀ tx ∈ getMineableTransactions c height maxBytes pool utxo reserved,
            o ∉ tx.inputs.toList.map TxIn.prevout) →
          ∃ e', (selection c height maxBytes pool utxo reserved).working.lookup o = some e')) := by
  refine ⟨fun map tx => UTXOSet.refused_map_eq_iff, fun maxBytes pool utxo reserved => ?_⟩
  have hiff : (∀ call ∈ calls c height maxBytes pool utxo reserved,
      LosesOnlySpent c height maxBytes call) ↔
      ∀ call ∈ calls c height maxBytes pool utxo reserved,
        ¬ UTXOSet.Overspends c call.1.working call.2.tx height :=
    forall₂_congr fun call hcall => losesOnlySpent_iff (fits_of_mem_loopCalls hcall)
  exact ⟨hiff, fun h => (keepsUnspent_selectLoop (hiff.mpr h)).unspent⟩

end Mempool

section

open UTXOSet Regtest

/-- The output of 50000 that `payment` tries to turn into 90000. -/
def scarce : UTXOSet := (∅ : UTXOSet).insert ⟨7, 0⟩ ⟨⟨50000, aliceAddress⟩, 1, false⟩

/-- The refused payment takes the output all the same. -/
theorem not_failed_apply_harmless :
    ¬ ∀ (map : UTXOSet) (tx : Transaction) (height : UInt32),
      (applyTransaction crypto map tx height).ok = false →
      (applyTransaction crypto map tx height).map = map := by
  intro h
  have hsame := h scarce payment 11 (by decide +kernel)
  have hgone : (applyTransaction crypto scarce payment 11).map.lookup ⟨7, 0⟩ = none := by
    decide +kernel
  rw [hsame] at hgone
  exact absurd hgone (by decide)

end

end Cryptex
