import Cryptex.Regtest

/-!
# The mempool against the block validator

For a transaction that spends confirmed outputs only, what `add_transaction`
checks at a height is what `apply_transaction` checks at the next one, save
for the amounts: the mempool subtracts before it compares.
-/

namespace Cryptex

namespace Mempool

variable {c : Crypto} {ctx : Context} {pool : Mempool} {tx : Transaction}

/-! ## The two input loops -/

/-- The inputs are confirmed: the resolution is that of the UTXO set. -/
theorem resolveInputs_known : ∀ {ins : List TxIn} {seen : List OutPoint} {r r' : Resolution},
    (∀ txin ∈ ins, ∃ entry, ctx.utxo.lookup txin.prevout = some entry) →
    resolveInputs ctx pool ins seen r = .ok r' →
    ∃ entries, List.Forall₂ (fun txin entry => ctx.utxo.lookup txin.prevout = some entry)
        ins entries ∧
      r' = ⟨r.entries ++ entries, r.missing,
        entries.foldl (fun sum entry => sum + entry.output.value) r.inputSum⟩
  | [], seen, r, r', _, h => by
      cases h
      exact ⟨[], .nil, by simp⟩
  | txin :: rest, seen, r, r', hknown, h => by
      obtain ⟨entry, hentry⟩ := hknown txin List.mem_cons_self
      rw [resolveInputs] at h
      split at h
      · cases h
      · rw [hentry] at h
        obtain ⟨entries, hall, rfl⟩ := resolveInputs_known
          (fun i hi => hknown i (List.mem_cons_of_mem _ hi)) h
        exact ⟨entry :: entries, .cons hentry hall, by simp⟩

/-- An input that the mempool admits at a height passes the validator at the
next height, over any set where its outpoint has the same output and does not
belong to a younger coinbase. -/
theorem checkInput_of_authorised {map : UTXOSet} {currentHeight height : UInt32} {idx : Nat} {txin : TxIn}
    {entry found : UTXOEntry} (hheight : height.toNat = currentHeight.toNat + 1)
    (hfound : map.lookup txin.prevout = some found) (hout : found.output = entry.output)
    (hold : found.isCoinbase = true → found = entry)
    (h : inputAuthorised c currentHeight tx idx txin entry = true) :
    UTXOSet.checkInput c map tx height idx txin = some entry.output.value := by
  unfold inputAuthorised at h
  unfold UTXOSet.checkInput
  rw [hfound]
  simp only [hout] at h ⊢
  split at h
  · cases h
  · next hlen =>
      rw [if_neg hlen]
      split at h
      · cases h
      · next hkey =>
          rw [if_neg hkey]
          split at h
          · cases h
          · next hsig =>
              rw [if_neg hsig, if_neg]
              intro himmature
              rw [Bool.and_eq_true, decide_eq_true_eq] at himmature
              obtain ⟨hcb, hyoung⟩ := himmature
              have heq := hold hcb
              rw [heq] at hcb hyoung
              simp only [hcb, Bool.true_and, Bool.not_eq_true', decide_eq_false_iff_not] at h
              -- no wrap: the block of the entry lies at least the maturity below
              have hle : entry.blockHeight ≤ height := by
                rw [UInt32.le_iff_toNat_le]
                omega
              have hage := UInt32.lt_iff_toNat_lt.mp hyoung
              rw [UInt32.toNat_sub_of_le _ _ hle] at hage
              omega

theorem checkInputs_of_authorised {height : UInt32}
    (hheight : height.toNat = ctx.currentHeight.toNat + 1) :
    ∀ {ins : List TxIn} {entries : List UTXOEntry} {idx : Nat} {sum : Int64},
      List.Forall₂ (fun txin entry => ctx.utxo.lookup txin.prevout = some entry) ins entries →
      inputsAuthorised c ctx.currentHeight tx idx (ins.zip entries) = true →
      UTXOSet.checkInputs c ctx.utxo tx height idx ins sum
        = some (entries.foldl (fun sum entry => sum + entry.output.value) sum) := by
  intro ins entries idx sum hall h
  induction hall generalizing idx sum with
  | nil => rfl
  | cons hentry _ ih =>
      rw [List.zip_cons_cons, inputsAuthorised, Bool.and_eq_true] at h
      rw [UTXOSet.checkInputs, checkInput_of_authorised hheight hentry rfl (fun _ => rfl) h.1]
      exact ih h.2

/-! ## What is recorded -/

theorem lookup_removeTransaction {txHash h : Hash256} {e : TxEntry}
    (hlook : (pool.removeTransaction txHash).txs.lookup h = some e) : pool.txs.lookup h = some e := by
  unfold removeTransaction at hlook
  split at hlook
  · exact hlook
  · simp only [FinMap.lookup_erase_ite] at hlook
    split at hlook
    · cases hlook
    · exact hlook

/-- Trimming changes no entry that it keeps. -/
theorem lookup_trimLoop {h : Hash256} {e : TxEntry} : ∀ {fuel : Nat} {pool : Mempool},
    (trimLoop fuel pool).txs.lookup h = some e → pool.txs.lookup h = some e
  | 0, _, hlook => hlook
  | fuel + 1, pool, hlook => by
      rw [trimLoop] at hlook
      split at hlook
      · exact hlook
      · split at hlook
        · exact lookup_removeTransaction (lookup_trimLoop hlook)
        · exact hlook

/-- An accepted transaction is recorded as its checks say. -/
theorem addOne_accepted (h : (addOne c ctx pool tx).1 = .accepted) :
    ∃ r e, resolveInputs ctx pool tx.inputs.toList [] ⟨[], [], 0⟩ = .ok r ∧ Admits c ctx tx r e ∧
      tx.isCoinbase = false ∧ (addOne c ctx pool tx).2.txs.lookup (tx.hash c) = some e := by
  unfold addOne at h ⊢
  rcases admission_cases c ctx pool tx with ⟨status, hadm, hne⟩ | ⟨hok, r, hres, hcase⟩
  · rw [hadm] at h
    exact absurd h hne
  · rcases hcase with ⟨-, hadm⟩ | ⟨e, he, hadm⟩
    · rw [hadm] at h
      cases h
    · rw [hadm] at h ⊢
      refine ⟨r, e, hres, he, hok.notCoinbase, ?_⟩
      simp only at h ⊢
      split at h
      · next hsome =>
          rw [if_pos hsome]
          obtain ⟨e', he'⟩ := Option.isSome_iff_exists.mp hsome
          have hold := lookup_trimLoop he'
          rw [insertEntry] at hold
          simp only [Finmap.lookup_insert] at hold
          rw [he', hold]
      · cases h

theorem addTransaction_accepted {fuel : Nat} {pool' : Mempool}
    (h : addTransaction c ctx fuel pool tx = some (.accepted, pool')) :
    (addOne c ctx pool tx).1 = .accepted := by
  cases fuel with
  | zero => cases h
  | succ fuel =>
      rw [addTransaction] at h
      generalize addOne c ctx pool tx = res at h
      obtain ⟨status, pool₁⟩ := res
      cases status with
      | accepted => rfl
      | _ => cases h

/-! ## Agreement -/

/-- The values of the spent outputs, added up in `int64_t`. -/
def spentValue (utxo : UTXOSet) (tx : Transaction) : Int64 :=
  tx.inputs.toList.foldl
    (fun sum txin => sum + ((utxo.lookup txin.prevout).map (·.output.value)).getD 0) 0

theorem foldl_spent {utxo : UTXOSet} : ∀ {ins : List TxIn} {entries : List UTXOEntry} (sum : Int64),
    List.Forall₂ (fun txin entry => utxo.lookup txin.prevout = some entry) ins entries →
    ins.foldl (fun sum txin => sum + ((utxo.lookup txin.prevout).map (·.output.value)).getD 0) sum
      = entries.foldl (fun sum entry => sum + entry.output.value) sum
  | [], _, _, .nil => rfl
  | txin :: ins, entry :: entries, sum, .cons hentry hrest => by
      rw [List.foldl_cons, List.foldl_cons, hentry]
      exact foldl_spent _ hrest

/-- The validator accepts the transaction at a height, with the fee that the
mempool has recorded. -/
structure Agrees (c : Crypto) (ctx : Context) (pool : Mempool) (tx : Transaction)
    (height : UInt32) : Prop where
  ok : (UTXOSet.applyTransaction c ctx.utxo tx height).ok = true
  fee : ∃ e, (addOne c ctx pool tx).2.txs.lookup (tx.hash c) = some e ∧
    e.fee = (UTXOSet.applyTransaction c ctx.utxo tx height).fee

/-- The validator agrees with an admission exactly when the inputs are worth at
least the outputs as `int64_t`, so that their difference did not wrap. -/
theorem agrees_iff {height : UInt32} (hheight : height.toNat = ctx.currentHeight.toNat + 1)
    (hknown : ∀ txin ∈ tx.inputs.toList, ∃ entry, ctx.utxo.lookup txin.prevout = some entry)
    {fuel : Nat} {pool' : Mempool}
    (h : addTransaction c ctx fuel pool tx = some (.accepted, pool')) :
    Agrees c ctx pool tx height ↔ tx.totalOutputValue ≤ spentValue ctx.utxo tx := by
  obtain ⟨r, e, hres, he, hcb, hrecorded⟩ := addOne_accepted (addTransaction_accepted h)
  obtain ⟨entries, hall, rfl⟩ := resolveInputs_known hknown hres
  have hsum : spentValue ctx.utxo tx
      = entries.foldl (fun sum entry => sum + entry.output.value) 0 := foldl_spent 0 hall
  have hauth := he.authorised
  simp only [List.nil_append] at hauth
  have hcheck : UTXOSet.checkInputs c ctx.utxo tx height 0 tx.inputs.toList 0
      = some (spentValue ctx.utxo tx) := by
    rw [hsum]
    exact checkInputs_of_authorised hheight hall hauth
  have happ : UTXOSet.applyTransaction c ctx.utxo tx height
      = if spentValue ctx.utxo tx < tx.totalOutputValue then
          ⟨false, spentValue ctx.utxo tx - tx.totalOutputValue, UTXOSet.eraseInputs ctx.utxo tx⟩
        else
          ⟨true, spentValue ctx.utxo tx - tx.totalOutputValue,
            UTXOSet.addOutputs c (UTXOSet.eraseInputs ctx.utxo tx) tx height⟩ := by
    rw [UTXOSet.applyTransaction, hcb, if_neg Bool.false_ne_true, hcheck]
  have hfee : e.fee = spentValue ctx.utxo tx - tx.totalOutputValue := by
    rw [he.entry, hsum]
  constructor
  · intro hagree
    have hok := hagree.ok
    rw [happ] at hok
    split at hok
    · cases hok
    · next hlt => exact Int64.not_lt.mp hlt
  · intro hle
    have hlt : ¬ spentValue ctx.utxo tx < tx.totalOutputValue := Int64.not_lt.mpr hle
    constructor
    · rw [happ, if_neg hlt]
    · exact ⟨e, hrecorded, by rw [happ, if_neg hlt, hfee]⟩

/-- The call accepts when its status says so. -/
theorem exists_accepted {fuel : Nat} {status : AcceptStatus}
    (h : (addTransaction c ctx fuel pool tx).map Prod.fst = some status) :
    ∃ pool', addTransaction c ctx fuel pool tx = some (status, pool') := by
  obtain ⟨⟨s, pool'⟩, hadd, rfl⟩ := Option.map_eq_some_iff.mp h
  exact ⟨pool', hadd⟩

open Regtest in
theorem agrees_payment : ∃ pool',
    addTransaction crypto (context confirmed) 1 empty payment = some (.accepted, pool') ∧
      Agrees crypto (context confirmed) empty payment 11 := by
  have hknown : ∀ txin ∈ payment.inputs.toList, ∃ entry,
      (context confirmed).utxo.lookup txin.prevout = some entry := by
    simp only [← Option.isSome_iff_exists]
    decide
  obtain ⟨pool', h⟩ := exists_accepted
    (by decide +kernel : (addTransaction crypto (context confirmed) 1 empty payment).map Prod.fst
      = some .accepted)
  exact ⟨pool', h, (agrees_iff (by decide) hknown h).mpr (by decide)⟩

open Regtest in
/-- Two confirmed outputs of 2^62 each: the sum of the inputs wraps to -2^63,
and minus an output of 2^62 it wraps to a fee of 2^62. -/
theorem not_agrees_largePayment : ∃ pool',
    addTransaction crypto (context confirmedLarge) 1 empty largePayment = some (.accepted, pool') ∧
      (∀ txin ∈ largePayment.inputs.toList, ∃ entry, confirmedLarge.lookup txin.prevout = some entry) ∧
      (UTXOSet.applyTransaction crypto confirmedLarge largePayment 11).ok = false := by
  have hknown : ∀ txin ∈ largePayment.inputs.toList, ∃ entry,
      confirmedLarge.lookup txin.prevout = some entry := by
    simp only [← Option.isSome_iff_exists]
    decide
  obtain ⟨pool', h⟩ := exists_accepted
    (by decide +kernel :
      (addTransaction crypto (context confirmedLarge) 1 empty largePayment).map Prod.fst
        = some .accepted)
  exact ⟨pool', h, hknown, by decide +kernel⟩

end Mempool

end Cryptex
