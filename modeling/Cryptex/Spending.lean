import Cryptex.Regtest

/-!
# What an application spends and creates

`apply_transaction` removes the inputs before it compares the sums, sums
every input however often it is named, and adds up in 64 bits. Here is what
its answer says about the map it leaves: when a refusal has left it alone,
and when a success has moved exactly the values of the transaction.
-/

namespace Cryptex

namespace UTXOSet

section

variable (c : Crypto) (map : UTXOSet) (tx : Transaction) (height : UInt32)

/-- What the inputs hold, an output that is named twice counted twice. -/
def inputTotal : Int := (tx.inputs.toList.map fun txin => map.valueAt txin.prevout).sum

/-- Every input passes the checks of its round. -/
def InputsPass : Prop :=
  ∀ k txin, tx.inputs.toList[k]? = some txin → ∃ value, checkInput c map tx height k txin = some value

/-- The inputs pass, and their sum in 64 bits is below that of the outputs. -/
structure Overspends : Prop where
  spend : tx.isCoinbase = false
  named : tx.inputs.toList ≠ []
  pass : InputsPass c map tx height
  short : (inputTotal map tx).bmod (2 ^ 64) < (outputSum tx.outputs.toList).bmod (2 ^ 64)

end

variable {c : Crypto} {map : UTXOSet} {tx : Transaction} {height : UInt32}

/-! ## The sums -/

theorem checkInputs_isSome_iff : ∀ {idx : Nat} {ins : List TxIn} {acc : Int64},
    (∃ s, checkInputs c map tx height idx ins acc = some s) ↔
      ∀ k txin, ins[k]? = some txin → ∃ value, checkInput c map tx height (idx + k) txin = some value
  | idx, [], acc => by simp [checkInputs]
  | idx, txin :: rest, acc => by
      rw [checkInputs]
      constructor
      · rintro ⟨s, h⟩ k t ht
        cases hc : checkInput c map tx height idx txin with
        | none => rw [hc] at h; cases h
        | some value =>
            rw [hc] at h
            cases k with
            | zero =>
                rw [List.getElem?_cons_zero] at ht
                cases ht
                exact ⟨value, hc⟩
            | succ k =>
                rw [show idx + (k + 1) = idx + 1 + k by omega]
                exact checkInputs_isSome_iff.mp ⟨s, h⟩ k t ht
      · intro h
        obtain ⟨value, hc⟩ := h 0 txin rfl
        rw [Nat.add_zero] at hc
        rw [hc]
        refine checkInputs_isSome_iff.mpr fun k t ht => ?_
        rw [show idx + 1 + k = idx + (k + 1) by omega]
        exact h (k + 1) t ht

theorem inputsPass_iff : InputsPass c map tx height ↔
    ∃ s, checkInputs c map tx height 0 tx.inputs.toList 0 = some s := by
  rw [checkInputs_isSome_iff]
  simp only [Nat.zero_add]
  rfl

theorem checkInputs_sum {s : Int64} (h : checkInputs c map tx height 0 tx.inputs.toList 0 = some s) :
    s.toInt = (inputTotal map tx).bmod (2 ^ 64) := by
  rw [(checkInputs_some h).2, show (0 : Int64).toInt = 0 from rfl, Int.zero_add]
  rfl

theorem foldl_value_toInt : ∀ (outs : List TxOut) (acc : Int64),
    (outs.foldl (fun sum out => sum + out.value) acc).toInt = (acc.toInt + outputSum outs).bmod (2 ^ 64)
  | [], acc => by
      have hlo := acc.le_toInt
      have hhi := acc.toInt_lt
      rw [List.foldl_nil, outputSum, List.map_nil, List.sum_nil, Int.add_zero,
        Int.bmod_eq_of_le] <;> omega
  | out :: rest, acc => by
      rw [List.foldl_cons, foldl_value_toInt rest, Int64.toInt_add, Int.bmod_add_bmod, Int.add_assoc,
        outputSum, outputSum, List.map_cons, List.sum_cons]

/-- `total_output_value` is the exact sum reduced to 64 bits. -/
theorem totalOutputValue_bmod (tx : Transaction) :
    tx.totalOutputValue.toInt = (outputSum tx.outputs.toList).bmod (2 ^ 64) := by
  have h := foldl_value_toInt tx.outputs.toList 0
  rwa [show (0 : Int64).toInt = 0 from rfl, Int.zero_add] at h

/-! ## Refusals -/

/-- A refusal comes from an input, and then the map is as it was, or from the
sums, and then the inputs are gone. -/
theorem applyTransaction_refused (h : (applyTransaction c map tx height).ok = false) :
    tx.isCoinbase = false ∧
      ((¬ InputsPass c map tx height ∧ (applyTransaction c map tx height).map = map) ∨
        (InputsPass c map tx height ∧
          (inputTotal map tx).bmod (2 ^ 64) < (outputSum tx.outputs.toList).bmod (2 ^ 64) ∧
          (applyTransaction c map tx height).map = eraseInputs map tx)) := by
  unfold applyTransaction at h ⊢
  by_cases hcb : tx.isCoinbase = true
  · rw [if_pos hcb] at h
    cases h
  · rw [if_neg hcb] at h ⊢
    refine ⟨by simpa using hcb, ?_⟩
    cases hin : checkInputs c map tx height 0 tx.inputs.toList 0 with
    | none =>
        refine Or.inl ⟨fun hp => ?_, rfl⟩
        obtain ⟨s, hs⟩ := inputsPass_iff.mp hp
        rw [hin] at hs
        cases hs
    | some s =>
        rw [hin] at h
        by_cases hlt : s < tx.totalOutputValue
        · refine Or.inr ⟨inputsPass_iff.mpr ⟨s, hin⟩, ?_, ?_⟩
          · rw [← checkInputs_sum hin, ← totalOutputValue_bmod]
            exact Int64.lt_iff_toInt_lt.mp hlt
          · simp only [if_pos hlt]
        · simp only [if_neg hlt] at h
          cases h

theorem not_ok_of_overspends (h : Overspends c map tx height) :
    (applyTransaction c map tx height).ok = false := by
  obtain ⟨s, hs⟩ := inputsPass_iff.mp h.pass
  have hlt : s < tx.totalOutputValue := by
    rw [Int64.lt_iff_toInt_lt, checkInputs_sum hs, totalOutputValue_bmod]
    exact h.short
  unfold applyTransaction
  rw [if_neg (by simp [h.spend]), hs]
  simp only [if_pos hlt]

theorem eraseInputs_lookup_mem {o : OutPoint} (h : o ∈ tx.inputs.toList.map TxIn.prevout) :
    (eraseInputs map tx).lookup o = none := by
  have key : ∀ (ins : List TxIn) (m : UTXOSet), (o ∈ ins.map TxIn.prevout ∨ m.lookup o = none) →
      Finmap.lookup o (ins.foldl (fun m txin => m.erase txin.prevout) m) = none := by
    intro ins
    induction ins with
    | nil => exact fun m h => h.resolve_left List.not_mem_nil
    | cons txin rest ih =>
        intro m h
        refine ih _ ?_
        rw [FinMap.lookup_erase_ite]
        split
        · exact Or.inr rfl
        · next hne =>
            rcases h with h | h
            · rw [List.map_cons, List.mem_cons] at h
              exact Or.inl (h.resolve_left hne)
            · exact Or.inr h
  exact key _ _ (Or.inl h)

/-- A refusal of an overspending transaction has taken its inputs. -/
theorem lookup_of_overspends (h : Overspends c map tx height) {o : OutPoint}
    (ho : o ∈ tx.inputs.toList.map TxIn.prevout) :
    (∃ e, map.lookup o = some e) ∧ (applyTransaction c map tx height).map.lookup o = none := by
  obtain ⟨s, hs⟩ := inputsPass_iff.mp h.pass
  constructor
  · obtain ⟨txin, htxin, rfl⟩ := List.mem_map.mp ho
    exact (checkInputs_some hs).1 txin htxin
  · rcases (applyTransaction_refused (not_ok_of_overspends h)).2 with hno | ⟨-, -, hmap⟩
    · exact absurd h.pass hno.1
    · rw [hmap]
      exact eraseInputs_lookup_mem ho

/-- A refusal leaves the map alone, unless the transaction overspends. -/
theorem refused_map_eq_iff :
    ((applyTransaction c map tx height).ok = false → (applyTransaction c map tx height).map = map) ↔
      ¬ Overspends c map tx height := by
  constructor
  · intro h hover
    obtain ⟨txin, hmem⟩ := List.exists_mem_of_ne_nil _ hover.named
    obtain ⟨⟨e, he⟩, hnone⟩ := lookup_of_overspends hover (List.mem_map_of_mem hmem)
    rw [h (not_ok_of_overspends hover), he] at hnone
    cases hnone
  · intro hnot hfail
    obtain ⟨hcb, ⟨-, hmap⟩ | ⟨hpass, hshort, hmap⟩⟩ := applyTransaction_refused hfail
    · exact hmap
    · have hnil : tx.inputs.toList = [] := by
        by_contra hne
        exact hnot ⟨hcb, hne, hpass, hshort⟩
      rw [hmap, eraseInputs, hnil]
      rfl

/-! ## Successes -/

/-- What a success promises: the inputs are distinct and present, the map
loses them and gains one entry for each output, none of which was there and
none of which is negative, and the fee is what the total has lost. -/
structure Conserves (c : Crypto) (map : UTXOSet) (tx : Transaction) (height : UInt32)
    (r : ApplyResult) : Prop where
  distinct : (tx.inputs.toList.map TxIn.prevout).Nodup
  present : ∀ txin ∈ tx.inputs.toList, ∃ e, map.lookup txin.prevout = some e
  fresh : ∀ i < tx.outputs.toList.length,
    (eraseInputs map tx).lookup ⟨tx.hash c, UInt32.ofNat i⟩ = none
  apart : ∀ i < tx.outputs.toList.length, ∀ j < tx.outputs.toList.length,
    UInt32.ofNat i = UInt32.ofNat j → i = j
  entered : ∀ i out, tx.outputs.toList[i]? = some out →
    r.map.lookup ⟨tx.hash c, UInt32.ofNat i⟩ = some ⟨out, height, tx.isCoinbase⟩
  kept : ∀ o, (∀ i < tx.outputs.toList.length, o ≠ ⟨tx.hash c, UInt32.ofNat i⟩) →
    r.map.lookup o = if o ∈ tx.inputs.toList.map TxIn.prevout then none else map.lookup o
  outputs_nonneg : ∀ out ∈ tx.outputs.toList, 0 ≤ out.value.toInt
  fee_nonneg : 0 ≤ r.fee.toInt
  total_eq : r.map.total = map.total - r.fee.toInt

/-- What `apply_transaction` does not check: an outpoint that is named twice,
a negative output, an output whose place is taken, more outputs than indices,
and totals that differ by what 64 bits do not hold. -/
structure Balanced (c : Crypto) (map : UTXOSet) (tx : Transaction) : Prop where
  distinct : (tx.inputs.toList.map TxIn.prevout).Nodup
  outputs_nonneg : ∀ out ∈ tx.outputs.toList, 0 ≤ out.value.toInt
  free : ∀ i < tx.outputs.toList.length,
    (⟨tx.hash c, UInt32.ofNat i⟩ : OutPoint) ∈ tx.inputs.toList.map TxIn.prevout ∨
      map.lookup ⟨tx.hash c, UInt32.ofNat i⟩ = none
  indexed : tx.outputs.toList.length ≤ 2 ^ 32
  covered : outputSum tx.outputs.toList ≤ inputTotal map tx
  difference : inputTotal map tx - outputSum tx.outputs.toList < 2 ^ 63

theorem eraseInputs_lookup (map : UTXOSet) (tx : Transaction) (o : OutPoint) :
    (eraseInputs map tx).lookup o
      = if o ∈ tx.inputs.toList.map TxIn.prevout then none else map.lookup o := by
  split
  · next hmem => exact eraseInputs_lookup_mem hmem
  · next hno => exact eraseInputs_lookup_ne _ _ hno

/-- Outputs whose places are free add their sum. -/
theorem total_insertOutputs_eq {txHash : Hash256} {cb : Bool} :
    ∀ (i : Nat) (outs : List TxOut) (map : UTXOSet), i + outs.length ≤ 2 ^ 32 →
      (∀ k < outs.length, map.lookup ⟨txHash, UInt32.ofNat (i + k)⟩ = none) →
      total (insertOutputs txHash height cb i outs map) = map.total + outputSum outs
  | _, [], map, _, _ => by simp [insertOutputs, outputSum]
  | i, out :: rest, map, hlen, hfree => by
      rw [List.length_cons] at hlen
      have hhere : map.lookup ⟨txHash, UInt32.ofNat i⟩ = none := hfree 0 (by simp)
      have hinsert : total (map.insert ⟨txHash, UInt32.ofNat i⟩ ⟨out, height, cb⟩)
          = out.value.toInt + map.total :=
        FinMap.sumBy_insert_of_lookup_none entryValue _ hhere
      have hleft : ∀ k < rest.length,
          Finmap.lookup ⟨txHash, UInt32.ofNat (i + 1 + k)⟩
            (map.insert ⟨txHash, UInt32.ofNat i⟩ ⟨out, height, cb⟩) = none := by
        intro k hk
        have hne : (⟨txHash, UInt32.ofNat (i + 1 + k)⟩ : OutPoint) ≠ ⟨txHash, UInt32.ofNat i⟩ := by
          intro heq
          have hnat := congrArg (fun o : OutPoint => o.index.toNat) heq
          simp only [UInt32.toNat_ofNat'] at hnat
          omega
        rw [FinMap.lookup_insert_ite, if_neg hne, show i + 1 + k = i + (k + 1) by omega]
        exact hfree (k + 1) (by rw [List.length_cons]; omega)
      have hsum : outputSum (out :: rest) = out.value.toInt + outputSum rest := by
        rw [outputSum, outputSum, List.map_cons, List.sum_cons]
      rw [insertOutputs, total_insertOutputs_eq (i + 1) rest _ (by omega) hleft, hinsert, hsum]
      omega

/-- The indices of at most 2^32 outputs differ. -/
theorem indices_apart_iff (n : Nat) :
    (∀ i < n, ∀ j < n, UInt32.ofNat i = UInt32.ofNat j → i = j) ↔ n ≤ 2 ^ 32 := by
  constructor
  · intro h
    by_contra hn
    have := h 0 (by omega) (2 ^ 32) (by omega) (by decide)
    omega
  · intro hn i hi j hj heq
    have hnat := congrArg UInt32.toNat heq
    rw [UInt32.toNat_ofNat', UInt32.toNat_ofNat'] at hnat
    omega

/-- The reported fee is the exact difference reduced to 64 bits. -/
theorem fee_toInt (hcb : tx.isCoinbase = false)
    (hok : (applyTransaction c map tx height).ok = true) :
    (applyTransaction c map tx height).fee.toInt
      = (inputTotal map tx - outputSum tx.outputs.toList).bmod (2 ^ 64) := by
  rcases applyTransaction_ok hok with ⟨hyes, -⟩ | ⟨-, s, hs, -, hfee, -⟩
  · rw [hyes] at hcb
    cases hcb
  · rw [hfee, Int64.toInt_sub, checkInputs_sum hs, totalOutputValue_bmod, ← Int.sub_bmod]

/-- A success moves exactly the values of the transaction, if and only if the
transaction is balanced. -/
theorem conserves_iff (hcb : tx.isCoinbase = false)
    (hok : (applyTransaction c map tx height).ok = true) :
    Conserves c map tx height (applyTransaction c map tx height) ↔ Balanced c map tx := by
  have hfee := fee_toInt hcb hok
  obtain ⟨hpresent, hmap⟩ : (∀ txin ∈ tx.inputs.toList, ∃ e, map.lookup txin.prevout = some e) ∧
      (applyTransaction c map tx height).map = addOutputs c (eraseInputs map tx) tx height := by
    rcases applyTransaction_ok hok with ⟨hyes, -⟩ | ⟨-, s, hs, -, -, hmap⟩
    · rw [hyes] at hcb
      cases hcb
    · exact ⟨(checkInputs_some hs).1, hmap⟩
  have htotal : (tx.inputs.toList.map TxIn.prevout).Nodup → tx.outputs.toList.length ≤ 2 ^ 32 →
      (∀ i < tx.outputs.toList.length,
        (eraseInputs map tx).lookup ⟨tx.hash c, UInt32.ofNat i⟩ = none) →
      (applyTransaction c map tx height).map.total
        = map.total - (inputTotal map tx - outputSum tx.outputs.toList) := by
    intro hnd hlen hfree
    have herase : total (eraseInputs map tx) = map.total - inputTotal map tx :=
      total_foldl_erase _ _ hnd hpresent
    rw [hmap, addOutputs, total_insertOutputs_eq 0 _ _ (by omega)
      (fun k hk => by rw [Nat.zero_add]; exact hfree k hk), herase]
    omega
  constructor
  · intro h
    have hlen := (indices_apart_iff _).mp h.apart
    have hdiff := htotal h.distinct hlen h.fresh
    have heq := h.total_eq
    have hpos := h.fee_nonneg
    have hlt := (applyTransaction c map tx height).fee.toInt_lt
    refine ⟨h.distinct, h.outputs_nonneg, fun i hi => ?_, hlen, by omega, by omega⟩
    have hfree := h.fresh i hi
    rw [eraseInputs_lookup] at hfree
    split at hfree
    · next hmem => exact Or.inl hmem
    · exact Or.inr hfree
  · intro h
    have hfree : ∀ i < tx.outputs.toList.length,
        (eraseInputs map tx).lookup ⟨tx.hash c, UInt32.ofNat i⟩ = none := by
      intro i hi
      rw [eraseInputs_lookup]
      split
      · rfl
      · next hno => exact (h.free i hi).resolve_left hno
    have hcovered := h.covered
    have hdifference := h.difference
    rw [Int.bmod_eq_of_le (by omega) (by omega)] at hfee
    refine ⟨h.distinct, hpresent, hfree, (indices_apart_iff _).mpr h.indexed, fun i out hi => ?_,
      fun o ho => ?_, h.outputs_nonneg, by omega, ?_⟩
    · have hlt : i < 2 ^ 32 := by
        have := (List.getElem?_eq_some_iff.mp hi).1
        have := h.indexed
        omega
      rw [hmap, lookup_addOutputs h.indexed, created, if_pos rfl, UInt32.toNat_ofNat',
        Nat.mod_eq_of_lt hlt, hi]
      rfl
    · have hnone : created c tx height o = none := by
        rw [created]
        split
        · next hid =>
            rw [Option.map_eq_none_iff, List.getElem?_eq_none_iff]
            by_contra hin
            refine ho o.index.toNat (by omega) ?_
            rw [UInt32.ofNat_toNat, ← hid]
        · rfl
      rw [hmap, lookup_addOutputs h.indexed, hnone, Option.none_or, eraseInputs_lookup]
    · rw [htotal h.distinct h.indexed hfree, hfee]

end UTXOSet

/-! ## On concrete transactions -/

section

open UTXOSet Regtest

theorem conserves_payment :
    (applyTransaction crypto confirmed payment 11).ok = true ∧
      Conserves crypto confirmed payment 11 (applyTransaction crypto confirmed payment 11) := by
  have hok : (applyTransaction crypto confirmed payment 11).ok = true := by decide +kernel
  refine ⟨hok, (conserves_iff (by decide) hok).mpr ⟨by decide, by decide, ?_, by decide,
    by decide, by decide⟩⟩
  have hfree : ∀ i < 1, confirmed.lookup ⟨payment.hash crypto, UInt32.ofNat i⟩ = none := by
    decide +kernel
  exact fun i hi => Or.inr (hfree i hi)

/-- A transaction without inputs whose outputs cancel out is applied, whatever
the hash function. -/
theorem not_conserves :
    ¬ ∃ c, ∀ (map : UTXOSet) (tx : Transaction) (height : UInt32), NonNeg map →
      tx.isCoinbase = false → (applyTransaction c map tx height).ok = true →
      Conserves c map tx height (applyTransaction c map tx height) := by
  rintro ⟨c, h⟩
  have hok : (applyTransaction c ∅ grant 1).ok = true := rfl
  have hneg := (h ∅ grant 1 (FinMap.allValues_empty _) rfl hok).outputs_nonneg
    ⟨-100000, aliceAddress⟩ (by decide)
  exact absurd hneg (by decide)

end

end Cryptex
