import Cryptex.Lib.FinMap
import Cryptex.ChainParams
import Cryptex.Transaction

/-!
# The UTXO set

`utxo.cpp`: the map of unspent outputs and `apply_transaction`, with the
arithmetic of what one application does to the total value held.

Amounts are `int64_t` and wrap; the totals below are exact integers.
-/

namespace Cryptex

structure UTXOEntry where
  output : TxOut
  blockHeight : UInt32
  isCoinbase : Bool
deriving DecidableEq

namespace UTXOEntry

def serialize (e : UTXOEntry) : Bytes :=
  e.output.serialize ++ writeU32 e.blockHeight ++ [if e.isCoinbase then 1 else 0]

def deserialize : Codec.Decoder UTXOEntry UInt8 := fun data =>
  match TxOut.deserialize data with
  | none => none
  | some (output, rest) =>
      match readU32 rest with
      | none => none
      | some (_, []) => none
      | some (blockHeight, flags :: rest) => some (⟨output, blockHeight, flags ≠ 0⟩, rest)

theorem roundTrip : Codec.RoundTrip serialize deserialize := fun e rest => by
  obtain ⟨output, blockHeight, isCoinbase⟩ := e
  simp only [serialize, deserialize, List.append_assoc, TxOut.roundTrip _ _, roundTrip_u32 _ _,
    List.cons_append, List.nil_append]
  cases isCoinbase <;> rfl

end UTXOEntry

abbrev UTXOSet := FinMap OutPoint UTXOEntry

namespace UTXOSet

/-! ## Applying a transaction -/

/-- What `apply_transaction` returns: its result, the fee it reports and the
map it leaves. -/
structure ApplyResult where
  ok : Bool
  fee : Int64
  map : UTXOSet

section

variable (c : Crypto)

/-- The checks on one input: the output exists, the script holds a key that
owns it and signs for it, and a coinbase output has matured. Yields the value
of the output. -/
def checkInput (map : UTXOSet) (tx : Transaction) (blockHeight : UInt32) (idx : Nat)
    (txin : TxIn) : Option Int64 :=
  match map.lookup txin.prevout with
  | none => none
  | some entry =>
      let sig := txin.scriptSig.toList
      if sig.length < 65 then none
      else
        let sigLen := sig.length - 65
        let signature := sig.take sigLen
        let pubkey := sig.drop sigLen
        if !c.addressesEqual (c.pubkeyToAddress pubkey) entry.output.scriptPubKey.toList then none
        else if !c.verifySignature (tx.sighash c idx entry.output.scriptPubKey) signature pubkey then
          none
        else if entry.isCoinbase && blockHeight - entry.blockHeight < Constants.coinbaseMaturity then
          none
        else some entry.output.value

/-- The input loop: all checks, with the running `int64_t` sum. -/
def checkInputs (map : UTXOSet) (tx : Transaction) (blockHeight : UInt32) :
    Nat → List TxIn → Int64 → Option Int64
  | _, [], inputSum => some inputSum
  | idx, txin :: rest, inputSum =>
      match checkInput c map tx blockHeight idx txin with
      | none => none
      | some value => checkInputs map tx blockHeight (idx + 1) rest (inputSum + value)

def eraseInputs (map : UTXOSet) (tx : Transaction) : UTXOSet :=
  tx.inputs.toList.foldl (fun m txin => m.erase txin.prevout) map

/-- One entry per output, from output `i` on; an entry that is already there
is replaced. -/
def insertOutputs (txHash : Hash256) (blockHeight : UInt32) (isCoinbase : Bool) :
    Nat → List TxOut → UTXOSet → UTXOSet
  | _, [], map => map
  | i, out :: rest, map =>
      insertOutputs txHash blockHeight isCoinbase (i + 1) rest
        (map.insert ⟨txHash, UInt32.ofNat i⟩ ⟨out, blockHeight, isCoinbase⟩)

def addOutputs (map : UTXOSet) (tx : Transaction) (blockHeight : UInt32) : UTXOSet :=
  insertOutputs (tx.hash c) blockHeight tx.isCoinbase 0 tx.outputs.toList map

/-- `apply_transaction`. When the inputs are worth less than the outputs they
have already been removed from the map. -/
def applyTransaction (map : UTXOSet) (tx : Transaction) (blockHeight : UInt32) : ApplyResult :=
  if tx.isCoinbase then ⟨true, 0, addOutputs c map tx blockHeight⟩
  else
    match checkInputs c map tx blockHeight 0 tx.inputs.toList 0 with
    | none => ⟨false, 0, map⟩
    | some inputSum =>
        let spent := eraseInputs map tx
        let fee := inputSum - tx.totalOutputValue
        if inputSum < tx.totalOutputValue then ⟨false, fee, spent⟩
        else ⟨true, fee, addOutputs c spent tx blockHeight⟩

end

/-- A successful application is a coinbase that adds its outputs, or a
spend whose inputs all check out and cover the outputs. -/
theorem applyTransaction_ok {c : Crypto} {map : UTXOSet} {tx : Transaction} {height : UInt32}
    (h : (applyTransaction c map tx height).ok = true) :
    (tx.isCoinbase = true ∧ (applyTransaction c map tx height).fee = 0 ∧
      (applyTransaction c map tx height).map = addOutputs c map tx height) ∨
    (tx.isCoinbase = false ∧ ∃ inputSum,
      checkInputs c map tx height 0 tx.inputs.toList 0 = some inputSum ∧
      ¬ inputSum < tx.totalOutputValue ∧
      (applyTransaction c map tx height).fee = inputSum - tx.totalOutputValue ∧
      (applyTransaction c map tx height).map = addOutputs c (eraseInputs map tx) tx height) := by
  unfold applyTransaction at h ⊢
  by_cases hcb : tx.isCoinbase = true
  · left
    simp only [if_pos hcb]
    exact ⟨hcb, trivial, trivial⟩
  · right
    rw [if_neg hcb] at h
    refine ⟨by simpa using hcb, ?_⟩
    cases hin : checkInputs c map tx height 0 tx.inputs.toList 0 with
    | none => rw [hin] at h; cases h
    | some inputSum =>
        rw [hin] at h
        by_cases hlt : inputSum < tx.totalOutputValue
        · simp only [if_pos hlt] at h; cases h
        · refine ⟨inputSum, rfl, hlt, ?_, ?_⟩ <;> simp only [if_neg hcb, if_neg hlt]

/-! ## Values held -/

/-- The value of an entry as an exact integer. -/
def entryValue (e : UTXOEntry) : Int := e.output.value.toInt

/-- The exact sum of all values held. -/
def total (map : UTXOSet) : Int := FinMap.sumBy entryValue map

/-- No unspent output is negative. -/
def NonNeg (map : UTXOSet) : Prop := FinMap.AllValues (0 ≤ entryValue ·) map

/-- The value held at an outpoint, zero where there is none. -/
def valueAt (map : UTXOSet) (o : OutPoint) : Int := (map.lookup o).elim 0 entryValue

theorem NonNeg.valueAt_nonneg {map : UTXOSet} (h : NonNeg map) (o : OutPoint) :
    0 ≤ map.valueAt o := by
  unfold valueAt
  cases ho : map.lookup o with
  | none => exact Int.le_refl 0
  | some e => exact h o e ho

/-! ### Inputs -/

/-- An accepted input list: every input exists, and the reported sum is the
exact one reduced to 64 bits. -/
theorem checkInputs_some {c : Crypto} {map : UTXOSet} {tx : Transaction} {height : UInt32} :
    ∀ {idx : Nat} {ins : List TxIn} {acc s : Int64},
      checkInputs c map tx height idx ins acc = some s →
      (∀ txin ∈ ins, ∃ e, map.lookup txin.prevout = some e) ∧
      s.toInt = (acc.toInt + (ins.map fun txin => map.valueAt txin.prevout).sum).bmod (2 ^ 64)
  | idx, [], acc, s, h => by
      simp only [checkInputs, Option.some.injEq] at h
      subst h
      refine ⟨fun _ hmem => absurd hmem List.not_mem_nil, ?_⟩
      have hlo := acc.le_toInt
      have hhi := acc.toInt_lt
      rw [List.map_nil, List.sum_nil, Int.add_zero, Int.bmod_eq_of_le] <;> omega
  | idx, txin :: rest, acc, s, h => by
      simp only [checkInputs] at h
      cases hc : checkInput c map tx height idx txin with
      | none => rw [hc] at h; cases h
      | some value =>
          rw [hc] at h
          obtain ⟨hrest, hsum⟩ := checkInputs_some h
          obtain ⟨e, he, hvalue⟩ : ∃ e, map.lookup txin.prevout = some e ∧
              value = e.output.value := by
            unfold checkInput at hc
            cases hl : map.lookup txin.prevout with
            | none => rw [hl] at hc; cases hc
            | some e =>
                rw [hl] at hc
                refine ⟨e, rfl, ?_⟩
                simp only at hc
                split at hc
                · cases hc
                · split at hc
                  · cases hc
                  · split at hc
                    · cases hc
                    · split at hc
                      · cases hc
                      · exact (Option.some.inj hc).symm
          refine ⟨fun t ht => ?_, ?_⟩
          · rcases List.mem_cons.mp ht with rfl | ht
            · exact ⟨e, he⟩
            · exact hrest t ht
          · have hval : map.valueAt txin.prevout = value.toInt := by
              rw [valueAt, he, hvalue]; rfl
            rw [hsum, Int64.toInt_add, Int.bmod_add_bmod, List.map_cons, List.sum_cons, hval,
              Int.add_assoc]

theorem eraseInputs_lookup_ne {o : OutPoint} : ∀ (ins : List TxIn) (map : UTXOSet),
    o ∉ ins.map TxIn.prevout →
    Finmap.lookup o (ins.foldl (fun m txin => m.erase txin.prevout) map) = map.lookup o
  | [], _, _ => rfl
  | txin :: rest, map, h => by
      simp only [List.map_cons, List.mem_cons, not_or] at h
      rw [List.foldl_cons, eraseInputs_lookup_ne rest _ h.2, Finmap.lookup_erase_ne h.1]

/-- Removing distinct present inputs removes exactly what they hold. -/
theorem total_foldl_erase : ∀ (ins : List TxIn) (map : UTXOSet),
    (ins.map TxIn.prevout).Nodup → (∀ txin ∈ ins, ∃ e, map.lookup txin.prevout = some e) →
    total (ins.foldl (fun m txin => m.erase txin.prevout) map)
      = map.total - (ins.map fun txin => map.valueAt txin.prevout).sum
  | [], map, _, _ => by simp
  | txin :: rest, map, hnd, hex => by
      simp only [List.map_cons, List.nodup_cons] at hnd
      obtain ⟨e, he⟩ := hex txin (by simp)
      have hne : ∀ t ∈ rest, t.prevout ≠ txin.prevout := fun t ht heq =>
        hnd.1 (heq ▸ List.mem_map_of_mem ht)
      have hvals : (rest.map fun t => valueAt (map.erase txin.prevout) t.prevout)
          = rest.map fun t => map.valueAt t.prevout :=
        List.map_congr_left fun t ht => by
          rw [valueAt, valueAt, Finmap.lookup_erase_ne (hne t ht)]
      have hrest := total_foldl_erase rest (map.erase txin.prevout) hnd.2 fun t ht => by
        rw [Finmap.lookup_erase_ne (hne t ht)]
        exact hex t (by simp [ht])
      have herase : total (map.erase txin.prevout) = map.total - entryValue e :=
        FinMap.sumBy_erase entryValue he
      have hval : map.valueAt txin.prevout = entryValue e := by rw [valueAt, he]; rfl
      rw [List.foldl_cons, hrest, hvals, herase, List.map_cons, List.sum_cons, hval]
      omega

theorem NonNeg.foldl_erase : ∀ (ins : List TxIn) {map : UTXOSet}, NonNeg map →
    NonNeg (ins.foldl (fun m txin => m.erase txin.prevout) map)
  | [], _, h => h
  | txin :: rest, _, h => NonNeg.foldl_erase rest (FinMap.AllValues.erase h txin.prevout)

/-! ### Outputs -/

/-- The exact sum of a list of output values. -/
def outputSum (outs : List TxOut) : Int := (outs.map fun o => o.value.toInt).sum

theorem insertOutputs_nonNeg {txHash : Hash256} {height : UInt32} {cb : Bool} :
    ∀ (i : Nat) (outs : List TxOut) {map : UTXOSet}, NonNeg map →
      (∀ out ∈ outs, 0 ≤ out.value.toInt) →
      NonNeg (insertOutputs txHash height cb i outs map)
  | _, [], _, h, _ => h
  | i, out :: rest, _, h, hout => by
      rw [insertOutputs]
      exact insertOutputs_nonNeg (i + 1) rest
        (FinMap.AllValues.insert h _ (hout out (by simp)))
        (fun o ho => hout o (by simp [ho]))

/-- Adding outputs raises the total by at most their sum; an overwritten
entry lowers it. -/
theorem total_insertOutputs_le {txHash : Hash256} {height : UInt32} {cb : Bool} :
    ∀ (i : Nat) (outs : List TxOut) {map : UTXOSet}, NonNeg map →
      (∀ out ∈ outs, 0 ≤ out.value.toInt) →
      total (insertOutputs txHash height cb i outs map) ≤ map.total + outputSum outs
  | _, [], map, _, _ => by simp [insertOutputs, outputSum]
  | i, out :: rest, map, h, hout => by
      have hinsert := FinMap.sumBy_insert entryValue map ⟨txHash, UInt32.ofNat i⟩
        ⟨out, height, cb⟩
      have hold := h.valueAt_nonneg ⟨txHash, UInt32.ofNat i⟩
      have hrest : total (insertOutputs txHash height cb (i + 1) rest
          (map.insert ⟨txHash, UInt32.ofNat i⟩ ⟨out, height, cb⟩))
            ≤ total (map.insert ⟨txHash, UInt32.ofNat i⟩ ⟨out, height, cb⟩) + outputSum rest :=
        total_insertOutputs_le (i + 1) rest
          (FinMap.AllValues.insert h ⟨txHash, UInt32.ofNat i⟩ (hout out (by simp)))
          (fun o ho => hout o (by simp [ho]))
      have hentry : entryValue ⟨out, height, cb⟩ = out.value.toInt := rfl
      rw [insertOutputs]
      simp only [outputSum, List.map_cons, List.sum_cons, total, valueAt] at *
      omega

/-! ### Lookups -/

/-- The entry that a transaction makes at an outpoint, if it is one of its outputs. -/
def created (c : Crypto) (tx : Transaction) (height : UInt32) (o : OutPoint) : Option UTXOEntry :=
  if o.txHash = tx.hash c then
    (tx.outputs.toList[o.index.toNat]?).map fun out => ⟨out, height, tx.isCoinbase⟩
  else none

theorem lookup_insertOutputs {txHash : Hash256} {height : UInt32} {cb : Bool} {o : OutPoint} :
    ∀ (i : Nat) (outs : List TxOut) (map : UTXOSet), i + outs.length ≤ 2 ^ 32 →
      (insertOutputs txHash height cb i outs map).lookup o
        = (if o.txHash = txHash ∧ i ≤ o.index.toNat then
            (outs[o.index.toNat - i]?).map fun out => ⟨out, height, cb⟩ else none).or (map.lookup o)
  | i, [], map, _ => by simp [insertOutputs]
  | i, out :: rest, map, hlen => by
      rw [List.length_cons] at hlen
      have hi : (UInt32.ofNat i).toNat = i := by
        rw [UInt32.toNat_ofNat']
        omega
      rw [insertOutputs, lookup_insertOutputs (i + 1) rest _ (by omega), FinMap.lookup_insert_ite]
      by_cases ho : o = ⟨txHash, UInt32.ofNat i⟩
      · subst ho
        simp [hi]
      · rw [if_neg ho]
        by_cases hhash : o.txHash = txHash
        · have hne : o.index.toNat ≠ i := fun heq => ho (by
            obtain ⟨h, index⟩ := o
            simp only at hhash heq
            rw [hhash, ← heq, UInt32.ofNat_toNat])
          by_cases hle : i ≤ o.index.toNat
          · obtain ⟨k, hk⟩ : ∃ k, o.index.toNat = i + 1 + k := ⟨o.index.toNat - (i + 1), by omega⟩
            rw [if_pos ⟨hhash, by omega⟩, if_pos ⟨hhash, hle⟩, hk,
              show i + 1 + k - (i + 1) = k by omega, show i + 1 + k - i = k + 1 by omega,
              List.getElem?_cons_succ]
          · rw [if_neg (fun h => hle (by omega)), if_neg fun h => hle h.2]
        · rw [if_neg fun h => hhash h.1, if_neg fun h => hhash h.1]

/-- An output takes the place of what was at its outpoint. -/
theorem lookup_addOutputs {c : Crypto} {map : UTXOSet} {tx : Transaction} {height : UInt32}
    {o : OutPoint} (hlen : tx.outputs.toList.length ≤ 2 ^ 32) :
    (addOutputs c map tx height).lookup o = (created c tx height o).or (map.lookup o) := by
  rw [addOutputs, lookup_insertOutputs 0 _ _ (by omega), created]
  simp

/-! ### Totals -/

/-- The `int64_t` output total is the exact sum when that fits. -/
theorem totalOutputValue_toInt {tx : Transaction}
    (hpos : ∀ out ∈ tx.outputs.toList, 0 ≤ out.value.toInt)
    (hfit : outputSum tx.outputs.toList < 2 ^ 63) :
    tx.totalOutputValue.toInt = outputSum tx.outputs.toList := by
  have key : ∀ (outs : List TxOut) (acc : Int64), 0 ≤ acc.toInt →
      (∀ out ∈ outs, 0 ≤ out.value.toInt) → acc.toInt + outputSum outs < 2 ^ 63 →
      (outs.foldl (fun sum out => sum + out.value) acc).toInt = acc.toInt + outputSum outs := by
    intro outs
    induction outs with
    | nil => intro acc _ _ _; simp [outputSum]
    | cons out rest ih =>
        intro acc hacc hout hlt
        have hsplit : outputSum (out :: rest) = out.value.toInt + outputSum rest := by
          simp [outputSum]
        have hout0 := hout out (by simp)
        have hrest0 : 0 ≤ outputSum rest :=
          List.sum_nonneg fun x hx => by
            obtain ⟨o, ho, rfl⟩ := List.mem_map.mp hx
            exact hout o (by simp [ho])
        have hadd : (acc + out.value).toInt = acc.toInt + out.value.toInt := by
          rw [Int64.toInt_add, Int.bmod_eq_of_le] <;> omega
        rw [List.foldl_cons, ih (acc + out.value) (by omega) (fun o ho => hout o (by simp [ho]))
          (by omega), hadd, hsplit]
        omega
  have h := key tx.outputs.toList 0 (by decide) hpos (by
    rw [show (0 : Int64).toInt = 0 from rfl]; omega)
  rw [show (0 : Int64).toInt = 0 from rfl, Int.zero_add] at h
  exact h

end UTXOSet

end Cryptex
