import Cryptex.Wallet

/-!
# What `create_payment` builds

The coins and the outputs of a payment are fixed before its inputs are signed,
and a signature does not depend on the scripts of the other inputs. So the size
of the payment is known from the draft and the lengths of the signatures.
-/

namespace Cryptex

open Encoding

/-! ## Signing -/

namespace Transaction

/-- The transaction without its input scripts. -/
def blank (tx : Transaction) : Transaction :=
  { tx with inputs := tx.inputs.mapIdx fun _ txin => { txin with scriptSig := ⟨[], Vec.nil_fits⟩ } }

/-- A signature hash does not depend on the input scripts. -/
theorem sighash_blank (c : Crypto) (tx : Transaction) (i : Nat) (script : Vec UInt8) :
    tx.blank.sighash c i script = tx.sighash c i script := by
  have hcopy : tx.blank.sighashCopy i script = tx.sighashCopy i script := by
    simp only [sighashCopy, blank, Vec.mapIdx, List.mapIdx_mapIdx]
    rfl
  rw [sighash, hcopy, sighash]

/-- The transaction with a script at one input. -/
def withScript (tx : Transaction) (i : Nat) (script : Vec UInt8) : Transaction :=
  { tx with
    inputs := tx.inputs.mapIdx fun j txin =>
      if j = i then { txin with scriptSig := script } else txin }

@[simp] theorem blank_withScript (tx : Transaction) (i : Nat) (script : Vec UInt8) :
    (tx.withScript i script).blank = tx.blank := by
  have hsame : ∀ j (txin : TxIn),
      ({ (if j = i then { txin with scriptSig := script } else txin) with
        scriptSig := ⟨[], Vec.nil_fits⟩ } : TxIn) = { txin with scriptSig := ⟨[], Vec.nil_fits⟩ } := by
    intro j txin
    split <;> rfl
  simp only [blank, withScript, Vec.mapIdx, List.mapIdx_mapIdx]
  congr 2
  refine List.ext_getElem? fun j => ?_
  rw [List.getElem?_mapIdx, List.getElem?_mapIdx]
  exact congrArg (Option.map · _) (funext fun txin => hsame j txin)

theorem getElem?_withScript (tx : Transaction) (i j : Nat) (script : Vec UInt8) :
    (tx.withScript i script).inputs.toList[j]? = tx.inputs.toList[j]?.map fun txin =>
      if j = i then { txin with scriptSig := script } else txin := by
  rw [withScript]
  simp only [Vec.mapIdx, List.getElem?_mapIdx]

end Transaction

namespace Wallet

section Signing

variable (c : Crypto) (sha256 : Bytes → Hash256) (signHash : Hash256 → Bytes → Vec UInt8)

/-- What `signInputs` writes into the input `i`: a signature and a key whose
address is the one that is spent. -/
structure Signs (w : Wallet) (canonicalAddresses : List Bytes) (unsigned : Transaction) (i : Nat)
    (entry : UTXOEntry) (scriptSig : Vec UInt8) (key : Nat) : Prop where
  address : ∃ script, canonicalizeAddress sha256 entry.output.scriptPubKey.toList = some script ∧
    signingKey canonicalAddresses script = some key
  script : scriptSig.toList =
    (signHash (unsigned.sighash c i entry.output.scriptPubKey) (w.privkeys.getD key [])).toList ++
      w.pubkeys.getD key []

end Signing

variable {c : Crypto} {sha256 : Bytes → Hash256} {signHash : Hash256 → Bytes → Vec UInt8}

theorem toList_vecOf {α : Type} {l : List α} {v : Vec α} (h : vecOf l = .ok v) : v.toList = l := by
  rw [vecOf] at h
  split at h
  · cases h
    rfl
  · cases h

theorem canonical_ok {address a : Bytes} (h : canonical sha256 address = .ok a) :
    canonicalizeAddress sha256 address = some a := by
  rw [canonical] at h
  split at h
  · cases h
  · next heq =>
      cases h
      exact heq

theorem canonicalOr_ok {text : String} {address a : Bytes}
    (h : canonicalOr sha256 text address = .ok a) : canonicalizeAddress sha256 address = some a := by
  rw [canonicalOr] at h
  split at h
  · cases h
  · next heq =>
      cases h
      exact heq

/-- The loop signs one input a round and changes no other script. -/
theorem signInputs_signs {w : Wallet} {addresses : List Bytes} :
    ∀ {i : Nat} {selected : List (OutPoint × UTXOEntry)} {tx tx' : Transaction},
    signInputs c sha256 signHash w addresses i selected tx = .ok tx' →
    tx'.blank = tx.blank ∧ (∀ j < i, tx'.inputs.toList[j]? = tx.inputs.toList[j]?) ∧
      ∀ j u txin, selected[j]? = some u → tx.inputs.toList[i + j]? = some txin →
        ∃ scriptSig key, tx'.inputs.toList[i + j]? = some { txin with scriptSig := scriptSig } ∧
          Signs c sha256 signHash w addresses tx (i + j) u.2 scriptSig key
  | _, [], _, _, h => by
      cases h
      exact ⟨rfl, fun _ _ => rfl, nofun⟩
  | i, (_, entry) :: rest, tx, tx', h => by
      obtain ⟨script, hscript, h⟩ := Bridge.bind_eq_ok.mp h
      split at h
      · cases h
      · next key hkey =>
          obtain ⟨scriptSig, hsig, h⟩ := Bridge.bind_eq_ok.mp h
          have hrest : signInputs c sha256 signHash w addresses (i + 1) rest
              (tx.withScript i scriptSig) = .ok tx' := h
          obtain ⟨hblank, hbefore, hafter⟩ := signInputs_signs hrest
          rw [Transaction.blank_withScript] at hblank
          refine ⟨hblank, fun j hj => ?_, fun j u txin hu htxin => ?_⟩
          · rw [hbefore j (Nat.lt_succ_of_lt hj), Transaction.getElem?_withScript]
            simp only [if_neg (Nat.ne_of_lt hj), Option.map_id']
          · cases j with
            | zero =>
                cases hu
                refine ⟨scriptSig, key, ?_, ⟨script, canonical_ok hscript, hkey⟩,
                  toList_vecOf hsig⟩
                rw [hbefore (i + 0) (Nat.lt_succ_self i), Transaction.getElem?_withScript, htxin,
                  Option.map_some, if_pos (Nat.add_zero i)]
            | succ j =>
                have hindex : i + 1 + j = i + (j + 1) := by omega
                have htxin' : (tx.withScript i scriptSig).inputs.toList[i + 1 + j]? = some txin := by
                  rw [Transaction.getElem?_withScript, hindex, htxin, Option.map_some,
                    if_neg (by omega)]
                obtain ⟨scriptSig', key', hout, haddress, hsigned⟩ := hafter j u txin hu htxin'
                rw [hindex] at hout hsigned
                refine ⟨scriptSig', key', hout, haddress, ?_⟩
                rw [hsigned, ← Transaction.sighash_blank, Transaction.blank_withScript,
                  Transaction.sighash_blank]

theorem signInputs_outputs {w : Wallet} {addresses : List Bytes} {i : Nat}
    {selected : List (OutPoint × UTXOEntry)} {tx tx' : Transaction}
    (h : signInputs c sha256 signHash w addresses i selected tx = .ok tx') :
    tx'.outputs = tx.outputs := by
  have hblank := congrArg Transaction.outputs (signInputs_signs h).1
  exact hblank

/-! ## The draft -/

/-- A payment before it is signed. -/
structure Draft where
  selected : List (OutPoint × UTXOEntry)
  unsigned : Transaction

section

variable (c sha256 signHash)

/-- `create_payment` without the signing loop. -/
def draft (w : Wallet) (view : ChainView) (p : Payment) : Except WalletError Draft := do
  require view.approved "wallet is locked until chain sync is approved"
  require (p.amountSats > 0) "amount must be positive"
  let canonicalTo ← canonicalOr sha256 "invalid destination address format" p.toAddress
  let selected ← coins view p canonicalTo
  let total := sumValues selected
  require (total ≥ p.amountSats) "insufficient funds"
  let outTo : TxOut := { value := p.amountSats, scriptPubKey := ← vecOf canonicalTo }
  let fee := feeFor p.feePerKb (estimateSize selected.length [outTo])
  let change := total - p.amountSats - fee
  require (change ≥ 0) "insufficient for fee"
  let changeOut ← changeOutputs sha256 w view canonicalTo p.changeAddress change
  let opret ← opReturnOutputs c signHash w p.opReturnMsg
  let inputs ← vecOf (selected.map fun u =>
    { prevout := u.1, scriptSig := ⟨[], Vec.nil_fits⟩, sequence := 0xFFFFFFFF })
  let outputs ← vecOf (outTo :: (changeOut ++ opret))
  return ⟨selected, { version := 1, inputs := inputs, outputs := outputs, lockTime := 0 }⟩

end

/-- A payment is a draft with its inputs signed. -/
theorem createPayment_ok_iff {w : Wallet} {view : ChainView} {p : Payment} {tx : Transaction} :
    createPayment c sha256 signHash w view p = .ok tx ↔
      ∃ d addresses, draft c sha256 signHash w view p = .ok d ∧
        w.addresses.mapM (canonical sha256) = .ok addresses ∧
        signInputs c sha256 signHash w addresses 0 d.selected d.unsigned = .ok tx := by
  simp only [createPayment, draft, Bridge.bind_eq_ok]
  constructor
  · rintro ⟨_, h₁, _, h₂, canonicalTo, h₃, selected, h₄, _, h₅, script, h₆, _, h₇, change, h₈,
      opret, h₉, addresses, h₁₀, inputs, h₁₁, outputs, h₁₂, hsign⟩
    exact ⟨_, addresses, ⟨_, h₁, _, h₂, canonicalTo, h₃, selected, h₄, _, h₅, script, h₆, _, h₇,
      change, h₈, opret, h₉, inputs, h₁₁, outputs, h₁₂, rfl⟩, h₁₀, hsign⟩
  · rintro ⟨d, addresses, ⟨_, h₁, _, h₂, canonicalTo, h₃, selected, h₄, _, h₅, script, h₆, _, h₇,
      change, h₈, opret, h₉, inputs, h₁₁, outputs, h₁₂, hd⟩, h₁₀, hsign⟩
    cases hd
    exact ⟨_, h₁, _, h₂, canonicalTo, h₃, selected, h₄, _, h₅, script, h₆, _, h₇, change, h₈,
      opret, h₉, addresses, h₁₀, inputs, h₁₁, outputs, h₁₂, hsign⟩

/-- The size that the wallet reckons with, for a number of inputs: an address
has 28 bytes. -/
def quotedSize (inputs : Nat) : Nat := 47 + 151 * inputs

/-- What the draft has left, with the fee of the quoted size. -/
def Draft.change (d : Draft) (p : Payment) : Int64 :=
  sumValues d.selected - p.amountSats - feeFor p.feePerKb (quotedSize d.selected.length)

/-- A script that pays to an address. -/
def AddressScript (script : Vec UInt8) : Prop := ∃ q : Payload, script.toList = base64Encode q.bytes

theorem AddressScript.length_eq {script : Vec UInt8} (h : AddressScript script) :
    script.toList.length = 28 := by
  obtain ⟨q, hq⟩ := h
  rw [hq, length_base64Encode, q.length_eq]
  rfl

theorem addressScript_of_canonical {address a : Bytes} {script : Vec UInt8}
    (ha : canonicalizeAddress sha256 address = some a) (hscript : vecOf a = .ok script) :
    AddressScript script := by
  obtain ⟨q, hq⟩ := canonicalizeAddress_some sha256 ha
  exact ⟨q, (toList_vecOf hscript).trans hq⟩

theorem canonical_firstUnused {active : Bytes → Bool} {exclude script : Bytes} :
    ∀ {candidates : List Bytes},
    firstUnusedWalletAddress sha256 active exclude candidates = .ok (some script) →
    ∃ address, canonicalizeAddress sha256 address = some script
  | [], h => by cases h
  | candidate :: rest, h => by
      obtain ⟨a, ha, h⟩ := Bridge.bind_eq_ok.mp h
      split at h
      · exact canonical_firstUnused h
      · split at h
        · cases h
          exact ⟨candidate, canonical_ok ha⟩
        · exact canonical_firstUnused h

/-- The change goes to an address. -/
theorem canonical_changeScript {w : Wallet} {view : ChainView} {canonicalTo script : Bytes} :
    ∀ {changeAddress : Option Bytes},
    changeScript sha256 w view canonicalTo changeAddress = .ok script →
    ∃ address, canonicalizeAddress sha256 address = some script
  | some (b :: given), h => ⟨_, canonicalOr_ok h⟩
  | some [], h | none, h => by
      obtain ⟨exclude, -, h⟩ := Bridge.bind_eq_ok.mp h
      obtain ⟨unused, hunused, h⟩ := Bridge.bind_eq_ok.mp h
      cases unused with
      | some privacyChange =>
          cases h
          exact canonical_firstUnused hunused
      | none => exact ⟨_, canonical_ok h⟩

theorem mem_selectCoins {amountSats feePerKb : Int64} {toSize : Nat} {u : OutPoint × UTXOEntry} :
    ∀ {unspent selected : List (OutPoint × UTXOEntry)},
    u ∈ selectCoins amountSats feePerKb toSize unspent selected → u ∈ selected ∨ u ∈ unspent
  | [], _, h => .inl h
  | v :: rest, selected, h => by
      rw [selectCoins] at h
      have happend : u ∈ selected ++ [v] → u ∈ selected ∨ u ∈ v :: rest := by
        intro hu
        rcases List.mem_append.mp hu with hu | hu
        · exact .inl hu
        · exact .inr (List.mem_singleton.mp hu ▸ List.mem_cons_self)
      split at h
      · exact happend h
      · rcases mem_selectCoins h with hu | hu
        · exact happend hu
        · exact .inr (List.mem_cons_of_mem _ hu)

theorem mem_chosenCoins {view : ChainView} {u : OutPoint × UTXOEntry} :
    ∀ {chosen : List OutPoint} {selected : List (OutPoint × UTXOEntry)},
    chosenCoins view chosen = .ok selected → u ∈ selected → u ∈ view.unspent
  | [], _, h, hu => by
      cases h
      cases hu
  | outpoint :: rest, selected, h, hu => by
      rw [chosenCoins] at h
      split at h
      · cases h
      · next v hv =>
          cases hrest : chosenCoins view rest with
          | error e =>
              rw [hrest] at h
              cases h
          | ok more =>
              rw [hrest] at h
              cases h
              rcases List.mem_cons.mp hu with rfl | hu
              · exact List.mem_of_find?_eq_some hv
              · exact mem_chosenCoins hrest hu

/-- A payment spends coins of the wallet. -/
theorem mem_coins {view : ChainView} {p : Payment} {canonicalTo : Bytes}
    {selected : List (OutPoint × UTXOEntry)} (h : coins view p canonicalTo = .ok selected)
    {u : OutPoint × UTXOEntry} (hu : u ∈ selected) : u ∈ view.unspent := by
  rw [coins] at h
  split at h
  · exact mem_chosenCoins h hu
  · cases h
    rcases mem_selectCoins hu with hu | hu
    · cases hu
    · exact hu

theorem require_ok {b : Bool} {text : String} (h : require b text = .ok ()) : b = true := by
  rw [require] at h
  split at h
  · assumption
  · cases h

theorem require_true {b : Bool} {text : String} (h : b = true) : require b text = .ok () := by
  rw [h]
  rfl

/-- What a draft is made of: coins of the wallet that cover the amount and the
fee, the amount, the change and the signed message. -/
structure Drafted (c : Crypto) (signHash : Hash256 → Bytes → Vec UInt8) (w : Wallet)
    (view : ChainView) (p : Payment) (d : Draft) : Prop where
  approved : view.approved = true
  positive : 0 < p.amountSats
  available : ∀ u ∈ d.selected, u ∈ view.unspent
  enough : p.amountSats ≤ sumValues d.selected
  change_nonneg : 0 ≤ d.change p
  inputs : d.unsigned.inputs.toList =
    d.selected.map fun u => ⟨u.1, ⟨[], Vec.nil_fits⟩, 0xFFFFFFFF⟩
  outputs : ∃ toScript changeScript memo : Vec UInt8,
    AddressScript toScript ∧ AddressScript changeScript ∧
    (p.opReturnMsg ≠ [] → memo.toList = Mempool.opReturnPrefix ++
      base64Encode (signHash (c.hash256 p.opReturnMsg) w.privkey).toList) ∧
    d.unsigned.outputs.toList = ⟨p.amountSats, toScript⟩ ::
      ((if Constants.dustLimitSats ≤ d.change p then [⟨d.change p, changeScript⟩] else []) ++
        if p.opReturnMsg = [] then [] else [⟨0, memo⟩])

theorem drafted {w : Wallet} {view : ChainView} {p : Payment} {d : Draft}
    (h : draft c sha256 signHash w view p = .ok d) : Drafted c signHash w view p d := by
  obtain ⟨_, happroved, h⟩ := Bridge.bind_eq_ok.mp h
  obtain ⟨_, hpositive, h⟩ := Bridge.bind_eq_ok.mp h
  obtain ⟨canonicalTo, hto, h⟩ := Bridge.bind_eq_ok.mp h
  obtain ⟨selected, hselected, h⟩ := Bridge.bind_eq_ok.mp h
  obtain ⟨_, henough, h⟩ := Bridge.bind_eq_ok.mp h
  obtain ⟨toScript, htoScript, h⟩ := Bridge.bind_eq_ok.mp h
  obtain ⟨_, hnonneg, h⟩ := Bridge.bind_eq_ok.mp h
  obtain ⟨changeOut, hchange, h⟩ := Bridge.bind_eq_ok.mp h
  obtain ⟨opret, hopret, h⟩ := Bridge.bind_eq_ok.mp h
  obtain ⟨inputs, hinputs, h⟩ := Bridge.bind_eq_ok.mp h
  obtain ⟨outputs, houtputs, h⟩ := Bridge.bind_eq_ok.mp h
  cases h
  have haddress := addressScript_of_canonical (canonicalOr_ok hto) htoScript
  have hquoted : estimateSize selected.length [⟨p.amountSats, toScript⟩] =
      quotedSize selected.length := by
    rw [estimateSize, List.map_singleton, haddress.length_eq, quotedSize, List.sum_singleton]
    omega
  rw [hquoted] at hchange
  have hleft := of_decide_eq_true (require_ok hnonneg)
  rw [hquoted] at hleft
  refine ⟨require_ok happroved, of_decide_eq_true (require_ok hpositive),
    fun u hu => mem_coins hselected hu, of_decide_eq_true (require_ok henough),
    hleft, toList_vecOf hinputs, ?_⟩
  have hchanged : ∃ script, AddressScript script ∧ changeOut =
      if Constants.dustLimitSats ≤ (Draft.change ⟨selected, ⟨1, inputs, outputs, 0⟩⟩ p) then
        [⟨Draft.change ⟨selected, ⟨1, inputs, outputs, 0⟩⟩ p, script⟩] else [] := by
    rw [changeOutputs] at hchange
    split at hchange
    · next hdust =>
        obtain ⟨script, hscript, hchange⟩ := Bridge.bind_eq_ok.mp hchange
        obtain ⟨v, hv, hchange⟩ := Bridge.bind_eq_ok.mp hchange
        obtain ⟨address, hcanonical⟩ := canonical_changeScript hscript
        cases hchange
        exact ⟨v, addressScript_of_canonical hcanonical hv, (if_pos hdust).symm⟩
    · next hdust =>
        cases hchange
        exact ⟨toScript, haddress, (if_neg hdust).symm⟩
  have hmemo : ∃ memo : Vec UInt8, (p.opReturnMsg ≠ [] → memo.toList = Mempool.opReturnPrefix ++
      base64Encode (signHash (c.hash256 p.opReturnMsg) w.privkey).toList) ∧
      opret = if p.opReturnMsg = [] then [] else [⟨0, memo⟩] := by
    rw [opReturnOutputs] at hopret
    split at hopret
    · next hnil =>
        cases hopret
        exact ⟨toScript, fun hne => absurd hnil hne, (if_pos hnil).symm⟩
    · next hne =>
        obtain ⟨v, hv, hopret⟩ := Bridge.bind_eq_ok.mp hopret
        cases hopret
        exact ⟨v, fun _ => toList_vecOf hv, (if_neg hne).symm⟩
  obtain ⟨script, hscript, hchangeOut⟩ := hchanged
  obtain ⟨memo, hmemo, hopretOut⟩ := hmemo
  refine ⟨toScript, script, memo, haddress, hscript, hmemo, ?_⟩
  rw [← hchangeOut, ← hopretOut]
  exact toList_vecOf houtputs

end Wallet

end Cryptex
