import Cryptex.ChainstateFile
import Cryptex.MempoolReport
import Cryptex.PaymentDraft
import Cryptex.WalletKeys

/-!
# Payments of the wallet in the mempool

When `add_transaction` takes what `create_payment` returns. The wallet reckons
with a size before it signs, without the change and the message; the mempool
counts the kilobytes of the signed payment, and limits the inputs.
-/

namespace Cryptex

open Encoding

theorem Transaction.isCoinbase_iff {tx : Transaction} : tx.isCoinbase = true ↔
    tx.inputs.toList.map TxIn.prevout = [⟨0, 0xFFFFFFFF⟩] := by
  rw [isCoinbase]
  split
  · next txin hins =>
      rw [hins, List.map_singleton, List.cons.injEq, Bool.and_eq_true, decide_eq_true_eq,
        decide_eq_true_eq]
      constructor
      · rintro ⟨hhash, hindex⟩
        exact ⟨by rw [← hhash, ← hindex], rfl⟩
      · rintro ⟨hnull, -⟩
        rw [hnull]
        exact ⟨rfl, rfl⟩
  · next hother =>
      refine iff_of_false Bool.false_ne_true fun hnull => ?_
      obtain ⟨txin, hins, -⟩ := List.map_eq_singleton_iff.mp hnull
      exact hother txin hins

namespace Mempool

variable {c : Crypto} {ctx : Context} {tx : Transaction}

/-! ## A single transaction -/

/-- `is_standard_address`. -/
def isStandardAddress (sha256 : Bytes → Hash256) (scriptPubKey : Bytes) : Bool :=
  match (canonicalizeAddress sha256 scriptPubKey).bind base64Decode with
  | none => false
  | some decoded => decoded.length = addressHashLength

theorem isStandardAddress_base64 (sha256 : Bytes → Hash256) (q : Payload) :
    isStandardAddress sha256 (base64Encode q.bytes) = true := by
  rw [isStandardAddress, canonicalizeAddress_base64, Option.bind_some, base64Decode_base64Encode]
  exact decide_eq_true q.length_eq

theorem digit_ne_underscore : ∀ i < 64, encodeDigit i ≠ 95 := by decide

/-- No address begins with `OP_RETURN:`. -/
theorem isOpReturnScript_base64 (data : Bytes) : isOpReturnScript (base64Encode data) = false := by
  rw [Bool.eq_false_iff]
  intro hprefix
  obtain ⟨rest, hrest⟩ := List.isPrefixOf_iff_prefix.mp hprefix
  have hmem : (95 : UInt8) ∈ base64Encode data := by
    rw [← hrest]
    exact List.mem_append_left _ (by decide)
  obtain ⟨digits, padding, heq, hdigits, hpadding⟩ := digitsThenPadding_base64Encode data
  rw [heq] at hmem
  rcases List.mem_append.mp hmem with hmem | hmem
  · obtain ⟨i, hi⟩ := hdigits 95 hmem
    rw [encodeDigit_mod] at hi
    exact digit_ne_underscore _ (Nat.mod_lt _ (by omega)) hi.symm
  · rcases hpadding with rfl | rfl | rfl <;> exact absurd hmem (by decide)

/-- One entry of standard size is within the limits. -/
theorem empty_insertEntry_withinLimits {h : Hash256} {e : TxEntry}
    (hsize : e.size ≤ Constants.maxStandardTxSizeBytes) :
    (empty.insertEntry h e).overLimits = false := by
  have hkeys : (empty.insertEntry h e).txs.keys.card = [h].length := by
    refine FinMap.card_keys_eq (List.nodup_singleton h) fun k => ?_
    rw [List.mem_singleton, insertEntry, FinMap.lookup_insert_ite]
    split
    · next heq => exact ⟨fun _ => ⟨e, rfl⟩, fun _ => heq⟩
    · next hne =>
        refine ⟨fun heq => absurd heq hne, ?_⟩
        rintro ⟨v, hv⟩
        cases hv
  refine overLimits_eq_false_iff.mpr ⟨?_, ?_⟩
  · have hbytes : (empty.insertEntry h e).totalBytes = e.size := Nat.zero_add _
    rw [hbytes]
    exact hsize.trans (by decide)
  · rw [hkeys, List.length_singleton]
    decide

/-- The empty mempool accepts exactly what passes the checks. -/
theorem accepted_empty_iff {e : TxEntry} :
    (∀ fuel, ∃ pool, addTransaction c ctx (fuel + 1) empty tx = some (.accepted, pool) ∧
      pool.txs.lookup (tx.hash c) = some e) ↔ admission c ctx empty tx = .entry e := by
  have hentry : ∀ {e}, admission c ctx empty tx = .entry e → ∀ fuel,
      addTransaction c ctx (fuel + 1) empty tx =
        some (.accepted, empty.insertEntry (tx.hash c) e) := by
    intro e hadm fuel
    refine addTransaction_of_entry hadm (empty_insertEntry_withinLimits ?_) rfl fuel
    rcases admission_cases c ctx empty tx with ⟨status, hrejected, -⟩ | ⟨hok, r, -, hcase⟩
    · rw [hadm] at hrejected
      cases hrejected
    · rcases hcase with ⟨-, horphan⟩ | ⟨e', he', hadm'⟩
      · rw [hadm] at horphan
        cases horphan
      · rw [hadm] at hadm'
        cases hadm'
        have hstandard := hok.standard
        rw [violatesStandardPolicy] at hstandard
        simp only [Bool.or_eq_false_iff, decide_eq_false_iff_not, Nat.not_lt] at hstandard
        rw [he'.entry]
        exact hstandard.1.1.1.1
  constructor
  · intro h
    obtain ⟨pool, haccepted, hlookup⟩ := h 0
    rcases admission_cases c ctx empty tx with ⟨status, hrejected, hne⟩ | ⟨-, r, -, hcase⟩
    · have hone := addTransaction_accepted haccepted
      rw [addOne, hrejected] at hone
      exact absurd hone hne
    · rcases hcase with ⟨-, horphan⟩ | ⟨e', -, hadm⟩
      · have hone := addTransaction_accepted haccepted
        rw [addOne, horphan] at hone
        cases hone
      · rw [hentry hadm 0] at haccepted
        cases haccepted
        rw [insertEntry, Finmap.lookup_insert] at hlookup
        cases hlookup
        exact hadm
  · intro hadm fuel
    exact ⟨_, hentry hadm fuel, Finmap.lookup_insert _⟩

/-- Inputs that spend different coins of the UTXO set are found. -/
theorem resolveInputs_coins {pool : Mempool} : ∀ {ins : List TxIn}
    {coins : List (OutPoint × UTXOEntry)} {seen : List OutPoint} {r : Resolution},
    ins.map TxIn.prevout = coins.map Prod.fst → (coins.map Prod.fst).Nodup →
    (∀ u ∈ coins, ctx.utxo.lookup u.1 = some u.2) → (∀ u ∈ coins, u.1 ∉ seen) →
    resolveInputs ctx pool ins seen r = .ok ⟨r.entries ++ coins.map Prod.snd, r.missing,
      coins.foldl (fun total u => total + u.2.output.value) r.inputSum⟩
  | [], [], _, r, _, _, _, _ => by
      rw [resolveInputs, List.map_nil, List.append_nil, List.foldl_nil]
  | txin :: ins, u :: coins, seen, r, hprevouts, hnd, hfound, hseen => by
      rw [List.map_cons, List.map_cons, List.cons.injEq] at hprevouts
      rw [List.map_cons, List.nodup_cons] at hnd
      rw [resolveInputs, hprevouts.1, if_neg (hseen u List.mem_cons_self),
        hfound u List.mem_cons_self]
      simp only
      rw [resolveInputs_coins hprevouts.2 hnd.2 fun v hv => hfound v (List.mem_cons_of_mem _ hv)]
      · rw [List.append_assoc, List.map_cons, List.foldl_cons]
        rfl
      · intro v hv hmem
        rcases List.mem_cons.mp hmem with heq | hmem
        · exact hnd.1 (heq ▸ List.mem_map_of_mem hv)
        · exact hseen v (List.mem_cons_of_mem _ hv) hmem

theorem inputsAuthorised_of {height : UInt32} : ∀ {idx : Nat} {l : List (TxIn × UTXOEntry)},
    (∀ i q, l[i]? = some q → inputAuthorised c height tx (idx + i) q.1 q.2 = true) →
    inputsAuthorised c height tx idx l = true
  | _, [], _ => rfl
  | idx, q :: l, h => by
      rw [inputsAuthorised, Bool.and_eq_true]
      refine ⟨h 0 q rfl, inputsAuthorised_of fun i q' hq' => ?_⟩
      have hnext := h (i + 1) q' hq'
      rwa [show idx + (i + 1) = idx + 1 + i by omega] at hnext

end Mempool

/-! ## Keys -/

/-- What OpenSSL and `base64.cpp` do with the keys of a wallet: a public key is
an uncompressed point, and a signature has the DER form of two numbers below
the order of the group. -/
structure KeyPrimitives (lib : KeyLib) (c : Crypto) (signHash : Hash256 → Bytes → Vec UInt8) :
    Prop where
  pubkey_length : ∀ {priv pub}, lib.derivePub priv = some pub → pub.length = 65
  signature_length : ∀ {priv pub}, lib.derivePub priv = some pub →
    ∀ h, (signHash h priv).toList.length ≤ 72
  verifies : ∀ {priv pub}, lib.derivePub priv = some pub →
    ∀ h, c.verifySignature h (signHash h priv).toList pub = true
  pubkeyToAddress : ∀ pub, lib.pubkeyToAddress pub = some (c.pubkeyToAddress pub)
  addressesEqual : c.addressesEqual = Encoding.addressesEqual lib.sha256

namespace Wallet

/-- The private key for the address that a script pays to. -/
def keyFor (sha256 : Bytes → Hash256) (w : Wallet) (scriptPubKey : Bytes) : Bytes :=
  match canonicalizeAddress sha256 scriptPubKey with
  | none => []
  | some script =>
      match signingKey w.addresses script with
      | none => []
      | some key => w.privkeys.getD key []

theorem getElem?_of_signingKey {addresses : List Bytes} {script : Bytes} {key : Nat}
    (h : signingKey addresses script = some key) : addresses[key]? = some script := by
  obtain ⟨i, hi, rfl⟩ := Option.map_eq_some_iff.mp h
  obtain ⟨hlt, hscript, -⟩ := List.findIdx?_eq_some_iff_getElem.mp hi
  rw [List.length_reverse] at hlt
  rw [List.getElem_reverse, decide_eq_true_eq] at hscript
  rw [List.getElem?_eq_getElem (by omega), hscript]

variable {lib : KeyLib} {c : Crypto} {signHash : Hash256 → Bytes → Vec UInt8} {w : HdWallet}

/-- The script of a signed input: a signature that the node takes under a key
of the right address. -/
structure Authorises (lib : KeyLib) (c : Crypto) (signHash : Hash256 → Bytes → Vec UInt8)
    (w : Wallet) (unsigned : Transaction) (i : Nat) (entry : UTXOEntry) (sig pub : Bytes) :
    Prop where
  signature : sig = (signHash (unsigned.sighash c i entry.output.scriptPubKey)
    (w.keyFor lib.sha256 entry.output.scriptPubKey.toList)).toList
  signature_length : sig.length ≤ 72
  pubkey_length : pub.length = 65
  owner : c.addressesEqual (c.pubkeyToAddress pub) entry.output.scriptPubKey.toList = true
  verifies : c.verifySignature (unsigned.sighash c i entry.output.scriptPubKey) sig pub = true

theorem Signs.authorises (hkeys : KeyPrimitives lib c signHash) (hw : w.Matched lib)
    {unsigned : Transaction} {i : Nat} {entry : UTXOEntry} {scriptSig : Vec UInt8} {key : Nat}
    (h : Signs c lib.sha256 signHash w.toWallet w.addresses unsigned i entry scriptSig key) :
    ∃ sig pub, scriptSig.toList = sig ++ pub ∧
      Authorises lib c signHash w.toWallet unsigned i entry sig pub := by
  obtain ⟨script, hcanonical, hkey⟩ := h.address
  have haddress := getElem?_of_signingKey hkey
  rw [← hw.addresses, List.getElem?_map, Option.map_eq_some_iff] at haddress
  obtain ⟨pub, hpub, rfl⟩ := haddress
  have hpriv := congrArg (·[key]?) hw.pubkeys
  simp only [List.getElem?_map, hpub, Option.map_some] at hpriv
  obtain ⟨priv, hpriv, hderive⟩ := Option.map_eq_some_iff.mp hpriv
  have hprivD : w.privkeys.getD key [] = priv := by
    rw [List.getD_eq_getElem?_getD, hpriv, Option.getD_some]
  have hpubD : w.pubkeys.getD key [] = pub := by
    rw [List.getD_eq_getElem?_getD, hpub, Option.getD_some]
  have hscript := h.script
  rw [hprivD, hpubD] at hscript
  refine ⟨_, pub, hscript, ?_, hkeys.signature_length hderive _, hkeys.pubkey_length hderive, ?_,
    hkeys.verifies hderive _⟩
  · rw [keyFor, hcanonical]
    simp only [hkey, hprivD]
  · have hbase58 : canonicalizeAddress lib.sha256 (c.pubkeyToAddress pub) =
        some (lib.keyAddress pub) := by
      have hderived := hkeys.pubkeyToAddress pub
      rw [KeyLib.pubkeyToAddress_eq, Option.some_inj] at hderived
      rw [← hderived, canonicalizeAddress_encode]
      rfl
    rw [hkeys.addressesEqual, Encoding.addressesEqual, hbase58, hcanonical]
    exact decide_eq_true rfl

/-! ## The signed payment -/

/-- What the wallet asks of a chain; `address_has_chain_activity` may answer
anything. -/
def chainView (lib : KeyLib) (w : HdWallet) (chain : ChainReader) (active : Bytes → Bool) :
    ChainView where
  approved := chain.approved
  unspent := w.listUnspent lib chain
  active := active

/-- The coins of a wallet are in the UTXO set, and mature. -/
theorem mem_listUnspent {chain : ChainReader} {u : OutPoint × UTXOEntry}
    (h : u ∈ w.listUnspent lib chain) : w.addresses ≠ [] ∧ chain.utxo.lookup u.1 = some u.2 ∧
      (u.2.isCoinbase = true →
        HdWallet.coinbaseIsMatureForSpend chain.bestHeight.toUInt32 u.2.blockHeight = true) := by
  rw [HdWallet.listUnspent] at h
  split at h
  · obtain ⟨a, ha, hu⟩ := List.mem_flatMap.mp h
    obtain ⟨hvisit, hpasses⟩ := List.mem_filter.mp hu
    refine ⟨List.ne_nil_of_mem ha, (chain.order.mem_visit _ _ _).mp hvisit, fun hcb => ?_⟩
    rw [hcb, Bool.and_eq_true] at hpasses
    exact hpasses.2
  · cases h

theorem canonicalAddresses_eq (hw : w.Matched lib) {addresses : List Bytes}
    (h : w.addresses.mapM (canonical lib.sha256) = .ok addresses) : addresses = w.addresses := by
  have hsame : ∀ {given canonicals : List Bytes}, (∀ a ∈ given, a ∈ w.addresses) →
      List.Forall₂ (fun a b => canonical lib.sha256 a = .ok b) given canonicals →
      canonicals = given := by
    intro given canonicals hgiven hall
    induction hall with
    | nil => rfl
    | @cons a b as bs hab _ ih =>
        obtain ⟨pub, rfl⟩ := hw.exists_pub (hgiven a List.mem_cons_self)
        have hcanonical := canonical_ok hab
        rw [KeyLib.keyAddress, canonicalizeAddress_base64, Option.some_inj] at hcanonical
        rw [← hcanonical, ih fun a ha => hgiven a (List.mem_cons_of_mem _ ha)]
        rfl
  exact hsame (fun _ ha => ha) (Bridge.mapM_ok h)

/-- A signed draft: every input spends its coin, and its script is
authorised. -/
structure SignedBy (lib : KeyLib) (c : Crypto) (signHash : Hash256 → Bytes → Vec UInt8)
    (w : Wallet) (d : Draft) (tx : Transaction) : Prop where
  blank : tx.blank = d.unsigned.blank
  length_eq : tx.inputs.toList.length = d.selected.length
  input : ∀ i u, d.selected[i]? = some u → ∃ txin sig pub, tx.inputs.toList[i]? = some txin ∧
    txin.prevout = u.1 ∧ txin.scriptSig.toList = sig ++ pub ∧
      Authorises lib c signHash w d.unsigned i u.2 sig pub

theorem signedBy (hkeys : KeyPrimitives lib c signHash) (hw : w.Matched lib) {view : ChainView}
    {p : Payment} {tx : Transaction}
    (h : createPayment c lib.sha256 signHash w.toWallet view p = .ok tx) :
    ∃ d, draft c lib.sha256 signHash w.toWallet view p = .ok d ∧
      SignedBy lib c signHash w.toWallet d tx := by
  obtain ⟨d, addresses, hdraft, haddresses, hsign⟩ := createPayment_ok_iff.mp h
  rw [canonicalAddresses_eq hw haddresses] at hsign
  obtain ⟨hblank, -, hsigned⟩ := signInputs_signs hsign
  have hinputs := (drafted hdraft).inputs
  refine ⟨d, hdraft, hblank, ?_, fun i u hu => ?_⟩
  · have hlen := congrArg (fun t : Transaction => t.inputs.toList.length) hblank
    simp only [Transaction.blank, Vec.mapIdx, List.length_mapIdx, hinputs, List.length_map] at hlen
    exact hlen
  · have htxin : d.unsigned.inputs.toList[0 + i]? =
        some ⟨u.1, ⟨[], by decide⟩, 0xFFFFFFFF⟩ := by
      rw [Nat.zero_add, hinputs, List.getElem?_map, hu]
      rfl
    obtain ⟨scriptSig, key, hout, hsigns⟩ := hsigned i u _ hu htxin
    rw [Nat.zero_add] at hout hsigns
    obtain ⟨sig, pub, hscript, hauth⟩ := hsigns.authorises hkeys hw
    exact ⟨_, sig, pub, hout, rfl, hscript, hauth⟩

namespace SignedBy

variable {d : Draft} {tx : Transaction}

theorem outputs (h : SignedBy lib c signHash w.toWallet d tx) :
    tx.outputs = d.unsigned.outputs := by
  have hblank := congrArg Transaction.outputs h.blank
  exact hblank

theorem sighash (h : SignedBy lib c signHash w.toWallet d tx) (i : Nat) (script : Vec UInt8) :
    tx.sighash c i script = d.unsigned.sighash c i script := by
  rw [← Transaction.sighash_blank, h.blank, Transaction.sighash_blank]

theorem prevouts (h : SignedBy lib c signHash w.toWallet d tx) :
    tx.inputs.toList.map TxIn.prevout = d.selected.map Prod.fst := by
  refine List.ext_getElem? fun i => ?_
  rw [List.getElem?_map, List.getElem?_map]
  cases hu : d.selected[i]? with
  | some u =>
      obtain ⟨txin, -, -, htxin, hprevout, -⟩ := h.input i u hu
      rw [htxin, Option.map_some, Option.map_some, hprevout]
  | none =>
      have hnone : tx.inputs.toList[i]? = none := by
        rw [List.getElem?_eq_none_iff] at hu ⊢
        rwa [h.length_eq]
      rw [hnone]
      rfl

end SignedBy

/-! ## Sizes -/

/-- The lengths of the signatures. -/
def signatureLengths (lib : KeyLib) (c : Crypto) (signHash : Hash256 → Bytes → Vec UInt8)
    (w : Wallet) (d : Draft) : List Nat :=
  d.selected.mapIdx fun i u =>
    (signHash (d.unsigned.sighash c i u.2.output.scriptPubKey)
      (w.keyFor lib.sha256 u.2.output.scriptPubKey.toList)).toList.length

theorem sum_mapIdx_add {α : Type} (k : Nat) : ∀ (l : List α) (f : Nat → α → Nat),
    (l.mapIdx fun i a => k + f i a).sum = k * l.length + (l.mapIdx f).sum
  | [], _ => rfl
  | a :: l, f => by
      rw [List.mapIdx_cons, List.mapIdx_cons, List.sum_cons, List.sum_cons,
        sum_mapIdx_add k l fun i => f (i + 1), List.length_cons]
      ring

/-- The size of a signed payment with few inputs and short scripts. -/
theorem SignedBy.length_serialize {d : Draft} {tx : Transaction}
    (h : SignedBy lib c signHash w.toWallet d tx)
    (hcount : d.selected.length ≤ Constants.maxStandardTxInputs)
    (houtputs : d.unsigned.outputs.toList.length < 253)
    (hscripts : ∀ out ∈ d.unsigned.outputs.toList, out.scriptPubKey.toList.length < 253) :
    tx.serialize.length = 10 + 106 * d.selected.length +
      (signatureLengths lib c signHash w.toWallet d).sum +
        (d.unsigned.outputs.toList.map fun out => 9 + out.scriptPubKey.toList.length).sum := by
  have hvec : ∀ v : Vec UInt8, v.toList.length < 253 → (writeVec v).length = 1 + v.toList.length := by
    intro v hv
    rw [writeVec, writeBytes, List.length_append, length_writeVarint, if_pos hv]
  have hins : (tx.inputs.toList.map fun txin => 40 + (writeVec txin.scriptSig).length) =
      d.selected.mapIdx fun i u => 106 +
        (signHash (d.unsigned.sighash c i u.2.output.scriptPubKey)
          (w.toWallet.keyFor lib.sha256 u.2.output.scriptPubKey.toList)).toList.length := by
    refine List.ext_getElem? fun i => ?_
    rw [List.getElem?_map, List.getElem?_mapIdx]
    cases hu : d.selected[i]? with
    | some u =>
        obtain ⟨txin, sig, pub, htxin, -, hscript, hauth⟩ := h.input i u hu
        have hlen : txin.scriptSig.toList.length = sig.length + 65 := by
          rw [hscript, List.length_append, hauth.pubkey_length]
        have hsmall := hauth.signature_length
        rw [htxin, Option.map_some, Option.map_some, hvec _ (by omega), hlen, ← hauth.signature]
        congr 1
        omega
    | none =>
        have hnone : tx.inputs.toList[i]? = none := by
          rw [List.getElem?_eq_none_iff] at hu ⊢
          rwa [h.length_eq]
        rw [hnone]
        rfl
  have houts : (tx.outputs.toList.map fun out => 8 + (writeVec out.scriptPubKey).length) =
      d.unsigned.outputs.toList.map fun out => 9 + out.scriptPubKey.toList.length := by
    rw [h.outputs]
    refine List.map_congr_left fun out hout => ?_
    rw [hvec _ (hscripts out hout)]
    omega
  have hinCount : tx.inputs.toList.length < 253 := by
    rw [h.length_eq]
    exact Nat.lt_of_le_of_lt hcount (by decide)
  have houtCount : tx.outputs.toList.length < 253 := by
    rw [h.outputs]
    exact houtputs
  rw [Transaction.length_serialize, hins, houts, sum_mapIdx_add, length_writeVarint,
    if_pos hinCount, length_writeVarint, if_pos houtCount, signatureLengths]
  omega

/-! ## Outputs -/

section Outputs

variable {view : ChainView} {p : Payment} {d : Draft}

/-- The fee of a draft beyond the quoted one: change that would be dust. -/
def Draft.absorbed (d : Draft) (p : Payment) : Int64 :=
  if Constants.dustLimitSats ≤ d.change p then 0 else d.change p

/-- What the outputs of a draft are worth. -/
def Draft.paid (d : Draft) (p : Payment) : Int64 :=
  if Constants.dustLimitSats ≤ d.change p then p.amountSats + d.change p else p.amountSats

theorem Drafted.totalOutputValue (h : Drafted c signHash w.toWallet view p d) :
    d.unsigned.totalOutputValue = d.paid p := by
  obtain ⟨toScript, changeScript, memo, -, -, -, houtputs⟩ := h.outputs
  rw [Transaction.totalOutputValue, houtputs, Draft.paid]
  split <;> split <;> simp

theorem Drafted.outputSum (h : Drafted c signHash w.toWallet view p d) :
    UTXOSet.outputSum d.unsigned.outputs.toList =
      if Constants.dustLimitSats ≤ d.change p then p.amountSats.toInt + (d.change p).toInt
      else p.amountSats.toInt := by
  obtain ⟨toScript, changeScript, memo, -, -, -, houtputs⟩ := h.outputs
  rw [UTXOSet.outputSum, houtputs]
  split <;> split <;> simp

/-- The fee that the mempool sees is the quoted one and the dust. -/
theorem Drafted.fee_eq (h : Drafted c signHash w.toWallet view p d) :
    sumValues d.selected - d.unsigned.totalOutputValue =
      feeFor p.feePerKb (quotedSize d.selected.length) + d.absorbed p := by
  have hchange : d.change p =
    sumValues d.selected - p.amountSats - feeFor p.feePerKb (quotedSize d.selected.length) := rfl
  rw [h.totalOutputValue, Draft.paid, Draft.absorbed]
  split <;> grind

theorem Drafted.absorbed_bounds (h : Drafted c signHash w.toWallet view p d) :
    0 ≤ (d.absorbed p).toInt ∧ (d.absorbed p).toInt < Constants.dustLimitSats.toInt := by
  rw [Draft.absorbed]
  split
  · decide
  · next hdust =>
      rw [Int64.le_iff_toInt_le, Int.not_le] at hdust
      exact ⟨Int64.le_iff_toInt_le.mp h.change_nonneg, hdust⟩

theorem Drafted.selected_ne_nil (h : Drafted c signHash w.toWallet view p d) :
    d.selected ≠ [] := by
  intro hnil
  have henough := h.enough
  rw [hnil, sumValues, List.foldl_nil] at henough
  have hpositive := h.positive
  rw [Int64.le_iff_toInt_le] at henough
  rw [Int64.lt_iff_toInt_lt] at hpositive
  omega

/-- The primary key decodes. -/
theorem primary_derives (hw : w.Matched lib) (hne : w.addresses ≠ []) :
    ∃ pub, lib.derivePub w.privkey = some pub := by
  have hpriv : w.privkey = w.privkeys.headD [] := congrArg (·.privkey) hw.primary.symm
  cases hkeys : w.privkeys with
  | nil =>
      have hlen := hw.length_eq
      rw [hkeys] at hlen
      exact absurd (List.eq_nil_of_length_eq_zero hlen.symm) hne
  | cons priv rest =>
      have hpubs := hw.pubkeys
      rw [hkeys, List.map_cons] at hpubs
      cases hpubkeys : w.pubkeys with
      | nil =>
          rw [hpubkeys] at hpubs
          cases hpubs
      | cons pub pubs =>
          rw [hpubkeys, List.map_cons, List.cons.injEq] at hpubs
          rw [hpriv, hkeys]
          exact ⟨pub, hpubs.1⟩

theorem length_memo {memo : Vec UInt8} {sig : Bytes} (hsig : sig.length ≤ 72)
    (hmemo : memo.toList = Mempool.opReturnPrefix ++ base64Encode sig) :
    memo.toList.length ≤ 106 := by
  rw [hmemo, List.length_append, length_base64Encode]
  have hprefix : Mempool.opReturnPrefix.length = 10 := rfl
  omega

/-- What the message adds to a payment. -/
def memoSize (c : Crypto) (signHash : Hash256 → Bytes → Vec UInt8) (w : Wallet) (p : Payment) :
    Nat :=
  if p.opReturnMsg = [] then 0
  else 19 + ((signHash (c.hash256 p.opReturnMsg) w.privkey).toList.length + 2) / 3 * 4

/-- The size of the outputs of a draft. -/
theorem Drafted.sum_outputs (h : Drafted c signHash w.toWallet view p d) :
    (d.unsigned.outputs.toList.map fun out => 9 + out.scriptPubKey.toList.length).sum =
      37 + (if Constants.dustLimitSats ≤ d.change p then 37 else 0) +
        memoSize c signHash w.toWallet p := by
  obtain ⟨toScript, changeScript, memo, hto, hchange, hmemo, houtputs⟩ := h.outputs
  have hmemoSum : ((if p.opReturnMsg = [] then [] else [(⟨0, memo⟩ : TxOut)]).map
      fun out => 9 + out.scriptPubKey.toList.length).sum = memoSize c signHash w.toWallet p := by
    rw [memoSize]
    split
    · rfl
    · next hne =>
        have hprefix : Mempool.opReturnPrefix.length = 10 := rfl
        rw [List.map_singleton, List.sum_singleton, hmemo hne, List.length_append,
          length_base64Encode]
        omega
  rw [houtputs, List.map_cons, List.sum_cons, List.map_append, List.sum_append, hmemoSum,
    hto.length_eq]
  split
  · rw [List.map_singleton, List.sum_singleton, hchange.length_eq]
    omega
  · rw [List.map_nil, List.sum_nil]
    omega

/-- The outputs of a draft are few and short. -/
theorem Drafted.outputs_short (h : Drafted c signHash w.toWallet view p d)
    (hsig : (signHash (c.hash256 p.opReturnMsg) w.privkey).toList.length ≤ 72) :
    d.unsigned.outputs.toList.length ≤ 3 ∧
      ∀ out ∈ d.unsigned.outputs.toList, out.scriptPubKey.toList.length ≤ 106 := by
  obtain ⟨toScript, changeScript, memo, hto, hchange, hmemo, houtputs⟩ := h.outputs
  rw [houtputs]
  constructor
  · split <;> split <;> simp
  · intro out hout
    rcases List.mem_cons.mp hout with rfl | hout
    · exact hto.length_eq.trans_le (by decide)
    · rcases List.mem_append.mp hout with hout | hout
      · split at hout
        · rw [List.mem_singleton.mp hout]
          exact hchange.length_eq.trans_le (by decide)
        · cases hout
      · split at hout
        · cases hout
        · next hne =>
            rw [List.mem_singleton.mp hout]
            exact length_memo hsig (hmemo hne)

theorem AddressScript.standard {sha256 : Bytes → Hash256} {script : Vec UInt8}
    (h : AddressScript script) : Mempool.isOpReturnScript script.toList = false ∧
      Mempool.isStandardAddress sha256 script.toList = true := by
  obtain ⟨q, hq⟩ := h
  rw [hq]
  exact ⟨Mempool.isOpReturnScript_base64 _, Mempool.isStandardAddress_base64 sha256 q⟩

/-- The mempool takes the outputs of a draft. -/
theorem Drafted.outputsViolate (h : Drafted c signHash w.toWallet view p d)
    (hsig : (signHash (c.hash256 p.opReturnMsg) w.privkey).toList.length ≤ 72)
    (hamount : Constants.dustLimitSats ≤ p.amountSats) (sha256 : Bytes → Hash256) :
    Mempool.outputsViolate (Mempool.isStandardAddress sha256) false d.unsigned.outputs.toList =
      false := by
  obtain ⟨toScript, changeScript, memo, hto, hchange, hmemo, houtputs⟩ := h.outputs
  have haddress : ∀ {script : Vec UInt8} {value : Int64} {rest : List TxOut},
      AddressScript script → Constants.dustLimitSats ≤ value →
      Mempool.outputsViolate (Mempool.isStandardAddress sha256) false (⟨value, script⟩ :: rest) =
        Mempool.outputsViolate (Mempool.isStandardAddress sha256) false rest := by
    intro script value rest hscript hvalue
    obtain ⟨hplain, hstandard⟩ := hscript.standard
    rw [Mempool.outputsViolate, if_neg (by rw [hplain]; decide), if_neg (by rw [hstandard]; decide),
      if_neg (Int64.not_lt.mpr hvalue)]
  have hlast : Mempool.outputsViolate (Mempool.isStandardAddress sha256) false
      (if p.opReturnMsg = [] then [] else [⟨0, memo⟩]) = false := by
    split
    · rfl
    · next hne =>
        have hscript := hmemo hne
        have hplain : Mempool.isOpReturnScript memo.toList = true := by
          rw [hscript]
          exact List.isPrefixOf_iff_prefix.mpr ⟨_, rfl⟩
        have hlen := length_memo hsig hscript
        rw [Mempool.outputsViolate, if_pos hplain, if_neg Bool.false_ne_true,
          if_neg (not_not.mpr rfl), if_neg (Nat.not_lt.mpr (hlen.trans (by decide)))]
        rfl
  rw [houtputs, haddress hto hamount]
  split
  · next hdust => rw [List.singleton_append, haddress hchange hdust, hlast]
  · rw [List.nil_append, hlast]

end Outputs

/-! ## Fees -/

/-- The kilobytes that a size has started. -/
def kilobytes (size : Nat) : Nat := (size + 999) / 1000

theorem feeFor_toInt (feePerKb : Int64) (size : Nat) :
    (feeFor feePerKb size).toInt = (feePerKb.toInt * kilobytes size).bmod (2 ^ 64) := by
  rw [feeFor, Int64.toInt_mul, Int64.toInt_ofNat', Int.bmod_mul_bmod, Int.mul_comm, kilobytes]
  rfl

/-- With fewer than twice the kilobytes, the fee of a quote is that of the real
size only if the kilobytes agree. -/
theorem kilobytes_agree {rate quoted signed absorbed left : Int} (hrate : 1000 ≤ rate)
    (habsorbed : 0 ≤ absorbed ∧ absorbed < 546) (hleft : 0 ≤ left ∧ left < 546)
    (hquoted : 0 ≤ quoted) (hdouble : quoted ≤ 2 * signed) (hfits : rate * signed + left < 2 ^ 63)
    (h : (rate * quoted + absorbed).bmod (2 ^ 64) = rate * signed + left) : quoted = signed := by
  have hdiv := Int.bmod_add_bdiv (rate * quoted + absorbed) (2 ^ 64)
  rw [h] at hdiv
  have hpos : 0 ≤ rate * quoted := by positivity
  have htwice : rate * quoted ≤ 2 * (rate * signed) := by nlinarith
  have hexact : rate * quoted + absorbed = rate * signed + left := by
    generalize rate * quoted = x at *
    generalize rate * signed = y at *
    omega
  rcases Int.lt_trichotomy quoted signed with hlt | heq | hlt
  · have hstep : rate * quoted ≤ rate * (signed - 1) := by nlinarith
    rw [Int.mul_sub, Int.mul_one] at hstep
    omega
  · exact heq
  · have hstep : rate * signed ≤ rate * (quoted - 1) := by nlinarith
    rw [Int.mul_sub, Int.mul_one] at hstep
    omega

/-- What a list of coins is worth. -/
def coinTotal (coins : List (OutPoint × UTXOEntry)) : Int :=
  (coins.map fun u => u.2.output.value.toInt).sum

theorem sumValues_toInt (coins : List (OutPoint × UTXOEntry)) :
    (sumValues coins).toInt = (coinTotal coins).bmod (2 ^ 64) := by
  have h := UTXOSet.foldl_value_toInt (coins.map fun u => u.2.output) 0
  rw [List.foldl_map, UTXOSet.outputSum, List.map_map, show (0 : Int64).toInt = 0 from rfl,
    Int.zero_add] at h
  exact h

/-! ## Relay -/

/-- A payment is accepted by an empty mempool with the difference of its inputs
and outputs as the fee, which is the rate for the kilobytes of its size and
less than the dust limit. -/
structure RelayedWith (c : Crypto) (ctx : Mempool.Context) (p : Payment) (tx : Transaction)
    (e : Mempool.TxEntry) : Prop where
  accepted : ∀ fuel, ∃ pool,
    Mempool.addTransaction c ctx (fuel + 1) Mempool.empty tx = some (.accepted, pool) ∧
      pool.txs.lookup (tx.hash c) = some e
  balance : e.fee.toInt =
    UTXOSet.inputTotal ctx.utxo tx - UTXOSet.outputSum tx.outputs.toList
  rate : ∃ absorbed : Int, 0 ≤ absorbed ∧ absorbed < Constants.dustLimitSats.toInt ∧
    e.fee.toInt = p.feePerKb.toInt * kilobytes tx.serialize.length + absorbed

def Relayed (c : Crypto) (ctx : Mempool.Context) (p : Payment) (tx : Transaction) : Prop :=
  ∃ e, RelayedWith c ctx p tx e

/-- The size of a payment with its signatures, its change and its message. -/
def Draft.signedSize (lib : KeyLib) (c : Crypto) (signHash : Hash256 → Bytes → Vec UInt8)
    (w : Wallet) (p : Payment) (d : Draft) : Nat :=
  47 + 106 * d.selected.length + (signatureLengths lib c signHash w d).sum +
    (if Constants.dustLimitSats ≤ d.change p then 37 else 0) + memoSize c signHash w p

/-- The drafts whose payments are relayed: few and different coins, amounts
that fit, and a signed size with the kilobytes of the quoted one. -/
structure Draft.Fits (lib : KeyLib) (c : Crypto) (signHash : Hash256 → Bytes → Vec UInt8)
    (w : Wallet) (p : Payment) (d : Draft) : Prop where
  few : d.selected.length ≤ Constants.maxStandardTxInputs
  distinct : (d.selected.map Prod.fst).Nodup
  notNull : d.selected.map Prod.fst ≠ [⟨0, 0xFFFFFFFF⟩]
  total : -2 ^ 63 ≤ coinTotal d.selected ∧ coinTotal d.selected < 2 ^ 63
  size : kilobytes (d.signedSize lib c signHash w p) = kilobytes (quotedSize d.selected.length)
  fee : p.feePerKb.toInt * kilobytes (quotedSize d.selected.length) < 2 ^ 63

/-- The mempool is asked at the state that the wallet has read. -/
structure AtTip (lib : KeyLib) (chain : ChainReader) (ctx : Mempool.Context) : Prop where
  utxo : ctx.utxo = chain.utxo
  height : ctx.currentHeight = chain.bestHeight.toUInt32
  address : ctx.isStandardAddress = Mempool.isStandardAddress lib.sha256

/-- A payment that the wallet has signed at the state of the mempool. -/
structure Ready (lib : KeyLib) (c : Crypto) (signHash : Hash256 → Bytes → Vec UInt8)
    (w : HdWallet) (chain : ChainReader) (active : Bytes → Bool) (ctx : Mempool.Context)
    (p : Payment) (d : Draft) (tx : Transaction) : Prop where
  tip : AtTip lib chain ctx
  drafted : Drafted c signHash w.toWallet (chainView lib w chain active) p d
  signed : SignedBy lib c signHash w.toWallet d tx
  memo : (signHash (c.hash256 p.opReturnMsg) w.privkey).toList.length ≤ 72
  amount : Constants.dustLimitSats ≤ p.amountSats
  rate : (Constants.minRelayFeeSatsPerKb : Int) ≤ p.feePerKb.toInt

namespace Ready

variable {chain : ChainReader} {active : Bytes → Bool} {ctx : Mempool.Context} {p : Payment}
  {d : Draft} {tx : Transaction}

theorem lookup (h : Ready lib c signHash w chain active ctx p d tx) {u : OutPoint × UTXOEntry}
    (hu : u ∈ d.selected) : ctx.utxo.lookup u.1 = some u.2 := by
  rw [h.tip.utxo]
  exact (mem_listUnspent (h.drafted.available u hu)).2.1

theorem inputTotal_eq (h : Ready lib c signHash w chain active ctx p d tx) :
    UTXOSet.inputTotal ctx.utxo tx = coinTotal d.selected := by
  have hprevouts : tx.inputs.toList.map (fun txin => UTXOSet.valueAt ctx.utxo txin.prevout) =
      (tx.inputs.toList.map TxIn.prevout).map (UTXOSet.valueAt ctx.utxo) := by
    rw [List.map_map]
    rfl
  rw [UTXOSet.inputTotal, hprevouts, h.signed.prevouts, List.map_map, coinTotal]
  refine congrArg List.sum (List.map_congr_left fun u hu => ?_)
  rw [Function.comp_apply, UTXOSet.valueAt, h.lookup hu]
  rfl

theorem outputs_short (h : Ready lib c signHash w chain active ctx p d tx) :
    d.unsigned.outputs.toList.length ≤ 3 ∧
      ∀ out ∈ d.unsigned.outputs.toList, out.scriptPubKey.toList.length ≤ 106 :=
  h.drafted.outputs_short h.memo

theorem length_serialize (h : Ready lib c signHash w chain active ctx p d tx)
    (hfew : d.selected.length ≤ Constants.maxStandardTxInputs) :
    tx.serialize.length = d.signedSize lib c signHash w.toWallet p := by
  obtain ⟨hcount, hscripts⟩ := h.outputs_short
  rw [h.signed.length_serialize hfew (Nat.lt_of_le_of_lt hcount (by decide))
    fun out hout => Nat.lt_of_le_of_lt (hscripts out hout) (by decide), h.drafted.sum_outputs,
    Draft.signedSize]
  omega

theorem length_inputs (h : Ready lib c signHash w chain active ctx p d tx) :
    tx.inputs.toList.length = d.selected.length := h.signed.length_eq

theorem resolve (h : Ready lib c signHash w chain active ctx p d tx)
    (hnd : (d.selected.map Prod.fst).Nodup) :
    Mempool.resolveInputs ctx Mempool.empty tx.inputs.toList [] ⟨[], [], 0⟩ =
      .ok ⟨d.selected.map Prod.snd, [], sumValues d.selected⟩ := by
  rw [Mempool.resolveInputs_coins h.signed.prevouts hnd (fun u hu => h.lookup hu)
    fun u _ => List.not_mem_nil]
  rfl

/-- The fee in the mempool is the quoted fee and the dust. -/
theorem fee_toInt (h : Ready lib c signHash w chain active ctx p d tx) :
    (sumValues d.selected - tx.totalOutputValue).toInt =
      (p.feePerKb.toInt * kilobytes (quotedSize d.selected.length) +
        (d.absorbed p).toInt).bmod (2 ^ 64) := by
  have htotal : tx.totalOutputValue = d.unsigned.totalOutputValue := by
    rw [Transaction.totalOutputValue, Transaction.totalOutputValue, h.signed.outputs]
  rw [htotal, h.drafted.fee_eq, Int64.toInt_add, feeFor_toInt, Int.bmod_add_bmod]

/-- Where the quoted fee fits, no amount of the draft has wrapped. -/
theorem exact (h : Ready lib c signHash w chain active ctx p d tx)
    (hfee : p.feePerKb.toInt * kilobytes (quotedSize d.selected.length) < 2 ^ 63) :
    (sumValues d.selected - tx.totalOutputValue).toInt =
      p.feePerKb.toInt * kilobytes (quotedSize d.selected.length) + (d.absorbed p).toInt ∧
    (sumValues d.selected - tx.totalOutputValue).toInt =
      (sumValues d.selected).toInt - UTXOSet.outputSum tx.outputs.toList := by
  have hrate := h.rate
  have hquoted : 0 ≤ p.feePerKb.toInt * kilobytes (quotedSize d.selected.length) :=
    Int.mul_nonneg (by omega) (Int.natCast_nonneg _)
  have hpositive := Int64.lt_iff_toInt_lt.mp h.drafted.positive
  have henough := Int64.le_iff_toInt_le.mp h.drafted.enough
  have hnonneg := Int64.le_iff_toInt_le.mp h.drafted.change_nonneg
  have htotal := (sumValues d.selected).toInt_lt
  have hzero : (0 : Int64).toInt = 0 := rfl
  have hfeeFor : (feeFor p.feePerKb (quotedSize d.selected.length)).toInt =
      p.feePerKb.toInt * kilobytes (quotedSize d.selected.length) := by
    rw [feeFor_toInt, Int.bmod_eq_of_le] <;> omega
  have hleft : (sumValues d.selected - p.amountSats).toInt =
      (sumValues d.selected).toInt - p.amountSats.toInt := by
    rw [Int64.toInt_sub, Int.bmod_eq_of_le] <;> omega
  have hchange : (d.change p).toInt = (sumValues d.selected).toInt - p.amountSats.toInt -
      p.feePerKb.toInt * kilobytes (quotedSize d.selected.length) := by
    rw [Draft.change, Int64.toInt_sub, hleft, hfeeFor, Int.bmod_eq_of_le] <;> omega
  have hbounds := h.drafted.absorbed_bounds
  have habsorbed : (d.absorbed p).toInt ≤ (d.change p).toInt := by
    rw [Draft.absorbed]
    split
    · exact hnonneg
    · exact Int.le_refl _
  have hfee : (sumValues d.selected - tx.totalOutputValue).toInt =
      p.feePerKb.toInt * kilobytes (quotedSize d.selected.length) + (d.absorbed p).toInt := by
    rw [h.fee_toInt, Int.bmod_eq_of_le] <;> omega
  refine ⟨hfee, ?_⟩
  rw [hfee, h.signed.outputs, h.drafted.outputSum, Draft.absorbed]
  split <;> omega

/-- The quoted size is less than twice the signed one. -/
theorem quoted_le (d : Draft) (p : Payment) : kilobytes (quotedSize d.selected.length) ≤
    2 * kilobytes (d.signedSize lib c signHash w.toWallet p) := by
  rw [Draft.signedSize, quotedSize, kilobytes, kilobytes]
  omega

/-! ### What a relayed payment shows -/

theorem fits_of_relayed (h : Ready lib c signHash w chain active ctx p d tx)
    (hrelayed : Relayed c ctx p tx) : d.Fits lib c signHash w.toWallet p := by
  obtain ⟨e, haccepted, hbalance, left, hleft₀, hleft, hrate⟩ := hrelayed
  have hadm := Mempool.accepted_empty_iff.mp haccepted
  rcases Mempool.admission_cases c ctx Mempool.empty tx with ⟨status, hrejected, -⟩ |
    ⟨hok, r, hres, hcase⟩
  · rw [hadm] at hrejected
    cases hrejected
  · rcases hcase with ⟨-, horphan⟩ | ⟨e', he', hadm'⟩
    · rw [hadm] at horphan
      cases horphan
    · rw [hadm] at hadm'
      cases hadm'
      have hstandard := hok.standard
      rw [Mempool.violatesStandardPolicy] at hstandard
      simp only [Bool.or_eq_false_iff, decide_eq_false_iff_not, Nat.not_lt] at hstandard
      have hfew : d.selected.length ≤ Constants.maxStandardTxInputs :=
        h.length_inputs ▸ hstandard.1.1.1.2
      have hnd : (d.selected.map Prod.fst).Nodup := by
        have hempty : ∀ k e, Mempool.empty.txs.lookup k = some e →
            e.tx.hash c = k ∧ e.tx ∈ (∅ : Set Transaction) ∧ e.tx.isCoinbase = false := by
          intro k e hlook
          cases hlook
        have hdistinct := (Mempool.resolveInputs_backs hempty hres he'.found).1
        rwa [h.signed.prevouts] at hdistinct
      have hresolved := h.resolve hnd
      rw [hres] at hresolved
      cases hresolved
      have hfee : e.fee = sumValues d.selected - tx.totalOutputValue := by rw [he'.entry]
      rw [hfee] at hrate hbalance
      have hsize := h.length_serialize hfew
      have hbound := (sumValues d.selected - tx.totalOutputValue).toInt_lt
      have hkilobytes : kilobytes (d.signedSize lib c signHash w.toWallet p) =
          kilobytes (quotedSize d.selected.length) := by
        have hquoted : kilobytes (quotedSize d.selected.length) ≤
            2 * kilobytes (d.signedSize lib c signHash w.toWallet p) := quoted_le d p
        have habsorbed := h.drafted.absorbed_bounds
        rw [h.fee_toInt, hsize] at hrate
        rw [h.fee_toInt, hrate] at hbound
        have hagree := kilobytes_agree h.rate habsorbed ⟨hleft₀, hleft⟩ (Int.natCast_nonneg _)
          (by omega) hbound hrate
        exact (Int.natCast_inj.mp hagree).symm
      rw [hsize, hkilobytes] at hrate
      have hfits : p.feePerKb.toInt * kilobytes (quotedSize d.selected.length) < 2 ^ 63 := by omega
      have hexact := (h.exact hfits).2
      have htotal : coinTotal d.selected = (sumValues d.selected).toInt := by
        rw [← h.inputTotal_eq]
        omega
      refine ⟨hfew, hnd, fun hnull => ?_, ?_, hkilobytes, hfits⟩
      · rw [← h.signed.prevouts, ← Transaction.isCoinbase_iff, hok.notCoinbase] at hnull
        cases hnull
      · have hlo := (sumValues d.selected).le_toInt
        have hhi := (sumValues d.selected).toInt_lt
        omega

/-! ### What a draft that fits comes to -/

theorem inputAuthorised (h : Ready lib c signHash w chain active ctx p d tx) {i : Nat}
    {u : OutPoint × UTXOEntry} (hu : d.selected[i]? = some u) :
    ∃ txin, tx.inputs.toList[i]? = some txin ∧ txin.scriptSig.toList ≠ [] ∧
      txin.scriptSig.toList.length ≤ Constants.maxStandardScriptsigBytes ∧
      Mempool.inputAuthorised c ctx.currentHeight tx i txin u.2 = true := by
  obtain ⟨txin, sig, pub, htxin, -, hscript, hauth⟩ := h.signed.input i u hu
  have hsig := hauth.signature_length
  have hlen : txin.scriptSig.toList.length = sig.length + 65 := by
    rw [hscript, List.length_append, hauth.pubkey_length]
  refine ⟨txin, htxin, fun hnil => ?_, ?_, ?_⟩
  · rw [hnil, List.length_nil] at hlen
    omega
  · rw [hlen]
    exact (Nat.add_le_add_right hsig 65).trans (by decide)
  · have hmature := (mem_listUnspent (h.drafted.available u (List.mem_of_getElem? hu))).2.2
    have hcut : sig.length + 65 - 65 = sig.length := Nat.add_sub_cancel _ _
    rw [Mempool.inputAuthorised]
    simp only [hscript, List.length_append, hauth.pubkey_length, hcut, List.take_left,
      List.drop_left, hauth.owner, h.signed.sighash, hauth.verifies]
    rw [if_neg (by omega), if_neg (by decide), if_neg (by decide), Bool.not_eq_true',
      Bool.and_eq_false_imp]
    intro hcb
    have hheight := of_decide_eq_true (hmature hcb)
    rw [h.tip.height, decide_eq_false_iff_not]
    omega

theorem validateBasic (h : Ready lib c signHash w chain active ctx p d tx) :
    tx.validateBasic = true := by
  obtain ⟨toScript, changeScript, memo, -, -, -, houtputs⟩ := h.drafted.outputs
  have hne : tx.inputs.toList ≠ [] := by
    intro hnil
    have hlen := h.length_inputs
    rw [hnil] at hlen
    exact h.drafted.selected_ne_nil (List.eq_nil_of_length_eq_zero hlen.symm)
  have hamount : ¬ p.amountSats < 0 := Int64.not_lt.mpr (Int64.le_of_lt h.drafted.positive)
  have hchange : ¬ d.change p < 0 := Int64.not_lt.mpr h.drafted.change_nonneg
  rw [Transaction.validateBasic, h.signed.outputs, houtputs, if_neg (List.cons_ne_nil _ _),
    if_neg (by simp [hne])]
  split <;> split <;> simp [hamount, hchange]

theorem signedSize_le (h : Ready lib c signHash w chain active ctx p d tx)
    (hfew : d.selected.length ≤ Constants.maxStandardTxInputs) :
    d.signedSize lib c signHash w.toWallet p ≤ Constants.maxStandardTxSizeBytes := by
  have hsigs : (signatureLengths lib c signHash w.toWallet d).sum ≤ d.selected.length * 72 := by
    have hle : ∀ n ∈ signatureLengths lib c signHash w.toWallet d, n ≤ 72 := by
      intro n hn
      obtain ⟨i, hi, rfl⟩ := List.mem_mapIdx.mp hn
      obtain ⟨txin, sig, pub, -, -, -, hauth⟩ :=
        h.signed.input i _ (List.getElem?_eq_getElem hi)
      rw [← hauth.signature]
      exact hauth.signature_length
    have hsum := List.sum_le_card_nsmul _ 72 hle
    rw [signatureLengths, List.length_mapIdx] at hsum
    exact hsum
  have hchange : (if Constants.dustLimitSats ≤ d.change p then 37 else 0) ≤ 37 := by
    split <;> omega
  have hmemo : memoSize c signHash w.toWallet p ≤ 115 := by
    have hsig := h.memo
    rw [memoSize]
    split <;> omega
  have hmax : Constants.maxStandardTxInputs = 128 := rfl
  have hbytes : Constants.maxStandardTxSizeBytes = 100000 := rfl
  rw [Draft.signedSize, hbytes]
  omega

theorem admission_of_fits (h : Ready lib c signHash w chain active ctx p d tx)
    (hfits : d.Fits lib c signHash w.toWallet p) :
    Mempool.admission c ctx Mempool.empty tx = .entry ⟨tx, tx.serialize.length,
      sumValues d.selected - tx.totalOutputValue,
      Mempool.feeRate (sumValues d.selected - tx.totalOutputValue) tx.serialize.length, ctx.now⟩ := by
  have hsize := h.length_serialize hfits.few
  have hfee := (h.exact hfits.fee).1
  have hrate := h.rate
  have habsorbed := h.drafted.absorbed_bounds.1
  have hok : Mempool.Admissible c ctx Mempool.empty tx := by
    refine ⟨h.validateBasic, ?_, rfl, rfl, ?_, ?_⟩
    · rw [Bool.eq_false_iff]
      intro hcb
      rw [Transaction.isCoinbase_iff, h.signed.prevouts] at hcb
      exact hfits.notNull hcb
    · have houtputs : tx.outputs.toList.length ≤ Constants.maxStandardTxOutputs := by
        rw [h.signed.outputs]
        exact h.outputs_short.1.trans (by decide)
      have hscripts : (tx.inputs.toList.any fun txin => txin.scriptSig.toList = [] ||
          txin.scriptSig.toList.length > Constants.maxStandardScriptsigBytes) = false := by
        rw [List.any_eq_false]
        intro txin htxin
        obtain ⟨i, hi, rfl⟩ := List.getElem_of_mem htxin
        obtain ⟨txin, hget, hne, hlen, -⟩ :=
          h.inputAuthorised (List.getElem?_eq_getElem (h.length_inputs ▸ hi))
        rw [List.getElem?_eq_getElem hi, Option.some_inj] at hget
        rw [hget]
        simp [hne, hlen]
      have houts : Mempool.outputsViolate ctx.isStandardAddress false tx.outputs.toList = false := by
        rw [h.tip.address, h.signed.outputs]
        exact h.drafted.outputsViolate h.memo h.amount lib.sha256
      rw [Mempool.violatesStandardPolicy, hscripts, houts, h.length_inputs, hsize]
      simp only [Bool.or_false, Bool.or_eq_false_iff, decide_eq_false_iff_not, Nat.not_lt]
      exact ⟨⟨h.signedSize_le hfits.few, hfits.few⟩, houtputs⟩
    · rw [Mempool.checkDoubleSpend, List.any_eq_false]
      intro txin _
      exact Bool.false_ne_true
  refine (Mempool.admission_of_admissible hok (h.resolve hfits.distinct)).2 _
    ⟨rfl, ?_, ?_, ?_, rfl⟩
  · rw [Int64.lt_iff_toInt_lt, hfee]
    have hquoted : 0 ≤ p.feePerKb.toInt * kilobytes (quotedSize d.selected.length) :=
      Int.mul_nonneg (by omega) (Int.natCast_nonneg _)
    have hzero : (0 : Int64).toInt = 0 := rfl
    omega
  · have hmin : (Mempool.minFee tx.serialize.length).toInt =
        1000 * kilobytes (quotedSize d.selected.length) := by
      have hkb : (tx.serialize.length + 999) / 1000 = kilobytes (quotedSize d.selected.length) := by
        rw [hsize, ← hfits.size]
        rfl
      have hfew := hfits.few
      have hmax : Constants.maxStandardTxInputs = 128 := rfl
      have hminRelay : Constants.minRelayFeeSatsPerKb = 1000 := rfl
      have hsmall : kilobytes (quotedSize d.selected.length) ≤ 20 := by
        rw [kilobytes, quotedSize]
        omega
      rw [Mempool.minFee, hkb, hminRelay, Int64.toInt_ofNat_of_lt (by omega)]
      omega
    have hle : (1000 : Int) * kilobytes (quotedSize d.selected.length) ≤
        p.feePerKb.toInt * kilobytes (quotedSize d.selected.length) :=
      Int.mul_le_mul_of_nonneg_right hrate (Int.natCast_nonneg _)
    rw [Int64.lt_iff_toInt_lt, hfee, hmin]
    omega
  · refine Mempool.inputsAuthorised_of fun i q hq => ?_
    rw [List.getElem?_zip_eq_some, List.getElem?_map] at hq
    obtain ⟨htxin, hentry⟩ := hq
    obtain ⟨u, hu, hsnd⟩ := Option.map_eq_some_iff.mp hentry
    obtain ⟨txin, hget, -, -, hauth⟩ := h.inputAuthorised hu
    rw [hget, Option.some_inj] at htxin
    rw [Nat.zero_add, ← htxin, ← hsnd]
    exact hauth

theorem relayed_of_fits (h : Ready lib c signHash w chain active ctx p d tx)
    (hfits : d.Fits lib c signHash w.toWallet p) : Relayed c ctx p tx := by
  obtain ⟨hfee, hbalance⟩ := h.exact hfits.fee
  obtain ⟨hlo, hhi⟩ := h.drafted.absorbed_bounds
  have htotal : (sumValues d.selected).toInt = coinTotal d.selected := by
    have hrange := hfits.total
    rw [sumValues_toInt, Int.bmod_eq_of_le] <;> omega
  refine ⟨_, Mempool.accepted_empty_iff.mpr (h.admission_of_fits hfits), ?_, _, hlo, hhi, ?_⟩
  · rw [hbalance, htotal, h.inputTotal_eq]
  · rw [hfee, h.length_serialize hfits.few, hfits.size]

end Ready

/-- A payment of the wallet is relayed exactly if its draft fits. -/
theorem createPayment_relayed_iff (hkeys : KeyPrimitives lib c signHash) (hw : w.Matched lib)
    {chain : ChainReader} {ctx : Mempool.Context} (htip : AtTip lib chain ctx)
    {active : Bytes → Bool} {p : Payment} {tx : Transaction}
    (hamount : Constants.dustLimitSats ≤ p.amountSats)
    (hrate : (Constants.minRelayFeeSatsPerKb : Int) ≤ p.feePerKb.toInt)
    (h : createPayment c lib.sha256 signHash w.toWallet (chainView lib w chain active) p = .ok tx) :
    Relayed c ctx p tx ↔
      ∃ d, draft c lib.sha256 signHash w.toWallet (chainView lib w chain active) p = .ok d ∧
        d.Fits lib c signHash w.toWallet p := by
  obtain ⟨d, hdraft, hsigned⟩ := signedBy hkeys hw h
  have hdrafted := drafted hdraft
  obtain ⟨u, hu⟩ := List.exists_mem_of_ne_nil _ hdrafted.selected_ne_nil
  obtain ⟨pub, hpub⟩ := primary_derives hw (mem_listUnspent (hdrafted.available u hu)).1
  have hready : Ready lib c signHash w chain active ctx p d tx :=
    ⟨htip, hdrafted, hsigned, hkeys.signature_length hpub _, hamount, hrate⟩
  constructor
  · exact fun hrelayed => ⟨d, hdraft, hready.fits_of_relayed hrelayed⟩
  · rintro ⟨d', hdraft', hfits⟩
    rw [hdraft] at hdraft'
    cases hdraft'
    exact hready.relayed_of_fits hfits


/-! ## Samples -/

/-- Every key has the same point, and every point the same hash. -/
def paymentLib : KeyLib where
  sha256 _ := 0
  ripemd160 _ := ⟨List.replicate 20 1, rfl⟩
  hmacSha512 _ _ := (0, 0)
  compressedPub _ := none
  encodePriv _ := none
  derivePub _ := some (4 :: List.replicate 64 1)

def paymentAddress : Vec UInt8 := ⟨base64Encode (List.replicate 20 1), by decide⟩

def paymentCrypto : Crypto where
  sha3_512 _ := 7
  verifySignature _ _ _ := true
  pubkeyToAddress pub := (paymentLib.pubkeyToAddress pub).getD []
  addressesEqual := Encoding.addressesEqual paymentLib.sha256

/-- A signature of the usual length. -/
def paymentSign (_ : Hash256) (_ : Bytes) : Vec UInt8 := ⟨List.replicate 71 0x30, by decide⟩

def paymentWallet : HdWallet where
  address := paymentAddress.toList
  privkey := [1]
  pubkey := 4 :: List.replicate 64 1
  addresses := [paymentAddress.toList]
  privkeys := [[1]]
  pubkeys := [4 :: List.replicate 64 1]
  addressFormat := .base64
  hdScheme := .none
  masterSeed := []
  mnemonicEntropy := []
  nextHdIndex := 0
  labels := ∅

/-- Outputs of one transaction that pay to the wallet. -/
def paymentCoins (n : Nat) : List (OutPoint × UTXOEntry) :=
  (List.range n).map fun i => (⟨9, UInt32.ofNat i⟩, ⟨⟨10000, paymentAddress⟩, 5, false⟩)

def paymentChain (n : Nat) : ChainReader where
  approved := true
  bestHeight := 10
  utxo := FinMap.insertAll ∅ (paymentCoins n)
  order := Chainstate.outpointOrder
  blocks := []

def paymentContext (n : Nat) : Mempool.Context :=
  { Regtest.context (paymentChain n).utxo with
    isStandardAddress := Mempool.isStandardAddress paymentLib.sha256 }

/-- A payment that spends all coins at the lowest rate. -/
def paymentOf (n : Nat) : Payment where
  toAddress := paymentAddress.toList
  amountSats := 5000
  opReturnMsg := []
  feePerKb := 1000
  selectedInputs := (paymentCoins n).map Prod.fst
  changeAddress := some paymentAddress.toList

theorem keyPrimitives_payment : KeyPrimitives paymentLib paymentCrypto paymentSign where
  pubkey_length h := by
    cases h
    rfl
  signature_length _ _ := (by decide : 71 ≤ 72)
  verifies _ _ := rfl
  pubkeyToAddress pub := by
    rw [paymentCrypto]
    simp only [KeyLib.pubkeyToAddress_eq, Option.getD_some]
  addressesEqual := rfl

theorem matched_payment : paymentWallet.Matched paymentLib := ⟨rfl, rfl, rfl⟩

theorem atTip_payment (n : Nat) : AtTip paymentLib (paymentChain n) (paymentContext n) :=
  ⟨rfl, rfl, rfl⟩

theorem chosenCoins_eq {view : ChainView} : ∀ {chosen : List (OutPoint × UTXOEntry)},
    (∀ u ∈ chosen, view.unspent.find? (·.1 = u.1) = some u) →
    chosenCoins view (chosen.map Prod.fst) = .ok chosen
  | [], _ => rfl
  | u :: rest, h => by
      rw [List.map_cons, chosenCoins, h u List.mem_cons_self]
      simp only [chosenCoins_eq fun v hv => h v (List.mem_cons_of_mem _ hv)]
      rfl

theorem canonicalize_paymentAddress :
    canonicalizeAddress paymentLib.sha256 paymentAddress.toList = some paymentAddress.toList :=
  canonicalizeAddress_base64 paymentLib.sha256 ⟨List.replicate 20 1, rfl⟩

/-- The coins of the sample can be chosen. -/
theorem chosenCoins_payment {n : Nat} (hnd : ((paymentCoins n).map Prod.fst).Nodup)
    (active : Bytes → Bool) :
    chosenCoins (chainView paymentLib paymentWallet (paymentChain n) active)
      ((paymentCoins n).map Prod.fst) = .ok (paymentCoins n) := by
  refine chosenCoins_eq fun u hu => ?_
  obtain ⟨i, -, rfl⟩ := List.mem_map.mp hu
  have hlookup := FinMap.lookup_insertAll_of_mem (m := ∅) hnd hu
  have hmem : (⟨9, UInt32.ofNat i⟩, ⟨⟨10000, paymentAddress⟩, 5, false⟩) ∈
      paymentWallet.listUnspent paymentLib (paymentChain n) := by
    have happroved : (paymentChain n).approved = true := rfl
    rw [HdWallet.listUnspent, if_pos happroved]
    refine List.mem_flatMap.mpr ⟨paymentAddress.toList, List.mem_singleton.mpr rfl,
      List.mem_filter.mpr ⟨((paymentChain n).order.mem_visit _ _ _).mpr hlookup, ?_⟩⟩
    rw [Encoding.addressesEqual, canonicalize_paymentAddress]
    rfl
  cases hfind : (paymentWallet.listUnspent paymentLib (paymentChain n)).find?
      (·.1 = (⟨9, UInt32.ofNat i⟩ : OutPoint)) with
  | none => exact absurd (decide_eq_true rfl) (List.find?_eq_none.mp hfind _ hmem)
  | some v =>
      have hkey := List.find?_some hfind
      rw [decide_eq_true_eq] at hkey
      have hfound := (mem_listUnspent (List.mem_of_find?_eq_some hfind)).2.1
      have hlookup' : (paymentChain n).utxo.lookup ⟨9, UInt32.ofNat i⟩ = _ := hlookup
      rw [hkey, hlookup', Option.some_inj] at hfound
      obtain ⟨outpoint, entry⟩ := v
      cases hkey
      cases hfound
      exact hfind

theorem vecOf_of_lt {α : Type} {l : List α} (h : l.length < 2 ^ 64) : vecOf l = .ok ⟨l, h⟩ := by
  rw [vecOf, dif_pos h]

theorem signInputs_payment : ∀ {i : Nat} {selected : List (OutPoint × UTXOEntry)}
    {tx : Transaction}, (∀ u ∈ selected, u.2.output.scriptPubKey = paymentAddress) →
    ∃ tx', signInputs paymentCrypto paymentLib.sha256 paymentSign paymentWallet.toWallet
      [paymentAddress.toList] i selected tx = .ok tx'
  | _, [], tx, _ => ⟨tx, rfl⟩
  | i, (_, entry) :: rest, tx, h => by
      have hscript : canonical paymentLib.sha256 entry.output.scriptPubKey.toList =
          .ok paymentAddress.toList := by
        rw [h _ List.mem_cons_self, canonical, canonicalize_paymentAddress]
      have hkey : signingKey [paymentAddress.toList] paymentAddress.toList = some 0 := by
        decide
      have hsmall : (List.replicate 71 (0x30 : UInt8) ++ 4 :: List.replicate 64 1).length < 2 ^ 64 := by
        rw [List.length_append, List.length_replicate, List.length_cons, List.length_replicate]
        norm_num
      refine Bridge.returns_bind hscript ?_
      rw [hkey]
      exact Bridge.returns_bind (vecOf_of_lt hsmall)
        (signInputs_payment fun u hu => h u (List.mem_cons_of_mem _ hu))

/-- The wallet pays from the coins of the sample. -/
theorem createPayment_payment {n : Nat} (hpos : (paymentCoins n).map Prod.fst ≠ [])
    (hnd : ((paymentCoins n).map Prod.fst).Nodup) (hlt : n < 2 ^ 64) (active : Bytes → Bool)
    (henough : 5000 ≤ sumValues (paymentCoins n))
    (hleft : Constants.dustLimitSats ≤ sumValues (paymentCoins n) - 5000 -
      feeFor 1000 (quotedSize (paymentCoins n).length)) :
    ∃ tx, createPayment paymentCrypto paymentLib.sha256 paymentSign paymentWallet.toWallet
      (chainView paymentLib paymentWallet (paymentChain n) active) (paymentOf n) = .ok tx := by
  have hor : ∀ text, canonicalOr paymentLib.sha256 text paymentAddress.toList =
      .ok paymentAddress.toList := by
    intro text
    rw [canonicalOr, canonicalize_paymentAddress]
  have hvec : vecOf paymentAddress.toList = .ok paymentAddress := by
    rw [vecOf, dif_pos paymentAddress.size_lt]
  have hcoins : coins (chainView paymentLib paymentWallet (paymentChain n) active) (paymentOf n)
      paymentAddress.toList = .ok (paymentCoins n) := by
    rw [coins, paymentOf, if_pos hpos]
    exact chosenCoins_payment hnd active
  have hquoted : estimateSize (paymentCoins n).length [⟨5000, paymentAddress⟩] =
      quotedSize (paymentCoins n).length := by
    rw [estimateSize, quotedSize, List.map_singleton, List.sum_singleton]
    have hlen : paymentAddress.toList.length = 28 := by decide
    simp only [hlen]
    omega
  have hpositive : decide ((paymentOf n).amountSats > 0) = true :=
    (by decide : decide ((5000 : Int64) > 0) = true)
  have hcovers : decide (sumValues (paymentCoins n) ≥ (paymentOf n).amountSats) = true :=
    decide_eq_true henough
  have hnonneg : decide (sumValues (paymentCoins n) - (paymentOf n).amountSats -
      feeFor (paymentOf n).feePerKb (estimateSize (paymentCoins n).length
        [⟨(paymentOf n).amountSats, paymentAddress⟩]) ≥ 0) = true := by
    refine decide_eq_true (Int64.le_trans ?_ (hquoted ▸ hleft))
    decide
  refine Bridge.returns_bind (require_true rfl) (Bridge.returns_bind (require_true hpositive) ?_)
  refine Bridge.returns_bind (hor _) (Bridge.returns_bind hcoins ?_)
  refine Bridge.returns_bind (require_true hcovers) (Bridge.returns_bind hvec ?_)
  refine Bridge.returns_bind (require_true hnonneg) ?_
  have hchange : ∃ out, changeOutputs paymentLib.sha256 paymentWallet.toWallet
      (chainView paymentLib paymentWallet (paymentChain n) active) paymentAddress.toList
      (paymentOf n).changeAddress (sumValues (paymentCoins n) - (paymentOf n).amountSats -
        feeFor (paymentOf n).feePerKb (estimateSize (paymentCoins n).length
          [⟨(paymentOf n).amountSats, paymentAddress⟩])) = .ok [out] := by
    have hdust : sumValues (paymentCoins n) - (paymentOf n).amountSats -
        feeFor (paymentOf n).feePerKb (estimateSize (paymentCoins n).length
          [⟨(paymentOf n).amountSats, paymentAddress⟩]) ≥ Constants.dustLimitSats :=
      hquoted ▸ hleft
    have hscript : changeScript paymentLib.sha256 paymentWallet.toWallet
        (chainView paymentLib paymentWallet (paymentChain n) active) paymentAddress.toList
        (paymentOf n).changeAddress = .ok paymentAddress.toList :=
      hor "invalid change address format"
    rw [changeOutputs, if_pos hdust]
    exact ⟨_, Bridge.bind_eq_ok.mpr ⟨_, hscript, Bridge.bind_eq_ok.mpr ⟨_, hvec, rfl⟩⟩⟩
  obtain ⟨out, hchange⟩ := hchange
  have hcanonical : paymentWallet.addresses.mapM (canonical paymentLib.sha256) =
      .ok [paymentAddress.toList] := by
    rw [paymentWallet, List.mapM_cons, canonical, canonicalize_paymentAddress]
    rfl
  have hinputs : (((paymentCoins n).map fun u =>
      (⟨u.1, ⟨[], by decide⟩, 0xFFFFFFFF⟩ : TxIn))).length < 2 ^ 64 := by
    rw [List.length_map, paymentCoins, List.length_map, List.length_range]
    exact hlt
  have houtputs : ([⟨(paymentOf n).amountSats, paymentAddress⟩, out] : List TxOut).length < 2 ^ 64 := by
    rw [List.length_cons, List.length_singleton]
    norm_num
  refine Bridge.returns_bind hchange (Bridge.returns_bind (if_pos rfl) ?_)
  refine Bridge.returns_bind hcanonical (Bridge.returns_bind (vecOf_of_lt hinputs) ?_)
  refine Bridge.returns_bind (vecOf_of_lt houtputs) (signInputs_payment fun u hu => ?_)
  obtain ⟨i, -, rfl⟩ := List.mem_map.mp hu
  rfl

/-- The draft of the sample spends all coins, with signatures of 71 bytes. -/
theorem draft_payment {n : Nat} (hpos : (paymentCoins n).map Prod.fst ≠ [])
    (hnd : ((paymentCoins n).map Prod.fst).Nodup) {active : Bytes → Bool} {d : Draft}
    (h : draft paymentCrypto paymentLib.sha256 paymentSign paymentWallet.toWallet
      (chainView paymentLib paymentWallet (paymentChain n) active) (paymentOf n) = .ok d) :
    d.selected = paymentCoins n ∧
      d.signedSize paymentLib paymentCrypto paymentSign paymentWallet.toWallet (paymentOf n) =
        47 + 106 * n + 71 * n +
          if Constants.dustLimitSats ≤ sumValues (paymentCoins n) - 5000 -
            feeFor 1000 (quotedSize n) then 37 else 0 := by
  have hselected : d.selected = paymentCoins n := by
    obtain ⟨_, -, h⟩ := Bridge.bind_eq_ok.mp h
    obtain ⟨_, -, h⟩ := Bridge.bind_eq_ok.mp h
    obtain ⟨canonicalTo, -, h⟩ := Bridge.bind_eq_ok.mp h
    obtain ⟨selected, hcoins, h⟩ := Bridge.bind_eq_ok.mp h
    obtain ⟨_, -, h⟩ := Bridge.bind_eq_ok.mp h
    obtain ⟨toScript, -, h⟩ := Bridge.bind_eq_ok.mp h
    obtain ⟨_, -, h⟩ := Bridge.bind_eq_ok.mp h
    obtain ⟨changeOut, -, h⟩ := Bridge.bind_eq_ok.mp h
    obtain ⟨opret, -, h⟩ := Bridge.bind_eq_ok.mp h
    obtain ⟨inputs, -, h⟩ := Bridge.bind_eq_ok.mp h
    obtain ⟨outputs, -, h⟩ := Bridge.bind_eq_ok.mp h
    cases h
    rw [coins, paymentOf, if_pos hpos, chosenCoins_payment hnd] at hcoins
    exact (Except.ok.inj hcoins).symm
  have hcount : d.selected.length = n := by
    rw [hselected, paymentCoins, List.length_map, List.length_range]
  have hlengths : signatureLengths paymentLib paymentCrypto paymentSign paymentWallet.toWallet d =
      List.replicate n 71 := by
    refine List.eq_replicate_iff.mpr ⟨by rw [signatureLengths, List.length_mapIdx, hcount], ?_⟩
    intro k hk
    obtain ⟨i, -, rfl⟩ := List.mem_mapIdx.mp hk
    rfl
  have hchange : d.change (paymentOf n) =
      sumValues (paymentCoins n) - 5000 - feeFor 1000 (quotedSize n) := by
    rw [Draft.change, hcount, hselected]
    rfl
  have hmemo : memoSize paymentCrypto paymentSign paymentWallet.toWallet (paymentOf n) = 0 :=
    if_pos rfl
  have hsum : (List.replicate n 71).sum = 71 * n := by
    rw [List.sum_replicate_nat, Nat.mul_comm]
  refine ⟨hselected, ?_⟩
  rw [Draft.signedSize, hcount, hlengths, hsum, hchange, hmemo, Nat.add_zero]

/-- One coin is spent as the wallet reckons. -/
theorem createPayment_relayed_once : ∃ tx,
    createPayment paymentCrypto paymentLib.sha256 paymentSign paymentWallet.toWallet
      (chainView paymentLib paymentWallet (paymentChain 1) fun _ => false) (paymentOf 1) = .ok tx ∧
    Relayed paymentCrypto (paymentContext 1) (paymentOf 1) tx := by
  have hne : (paymentCoins 1).map Prod.fst ≠ [] := List.cons_ne_nil _ _
  have hnd : ((paymentCoins 1).map Prod.fst).Nodup := List.nodup_singleton _
  obtain ⟨tx, htx⟩ := createPayment_payment hne hnd (by norm_num) (fun _ => false) (by decide)
    (by decide)
  refine ⟨tx, htx, (createPayment_relayed_iff keyPrimitives_payment matched_payment
    (atTip_payment 1) (by decide) (by decide) htx).mpr ?_⟩
  obtain ⟨d, hdraft, -⟩ := signedBy keyPrimitives_payment matched_payment htx
  obtain ⟨hselected, hsize⟩ := draft_payment hne hnd hdraft
  refine ⟨d, hdraft, ?_, ?_, ?_, ?_, ?_, ?_⟩
  · rw [hselected]
    decide
  · rw [hselected]
    exact hnd
  · rw [hselected]
    decide
  · rw [hselected]
    decide
  · rw [hselected, hsize]
    decide
  · rw [hselected]
    decide

/-- Six coins at the lowest rate: the wallet reckons with one kilobyte, the
signed payment has started a second one. -/
theorem not_createPayment_relayed : ¬ ∀ (lib : KeyLib) (c : Crypto)
    (signHash : Hash256 → Bytes → Vec UInt8) (w : HdWallet) (chain : ChainReader)
    (ctx : Mempool.Context) (active : Bytes → Bool) (p : Payment) (tx : Transaction),
    KeyPrimitives lib c signHash → w.Matched lib → AtTip lib chain ctx →
    Constants.dustLimitSats ≤ p.amountSats →
    (Constants.minRelayFeeSatsPerKb : Int) ≤ p.feePerKb.toInt →
    createPayment c lib.sha256 signHash w.toWallet (chainView lib w chain active) p = .ok tx →
    Relayed c ctx p tx := by
  intro hall
  have hne : (paymentCoins 6).map Prod.fst ≠ [] := List.cons_ne_nil _ _
  have hnd : ((paymentCoins 6).map Prod.fst).Nodup := by decide
  obtain ⟨tx, htx⟩ := createPayment_payment hne hnd (by norm_num) (fun _ => false) (by decide)
    (by decide)
  have hrelayed := hall paymentLib paymentCrypto paymentSign paymentWallet (paymentChain 6)
    (paymentContext 6) (fun _ => false) (paymentOf 6) tx keyPrimitives_payment matched_payment
    (atTip_payment 6) (by decide) (by decide) htx
  obtain ⟨d, hdraft, hsigned⟩ := signedBy keyPrimitives_payment matched_payment htx
  obtain ⟨hselected, hsize⟩ := draft_payment hne hnd hdraft
  have hready : Ready paymentLib paymentCrypto paymentSign paymentWallet (paymentChain 6)
      (fun _ => false) (paymentContext 6) (paymentOf 6) d tx :=
    ⟨atTip_payment 6, drafted hdraft, hsigned, (by decide : 71 ≤ 72), by decide, by decide⟩
  have hkilobytes := (hready.fits_of_relayed hrelayed).size
  rw [hselected, hsize] at hkilobytes
  revert hkilobytes
  decide

end Wallet

end Cryptex
