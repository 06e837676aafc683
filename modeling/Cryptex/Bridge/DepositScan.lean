import Cryptex.Bridge.AddressHistory
import Cryptex.Bridge.Mints

/-!
# What a deposit scan records

`scan_native_deposits` against a native node whose chain does not change while
the scan runs. A question may be answered by an exception, which ends the scan.
-/

namespace Cryptex

namespace Bridge

open Interaction Action Encoding

/-- The id of a deposit in the state of the daemon. -/
def DaemonState.Recorded (st : DaemonState) (id : Text) : Prop :=
  st.processedDeposits.contains id = true ∨ st.pendingMints.contains id = true

theorem DaemonState.recorded_putPendingMint {st : DaemonState} {id id' : Text} {entry : MintEntry} :
    (st.putPendingMint id entry).Recorded id' ↔ st.Recorded id' ∨ id' = id := by
  simp only [Recorded, putPendingMint, OrderedDict.contains_iff, OrderedDict.mem_keys_insert]
  tauto

theorem DaemonState.recorded_putProcessedDeposit {st : DaemonState} {id id' : Text}
    {entry : MintEntry} :
    (st.putProcessedDeposit id entry).Recorded id' ↔ st.Recorded id' ∨ id' = id := by
  simp only [Recorded, putProcessedDeposit, OrderedDict.contains_iff, OrderedDict.mem_keys_insert]
  tauto

section Scan

variable (crypto : Crypto) (sha256 : Bytes → Hash256) (evm : Evm) (s : Blockchain)
  (c : BridgeConfig)

/-- The replies of the node are about the one chain, those of `cast` are as
documented. -/
def ScanAnswers : (i : Request) → Reply i → Prop
  | .getAddressTxids address limit, r => ∀ txids, r = .ok txids →
      txids = (s.getAddressTxids crypto sha256 (Text.encodeUtf8 address) false limit).map txidText
  | .getRawTransaction txid, r => ∀ hash json, txid = txidText hash → r = .ok json →
      ∃ info, s.getRawTransaction crypto sha256 hash = some info ∧ info.decode = .ok json
  | i, r => CastAnswers evm i r

/-- An output to the reserve that is to be minted: no coinbase, enough
confirmations, a positive value and a memo with a recipient. -/
structure DepositOutput (d : Deposit) (height : Nat) (tx : Transaction) (out : TxOut) : Prop where
  block : ∃ block, s.getBlock height = some block ∧ tx ∈ block.transactions.toList
  height_le : height ≤ s.bestHeight
  hash : tx.hash crypto = d.txHash
  coinbase : tx.isCoinbase = false
  confirmed : c.depositConfirmations ≤ s.bestHeight - height + 1
  output : tx.outputs.toList[d.index]? = some out
  reserve : addressesEqual sha256 out.scriptPubKey.toList (Text.encodeUtf8 c.reserveAddress) = true
  value : out.value.toInt = d.sats
  positive : 0 < d.sats
  memo : ∃ json, (txToJson sha256 crypto tx).decode = .ok json ∧
    extractRecipient c.depositMemoPrefix json.vout = .ok (some (addressText d.recipient))

def Eligible (d : Deposit) : Prop :=
  ∃ height tx out, DepositOutput crypto sha256 s c d height tx out

/-- An output that is shown with its address, of the transaction that the node
finds under the id. -/
structure Shown (d : Deposit) (height : Nat) (tx : Transaction) (out : TxOut) : Prop
    extends DepositOutput crypto sha256 s c d height tx out where
  found : s.findTransaction crypto d.txHash = some (tx, some height)
  script : out.scriptPubKey.toList.head? ≠ some 0x6a

/-- The deposits that a scan sees: those in the first `scan_limit` transactions
of the reserve. -/
structure Seen (d : Deposit) : Prop where
  shown : ∃ height tx out, Shown crypto sha256 s c d height tx out
  listed : d.txHash ∈ s.getAddressTxids crypto sha256 (Text.encodeUtf8 c.reserveAddress) false
    c.scanLimit

/-- The id as the daemon writes it. -/
def idText (d : Deposit) : Text := Text.ofBytes (d.id evm).toBytes

end Scan

section Transactions

variable {crypto : Crypto} {sha256 : Bytes → Hash256} {evm : Evm} {s : Blockchain}
  {c : BridgeConfig}

theorem findTransaction_some {txid : Hash256} {tx : Transaction} {height : Nat}
    (h : s.findTransaction crypto txid = some (tx, some height)) :
    height ≤ s.bestHeight ∧ tx.hash crypto = txid ∧
      ∃ block, s.getBlock height = some block ∧ tx ∈ block.transactions.toList := by
  rw [Blockchain.findTransaction] at h
  split at h
  · cases h
  · obtain ⟨h', hmem, hfind⟩ := List.exists_of_findSome?_eq_some h
    split at hfind
    · cases hfind
    · next block hblock =>
        obtain ⟨tx', htx', heq⟩ := Option.map_eq_some_iff.mp hfind
        cases heq
        have hhash := List.find?_some htx'
        exact ⟨Nat.lt_succ_iff.mp (List.mem_range.mp hmem), of_decide_eq_true hhash, block, hblock,
          List.mem_of_find?_eq_some htx'⟩

/-- The confirmations play no part in the decoding. -/
theorem decode_confirmations {tx : TxJson Bytes} {k : Option Nat} {json : TxJson Text}
    (h : ({ tx with confirmations := k } : TxJson Bytes).decode = .ok json) :
    tx.decode = .ok { json with confirmations := tx.confirmations } ∧ json.confirmations = k := by
  obtain ⟨txid, htxid, h⟩ := bind_eq_ok.mp h
  obtain ⟨vin, hvin, h⟩ := bind_eq_ok.mp h
  obtain ⟨vout, hvout, h⟩ := bind_eq_ok.mp h
  cases h
  exact ⟨bind_eq_ok.mpr ⟨txid, htxid, bind_eq_ok.mpr ⟨vin, hvin, bind_eq_ok.mpr
    ⟨vout, hvout, rfl⟩⟩⟩, rfl⟩

theorem coinbase_of_decode {tx : TxJson Bytes} {json : TxJson Text} (h : tx.decode = .ok json) :
    json.coinbase = tx.coinbase := by
  obtain ⟨txid, -, h⟩ := bind_eq_ok.mp h
  obtain ⟨vin, -, h⟩ := bind_eq_ok.mp h
  obtain ⟨vout, -, h⟩ := bind_eq_ok.mp h
  cases h
  rfl

/-- The outputs of a reply are those of the transaction. -/
theorem vout_of_decode {tx : Transaction} {json : TxJson Text}
    (h : (txToJson sha256 crypto tx).decode = .ok json) :
    List.Forall₂ (fun (o' : OutputJson Bytes) (o : OutputJson Text) => o.n = o'.n ∧
      o.valueSats = o'.valueSats ∧ decodeField o'.address = .ok o.address)
      (tx.outputs.toList.mapIdx (outputToJson sha256)) json.vout := by
  obtain ⟨txid, -, h⟩ := bind_eq_ok.mp h
  obtain ⟨vin, -, h⟩ := bind_eq_ok.mp h
  obtain ⟨vout, hvout, h⟩ := bind_eq_ok.mp h
  cases h
  refine (mapM_ok hvout).imp fun o' o heq => ?_
  obtain ⟨address, haddress, heq⟩ := bind_eq_ok.mp heq
  obtain ⟨text, -, heq⟩ := bind_eq_ok.mp heq
  cases heq
  exact ⟨rfl, rfl, haddress⟩

theorem outputToJson_n (i : Nat) (out : TxOut) : (outputToJson sha256 i out).n = i := by
  rw [outputToJson]
  split
  · rfl
  · rfl

theorem outputToJson_valueSats (i : Nat) (out : TxOut) :
    (outputToJson sha256 i out).valueSats = out.value.toInt := by
  rw [outputToJson]
  split
  · rfl
  · rfl

theorem decodeField_eq_some_iff {s : Bytes} {t : Text} :
    decodeField (some s) = .ok (some t) ↔ s = Text.encodeUtf8 t := by
  constructor
  · intro h
    rw [decodeField, decodeText] at h
    split at h
    · cases h
    · next t' ht' =>
        cases h
        exact (Text.encodeUtf8_of_decodeUtf8 ht').symm
  · rintro rfl
    rw [decodeField, decodeText_encodeUtf8]
    rfl

/-- The address of an output is the payee's in base 64. -/
theorem addressField_eq_iff {script : Bytes} {p : Payload} :
    addressField sha256 script = base64Encode p.bytes ↔
      canonicalizeAddress sha256 script = some (base64Encode p.bytes) := by
  cases hcanonical : canonicalizeAddress sha256 script with
  | none =>
      have hfield : addressField sha256 script = script := by
        rw [addressField]
        split
        · next hbase64 _ _ =>
            rw [addressTo, hcanonical] at hbase64
            cases hbase64
        · rfl
      rw [hfield]
      refine ⟨fun heq => ?_, fun heq => by cases heq⟩
      rw [heq, canonicalizeAddress_base64 sha256 p] at hcanonical
      cases hcanonical
  | some a =>
      obtain ⟨q, rfl⟩ := canonicalizeAddress_some sha256 hcanonical
      have hwritten : ∀ f : Format, addressTo sha256 f script = some (f.encode sha256 q) := by
        intro f
        have hencode := addressTo_encode sha256 q .base64 f
        have hbase64 : (Format.base64).encode sha256 q = base64Encode q.bytes := rfl
        rw [hbase64] at hencode
        rw [← hencode]
        cases f with
        | base64 => rw [addressTo, addressTo, hcanonical, canonicalizeAddress_base64]
        | base58check | hex | bech32 =>
            rw [addressTo, addressTo, hcanonical, canonicalizeAddress_base64]
            all_goals simp
      have hfield : addressField sha256 script = base64Encode q.bytes := by
        rw [addressField]
        simp only [hwritten]
        rfl
      rw [hfield, Option.some_inj]

/-- The node shows an output to the reserve as one, unless its script begins
like an `OP_RETURN`. -/
theorem shows_reserve_iff {p : Payload}
    (hreserve : Text.encodeUtf8 c.reserveAddress = base64Encode p.bytes) {i : Nat} {out : TxOut} :
    decodeField (outputToJson sha256 i out).address = .ok (some c.reserveAddress) ↔
      addressesEqual sha256 out.scriptPubKey.toList (Text.encodeUtf8 c.reserveAddress) = true ∧
        out.scriptPubKey.toList.head? ≠ some 0x6a := by
  rw [outputToJson]
  simp only
  split
  · next hhead => exact ⟨fun h => (by cases h), fun h => absurd hhead h.2⟩
  · next hhead =>
      rw [decodeField_eq_some_iff, hreserve, addressField_eq_iff, addressesEqual_base64_iff]
      exact ⟨fun h => ⟨h, hhead⟩, fun h => h.1⟩

end Transactions

/-! ## The loops -/

section Loops

variable {crypto : Crypto} {sha256 : Bytes → Hash256} {evm : Evm} {s : Blockchain}
  {c : BridgeConfig} {P : Text → Prop}

/-- What is recorded. -/
def RecordedIs (P : Text → Prop) (d : Daemon) (_ : Unit) : Prop := ∀ id, d.state.Recorded id ↔ P id

/-- From a state that records `P`, an action that returns leaves one that
records `Q`. -/
abbrev Records (crypto : Crypto) (sha256 : Bytes → Hash256) (evm : Evm) (s : Blockchain)
    {α : Type} (P : Text → Prop) (x : Act α) (Q : α → Text → Prop) : Prop :=
  Triple (fun _ i _ r => ScanAnswers crypto sha256 evm s i r) (fun _ => True) (RecordedIs P) x
    (fun a => RecordedIs (Q a)) (fun _ _ _ => True)

theorem records_frame {α : Type} {asks : Request → Prop} {x : Act α} (hx : Frame asks id x) :
    Records crypto sha256 evm s P x (fun _ => P) :=
  .conseq (.of_within hx (fun _ _ _ _ _ _ _ h _ => ⟨trivial, h⟩)
    (fun d d' _ heq h id => by rw [show d'.state = d.state from heq]; exact h id))
    (fun _ _ _ h => h) (fun _ _ _ _ h => h) fun _ _ _ _ _ => trivial

theorem records_setState {f : DaemonState → DaemonState} {Q : Text → Prop}
    (h : ∀ st id, (∀ id, st.Recorded id ↔ P id) → ((f st).Recorded id ↔ Q id)) :
    Records crypto sha256 evm s P (setState f) (fun _ => Q) :=
  .modify fun d _ _ hd id => h d.state id hd

theorem records_put {id : Text} {entry : MintEntry} :
    Records crypto sha256 evm s P (putPendingMint id entry) (fun _ id' => P id' ∨ id' = id) :=
  records_setState fun st id' h => by rw [DaemonState.recorded_putPendingMint, h]

theorem records_time : Records crypto sha256 evm s P (call .time) (fun _ => P) := by
  have hframe : Frame Request.OfDeposits id (call .time) := .request trivial
  exact records_frame hframe

theorem records_enqueueOrSubmitMint {entry : MintEntry} :
    Records crypto sha256 evm s P (enqueueOrSubmitMint c entry)
      (fun _ id => P id ∨ id = entry.depositId) := by
  rw [enqueueOrSubmitMint]
  split
  · exact records_put
  · exact .bind (records_frame frame_submitBridgeMint) fun _ =>
      .bind records_time fun _ => records_put

theorem scanAnswers_cast {i : Request} {r : Reply i} (h : ScanAnswers crypto sha256 evm s i r) :
    CastAnswers evm i r := by
  cases i with
  | castAbiEncode | castKeccak => exact h
  | _ => trivial

theorem records_computeDepositId {hash : Hash256} {n : Nat} {a : Address} {v : Int}
    {txid recipient : Text} (htxid : txid = txidText hash) (hrecipient : recipient = addressText a)
    (hv : 0 < v) :
    Triple (fun _ i _ r => ScanAnswers crypto sha256 evm s i r) (fun _ => True) (RecordedIs P)
      (computeDepositId txid n recipient v)
      (fun depositId d w => RecordedIs P d w ∧ depositId = idText evm ⟨hash, n, a, v.toNat⟩)
      (fun _ _ _ => True) := by
  have hcompute : Triple (fun _ i _ r => ScanAnswers crypto sha256 evm s i r) (fun _ : Unit => True)
      (RecordedIs P) (computeDepositId txid n recipient v)
      (fun depositId d w => RecordedIs P d w ∧
        Printed txid n recipient v (fun d => (d.id evm).toBytes) depositId)
      (fun _ => RecordedIs P) := by
    refine triple_computeDepositId ?_ ?_ ?_
    · intro w i w' r ha
      exact scanAnswers_cast ha
    · intro txid n a v d w w' r _ h _
      exact ⟨trivial, h⟩
    · intro t d w w' r _ h _
      exact ⟨trivial, h⟩
  have hgiven : Deposit.Given ⟨hash, n, a, v.toNat⟩ txid n recipient v :=
    { txid := by rw [htxid]; exact ensureBytes32_txidText hash
      index := rfl
      recipient := by rw [hrecipient]; exact normalizeEvmAddress_addressText a
      sats := (Int.toNat_of_nonneg hv.le).symm }
  exact hcompute.conseq (fun _ _ _ h => h) (fun _ _ _ _ h => ⟨h.1, h.2.eq _ hgiven⟩)
    fun _ _ _ _ _ => trivial

/-- The outputs of a transaction whose ids are recorded. -/
structure OutputId (evm : Evm) (c : BridgeConfig) (hash : Hash256) (a : Address)
    (o : OutputJson Text) (id : Text) : Prop where
  reserve : o.address = some c.reserveAddress
  positive : 0 < o.valueSats
  id : id = idText evm ⟨hash, o.n, a, o.valueSats.toNat⟩

theorem records_scanOutput {hash : Hash256} {a : Address} {txid recipient sender : Text}
    (htxid : txid = txidText hash) (hrecipient : recipient = addressText a) {confirmations : Nat}
    {o : OutputJson Text} :
    Records crypto sha256 evm s P (scanOutput c txid confirmations recipient sender o)
      (fun _ id => P id ∨ OutputId evm c hash a o id) := by
  have hskip : (∀ id, ¬ OutputId evm c hash a o id) → ∀ d w, RecordedIs P d w →
      RecordedIs (fun id => P id ∨ OutputId evm c hash a o id) d w :=
    fun hnot _ _ h id => (h id).trans (or_iff_left (hnot id)).symm
  rw [scanOutput]
  split
  · next haddress => exact .pure fun d w _ h => hskip (fun _ hid => haddress hid.reserve) d w h
  · next haddress =>
      split
      · next hvalue =>
          exact .pure fun d w _ h => hskip (fun _ hid => absurd hid.positive (not_lt.mpr hvalue)) d w h
      · next hvalue =>
          have hid : ∀ id, OutputId evm c hash a o id ↔
              id = idText evm ⟨hash, o.n, a, o.valueSats.toNat⟩ := fun id =>
            ⟨fun h => h.id, fun h => ⟨not_not.mp haddress, Int.not_le.mp hvalue, h⟩⟩
          refine .bind (records_computeDepositId htxid hrecipient (Int.not_le.mp hvalue))
            fun depositId => .of_states fun d w _ h => Triple.to_states ?_ h.1
          simp only [hid, ← h.2]
          refine .bind (m := fun d' d w => d' = d ∧ RecordedIs P d w) (.get fun _ _ _ h => ⟨rfl, h⟩)
            fun d' => ?_
          split
          · next hknown =>
              refine .pure fun d w _ h id => ?_
              obtain ⟨rfl, h⟩ := h
              rw [h id]
              refine (or_iff_left_of_imp fun heq => ?_).symm
              rw [heq, ← h depositId]
              exact Bool.or_eq_true_iff.mp hknown
          · have hdrop : ∀ d w, d' = d ∧ RecordedIs P d w → RecordedIs P d w := fun _ _ h => h.2
            refine .conseq ?_ (fun d w _ h => hdrop d w h) (fun _ _ _ _ h => h) fun _ _ _ _ h => h
            refine .bind (records_frame frame_contractIsProcessedDeposit) fun processed => ?_
            split
            · exact records_setState fun st id h => by
                rw [DaemonState.recorded_putProcessedDeposit, h]
            · exact records_enqueueOrSubmitMint

/-- The ids of the deposits of one transaction that the node shows. -/
def ShownIn (crypto : Crypto) (sha256 : Bytes → Hash256) (evm : Evm) (s : Blockchain)
    (c : BridgeConfig) (hash : Hash256) (id : Text) : Prop :=
  ∃ d, d.txHash = hash ∧ (∃ height tx out, Shown crypto sha256 s c d height tx out) ∧
    id = idText evm d

variable {hash : Hash256} {tx : Transaction} {json : TxJson Text}

/-- They are outputs of the transaction that the node finds. -/
theorem ShownIn.of_found {located : Option (Transaction × Option Nat)} {id : Text}
    (hfound : s.findTransaction crypto hash = located)
    (h : ShownIn crypto sha256 evm s c hash id) : ∃ d height tx out,
      located = some (tx, some height) ∧ d.txHash = hash ∧
        DepositOutput crypto sha256 s c d height tx out ∧
        out.scriptPubKey.toList.head? ≠ some 0x6a ∧ id = idText evm d := by
  obtain ⟨d, rfl, ⟨height, tx, out, hd⟩, hid⟩ := h
  exact ⟨d, height, tx, out, hfound.symm.trans hd.found, rfl, hd.toDepositOutput, hd.script, hid⟩

/-- The outputs of the reply are the deposits that are shown. -/
theorem exists_outputId_iff {p : Payload}
    (hreserve : Text.encodeUtf8 c.reserveAddress = base64Encode p.bytes) {height : Nat}
    {a : Address} (hfound : s.findTransaction crypto hash = some (tx, some height))
    (hdecode : (txToJson sha256 crypto tx).decode = .ok json) (hcoinbase : tx.isCoinbase = false)
    (hconfirmed : c.depositConfirmations ≤ s.bestHeight - height + 1)
    (hmemo : extractRecipient c.depositMemoPrefix json.vout = .ok (some (addressText a)))
    {id : Text} : (∃ o ∈ json.vout, OutputId evm c hash a o id) ↔
      ShownIn crypto sha256 evm s c hash id := by
  have hvout := vout_of_decode hdecode
  obtain ⟨hheight, hhash, block, hblock, htx⟩ := findTransaction_some hfound
  constructor
  · rintro ⟨o, ho, hid⟩
    obtain ⟨o', ho', hn, hvalue, haddress⟩ := exists_of_forall₂ hvout ho
    obtain ⟨i, hi⟩ := List.mem_iff_getElem?.mp ho'
    rw [List.getElem?_mapIdx] at hi
    obtain ⟨out, hout, rfl⟩ := Option.map_eq_some_iff.mp hi
    rw [outputToJson_n] at hn
    rw [outputToJson_valueSats] at hvalue
    rw [hid.reserve] at haddress
    obtain ⟨hpays, hscript⟩ := (shows_reserve_iff hreserve).mp haddress
    have hpos := hid.positive
    refine ⟨⟨hash, o.n, a, o.valueSats.toNat⟩, rfl, ⟨height, tx, out, ?_⟩, hid.id⟩
    exact
      { block := ⟨block, hblock, htx⟩
        height_le := hheight
        hash := hhash
        coinbase := hcoinbase
        confirmed := hconfirmed
        output := hn ▸ hout
        reserve := hpays
        value := by simp only; omega
        positive := by simp only; omega
        memo := ⟨json, hdecode, hmemo⟩
        found := hfound
        script := hscript }
  · intro h
    obtain ⟨d, height', tx', out, hlocated, rfl, hd, hscript, hid⟩ := h.of_found hfound
    obtain ⟨rfl, rfl⟩ : tx = tx' ∧ height = height' := by
      cases hlocated
      exact ⟨rfl, rfl⟩
    obtain ⟨json', hdecode', hmemo'⟩ := hd.memo
    obtain rfl : json = json' := Except.ok.inj (hdecode.symm.trans hdecode')
    have hrecipient : a = d.recipient :=
      addressText_injective (Option.some.inj (Except.ok.inj (hmemo.symm.trans hmemo')))
    have hmem : outputToJson sha256 d.index out
        ∈ tx.outputs.toList.mapIdx (outputToJson sha256) := by
      refine List.mem_iff_getElem?.mpr ⟨d.index, ?_⟩
      rw [List.getElem?_mapIdx, hd.output, Option.map_some]
    obtain ⟨o, ho, hn, hvalue, haddress⟩ := exists_of_forall₂ hvout.flip hmem
    rw [outputToJson_n] at hn
    rw [outputToJson_valueSats, hd.value] at hvalue
    rw [(shows_reserve_iff hreserve).mpr ⟨hd.reserve, hscript⟩] at haddress
    have hpos := hd.positive
    refine ⟨o, ho, (Except.ok.inj haddress).symm, by omega, ?_⟩
    rw [hid, hn, hvalue, Int.toNat_natCast, hrecipient]

/-- What a reply says of the transaction that the node finds. -/
structure Reported (crypto : Crypto) (sha256 : Bytes → Hash256) (s : Blockchain)
    (json : TxJson Text) (tx : Transaction) (height : Option Nat) : Prop where
  decode : (txToJson sha256 crypto tx).decode = .ok { json with confirmations := none }
  confirmations : json.confirmations.getD 0 =
    match height with
    | none => 0
    | some height => s.bestHeight - height + 1

theorem records_fetch {txid : Text} (htxid : txid = txidText hash) :
    Triple (fun _ i _ r => ScanAnswers crypto sha256 evm s i r) (fun _ => True) (RecordedIs P)
      (fetchNativeTransaction txid false)
      (fun json d w => RecordedIs P d w ∧ ∃ tx height,
        s.findTransaction crypto hash = some (tx, height) ∧ Reported crypto sha256 s json tx height)
      (fun _ _ _ => True) := by
  refine .bind (m := fun _ => RecordedIs P) (.get fun _ _ _ h => h) fun d => ?_
  split
  · next hcached => cases hcached
  · refine .bind (m := fun json d w => RecordedIs P d w ∧ ∃ tx height,
        s.findTransaction crypto hash = some (tx, height) ∧ Reported crypto sha256 s json tx height)
      (.request ?_ ?_) fun json => ?_
    · intro d w w' json _ h ha
      obtain ⟨info, hinfo, hdecode⟩ := ha hash json htxid rfl
      obtain ⟨⟨tx, height⟩, hfound, rfl⟩ := Option.map_eq_some_iff.mp hinfo
      obtain ⟨hdecode, hconfirmations⟩ := decode_confirmations hdecode
      refine ⟨trivial, h, tx, height, hfound, hdecode, ?_⟩
      rw [hconfirmations]
      cases height with
      | none => rfl
      | some height => rfl
    · exact fun _ _ _ _ _ _ _ => ⟨trivial, trivial⟩
    · refine .bind (m := fun _ d w => RecordedIs P d w ∧ ∃ tx height,
          s.findTransaction crypto hash = some (tx, height) ∧
            Reported crypto sha256 s json tx height)
        (.modify fun d w _ h => ?_) fun _ => .pure fun _ _ _ h => h
      rw [if_neg Bool.false_ne_true]
      exact h

/-- A loop records what its rounds record. -/
theorem records_forEach {α : Type} {body : α → Act Unit} {ids : α → Text → Prop} :
    ∀ {l : List α} {P : Text → Prop}, (∀ a ∈ l, ∀ P,
      Records crypto sha256 evm s P (body a) (fun _ id => P id ∨ ids a id)) →
    Records crypto sha256 evm s P (forEach l body) (fun _ id => P id ∨ ∃ a ∈ l, ids a id)
  | [], P, _ => .pure fun d w _ h id =>
      (h id).trans (or_iff_left (by rintro ⟨a, ha, -⟩; cases ha)).symm
  | a :: l, P, hbody => by
      have hrest := records_forEach (P := fun id => P id ∨ ids a id) (l := l) fun b hb =>
        hbody b (List.mem_cons_of_mem _ hb)
      refine .bind (hbody a List.mem_cons_self P) fun _ => hrest.conseq (fun _ _ _ h => h)
        (fun _ d w _ h id => (h id).trans ?_) fun _ _ _ _ h => h
      simp only [or_assoc, List.mem_cons, exists_eq_or_imp]

/-- Nothing is recorded for a transaction that is passed over. -/
theorem records_skip {α : Type} {a : α} {Q : Text → Prop} (h : ∀ id, ¬ Q id) :
    Records crypto sha256 evm s P (Pure.pure a) (fun _ id => P id ∨ Q id) :=
  .pure fun _ _ _ hrecorded id => (hrecorded id).trans (or_iff_left (h id)).symm

theorem records_scanTransaction {p : Payload}
    (hreserve : Text.encodeUtf8 c.reserveAddress = base64Encode p.bytes) {txid : Text}
    (htxid : txid = txidText hash) :
    Records crypto sha256 evm s P (scanTransaction c txid)
      (fun _ id => P id ∨ ShownIn crypto sha256 evm s c hash id) := by
  refine .bind (records_fetch htxid) fun json => .of_states fun d w _ h => ?_
  obtain ⟨hrecorded, tx, height, hfound, hreported⟩ := h
  refine Triple.to_states ?_ hrecorded
  have hcoinbase := coinbase_of_decode hreported.decode
  simp only at hcoinbase
  dsimp only
  split
  · next hfew =>
      refine records_skip fun id hid => ?_
      obtain ⟨d, height', tx', out, hlocated, -, hd, -⟩ := hid.of_found hfound
      cases hlocated
      rw [hreported.confirmations] at hfew
      exact absurd hd.confirmed (Nat.not_le.mpr hfew)
  · next henough =>
      split
      · next hcb =>
          refine records_skip fun id hid => ?_
          obtain ⟨d, height', tx', out, hlocated, -, hd, -⟩ := hid.of_found hfound
          cases hlocated
          rw [hcoinbase] at hcb
          exact Bool.false_ne_true (hd.coinbase.symm.trans hcb)
      · next hcb =>
          refine .bind (m := fun recipient d w => RecordedIs P d w ∧
              extractRecipient c.depositMemoPrefix json.vout = .ok recipient)
            (.lift (fun _ _ _ heq _ h => ⟨h, heq⟩) fun _ _ _ _ _ _ => trivial)
            fun recipient => .of_states fun d w _ h => ?_
          obtain ⟨hrecorded, hmemo⟩ := h
          refine Triple.to_states ?_ hrecorded
          cases recipient with
          | none =>
              refine records_skip fun id hid => ?_
              obtain ⟨d, height', tx', out, hlocated, -, hd, -⟩ := hid.of_found hfound
              cases hlocated
              obtain ⟨json', hdecode, hmemo'⟩ := hd.memo
              obtain rfl := Except.ok.inj (hreported.decode.symm.trans hdecode)
              cases hmemo.symm.trans hmemo'
          | some recipient =>
              obtain ⟨a, ha⟩ := extractRecipient_some hmemo
              obtain ⟨height, rfl⟩ : ∃ h, height = some h := by
                cases height with
                | none =>
                    rw [hreported.confirmations] at henough
                    exact absurd c.one_le_depositConfirmations henough
                | some h => exact ⟨h, rfl⟩
              have hconfirmed : c.depositConfirmations ≤ s.bestHeight - height + 1 := by
                rw [hreported.confirmations] at henough
                exact Nat.le_of_not_lt henough
              have hids : ∀ id, (∃ o ∈ json.vout, OutputId evm c hash a o id) ↔
                  ShownIn crypto sha256 evm s c hash id := fun id =>
                exists_outputId_iff hreserve hfound hreported.decode
                  (hcoinbase.symm.trans (Bool.eq_false_iff.mpr hcb)) hconfirmed (ha ▸ hmemo)
              have hsenders : Frame Request.OfSenders id (extractSenderReference json) :=
                frame_extractSenderReference fun _ => True.intro
              refine .bind (records_frame hsenders) fun sender => ?_
              have hloop : Records crypto sha256 evm s P (forEach json.vout
                  (scanOutput c txid (json.confirmations.getD 0) recipient sender))
                  (fun _ id => P id ∨ ∃ o ∈ json.vout, OutputId evm c hash a o id) :=
                records_forEach fun o _ P => records_scanOutput htxid ha
              simp only [hids] at hloop
              exact hloop

theorem txidText_injective : Function.Injective txidText := fun _ _ h =>
  Hash256.toBytes_injective (hexDigits_injective h)

theorem records_scanNativeDeposits {p : Payload}
    (hreserve : Text.encodeUtf8 c.reserveAddress = base64Encode p.bytes) :
    Records crypto sha256 evm s P (scanNativeDeposits c)
      (fun _ id => P id ∨ ∃ d, Seen crypto sha256 s c d ∧ id = idText evm d) := by
  refine .bind (m := fun txids d w => RecordedIs P d w ∧ txids = (s.getAddressTxids crypto sha256
      (Text.encodeUtf8 c.reserveAddress) false c.scanLimit).map txidText)
    (.request (fun d w w' txids _ h ha => ⟨trivial, h, ha txids rfl⟩)
      fun _ _ _ _ _ _ _ => ⟨trivial, trivial⟩) fun txids => .of_states fun d w _ h => ?_
  obtain ⟨hrecorded, htxids⟩ := h
  refine Triple.to_states ?_ hrecorded
  have hloop : Records crypto sha256 evm s P (forEach txids (scanTransaction c))
      (fun _ id => P id ∨ ∃ txid ∈ txids, ∃ hash, txid = txidText hash ∧
        ShownIn crypto sha256 evm s c hash id) := by
    refine records_forEach fun txid htxid P => ?_
    rw [htxids] at htxid
    obtain ⟨hash, -, heq⟩ := List.mem_map.mp htxid
    refine (records_scanTransaction hreserve heq.symm).conseq (fun _ _ _ h => h)
      (fun _ d w _ h id => (h id).trans (or_congr_right ?_)) fun _ _ _ _ h => h
    constructor
    · exact fun h => ⟨hash, heq.symm, h⟩
    · rintro ⟨hash', heq', h⟩
      rw [txidText_injective (heq.trans heq')]
      exact h
  refine hloop.conseq (fun _ _ _ h => h) (fun _ d w _ h id => (h id).trans (or_congr_right ?_))
    fun _ _ _ _ h => h
  rw [htxids]
  constructor
  · rintro ⟨txid, hmem, hash, htxid, e, hhash, hshown, hid⟩
    obtain ⟨hash', hlisted, heq⟩ := List.mem_map.mp hmem
    refine ⟨e, ⟨hshown, ?_⟩, hid⟩
    rw [hhash, ← txidText_injective (heq.trans htxid)]
    exact hlisted
  · rintro ⟨e, hseen, hid⟩
    exact ⟨_, List.mem_map_of_mem hseen.listed, e.txHash, rfl, e, rfl, hseen.shown, hid⟩

end Loops

/-! ## A scan that returns -/

section Runs

variable {crypto : Crypto} {sha256 : Bytes → Hash256} {evm : Evm} {s : Blockchain}
  {c : BridgeConfig} {o : Prog.Oracle Request Reply} {d d' : Daemon} {p : Payload}

/-- A scan that returns adds the ids of the deposits that it sees, and no
others. -/
theorem recorded_after_scan (hreserve : Text.encodeUtf8 c.reserveAddress = base64Encode p.bytes)
    (hanswers : ∀ h i, ScanAnswers crypto sha256 evm s i (o h i))
    (hrun : (scanNativeDeposits c d).run o [] = (.ok (), d')) (id : Text) :
    d'.state.Recorded id ↔
      d.state.Recorded id ∨ ∃ e, Seen crypto sha256 s c e ∧ id = idText evm e := by
  have hrecords : Records crypto sha256 evm s d.state.Recorded (scanNativeDeposits c) _ :=
    records_scanNativeDeposits hreserve
  have hpost := (hrecords d () trivial fun _ => Iff.rfl).run (h := []) hanswers
  rw [hrun] at hpost
  exact hpost id

/-- While the reserve has no more transactions than the scan asks for, every
deposit that the node shows is seen. -/
theorem Shown.seen {e : Deposit} {height : Nat} {tx : Transaction} {out : TxOut}
    (hreserve : Text.encodeUtf8 c.reserveAddress = base64Encode p.bytes)
    (h : Shown crypto sha256 s c e height tx out)
    (hfew : (s.addressTxids crypto sha256 (Text.encodeUtf8 c.reserveAddress) false).length
      ≤ c.scanLimit) : Seen crypto sha256 s c e := by
  refine ⟨⟨height, tx, out, h⟩, ?_⟩
  obtain ⟨block, hblock, htx⟩ := h.block
  have hcanonical := canonicalizeAddress_base64 sha256 p
  rw [← hreserve] at hcanonical
  rw [Blockchain.getAddressTxids, List.take_of_length_le hfew, ← h.hash]
  exact Blockchain.mem_addressTxids hcanonical h.height_le hblock htx
    ⟨out, List.mem_of_getElem? h.output, h.reserve⟩ false

/-- The deposits that a scan misses are those in a transaction after the first
`scan_limit` ones of the reserve, those whose script begins with 0x6a, and
those in a transaction that the node finds in the pool or at another place. -/
theorem scanNativeDeposits_complete_iff
    (hreserve : Text.encodeUtf8 c.reserveAddress = base64Encode p.bytes)
    (hanswers : ∀ h i, ScanAnswers crypto sha256 evm s i (o h i))
    (hrun : (scanNativeDeposits c d).run o [] = (.ok (), d')) :
    (∀ e, Eligible crypto sha256 s c e → d'.state.Recorded (idText evm e)) ↔
      ∀ e, Eligible crypto sha256 s c e → d.state.Recorded (idText evm e) ∨
        ∃ e', Seen crypto sha256 s c e' ∧ idText evm e = idText evm e' :=
  forall₂_congr fun e _ => recorded_after_scan hreserve hanswers hrun (idText evm e)

end Runs

/-! ## Samples -/

theorem encodeUtf8_hexDigits : ∀ data : Bytes, Text.encodeUtf8 (Text.hexDigits data) = hexEncode data
  | [] => rfl
  | b :: rest => by
      have hchar : ∀ d < 16, String.utf8EncodeChar (Text.hexDigit d) = [hexChar d] := by decide
      have hb := b.toNat_lt
      have hhigh : (b.toNat >>> 4) &&& 0x0F = b.toNat / 16 := by
        rw [Nat.shiftRight_eq_div_pow, Nat.and_two_pow_sub_one_eq_mod _ 4]
        omega
      have hlow : b.toNat &&& 0x0F = b.toNat % 16 := Nat.and_two_pow_sub_one_eq_mod _ 4
      have hrest := encodeUtf8_hexDigits rest
      rw [Text.encodeUtf8] at hrest ⊢
      rw [Text.hexDigits, List.flatMap_cons, List.flatMap_cons, hchar _ (by omega),
        hchar _ (by omega), hrest, hexEncode, hexEncode, List.flatMap_cons, hhigh, hlow]
      rfl

/-- The `n`th reward of a miner who mines for the reserve. -/
def rewardTx (n : Nat) : Transaction where
  version := 1
  inputs := ⟨[⟨⟨0, 0xFFFFFFFF⟩, ⟨[UInt8.ofNat n], by simp⟩, 0xFFFFFFFF⟩], by simp⟩
  outputs := ⟨[⟨5000, ⟨base64Encode (List.replicate 19 0 ++ [1]), reserveScript_fits⟩⟩], by decide⟩
  lockTime := 0

/-- Digests that tell the transactions of the samples apart. -/
def scanDigest (data : Bytes) : Hash512 :=
  if data = sampleDepositTx.serialize then depositCrypto.sha3_512 data
  else BitVec.ofNat 512 (data.foldl (fun h b => 257 * h + b.toNat) 1 * 2 ^ 256)

def scanCrypto : Crypto := { depositCrypto with sha3_512 := scanDigest }

theorem scanDigest_of_eq {data : Bytes} (h : data = sampleDepositTx.serialize) :
    scanDigest data = depositCrypto.sha3_512 data := if_pos h

theorem hash_scanCrypto {tx : Transaction} (h : tx = sampleDepositTx) :
    tx.hash scanCrypto = tx.hash depositCrypto := by
  rw [Transaction.hash, Transaction.hash, Crypto.hash256, Crypto.hash256]
  exact congrArg Hash512.first (scanDigest_of_eq (congrArg Transaction.serialize h))

/-- The reserve has received rewards at the heights up to `k`, and at the
height `k` also the deposit of the samples. -/
def rewardedChain (k : Nat) : Blockchain where
  store :=
    { heightFiles := FinMap.insertAll ∅ ((List.range (k + 1)).map fun n =>
        (n, ⟨{}, ⟨if n = k then [rewardTx n, sampleDepositTx] else [rewardTx n], by
          split <;> simp⟩⟩))
      hashFiles := ∅ }
  files := ⟨none, none, none, none, none, none⟩
  utxo := ∅
  mempool := .empty
  bestHeight := k + 8
  tipHash := 0
  tipBits := 0
  heightMap := []
  index := ∅
  linkIndex := ∅
  heightIndex := ∅
  chainWork := ∅
  children := ∅
  blockPool := ∅
  blockHeight := ∅
  localCheckpoint := none
  manualCheckpointPinned := false
  syncApproval := none

def rewardOutput : OutputJson Text where
  n := 0
  valueSats := 5000
  address := some sampleConfig.reserveAddress
  opReturnText := none

def rewardJson (txid : Text) (confirmations : Nat) : TxJson Text where
  txid := txid
  coinbase := true
  vin := [{ txid := txidText 0, vout := 0xFFFFFFFF }]
  vout := [rewardOutput]
  confirmations := some confirmations

/-- The ids of the rewarded chain. -/
def rewardedTxids (k : Nat) : List Hash256 :=
  (List.range (k + 1)).map (fun n => (rewardTx n).hash scanCrypto) ++ [sampleDeposit.txHash]

def rewardedOutside (k : Nat) : Prog.Oracle Request Reply := fun _ i =>
  match i with
  | .getAddressTxids address limit =>
      if address = sampleConfig.reserveAddress ∧ limit = 25 then
        .ok (((rewardedTxids k).take 25).map txidText)
      else .error .osError
  | .getRawTransaction txid =>
      match (List.range (k + 1)).find? fun n => txid = txidText ((rewardTx n).hash scanCrypto) with
      | some n => .ok (rewardJson txid (k + 8 - n + 1))
      | none =>
          if txid = txidText sampleDeposit.txHash then .ok { sampleJson with confirmations := some 9 }
          else .error .osError
  | i => (depositAnswer .initial i).2

theorem rewardTx_json {n confirmations : Nat} {hash : Hash256} {txid : Text}
    (hhash : (rewardTx n).hash scanCrypto = hash) (htxid : txid = txidText hash) :
    { txToJson (fun _ => 0) scanCrypto (rewardTx n) with confirmations := some confirmations }
      = (rewardJson txid confirmations).encode := by
  have haddress : addressField (fun _ => 0) (base64Encode (List.replicate 19 0 ++ [1]))
      = base64Encode (List.replicate 19 0 ++ [1]) := addressField_base64 _ ⟨_, rfl⟩
  have hvout : outputToJson (fun _ => 0) 0
      ⟨5000, ⟨base64Encode (List.replicate 19 0 ++ [1]), by decide⟩⟩
      = { n := 0
          valueSats := 5000
          address := rewardOutput.address.map Text.encodeUtf8
          opReturnText := none } := by
    rw [outputToJson, if_neg (by decide), haddress]
    decide
  have hjson : txToJson (fun _ => 0) scanCrypto (rewardTx n)
      = { txid := hexEncode (Hash256.toBytes ((rewardTx n).hash scanCrypto))
          coinbase := true
          vin := [{ txid := hexEncode (Hash256.toBytes 0), vout := 0xFFFFFFFF }]
          vout := [outputToJson (fun _ => 0) 0
            ⟨5000, ⟨base64Encode (List.replicate 19 0 ++ [1]), by decide⟩⟩]
          confirmations := none } := rfl
  have hencode : ∀ hash : Hash256, hexEncode hash.toBytes = Text.encodeUtf8 (txidText hash) :=
    fun hash => (encodeUtf8_hexDigits _).symm
  rw [hjson, hvout, hhash, hencode, hencode, ← htxid]
  generalize hzero : txidText 0 = zero
  rw [rewardJson, hzero]
  rfl

theorem scanCrypto_json : txToJson (fun _ => 0) scanCrypto sampleDepositTx = sampleJson.encode := by
  rw [← sampleDepositTx_json, txToJson, txToJson, hash_scanCrypto rfl]

/-- The rewarded chain is what its outside tells. -/
theorem rewardedOutside_answers {k : Nat}
    (htxs : (rewardedChain k).chainTransactions
      = (List.range (k + 1)).map rewardTx ++ [sampleDepositTx])
    (hfind : ∀ n < k + 1, (rewardedChain k).findTransaction scanCrypto ((rewardTx n).hash scanCrypto)
      = some (rewardTx n, some n))
    (hdeposit : (rewardedChain k).findTransaction scanCrypto sampleDeposit.txHash
      = some (sampleDepositTx, some k)) (h : List Request) (i : Request) :
    ScanAnswers scanCrypto (fun _ => 0) depositEvm (rewardedChain k) i (rewardedOutside k h i) := by
  cases i with
  | getAddressTxids address limit =>
      intro txids hr
      obtain ⟨⟨rfl, rfl⟩, rfl⟩ := ite_eq_ok hr
      have hreserve : Text.encodeUtf8 sampleConfig.reserveAddress
          = base64Encode (⟨List.replicate 19 0 ++ [1], rfl⟩ : Payload).bytes := by decide
      have hpays : ∀ tx ∈ (rewardedChain k).chainTransactions, ∃ out ∈ tx.outputs.toList,
          addressesEqual (fun _ => 0) out.scriptPubKey.toList
            (base64Encode (⟨List.replicate 19 0 ++ [1], rfl⟩ : Payload).bytes) = true := by
        intro tx htx
        have hfirst : ∃ out ∈ tx.outputs.toList, out.scriptPubKey.toList
            = base64Encode (⟨List.replicate 19 0 ++ [1], rfl⟩ : Payload).bytes := by
          rw [htxs] at htx
          rcases List.mem_append.mp htx with htx | htx
          · obtain ⟨n, -, rfl⟩ := List.mem_map.mp htx
            exact ⟨_, List.mem_cons_self, rfl⟩
          · rw [List.mem_singleton.mp htx]
            exact ⟨_, List.mem_cons_self, rfl⟩
        obtain ⟨out, hout, hscript⟩ := hfirst
        exact ⟨out, hout, addressesEqual_base64_iff.mpr
          (by rw [hscript]; exact canonicalizeAddress_base64 _ _)⟩
      have hhash : sampleDepositTx.hash scanCrypto = sampleDeposit.txHash := by
        rw [hash_scanCrypto rfl]
        decide +kernel
      rw [Blockchain.getAddressTxids, Blockchain.addressTxids, hreserve,
        canonicalizeAddress_base64, collectTxids_eq_map, if_neg Bool.false_ne_true,
        List.append_nil, htxs, List.map_append, List.map_map, List.map_singleton, hhash]
      · rfl
      · rwa [if_neg Bool.false_ne_true, List.append_nil]
  | getRawTransaction txid =>
      intro hash json htxid hr
      rw [rewardedOutside] at hr
      simp only at hr
      split at hr
      · next n hn =>
          cases hr
          have hmem := List.mem_range.mp (List.mem_of_find?_eq_some hn)
          have hsome := List.find?_some hn
          have heq : txid = txidText ((rewardTx n).hash scanCrypto) := of_decide_eq_true hsome
          have hhash := txidText_injective (htxid.symm.trans heq)
          refine ⟨_, ?_, TxJson.decode_encode _⟩
          rw [Blockchain.getRawTransaction, hhash, hfind n hmem, Option.map_some,
            ← rewardTx_json rfl heq]
          rfl
      · obtain ⟨heq, rfl⟩ := ite_eq_ok hr
        have hhash := txidText_injective (htxid.symm.trans heq)
        refine ⟨{ sampleJson.encode with confirmations := some 9 }, ?_,
          TxJson.decode_encode { sampleJson with confirmations := some 9 }⟩
        rw [Blockchain.getRawTransaction, hhash, hdeposit, Option.map_some, scanCrypto_json]
        have hheight : (rewardedChain k).bestHeight - k + 1 = 9 := by
          show k + 8 - k + 1 = 9
          omega
        simp only [hheight]
  | castAbiEncode txid n a v => exact (depositAnswer_answers .initial (.castAbiEncode txid n a v)).cast
  | castKeccak t => exact (depositAnswer_answers .initial (.castKeccak t)).cast
  | _ => trivial

/-- The deposit of the rewarded chain is one that the bridge is to mint. -/
theorem eligible_sampleDeposit {k : Nat}
    (hdeposit : (rewardedChain k).findTransaction scanCrypto sampleDeposit.txHash
      = some (sampleDepositTx, some k)) :
    Eligible scanCrypto (fun _ => 0) (rewardedChain k) sampleConfig sampleDeposit := by
  obtain ⟨hheight, hhash, hblock⟩ := findTransaction_some hdeposit
  have hreserve : Text.encodeUtf8 sampleConfig.reserveAddress
      = base64Encode (⟨List.replicate 19 0 ++ [1], rfl⟩ : Payload).bytes := by decide
  refine ⟨k, sampleDepositTx, ⟨100000, ⟨base64Encode (List.replicate 19 0 ++ [1]), by decide⟩⟩, ?_⟩
  exact
    { block := hblock
      height_le := hheight
      hash := hhash
      coinbase := rfl
      confirmed := by
        show 6 ≤ k + 8 - k + 1
        omega
      output := rfl
      reserve := by
        rw [hreserve]
        exact addressesEqual_base64_iff.mpr
          (canonicalizeAddress_base64 _ ⟨List.replicate 19 0 ++ [1], rfl⟩)
      value := rfl
      positive := by decide
      memo := ⟨sampleJson, by rw [scanCrypto_json]; exact TxJson.decode_encode _, by decide⟩ }

theorem eq_of_fst {α β : Type} {x : α × β} {a : α} (h : x.1 = a) : x = (a, x.2) := by rw [← h]

/-- A daemon without deposits. -/
def freshDaemon : Daemon := ⟨.initial sampleConfig, .empty⟩

/-- A deposit behind twenty-five rewards is not recorded. -/
theorem not_scanNativeDeposits_complete : ∃ crypto sha256 evm s c p o d d',
    Text.encodeUtf8 c.reserveAddress = base64Encode (p : Payload).bytes ∧
      (∀ h i, ScanAnswers crypto sha256 evm s i (o h i)) ∧
      (scanNativeDeposits c d).run o [] = (.ok (), d') ∧
      ¬ ∀ e, Eligible crypto sha256 s c e → d'.state.Recorded (idText evm e) := by
  have hdeposit : (rewardedChain 24).findTransaction scanCrypto sampleDeposit.txHash
      = some (sampleDepositTx, some 24) := by decide +kernel
  have hanswers := rewardedOutside_answers (k := 24) (by decide +kernel) (by decide +kernel) hdeposit
  -- the answer, and whether the deposit is listed anywhere
  have hend : (fun r : Except PyError Unit × Daemon => (r.1,
      r.2.state.processedDeposits.contains (idText depositEvm sampleDeposit) ||
        r.2.state.pendingMints.contains (idText depositEvm sampleDeposit)))
        ((scanNativeDeposits sampleConfig freshDaemon).run (rewardedOutside 24) [])
      = (.ok (), false) := by decide +kernel
  obtain ⟨hok, hnone⟩ := Prod.mk.inj hend
  refine ⟨scanCrypto, fun _ => 0, depositEvm, rewardedChain 24, sampleConfig,
    ⟨List.replicate 19 0 ++ [1], rfl⟩, rewardedOutside 24, freshDaemon, _, by decide +kernel,
    hanswers, eq_of_fst hok, fun h => ?_⟩
  have hrecorded := h sampleDeposit (eligible_sampleDeposit hdeposit)
  rw [Bool.or_eq_false_iff] at hnone
  rcases hrecorded with hrecorded | hrecorded
  · exact Bool.false_ne_true (hnone.1.symm.trans hrecorded)
  · exact Bool.false_ne_true (hnone.2.symm.trans hrecorded)

/-- A deposit behind one reward is recorded. -/
theorem scanNativeDeposits_complete_iff_sample : ∃ d',
    (scanNativeDeposits sampleConfig freshDaemon).run (rewardedOutside 0) [] = (.ok (), d') ∧
      d'.state.pendingMints.keys = [idText depositEvm sampleDeposit] ∧
      ((∀ e, Eligible scanCrypto (fun _ => 0) (rewardedChain 0) sampleConfig e →
          d'.state.Recorded (idText depositEvm e)) ↔
        ∀ e, Eligible scanCrypto (fun _ => 0) (rewardedChain 0) sampleConfig e →
          freshDaemon.state.Recorded (idText depositEvm e) ∨
            ∃ e', Seen scanCrypto (fun _ => 0) (rewardedChain 0) sampleConfig e' ∧
              idText depositEvm e = idText depositEvm e') := by
  have hanswers := rewardedOutside_answers (k := 0) (by decide +kernel) (by decide +kernel)
    (by decide +kernel)
  have hreserve : Text.encodeUtf8 sampleConfig.reserveAddress
      = base64Encode (⟨List.replicate 19 0 ++ [1], rfl⟩ : Payload).bytes := by decide
  have hend : (fun r : Except PyError Unit × Daemon => (r.1, r.2.state.pendingMints.keys))
        ((scanNativeDeposits sampleConfig freshDaemon).run (rewardedOutside 0) [])
      = (.ok (), [idText depositEvm sampleDeposit]) := by decide +kernel
  obtain ⟨hok, hkeys⟩ := Prod.mk.inj hend
  have hrun : (scanNativeDeposits sampleConfig freshDaemon).run (rewardedOutside 0) []
      = (.ok (), _) := eq_of_fst hok
  exact ⟨_, hrun, hkeys, scanNativeDeposits_complete_iff hreserve hanswers hrun⟩

end Bridge

end Cryptex
