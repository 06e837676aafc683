import Cryptex.Bridge.DepositId

/-!
# Minting deposits

Runs of the daemon against a native node that shows one transaction under each
id, against `cast`, and against the token: a submission may be lost with or
without a reply, may be executed by the token at any time and more than once,
and the daemon may stop at any moment and start again from the state that it
wrote last.
-/

namespace Cryptex

namespace Bridge

open Interaction Action Encoding

/-! ## The world -/

/-- The transactions of the native node. -/
structure NativeNode (c : Crypto) where
  find : Hash256 → Option Transaction
  hash : ∀ h tx, find h = some tx → tx.hash c = h

/-- The call `mintFromBridge` of a submission. -/
structure BridgeMint where
  recipient : Address
  amount : UInt256
  depositId : Hash256
  nativeTxId : Hash256
  nativeSender : Bytes
deriving DecidableEq

namespace BridgeMint

def call {oz : OpenZeppelin} (m : BridgeMint) : WrappedCryptEX.Call oz :=
  .mintFromBridge m.recipient m.amount m.depositId m.nativeTxId m.nativeSender

/-- What `cast send` reads the arguments as. -/
structure Given (m : BridgeMint) (recipient : Text) (amountWei : Int)
    (depositId nativeTxid nativeSender : Text) : Prop where
  recipient : recipient = addressText m.recipient
  amount : amountWei = m.amount.toNat
  depositId : depositId = Text.ofBytes m.depositId.toBytes
  nativeTxId : nativeTxid = Text.ofBytes m.nativeTxId.toBytes
  nativeSender : m.nativeSender = Text.encodeUtf8 nativeSender

end BridgeMint

/-- The submissions so far and the state file. -/
structure MintWorld where
  submitted : List BridgeMint
  stored : Option DaemonState

namespace MintWorld

def initial : MintWorld := ⟨[], none⟩

def submit (w : MintWorld) (m : BridgeMint) : MintWorld :=
  { w with submitted := w.submitted ++ [m] }

def write (w : MintWorld) (s : DaemonState) : MintWorld := { w with stored := some s }

end MintWorld

section Mints

variable {crypto : Crypto} (node : NativeNode crypto) (sha256 : Bytes → Hash256) (evm : Evm)
  (c : BridgeConfig)

/-- A reply about a transaction, with any number of confirmations. -/
def NativeNode.Shows (h : Hash256) (tx : Transaction) (json : TxJson Text) : Prop :=
  node.find h = some tx ∧
    (txToJson sha256 crypto tx).decode = .ok { json with confirmations := none }

/-- A reply about the transaction that a text names. -/
def NativeNode.Reports (txid : Text) (json : TxJson Text) : Prop :=
  ∀ hash : Hash256, ensureBytes32 txid = .ok (Text.ofBytes hash.toBytes) →
    ∃ tx, node.Shows sha256 hash tx json

/-- How the outside answers. What is neither about a transaction nor a mint nor
the state file may be answered by anything. -/
inductive MintAnswers : MintWorld → (i : Request) → MintWorld → Reply i → Prop
  | submitted {w : MintWorld} {contract recipient : Text} {amountWei : Int}
      {depositId nativeTxid nativeSender : Text} (m : BridgeMint)
      (r : Reply (.castMintFromBridge contract recipient amountWei depositId nativeTxid
        nativeSender)) : m.Given recipient amountWei depositId nativeTxid nativeSender →
      MintAnswers w (.castMintFromBridge contract recipient amountWei depositId nativeTxid
        nativeSender) (w.submit m) r
  | notSubmitted {w : MintWorld} {contract recipient : Text} {amountWei : Int}
      {depositId nativeTxid nativeSender : Text}
      (r : Reply (.castMintFromBridge contract recipient amountWei depositId nativeTxid
        nativeSender)) :
      MintAnswers w (.castMintFromBridge contract recipient amountWei depositId nativeTxid
        nativeSender) w r
  | written {w : MintWorld} {s : DaemonState} : MintAnswers w (.writeState s) (w.write s) (.ok ())
  | notWritten {w : MintWorld} {s : DaemonState} (e : PyError) :
      MintAnswers w (.writeState s) w (.error e)
  | read {w : MintWorld} : MintAnswers w .readState w (.ok w.stored)
  | notRead {w : MintWorld} (e : PyError) : MintAnswers w .readState w (.error e)
  | transaction {w : MintWorld} {txid : Text} (r : Reply (.getRawTransaction txid)) :
      (∀ json, r = .ok json → node.Reports sha256 txid json) →
      MintAnswers w (.getRawTransaction txid) w r
  | encoded {w : MintWorld} {txid : Text} {n : Nat} {a : Text} {v : Int}
      (r : Reply (.castAbiEncode txid n a v)) : CastAnswers evm (.castAbiEncode txid n a v) r →
      MintAnswers w (.castAbiEncode txid n a v) w r
  | hashed {w : MintWorld} {t : Text} (r : Reply (.castKeccak t)) :
      CastAnswers evm (.castKeccak t) r → MintAnswers w (.castKeccak t) w r
  | txids {w : MintWorld} {a : Text} {n : Nat} (r : Reply (.getAddressTxids a n)) :
      MintAnswers w (.getAddressTxids a n) w r
  | processed {w : MintWorld} {a t : Text} (r : Reply (.castIsProcessedDeposit a t)) :
      MintAnswers w (.castIsProcessedDeposit a t) w r
  | time {w : MintWorld} (r : Reply .time) : MintAnswers w .time w r
  | approval {w : MintWorld} (r : Reply .getBlockchainInfo) : MintAnswers w .getBlockchainInfo w r
  | payment {w : MintWorld} {a : Text} {n : Nat} {t : Text} (r : Reply (.sendToAddress a n t)) :
      MintAnswers w (.sendToAddress a n t) w r
  | blockNumber {w : MintWorld} (r : Reply .ethBlockNumber) : MintAnswers w .ethBlockNumber w r
  | logs {w : MintWorld} {a t : Text} {x y : Int} (r : Reply (.ethGetLogs a t x y)) :
      MintAnswers w (.ethGetLogs a t x y) w r
  | snapshot {w : MintWorld} {i : Request} (r : Reply i) : i.OfSnapshot → MintAnswers w i w r

def mintService : Service Request Reply Daemon PyError MintWorld where
  load := loadDaemon c
  cycle := runCycle c
  answers := MintAnswers node sha256 evm
  mayStop _ := True

/-- The daemon and the token. The submissions are signed by `minter`. Anybody
else may call the token at any time, other minters included. -/
inductive BridgeReachable {oz : OpenZeppelin} (minter : Address) :
    Control Request Reply Daemon PyError → MintWorld → WrappedCryptEX oz → List Event → Prop
  | start {s : WrappedCryptEX oz} {tokenName tokenSymbol : Bytes}
      {initialAdmin initialMinter initialPauser : Address} :
      WrappedCryptEX.deploy oz evm tokenName tokenSymbol initialAdmin initialMinter initialPauser
        = some s → BridgeReachable minter .down .initial s []
  | daemon {ctl ctl' : Control Request Reply Daemon PyError} {w w' : MintWorld}
      {s : WrappedCryptEX oz} {evs : List Event} : BridgeReachable minter ctl w s evs →
      (mintService node sha256 evm c).Step ctl w ctl' w' → BridgeReachable minter ctl' w' s evs
  | executed {ctl : Control Request Reply Daemon PyError} {w : MintWorld} {s : WrappedCryptEX oz}
      {evs : List Event} (m : BridgeMint) : BridgeReachable minter ctl w s evs →
      m ∈ w.submitted →
      BridgeReachable minter ctl w (s.after evm minter m.call).1
        (evs ++ (s.after evm minter m.call).2)
  | called {ctl : Control Request Reply Daemon PyError} {w : MintWorld} {s : WrappedCryptEX oz}
      {evs : List Event} (sender : Address) (call : WrappedCryptEX.Call oz) :
      BridgeReachable minter ctl w s evs → sender ≠ minter →
      BridgeReachable minter ctl w (s.after evm sender call).1
        (evs ++ (s.after evm sender call).2)

/-! ## What may be minted -/

/-- The deposits: outputs to the reserve of a positive value, in a transaction
that is no coinbase and whose memo names the recipient. -/
structure IsDeposit (d : Deposit) : Prop where
  shown : ∃ tx json out, node.Shows sha256 d.txHash tx json ∧ tx.isCoinbase = false ∧
    extractRecipient c.depositMemoPrefix json.vout = .ok (some (addressText d.recipient)) ∧
    tx.outputs.toList[d.index]? = some out ∧ out.value.toInt = d.sats ∧
    decodeField (outputToJson sha256 d.index out).address = .ok (some c.reserveAddress)
  positive : 0 < d.sats

/-- The deposit behind the arguments of `submit_bridge_mint`. -/
structure Backs (d : Deposit) (recipient : Text) (amountWei : Int) (depositId nativeTxid : Text) :
    Prop where
  deposit : IsDeposit node sha256 c d
  recipient : normalizeEvmAddress recipient = .ok (addressText d.recipient)
  amount : amountWei = d.sats * bridgeUnitWei
  depositId : depositId = Text.ofBytes (d.id evm).toBytes
  nativeTxid : ensureBytes32 nativeTxid = .ok (Text.ofBytes d.txHash.toBytes)

def Genuine (depositId : Text) (entry : MintEntry) : Prop :=
  ∃ d, Backs node sha256 evm c d entry.recipient entry.amountWei depositId entry.nativeTxid

/-- Every pending mint is that of a deposit. -/
def AllGenuine (s : DaemonState) : Prop :=
  ∀ depositId entry, s.pendingMints.get? depositId = some entry →
    Genuine node sha256 evm c depositId entry

/-- The mint of a deposit. -/
structure Mints (d : Deposit) (m : BridgeMint) : Prop where
  deposit : IsDeposit node sha256 c d
  recipient : m.recipient = d.recipient
  amount : m.amount.toNat = d.sats * bridgeUnit
  depositId : m.depositId = d.id evm
  nativeTxId : m.nativeTxId = d.txHash

structure SafeMints (w : MintWorld) : Prop where
  submitted : ∀ m ∈ w.submitted, ∃ d, Mints node sha256 evm c d m
  stored : ∀ s, w.stored = some s → AllGenuine node sha256 evm c s

variable {node sha256 evm c}

/-- An outpoint is that of one deposit. -/
theorem IsDeposit.unique {d d' : Deposit} (h : IsDeposit node sha256 c d)
    (h' : IsDeposit node sha256 c d') (heq : d.outpoint = d'.outpoint) : d = d' := by
  obtain ⟨hhash, hindex⟩ := Prod.mk.inj heq
  obtain ⟨tx, json, out, ⟨hfind, hjson⟩, -, hrecipient, hout, hsats, -⟩ := h.shown
  obtain ⟨tx', json', out', ⟨hfind', hjson'⟩, -, hrecipient', hout', hsats', -⟩ := h'.shown
  rw [hhash, hfind'] at hfind
  obtain rfl := Option.some.inj hfind
  rw [hindex, hout'] at hout
  obtain rfl := Option.some.inj hout
  rw [hjson'] at hjson
  obtain ⟨-, -, -, hvout, -⟩ := TxJson.mk.inj (Except.ok.inj hjson)
  rw [hvout, hrecipient] at hrecipient'
  have haddress := addressText_injective (Option.some.inj (Except.ok.inj hrecipient'))
  obtain ⟨txHash, index, recipient, sats⟩ := d
  obtain ⟨txHash', index', recipient', sats'⟩ := d'
  simp only [Deposit.mk.injEq]
  exact ⟨hhash, hindex, haddress, by simp only at hsats hsats'; omega⟩

/-- An output in a reply is an output of the transaction. -/
theorem mem_vout_decode {tx : Transaction} {json : TxJson Text}
    (h : (txToJson sha256 crypto tx).decode = .ok json) {o : OutputJson Text} (ho : o ∈ json.vout) :
    ∃ out, tx.outputs.toList[o.n]? = some out ∧ o.valueSats = out.value.toInt ∧
      decodeField (outputToJson sha256 o.n out).address = .ok o.address := by
  obtain ⟨txid, -, h⟩ := bind_eq_ok.mp h
  obtain ⟨vin, -, h⟩ := bind_eq_ok.mp h
  obtain ⟨vout, hvout, h⟩ := bind_eq_ok.mp h
  cases h
  obtain ⟨o', ho', heq⟩ := exists_of_forall₂ (mapM_ok hvout) ho
  obtain ⟨address, haddress, heq⟩ := bind_eq_ok.mp heq
  obtain ⟨text, htext, heq⟩ := bind_eq_ok.mp heq
  cases heq
  obtain ⟨i, hi⟩ := List.mem_iff_getElem?.mp ho'
  rw [txToJson, List.getElem?_mapIdx] at hi
  obtain ⟨out, hout, rfl⟩ := Option.map_eq_some_iff.mp hi
  have hn : (outputToJson sha256 i out).n = i := by
    rw [outputToJson]
    split
    · rfl
    · rfl
  have hvalue : (outputToJson sha256 i out).valueSats = out.value.toInt := by
    rw [outputToJson]
    split
    · rfl
    · rfl
  exact ⟨out, hn.symm ▸ hout, hvalue, hn.symm ▸ haddress⟩

/-! ## Answers -/

section Answers

variable {w w' : MintWorld} {i : Request} {r : Reply i}

theorem MintAnswers.cast (h : MintAnswers node sha256 evm w i w' r) : CastAnswers evm i r := by
  cases h with
  | encoded r h => exact h
  | hashed r h => exact h
  | snapshot r hi => cases i <;> trivial
  | _ => trivial

/-- Only a mint and the state file change the world. -/
theorem MintAnswers.eq_of_ofDeposits (h : MintAnswers node sha256 evm w i w' r) (hi : i.OfDeposits)
    (hmint : ∀ a b v d t s, i ≠ .castMintFromBridge a b v d t s) : w' = w := by
  cases h with
  | submitted => exact absurd rfl (hmint _ _ _ _ _ _)
  | written => cases hi
  | _ => rfl

theorem MintAnswers.eq_of_ofRedemptions (h : MintAnswers node sha256 evm w i w' r)
    (hi : i.OfRedemptions) : w' = w := by
  cases h with
  | submitted => cases hi
  | written => cases hi
  | _ => rfl

theorem MintAnswers.eq_of_ofSnapshot (h : MintAnswers node sha256 evm w i w' r)
    (hi : i.OfSnapshot) : w' = w := by
  cases h with
  | submitted => cases hi
  | written => cases hi
  | _ => rfl

theorem MintAnswers.mint {contract recipient : Text} {amountWei : Int}
    {depositId nativeTxid nativeSender : Text}
    {r : Reply (.castMintFromBridge contract recipient amountWei depositId nativeTxid nativeSender)}
    (h : MintAnswers node sha256 evm w
      (.castMintFromBridge contract recipient amountWei depositId nativeTxid nativeSender) w' r) :
    w' = w ∨ ∃ m : BridgeMint, m.Given recipient amountWei depositId nativeTxid nativeSender ∧
      w' = w.submit m := by
  cases h with
  | submitted m r hm => exact .inr ⟨m, hm, rfl⟩
  | notSubmitted => exact .inl rfl
  | snapshot _ hi => cases hi

theorem MintAnswers.reports {txid : Text} {json : TxJson Text}
    (h : MintAnswers node sha256 evm w (.getRawTransaction txid) w' (.ok json)) :
    node.Reports sha256 txid json := by
  cases h with
  | transaction r h => exact h json rfl
  | snapshot _ hi => cases hi

theorem MintAnswers.write {s : DaemonState} {r : Reply (.writeState s)}
    (h : MintAnswers node sha256 evm w (.writeState s) w' r) : w' = w ∨ w' = w.write s := by
  cases h with
  | written => exact .inr rfl
  | notWritten => exact .inl rfl
  | snapshot _ hi => cases hi

theorem MintAnswers.load {r : Reply .readState}
    (h : MintAnswers node sha256 evm w .readState w' r) :
    w' = w ∧ (r = .ok w.stored ∨ ∃ e, r = .error e) := by
  cases h with
  | read => exact ⟨rfl, .inl rfl⟩
  | notRead e => exact ⟨rfl, .inr ⟨e, rfl⟩⟩
  | snapshot _ hi => cases hi

end Answers

/-! ## The state -/

theorem AllGenuine.put {s : DaemonState} (h : AllGenuine node sha256 evm c s) {depositId : Text}
    {entry : MintEntry} (hentry : Genuine node sha256 evm c depositId entry) :
    AllGenuine node sha256 evm c (s.putPendingMint depositId entry) := by
  intro id e he
  rw [DaemonState.putPendingMint, OrderedDict.get?_insert] at he
  split at he
  · next heq =>
      cases he
      exact heq ▸ hentry
  · exact h id e he

theorem AllGenuine.drop {s : DaemonState} (h : AllGenuine node sha256 evm c s)
    (depositIds : List Text) : AllGenuine node sha256 evm c (s.dropPendingMints depositIds) := by
  intro id e he
  rw [DaemonState.dropPendingMints, OrderedDict.get?_eraseAll] at he
  split at he
  · cases he
  · exact h id e he

theorem AllGenuine.sorted {s : DaemonState} (h : AllGenuine node sha256 evm c s) :
    AllGenuine node sha256 evm c s.sorted := by
  intro id e he
  rw [DaemonState.sorted, OrderedDict.get?_sorted] at he
  exact h id e he

theorem AllGenuine.mints {s s' : DaemonState} (h : AllGenuine node sha256 evm c s)
    (heq : s'.mints = s.mints) : AllGenuine node sha256 evm c s' := by
  intro id e he
  rw [(Prod.mk.inj heq).2] at he
  exact h id e he

theorem Backs.mints {d : Deposit} {recipient recipient' : Text} {amountWei : Int}
    {depositId depositId' nativeTxid nativeTxid' nativeSender : Text} {m : BridgeMint}
    (h : Backs node sha256 evm c d recipient amountWei depositId nativeTxid)
    (hrecipient : normalizeEvmAddress recipient = .ok recipient')
    (hdepositId : ensureBytes32 depositId = .ok depositId')
    (hnativeTxid : ensureBytes32 nativeTxid = .ok nativeTxid')
    (hm : m.Given recipient' amountWei depositId' nativeTxid' nativeSender) :
    Mints node sha256 evm c d m where
  deposit := h.deposit
  recipient := by
    rw [h.recipient] at hrecipient
    exact addressText_injective (hm.recipient.symm.trans (Except.ok.inj hrecipient).symm)
  amount := by
    have hamount := hm.amount
    rw [h.amount] at hamount
    exact_mod_cast hamount.symm
  depositId := by
    rw [h.depositId, ensureBytes32_ofBytes (Hash256.length_toBytes _)] at hdepositId
    exact Hash256.toBytes_injective
      (ofBytes_injective (hm.depositId.symm.trans (Except.ok.inj hdepositId).symm))
  nativeTxId := by
    rw [h.nativeTxid] at hnativeTxid
    exact Hash256.toBytes_injective
      (ofBytes_injective (hm.nativeTxId.symm.trans (Except.ok.inj hnativeTxid).symm))

theorem SafeMints.submit {w : MintWorld} {m : BridgeMint} (h : SafeMints node sha256 evm c w)
    (hm : ∃ d, Mints node sha256 evm c d m) : SafeMints node sha256 evm c (w.submit m) where
  submitted m' hm' := by
    rcases List.mem_append.mp hm' with hm' | hm'
    · exact h.submitted m' hm'
    · rw [List.mem_singleton.mp hm']
      exact hm
  stored := h.stored

/-! ## The stages of a cycle -/

section Stages

variable (node sha256 evm c)

def GenuineOf (d : Daemon) (_ : MintWorld) : Prop := AllGenuine node sha256 evm c d.state

/-- An action of the daemon that keeps the pending mints genuine, whether it
raises or not. -/
abbrev KeepsGenuine {α : Type} (x : Act α) : Prop :=
  Triple (MintAnswers node sha256 evm) (SafeMints node sha256 evm c) (GenuineOf node sha256 evm c) x
    (fun _ => GenuineOf node sha256 evm c) (fun _ => GenuineOf node sha256 evm c)

variable {node sha256 evm c}

theorem keeps_frame {α τ : Type} {asks : Request → Prop} {view : DaemonState → τ} {x : Act α}
    (hx : Frame asks view x)
    (hasks : ∀ w i w' r, asks i → MintAnswers node sha256 evm w i w' r → w' = w)
    (hview : ∀ s s', view s' = view s → s'.mints = s.mints) : KeepsGenuine node sha256 evm c x := by
  refine .of_within hx ?_ fun d d' w heq h => h.mints (hview _ _ heq)
  intro d w i w' r hi hsafe h ha
  obtain rfl := hasks w i w' r hi ha
  exact ⟨hsafe, h⟩

theorem keeps_redemptions {x : Act Unit} (hx : Frame Request.OfRedemptions DaemonState.mints x) :
    KeepsGenuine node sha256 evm c x :=
  keeps_frame hx (fun _ _ _ _ hi ha => ha.eq_of_ofRedemptions hi) fun _ _ heq => heq

theorem keeps_setState {f : DaemonState → DaemonState}
    (h : ∀ s, AllGenuine node sha256 evm c s → AllGenuine node sha256 evm c (f s)) :
    KeepsGenuine node sha256 evm c (setState f) :=
  .modify fun d _ _ hd => h d.state hd

theorem keeps_ask {i : Request} (hsame : ∀ w w' r, MintAnswers node sha256 evm w i w' r → w' = w) :
    KeepsGenuine node sha256 evm c (call i) := by
  refine .request ?_ ?_
  · intro d w w' r hsafe h ha
    obtain rfl := hsame w w' _ ha
    exact ⟨hsafe, h⟩
  · intro d w w' e hsafe h ha
    obtain rfl := hsame w w' _ ha
    exact ⟨hsafe, h⟩

theorem keeps_lift {α : Type} {x : Except PyError α} : KeepsGenuine node sha256 evm c (lift x) :=
  .lift (fun _ _ _ _ _ h => h) fun _ _ _ _ _ h => h

theorem keeps_contractIsProcessedDeposit {contract depositId : Text} :
    KeepsGenuine node sha256 evm c (contractIsProcessedDeposit contract depositId) :=
  .bind keeps_lift fun _ => .bind keeps_lift fun _ =>
    .bind (keeps_ask fun _ _ _ ha => ha.eq_of_ofDeposits trivial nofun) fun _ =>
      .bind keeps_lift fun _ => .pure fun _ _ _ h => h

/-- What is submitted is the mint of a deposit. -/
theorem keeps_submitBridgeMint {contract recipient : Text} {amountWei : Int}
    {depositId nativeTxid nativeSender : Text}
    (h : ∃ d, Backs node sha256 evm c d recipient amountWei depositId nativeTxid) :
    KeepsGenuine node sha256 evm c
      (submitBridgeMint contract recipient amountWei depositId nativeTxid nativeSender) := by
  obtain ⟨d, hd⟩ := h
  refine .bind keeps_lift fun contract' => ?_
  refine .bind (m := fun recipient' s w => GenuineOf node sha256 evm c s w ∧
      normalizeEvmAddress recipient = .ok recipient')
    (.lift (fun _ _ _ heq _ h => ⟨h, heq⟩) fun _ _ _ _ _ h => h) fun recipient' => ?_
  refine .bind (m := fun depositId' s w => GenuineOf node sha256 evm c s w ∧
      normalizeEvmAddress recipient = .ok recipient' ∧ ensureBytes32 depositId = .ok depositId')
    (.lift (fun _ _ _ heq _ h => ⟨h.1, h.2, heq⟩) fun _ _ _ _ _ h => h.1) fun depositId' => ?_
  refine .bind (m := fun nativeTxid' s w => GenuineOf node sha256 evm c s w ∧
      normalizeEvmAddress recipient = .ok recipient' ∧ ensureBytes32 depositId = .ok depositId' ∧
      ensureBytes32 nativeTxid = .ok nativeTxid')
    (.lift (fun _ _ _ heq _ h => ⟨h.1, h.2.1, h.2.2, heq⟩) fun _ _ _ _ _ h => h.1)
    fun nativeTxid' => ?_
  have hsafe' : ∀ w w' r, SafeMints node sha256 evm c w →
      normalizeEvmAddress recipient = .ok recipient' → ensureBytes32 depositId = .ok depositId' →
      ensureBytes32 nativeTxid = .ok nativeTxid' →
      MintAnswers node sha256 evm w
        (.castMintFromBridge contract' recipient' amountWei depositId' nativeTxid' nativeSender) w' r →
      SafeMints node sha256 evm c w' := by
    intro w w' r hsafe hrecipient hdepositId hnativeTxid ha
    rcases ha.mint with rfl | ⟨m, hm, rfl⟩
    · exact hsafe
    · exact hsafe.submit ⟨d, hd.mints hrecipient hdepositId hnativeTxid hm⟩
  refine .bind (m := fun _ => GenuineOf node sha256 evm c) (.request ?_ ?_) fun _ => keeps_lift
  · rintro s w w' r hsafe ⟨h, hrecipient, hdepositId, hnativeTxid⟩ ha
    exact ⟨hsafe' w w' _ hsafe hrecipient hdepositId hnativeTxid ha, h⟩
  · rintro s w w' e hsafe ⟨h, hrecipient, hdepositId, hnativeTxid⟩ ha
    exact ⟨hsafe' w w' _ hsafe hrecipient hdepositId hnativeTxid ha, h⟩

theorem keeps_enqueueOrSubmitMint {entry : MintEntry}
    (h : Genuine node sha256 evm c entry.depositId entry) :
    KeepsGenuine node sha256 evm c (enqueueOrSubmitMint c entry) := by
  rw [enqueueOrSubmitMint]
  split
  · exact keeps_setState fun s hs => hs.put h
  · exact .bind (keeps_submitBridgeMint h) fun txHash =>
      .bind (keeps_ask fun _ _ _ ha => ha.eq_of_ofDeposits trivial
        (fun _ _ _ _ _ _ h => by cases h)) fun now =>
        keeps_setState fun s hs => hs.put h

/-- The output of a deposit transaction, once its id is computed. -/
theorem isDeposit_output {hash : Hash256} {tx : Transaction} {json : TxJson Text}
    {o : OutputJson Text} {a : Address} (hshows : node.Shows sha256 hash tx json)
    (hcoinbase : json.coinbase = false)
    (hrecipient : extractRecipient c.depositMemoPrefix json.vout = .ok (some (addressText a)))
    (ho : o ∈ json.vout) (haddress : o.address = some c.reserveAddress) (hpos : 0 < o.valueSats) :
    IsDeposit node sha256 c ⟨hash, o.n, a, o.valueSats.toNat⟩ := by
  obtain ⟨out, hout, hvalue, hfield⟩ := mem_vout_decode hshows.2 ho
  have hcb : tx.isCoinbase = false := by
    obtain ⟨txid, -, h⟩ := bind_eq_ok.mp hshows.2
    obtain ⟨vin, -, h⟩ := bind_eq_ok.mp h
    obtain ⟨vout, -, h⟩ := bind_eq_ok.mp h
    exact (TxJson.mk.inj (Except.ok.inj h)).2.1.trans hcoinbase
  refine ⟨⟨tx, json, out, hshows, hcb, hrecipient, hout, ?_, haddress ▸ hfield⟩, ?_⟩
  · rw [← hvalue]
    exact (Int.toNat_of_nonneg (Int.le_of_lt hpos)).symm
  · exact Int.lt_toNat.mpr hpos

theorem keeps_scanOutput {txid : Text} {confirmations : Nat} {recipient nativeSender : Text}
    {json : TxJson Text} {o : OutputJson Text}
    (hreports : node.Reports sha256 txid json) (hcoinbase : json.coinbase = false)
    (hrecipient : extractRecipient c.depositMemoPrefix json.vout = .ok (some recipient))
    (ho : o ∈ json.vout) :
    KeepsGenuine node sha256 evm c (scanOutput c txid confirmations recipient nativeSender o) := by
  rw [scanOutput]
  split
  · exact .pure fun _ _ _ h => h
  · next haddress =>
      split
      · exact .pure fun _ _ _ h => h
      · next hvalue =>
          refine .bind (triple_computeDepositId (fun _ _ _ _ ha => ha.cast) ?_ ?_) fun depositId => ?_
          · intro txid n a v s w w' r hsafe h ha
            obtain rfl := ha.eq_of_ofDeposits trivial (fun _ _ _ _ _ _ h => by cases h)
            exact ⟨hsafe, h⟩
          · intro t s w w' r hsafe h ha
            obtain rfl := ha.eq_of_ofDeposits trivial (fun _ _ _ _ _ _ h => by cases h)
            exact ⟨hsafe, h⟩
          · refine .of_states fun s w _ h => ?_
            obtain ⟨hgenuine, ⟨txid', htxid⟩, hid⟩ := h
            obtain ⟨hash, rfl⟩ := ensureBytes32_ok htxid
            obtain ⟨tx, hshows⟩ := hreports hash htxid
            obtain ⟨a, rfl⟩ := extractRecipient_some hrecipient
            have hdeposit := isDeposit_output hshows hcoinbase hrecipient ho (not_not.mp haddress)
              (Int.not_le.mp hvalue)
            have hsats : o.valueSats = (o.valueSats.toNat : Int) := by omega
            have hback : ∃ d, Backs node sha256 evm c d (addressText a)
                (o.valueSats * bridgeUnitWei) depositId txid := by
              refine ⟨_, hdeposit, normalizeEvmAddress_addressText a, ?_, hid _ ?_, htxid⟩
              · rw [← hsats]
              · exact ⟨htxid, rfl, normalizeEvmAddress_addressText a, hsats⟩
            refine Triple.to_states ?_ hgenuine
            refine .bind (m := fun _ => GenuineOf node sha256 evm c) (.get fun _ _ _ h => h)
              fun d => ?_
            split
            · exact .pure fun _ _ _ h => h
            · refine .bind keeps_contractIsProcessedDeposit fun processed => ?_
              split
              · exact keeps_setState fun s hs => hs
              · exact keeps_enqueueOrSubmitMint hback

theorem keeps_fetch {txid : Text} :
    Triple (MintAnswers node sha256 evm) (SafeMints node sha256 evm c)
      (GenuineOf node sha256 evm c) (fetchNativeTransaction txid false)
      (fun json s w => GenuineOf node sha256 evm c s w ∧ node.Reports sha256 txid json)
      (fun _ => GenuineOf node sha256 evm c) := by
  refine .bind (m := fun _ => GenuineOf node sha256 evm c) (.get fun _ _ _ h => h) fun d => ?_
  split
  · next hcached => cases hcached
  · refine .bind (m := fun json s w => GenuineOf node sha256 evm c s w ∧
        node.Reports sha256 txid json) (.request ?_ ?_) fun json => ?_
    · intro d w w' r hsafe h ha
      obtain rfl := ha.eq_of_ofDeposits trivial nofun
      exact ⟨hsafe, h, ha.reports⟩
    · intro d w w' e hsafe h ha
      obtain rfl := ha.eq_of_ofDeposits trivial nofun
      exact ⟨hsafe, h⟩
    · refine .bind (m := fun _ s w => GenuineOf node sha256 evm c s w ∧
        node.Reports sha256 txid json) (.modify fun d w _ h => ?_) fun _ => .pure fun _ _ _ h => h
      rw [if_neg Bool.false_ne_true]
      exact h

/-- What is known of a value may be used as a hypothesis. -/
theorem keeps_of_fact {α : Type} {fact : Prop} {x : Act α} {post : α → Daemon → MintWorld → Prop}
    {exc : PyError → Daemon → MintWorld → Prop}
    (h : fact → Triple (MintAnswers node sha256 evm) (SafeMints node sha256 evm c)
      (GenuineOf node sha256 evm c) x post exc) :
    Triple (MintAnswers node sha256 evm) (SafeMints node sha256 evm c)
      (fun s w => GenuineOf node sha256 evm c s w ∧ fact) x post exc := fun s w hw hpre =>
  h hpre.2 s w hw hpre.1

theorem keeps_scanTransaction {txid : Text} :
    KeepsGenuine node sha256 evm c (scanTransaction c txid) := by
  refine .bind keeps_fetch fun json => keeps_of_fact fun hreports => ?_
  dsimp only
  split
  · exact .pure fun _ _ _ h => h
  · split
    · exact .pure fun _ _ _ h => h
    · next hcoinbase =>
        refine .bind (m := fun recipient s w => GenuineOf node sha256 evm c s w ∧
            extractRecipient c.depositMemoPrefix json.vout = .ok recipient)
          (.lift (fun _ _ _ heq _ h => ⟨h, heq⟩) fun _ _ _ _ _ h => h)
          fun recipient => keeps_of_fact fun hrecipient => ?_
        cases recipient with
        | none => exact .pure fun _ _ _ h => h
        | some recipient =>
            have hframe : Frame Request.OfSenders id (extractSenderReference json) :=
              frame_extractSenderReference fun _ => True.intro
            refine .bind (keeps_frame hframe ?_ fun s s' heq => congrArg DaemonState.mints heq)
              fun nativeSender => .forEach fun o ho =>
                keeps_scanOutput hreports (Bool.eq_false_iff.mpr hcoinbase) hrecipient ho
            intro w i w' r hi ha
            cases i with
            | getRawTransaction txid => exact ha.eq_of_ofDeposits trivial nofun
            | _ => cases hi

theorem keeps_scanNativeDeposits : KeepsGenuine node sha256 evm c (scanNativeDeposits c) :=
  .bind (keeps_ask fun _ _ _ ha => ha.eq_of_ofDeposits trivial nofun) fun _ =>
    .forEach fun _ _ => keeps_scanTransaction

theorem keeps_refreshMint {now : Int} {depositId : Text} {entry : MintEntry}
    (h : Genuine node sha256 evm c depositId entry) :
    KeepsGenuine node sha256 evm c (refreshMint c now depositId entry) := by
  refine .bind keeps_contractIsProcessedDeposit fun processed => ?_
  split
  · exact .bind (keeps_setState fun s hs => hs.put h) fun _ =>
      .bind (keeps_setState fun s hs => hs) fun _ => .pure fun _ _ _ h => h
  · split
    · exact .pure fun _ _ _ h => h
    · split
      · exact .pure fun _ _ _ h => h
      · exact .bind (keeps_submitBridgeMint h) fun txHash =>
          .bind (keeps_ask fun _ _ _ ha => ha.eq_of_ofDeposits trivial nofun) fun now =>
            .bind (keeps_setState fun s hs => hs.put h) fun _ => .pure fun _ _ _ h => h

theorem keeps_refreshMints {now : Int} : ∀ {entries : List (Text × MintEntry)}
    {completed : List Text}, (∀ e ∈ entries, Genuine node sha256 evm c e.1 e.2) →
    KeepsGenuine node sha256 evm c (refreshMints c now entries completed)
  | [], _, _ => .pure fun _ _ _ h => h
  | (_, _) :: _, _, h =>
      .bind (keeps_refreshMint (h _ List.mem_cons_self)) fun _ =>
        keeps_refreshMints fun e he => h e (List.mem_cons_of_mem _ he)

theorem keeps_refreshPendingMints : KeepsGenuine node sha256 evm c (refreshPendingMints c) := by
  refine .bind (keeps_ask fun _ _ _ ha => ha.eq_of_ofDeposits trivial nofun) fun now => ?_
  refine .bind (m := fun (d : Daemon) s w => GenuineOf node sha256 evm c s w ∧
      ∀ e ∈ d.state.pendingMints.entries, Genuine node sha256 evm c e.1 e.2)
    (.get fun d _ _ h => ⟨h, fun e he => h _ _ (OrderedDict.get?_eq_some_iff.mpr he)⟩)
    fun d => keeps_of_fact fun hentries => ?_
  exact .bind (keeps_refreshMints hentries) fun completed => keeps_setState fun s hs => hs.drop _

theorem keeps_writeReserveSnapshot : KeepsGenuine node sha256 evm c (writeReserveSnapshot c) := by
  have hframe : Frame Request.OfSnapshot DaemonState.mints (writeReserveSnapshot c) :=
    frame_writeReserveSnapshot
  exact keeps_frame hframe (fun _ _ _ _ hi ha => ha.eq_of_ofSnapshot hi) fun _ _ heq => heq

theorem keeps_persistState : KeepsGenuine node sha256 evm c persistState := by
  refine .bind (m := fun d' d w => d' = d ∧ GenuineOf node sha256 evm c d w)
    (.get fun _ _ _ h => ⟨rfl, h⟩) fun d' => ?_
  have hsafe' : ∀ (d : Daemon) w w' r, SafeMints node sha256 evm c w →
      AllGenuine node sha256 evm c d.state →
      MintAnswers node sha256 evm w (.writeState d.state.sorted) w' r →
      SafeMints node sha256 evm c w' := by
    intro d w w' r hsafe h ha
    rcases ha.write with rfl | rfl
    · exact hsafe
    · exact ⟨hsafe.submitted, fun s hs => Option.some.inj hs ▸ h.sorted⟩
  refine .request ?_ ?_
  · rintro d w w' r hsafe ⟨rfl, h⟩ ha
    exact ⟨hsafe' _ _ _ _ hsafe h ha, h⟩
  · rintro d w w' e hsafe ⟨rfl, h⟩ ha
    exact ⟨hsafe' _ _ _ _ hsafe h ha, h⟩

theorem keeps_runCycle : KeepsGenuine node sha256 evm c (runCycle c) :=
  .bind keeps_refreshPendingMints fun _ =>
    .bind keeps_scanNativeDeposits fun _ =>
      .bind (keeps_redemptions frame_scanEvmRedemptions) fun _ =>
        .bind (keeps_redemptions frame_refreshPendingReleases) fun _ =>
          .bind keeps_writeReserveSnapshot fun _ => keeps_persistState

end Stages

/-! ## Runs -/

theorem mintService_keeps : (mintService node sha256 evm c).Keeps (SafeMints node sha256 evm c)
    (fun _ => True) (GenuineOf node sha256 evm c) where
  load w hsafe _ := by
    refine ⟨hsafe, fun w' r ha => ?_⟩
    obtain ⟨rfl, rfl | ⟨e, rfl⟩⟩ := ha.load
    · refine ⟨hsafe, ?_⟩
      show AllGenuine node sha256 evm c (w'.stored.getD (.initial c))
      cases hstored : w'.stored with
      | none => exact fun _ _ h => nomatch h
      | some s => exact hsafe.stored s hstored
    · exact ⟨hsafe, trivial⟩
  cycle := keeps_runCycle
  stop _ _ _ := trivial

theorem safeMints_initial : SafeMints node sha256 evm c .initial :=
  ⟨fun _ hm => absurd hm List.not_mem_nil, fun _ hs => nomatch hs⟩

theorem MintAnswers.subset {w w' : MintWorld} {i : Request} {r : Reply i}
    (h : MintAnswers node sha256 evm w i w' r) : w.submitted ⊆ w'.submitted := by
  cases h with
  | submitted m r hm => exact List.subset_append_left _ _
  | _ => exact List.Subset.refl _

theorem mintService_step_subset {ctl ctl' : Control Request Reply Daemon PyError} {w w' : MintWorld}
    (h : (mintService node sha256 evm c).Step ctl w ctl' w') : w.submitted ⊆ w'.submitted := by
  cases h with
  | askLoading ha => exact MintAnswers.subset ha
  | ask ha => exact MintAnswers.subset ha
  | _ => exact List.Subset.refl _

/-! ## The token -/

/-- Who minted. -/
def Event.minter : Event → Option Address
  | .bridgeMintRecorded _ _ _ _ _ operator => some operator
  | .redemptionRequested .. => none

namespace WrappedCryptEX

variable {oz : OpenZeppelin} {s s' : WrappedCryptEX oz} {evs : List Event} {sender a : Address}
  {ev : Event}

/-- A mint is recorded with its arguments and its caller. -/
theorem mintFromBridge_events {recipient : Address} {amount : UInt256}
    {depositId nativeTxId : Hash256} {nativeSender : Bytes}
    (h : mintFromBridge evm s sender recipient amount depositId nativeTxId nativeSender
      = some (s', evs)) :
    evs = [.bridgeMintRecorded depositId nativeTxId recipient amount nativeSender sender] := by
  unfold mintFromBridge at h
  repeat' split at h
  all_goals try cases h
  obtain ⟨t, -, heq⟩ := Option.map_eq_some_iff.mp h
  exact (Prod.mk.inj heq).2.symm

theorem redeem_minter {account operator : Address} {amount : UInt256} {nativeDestination : Bytes}
    (h : redeem evm s account operator amount nativeDestination = some (s', evs)) (hev : ev ∈ evs) :
    ev.minter = none := by
  unfold redeem at h
  repeat' split at h
  all_goals try cases h
  obtain ⟨t, -, heq⟩ := Option.map_eq_some_iff.mp h
  rw [← (Prod.mk.inj heq).2, List.mem_singleton] at hev
  rw [hev]
  rfl

/-- A call mints in the name of its sender only. -/
theorem after_minter {call : Call oz} (hev : ev ∈ (s.after evm sender call).2)
    (ha : ev.minter = some a) : a = sender := by
  cases hcall : s.call evm sender call with
  | none =>
      rw [after, hcall] at hev
      cases hev
  | some r =>
      obtain ⟨s', evs⟩ := r
      rw [after, hcall] at hev
      replace hev : ev ∈ evs := hev
      cases call with
      | mintFromBridge recipient amount depositId nativeTxId nativeSender =>
          rw [mintFromBridge_events hcall, List.mem_singleton] at hev
          rw [hev] at ha
          exact (Option.some.inj ha).symm
      | requestRedemption amount nativeDestination =>
          rw [WrappedCryptEX.call] at hcall
          split at hcall
          · cases hcall
          · rw [redeem_minter hcall hev] at ha
            cases ha
      | requestRedemptionFrom account amount nativeDestination =>
          rw [WrappedCryptEX.call] at hcall
          split at hcall
          · cases hcall
          · split at hcall
            · cases hcall
            · rw [redeem_minter hcall hev] at ha
              cases ha
      | transfer recipient value =>
          obtain ⟨t, -, heq⟩ := Option.map_eq_some_iff.mp hcall
          cases heq
          cases hev
      | transferFrom src dst value =>
          rw [WrappedCryptEX.call] at hcall
          split at hcall
          · cases hcall
          · obtain ⟨t, -, heq⟩ := Option.map_eq_some_iff.mp hcall
            cases heq
            cases hev
      | allowance call =>
          obtain ⟨t, -, heq⟩ := Option.map_eq_some_iff.mp hcall
          cases heq
          cases hev
      | access call =>
          obtain ⟨t, -, heq⟩ := Option.map_eq_some_iff.mp hcall
          cases heq
          cases hev
      | pause | unpause =>
          rw [WrappedCryptEX.call] at hcall
          split at hcall
          · cases hcall
          · obtain ⟨t, -, heq⟩ := Option.map_eq_some_iff.mp hcall
            cases heq
            cases hev
      | rescueERC20 token recipient amount =>
          rw [WrappedCryptEX.call] at hcall
          repeat' split at hcall
          all_goals cases hcall
          cases hev

/-- The event of an executed submission. -/
theorem after_submission {m : BridgeMint} (hev : ev ∈ (s.after evm sender m.call).2) :
    ev = .bridgeMintRecorded m.depositId m.nativeTxId m.recipient m.amount m.nativeSender sender := by
  cases hcall : s.call evm sender m.call with
  | none =>
      rw [after, hcall] at hev
      cases hev
  | some r =>
      obtain ⟨s', evs⟩ := r
      rw [after, hcall] at hev
      replace hev : ev ∈ evs := hev
      rw [mintFromBridge_events hcall, List.mem_singleton] at hev
      exact hev

end WrappedCryptEX

/-! ## The whole bridge -/

section Whole

variable {oz : OpenZeppelin} {minter : Address} {ctl : Control Request Reply Daemon PyError}
  {w : MintWorld} {s : WrappedCryptEX oz} {evs : List Event}

/-- The parts of a run: one of the daemon and one of the token. What was minted
in the name of the daemon was submitted by it. -/
theorem BridgeReachable.parts (h : BridgeReachable node sha256 evm c minter ctl w s evs) :
    (mintService node sha256 evm c).Reachable .initial ctl w ∧
      WrappedCryptEX.Reachable oz evm s evs ∧
      ∀ ev ∈ evs, ev.minter = some minter → ∃ m ∈ w.submitted, ev = .bridgeMintRecorded m.depositId
        m.nativeTxId m.recipient m.amount m.nativeSender minter := by
  induction h with
  | start hdeploy => exact ⟨.start, .deployed hdeploy, fun _ hev => absurd hev List.not_mem_nil⟩
  | daemon _ hstep ih =>
      obtain ⟨hdaemon, htoken, hsubmitted⟩ := ih
      refine ⟨hdaemon.step hstep, htoken, fun ev hev hminter => ?_⟩
      obtain ⟨m, hm, heq⟩ := hsubmitted ev hev hminter
      exact ⟨m, mintService_step_subset hstep hm, heq⟩
  | executed m _ hm ih =>
      obtain ⟨hdaemon, htoken, hsubmitted⟩ := ih
      refine ⟨hdaemon, htoken.called minter m.call, fun ev hev hminter => ?_⟩
      rcases List.mem_append.mp hev with hev | hev
      · exact hsubmitted ev hev hminter
      · exact ⟨m, hm, WrappedCryptEX.after_submission hev⟩
  | called sender call _ hsender ih =>
      obtain ⟨hdaemon, htoken, hsubmitted⟩ := ih
      refine ⟨hdaemon, htoken.called sender call, fun ev hev hminter => ?_⟩
      rcases List.mem_append.mp hev with hev | hev
      · exact hsubmitted ev hev hminter
      · exact absurd (WrappedCryptEX.after_minter hev hminter).symm hsender

/-- The event that mints a deposit: to the address in its memo, for its value
in the units of the token. -/
structure MintsDeposit (node : NativeNode crypto) (sha256 : Bytes → Hash256) (evm : Evm)
    (c : BridgeConfig) (minter : Address) (d : Deposit) (ev : Event) : Prop where
  deposit : IsDeposit node sha256 c d
  recorded : ∃ amount nativeSender, ev = .bridgeMintRecorded (d.id evm) d.txHash d.recipient amount
    nativeSender minter ∧ amount.toNat = d.sats * bridgeUnit

theorem exists_forall₂ {α β : Type} {r : α → β → Prop} : ∀ {l : List β},
    (∀ b ∈ l, ∃ a, r a b) → ∃ l' : List α, List.Forall₂ r l' l
  | [], _ => ⟨[], .nil⟩
  | b :: l, h => by
      obtain ⟨a, ha⟩ := h b List.mem_cons_self
      obtain ⟨l', hl'⟩ := exists_forall₂ fun b' hb' => h b' (List.mem_cons_of_mem _ hb')
      exact ⟨a :: l', .cons ha hl'⟩

theorem depositIds_of_mints : ∀ {ds : List Deposit} {evs : List Event},
    List.Forall₂ (MintsDeposit node sha256 evm c minter) ds evs →
    WrappedCryptEX.depositIds evs = ds.map fun d => d.id evm
  | _, _, .nil => rfl
  | _, _, .cons hd hrest => by
      obtain ⟨amount, nativeSender, rfl, -⟩ := hd.recorded
      rw [List.map_cons, ← depositIds_of_mints hrest]
      rfl

/-- In every run the mints of the daemon are those of different outputs to the
reserve. -/
theorem bridgeReachable_mints (hoz : oz.Documented)
    (h : BridgeReachable node sha256 evm c minter ctl w s evs) : ∃ ds : List Deposit,
      (ds.map Deposit.outpoint).Nodup ∧
      List.Forall₂ (MintsDeposit node sha256 evm c minter) ds
        (evs.filter fun ev => ev.minter = some minter) := by
  obtain ⟨hdaemon, htoken, hsubmitted⟩ := h.parts
  have hsafe := (mintService_keeps.reachable safeMints_initial trivial hdaemon).world
  obtain ⟨ds, hds⟩ := exists_forall₂ (r := MintsDeposit node sha256 evm c minter)
    (l := evs.filter fun ev => ev.minter = some minter) fun ev hev => by
      obtain ⟨hev, hminter⟩ := List.mem_filter.mp hev
      obtain ⟨m, hm, rfl⟩ := hsubmitted ev hev (of_decide_eq_true hminter)
      obtain ⟨d, hd⟩ := hsafe.submitted m hm
      exact ⟨d, hd.deposit, m.amount, m.nativeSender,
        by rw [hd.depositId, hd.nativeTxId, hd.recipient], hd.amount⟩
  refine ⟨ds, ?_, hds⟩
  have hids : (ds.map fun d => d.id evm).Nodup := by
    rw [← depositIds_of_mints hds]
    exact (htoken.conserved hoz).1.deposits.sublist (List.filter_sublist.filterMap _)
  refine (List.Nodup.of_map _ hids).map_on fun d hd d' hd' heq => ?_
  obtain ⟨ev, -, hev⟩ := exists_of_forall₂ hds.flip hd
  obtain ⟨ev', -, hev'⟩ := exists_of_forall₂ hds.flip hd'
  exact hev.deposit.unique hev'.deposit heq

end Whole

end Mints

/-! ## A sample -/

theorem reserveScript_fits : (base64Encode (List.replicate 19 0 ++ [1])).length < 2 ^ 64 := by
  decide

/-- A transaction with an output to the reserve and a memo. -/
def sampleDepositTx : Transaction where
  version := 1
  inputs := ⟨[⟨⟨9, 0⟩, ⟨[], Vec.nil_fits⟩, 0xffffffff⟩], by decide⟩
  outputs := ⟨[⟨100000, ⟨base64Encode (List.replicate 19 0 ++ [1]), reserveScript_fits⟩⟩,
    ⟨0, ⟨[0x6a, 46] ++ ascii "EVM:0x00000000000000000000000000000000000000aa", by decide⟩⟩],
    by decide⟩
  lockTime := 0

/-- The digest of the sample. -/
def depositCrypto : Crypto where
  sha3_512 _ := 0x3658c1a23426342d90af7463be5867c0aeff384f9811d757e61ab7308b584b7d6a75e55e92494e4e9d117d39308a17a05b2c5cf27e372e7a3f4a9215c00ffbd7
  verifySignature _ _ _ := true
  pubkeyToAddress data := data
  addressesEqual lhs rhs := lhs = rhs

def sampleDeposit : Deposit where
  txHash := 0x3658c1a23426342d90af7463be5867c0aeff384f9811d757e61ab7308b584b7d
  index := 0
  recipient := 0xaa
  sats := 100000

def sampleNode : NativeNode depositCrypto where
  find h := if h = sampleDeposit.txHash then some sampleDepositTx else none
  hash h tx heq := by
    split at heq
    · next hh =>
        cases heq
        rw [hh]
        decide +kernel
    · cases heq

/-- Keccak-256 of the sample. -/
def depositEvm : Evm :=
  { WrappedCryptEX.sampleEvm with
    keccak256 := fun data =>
      if data = sampleDeposit.encoded then
        0x24ff59f4f1ab71a139bc97ef381a0a057c29a42246088fc6beb203492521bc03
      else WrappedCryptEX.sampleEvm.keccak256 data }

def sampleJson : TxJson Text where
  txid := txidText sampleDeposit.txHash
  coinbase := false
  vin := [{ txid := txidText 9, vout := 0 }]
  vout :=
    [{ n := 0
       valueSats := 100000
       address := some (Text.ofString "AAAAAAAAAAAAAAAAAAAAAAAAAAE=")
       opReturnText := none },
     { n := 1
       valueSats := 0
       address := none
       opReturnText := some (Text.ofString "EVM:0x00000000000000000000000000000000000000aa") }]
  confirmations := none

theorem sampleDepositTx_json :
    txToJson (fun _ => 0) depositCrypto sampleDepositTx = sampleJson.encode := by
  have haddress : addressField (fun _ => 0) (base64Encode (List.replicate 19 0 ++ [1]))
      = base64Encode (List.replicate 19 0 ++ [1]) := addressField_base64 _ ⟨_, rfl⟩
  have hfirst : outputToJson (fun _ => 0) 0
      ⟨100000, ⟨base64Encode (List.replicate 19 0 ++ [1]), by decide⟩⟩
      = { n := 0
          valueSats := 100000
          address := some (base64Encode (List.replicate 19 0 ++ [1]))
          opReturnText := none } := by
    rw [outputToJson, if_neg (by decide), haddress]
    rfl
  have hvout : (txToJson (fun _ => 0) depositCrypto sampleDepositTx).vout = sampleJson.encode.vout := by
    show [outputToJson _ 0 _, outputToJson _ 1 _] = _
    rw [hfirst]
    decide
  have hrest : (txToJson (fun _ => 0) depositCrypto sampleDepositTx)
      = { sampleJson.encode with
          vout := (txToJson (fun _ => 0) depositCrypto sampleDepositTx).vout } := by
    rw [TxJson.mk.injEq]
    exact ⟨by decide +kernel, by decide +kernel, by decide +kernel, rfl, rfl⟩
  rw [hrest, hvout]

theorem sampleNode_shows (confirmations : Option Nat) : sampleNode.Shows (fun _ => 0)
    sampleDeposit.txHash sampleDepositTx { sampleJson with confirmations := confirmations } := by
  have hfind : (if sampleDeposit.txHash = sampleDeposit.txHash then some sampleDepositTx else none)
      = some sampleDepositTx := if_pos rfl
  refine ⟨hfind, ?_⟩
  rw [sampleDepositTx_json]
  exact TxJson.decode_encode sampleJson

def sampleMint : BridgeMint where
  recipient := sampleDeposit.recipient
  amount := 1000000000000000
  depositId := 0x24ff59f4f1ab71a139bc97ef381a0a057c29a42246088fc6beb203492521bc03
  nativeTxId := sampleDeposit.txHash
  nativeSender := Text.encodeUtf8 (Text.ofString "native-tx:" ++ txidText sampleDeposit.txHash)

/-- An outside that knows the one deposit and accepts its mint. Nothing else is
answered. -/
def depositAnswer (w : MintWorld) : (i : Request) → MintWorld × Reply i
  | .getAddressTxids .. => (w, .ok [txidText sampleDeposit.txHash])
  | .getRawTransaction txid =>
      (w, if txid = txidText sampleDeposit.txHash then .ok { sampleJson with confirmations := some 9 }
        else .error .osError)
  | .castAbiEncode nativeTxid outputIndex recipient amountSats =>
      (w, if nativeTxid = Text.ofBytes sampleDeposit.txHash.toBytes ∧ outputIndex = 0 ∧
          recipient = addressText 0xaa ∧ amountSats = 100000 then
          .ok (Text.ofBytes sampleDeposit.encoded)
        else .error .osError)
  | .castKeccak encoded =>
      (w, if encoded = Text.ofBytes sampleDeposit.encoded then
          .ok (Text.ofBytes (sampleDeposit.id depositEvm).toBytes)
        else .error .osError)
  | .castIsProcessedDeposit .. => (w, .ok (Text.ofString "false"))
  | .castMintFromBridge _ recipient amountWei depositId nativeTxid nativeSender =>
      if recipient = addressText sampleMint.recipient ∧ amountWei = sampleMint.amount.toNat ∧
          depositId = Text.ofBytes sampleMint.depositId.toBytes ∧
          nativeTxid = Text.ofBytes sampleMint.nativeTxId.toBytes ∧
          sampleMint.nativeSender = Text.encodeUtf8 nativeSender then
        (w.submit sampleMint, .ok (Text.ofString "0x01"))
      else (w, .error .osError)
  | .readState => (w, .ok w.stored)
  | .time => (w, .ok 1000000000)
  | .writeState _ => (w, .error .osError)
  | .getBlockchainInfo => (w, .error .osError)
  | .sendToAddress .. => (w, .error .osError)
  | .ethBlockNumber => (w, .error .osError)
  | .ethGetLogs .. => (w, .error .osError)
  | .getAddressSummary .. => (w, .error .osError)
  | .castTotalSupply .. => (w, .error .osError)
  | .writeReserveStatus .. => (w, .error .osError)

/-- A reply that depends on a condition. -/
theorem ite_eq_ok {α : Type} {p : Prop} [Decidable p] {a b : α} {e : PyError}
    (h : (if p then .ok a else .error e : Except PyError α) = .ok b) : p ∧ a = b := by
  split at h
  · next hp => exact ⟨hp, Except.ok.inj h⟩
  · cases h

theorem depositAnswer_answers (w : MintWorld) (i : Request) :
    MintAnswers sampleNode (fun _ => 0) depositEvm w i (depositAnswer w i).1 (depositAnswer w i).2 := by
  cases i with
  | getAddressTxids => exact .txids _
  | getRawTransaction txid =>
      refine .transaction _ fun json hr hash hhash => ?_
      obtain ⟨rfl, rfl⟩ := ite_eq_ok hr
      rw [ensureBytes32_txidText] at hhash
      rw [← Hash256.toBytes_injective (ofBytes_injective (Except.ok.inj hhash))]
      exact ⟨_, sampleNode_shows (some 9)⟩
  | castAbiEncode nativeTxid outputIndex recipient amountSats =>
      refine .encoded _ fun d t htxid hindex hrecipient hsats hr => ?_
      obtain ⟨⟨htxid', hindex', hrecipient', hsats'⟩, rfl⟩ := ite_eq_ok hr
      have hd : d = sampleDeposit := by
        have hhash := Hash256.toBytes_injective (ofBytes_injective (htxid.symm.trans htxid'))
        have haddress := addressText_injective (hrecipient.symm.trans hrecipient')
        obtain ⟨txHash, index, recipient, sats⟩ := d
        rw [sampleDeposit, Deposit.mk.injEq]
        simp only at hindex hsats hhash haddress
        exact ⟨hhash, by omega, haddress, by omega⟩
      rw [hd]
  | castKeccak encoded =>
      refine .hashed _ fun data t hdata hr => ?_
      obtain ⟨hencoded, rfl⟩ := ite_eq_ok hr
      rw [ofBytes_injective (hdata.symm.trans hencoded), Deposit.id]
  | castIsProcessedDeposit => exact .processed _
  | castMintFromBridge contract recipient amountWei depositId nativeTxid nativeSender =>
      rw [depositAnswer]
      split
      · next hargs =>
          exact .submitted _ _ ⟨hargs.1, hargs.2.1, hargs.2.2.1, hargs.2.2.2.1, hargs.2.2.2.2⟩
      · exact .notSubmitted _
  | readState => exact .read
  | time => exact .time _
  | writeState s => exact .notWritten _
  | getBlockchainInfo => exact .approval _
  | sendToAddress => exact .payment _
  | ethBlockNumber => exact .blockNumber _
  | ethGetLogs => exact .logs _
  | getAddressSummary | castTotalSupply | writeReserveStatus => exact .snapshot _ trivial

/-- A run of the daemon is a run of the bridge in which the token does nothing. -/
theorem BridgeReachable.of_daemon {crypto : Crypto} {node : NativeNode crypto}
    {sha256 : Bytes → Hash256} {evm : Evm} {c : BridgeConfig} {oz : OpenZeppelin} {minter : Address}
    {s : WrappedCryptEX oz} (hs : BridgeReachable node sha256 evm c minter .down .initial s [])
    {ctl : Control Request Reply Daemon PyError} {w : MintWorld}
    (h : (mintService node sha256 evm c).Reachable .initial ctl w) :
    BridgeReachable node sha256 evm c minter ctl w s [] := by
  induction h with
  | start => exact hs
  | step _ hstep ih => exact .daemon ih hstep

/-- The deposit of the sample is scanned, submitted and minted. -/
theorem bridgeReachable_mints_sample : ∃ ctl w evs, ∃ s : WrappedCryptEX .plain,
    BridgeReachable sampleNode (fun _ => 0) depositEvm sampleConfig 2 ctl w s evs ∧
      evs.length = 1 ∧ ∃ ds : List Deposit, (ds.map Deposit.outpoint).Nodup ∧
        List.Forall₂ (MintsDeposit sampleNode (fun _ => 0) depositEvm sampleConfig 2) ds
          (evs.filter fun ev => ev.minter = some 2) := by
  have hload : Service.play depositAnswer
      (mintService sampleNode (fun _ => 0) depositEvm sampleConfig).load .initial
      = (.ok ⟨.initial sampleConfig, .empty⟩, .initial) := rfl
  have hreach := Service.Reachable.played depositAnswer_answers hload 1
  have hsubmitted : sampleMint ∈ (Service.playCycles
      (mintService sampleNode (fun _ => 0) depositEvm sampleConfig) depositAnswer 1
      ⟨.initial sampleConfig, .empty⟩ .initial).2.submitted := by
    decide +kernel
  have hrun : ((WrappedCryptEX.deploy .plain depositEvm (ascii "Wrapped CryptEX") (ascii "wCRX")
      1 2 3).map fun s => (s.after depositEvm 2 sampleMint.call).2.length) = some 1 := by
    decide
  obtain ⟨s, hs, hlength⟩ := Option.map_eq_some_iff.mp hrun
  have hstart : BridgeReachable sampleNode (fun _ => 0) depositEvm sampleConfig 2 .down .initial s [] :=
    .start hs
  have hbridge := (BridgeReachable.of_daemon hstart hreach).executed sampleMint hsubmitted
  exact ⟨_, _, _, _, hbridge, hlength,
    bridgeReachable_mints OpenZeppelin.documented_plain hbridge⟩

end Bridge

end Cryptex
