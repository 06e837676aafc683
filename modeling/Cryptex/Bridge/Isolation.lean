import Cryptex.Bridge.DaemonFrames

/-!
# A submission that fails

One cycle in which the mints and payments that are submitted may fail and
everything else succeeds, compared with the cycle in which none fails. Only
`refresh_pending_releases` guards its submissions.
-/

namespace Cryptex

namespace Bridge

open Interaction Action

/-- The submissions. -/
def Request.Submission : Request → Prop
  | castMintFromBridge .. | sendToAddress .. => True
  | _ => False

/-- A submission that fails. -/
def FailedSubmission (i : Request) (r : Reply i) : Prop := i.Submission ∧ ∃ e, r = .error e

abbrev Outside := Prog.Oracle Request Reply

/-- An outside that answers in the same way, except that no submission fails. -/
structure Repairs (o o' : Outside) : Prop where
  same : ∀ h i, ¬ FailedSubmission i (o h i) → o' h i = o h i
  succeeds : ∀ h i, i.Submission → ∃ v, o' h i = .ok v

/-! ## Submissions that are not guarded -/

section Unguarded

variable {c : BridgeConfig}

theorem strict_of_frame {α : Type} {x : Act α}
    (hx : ∀ asks : Request → Prop, (∀ txid, asks (.getRawTransaction txid)) → Frame asks id x) :
    x.Strict Request.Submission :=
  .of_within (hx (fun i => ¬ i.Submission) fun _ h => h)

theorem strict_computeDepositId {nativeTxid : Text} {outputIndex : Nat} {recipient : Text}
    {amountSats : Int} :
    (computeDepositId nativeTxid outputIndex recipient amountSats).Strict Request.Submission :=
  .bind .lift fun _ => .bind .lift fun _ => .bind .request fun _ => .bind .request fun _ =>
    .bind .lift fun _ => .pure

theorem strict_contractIsProcessedDeposit {contract depositId : Text} :
    (contractIsProcessedDeposit contract depositId).Strict Request.Submission :=
  .bind .lift fun _ => .bind .lift fun _ => .bind .request fun _ => .bind .lift fun _ => .pure

theorem strict_submitBridgeMint {contract recipient : Text} {amountWei : Int}
    {depositId nativeTxid nativeSender : Text} :
    (submitBridgeMint contract recipient amountWei depositId nativeTxid nativeSender).Strict
      Request.Submission :=
  .bind .lift fun _ => .bind .lift fun _ => .bind .lift fun _ => .bind .lift fun _ =>
    .bind .request fun _ => .lift

theorem strict_enqueueOrSubmitMint {entry : MintEntry} :
    (enqueueOrSubmitMint c entry).Strict Request.Submission := by
  rw [enqueueOrSubmitMint]
  split
  · exact .modify
  · exact .bind strict_submitBridgeMint fun _ => .bind .request fun _ => .modify

theorem strict_scanOutput {txid : Text} {confirmations : Nat} {recipient nativeSender : Text}
    {output : OutputJson Text} :
    (scanOutput c txid confirmations recipient nativeSender output).Strict Request.Submission := by
  rw [scanOutput]
  split
  · exact .pure
  · split
    · exact .pure
    · refine .bind strict_computeDepositId fun depositId => .bind .get fun d => ?_
      split
      · exact .pure
      · refine .bind strict_contractIsProcessedDeposit fun processed => ?_
        split
        · exact .modify
        · exact strict_enqueueOrSubmitMint

theorem strict_scanTransaction {txid : Text} :
    (scanTransaction c txid).Strict Request.Submission := by
  have hfetch : (fetchNativeTransaction txid false).Strict Request.Submission :=
    strict_of_frame fun _ hasks => frame_fetchNativeTransaction (hasks _) false
  refine .bind hfetch fun tx => ?_
  dsimp only
  split
  · exact .pure
  · split
    · exact .pure
    · refine .bind .lift fun recipient => ?_
      cases recipient with
      | none => exact .pure
      | some recipient =>
          have hsenders : (extractSenderReference tx).Strict Request.Submission :=
            strict_of_frame fun _ hasks => frame_extractSenderReference hasks
          exact .bind hsenders fun _ => .forEach fun _ => strict_scanOutput

theorem strict_scanNativeDeposits : (scanNativeDeposits c).Strict Request.Submission :=
  .bind .request fun _ => .forEach fun _ => strict_scanTransaction

theorem strict_refreshMint {now : Int} {depositId : Text} {entry : MintEntry} :
    (refreshMint c now depositId entry).Strict Request.Submission := by
  refine .bind strict_contractIsProcessedDeposit fun processed => ?_
  split
  · exact .bind .modify fun _ => .bind .modify fun _ => .pure
  · split
    · exact .pure
    · split
      · exact .pure
      · exact .bind strict_submitBridgeMint fun _ => .bind .request fun _ =>
          .bind .modify fun _ => .pure

theorem strict_refreshMints {now : Int} : ∀ {entries : List (Text × MintEntry)}
    {completed : List Text}, (refreshMints c now entries completed).Strict Request.Submission
  | [], _ => .pure
  | (_, _) :: _, _ => .bind strict_refreshMint fun _ => strict_refreshMints

theorem strict_refreshPendingMints : (refreshPendingMints c).Strict Request.Submission :=
  .bind .request fun _ => .bind .get fun _ => .bind strict_refreshMints fun _ => .modify

theorem strict_submitNativeRelease {redemptionId : Text} {entry : ReleaseEntry} :
    (submitNativeRelease redemptionId entry).Strict Request.Submission := by
  refine .bind .request fun approved => ?_
  split
  · exact .modify
  · exact .bind .request fun _ => .modify

theorem strict_scanLog {rawLog : RawLog} : (scanLog c rawLog).Strict Request.Submission := by
  refine .bind .lift fun event => .bind .get fun d => ?_
  split
  · exact .pure
  · refine .bind .modify fun _ => ?_
    split
    · exact strict_submitNativeRelease
    · exact .pure

theorem strict_scanBatches {finalizedBlock : Int} : ∀ {batches : Nat} {current : Int},
    (scanBatches c finalizedBlock batches current).Strict Request.Submission
  | 0, _ => .pure
  | batches + 1, current => by
      rw [scanBatches]
      split
      · exact .bind .lift fun _ => .bind .request fun _ =>
          .bind (.forEach fun _ => strict_scanLog) fun _ =>
            .bind .modify fun _ => strict_scanBatches
      · exact .pure

theorem strict_scanEvmRedemptions : (scanEvmRedemptions c).Strict Request.Submission := by
  refine .bind .request fun latestBlock => ?_
  dsimp only
  split
  · exact .pure
  · refine .bind .get fun d => ?_
    split
    · exact .pure
    · exact strict_scanBatches

end Unguarded

/-! ## The two parts of a cycle -/

section Parts

variable (c : BridgeConfig)

/-- The stages whose submissions are not guarded. -/
def firstStages : Act Unit := do
  refreshPendingMints c
  scanNativeDeposits c
  scanEvmRedemptions c

def lastStages : Act Unit := do
  refreshPendingReleases c
  writeReserveSnapshot c
  persistState

theorem runCycle_eq : runCycle c = firstStages c >>= fun _ => lastStages c := by
  rw [firstStages, bind_assoc]
  funext _
  rw [bind_assoc]
  rfl

variable {c}

theorem strict_firstStages : (firstStages c).Strict Request.Submission :=
  .bind strict_refreshPendingMints fun _ =>
    .bind strict_scanNativeDeposits fun _ => strict_scanEvmRedemptions

end Parts

/-! ## Submissions that are guarded -/

section Guarded

variable {c : BridgeConfig} {o o' : Outside}

theorem Repairs.agrees (hrep : Repairs o o') {i : Request} (hi : ¬ i.Submission) :
    Agrees o o' (call i) (call i) :=
  .request fun h => hrep.same h i fun hfailed => hi hfailed.1

/-- The release is submitted after this reply. -/
def sends : Reply .getBlockchainInfo → Bool
  | .error _ => false
  | .ok approved => approved.getD true

/-- A program that ends without an exception and without a question. -/
def Returns (p : Prog Request Reply (Except PyError Unit × Daemon)) : Prop :=
  ∃ d, p = .done (.ok (), d)

/-- What a guarded submission asks, and that it returns whether it fails or
not. -/
theorem guarded_eq (redemptionId : Text) (entry : ReleaseEntry)
    (handler : PyError → DaemonState → DaemonState) (d : Daemon) :
    ∃ k, attempt (submitNativeRelease redemptionId entry) (fun e => setState (handler e)) d
        = .ask .getBlockchainInfo k ∧
      (∀ r, sends r = false → Returns (k r)) ∧
      ∀ r, sends r = true → ∃ k', (∀ r', Returns (k' r')) ∧
        k r = .ask (.sendToAddress entry.event.nativeDestination entry.event.amountSats
          (releaseMemo redemptionId)) k' := by
  refine ⟨_, rfl, fun r hr => ?_, fun r hr => ?_⟩
  · rcases r with e | (_ | _ | _)
    · exact ⟨_, rfl⟩
    · cases hr
    · exact ⟨_, rfl⟩
    · cases hr
  · rcases r with e | (_ | _ | _)
    · cases hr
    · refine ⟨_, fun r' => ?_, rfl⟩
      cases r' with
      | error e => exact ⟨_, rfl⟩
      | ok txid => exact ⟨_, rfl⟩
    · cases hr
    · refine ⟨_, fun r' => ?_, rfl⟩
      cases r' with
      | error e => exact ⟨_, rfl⟩
      | ok txid => exact ⟨_, rfl⟩

theorem agrees_guarded (hrep : Repairs o o') {redemptionId : Text} {entry : ReleaseEntry}
    {handler : PyError → DaemonState → DaemonState} :
    Agrees o o' (attempt (submitNativeRelease redemptionId entry) fun e => setState (handler e))
      (attempt (submitNativeRelease redemptionId entry) fun e => setState (handler e)) := by
  intro h d d'
  obtain ⟨k, hk, hskip, hsend⟩ := guarded_eq redemptionId entry handler d
  obtain ⟨l, hl, hskip', hsend'⟩ := guarded_eq redemptionId entry handler d'
  have hsame : o' h .getBlockchainInfo = o h .getBlockchainInfo :=
    hrep.same h _ fun hfailed => hfailed.1
  rw [hk, hl, Prog.run, Prog.run, Prog.asked, Prog.asked, hsame]
  cases hs : sends (o h .getBlockchainInfo) with
  | false =>
      obtain ⟨t, ht⟩ := hskip _ hs
      obtain ⟨t', ht'⟩ := hskip' _ hs
      rw [ht, ht']
      exact ⟨rfl, rfl⟩
  | true =>
      obtain ⟨k', hreturns, hask⟩ := hsend _ hs
      obtain ⟨l', hreturns', hask'⟩ := hsend' _ hs
      rw [hask, hask', Prog.run, Prog.run, Prog.asked, Prog.asked]
      obtain ⟨t, ht⟩ := hreturns (o (h ++ [.getBlockchainInfo]) _)
      obtain ⟨t', ht'⟩ := hreturns' (o' (h ++ [.getBlockchainInfo]) _)
      rw [ht, ht']
      exact ⟨rfl, rfl⟩

theorem agrees_tryFetch (hrep : Repairs o o') {txid : Text} :
    Agrees o o' (tryFetch txid) (tryFetch txid) := by
  intro h d d'
  have hsame : o' h (.getRawTransaction txid) = o h (.getRawTransaction txid) :=
    hrep.same h _ fun hfailed => hfailed.1
  have hask : ∀ d : Daemon, tryFetch txid d
      = .ask (.getRawTransaction txid) fun r => .done (.ok r, d) := by
    intro d
    refine congrArg (Prog.ask (Request.getRawTransaction txid)) (funext fun r => ?_)
    cases r with
    | error e => rfl
    | ok tx => rfl
  rw [hask, hask, Prog.run, Prog.run, Prog.asked, Prog.asked, hsame]
  exact ⟨rfl, rfl⟩

theorem agrees_refreshRelease (hrep : Repairs o o') {redemptionId : Text} {entry : ReleaseEntry} :
    Agrees o o' (refreshRelease c redemptionId entry) (refreshRelease c redemptionId entry) := by
  rw [refreshRelease]
  split
  · split
    · exact .bind (agrees_guarded hrep) fun _ => .pure
    · exact .pure
  · refine .bind (agrees_tryFetch hrep) fun fetched => ?_
    cases fetched with
    | error e => exact .bind .modify fun _ => .pure
    | ok tx =>
        dsimp only
        split
        · exact .bind .modify fun _ => .bind .modify fun _ => .pure
        · exact .bind .modify fun _ => .pure

theorem agrees_refreshReleases (hrep : Repairs o o') : ∀ {entries : List (Text × ReleaseEntry)}
    {completed : List Text},
    Agrees o o' (refreshReleases c entries completed) (refreshReleases c entries completed)
  | [], _ => .pure
  | (_, _) :: _, _ => .bind (agrees_refreshRelease hrep) fun _ => agrees_refreshReleases hrep

/-- `refresh_pending_releases` over the entries that it reads. -/
def refreshEntries (c : BridgeConfig) (entries : List (Text × ReleaseEntry)) : Act Unit := do
  let completed ← refreshReleases c entries []
  setState (·.dropPendingReleases completed)

theorem agrees_refreshEntries (hrep : Repairs o o') {entries : List (Text × ReleaseEntry)} :
    Agrees o o' (refreshEntries c entries) (refreshEntries c entries) :=
  .bind (agrees_refreshReleases hrep) fun _ => .modify

/-- The two files can be written. -/
structure FilesWritten (o : Outside) : Prop where
  state : ∀ h s, o h (.writeState s) = .ok ()
  status : ∀ h s, o h (.writeReserveStatus s) = .ok ()

/-- What the snapshot asks before it writes. -/
def snapshotReplies (c : BridgeConfig) : Act (Option Int × Text × Int) := do
  let balance ← call (.getAddressSummary c.reserveAddress)
  let contract ← lift (normalizeEvmAddress c.wrappedContractAddress)
  let supply ← call (.castTotalSupply contract)
  return (balance, contract, supply)

theorem agrees_snapshotReplies (hrep : Repairs o o') :
    Agrees o o' (snapshotReplies c) (snapshotReplies c) :=
  .bind (hrep.agrees nofun) fun _ => .bind .lift fun _ => .bind (hrep.agrees nofun) fun _ => .pure

/-- The status that the snapshot writes. -/
def reserveStatus (c : BridgeConfig) (r : Option Int × Text × Int) (d : Daemon) :
    ReserveStatus where
  wrappedContractAddress := r.2.1
  reserveWalletAddress := c.reserveAddress
  evmChainName := c.chainName
  evmChainId := c.chainId
  explorerUrl := c.explorerUrl
  operatorMode := c.operatorMode
  live := decide (r.1.getD 0 * bridgeUnitWei ≥ r.2.2)
  nativeLockedSats := r.1.getD 0
  wrappedSupplyWei := r.2.2
  notes := c.notes
  pendingMintCount := d.state.pendingMints.entries.length
  pendingReleaseCount := d.state.pendingReleases.entries.length
  processedDepositCount := d.state.processedDeposits.entries.length
  processedRedemptionCount := d.state.processedRedemptions.entries.length

theorem writeReserveSnapshot_eq : writeReserveSnapshot c = snapshotReplies c >>= fun r =>
    Action.get >>= fun d => call (.writeReserveStatus (reserveStatus c r d)) := by
  rw [snapshotReplies]
  simp only [bind_assoc]
  rfl

theorem snapshot_returns (hrep : Repairs o o') (hfiles : FilesWritten o) {h : List Request}
    {d d' t' : Daemon} (hret : (writeReserveSnapshot c d').run o' h = (.ok (), t')) :
    ∃ t, (writeReserveSnapshot c d).run o h = (.ok (), t) := by
  rw [writeReserveSnapshot_eq] at hret ⊢
  obtain ⟨r, t, hr⟩ := run_bind_eq_ok hret
  obtain ⟨t, ht⟩ := (agrees_snapshotReplies hrep).returns (s := d) hr
  refine ⟨t, (run_bind_ok ht).trans ?_⟩
  exact congrArg (·, t) (hfiles.status _ (reserveStatus c r t))

/-- The last stages return, write what they leave, and make the submissions of
the repaired run. -/
theorem lastStages_returns (hrep : Repairs o o') (hfiles : FilesWritten o) {h : List Request}
    {d t' : Daemon} (hret : (lastStages c d).run o' h = (.ok (), t')) :
    ∃ t asked, (lastStages c d).run o h = (.ok (), t) ∧
      (lastStages c d).asked o h = asked ++ [.writeState t.state.sorted] ∧
      ∀ i ∈ (lastStages c d).asked o' h, i.Submission → i ∈ asked := by
  have hagree : Agrees o o' (refreshEntries c d.state.pendingReleases.entries) _ :=
    agrees_refreshEntries hrep
  have hasked : (refreshPendingReleases c d).asked o' h = (refreshPendingReleases c d).asked o h :=
    (hagree h d d).2
  obtain ⟨_, t₁', h₁'⟩ := run_bind_eq_ok hret
  obtain ⟨t₁, h₁⟩ : ∃ t₁, (refreshPendingReleases c d).run o h = (.ok (), t₁) :=
    hagree.returns (s := d) h₁'
  rw [lastStages, run_bind_ok h₁', hasked] at hret
  obtain ⟨_, t₂', h₂'⟩ := run_bind_eq_ok hret
  obtain ⟨t₂, h₂⟩ := snapshot_returns (d := t₁) hrep hfiles h₂'
  refine ⟨t₂, (refreshPendingReleases c d).asked o h ++ (writeReserveSnapshot c t₁).asked o
    (h ++ (refreshPendingReleases c d).asked o h), ?_, ?_, ?_⟩
  · rw [lastStages, run_bind_ok h₁, run_bind_ok h₂]
    exact congrArg (·, t₂) (hfiles.state _ _)
  · rw [lastStages, asked_bind_ok h₁, asked_bind_ok h₂, ← List.append_assoc]
    rfl
  · intro i hi hsub
    rw [lastStages, asked_bind_ok h₁', hasked, asked_bind_ok h₂'] at hi
    rcases List.mem_append.mp hi with hi | hi
    · exact List.mem_append_left _ hi
    · rcases List.mem_append.mp hi with hi | hi
      · have hframe : Frame Request.OfSnapshot id (writeReserveSnapshot c) :=
          frame_writeReserveSnapshot
        have hsnapshot := ((hframe t₁').asked o').1 i hi
        cases i with
        | sendToAddress => exact hsnapshot.elim
        | castMintFromBridge => exact hsnapshot.elim
        | _ => exact hsub.elim
      · obtain rfl := List.mem_singleton.mp hi
        exact hsub.elim

end Guarded

/-! ## The whole cycle -/

/-- The state that a question writes. -/
def Request.state? : Request → Option DaemonState
  | writeState s => some s
  | _ => none

/-- What the state file holds after some questions that write it. -/
def stored (asked : List Request) : Option DaemonState := asked.reverse.findSome? Request.state?

/-- The submissions that fail keep none of the others from being made, and the
daemon goes on with its results, also when it is started again. -/
structure Isolated (c : BridgeConfig) (d : Daemon) (o o' : Outside) : Prop where
  submitted : ∀ i ∈ (runCycle c d).asked o' [], i.Submission → i ∈ (runCycle c d).asked o []
  persisted : stored ((runCycle c d).asked o []) = some ((runCycle c d).run o []).2.state.sorted
  restarted : ∀ o'' : Outside, o'' [] .readState = .ok (stored ((runCycle c d).asked o [])) →
    ∃ d', (loadDaemon c).run o'' [] = .ok d' ∧
      d'.state = ((runCycle c d).run o []).2.state.sorted

section Whole

variable {c : BridgeConfig} {o o' : Outside} {d : Daemon}

/-- Only the last stage writes the state. -/
theorem state?_of_asked_firstStages {i : Request} (hi : i ∈ (firstStages c d).asked o []) :
    i.state? = none := by
  have hframe : Action.Within (fun i => i.state? = none) (fun _ : Daemon => ()) (firstStages c) := by
    have hdeposits : ∀ i : Request, i.OfDeposits → i.state? = none := by
      intro i hi
      cases i with
      | writeState => exact hi.elim
      | _ => rfl
    have hredemptions : ∀ i : Request, i.OfRedemptions → i.state? = none := by
      intro i hi
      cases i with
      | writeState => exact hi.elim
      | _ => rfl
    exact .bind (frame_refreshPendingMints.forget hdeposits) fun _ =>
      .bind (frame_scanNativeDeposits.forget hdeposits) fun _ =>
        frame_scanEvmRedemptions.forget hredemptions
  exact ((hframe d).asked o).1 i hi

theorem Isolated.of_firstStages (hrep : Repairs o o') (hfiles : FilesWritten o)
    (hok : ((runCycle c d).run o' []).1 = .ok ())
    (hnot : ¬ (firstStages c d).Meets o FailedSubmission []) : Isolated c d o o' := by
  obtain ⟨hrun, hasked⟩ := Prog.run_congr hrep.same hnot
  have hok' : (runCycle c d).run o' [] = (.ok (), ((runCycle c d).run o' []).2) := Prod.ext hok rfl
  rw [runCycle_eq] at hok'
  obtain ⟨_, t, ht'⟩ := run_bind_eq_ok hok'
  have ht : (firstStages c d).run o [] = (.ok (), t) := hrun.symm.trans ht'
  rw [run_bind_ok ht', hasked] at hok'
  obtain ⟨t', asked, hreturns, hlast, hsubmitted⟩ := lastStages_returns hrep hfiles hok'
  have hrun₂ : (runCycle c d).run o [] = (.ok (), t') := by
    rw [runCycle_eq, run_bind_ok ht, hreturns]
  have hasked₂ : (runCycle c d).asked o []
      = (firstStages c d).asked o [] ++ (asked ++ [.writeState t'.state.sorted]) := by
    rw [runCycle_eq, asked_bind_ok ht, hlast]
  have hpersisted : stored ((runCycle c d).asked o []) = some t'.state.sorted := by
    rw [hasked₂, stored, ← List.append_assoc, List.reverse_concat]
    rfl
  refine ⟨fun i hi hsub => ?_, by rw [hpersisted, hrun₂], fun o'' hread => ?_⟩
  · rw [runCycle_eq, asked_bind_ok ht', hasked] at hi
    rw [hasked₂]
    rcases List.mem_append.mp hi with hi | hi
    · exact List.mem_append_left _ hi
    · exact List.mem_append_right _ (List.mem_append_left _ (hsubmitted i hi hsub))
  · refine ⟨⟨t'.state.sorted, .empty⟩, ?_, by rw [hrun₂]⟩
    rw [loadDaemon, Prog.run, hread, hpersisted]
    rfl

/-- Nothing is persisted by a cycle that a submission of the first stages
leaves. -/
theorem Isolated.not_meets (h : Isolated c d o o') :
    ¬ (firstStages c d).Meets o FailedSubmission [] := by
  intro hmeets
  obtain ⟨e, t, ht⟩ := (strict_firstStages d).raises hmeets
  have hpersisted := h.persisted
  rw [runCycle_eq, asked_bind_error ht] at hpersisted
  obtain ⟨i, hi, hstate⟩ := List.exists_of_findSome?_eq_some hpersisted
  rw [state?_of_asked_firstStages (List.mem_reverse.mp hi)] at hstate
  cases hstate

/-- When nothing else fails, failing submissions are isolated if and only if
all of them are made by `refresh_pending_releases`. -/
theorem isolated_iff (hrep : Repairs o o') (hfiles : FilesWritten o)
    (hok : ((runCycle c d).run o' []).1 = .ok ()) :
    Isolated c d o o' ↔ ¬ (firstStages c d).Meets o FailedSubmission [] :=
  ⟨Isolated.not_meets, Isolated.of_firstStages hrep hfiles hok⟩

end Whole

/-! ## Samples -/

/-- An outside without deposits and logs, where some submissions fail. -/
def sampleOutside (fails : Request → Bool) : Outside := fun _ i =>
  match i with
  | .castMintFromBridge .. => if fails i then .error .osError else .ok (Text.ofString "0x01")
  | .sendToAddress .. => if fails i then .error .osError else .ok (txidText 5)
  | .castIsProcessedDeposit .. => .ok (Text.ofString "false")
  | .getAddressTxids .. => .ok []
  | .getBlockchainInfo => .ok (some true)
  | .getAddressSummary .. => .ok (some 0)
  | .ethBlockNumber => .ok 0
  | .ethGetLogs .. => .ok []
  | .castTotalSupply .. => .ok 0
  | .time => .ok 1000000000
  | .readState => .ok none
  | .writeState _ => .ok ()
  | .writeReserveStatus _ => .ok ()
  | .getRawTransaction _ => .error .osError
  | .castAbiEncode .. => .error .osError
  | .castKeccak _ => .error .osError

theorem sampleOutside_repairs (fails : Request → Bool) :
    Repairs (sampleOutside fails) (sampleOutside fun _ => false) where
  same h i hnot := by
    have hsame : i.Submission → fails i = false := by
      intro hsub
      refine Bool.eq_false_iff.mpr fun hfails => hnot ⟨hsub, .osError, ?_⟩
      cases i with
      | castMintFromBridge => exact if_pos hfails
      | sendToAddress => exact if_pos hfails
      | _ => exact hsub.elim
    cases i with
    | castMintFromBridge => exact (if_neg (by rw [hsame trivial]; nofun)).symm
    | sendToAddress => exact (if_neg (by rw [hsame trivial]; nofun)).symm
    | _ => rfl
  succeeds h i hsub := by
    cases i with
    | castMintFromBridge => exact ⟨_, rfl⟩
    | sendToAddress => exact ⟨_, rfl⟩
    | _ => exact hsub.elim

theorem sampleOutside_files (fails : Request → Bool) : FilesWritten (sampleOutside fails) :=
  ⟨fun _ _ => rfl, fun _ _ => rfl⟩

def samplePendingMint (depositId : Text) : MintEntry where
  depositId := depositId
  nativeTxid := txidText 9
  outputIndex := 0
  recipient := Text.ofString "0x00000000000000000000000000000000000000aa"
  amountSats := 1
  amountWei := bridgeUnitWei
  confirmations := 6
  nativeSender := []
  attempts := 0
  status := .awaitingMint
  evmTxHash := none
  lastSubmitAt := none

/-- Two deposits whose mints are due. -/
def sampleMints : Daemon where
  state := ((DaemonState.initial sampleConfig).putPendingMint (txidText 1)
    (samplePendingMint (txidText 1))).putPendingMint (txidText 2) (samplePendingMint (txidText 2))
  nativeTxCache := .empty

/-- A mint for one deposit. -/
def mintsDeposit (depositId : Text) : Request → Bool
  | .castMintFromBridge _ _ _ submitted _ _ => decide (ensureBytes32 depositId = .ok submitted)
  | _ => false

/-- The mint for the first deposit fails, and that for the second is not
submitted. -/
theorem not_isolated : ∃ c d o o', Repairs o o' ∧ FilesWritten o ∧
    ((runCycle c d).run o' []).1 = .ok () ∧ ¬ Isolated c d o o' := by
  refine ⟨sampleConfig, sampleMints, sampleOutside (mintsDeposit (txidText 1)), _,
    sampleOutside_repairs _, sampleOutside_files _, by decide, fun h => ?_⟩
  have hrepaired : ((runCycle sampleConfig sampleMints).asked (sampleOutside fun _ => false) []).any
      (mintsDeposit (txidText 2)) = true := by decide
  have hfailed : ((runCycle sampleConfig sampleMints).asked
      (sampleOutside (mintsDeposit (txidText 1))) []).any (mintsDeposit (txidText 2)) = false := by
    decide
  obtain ⟨i, hi, hmints⟩ := List.any_eq_true.mp hrepaired
  have hsub : i.Submission := by
    cases i with
    | castMintFromBridge => trivial
    | _ => cases hmints
  rw [List.any_eq_true.mpr ⟨i, h.submitted i hi hsub, hmints⟩] at hfailed
  cases hfailed

def samplePendingRelease (redemptionId : Text) : ReleaseEntry where
  event :=
    { redemptionId := redemptionId
      account := addressText 1
      operator := addressText 1
      nativeDestination := Text.ofString "crx1dest"
      amountWei := 20000000000
      amountSats := 2
      nonce := 1
      evmTxHash := txidText 7
      evmBlockNumber := 4
      evmLogIndex := 0 }
  nativeReleaseTxid := none
  nativeReleaseConfirmations := none
  status := .awaitingRelease

/-- Two redemptions that are not paid yet. -/
def samplePayments : Daemon where
  state := ((DaemonState.initial sampleConfig).putPendingRelease (txidText 1)
    (samplePendingRelease (txidText 1))).putPendingRelease (txidText 2)
    (samplePendingRelease (txidText 2))
  nativeTxCache := .empty

/-- The payment of one redemption. -/
def paysRedemption (redemptionId : Text) : Request → Bool
  | .sendToAddress _ _ opReturn => decide (opReturn = releaseMemo redemptionId)
  | _ => false

/-- The first payment fails and the second is made. -/
theorem isolated_iff_sample :
    Isolated sampleConfig samplePayments (sampleOutside (paysRedemption (txidText 1)))
      (sampleOutside fun _ => false) := by
  refine (isolated_iff (sampleOutside_repairs _) (sampleOutside_files _)
    (by decide)).mpr fun hmeets => ?_
  obtain ⟨i, hi, -, hsub, -⟩ := hmeets.exists_asked
  have hnone : ((firstStages sampleConfig samplePayments).asked
      (sampleOutside (paysRedemption (txidText 1))) []).all (fun i => match i with
        | .castMintFromBridge .. | .sendToAddress .. => false
        | _ => true) = true := by decide
  have hi' := List.all_eq_true.mp hnone i hi
  cases i with
  | castMintFromBridge => cases hi'
  | sendToAddress => cases hi'
  | _ => exact hsub.elim

end Bridge

end Cryptex
