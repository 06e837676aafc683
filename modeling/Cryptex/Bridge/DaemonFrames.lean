import Cryptex.Bridge.Daemon

/-!
# The two sides of the daemon

Minting and releasing share the node and the state file and nothing else: what
each side asks, and that it leaves the entries of the other alone.
-/

namespace Cryptex

namespace Bridge

open Interaction Action

/-- The questions of `refresh_pending_mints` and `scan_native_deposits`. -/
def Request.OfDeposits : Request → Prop
  | getAddressTxids .. | getRawTransaction .. | castAbiEncode .. | castKeccak ..
  | castIsProcessedDeposit .. | castMintFromBridge .. | time => True
  | _ => False

/-- The question of `extract_sender_reference`. -/
def Request.OfSenders : Request → Prop
  | getRawTransaction .. => True
  | _ => False

/-- The questions of `scan_evm_redemptions` and `refresh_pending_releases`. -/
def Request.OfRedemptions : Request → Prop
  | getRawTransaction .. | getBlockchainInfo | sendToAddress .. | ethBlockNumber
  | ethGetLogs .. => True
  | _ => False

/-- The questions of `write_reserve_snapshot`. -/
def Request.OfSnapshot : Request → Prop
  | getAddressSummary .. | castTotalSupply .. | writeReserveStatus .. => True
  | _ => False

namespace DaemonState

def mints (s : DaemonState) : OrderedDict Text MintEntry × OrderedDict Text MintEntry :=
  (s.processedDeposits, s.pendingMints)

def releases (s : DaemonState) : OrderedDict Text ReleaseEntry × OrderedDict Text ReleaseEntry :=
  (s.processedRedemptions, s.pendingReleases)

end DaemonState

/-- An action that asks only certain questions and leaves what a view shows of
the persisted state. -/
abbrev Frame {α τ : Type} (asks : Request → Prop) (view : DaemonState → τ) (x : Act α) : Prop :=
  x.Within asks fun d => view d.state

variable {τ : Type} {view : DaemonState → τ}

theorem frame_setState {asks : Request → Prop} {f : DaemonState → DaemonState}
    (h : ∀ s, view (f s) = view s) : Frame asks view (setState f) :=
  .modify fun d => h d.state

theorem frame_fetchNativeTransaction {asks : Request → Prop} {txid : Text}
    (hasks : asks (.getRawTransaction txid)) (cache : Bool) :
    Frame asks view (fetchNativeTransaction txid cache) := by
  refine .bind .get fun d => ?_
  split
  · exact .pure
  · refine .bind (.request hasks) fun tx => .bind (.modify fun s => ?_) fun _ => .pure
    split
    · rfl
    · rfl

theorem frame_tryFetch {asks : Request → Prop} {txid : Text}
    (hasks : asks (.getRawTransaction txid)) : Frame asks view (tryFetch txid) :=
  .attempt (.bind (frame_fetchNativeTransaction hasks false) fun _ => .pure) fun _ => .pure

/-! ## Deposits -/

section Deposits

theorem frame_computeDepositId {nativeTxid : Text} {outputIndex : Nat} {recipient : Text}
    {amountSats : Int} : Frame Request.OfDeposits view
      (computeDepositId nativeTxid outputIndex recipient amountSats) :=
  .bind .lift fun _ => .bind .lift fun _ => .bind (.request trivial) fun _ =>
    .bind (.request trivial) fun _ => .bind .lift fun _ => .pure

theorem frame_contractIsProcessedDeposit {contract depositId : Text} :
    Frame Request.OfDeposits view (contractIsProcessedDeposit contract depositId) :=
  .bind .lift fun _ => .bind .lift fun _ => .bind (.request trivial) fun _ =>
    .bind .lift fun _ => .pure

theorem frame_submitBridgeMint {contract recipient : Text} {amountWei : Int}
    {depositId nativeTxid nativeSender : Text} : Frame Request.OfDeposits view
      (submitBridgeMint contract recipient amountWei depositId nativeTxid nativeSender) :=
  .bind .lift fun _ => .bind .lift fun _ => .bind .lift fun _ => .bind .lift fun _ =>
    .bind (.request trivial) fun _ => .lift

theorem frame_inputAddress {asks : Request → Prop} {prevTxid : Text} {prevIndex : Nat}
    (hasks : asks (.getRawTransaction prevTxid)) :
    Frame asks view (inputAddress prevTxid prevIndex) := by
  refine .bind (frame_fetchNativeTransaction hasks true) fun tx => ?_
  split
  · exact .pure
  · exact .pure

theorem frame_senderAddresses {asks : Request → Prop}
    (hasks : ∀ txid, asks (.getRawTransaction txid)) : ∀ {vin : List (InputJson Text)}
      {addresses : List Text}, Frame asks view (senderAddresses vin addresses)
  | [], _ => .pure
  | vin :: rest, addresses => by
      rw [senderAddresses]
      split
      · exact frame_senderAddresses hasks
      · refine .bind (.attempt (frame_inputAddress (hasks _)) fun _ => .pure) fun found => ?_
        cases found with
        | none => exact frame_senderAddresses hasks
        | some address => exact frame_senderAddresses hasks

theorem frame_extractSenderReference {asks : Request → Prop}
    (hasks : ∀ txid, asks (.getRawTransaction txid)) {tx : TxJson Text} :
    Frame asks view (extractSenderReference tx) := by
  refine .bind (frame_senderAddresses hasks) fun addresses => ?_
  split
  · exact .pure
  · exact .pure

variable {c : BridgeConfig}

theorem frame_enqueueOrSubmitMint {entry : MintEntry} :
    Frame Request.OfDeposits DaemonState.releases (enqueueOrSubmitMint c entry) := by
  rw [enqueueOrSubmitMint]
  split
  · exact frame_setState fun _ => rfl
  · exact .bind frame_submitBridgeMint fun _ => .bind (.request trivial) fun _ =>
      frame_setState fun _ => rfl

theorem frame_scanOutput {txid : Text} {confirmations : Nat} {recipient nativeSender : Text}
    {output : OutputJson Text} : Frame Request.OfDeposits DaemonState.releases
      (scanOutput c txid confirmations recipient nativeSender output) := by
  rw [scanOutput]
  split
  · exact .pure
  · split
    · exact .pure
    · refine .bind frame_computeDepositId fun depositId => .bind .get fun d => ?_
      split
      · exact .pure
      · refine .bind frame_contractIsProcessedDeposit fun processed => ?_
        split
        · exact frame_setState fun _ => rfl
        · exact frame_enqueueOrSubmitMint

theorem frame_scanTransaction {txid : Text} :
    Frame Request.OfDeposits DaemonState.releases (scanTransaction c txid) := by
  refine .bind (frame_fetchNativeTransaction True.intro false) fun tx => ?_
  dsimp only
  split
  · exact .pure
  · split
    · exact .pure
    · refine .bind .lift fun recipient => ?_
      cases recipient with
      | none => exact .pure
      | some recipient =>
          exact .bind (frame_extractSenderReference fun _ => True.intro) fun _ =>
            .forEach fun _ => frame_scanOutput

theorem frame_scanNativeDeposits :
    Frame Request.OfDeposits DaemonState.releases (scanNativeDeposits c) :=
  .bind (.request trivial) fun _ => .forEach fun _ => frame_scanTransaction

theorem frame_refreshMint {now : Int} {depositId : Text} {entry : MintEntry} :
    Frame Request.OfDeposits DaemonState.releases (refreshMint c now depositId entry) := by
  refine .bind frame_contractIsProcessedDeposit fun processed => ?_
  split
  · exact .bind (frame_setState fun _ => rfl) fun _ =>
      .bind (frame_setState fun _ => rfl) fun _ => .pure
  · split
    · exact .pure
    · split
      · exact .pure
      · exact .bind frame_submitBridgeMint fun _ => .bind (.request trivial) fun _ =>
          .bind (frame_setState fun _ => rfl) fun _ => .pure

theorem frame_refreshMints {now : Int} : ∀ {entries : List (Text × MintEntry)}
    {completed : List Text},
    Frame Request.OfDeposits DaemonState.releases (refreshMints c now entries completed)
  | [], _ => .pure
  | (_, _) :: _, _ => .bind frame_refreshMint fun _ => frame_refreshMints

theorem frame_refreshPendingMints :
    Frame Request.OfDeposits DaemonState.releases (refreshPendingMints c) :=
  .bind (.request trivial) fun _ => .bind .get fun _ => .bind frame_refreshMints fun _ =>
    frame_setState fun _ => rfl

end Deposits

/-! ## Redemptions -/

section Redemptions

variable {c : BridgeConfig}

theorem frame_submitNativeRelease {redemptionId : Text} {entry : ReleaseEntry} :
    Frame Request.OfRedemptions DaemonState.mints (submitNativeRelease redemptionId entry) := by
  refine .bind (.request trivial) fun approved => ?_
  split
  · exact frame_setState fun _ => rfl
  · exact .bind (.request trivial) fun _ => frame_setState fun _ => rfl

theorem frame_scanLog {rawLog : RawLog} :
    Frame Request.OfRedemptions DaemonState.mints (scanLog c rawLog) := by
  refine .bind .lift fun event => .bind .get fun d => ?_
  split
  · exact .pure
  · refine .bind (frame_setState fun _ => rfl) fun _ => ?_
    split
    · exact frame_submitNativeRelease
    · exact .pure

theorem frame_scanBatches {finalizedBlock : Int} : ∀ {batches : Nat} {current : Int},
    Frame Request.OfRedemptions DaemonState.mints (scanBatches c finalizedBlock batches current)
  | 0, _ => .pure
  | batches + 1, current => by
      rw [scanBatches]
      split
      · exact .bind .lift fun _ => .bind (.request trivial) fun _ =>
          .bind (.forEach fun _ => frame_scanLog) fun _ =>
            .bind (frame_setState fun _ => rfl) fun _ => frame_scanBatches
      · exact .pure

theorem frame_scanEvmRedemptions :
    Frame Request.OfRedemptions DaemonState.mints (scanEvmRedemptions c) := by
  refine .bind (.request trivial) fun latestBlock => ?_
  dsimp only
  split
  · exact .pure
  · refine .bind .get fun d => ?_
    split
    · exact .pure
    · exact frame_scanBatches

theorem frame_refreshRelease {redemptionId : Text} {entry : ReleaseEntry} :
    Frame Request.OfRedemptions DaemonState.mints (refreshRelease c redemptionId entry) := by
  rw [refreshRelease]
  split
  · split
    · exact .bind (.attempt frame_submitNativeRelease fun _ => frame_setState fun _ => rfl)
        fun _ => .pure
    · exact .pure
  · refine .bind (frame_tryFetch trivial) fun fetched => ?_
    cases fetched with
    | error e => exact .bind (frame_setState fun _ => rfl) fun _ => .pure
    | ok tx =>
        dsimp only
        split
        · exact .bind (frame_setState fun _ => rfl) fun _ =>
            .bind (frame_setState fun _ => rfl) fun _ => .pure
        · exact .bind (frame_setState fun _ => rfl) fun _ => .pure

theorem frame_refreshReleases : ∀ {entries : List (Text × ReleaseEntry)} {completed : List Text},
    Frame Request.OfRedemptions DaemonState.mints (refreshReleases c entries completed)
  | [], _ => .pure
  | (_, _) :: _, _ => .bind frame_refreshRelease fun _ => frame_refreshReleases

theorem frame_refreshPendingReleases :
    Frame Request.OfRedemptions DaemonState.mints (refreshPendingReleases c) :=
  .bind .get fun _ => .bind frame_refreshReleases fun _ => frame_setState fun _ => rfl

end Redemptions

theorem frame_writeReserveSnapshot {c : BridgeConfig} :
    Frame Request.OfSnapshot view (writeReserveSnapshot c) :=
  .bind (.request trivial) fun _ => .bind .lift fun _ => .bind (.request trivial) fun _ =>
    .bind .get fun _ => .request trivial

end Bridge

end Cryptex
