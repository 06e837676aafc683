import Cryptex.Bridge.NativeJson
import Cryptex.Bridge.RedemptionLog
import Cryptex.Lib.Interaction
import Cryptex.Lib.OrderedDict
import Mathlib.Data.Char
import Mathlib.Data.List.Lex

/-!
# The bridge daemon

`BridgeDaemon` of `bridge_daemon.py`, as a program that asks the native node,
the EVM node, `cast`, the clock and the file system. Every question may be
answered by an exception. Time is in microseconds. The `updated_at` stamps and
the log lines, which nothing reads, are left out.
-/

namespace Cryptex

namespace Bridge

open Interaction

/-! ## Configuration and state -/

/-- What `parse_config` accepts, without the addresses and secrets of the
clients. -/
structure BridgeConfig where
  reserveAddress : Text
  depositConfirmations : Nat
  releaseConfirmations : Nat
  scanLimit : Nat
  wrappedContractAddress : Text
  confirmations : Nat
  startBlock : Nat
  chainName : Text
  chainId : Nat
  explorerUrl : Text
  mintResubmitAfterSeconds : Nat
  redemptionBlockBatchSize : Nat
  autoMint : Bool
  autoReleaseRedemptions : Bool
  depositMemoPrefix : Text
  operatorMode : Text
  notes : Text
  one_le_depositConfirmations : 1 ≤ depositConfirmations
  one_le_releaseConfirmations : 1 ≤ releaseConfirmations
  le_scanLimit : 25 ≤ scanLimit
  le_redemptionBlockBatchSize : 100 ≤ redemptionBlockBatchSize
  contract_address : evmAddressRe wrappedContractAddress = true

inductive MintStatus where
  | awaitingMint
  | mintSubmitted
  | mintResubmitted
  | minted
  | alreadyProcessedOnchain
deriving DecidableEq

/-- An entry of `pending_mints` or `processed_deposits`. -/
structure MintEntry where
  depositId : Text
  nativeTxid : Text
  outputIndex : Nat
  recipient : Text
  amountSats : Int
  amountWei : Int
  confirmations : Nat
  nativeSender : Text
  attempts : Nat
  status : MintStatus
  evmTxHash : Option Text
  lastSubmitAt : Option Int
deriving DecidableEq

inductive ReleaseStatus where
  | awaitingRelease
  | waitingForNativeChainApproval
  | nativeReleaseSubmitted
  | releaseError (e : PyError)
  | releasePending (e : PyError)
  | released
deriving DecidableEq

/-- An entry of `pending_releases` or `processed_redemptions`. -/
structure ReleaseEntry where
  event : RedemptionEvent
  nativeReleaseTxid : Option Text
  nativeReleaseConfirmations : Option Nat
  status : ReleaseStatus
deriving DecidableEq

/-- The state that is persisted. -/
structure DaemonState where
  lastEvmBlock : Int
  processedDeposits : OrderedDict Text MintEntry
  pendingMints : OrderedDict Text MintEntry
  processedRedemptions : OrderedDict Text ReleaseEntry
  pendingReleases : OrderedDict Text ReleaseEntry

namespace DaemonState

def putPendingMint (s : DaemonState) (depositId : Text) (entry : MintEntry) : DaemonState :=
  { s with pendingMints := s.pendingMints.insert depositId entry }

def putProcessedDeposit (s : DaemonState) (depositId : Text) (entry : MintEntry) : DaemonState :=
  { s with processedDeposits := s.processedDeposits.insert depositId entry }

def putPendingRelease (s : DaemonState) (redemptionId : Text) (entry : ReleaseEntry) : DaemonState :=
  { s with pendingReleases := s.pendingReleases.insert redemptionId entry }

def putProcessedRedemption (s : DaemonState) (redemptionId : Text) (entry : ReleaseEntry) :
    DaemonState :=
  { s with processedRedemptions := s.processedRedemptions.insert redemptionId entry }

def dropPendingMints (s : DaemonState) (depositIds : List Text) : DaemonState :=
  { s with pendingMints := s.pendingMints.eraseAll depositIds }

def dropPendingReleases (s : DaemonState) (redemptionIds : List Text) : DaemonState :=
  { s with pendingReleases := s.pendingReleases.eraseAll redemptionIds }

end DaemonState

/-- The order of `sort_keys`. -/
def keyLe (a b : Text) : Bool := decide (a ≤ b)

/-- The state as it is written. -/
def DaemonState.sorted (s : DaemonState) : DaemonState where
  lastEvmBlock := s.lastEvmBlock
  processedDeposits := s.processedDeposits.sorted keyLe
  pendingMints := s.pendingMints.sorted keyLe
  processedRedemptions := s.processedRedemptions.sorted keyLe
  pendingReleases := s.pendingReleases.sorted keyLe

/-- The default of `_load_state`. -/
def DaemonState.initial (c : BridgeConfig) : DaemonState where
  lastEvmBlock := if 0 < c.startBlock then (c.startBlock : Int) - 1 else -1
  processedDeposits := .empty
  pendingMints := .empty
  processedRedemptions := .empty
  pendingReleases := .empty

/-- The file at `reserve_status_path`. -/
structure ReserveStatus where
  wrappedContractAddress : Text
  reserveWalletAddress : Text
  evmChainName : Text
  evmChainId : Nat
  explorerUrl : Text
  operatorMode : Text
  live : Bool
  nativeLockedSats : Int
  wrappedSupplyWei : Int
  notes : Text
  pendingMintCount : Nat
  pendingReleaseCount : Nat
  processedDepositCount : Nat
  processedRedemptionCount : Nat

/-! ## Questions -/

inductive Request where
  | getAddressTxids (address : Text) (limit : Nat)
  | getRawTransaction (txid : Text)
  | getBlockchainInfo
  | sendToAddress (destination : Text) (sats : Nat) (opReturn : Text)
  | getAddressSummary (address : Text)
  | ethBlockNumber
  | ethGetLogs (address topic0 : Text) (fromBlock toBlock : Int)
  /-- `cast abi-encode f(bytes32,uint32,address,uint256)`. -/
  | castAbiEncode (nativeTxid : Text) (outputIndex : Nat) (recipient : Text) (amountSats : Int)
  | castKeccak (encoded : Text)
  | castTotalSupply (contract : Text)
  | castIsProcessedDeposit (contract depositId : Text)
  | castMintFromBridge (contract recipient : Text) (amountWei : Int)
      (depositId nativeTxid nativeSender : Text)
  | time
  | readState
  | writeState (s : DaemonState)
  | writeReserveStatus (s : ReserveStatus)

/-- What an answer holds when it is none of the exceptions: a JSON value of the
expected form, or what `cast` prints. -/
abbrev Request.Value : Request → Type
  | getAddressTxids .. => List Text
  | getRawTransaction .. => TxJson Text
  /- `chain_approved` -/
  | getBlockchainInfo => Option Bool
  | sendToAddress .. => Text
  /- `balance_sats` -/
  | getAddressSummary .. => Option Int
  | ethBlockNumber => Int
  | ethGetLogs .. => List RawLog
  | castAbiEncode .. | castKeccak .. | castIsProcessedDeposit .. | castMintFromBridge .. => Text
  | castTotalSupply .. => Int
  | time => Int
  | readState => Option DaemonState
  | writeState .. | writeReserveStatus .. => Unit

abbrev Reply (i : Request) : Type := Except PyError i.Value

/-- The fields of the daemon that change. -/
structure Daemon where
  state : DaemonState
  nativeTxCache : OrderedDict Text (TxJson Text)

abbrev Act := Action Request Reply Daemon PyError

/-- A question of the daemon. -/
def call (i : Request) : Act i.Value := Action.request i

def setState (f : DaemonState → DaemonState) : Act Unit :=
  Action.modify fun d => { d with state := f d.state }

def putPendingMint (depositId : Text) (entry : MintEntry) : Act Unit :=
  setState (·.putPendingMint depositId entry)

def putProcessedDeposit (depositId : Text) (entry : MintEntry) : Act Unit :=
  setState (·.putProcessedDeposit depositId entry)

def putPendingRelease (redemptionId : Text) (entry : ReleaseEntry) : Act Unit :=
  setState (·.putPendingRelease redemptionId entry)

def putProcessedRedemption (redemptionId : Text) (entry : ReleaseEntry) : Act Unit :=
  setState (·.putProcessedRedemption redemptionId entry)

/-! ## `CastRunner` -/

/-- The line boundaries of `splitlines`. -/
def isLineBreak (ch : Char) : Bool :=
  (10 ≤ ch.toNat && ch.toNat ≤ 13) || (28 ≤ ch.toNat && ch.toNat ≤ 30) || ch.toNat = 0x85 ||
    ch.toNat = 0x2028 || ch.toNat = 0x2029

/-- `str.splitlines`. -/
def splitLines : Text → List Text
  | [] => []
  | '\r' :: '\n' :: rest => [] :: splitLines rest
  | ch :: rest =>
      if isLineBreak ch then [] :: splitLines rest
      else
        match splitLines rest with
        | [] => [[ch]]
        | line :: lines => (ch :: line) :: lines

/-- `output.splitlines()[-1].strip()`. -/
def lastLine (output : Text) : Except PyError Text :=
  match (splitLines output).getLast? with
  | none => .error .indexError
  | some line => .ok (Text.strip line)

def computeDepositId (nativeTxid : Text) (outputIndex : Nat) (recipient : Text)
    (amountSats : Int) : Act Text := do
  let nativeTxid ← Action.lift (ensureBytes32 nativeTxid)
  let recipient ← Action.lift (normalizeEvmAddress recipient)
  let encoded ← call (.castAbiEncode nativeTxid outputIndex recipient amountSats)
  let output ← call (.castKeccak encoded)
  let line ← Action.lift (lastLine output)
  return Text.lower line

def contractIsProcessedDeposit (contract depositId : Text) : Act Bool := do
  let contract ← Action.lift (normalizeEvmAddress contract)
  let depositId ← Action.lift (ensureBytes32 depositId)
  let output ← call (.castIsProcessedDeposit contract depositId)
  let tail ← Action.lift (lastLine output)
  return decide (Text.lower tail = Text.ofString "true")

def submitBridgeMint (contract recipient : Text) (amountWei : Int)
    (depositId nativeTxid nativeSender : Text) : Act Text := do
  let contract ← Action.lift (normalizeEvmAddress contract)
  let recipient ← Action.lift (normalizeEvmAddress recipient)
  let depositId ← Action.lift (ensureBytes32 depositId)
  let nativeTxid ← Action.lift (ensureBytes32 nativeTxid)
  let output ← call
    (.castMintFromBridge contract recipient amountWei depositId nativeTxid nativeSender)
  Action.lift (lastLine output)

/-! ## Deposits -/

/-- `fetch_native_transaction`. -/
def fetchNativeTransaction (txid : Text) (cache : Bool) : Act (TxJson Text) := do
  let d ← Action.get
  match if cache then d.nativeTxCache.get? txid else none with
  | some tx => return tx
  | none =>
      let tx ← call (.getRawTransaction txid)
      Action.modify fun d =>
        if cache then { d with nativeTxCache := d.nativeTxCache.insert txid tx } else d
      return tx

/-- `fetch_native_transaction` with its exception caught. -/
def tryFetch (txid : Text) : Act (Except PyError (TxJson Text)) :=
  Action.attempt (do return .ok (← fetchNativeTransaction txid false)) fun e => return .error e

/-- The address of the output that an input spends, if it has one. -/
def inputAddress (prevTxid : Text) (prevIndex : Nat) : Act (Option Text) := do
  let prevTx ← fetchNativeTransaction prevTxid true
  match prevTx.vout[prevIndex]? with
  | none => return none
  | some output =>
      let address := Text.strip (output.address.getD [])
      return if address = [] then none else some address

/-- The loop of `extract_sender_reference` over `vin`. -/
def senderAddresses : List (InputJson Text) → List Text → Act (List Text)
  | [], addresses => return addresses
  | vin :: rest, addresses =>
      let prevTxid := Text.strip vin.txid
      if prevTxid = [] ∨ prevTxid = ['0'] then senderAddresses rest addresses
      else do
        let found ← Action.attempt (inputAddress prevTxid vin.vout) fun _ => return none
        match found with
        | none => senderAddresses rest addresses
        | some address =>
            senderAddresses rest
              (if address ∈ addresses then addresses else addresses ++ [address])

def extractSenderReference (tx : TxJson Text) : Act Text := do
  let addresses ← senderAddresses tx.vin []
  if addresses = [] then return (Text.ofString "native-tx:" ++ tx.txid).take 128
  else return (List.intercalate [','] addresses).take 128

section Cycle

variable (c : BridgeConfig)

/-- `enqueue_or_submit_mint`, the entry built by its caller. -/
def enqueueOrSubmitMint (entry : MintEntry) : Act Unit :=
  if !c.autoMint then putPendingMint entry.depositId entry
  else do
    let txHash ← submitBridgeMint c.wrappedContractAddress entry.recipient entry.amountWei
      entry.depositId entry.nativeTxid entry.nativeSender
    let now ← call .time
    putPendingMint entry.depositId
      { entry with
        attempts := 1
        evmTxHash := some txHash
        lastSubmitAt := some now
        status := .mintSubmitted }

/-- The entry of a deposit that was not seen before. -/
def newMintEntry (depositId nativeTxid : Text) (output : OutputJson Text) (recipient : Text)
    (confirmations : Nat) (nativeSender : Text) : MintEntry where
  depositId := depositId
  nativeTxid := nativeTxid
  outputIndex := output.n
  recipient := recipient
  amountSats := output.valueSats
  amountWei := output.valueSats * bridgeUnitWei
  confirmations := confirmations
  nativeSender := nativeSender
  attempts := 0
  status := .awaitingMint
  evmTxHash := none
  lastSubmitAt := none

/-- An output of a deposit transaction. -/
def scanOutput (txid : Text) (confirmations : Nat) (recipient nativeSender : Text)
    (output : OutputJson Text) : Act Unit :=
  if output.address ≠ some c.reserveAddress then return ()
  else if output.valueSats ≤ 0 then return ()
  else do
    let depositId ← computeDepositId txid output.n recipient output.valueSats
    let d ← Action.get
    if d.state.processedDeposits.contains depositId || d.state.pendingMints.contains depositId then
      return ()
    else do
      let entry := newMintEntry depositId txid output recipient confirmations nativeSender
      let processed ← contractIsProcessedDeposit c.wrappedContractAddress depositId
      if processed then
        putProcessedDeposit depositId { entry with status := .alreadyProcessedOnchain }
      else enqueueOrSubmitMint c entry

/-- A transaction of the reserve address. -/
def scanTransaction (txid : Text) : Act Unit := do
  let tx ← fetchNativeTransaction txid false
  let confirmations := tx.confirmations.getD 0
  if confirmations < c.depositConfirmations then return ()
  else if tx.coinbase then return ()
  else do
    let recipient ← Action.lift (extractRecipient c.depositMemoPrefix tx.vout)
    match recipient with
    | none => return ()
    | some recipient => do
        let nativeSender ← extractSenderReference tx
        Action.forEach tx.vout (scanOutput c txid confirmations recipient nativeSender)

def scanNativeDeposits : Act Unit := do
  let txids ← call (.getAddressTxids c.reserveAddress c.scanLimit)
  Action.forEach txids (scanTransaction c)

/-- One round of the loop of `refresh_pending_mints`; true when the entry is
completed. -/
def refreshMint (now : Int) (depositId : Text) (entry : MintEntry) : Act Bool := do
  let processed ← contractIsProcessedDeposit c.wrappedContractAddress depositId
  if processed then do
    let entry := { entry with status := .minted }
    putPendingMint depositId entry
    putProcessedDeposit depositId entry
    return true
  else if !c.autoMint then return false
  else if now - entry.lastSubmitAt.getD 0 < c.mintResubmitAfterSeconds * 1000000 then return false
  else do
    let txHash ← submitBridgeMint c.wrappedContractAddress entry.recipient entry.amountWei
      depositId entry.nativeTxid entry.nativeSender
    let now ← call .time
    putPendingMint depositId
      { entry with
        attempts := entry.attempts + 1
        evmTxHash := some txHash
        lastSubmitAt := some now
        status := .mintResubmitted }
    return false

def refreshMints (now : Int) : List (Text × MintEntry) → List Text → Act (List Text)
  | [], completed => return completed
  | (depositId, entry) :: rest, completed => do
      let done ← refreshMint c now depositId entry
      refreshMints now rest (if done then completed ++ [depositId] else completed)

def refreshPendingMints : Act Unit := do
  let now ← call .time
  let d ← Action.get
  let completed ← refreshMints c now d.state.pendingMints.entries []
  setState (·.dropPendingMints completed)

/-! ## Redemptions -/

def releaseMemo (redemptionId : Text) : Text := Text.ofString "BRIDGE-REDEEM:" ++ redemptionId

def submitNativeRelease (redemptionId : Text) (entry : ReleaseEntry) : Act Unit := do
  let approved ← call .getBlockchainInfo
  if !approved.getD true then
    putPendingRelease redemptionId { entry with status := .waitingForNativeChainApproval }
  else do
    let txid ← call (.sendToAddress entry.event.nativeDestination entry.event.amountSats
      (releaseMemo redemptionId))
    putPendingRelease redemptionId
      { entry with nativeReleaseTxid := some txid, status := .nativeReleaseSubmitted }

/-- `{**existing, **event}`, with the default status. -/
def mergeEvent (existing : Option ReleaseEntry) (event : RedemptionEvent) : ReleaseEntry :=
  match existing with
  | none =>
      { event := event
        nativeReleaseTxid := none
        nativeReleaseConfirmations := none
        status := .awaitingRelease }
  | some entry => { entry with event := event }

def scanLog (rawLog : RawLog) : Act Unit := do
  let event ← Action.lift (decodeRedemptionRequested rawLog)
  let redemptionId := event.redemptionId
  let d ← Action.get
  if d.state.processedRedemptions.contains redemptionId then return ()
  else do
    let merged := mergeEvent (d.state.pendingReleases.get? redemptionId) event
    putPendingRelease redemptionId merged
    if c.autoReleaseRedemptions ∧ merged.nativeReleaseTxid.getD [] = [] then
      submitNativeRelease redemptionId merged
    else return ()

/-- The last block of the batch that starts at `current`. -/
def upperBlock (finalizedBlock current : Int) : Int :=
  min finalizedBlock (current + c.redemptionBlockBatchSize - 1)

/-- The loop of `scan_evm_redemptions`, for at most so many batches. -/
def scanBatches (finalizedBlock : Int) : Nat → Int → Act Unit
  | 0, _ => return ()
  | batches + 1, current =>
      if current ≤ finalizedBlock then do
        let upper := upperBlock c finalizedBlock current
        let contract ← Action.lift (normalizeEvmAddress c.wrappedContractAddress)
        let logs ← call (.ethGetLogs contract redemptionRequestedTopic0 current upper)
        Action.forEach logs (scanLog c)
        setState fun s => { s with lastEvmBlock := upper }
        scanBatches finalizedBlock batches (upper + 1)
      else return ()

def scanEvmRedemptions : Act Unit := do
  let latestBlock ← call .ethBlockNumber
  let finalizedBlock := latestBlock - c.confirmations + 1
  if finalizedBlock < 0 then return ()
  else do
    let d ← Action.get
    let fromBlock := max (d.state.lastEvmBlock + 1) c.startBlock
    if finalizedBlock < fromBlock then return ()
    -- every batch has at least one block
    else scanBatches c finalizedBlock (finalizedBlock + 1 - fromBlock).toNat fromBlock

/-- One round of the loop of `refresh_pending_releases`; true when the entry is
completed. -/
def refreshRelease (redemptionId : Text) (entry : ReleaseEntry) : Act Bool :=
  let txid := Text.strip (entry.nativeReleaseTxid.getD [])
  if txid = [] then
    if c.autoReleaseRedemptions then do
      Action.attempt (submitNativeRelease redemptionId entry) fun e =>
        putPendingRelease redemptionId { entry with status := .releaseError e }
      return false
    else return false
  else do
    let fetched ← tryFetch txid
    match fetched with
    | .error e => do
        putPendingRelease redemptionId { entry with status := .releasePending e }
        return false
    | .ok tx =>
        let confirmations := tx.confirmations.getD 0
        let entry := { entry with nativeReleaseConfirmations := some confirmations }
        if c.releaseConfirmations ≤ confirmations then do
          let entry := { entry with status := .released }
          putPendingRelease redemptionId entry
          putProcessedRedemption redemptionId entry
          return true
        else do
          putPendingRelease redemptionId entry
          return false

def refreshReleases : List (Text × ReleaseEntry) → List Text → Act (List Text)
  | [], completed => return completed
  | (redemptionId, entry) :: rest, completed => do
      let done ← refreshRelease c redemptionId entry
      refreshReleases rest (if done then completed ++ [redemptionId] else completed)

def refreshPendingReleases : Act Unit := do
  let d ← Action.get
  let completed ← refreshReleases c d.state.pendingReleases.entries []
  setState (·.dropPendingReleases completed)

/-! ## The cycle -/

def writeReserveSnapshot : Act Unit := do
  let balance ← call (.getAddressSummary c.reserveAddress)
  let nativeLockedSats := balance.getD 0
  let contract ← Action.lift (normalizeEvmAddress c.wrappedContractAddress)
  let wrappedSupplyWei ← call (.castTotalSupply contract)
  let d ← Action.get
  call (.writeReserveStatus
    { wrappedContractAddress := contract
      reserveWalletAddress := c.reserveAddress
      evmChainName := c.chainName
      evmChainId := c.chainId
      explorerUrl := c.explorerUrl
      operatorMode := c.operatorMode
      live := decide (nativeLockedSats * bridgeUnitWei ≥ wrappedSupplyWei)
      nativeLockedSats := nativeLockedSats
      wrappedSupplyWei := wrappedSupplyWei
      notes := c.notes
      pendingMintCount := d.state.pendingMints.entries.length
      pendingReleaseCount := d.state.pendingReleases.entries.length
      processedDepositCount := d.state.processedDeposits.entries.length
      processedRedemptionCount := d.state.processedRedemptions.entries.length })

def persistState : Act Unit := do
  let d ← Action.get
  call (.writeState d.state.sorted)

def runCycle : Act Unit := do
  refreshPendingMints c
  scanNativeDeposits c
  scanEvmRedemptions c
  refreshPendingReleases c
  writeReserveSnapshot c
  persistState

/-- `_load_state`, with what the constructor sets up. -/
def loadDaemon : Prog Request Reply (Except PyError Daemon) :=
  .ask .readState fun r => .done (r.map fun stored =>
    { state := stored.getD (.initial c), nativeTxCache := .empty })

end Cycle

/-- The configuration of the samples. -/
def sampleConfig : BridgeConfig where
  reserveAddress := Text.ofString "AAAAAAAAAAAAAAAAAAAAAAAAAAE="
  depositConfirmations := 6
  releaseConfirmations := 1
  scanLimit := 25
  wrappedContractAddress := Text.ofString "0x0000000000000000000000000000000000000077"
  confirmations := 12
  startBlock := 0
  chainName := Text.ofString "Ethereum Mainnet"
  chainId := 1
  explorerUrl := []
  mintResubmitAfterSeconds := 300
  redemptionBlockBatchSize := 2000
  autoMint := true
  autoReleaseRedemptions := true
  depositMemoPrefix := Text.ofString "EVM:"
  operatorMode := Text.ofString "automated-custodial"
  notes := []
  one_le_depositConfirmations := by decide
  one_le_releaseConfirmations := by decide
  le_scanLimit := by decide
  le_redemptionBlockBatchSize := by decide
  contract_address := by decide

end Bridge

end Cryptex
