import Cryptex.Lib.Registry
import Cryptex.Network.DownloadBookkeeping
import Cryptex.Network.PeerSession
import Mathlib.Order.Lattice.Nat

/-!
# Announced heights

`NetworkNode` keeps the height that each peer has announced under the label of
its session, and takes the entry of that label off when the session is removed.
The label may have changed in between: a VERSION message replaces it, and a
session without a label of its own is "unknown" once its socket is closed. The
heights that stay behind count in `sync_status`, which decides whether the chain
is approved.
-/

namespace Cryptex

open Codec Encoding Download

namespace Peers

/-- What the handlers use of the chain. -/
structure PeerChain (χ : Type) extends ChainAccess χ where
  getHeightByHash : χ → Nat → Option Nat
  bestHeight : χ → Nat

/-- The chain of the node. -/
def peerChain (c : Crypto) (p : ChainParams) (env : Env) (fuel : Nat) : PeerChain Blockchain where
  toChainAccess := chainAccess c p env fuel
  getHeightByHash := Blockchain.getHeightByHash
  bestHeight := Blockchain.bestHeight

/-- The node with its sessions and the heights of its peers. -/
structure PeerNode (χ : Type) where
  net : DownloadNode χ
  session : Nat → PeerSession
  peerHeights : FinMap Bytes UInt32

variable {χ : Type}

namespace PeerNode

def remoteLabel (n : PeerNode χ) (peer : Nat) : Bytes := (n.session peer).remoteLabel

def withSession (n : PeerNode χ) (peer : Nat) (s : PeerSession) : PeerNode χ :=
  { n with session := Function.update n.session peer s }

def notePeerAnnouncedHeight (n : PeerNode χ) (label : Bytes) (height : UInt32) : PeerNode χ :=
  { n with
    peerHeights := n.peerHeights.insert label (max ((n.peerHeights.lookup label).getD 0) height) }

/-- `NetworkNode::remove_session`. -/
def remove (n : PeerNode χ) (peer : Nat) : PeerNode χ :=
  { n with
    net := removeSession peer n.net
    peerHeights := n.peerHeights.erase (n.remoteLabel peer) }

/-- `PeerSession::close`: the socket first, then the session. -/
def close (n : PeerNode χ) (peer : Nat) : PeerNode χ :=
  (n.withSession peer (n.session peer).unplugged).remove peer

end PeerNode

/-! ## Status -/

structure SyncStatus where
  localHeight : Nat
  bestPeerHeight : Nat
  queuedBlocks : Nat
  inflightBlocks : Nat
  connectedPeers : Nat
  validatedPeers : Nat
  syncing : Bool

def syncStatus (access : PeerChain χ) (n : PeerNode χ) : SyncStatus :=
  let localHeight := access.bestHeight n.net.chain % 2 ^ 32
  let bestPeerHeight :=
    n.peerHeights.keys.sup fun label => ((n.peerHeights.lookup label).getD 0).toNat
  let queuedBlocks := n.net.downloads.queued.card
  let inflightBlocks := n.net.downloads.inflight.card
  { localHeight := localHeight
    bestPeerHeight := bestPeerHeight
    queuedBlocks := queuedBlocks
    inflightBlocks := inflightBlocks
    connectedPeers := n.net.sessions.card
    validatedPeers := (n.net.sessions.filter fun i => (n.session i).versionSeen).card
    syncing := bestPeerHeight > localHeight || queuedBlocks > 0 || inflightBlocks > 0 }

/-- What `update_chain_approval_state` tells the chain: whether it is approved,
the number of peers and the height of the network. -/
def chainApproval (status : SyncStatus) : Bool × Nat × Nat :=
  if status.validatedPeers > 0 ∨ status.bestPeerHeight > 0 then
    (!status.syncing && status.localHeight ≥ status.bestPeerHeight, status.validatedPeers,
      status.bestPeerHeight)
  else
    let approved := status.localHeight > 0
    (approved, 0, if approved then status.localHeight else status.localHeight + 1)

/-! ## Messages -/

section

variable (access : PeerChain χ) (c : Crypto) (defaultP2pPort : UInt16)

/-- The height of the first header of a message. -/
def firstHeight (chain : χ) (header : BlockHeader) : UInt32 :=
  if header.prevBlockHash = 0 then 0
  else
    match access.getHeightByHash chain header.prevBlockHash.toNat with
    | some height => UInt32.ofNat (height + 1)
    | none => 0

/-- The height that the loop of the HEADERS handler infers for the last header,
from the one of the header before; `none` when the peer is punished. -/
def inferredHeight (chain : χ) : Nat → Option Hash256 → Option UInt32 → Bytes →
    Option (Option UInt32)
  | 0, _, inferred, _ => some inferred
  | count + 1, previousLink, inferred, data =>
      if data = [] then some inferred
      else
        match readBytes data with
        | none => none
        | some (bytes, rest) =>
            match BlockHeader.deserialize bytes.toList with
            | none => none
            | some (header, _) =>
                if linked access.toChainAccess chain previousLink header then
                  let height :=
                    match inferred with
                    | none => firstHeight access chain header
                    | some height => height + 1
                  inferredHeight chain count (some (header.hash c)) (some height) rest
                else none

/-- The height that a HEADERS message announces. -/
def headersHeight (chain : χ) (payload : Bytes) : Option (Option UInt32) :=
  match readVarint payload with
  | none => none
  | some (count, data) =>
      if count > Constants.maxHeadersPerMessage then none
      else inferredHeight access c chain count none none data

/-- The height that a BLOCK message announces: that of the block, if the chain
took it and gives it one. -/
def blockHeight (chain : χ) (payload : Bytes) : Option UInt32 :=
  match Block.deserialize payload with
  | none => none
  | some (blk, _) =>
      match access.acceptBlock chain blk with
      | some (true, chain) =>
          (access.getHeightByHash chain (blk.header.powHash c).toNat).map UInt32.ofNat
      | _ => none

/-- The end of a handler: the peer announces a height or is punished, and a
peer that is banned by that is closed. -/
def PeerNode.finish (n : PeerNode χ) (peer : Nat) (height : Option UInt32) (punished banned : Bool) :
    PeerNode χ :=
  let n :=
    match height with
    | some height => n.notePeerAnnouncedHeight (n.remoteLabel peer) height
    | none => n
  if punished && banned then n.close peer else n

/-- The VERSION handler. -/
def versionHandler (peer : Nat) (payload : Bytes) (banned : Bool) (n : PeerNode χ) : PeerNode χ :=
  match VersionPayload.deserialize defaultP2pPort payload with
  | none => n.finish peer none true banned
  | some version =>
      let n := n.withSession peer ((n.session peer).greeted defaultP2pPort version)
      n.finish peer (some version.bestHeight) false banned

/-- The HEADERS handler. -/
def headersHandler (peer : Nat) (payload : Bytes) (banned : Bool) (n : PeerNode χ) : PeerNode χ :=
  let step := Download.headersHandler access.toChainAccess c peer payload n.net
  let height := (headersHeight access c n.net.chain payload).join
  { n with net := step.node }.finish peer height step.punished banned

/-- The BLOCK handler. -/
def blockHandler (peer : Nat) (payload : Bytes) (banned : Bool) (n : PeerNode χ) : PeerNode χ :=
  let step := Download.blockHandler access.toChainAccess c payload n.net
  let height := blockHeight access c n.net.chain payload
  { n with net := step.node }.finish peer height step.punished banned

/-- The INV handler. -/
def invHandler (peer : Nat) (payload : Bytes) (banned : Bool) (n : PeerNode χ) : PeerNode χ :=
  let step := Download.invHandler access.toChainAccess peer payload n.net
  { n with net := step.node }.finish peer none step.punished banned

end

/-! ## Events -/

/-- What can happen to the node. A message may end in the ban of its peer. -/
inductive PeerEvent (χ : Type) where
  | accept (remote : Endpoint)
  /-- A connection of our own; the peer may turn out to be banned or ourselves. -/
  | connect (label : Option Bytes) (endpoint remote : Option Endpoint) (refused : Bool)
  /-- The socket has lost its peer. -/
  | unplug (peer : Nat)
  /-- A read or a write failed, or a message was malformed. -/
  | disconnect (peer : Nat)
  | release (peer : Nat)
  | version (peer : Nat) (payload : Bytes) (banned : Bool)
  | headers (peer : Nat) (payload : Bytes) (banned : Bool)
  | block (peer : Nat) (payload : Bytes) (banned : Bool)
  | inv (peer : Nat) (payload : Bytes) (banned : Bool)
  /-- Any other message; it may change the chain. -/
  | other (peer : Nat) (chain : χ) (punished banned : Bool)
  /-- `set_network_active(false)`. -/
  | deactivate

namespace PeerNode

/-- A new session is started. -/
def start (n : PeerNode χ) (s : PeerSession) : PeerNode χ :=
  { n.withSession n.net.nextSession s with
    net :=
      { n.net with
        sessions := insert n.net.nextSession n.net.sessions
        alive := insert n.net.nextSession n.net.alive
        nextSession := n.net.nextSession + 1 } }

/-- A message reaches its handler while its session is alive. -/
def receive (n : PeerNode χ) (peer : Nat) (handler : PeerNode χ → PeerNode χ) : PeerNode χ :=
  if peer ∈ n.net.alive then handler n else n

end PeerNode

section

variable (access : PeerChain χ) (c : Crypto) (defaultP2pPort : UInt16)

def PeerEvent.run (n : PeerNode χ) : PeerEvent χ → PeerNode χ
  | .accept remote => n.start { remoteEndpoint := some remote }
  | .connect label endpoint remote refused =>
      let s : PeerSession :=
        { remoteLabelOverride := label, endpointOverride := endpoint, remoteEndpoint := remote }
      if refused then { n with peerHeights := n.peerHeights.erase s.unplugged.remoteLabel }
      else n.start s
  | .unplug peer => n.withSession peer (n.session peer).unplugged
  | .disconnect peer => n.remove peer
  | .release peer =>
      if peer ∈ n.net.sessions then n
      else { n with net := { n.net with alive := n.net.alive.erase peer } }
  | .version peer payload banned =>
      n.receive peer (versionHandler defaultP2pPort peer payload banned)
  | .headers peer payload banned => n.receive peer (headersHandler access c peer payload banned)
  | .block peer payload banned => n.receive peer (blockHandler access c peer payload banned)
  | .inv peer payload banned => n.receive peer (invHandler access peer payload banned)
  | .other peer chain punished banned =>
      { n with net := { n.net with chain := chain } }.finish peer none punished banned
  | .deactivate =>
      { net := { n.net with downloads := .empty, sessions := ∅ }
        session := fun peer => if peer ∈ n.net.sessions then (n.session peer).unplugged
          else n.session peer
        peerHeights := ∅ }

end

/-- A node without sessions. -/
def freshPeerNode (chain : χ) : PeerNode χ := ⟨freshDownloadNode chain, fun _ => {}, ∅⟩

/-! ## The downloads of the node -/

section

variable (defaultP2pPort : UInt16)

/-- What an event is for the downloads of the node. -/
def PeerEvent.downloads (n : PeerNode χ) : PeerEvent χ → List (DownloadEvent χ)
  | .accept _ => [.connect]
  | .connect _ _ _ refused => if refused then [] else [.connect]
  | .unplug _ => []
  | .disconnect peer => [.disconnect peer]
  | .release peer => [.release peer]
  | .version peer payload banned =>
      if peer ∈ n.net.alive then
        [.other peer n.net.chain (VersionPayload.deserialize defaultP2pPort payload).isNone banned]
      else []
  | .headers peer payload banned => [.headers peer payload banned]
  | .block peer payload banned => [.block peer payload banned]
  | .inv peer payload banned => [.inv peer payload banned]
  | .other peer chain punished banned => [.other peer chain punished banned]
  | .deactivate => [.deactivate]

end

theorem PeerNode.finish_net (n : PeerNode χ) (peer : Nat) (height : Option UInt32)
    (punished banned : Bool) (sent : List (Nat × Nat)) : (n.finish peer height punished banned).net
      = (closeIfBanned banned peer { node := n.net, sent := sent, punished := punished }).node := by
  cases height with
  | none =>
      rw [finish, closeIfBanned]
      split <;> rfl
  | some height =>
      rw [finish, closeIfBanned]
      split <;> rfl

/-- The sessions and the downloads of the node are those of the download
model. -/
theorem run_net (access : PeerChain χ) (c : Crypto) (defaultP2pPort : UInt16) (n : PeerNode χ)
    (event : PeerEvent χ) : (event.run access c defaultP2pPort n).net
      = runDownloads access.toChainAccess c n.net (event.downloads defaultP2pPort n) := by
  cases event with
  | accept remote => rfl
  | connect label endpoint remote refused =>
      cases refused with
      | true => rfl
      | false => rfl
  | unplug peer => rfl
  | disconnect peer => rfl
  | release peer =>
      rw [PeerEvent.run, PeerEvent.downloads]
      change _ = (DownloadEvent.run access.toChainAccess c n.net (.release peer)).node
      rw [DownloadEvent.run]
      split <;> rfl
  | version peer payload banned =>
      rw [PeerEvent.run, PeerEvent.downloads, PeerNode.receive]
      split
      · cases hv : VersionPayload.deserialize defaultP2pPort payload with
        | none =>
            rw [versionHandler, hv]
            exact PeerNode.finish_net n peer none true banned []
        | some version =>
            rw [versionHandler, hv]
            exact PeerNode.finish_net _ peer (some version.bestHeight) false banned []
      · rfl
  | headers peer payload banned =>
      rw [PeerEvent.run, PeerEvent.downloads, PeerNode.receive]
      change _ = (DownloadEvent.run access.toChainAccess c n.net (.headers peer payload banned)).node
      rw [DownloadEvent.run]
      split
      · exact PeerNode.finish_net _ peer _ _ banned _
      · rfl
  | block peer payload banned =>
      rw [PeerEvent.run, PeerEvent.downloads, PeerNode.receive]
      change _ = (DownloadEvent.run access.toChainAccess c n.net (.block peer payload banned)).node
      rw [DownloadEvent.run]
      split
      · exact PeerNode.finish_net _ peer _ _ banned _
      · rfl
  | inv peer payload banned =>
      rw [PeerEvent.run, PeerEvent.downloads, PeerNode.receive]
      change _ = (DownloadEvent.run access.toChainAccess c n.net (.inv peer payload banned)).node
      rw [DownloadEvent.run]
      split
      · exact PeerNode.finish_net _ peer _ _ banned _
      · rfl
  | other peer chain punished banned => exact PeerNode.finish_net _ peer none punished banned []
  | deactivate => rfl

end Peers

end Cryptex
