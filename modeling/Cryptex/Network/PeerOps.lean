import Cryptex.Network.Punishment

/-!
# What changes the states of the peers

The operations of `NetworkNode` on `peer_states_`: contacts with a peer, checks
for a ban, punishments, and bans set by hand. Each is done at a time.
-/

namespace Cryptex

open Encoding Mail

namespace Peers

/-! ## Network groups -/

/-- `parse_host_port`. A label with a single colon ends in a port. -/
def parseHostPort (value : Bytes) (defaultPort : UInt16) : Option (Bytes × UInt16) :=
  if value = [] then none
  else if value.count 58 = 1 then
    let host := value.takeWhile (· ≠ 58)
    if host = [] then none
    else (stoull (value.drop (host.length + 1))).map fun port => (host, port.toUInt16)
  else some (value, defaultPort)

/-- `std::tolower` in the C locale. -/
def toLower (ch : UInt8) : UInt8 := if 65 ≤ ch ∧ ch ≤ 90 then ch + 32 else ch

section

variable (v4 : Bytes → Option IpAddress)

/-- `netgroup_from_host`; `v4` is the version 4 address that `make_address`
reads, if it reads one. -/
def netgroupFromHost (host : Bytes) : Bytes :=
  match v4 host with
  | some ip =>
      decimal ((ip.addr >>> 24) &&& 0xFF).toNat ++ chars "." ++
        decimal ((ip.addr >>> 16) &&& 0xFF).toNat ++ chars ".0.0/16"
  | none => chars "host:" ++ host.map toLower

/-- `peer_netgroup`. -/
def peerNetgroup (port : UInt16) (label : Bytes) : Bytes :=
  match parseHostPort label port with
  | none => chars "unknown"
  | some (host, _) => netgroupFromHost v4 host

/-- The settings with the groups that the node computes. -/
def PeerPolicy.grouped (policy : PeerPolicy) : PeerPolicy :=
  { policy with netgroup := peerNetgroup v4 policy.defaultP2pPort }

end

/-! ## One state -/

/-- How the node came to know a label. -/
inductive PeerSource where
  | manual
  | lan
  | seed
  | handshake
  | proxy
  | peer
deriving DecidableEq

def PeerSource.text : PeerSource → Bytes
  | manual => chars "manual"
  | lan => chars "lan"
  | seed => chars "seed"
  | handshake => chars "handshake"
  | proxy => chars "proxy"
  | peer => chars "peer"

namespace PeerState

variable (policy : PeerPolicy) (label : Bytes)

/-- What `note_peer_connection_attempt` writes; a failure has a reason. -/
def attempted (failure : Option Bytes) (now : Int) (s : PeerState) : PeerState :=
  let s := { s.fillNetgroup policy label with lastUpdated := now, lastSeen := now }
  match failure with
  | none => if s.source = [] then { s with source := chars "manual" } else s
  | some reason =>
      { s with
        failedConnections := s.failedConnections + 1
        lastReason := reason
        score := min policy.banThreshold (s.score + 2) }

/-- What `note_peer_connected` writes. -/
def connected (now : Int) (s : PeerState) : PeerState :=
  let s := s.fillNetgroup policy label
  { s with
    lastSeen := now
    lastConnected := now
    lastUpdated := now
    successfulConnections := s.successfulConnections + 1 }

/-- What `set_ban` writes. -/
def bannedByHand (durationSeconds now : Int) (s : PeerState) : PeerState :=
  let s := s.fillNetgroup policy label
  { s with
    score := max s.score policy.banThreshold
    bannedUntil := now + max durationSeconds 1
    lastUpdated := now
    lastSeen := now
    lastReason := chars "manual ban" }

/-- What `clear_bans` writes. -/
def cleared (now : Int) (s : PeerState) : PeerState :=
  { s with score := 0, bannedUntil := 0, lastUpdated := now }

/-- What `connect_known_peers` does to a label that it may connect to. -/
def considered (now : Int) (s : PeerState) : PeerState :=
  ((s.started now).fillNetgroup policy label).decay now

end PeerState

/-! ## All states -/

/-- What changes the states. -/
inductive PeerOp where
  | recorded (label : Bytes) (source : PeerSource)
  | announced (label : Bytes) (height : UInt32)
  | greeted (session : PeerSession) (version : VersionPayload)
  | attempted (label : Bytes) (failure : Option Bytes)
  | connected (label : Bytes)
  | removed (label : Bytes)
  | banChecked (label : Bytes)
  | considered (active labels : List Bytes)
  | listed (connectedLabels known : List Bytes)
  | punished (label : Bytes) (penalty : Penalty)
  | bannedByHand (label : Bytes) (durationSeconds : Int)
  | bansCleared

namespace PeerStates

variable (policy : PeerPolicy)

/-- What the VERSION handler does to the states. -/
def greet (session : PeerSession) (version : VersionPayload) (now : Int) (states : PeerStates) :
    PeerStates :=
  let label := (session.greeted policy.defaultP2pPort version).remoteLabel
  let states :=
    match canonicalPeerLabelFromVersion policy.defaultP2pPort session.endpoint version with
    | some advertised => recordPeerLabel policy advertised PeerSource.handshake.text now states
    | none => states
  (states.modify label (PeerState.heightNoted policy label version.bestHeight now)).modify label
    (PeerState.greeted policy label version.bestHeight now)

/-- `connect_known_peers` at one of the known labels. -/
def consider (active : List Bytes) (now : Int) (states : PeerStates) (label : Bytes) : PeerStates :=
  if label = [] ∨ policy.isSelf label ∨ parseHostPort label policy.defaultP2pPort = none ∨
      label ∈ active then states
  else states.modify label (PeerState.considered policy label now)

/-- `peer_statuses` at a label that may be without a state. -/
def ensure (now : Int) (states : PeerStates) (label : Bytes) : PeerStates :=
  if label ∈ states then states
  else states.insert label { lastUpdated := now, netgroup := policy.netgroup label }

/-- `peer_statuses`. -/
def list (connected known : List Bytes) (now : Int) (states : PeerStates) : PeerStates :=
  FinMap.mapValues (PeerState.decay now)
    (known.foldl (ensure policy now) (connected.foldl (ensure policy now) states))

end PeerStates

section

variable (policy : PeerPolicy)

/-- The states after an operation. -/
def PeerOp.run (now : Int) (states : PeerStates) : PeerOp → PeerStates
  | recorded label source => PeerStates.recordPeerLabel policy label source.text now states
  | announced label height =>
      states.modify label (PeerState.heightNoted policy label height now)
  | greeted session version => PeerStates.greet policy session version now states
  | attempted label failure =>
      if label = [] then states
      else states.modify label (PeerState.attempted policy label failure now)
  | connected label =>
      if label = [] then states else states.modify label (PeerState.connected policy label now)
  | removed label => states.modify label (PeerState.removed policy label now)
  | banChecked label => (PeerStates.isBanned label now states).2
  | considered active labels => labels.foldl (PeerStates.consider policy active now) states
  | listed connectedLabels known => PeerStates.list policy connectedLabels known now states
  | punished label penalty => PeerStates.punishLabel policy label penalty now states
  | bannedByHand label durationSeconds =>
      if label = [] then states
      else states.modify label (PeerState.bannedByHand policy label durationSeconds now)
  | bansCleared => FinMap.mapValues (PeerState.cleared now) states

/-- The states after operations, each with its time. -/
def runOps (states : PeerStates) (ops : List (Int × PeerOp)) : PeerStates :=
  ops.foldl (fun states op => op.2.run policy op.1 states) states

end

/-! ## Messages -/

/-- The sources under which a message of another kind makes labels known. -/
def PeerMessage.Sourced {χ : Type} : PeerMessage χ → Prop
  | .other _ _ recorded _ => ∀ entry ∈ recorded, ∃ source : PeerSource, entry.2 = source.text
  | _ => True

section

variable {χ : Type} {access : PeerChain χ} {c : Crypto} {lib : MailLib} {policy : PeerPolicy}

/-- The changes are operations that are done at one time. -/
def ByOps (policy : PeerPolicy) (now : Int) (before after : PeerStates) : Prop :=
  ∃ ops : List PeerOp, after = runOps policy before (ops.map (now, ·))

variable {now : Int} {before middle after : PeerStates}

theorem ByOps.refl : ByOps policy now before before := ⟨[], rfl⟩

theorem ByOps.of_run (op : PeerOp) : ByOps policy now before (op.run policy now before) :=
  ⟨[op], rfl⟩

theorem ByOps.trans (h : ByOps policy now before middle) (h' : ByOps policy now middle after) :
    ByOps policy now before after := by
  obtain ⟨ops, rfl⟩ := h
  obtain ⟨ops', rfl⟩ := h'
  exact ⟨ops ++ ops', by rw [List.map_append, runOps, runOps, runOps, List.foldl_append]⟩

theorem byOps_recorded {recorded : List (Bytes × Bytes)}
    (h : ∀ entry ∈ recorded, ∃ source : PeerSource, entry.2 = source.text) :
    ByOps policy now before (recorded.foldl (fun states entry =>
      PeerStates.recordPeerLabel policy entry.1 entry.2 now states) before) := by
  induction recorded generalizing before with
  | nil => exact .refl
  | cons entry recorded ih =>
      obtain ⟨source, hsource⟩ := h entry List.mem_cons_self
      rw [List.foldl_cons, hsource]
      exact (ByOps.of_run (.recorded entry.1 source)).trans
        (ih fun e he => h e (List.mem_cons_of_mem _ he))

theorem byOps_noted {n : ScoredNode χ} {peer : Nat} {m : PeerMessage χ} (hm : m.Sourced) :
    ByOps policy now n.states (n.noted access c policy peer now m) := by
  cases m with
  | version payload =>
      rw [ScoredNode.noted]
      cases VersionPayload.deserialize policy.defaultP2pPort payload with
      | none => exact .refl
      | some version => exact .of_run (.greeted (n.peers.session peer) version)
  | headers payload =>
      rw [ScoredNode.noted]
      cases (headersHeight access c n.peers.net.chain payload).join with
      | none => exact .refl
      | some height => exact .of_run (.announced (n.peers.remoteLabel peer) height)
  | block payload =>
      rw [ScoredNode.noted]
      cases blockHeight access c n.peers.net.chain payload with
      | none => exact .refl
      | some height => exact .of_run (.announced (n.peers.remoteLabel peer) height)
  | other _ _ recorded _ => exact byOps_recorded hm
  | inv _ | mailReceipt _ _ | mailProof _ _ => exact .refl

theorem byOps_punish (charge : Charge) :
    ByOps policy now before (charge.punish policy now before).2 := by
  have hpunished : ByOps policy now before _ :=
    .of_run (.punished charge.label charge.penalty)
  rw [Charge.punish]
  split
  · exact hpunished.trans (.of_run (.banChecked charge.label))
  · exact hpunished

/-- What a message does to the states is done by operations. -/
theorem byOps_judged {n : ScoredNode χ} {peer : Nat} {m : PeerMessage χ} (hm : m.Sourced) :
    ByOps policy now n.states (n.judged access c lib policy peer now m).2 := by
  have hnoted : ByOps policy now n.states (n.noted access c policy peer now m) := byOps_noted hm
  rw [ScoredNode.judged]
  split
  · exact hnoted
  · next charge _ =>
      have hpunished := hnoted.trans (byOps_punish charge)
      dsimp only
      split
      · exact hpunished.trans (.of_run (.removed _))
      · exact hpunished

end

end Peers

end Cryptex
