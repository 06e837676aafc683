import Cryptex.Lib.FinMap
import Cryptex.Network.PeerSession

/-!
# Peer states

What `NetworkNode` remembers about the peers it has heard of, by label: the
misbehaviour score, which falls as time goes by, the end of a ban, and records
of contacts.
-/

namespace Cryptex

open Encoding

namespace Constants

def bannedPeerDurationSeconds : Int := 6 * 60 * 60
def peerScoreDecayIntervalSeconds : Int := 30 * 60
def peerScoreDecayPoints : Int := 5

end Constants

namespace Peers

structure PeerState where
  score : Int := 0
  bannedUntil : Int := 0
  lastUpdated : Int := 0
  lastSeen : Int := 0
  lastConnected : Int := 0
  successfulConnections : UInt64 := 0
  failedConnections : UInt64 := 0
  invalidMessages : UInt64 := 0
  lastAnnouncedHeight : UInt32 := 0
  source : Bytes := chars "peer"
  netgroup : Bytes := []
  lastReason : Bytes := []
deriving DecidableEq

abbrev PeerStates := FinMap Bytes PeerState

/-- The settings of the node; `netgroup` is `peer_netgroup`, `isSelf`
`is_self_label`. -/
structure PeerPolicy where
  banThreshold : Int := 100
  slashOnFailedProof : Bool := true
  slashPenaltyScore : UInt32 := 25
  defaultP2pPort : UInt16
  netgroup : Bytes → Bytes
  isSelf : Bytes → Bool

/-- Why a peer is punished, and by how much. -/
structure Penalty where
  score : Int
  reason : Bytes
deriving DecidableEq

/-! ## One state -/

namespace PeerState

def fillNetgroup (policy : PeerPolicy) (label : Bytes) (s : PeerState) : PeerState :=
  if s.netgroup = [] then { s with netgroup := policy.netgroup label } else s

/-- `decay_peer_state_locked`. -/
def decay (now : Int) (s : PeerState) : PeerState :=
  if s.lastUpdated = 0 then { s with lastUpdated := now }
  else
    let elapsed := now - s.lastUpdated
    let s :=
      if elapsed ≥ Constants.peerScoreDecayIntervalSeconds then
        let intervals := elapsed / Constants.peerScoreDecayIntervalSeconds
        { s with
          score := max 0 (s.score - intervals * Constants.peerScoreDecayPoints)
          lastUpdated := s.lastUpdated + intervals * Constants.peerScoreDecayIntervalSeconds }
      else s
    if s.bannedUntil ≤ now then { s with bannedUntil := 0 } else s

/-- A first contact. -/
def started (now : Int) (s : PeerState) : PeerState :=
  if s.lastUpdated = 0 then { s with lastUpdated := now } else s

/-- The penalty itself, and the ban that it leads to. -/
def charged (policy : PeerPolicy) (penalty : Penalty) (now : Int) (s : PeerState) : PeerState :=
  let s :=
    { s with
      score := s.score + penalty.score
      lastUpdated := now
      lastSeen := now
      invalidMessages := s.invalidMessages + 1
      lastReason := penalty.reason }
  if s.score ≥ policy.banThreshold then
    { s with bannedUntil := max s.bannedUntil (now + Constants.bannedPeerDurationSeconds) }
  else s

/-- What `punish_label` does to the state of the label. -/
def punished (policy : PeerPolicy) (label : Bytes) (penalty : Penalty) (now : Int) (s : PeerState) :
    PeerState :=
  (((s.started now).fillNetgroup policy label).decay now).charged policy penalty now

def recorded (policy : PeerPolicy) (label source : Bytes) (now : Int) (s : PeerState) : PeerState :=
  let s := s.fillNetgroup policy label
  let s :=
    if source ≠ [] ∧ (s.source = [] ∨ s.source = chars "peer") then { s with source := source }
    else s
  if s.lastUpdated = 0 then { s with lastUpdated := now } else s

def heightNoted (policy : PeerPolicy) (label : Bytes) (height : UInt32) (now : Int) (s : PeerState) :
    PeerState :=
  let s := s.fillNetgroup policy label
  { s with
    lastUpdated := now
    lastAnnouncedHeight := max s.lastAnnouncedHeight height
    source := if s.source = [] then chars "peer" else s.source }

/-- What the VERSION handler writes. -/
def greeted (policy : PeerPolicy) (label : Bytes) (height : UInt32) (now : Int) (s : PeerState) :
    PeerState :=
  let s := s.fillNetgroup policy label
  { s with
    lastSeen := now
    lastConnected := now
    lastUpdated := now
    successfulConnections := s.successfulConnections + 1
    lastAnnouncedHeight := height
    source := if s.source = [] then chars "handshake" else s.source }

/-- What `remove_session` writes. -/
def removed (policy : PeerPolicy) (label : Bytes) (now : Int) (s : PeerState) : PeerState :=
  { s.fillNetgroup policy label with lastSeen := now, lastUpdated := now }

end PeerState

/-! ## All states -/

namespace PeerStates

/-- `peer_states_[label]`, changed by `f`. -/
def modify (states : PeerStates) (label : Bytes) (f : PeerState → PeerState) : PeerStates :=
  states.insert label (f ((states.lookup label).getD {}))

section

variable (policy : PeerPolicy)

def recordPeerLabel (label source : Bytes) (now : Int) (states : PeerStates) : PeerStates :=
  if label = [] ∨ policy.isSelf label then states
  else states.modify label (PeerState.recorded policy label source now)

def punishLabel (label : Bytes) (penalty : Penalty) (now : Int) (states : PeerStates) : PeerStates :=
  if label = [] then states else states.modify label (PeerState.punished policy label penalty now)

end

/-- `is_banned`; the state of the label decays. -/
def isBanned (label : Bytes) (now : Int) (states : PeerStates) : Bool × PeerStates :=
  if label = [] then (false, states)
  else
    match states.lookup label with
    | none => (false, states)
    | some s => ((s.decay now).bannedUntil > now, states.insert label (s.decay now))

end PeerStates

/-! ## The standing of a label -/

/-- The score of a label and the end of its ban. -/
def PeerStates.standing (states : PeerStates) (label : Bytes) : Int × Int :=
  let s := (states.lookup label).getD {}
  (s.score, s.bannedUntil)

/-- The label is banned. -/
def PeerStates.bannedAt (states : PeerStates) (label : Bytes) (now : Int) : Bool :=
  (states.standing label).2 > now

/-- The change leaves score and ban as they are. -/
def KeepsStanding (f : PeerState → PeerState) : Prop :=
  ∀ s, (f s).score = s.score ∧ (f s).bannedUntil = s.bannedUntil

variable {policy : PeerPolicy} {states : PeerStates} {label : Bytes}

theorem fillNetgroup_keepsStanding (policy : PeerPolicy) (label : Bytes) :
    KeepsStanding (PeerState.fillNetgroup policy label) := fun s => by
  rw [PeerState.fillNetgroup]
  split <;> exact ⟨rfl, rfl⟩

theorem recorded_keepsStanding (policy : PeerPolicy) (label source : Bytes) (now : Int) :
    KeepsStanding (PeerState.recorded policy label source now) := fun s => by
  rw [← (fillNetgroup_keepsStanding policy label s).1, ← (fillNetgroup_keepsStanding policy label s).2,
    PeerState.recorded]
  split <;> split <;> exact ⟨rfl, rfl⟩

theorem heightNoted_keepsStanding (policy : PeerPolicy) (label : Bytes) (height : UInt32)
    (now : Int) : KeepsStanding (PeerState.heightNoted policy label height now) :=
  fillNetgroup_keepsStanding policy label

theorem greeted_keepsStanding (policy : PeerPolicy) (label : Bytes) (height : UInt32) (now : Int) :
    KeepsStanding (PeerState.greeted policy label height now) :=
  fillNetgroup_keepsStanding policy label

theorem removed_keepsStanding (policy : PeerPolicy) (label : Bytes) (now : Int) :
    KeepsStanding (PeerState.removed policy label now) :=
  fillNetgroup_keepsStanding policy label

theorem decay_score {s : PeerState} {now : Int}
    (h : now - s.lastUpdated < Constants.peerScoreDecayIntervalSeconds) :
    (s.decay now).score = s.score := by
  rw [PeerState.decay]
  split
  · rfl
  · dsimp only
    rw [if_neg (Int.not_le.mpr h)]
    split <;> rfl

theorem charged_fields (policy : PeerPolicy) (penalty : Penalty) (now : Int) (s : PeerState) :
    (s.charged policy penalty now).score = s.score + penalty.score ∧
      (s.charged policy penalty now).lastUpdated = now := by
  rw [PeerState.charged]
  dsimp only
  split <;> exact ⟨rfl, rfl⟩

theorem started_fields {s : PeerState} {now : Int}
    (hdue : now - s.lastUpdated < Constants.peerScoreDecayIntervalSeconds ∨ s.lastUpdated = 0) :
    (s.started now).score = s.score ∧
      now - (s.started now).lastUpdated < Constants.peerScoreDecayIntervalSeconds := by
  rw [PeerState.started]
  split
  · exact ⟨rfl, by simp [Constants.peerScoreDecayIntervalSeconds]⟩
  · next hne => exact ⟨rfl, hdue.resolve_right hne⟩

theorem fillNetgroup_lastUpdated (policy : PeerPolicy) (label : Bytes) (s : PeerState) :
    (s.fillNetgroup policy label).lastUpdated = s.lastUpdated := by
  rw [PeerState.fillNetgroup]
  split <;> rfl

theorem punished_score (policy : PeerPolicy) (label : Bytes) (penalty : Penalty) {s : PeerState}
    {now : Int} (hdue : now - s.lastUpdated < Constants.peerScoreDecayIntervalSeconds ∨
      s.lastUpdated = 0) : (s.punished policy label penalty now).score = s.score + penalty.score := by
  obtain ⟨hscore, hlast⟩ := started_fields hdue
  rw [PeerState.punished, (charged_fields policy penalty now _).1,
    decay_score (by rw [fillNetgroup_lastUpdated]; exact hlast),
    (fillNetgroup_keepsStanding policy label _).1, hscore]

namespace PeerStates

theorem standing_modify_of_ne {other : Bytes} (h : other ≠ label) (f : PeerState → PeerState) :
    (states.modify label f).standing other = states.standing other := by
  rw [standing, standing, modify, Finmap.lookup_insert_of_ne _ h]

/-- A change that keeps the standing of its label keeps all. -/
theorem standing_modify {f : PeerState → PeerState} (hf : KeepsStanding f) (other : Bytes) :
    (states.modify label f).standing other = states.standing other := by
  by_cases h : other = label
  · subst h
    rw [standing, standing, modify, Finmap.lookup_insert, Option.getD_some]
    exact Prod.ext (hf _).1 (hf _).2
  · exact standing_modify_of_ne h f

theorem standing_recordPeerLabel (policy : PeerPolicy) (label source : Bytes) (now : Int)
    (other : Bytes) :
    (recordPeerLabel policy label source now states).standing other = states.standing other := by
  rw [recordPeerLabel]
  split
  · rfl
  · exact standing_modify (recorded_keepsStanding policy label source now) other

theorem standing_punishLabel_of_ne {other : Bytes} (h : other ≠ label) (policy : PeerPolicy)
    (penalty : Penalty) (now : Int) :
    (punishLabel policy label penalty now states).standing other = states.standing other := by
  rw [punishLabel]
  split
  · rfl
  · exact standing_modify_of_ne h _

theorem standing_isBanned_of_ne {other : Bytes} (h : other ≠ label) (now : Int) :
    (isBanned label now states).2.standing other = states.standing other := by
  rw [isBanned]
  split
  · rfl
  · cases hs : states.lookup label with
    | none => rfl
    | some s =>
        dsimp only
        rw [standing, standing, Finmap.lookup_insert_of_ne _ h]

theorem lookup_punishLabel (hlabel : label ≠ []) (policy : PeerPolicy) (penalty : Penalty)
    (now : Int) : (punishLabel policy label penalty now states).lookup label
      = some (((states.lookup label).getD {}).punished policy label penalty now) := by
  rw [punishLabel, if_neg hlabel, modify, Finmap.lookup_insert]

/-- Without a decay that is due, the score rises by the penalty. -/
theorem standing_punishLabel (hlabel : label ≠ []) (policy : PeerPolicy) (penalty : Penalty)
    {now : Int} (hdue : now - ((states.lookup label).getD {}).lastUpdated
      < Constants.peerScoreDecayIntervalSeconds ∨ ((states.lookup label).getD {}).lastUpdated = 0) :
    ((punishLabel policy label penalty now states).standing label).1
      = (states.standing label).1 + penalty.score := by
  rw [standing, lookup_punishLabel hlabel, Option.getD_some]
  exact punished_score policy label penalty hdue

/-- A check for a ban keeps the score without a decay that is due. -/
theorem standing_isBanned {now : Int} {s : PeerState} (hs : states.lookup label = some s)
    (hdue : now - s.lastUpdated < Constants.peerScoreDecayIntervalSeconds) :
    ((isBanned label now states).2.standing label).1 = (states.standing label).1 := by
  rw [isBanned]
  split
  · rfl
  · rw [hs]
    dsimp only
    rw [standing, standing, Finmap.lookup_insert, hs, Option.getD_some, Option.getD_some]
    exact decay_score hdue

end PeerStates

end Peers

end Cryptex
