import Cryptex.Mempool
import Cryptex.Network.LiveHeights
import Cryptex.Network.MailReceipts
import Cryptex.Network.PeerStates

/-!
# Punishment

A handler punishes the label of the session that a message came on. The peer
chooses that label when it advertises an address, so the score and the ban may
hit the label of another host.
-/

namespace Cryptex

open Codec Encoding Download Mail

namespace Peers

/-! ## Hosts -/

/-- The part of a label before its last colon. -/
def labelHost (label : Bytes) : Bytes :=
  if 58 ∈ label then ((label.reverse.dropWhile (· ≠ 58)).drop 1).reverse else label

/-! ## Offences -/

def mempoolStatusName : Mempool.AcceptStatus → Bytes
  | .accepted => chars "accepted"
  | .duplicate => chars "duplicate"
  | .conflict => chars "conflict"
  | .missingInputs => chars "missing-inputs"
  | .invalid => chars "invalid"
  | .nonStandard => chars "non-standard"
  | .lowFee => chars "low-fee"
  | .poolFull => chars "pool-full"

/-- What the other handlers punish a peer for; `what` is the text of an
exception. -/
inductive Offence where
  | oversizedLocator
  | truncatedLocator
  | invalidGetheaders
  | invalidChat (what : Bytes)
  | invalidMailStore (what : Bytes)
  | invalidMailReceipt (what : Bytes)
  | invalidMailFind (what : Bytes)
  | invalidMailResults (what : Bytes)
  | invalidMailChallenge (what : Bytes)
  | invalidMailProof (what : Bytes)
  | invalidNatIntro (what : Bytes)
  | rejectedWork
  | invalidWork
  | rejectedTx (status : Mempool.AcceptStatus)
  | invalidTx

def Offence.penalty : Offence → Penalty
  | .oversizedLocator => ⟨5, chars "oversized block locator"⟩
  | .truncatedLocator => ⟨10, chars "truncated block locator"⟩
  | .invalidGetheaders => ⟨10, chars "invalid getheaders payload"⟩
  | .invalidChat what => ⟨10, chars "invalid chat payload: " ++ what⟩
  | .invalidMailStore what => ⟨5, chars "invalid dht mail store: " ++ what⟩
  | .invalidMailReceipt what => ⟨5, chars "invalid dht mail receipt: " ++ what⟩
  | .invalidMailFind what => ⟨5, chars "invalid dht mail find: " ++ what⟩
  | .invalidMailResults what => ⟨5, chars "invalid dht mail results: " ++ what⟩
  | .invalidMailChallenge what => ⟨5, chars "invalid dht mail challenge: " ++ what⟩
  | .invalidMailProof what => ⟨5, chars "invalid dht mail proof: " ++ what⟩
  | .invalidNatIntro what => ⟨3, chars "invalid dht nat intro: " ++ what⟩
  | .rejectedWork => ⟨5, chars "rejected submitted work"⟩
  | .invalidWork => ⟨10, chars "submitwork deserialize failed"⟩
  | .rejectedTx status =>
      ⟨if status = .lowFee ∨ status = .nonStandard then 1 else 5,
        chars "tx rejected status=" ++ mempoolStatusName status⟩
  | .invalidTx => ⟨10, chars "tx deserialize failed"⟩

section

variable {χ : Type} (access : PeerChain χ) (c : Crypto)

/-- What the loop of the HEADERS handler punishes the peer for. -/
def headerPenalty (chain : χ) : Nat → Option Hash256 → Bytes → Option Penalty
  | 0, _, _ => none
  | count + 1, previousLink, data =>
      if data = [] then none
      else
        match readBytes data with
        | none => some ⟨10, chars "invalid headers payload"⟩
        | some (bytes, rest) =>
            match BlockHeader.deserialize bytes.toList with
            | none => some ⟨10, chars "invalid headers payload"⟩
            | some (header, _) =>
                if linked access.toChainAccess chain previousLink header then
                  headerPenalty chain count (some (header.hash c)) rest
                else if previousLink.isNone then
                  some ⟨10, chars "headers do not connect to known chain"⟩
                else some ⟨10, chars "header batch discontinuity"⟩

def headersPenalty (chain : χ) (payload : Bytes) : Option Penalty :=
  match readVarint payload with
  | none => some ⟨10, chars "invalid headers payload"⟩
  | some (count, data) =>
      if count > Constants.maxHeadersPerMessage then some ⟨5, chars "too many headers"⟩
      else headerPenalty access c chain count none data

def blockPenalty (chain : χ) (payload : Bytes) : Option Penalty :=
  match Block.deserialize payload with
  | none => some ⟨10, chars "invalid block payload"⟩
  | some (blk, _) =>
      match access.acceptBlock chain blk with
      | none => some ⟨10, chars "invalid block payload"⟩
      | some (false, _) => some ⟨5, chars "rejected block"⟩
      | some (true, _) => none

def invPenalty (payload : Bytes) : Option Penalty :=
  if (readVarint payload).isNone then some ⟨10, chars "invalid inventory payload"⟩ else none

end

/-! ## Slashing -/

/-- A peer to be punished: by its label only, or as the session that is closed
once it is banned. -/
structure Charge where
  label : Bytes
  penalty : Penalty
  closes : Bool

/-- What `slash_mail_receipt` punishes. -/
def slashCharge (policy : PeerPolicy) (reason peerLabel replicaLabel : Bytes) : Option Charge :=
  if policy.slashOnFailedProof then
    some
      { label := if peerLabel = [] then replicaLabel else peerLabel
        penalty :=
          ⟨(max policy.slashPenaltyScore 1).toInt32.toInt,
            chars "mail storage proof failure: " ++ reason⟩
        closes := false }
  else none

section

variable (lib : MailLib)

/-- What the DHT_MAIL_RECEIPT handler slashes. -/
def receiptCharge (policy : PeerPolicy) (env : MailEnv) (remoteLabel : Bytes)
    (receipt : MailStorageReceipt) : Option Charge :=
  if receipt.messageId = [] then none
  else
    let received := refreshMailReceiptBond env (receivedReceipt remoteLabel receipt)
    if verifyMailReceiptSignature lib received = false then
      slashCharge policy (chars "invalid receipt signature") remoteLabel received.replicaLabel
    else none

/-- What the DHT_MAIL_PROOF handler slashes or punishes. -/
def proofCharge (policy : PeerPolicy) (env : MailEnv) (remoteLabel : Bytes)
    (proof : DhtMailProofPayload) (n : MailNode) : Option Charge :=
  match n.pending.lookup proof.challengeId with
  | none => none
  | some pending =>
      let n := { n with pending := n.pending.erase proof.challengeId }
      match ownCopy lib env pending n with
      | none => none
      | some record =>
          if mailStorageProofHashHex lib record pending.nonceB64 ≠ proof.proofHashHex then
            match provedReceipt pending proof n with
            | none => some ⟨remoteLabel, ⟨5, chars "invalid dht mail proof"⟩, true⟩
            | some receipt =>
                slashCharge policy (chars "invalid proof hash") remoteLabel receipt.replicaLabel
          else
            match provedReceipt pending proof n with
            | none => none
            | some receipt =>
                let receipt := relabelled env proof receipt
                if trustedForProof lib receipt = false then
                  slashCharge policy (chars "receipt lost trust during proof verification")
                    remoteLabel receipt.replicaLabel
                else none

end

/-! ## Messages -/

/-- The node with the states of its peers. -/
structure ScoredNode (χ : Type) where
  peers : PeerNode χ
  mail : MailNode
  states : PeerStates

/-- A message on a session. Any other message may change the chain and the
mail store, make labels known, and end in an offence. -/
inductive PeerMessage (χ : Type) where
  | version (payload : Bytes)
  | headers (payload : Bytes)
  | block (payload : Bytes)
  | inv (payload : Bytes)
  | mailReceipt (env : MailEnv) (receipt : MailStorageReceipt)
  | mailProof (env : MailEnv) (proof : DhtMailProofPayload)
  | other (chain : χ) (mail : MailNode) (recorded : List (Bytes × Bytes)) (offence : Option Offence)

variable {χ : Type}

section

variable (access : PeerChain χ) (c : Crypto) (lib : MailLib) (policy : PeerPolicy)

/-- Whom the handler punishes. -/
def ScoredNode.charge (n : ScoredNode χ) (peer : Nat) : PeerMessage χ → Option Charge
  | .version payload =>
      if (VersionPayload.deserialize policy.defaultP2pPort payload).isNone then
        some ⟨n.peers.remoteLabel peer, ⟨10, chars "invalid version payload"⟩, true⟩
      else none
  | .headers payload =>
      (headersPenalty access c n.peers.net.chain payload).map
        (⟨n.peers.remoteLabel peer, ·, true⟩)
  | .block payload =>
      (blockPenalty access n.peers.net.chain payload).map (⟨n.peers.remoteLabel peer, ·, true⟩)
  | .inv payload => (invPenalty payload).map (⟨n.peers.remoteLabel peer, ·, true⟩)
  | .mailReceipt env receipt => receiptCharge lib policy env (n.peers.remoteLabel peer) receipt
  | .mailProof env proof => proofCharge lib policy env (n.peers.remoteLabel peer) proof n.mail
  | .other _ _ _ offence =>
      offence.map fun offence => ⟨n.peers.remoteLabel peer, offence.penalty, true⟩

/-- The states before anyone is punished. -/
def ScoredNode.noted (n : ScoredNode χ) (peer : Nat) (now : Int) : PeerMessage χ → PeerStates
  | .version payload =>
      match VersionPayload.deserialize policy.defaultP2pPort payload with
      | none => n.states
      | some version =>
          let s := n.peers.session peer
          let label := (s.greeted policy.defaultP2pPort version).remoteLabel
          let states :=
            match canonicalPeerLabelFromVersion policy.defaultP2pPort s.endpoint version with
            | some advertised =>
                PeerStates.recordPeerLabel policy advertised (chars "handshake") now n.states
            | none => n.states
          (states.modify label (PeerState.heightNoted policy label version.bestHeight now)).modify label
            (PeerState.greeted policy label version.bestHeight now)
  | .headers payload =>
      match (headersHeight access c n.peers.net.chain payload).join with
      | some height =>
          let label := n.peers.remoteLabel peer
          n.states.modify label (PeerState.heightNoted policy label height now)
      | none => n.states
  | .block payload =>
      match blockHeight access c n.peers.net.chain payload with
      | some height =>
          let label := n.peers.remoteLabel peer
          n.states.modify label (PeerState.heightNoted policy label height now)
      | none => n.states
  | .other _ _ recorded _ =>
      recorded.foldl (fun states entry =>
        PeerStates.recordPeerLabel policy entry.1 entry.2 now states) n.states
  | _ => n.states

/-- `punish` and `punish_label`: whether the session is to be closed, and the
states after it. -/
def Charge.punish (charge : Charge) (now : Int) (states : PeerStates) : Bool × PeerStates :=
  let states := PeerStates.punishLabel policy charge.label charge.penalty now states
  if charge.closes then PeerStates.isBanned charge.label now states else (false, states)

/-- The states of the peers after the message, and whether its session is
closed. -/
def ScoredNode.judged (n : ScoredNode χ) (peer : Nat) (now : Int) (m : PeerMessage χ) :
    Bool × PeerStates :=
  let states := n.noted access c policy peer now m
  match n.charge access c lib policy peer m with
  | none => (false, states)
  | some charge =>
      let result := charge.punish policy now states
      if result.1 then
        let label := (n.peers.session peer).unplugged.remoteLabel
        (true, result.2.modify label (PeerState.removed policy label now))
      else result

/-- What the message is for the sessions. -/
def PeerMessage.event (peer : Nat) (banned punished : Bool) (n : ScoredNode χ) :
    PeerMessage χ → PeerEvent χ
  | .version payload => .version peer payload banned
  | .headers payload => .headers peer payload banned
  | .block payload => .block peer payload banned
  | .inv payload => .inv peer payload banned
  | .mailReceipt _ _ => .other peer n.peers.net.chain punished banned
  | .mailProof _ _ => .other peer n.peers.net.chain punished banned
  | .other chain _ _ _ => .other peer chain punished banned

/-- The mail store after the message. -/
def ScoredNode.mailed (n : ScoredNode χ) (peer : Nat) : PeerMessage χ → MailNode
  | .mailReceipt env receipt =>
      (dhtMailReceipt lib env (n.peers.remoteLabel peer) receipt n.mail).node
  | .mailProof env proof => (dhtMailProof lib env proof n.mail).node
  | .other _ mail _ _ => mail
  | _ => n.mail

/-- A message is handled while its session is alive. -/
def ScoredNode.handle (n : ScoredNode χ) (peer : Nat) (now : Int) (m : PeerMessage χ) :
    ScoredNode χ :=
  if peer ∈ n.peers.net.alive then
    let judged := n.judged access c lib policy peer now m
    let punished := (n.charge access c lib policy peer m).isSome
    { peers :=
        (m.event peer judged.1 punished n).run access c policy.defaultP2pPort n.peers
      mail := n.mailed lib peer m
      states := judged.2 }
  else n

end

/-! ## The property -/

/-- Score, end of ban and ban status of the labels of other hosts are as
before. -/
structure Spares (host : Bytes) (before after : PeerStates) : Prop where
  standing : ∀ label, labelHost label ≠ host → after.standing label = before.standing label
  banned : ∀ label, labelHost label ≠ host → ∀ now,
    after.bannedAt label now = before.bannedAt label now

section

variable (access : PeerChain χ) (c : Crypto) (lib : MailLib) (policy : PeerPolicy) (peer : Nat)

/-- The labels of other hosts are spared after every message of the session. -/
def SparedRun (host : Bytes) (before : PeerStates) : ScoredNode χ → List (Int × PeerMessage χ) → Prop
  | n, [] => Spares host before n.states
  | n, (now, m) :: rest =>
      Spares host before n.states ∧
        SparedRun host before (n.handle access c lib policy peer now m) rest

/-- Whoever the handler punishes has a label of the host. -/
def SafeMessage (host : Bytes) (n : ScoredNode χ) (m : PeerMessage χ) : Prop :=
  peer ∈ n.peers.net.alive →
    ∀ charge ∈ n.charge access c lib policy peer m, labelHost charge.label = host

def SafeMessages (host : Bytes) : ScoredNode χ → List (Int × PeerMessage χ) → Prop
  | _, [] => True
  | n, (now, m) :: rest =>
      SafeMessage access c lib policy peer host n m ∧
        SafeMessages host (n.handle access c lib policy peer now m) rest

end

variable {access : PeerChain χ} {c : Crypto} {lib : MailLib} {policy : PeerPolicy} {peer : Nat}
  {n : ScoredNode χ} {m : PeerMessage χ} {label host : Bytes} {now : Int}

/-! ## What a message does to the states -/

theorem noted_standing (n : ScoredNode χ) (m : PeerMessage χ) (label : Bytes) :
    (n.noted access c policy peer now m).standing label = n.states.standing label := by
  cases m with
  | version payload =>
      rw [ScoredNode.noted]
      cases VersionPayload.deserialize policy.defaultP2pPort payload with
      | none => rfl
      | some version =>
          dsimp only
          rw [PeerStates.standing_modify (greeted_keepsStanding policy _ _ now),
            PeerStates.standing_modify (heightNoted_keepsStanding policy _ _ now)]
          split
          · exact PeerStates.standing_recordPeerLabel policy _ _ now label
          · rfl
  | headers payload =>
      rw [ScoredNode.noted]
      split
      · exact PeerStates.standing_modify (heightNoted_keepsStanding policy _ _ now) label
      · rfl
  | block payload =>
      rw [ScoredNode.noted]
      split
      · exact PeerStates.standing_modify (heightNoted_keepsStanding policy _ _ now) label
      · rfl
  | inv payload => rfl
  | mailReceipt env receipt => rfl
  | mailProof env proof => rfl
  | other chain mail recorded offence =>
      rw [ScoredNode.noted]
      generalize n.states = states
      induction recorded generalizing states with
      | nil => rfl
      | cons entry rest ih =>
          exact (ih _).trans (PeerStates.standing_recordPeerLabel policy entry.1 entry.2 now label)

theorem punish_standing_of_ne (policy : PeerPolicy) (now : Int) (states : PeerStates)
    {charge : Charge} (h : label ≠ charge.label) :
    (charge.punish policy now states).2.standing label = states.standing label := by
  rw [Charge.punish]
  split
  · exact (PeerStates.standing_isBanned_of_ne h now).trans
      (PeerStates.standing_punishLabel_of_ne h policy charge.penalty now)
  · exact PeerStates.standing_punishLabel_of_ne h policy charge.penalty now

/-- A message changes the standing of no label but the one it is charged to. -/
theorem handle_standing_of_ne
    (h : ∀ charge, n.charge access c lib policy peer m = some charge → label ≠ charge.label) :
    (n.handle access c lib policy peer now m).states.standing label = n.states.standing label := by
  rw [ScoredNode.handle]
  split
  · change (n.judged access c lib policy peer now m).2.standing label = _
    rw [ScoredNode.judged]
    cases hcharge : n.charge access c lib policy peer m with
    | none => exact noted_standing n m label
    | some charge =>
        have hpunish := punish_standing_of_ne policy now (n.noted access c policy peer now m)
          (h charge hcharge)
        dsimp only
        split
        · rw [PeerStates.standing_modify (removed_keepsStanding policy _ now), hpunish]
          exact noted_standing n m label
        · rw [hpunish]
          exact noted_standing n m label
  · rfl

theorem spares_of_standing {before after : PeerStates}
    (h : ∀ label, labelHost label ≠ host → after.standing label = before.standing label) :
    Spares host before after :=
  ⟨h, fun label hne now => by rw [PeerStates.bannedAt, PeerStates.bannedAt, h label hne]⟩

theorem handle_spares (hsafe : SafeMessage access c lib policy peer host n m) {before : PeerStates}
    (h : Spares host before n.states) :
    Spares host before (n.handle access c lib policy peer now m).states := by
  refine spares_of_standing fun label hne => ?_
  by_cases halive : peer ∈ n.peers.net.alive
  · refine (handle_standing_of_ne fun charge hcharge heq => hne ?_).trans (h.standing label hne)
    rw [heq]
    exact hsafe halive charge hcharge
  · rw [ScoredNode.handle, if_neg halive]
    exact h.standing label hne

theorem sparedRun_of_safe (access : PeerChain χ) (c : Crypto) (lib : MailLib) (policy : PeerPolicy)
    (peer : Nat) (host : Bytes) {before : PeerStates} : ∀ {messages : List (Int × PeerMessage χ)}
    {n : ScoredNode χ}, Spares host before n.states →
      SafeMessages access c lib policy peer host n messages →
      SparedRun access c lib policy peer host before n messages
  | [], _, h, _ => h
  | _ :: _, _, h, hsafe =>
      ⟨h, sparedRun_of_safe access c lib policy peer host (handle_spares hsafe.1 h) hsafe.2⟩

/-- Over any run of messages of which each is charged to a label of the host or
to nobody, the labels of other hosts are spared. -/
theorem punishment_stays (access : PeerChain χ) (c : Crypto) (lib : MailLib) (policy : PeerPolicy)
    (peer : Nat) (host : Bytes) (n : ScoredNode χ) (messages : List (Int × PeerMessage χ))
    (hsafe : SafeMessages access c lib policy peer host n messages) :
    SparedRun access c lib policy peer host n.states n messages :=
  sparedRun_of_safe access c lib policy peer host (spares_of_standing fun _ _ => rfl) hsafe

/-! ## The punished label -/

/-- The score of the label that is punished rises, if no decay is due. -/
theorem punish_raises {charge : Charge} {states : PeerStates} (hlabel : charge.label ≠ [])
    (hpositive : 0 < charge.penalty.score)
    (hdue : now - ((states.lookup charge.label).getD {}).lastUpdated
      < Constants.peerScoreDecayIntervalSeconds ∨
        ((states.lookup charge.label).getD {}).lastUpdated = 0) :
    (states.standing charge.label).1 < ((charge.punish policy now states).2.standing charge.label).1 := by
  have hraised := PeerStates.standing_punishLabel hlabel policy charge.penalty hdue
  have hlookup : (PeerStates.punishLabel policy charge.label charge.penalty now states).lookup
      charge.label = some _ := PeerStates.lookup_punishLabel hlabel policy charge.penalty now
  rw [Charge.punish]
  split
  · rw [PeerStates.standing_isBanned hlookup
      (by rw [PeerState.punished, (charged_fields policy charge.penalty now _).2]; simp [Constants.peerScoreDecayIntervalSeconds])]
    omega
  · dsimp only
    omega

/-! ## Penalties and the sessions -/

theorem headerPenalty_isSome (chain : χ) : ∀ (count : Nat) (previousLink : Option Hash256)
    (inferred : Option UInt32) (data : Bytes),
    (headerPenalty access c chain count previousLink data).isSome
      = (inferredHeight access c chain count previousLink inferred data).isNone
  | 0, _, _, _ => rfl
  | count + 1, previousLink, inferred, data => by
      rw [headerPenalty, inferredHeight]
      by_cases hdata : data = []
      · rw [if_pos hdata, if_pos hdata]
        rfl
      rw [if_neg hdata, if_neg hdata]
      cases readBytes data with
      | none => rfl
      | some read =>
          dsimp only
          cases BlockHeader.deserialize read.1.toList with
          | none => rfl
          | some header =>
              dsimp only
              split
              · exact headerPenalty_isSome chain count _ _ _
              · split <;> rfl

/-- The handler of headers has a penalty exactly when it punishes the peer. -/
theorem headersPenalty_isSome (payload : Bytes) (d : DownloadNode χ) :
    (headersPenalty access c d.chain payload).isSome
      = (Download.headersHandler access.toChainAccess c peer payload d).punished := by
  rw [headersHandler_eq, enqueueOffers, (enqueueHashes_sessions access peer _ _ d).2.2,
    ← headersHeight_isNone, headersPenalty, headersHeight]
  cases readVarint payload with
  | none => rfl
  | some read =>
      dsimp only
      split
      · rfl
      · exact headerPenalty_isSome d.chain _ _ _ _

theorem blockPenalty_isSome (payload : Bytes) (d : DownloadNode χ) :
    (blockPenalty access d.chain payload).isSome
      = (Download.blockHandler access.toChainAccess c payload d).punished := by
  rw [blockPenalty, Download.blockHandler]
  cases Block.deserialize payload with
  | none => rfl
  | some read =>
      dsimp only
      cases access.acceptBlock d.chain read.1 with
      | none => rfl
      | some result =>
          obtain ⟨ok, chain⟩ := result
          cases ok <;> rfl

theorem invPenalty_isSome (payload : Bytes) (d : DownloadNode χ) :
    (invPenalty payload).isSome
      = (Download.invHandler access.toChainAccess peer payload d).punished := by
  rw [invHandler_eq, enqueueOffers, (enqueueHashes_sessions access peer _ _ d).2.2, invPenalty,
    invOffers]
  cases readVarint payload <;> rfl

/-! ## Slashing under the label of the peer -/

/-- The handler of receipts slashes exactly when it charges the peer; the
replica that the receipt names is not charged by the challenge that follows. -/
theorem receiptCharge_isSome_iff (lib : MailLib) (env : MailEnv) {policy : PeerPolicy}
    (hpolicy : policy.slashOnFailedProof = true) (remoteLabel : Bytes)
    (receipt : MailStorageReceipt) (mail : MailNode) :
    (receiptCharge lib policy env remoteLabel receipt).isSome = true ↔
      ∃ messageId replicaLabel,
        .slashed messageId replicaLabel ∈ (dhtMailReceipt lib env remoteLabel receipt mail).log := by
  rw [receiptCharge, dhtMailReceipt]
  split
  · refine iff_of_false Bool.false_ne_true ?_
    rintro ⟨_, _, h⟩
    exact absurd h List.not_mem_nil
  · dsimp only
    split
    · rw [slashCharge, if_pos hpolicy]
      exact iff_of_true rfl ⟨_, _, List.mem_singleton_self _⟩
    · next hvalid =>
        refine iff_of_false Bool.false_ne_true ?_
        rintro ⟨messageId, replicaLabel, hmem⟩
        have heffect : IssueEffect lib _ _ (maybeIssueMailStorageChallenge lib env
            (refreshMailReceiptBond env (receivedReceipt remoteLabel receipt))
            (mail.upsert (refreshMailReceiptBond env (receivedReceipt remoteLabel receipt)))) :=
          issueEffect env _ _
        revert hmem heffect
        generalize maybeIssueMailStorageChallenge lib env _ _ = step
        intro hmem heffect
        cases heffect with
        | nothing => exact absurd hmem List.not_mem_nil
        | slashed updated hcarries hopen hinvalid hslashed => exact hvalid hinvalid
        | refreshed updated hcarries hopen hslashed => exact absurd hmem List.not_mem_nil
        | challenged updated pending hcarries hopen hslashed hpending =>
            cases List.mem_singleton.mp hmem

/-! ## The label of an honest peer -/

theorem colon_notMem_decimal (k : Nat) : (58 : UInt8) ∉ decimal k := by
  obtain ⟨l, -, hlt, -, hdecimal⟩ := exists_digits k
  rw [hdecimal]
  intro h
  obtain ⟨d, hd, hcolon⟩ := List.mem_map.mp h
  have hdigit := isDigit_digit d (hlt d hd)
  rw [hcolon] at hdigit
  cases hdigit

/-- The host of a label is what stands before the port. -/
theorem labelHost_append (host : Bytes) (port : Nat) :
    labelHost (host ++ chars ":" ++ decimal port) = host := by
  have hcolon : chars ":" = [58] := by decide
  have hport : ∀ ch ∈ (decimal port).reverse, decide (ch ≠ 58) = true := by
    intro ch hch
    have hmem := List.mem_reverse.mp hch
    exact decide_eq_true fun heq => colon_notMem_decimal port (heq ▸ hmem)
  rw [labelHost, hcolon, if_pos (by simp), List.reverse_append, List.reverse_append,
    List.dropWhile_append_of_pos hport]
  simp

theorem labelHost_endpointLabel (ip : IpAddress) (port : UInt16) :
    labelHost (endpointLabel ip port) = ip.toText := labelHost_append _ _

theorem labelHost_endpoint (e : Endpoint) : labelHost e.label = e.host.toText :=
  labelHost_append _ _

/-- A VERSION message that advertises the address of the session, or none, does
not lead the label away from it. -/
theorem labelHost_greeted {s : PeerSession} {defaultP2pPort : UInt16} {version : VersionPayload}
    (hlabel : labelHost s.remoteLabel = host) (hendpoint : s.endpoint.host.toText = host)
    (hversion : ∀ ip, version.advertisedIp = some ip → ip.toText = host) :
    labelHost (s.greeted defaultP2pPort version).remoteLabel = host := by
  rw [PeerSession.greeted]
  cases hcanonical : canonicalPeerLabelFromVersion defaultP2pPort s.endpoint version with
  | none => exact hlabel
  | some advertised =>
      change labelHost advertised = host
      rw [canonicalPeerLabelFromVersion] at hcanonical
      generalize (if version.listenPort ≠ 0 then version.listenPort else defaultP2pPort) = port
        at hcanonical
      split at hcanonical
      · next ip hip =>
          cases hcanonical
          rw [labelHost_endpointLabel, hversion ip hip]
      · next ip hnone hhost =>
          split at hcanonical
          · cases hcanonical
            rw [labelHost_endpointLabel, ← hendpoint, hhost]
            rfl
          · cases hcanonical
      · cases hcanonical

/-! ## A peer that advertises another address -/

section

variable (access : PeerChain χ) (c : Crypto) (lib : MailLib) (policy : PeerPolicy) (peer : Nat)

/-- The node after the messages. -/
def handleAll (n : ScoredNode χ) (messages : List (Int × PeerMessage χ)) : ScoredNode χ :=
  messages.foldl (fun n m => n.handle access c lib policy peer m.1 m.2) n

instance decidableSafeMessages (host : Bytes) : ∀ (n : ScoredNode χ)
    (messages : List (Int × PeerMessage χ)),
    Decidable (SafeMessages access c lib policy peer host n messages)
  | _, [] => inferInstanceAs (Decidable True)
  | n, (now, m) :: rest =>
      have := decidableSafeMessages host (n.handle access c lib policy peer now m) rest
      inferInstanceAs (Decidable ((peer ∈ n.peers.net.alive →
        ∀ charge ∈ n.charge access c lib policy peer m, labelHost charge.label = host) ∧
          SafeMessages access c lib policy peer host (n.handle access c lib policy peer now m) rest))

end

theorem SparedRun.last {before : PeerStates} : ∀ {messages : List (Int × PeerMessage χ)}
    {n : ScoredNode χ}, SparedRun access c lib policy peer host before n messages →
      Spares host before (handleAll access c lib policy peer n messages).states
  | [], _, h => h
  | (now, m) :: rest, n, h => by
      change Spares host before
        (handleAll access c lib policy peer (n.handle access c lib policy peer now m) rest).states
      exact SparedRun.last h.2

/-- A session of 10.0.0.1. -/
def sessionFrom (chain : χ) : ScoredNode χ where
  peers := (freshPeerNode chain).start { remoteEndpoint := some ⟨.v4 ⟨0x0A000001⟩, 50000⟩ }
  mail := ⟨[], [], ∅⟩
  states := ∅

/-- VERSION advertises 10.0.0.`host`, and an inventory cannot be read. -/
def greetThenFail (χ : Type) (host : UInt8) : List (Int × PeerMessage χ) :=
  [(1000, .version (versionAt host 7)), (1001, .inv [])]

def samplePolicy : PeerPolicy where
  defaultP2pPort := 9000
  netgroup := fun _ => chars "unknown"
  isSelf := fun _ => false

abbrev sampleChain : PeerChain Blockchain := peerChain Regtest.crypto .regtest Regtest.env 10

/-- A peer that advertises its own address is punished under it. -/
theorem punishment_stays_honest : ∃ s : Blockchain,
    SparedRun sampleChain Regtest.crypto sampleMailLib samplePolicy 0 (chars "10.0.0.1") ∅
      (sessionFrom s) (greetThenFail Blockchain 1) ∧
    ((handleAll sampleChain Regtest.crypto sampleMailLib samplePolicy 0 (sessionFrom s)
      (greetThenFail Blockchain 1)).states.standing (chars "10.0.0.1:9000")).1 = 10 := by
  have hrun : (Regtest.after []).map (fun s =>
      (decide (SafeMessages sampleChain Regtest.crypto sampleMailLib samplePolicy 0
          (chars "10.0.0.1") (sessionFrom s) (greetThenFail Blockchain 1)),
        ((handleAll sampleChain Regtest.crypto sampleMailLib samplePolicy 0 (sessionFrom s)
          (greetThenFail Blockchain 1)).states.standing (chars "10.0.0.1:9000")).1))
      = some (true, 10) := by decide +kernel
  obtain ⟨s, -, hs⟩ := Option.map_eq_some_iff.mp hrun
  obtain ⟨hsafe, hscore⟩ := Prod.mk.inj hs
  exact ⟨s, punishment_stays _ _ _ _ _ _ _ _ (of_decide_eq_true hsafe), hscore⟩

/-- A session of 10.0.0.1 has 10.0.0.9 punished. -/
theorem not_punishment_stays : ¬ ∀ (access : PeerChain Blockchain) (c : Crypto) (lib : MailLib)
    (policy : PeerPolicy) (peer : Nat) (n : ScoredNode Blockchain) (e : Endpoint)
    (messages : List (Int × PeerMessage Blockchain)),
    (n.peers.session peer).remoteEndpoint = some e →
    SparedRun access c lib policy peer e.host.toText n.states n messages := by
  intro hall
  have hrun : (Regtest.after []).map (fun s =>
      ((handleAll sampleChain Regtest.crypto sampleMailLib samplePolicy 0 (sessionFrom s)
        (greetThenFail Blockchain 9)).states.standing (chars "10.0.0.9:9000")).1) = some 10 := by
    decide +kernel
  obtain ⟨s, -, hs⟩ := Option.map_eq_some_iff.mp hrun
  have hspared := (hall sampleChain Regtest.crypto sampleMailLib samplePolicy 0 (sessionFrom s)
    ⟨.v4 ⟨0x0A000001⟩, 50000⟩ (greetThenFail Blockchain 9) rfl).last
  have hstanding := hspared.standing (chars "10.0.0.9:9000") (by decide)
  rw [hstanding] at hs
  change ((∅ : PeerStates).standing (chars "10.0.0.9:9000")).1 = 10 at hs
  exact absurd hs (by decide)

end Peers

end Cryptex
