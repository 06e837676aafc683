import Cryptex.Network.PeerHeights

/-!
# Heights of live peers

Over any run, the announced heights stay under the labels of open sessions
exactly if no session changes its label over a height that is only its own, and
none that was removed announces a height.
-/

namespace Cryptex

open Codec Encoding Download

namespace Peers

variable {χ : Type}

/-- The announced heights are those of open sessions, and without sessions no
peer is ahead. -/
structure HeightsLive (access : PeerChain χ) (n : PeerNode χ) : Prop where
  owned : ∀ label ∈ n.peerHeights.keys, ∃ peer ∈ n.net.sessions, n.remoteLabel peer = label
  idle : n.net.sessions = ∅ → (syncStatus access n).bestPeerHeight = 0

/-- The labels of the sessions with those that have a height. -/
def PeerNode.registry (n : PeerNode χ) : Registry Nat Bytes :=
  ⟨n.net.sessions, n.remoteLabel, n.peerHeights.keys⟩

/-- The height under the label of the session is not lost when its socket is. -/
def PeerNode.CanUnplug (n : PeerNode χ) (peer : Nat) : Prop :=
  n.registry.CanRelabel peer (n.session peer).unplugged.remoteLabel

section

variable (access : PeerChain χ) (c : Crypto) (defaultP2pPort : UInt16)

/-- The heights are right before and after every event. -/
def LiveRun : PeerNode χ → List (PeerEvent χ) → Prop
  | n, [] => HeightsLive access n
  | n, event :: events =>
      HeightsLive access n ∧ LiveRun (event.run access c defaultP2pPort n) events

/-- The event leaves no height behind, and makes none that nobody stands for. -/
def SafeEvent (n : PeerNode χ) : PeerEvent χ → Prop
  | .unplug peer => n.CanUnplug peer
  | .version peer payload banned =>
      peer ∈ n.net.alive →
        match VersionPayload.deserialize defaultP2pPort payload with
        | none => banned = true → n.CanUnplug peer
        | some version =>
            let label := ((n.session peer).greeted defaultP2pPort version).remoteLabel
            n.registry.CanRelabel peer label ∧ n.registry.CanEnter peer label
  | .headers peer payload banned =>
      peer ∈ n.net.alive →
        match headersHeight access c n.net.chain payload with
        | none => banned = true → n.CanUnplug peer
        | some height => height.isSome = true → n.registry.CanEnter peer (n.remoteLabel peer)
  | .block peer payload banned =>
      peer ∈ n.net.alive →
        match Block.deserialize payload with
        | none => banned = true → n.CanUnplug peer
        | some (blk, _) =>
            match access.acceptBlock n.net.chain blk with
            | some (true, chain) =>
                (access.getHeightByHash chain (blk.header.powHash c).toNat).isSome = true →
                  n.registry.CanEnter peer (n.remoteLabel peer)
            | _ => banned = true → n.CanUnplug peer
  | .inv peer payload banned =>
      peer ∈ n.net.alive → (readVarint payload).isNone = true → banned = true → n.CanUnplug peer
  | .other peer _ punished banned => punished = true → banned = true → n.CanUnplug peer
  | _ => True

def SafeRun : PeerNode χ → List (PeerEvent χ) → Prop
  | _, [] => True
  | n, event :: events =>
      SafeEvent access c defaultP2pPort n event ∧
        SafeRun (event.run access c defaultP2pPort n) events

end

variable {access : PeerChain χ} {c : Crypto} {n : PeerNode χ} {peer : Nat}

/-! ## What the handlers do to the registry -/

theorem heightsLive_iff : HeightsLive access n ↔ n.registry.Live := by
  refine ⟨HeightsLive.owned, fun h => ⟨h, fun hnone => ?_⟩⟩
  have hkeys : n.peerHeights.keys = ∅ := h.keys_eq_empty hnone
  simp only [syncStatus, hkeys, Finset.sup_empty]
  rfl

namespace PeerNode

theorem remoteLabel_withSession (n : PeerNode χ) (peer : Nat) (s : PeerSession) :
    (n.withSession peer s).remoteLabel = Function.update n.remoteLabel peer s.remoteLabel := by
  funext i
  rw [remoteLabel, withSession]
  by_cases h : i = peer
  · subst h
    simp only [Function.update_self]
  · simp only [Function.update_of_ne h]
    rfl

theorem registry_withSession (n : PeerNode χ) (peer : Nat) (s : PeerSession) :
    (n.withSession peer s).registry = n.registry.relabel peer s.remoteLabel :=
  congrArg (Registry.mk n.net.sessions · n.peerHeights.keys) (remoteLabel_withSession n peer s)

theorem registry_start (n : PeerNode χ) (s : PeerSession) :
    (n.start s).registry = n.registry.join n.net.nextSession s.remoteLabel :=
  congrArg (Registry.mk _ · n.peerHeights.keys) (remoteLabel_withSession n _ s)

theorem registry_note (n : PeerNode χ) (peer : Nat) (height : UInt32) :
    (n.notePeerAnnouncedHeight (n.remoteLabel peer) height).registry = n.registry.enter peer := by
  refine congrArg (Registry.mk n.net.sessions n.remoteLabel) ?_
  ext label
  rw [Finmap.mem_keys, notePeerAnnouncedHeight, Finmap.mem_insert, Finset.mem_insert]
  exact or_congr Iff.rfl Finmap.mem_keys.symm

theorem registry_remove (n : PeerNode χ) (peer : Nat) :
    (n.remove peer).registry = n.registry.leave peer :=
  congrArg (Registry.mk (n.net.sessions.erase peer) n.remoteLabel) (Finmap.keys_erase _ _)

theorem registry_close (n : PeerNode χ) (peer : Nat) : (n.close peer).registry
    = (n.registry.relabel peer (n.session peer).unplugged.remoteLabel).leave peer := by
  rw [close, registry_remove, registry_withSession]

theorem announce_live_iff (h : n.registry.Live) (height : UInt32) (banned : Bool) :
    (n.finish peer (some height) false banned).registry.Live ↔
      n.registry.CanEnter peer (n.remoteLabel peer) := by
  rw [finish, Bool.false_and, if_neg Bool.false_ne_true, registry_note, Registry.live_enter_iff h]
  rfl

theorem punish_live_iff (h : n.registry.Live) (punished banned : Bool) :
    (n.finish peer none punished banned).registry.Live ↔
      (punished = true → banned = true → n.CanUnplug peer) := by
  rw [finish]
  cases hban : punished && banned with
  | false =>
      refine iff_of_true h fun hp hb => ?_
      rw [hp, hb] at hban
      cases hban
  | true =>
      obtain ⟨hp, hb⟩ := (Bool.and_eq_true _ _).mp hban
      rw [if_pos rfl, registry_close, Registry.live_relabel_leave_iff h]
      exact ⟨fun hcan _ _ => hcan, fun hcan => hcan hp hb⟩

end PeerNode

/-! ## What the downloads leave alone -/

theorem enqueueBlockDownload_sessions (access : PeerChain χ) (hash peer : Nat)
    (d : DownloadNode χ) :
    (enqueueBlockDownload access.toChainAccess hash peer d).node.sessions = d.sessions ∧
      (enqueueBlockDownload access.toChainAccess hash peer d).node.nextSession = d.nextSession := by
  rw [enqueueBlockDownload]
  split
  · exact ⟨rfl, rfl⟩
  · split <;> exact ⟨rfl, rfl⟩

theorem enqueueHashes_sessions (access : PeerChain χ) (peer : Nat) (faulty : Bool) :
    ∀ (hashes : List Nat) (d : DownloadNode χ),
    (enqueueHashes access.toChainAccess peer faulty hashes d).node.sessions = d.sessions ∧
      (enqueueHashes access.toChainAccess peer faulty hashes d).node.nextSession = d.nextSession ∧
      (enqueueHashes access.toChainAccess peer faulty hashes d).punished = faulty
  | [], d => by
      rw [enqueueHashes]
      cases faulty <;> exact ⟨rfl, rfl, rfl⟩
  | hash :: hashes, d => by
      obtain ⟨hsessions, hnext, hfaulty⟩ := enqueueHashes_sessions access peer faulty hashes
        (enqueueBlockDownload access.toChainAccess hash peer d).node
      obtain ⟨hs, hn⟩ := enqueueBlockDownload_sessions access hash peer d
      rw [enqueueHashes]
      exact ⟨hsessions.trans hs, hnext.trans hn, hfaulty⟩

/-- A HEADERS message is faulty for the heights if it is for the downloads. -/
theorem inferredHeight_isNone (chain : χ) : ∀ (count : Nat) (previousLink : Option Hash256)
    (inferred : Option UInt32) (data : Bytes),
    (inferredHeight access c chain count previousLink inferred data).isNone
      = (headerOffers access.toChainAccess c chain count previousLink data).2
  | 0, _, _, _ => rfl
  | count + 1, previousLink, inferred, data => by
      rw [inferredHeight, headerOffers]
      by_cases hdata : data = []
      · rw [if_pos hdata, if_pos hdata]
        rfl
      rw [if_neg hdata, if_neg hdata]
      cases readBytes data with
      | none => rfl
      | some read =>
          dsimp only
          cases BlockHeader.deserialize read.1.toList with
          | none => rfl
          | some header =>
              dsimp only
              split
              · exact inferredHeight_isNone chain count _ _ _
              · rfl

theorem headersHeight_isNone (chain : χ) (payload : Bytes) :
    (headersHeight access c chain payload).isNone
      = (headersOffers access.toChainAccess c chain payload).2 := by
  rw [headersHeight, headersOffers]
  cases readVarint payload with
  | none => rfl
  | some read =>
      dsimp only
      split
      · rfl
      · exact inferredHeight_isNone chain _ _ _ _

/-! ## One event -/

/-- The sessions are numbered as they start. -/
def PeerNode.Numbered (n : PeerNode χ) : Prop := ∀ peer ∈ n.net.sessions, peer < n.net.nextSession

theorem PeerNode.Numbered.fewer (h : n.Numbered) {n' : PeerNode χ}
    (hsub : n'.net.sessions ⊆ n.net.sessions) (hnext : n'.net.nextSession = n.net.nextSession) :
    n'.Numbered := fun i hi => hnext ▸ h i (hsub hi)

theorem PeerNode.Numbered.started (h : n.Numbered) (s : PeerSession) : (n.start s).Numbered := by
  intro i hi
  rcases Finset.mem_insert.mp hi with rfl | hi
  · exact Nat.lt_succ_self _
  · exact Nat.lt_succ_of_lt (h i hi)

theorem PeerNode.Numbered.finish (h : n.Numbered) (peer : Nat) (height : Option UInt32)
    (punished banned : Bool) : (n.finish peer height punished banned).Numbered := by
  have hnet := n.finish_net peer height punished banned []
  rw [closeIfBanned] at hnet
  split at hnet
  · exact h.fewer (hnet ▸ Finset.erase_subset _ _) (by rw [hnet]; rfl)
  · exact h.fewer (by rw [hnet]) (by rw [hnet])

theorem start_live (hn : n.Numbered) (h : n.registry.Live) (s : PeerSession) :
    (n.start s).registry.Live := by
  rw [PeerNode.registry_start]
  exact h.join (fun hmem => Nat.lt_irrefl _ (hn _ hmem)) _

section

variable {defaultP2pPort : UInt16} {payload : Bytes} {banned : Bool}

/-- A message has no effect once its session is gone. -/
theorem receive_live_iff (h : n.registry.Live) {handler : PeerNode χ → PeerNode χ} {P : Prop}
    (hiff : (handler n).registry.Live ↔ P) :
    (n.receive peer handler).registry.Live ↔ (peer ∈ n.net.alive → P) := by
  rw [PeerNode.receive]
  split
  · next halive => rw [hiff, forall_prop_of_true halive]
  · next hgone => exact iff_of_true h fun halive => absurd halive hgone

theorem versionHandler_live_iff (h : n.registry.Live) :
    (versionHandler defaultP2pPort peer payload banned n).registry.Live ↔
      match VersionPayload.deserialize defaultP2pPort payload with
      | none => banned = true → n.CanUnplug peer
      | some version =>
          let label := ((n.session peer).greeted defaultP2pPort version).remoteLabel
          n.registry.CanRelabel peer label ∧ n.registry.CanEnter peer label := by
  rw [versionHandler]
  cases VersionPayload.deserialize defaultP2pPort payload with
  | none =>
      dsimp only
      rw [PeerNode.punish_live_iff h, forall_prop_of_true rfl]
  | some version =>
      dsimp only
      rw [PeerNode.finish, Bool.false_and, if_neg Bool.false_ne_true, PeerNode.registry_note,
        PeerNode.registry_withSession, Registry.live_relabel_enter_iff h]

/-- The downloads of a message do not touch the registry. -/
theorem registry_finish_withNet {d : DownloadNode χ} (hsessions : d.sessions = n.net.sessions)
    (peer : Nat) (height : Option UInt32) (punished banned : Bool) :
    (({ n with net := d } : PeerNode χ).finish peer height punished banned).registry
      = (n.finish peer height punished banned).registry := by
  obtain ⟨chain, downloads, sessions, alive, next⟩ := d
  cases hsessions
  cases height with
  | none =>
      rw [PeerNode.finish, PeerNode.finish]
      split <;> rfl
  | some height =>
      rw [PeerNode.finish, PeerNode.finish]
      split <;> rfl

theorem headersHandler_live_iff (h : n.registry.Live) :
    (headersHandler access c peer payload banned n).registry.Live ↔
      match headersHeight access c n.net.chain payload with
      | none => banned = true → n.CanUnplug peer
      | some height => height.isSome = true → n.registry.CanEnter peer (n.remoteLabel peer) := by
  obtain ⟨hsessions, -, hfaulty⟩ := enqueueHashes_sessions access peer
    (headersOffers access.toChainAccess c n.net.chain payload).2
    (headersOffers access.toChainAccess c n.net.chain payload).1 n.net
  rw [headersHandler, headersHandler_eq, enqueueOffers, registry_finish_withNet hsessions, hfaulty,
    ← headersHeight_isNone]
  cases headersHeight access c n.net.chain payload with
  | none =>
      dsimp only [Option.join_none, Option.isNone_none]
      rw [PeerNode.punish_live_iff h, forall_prop_of_true rfl]
  | some height =>
      cases height with
      | none => exact (PeerNode.punish_live_iff h _ _).trans (by simp)
      | some height => exact (PeerNode.announce_live_iff h height banned).trans (by simp)

theorem blockHandler_sessions (access : PeerChain χ) (c : Crypto) (payload : Bytes)
    (d : DownloadNode χ) :
    (Download.blockHandler access.toChainAccess c payload d).node.sessions = d.sessions ∧
      (Download.blockHandler access.toChainAccess c payload d).node.nextSession = d.nextSession := by
  rw [Download.blockHandler]
  cases Block.deserialize payload with
  | none => exact ⟨rfl, rfl⟩
  | some read =>
      dsimp only
      cases access.acceptBlock d.chain read.1 with
      | none => exact ⟨rfl, rfl⟩
      | some result => exact ⟨rfl, rfl⟩

theorem blockHandler_live_iff (h : n.registry.Live) :
    (blockHandler access c peer payload banned n).registry.Live ↔
      match Block.deserialize payload with
      | none => banned = true → n.CanUnplug peer
      | some (blk, _) =>
          match access.acceptBlock n.net.chain blk with
          | some (true, chain) =>
              (access.getHeightByHash chain (blk.header.powHash c).toNat).isSome = true →
                n.registry.CanEnter peer (n.remoteLabel peer)
          | _ => banned = true → n.CanUnplug peer := by
  have hsessions := (blockHandler_sessions access c payload n.net).1
  rw [blockHandler, registry_finish_withNet hsessions, blockHeight, Download.blockHandler]
  cases Block.deserialize payload with
  | none => exact (PeerNode.punish_live_iff h _ _).trans (forall_prop_of_true rfl)
  | some read =>
      dsimp only
      cases access.acceptBlock n.net.chain read.1 with
      | none => exact (PeerNode.punish_live_iff h _ _).trans (forall_prop_of_true rfl)
      | some result =>
          obtain ⟨ok, chain⟩ := result
          cases ok with
          | false => exact (PeerNode.punish_live_iff h _ _).trans (forall_prop_of_true rfl)
          | true =>
              dsimp only
              cases access.getHeightByHash chain (read.1.header.powHash c).toNat with
              | none => exact (PeerNode.punish_live_iff h _ _).trans (by simp)
              | some height => exact (PeerNode.announce_live_iff h _ banned).trans (by simp)

theorem invHandler_live_iff (h : n.registry.Live) :
    (invHandler access peer payload banned n).registry.Live ↔
      ((readVarint payload).isNone = true → banned = true → n.CanUnplug peer) := by
  obtain ⟨hsessions, -, hfaulty⟩ := enqueueHashes_sessions access peer
    (invOffers payload).2 (invOffers payload).1 n.net
  rw [invHandler, invHandler_eq, enqueueOffers, registry_finish_withNet hsessions, hfaulty,
    PeerNode.punish_live_iff h, invOffers]
  cases readVarint payload <;> rfl

end

theorem step_live_iff {defaultP2pPort : UInt16} (event : PeerEvent χ) (hn : n.Numbered)
    (h : n.registry.Live) :
    (event.run access c defaultP2pPort n).registry.Live ↔
      SafeEvent access c defaultP2pPort n event := by
  cases event with
  | accept remote => exact iff_of_true (start_live hn h _) trivial
  | connect label endpoint remote refused =>
      refine iff_of_true ?_ trivial
      rw [PeerEvent.run]
      split
      · intro q hq
        rw [PeerNode.registry, Finmap.keys_erase] at hq
        exact h q (Finset.mem_of_mem_erase hq)
      · exact start_live hn h _
  | unplug peer =>
      rw [PeerEvent.run, PeerNode.registry_withSession, Registry.live_relabel_iff h]
      rfl
  | disconnect peer =>
      refine iff_of_true ?_ trivial
      rw [PeerEvent.run, PeerNode.registry_remove]
      exact h.leave peer
  | release peer =>
      refine iff_of_true ?_ trivial
      rw [PeerEvent.run]
      split <;> exact h
  | version peer payload banned => exact receive_live_iff h (versionHandler_live_iff h)
  | headers peer payload banned => exact receive_live_iff h (headersHandler_live_iff h)
  | block peer payload banned => exact receive_live_iff h (blockHandler_live_iff h)
  | inv peer payload banned => exact receive_live_iff h (invHandler_live_iff h)
  | other peer chain punished banned =>
      have hsame := registry_finish_withNet (n := n) (d := { n.net with chain := chain }) rfl peer
        none punished banned
      rw [PeerEvent.run, hsame]
      exact PeerNode.punish_live_iff h punished banned
  | deactivate => exact iff_of_true (fun q hq => absurd hq (Finset.notMem_empty q)) trivial

theorem PeerNode.Numbered.receive (h : n.Numbered) {handler : PeerNode χ → PeerNode χ}
    (hafter : (handler n).Numbered) : (n.receive peer handler).Numbered := by
  rw [PeerNode.receive]
  split
  · exact hafter
  · exact h

theorem PeerNode.Numbered.withNet (h : n.Numbered) {d : DownloadNode χ}
    (hsessions : d.sessions = n.net.sessions) (hnext : d.nextSession = n.net.nextSession) :
    ({ n with net := d } : PeerNode χ).Numbered :=
  h.fewer (by rw [hsessions]) hnext

theorem step_numbered {defaultP2pPort : UInt16} (event : PeerEvent χ) (h : n.Numbered) :
    (event.run access c defaultP2pPort n).Numbered := by
  cases event with
  | accept remote => exact h.started _
  | connect label endpoint remote refused =>
      rw [PeerEvent.run]
      split
      · exact h
      · exact h.started _
  | unplug peer => exact h
  | disconnect peer => exact h.fewer (Finset.erase_subset _ _) rfl
  | release peer =>
      rw [PeerEvent.run]
      split <;> exact h
  | version peer payload banned =>
      refine h.receive ?_
      rw [versionHandler]
      split
      · exact h.finish peer none true banned
      · next version _ =>
          have hgreeted : (n.withSession peer ((n.session peer).greeted defaultP2pPort version)).Numbered :=
            h
          exact hgreeted.finish peer _ false banned
  | headers peer payload banned =>
      obtain ⟨hsessions, hnext, -⟩ := enqueueHashes_sessions access peer
        (headersOffers access.toChainAccess c n.net.chain payload).2
        (headersOffers access.toChainAccess c n.net.chain payload).1 n.net
      refine h.receive ?_
      rw [headersHandler, headersHandler_eq, enqueueOffers]
      exact (h.withNet hsessions hnext).finish peer _ _ banned
  | block peer payload banned =>
      obtain ⟨hsessions, hnext⟩ := blockHandler_sessions access c payload n.net
      exact h.receive ((h.withNet hsessions hnext).finish peer _ _ banned)
  | inv peer payload banned =>
      obtain ⟨hsessions, hnext, -⟩ := enqueueHashes_sessions access peer
        (invOffers payload).2 (invOffers payload).1 n.net
      refine h.receive ?_
      rw [invHandler, invHandler_eq, enqueueOffers]
      exact (h.withNet hsessions hnext).finish peer _ _ banned
  | other peer chain punished banned =>
      have hnet : ({ n with net := { n.net with chain := chain } } : PeerNode χ).Numbered := h
      exact hnet.finish peer none punished banned
  | deactivate => exact fun i hi => absurd hi (Finset.notMem_empty i)

/-! ## The run -/

theorem liveRun_iff_from {defaultP2pPort : UInt16} : ∀ (events : List (PeerEvent χ))
    (n : PeerNode χ), n.Numbered → HeightsLive access n →
      (LiveRun access c defaultP2pPort n events ↔ SafeRun access c defaultP2pPort n events)
  | [], n, _, hlive => iff_of_true hlive trivial
  | event :: events, n, hn, hlive => by
      have hstep : HeightsLive access (event.run access c defaultP2pPort n) ↔
          SafeEvent access c defaultP2pPort n event :=
        heightsLive_iff.trans (step_live_iff event hn (heightsLive_iff.mp hlive))
      have hn' : (event.run access c defaultP2pPort n).Numbered := step_numbered event hn
      rw [LiveRun, SafeRun, ← hstep, and_iff_right hlive]
      constructor
      · intro hrun
        have hafter : HeightsLive access (event.run access c defaultP2pPort n) := by
          cases events with
          | nil => exact hrun
          | cons next rest => exact hrun.1
        exact ⟨hafter, (liveRun_iff_from events _ hn' hafter).mp hrun⟩
      · rintro ⟨hafter, hrun⟩
        exact (liveRun_iff_from events _ hn' hafter).mpr hrun

/-- Over any run of a node that starts without sessions, the heights stay those
of open sessions exactly if every event is a safe one. -/
theorem heights_live_iff (access : PeerChain χ) (c : Crypto) (defaultP2pPort : UInt16) (chain : χ)
    (events : List (PeerEvent χ)) :
    LiveRun access c defaultP2pPort (freshPeerNode chain) events ↔
      SafeRun access c defaultP2pPort (freshPeerNode chain) events :=
  liveRun_iff_from events _ (fun i hi => absurd hi (Finset.notMem_empty i))
    (heightsLive_iff.mpr fun q hq => absurd hq (Finset.notMem_empty q))

/-! ## What a height that stays does -/

theorem height_le_best (access : PeerChain χ) {label : Bytes} {height : UInt32}
    (h : n.peerHeights.lookup label = some height) :
    height.toNat ≤ (syncStatus access n).bestPeerHeight := by
  have hmem : label ∈ n.peerHeights.keys := Finmap.mem_keys.mpr (Finmap.mem_of_lookup_eq_some h)
  have hle := Finset.le_sup (f := fun label => ((n.peerHeights.lookup label).getD 0).toNat) hmem
  simp only [h, Option.getD_some] at hle
  exact hle

/-- The chain is not approved while a height above its own is kept. -/
theorem not_approved_of_height {label : Bytes} {height : UInt32}
    (h : n.peerHeights.lookup label = some height)
    (habove : access.bestHeight n.net.chain % 2 ^ 32 < height.toNat) :
    (chainApproval (syncStatus access n)).1 = false := by
  have hle := height_le_best access h
  have hbest : (syncStatus access n).bestPeerHeight > 0 := by omega
  have hlocal : (syncStatus access n).localHeight < (syncStatus access n).bestPeerHeight :=
    Nat.lt_of_lt_of_le habove hle
  rw [chainApproval, if_pos (Or.inr hbest)]
  simp [Nat.not_le.mpr hlocal]

/-! ## A peer that names two addresses -/

/-- The node after a run. -/
def runPeers (access : PeerChain χ) (c : Crypto) (defaultP2pPort : UInt16) (n : PeerNode χ)
    (events : List (PeerEvent χ)) : PeerNode χ :=
  events.foldl (PeerEvent.run access c defaultP2pPort) n

theorem LiveRun.last {defaultP2pPort : UInt16} : ∀ {events : List (PeerEvent χ)} {n : PeerNode χ},
    LiveRun access c defaultP2pPort n events →
      HeightsLive access (runPeers access c defaultP2pPort n events)
  | [], _, h => h
  | event :: events, n, h => by
      change HeightsLive access
        (runPeers access c defaultP2pPort (event.run access c defaultP2pPort n) events)
      exact LiveRun.last h.2

/-- The payload of a VERSION message that advertises 10.0.0.`host`:9000. -/
def versionAt (host height : UInt8) : Bytes :=
  [1, 0, 0, 0, height, 0, 0, 0, 0x28, 0x23, 1, 10, 0, 0, host]

/-- A peer connects, is greeted under two addresses, and leaves. -/
def movingPeer (χ : Type) : List (PeerEvent χ) :=
  [.accept ⟨.v4 ⟨0x0A000001⟩, 50000⟩, .version 0 (versionAt 1 7) false,
    .version 0 (versionAt 2 7) false, .disconnect 0]

/-- The height stays under the first address, and no session is open. -/
theorem left_behind : (Regtest.after []).map (fun s =>
      let n := runPeers (peerChain Regtest.crypto .regtest Regtest.env 10) Regtest.crypto 9000
        (freshPeerNode s) (movingPeer Blockchain)
      (n.net.sessions, n.peerHeights.lookup (chars "10.0.0.1:9000"))) = some (∅, some 7) := by
  decide +kernel

theorem not_heights_live : ¬ ∀ (access : PeerChain Blockchain) (c : Crypto)
    (defaultP2pPort : UInt16) (chain : Blockchain) (events : List (PeerEvent Blockchain)),
    LiveRun access c defaultP2pPort (freshPeerNode chain) events := by
  intro hall
  obtain ⟨s, -, hs⟩ := Option.map_eq_some_iff.mp left_behind
  have hlast := (hall (peerChain Regtest.crypto .regtest Regtest.env 10) Regtest.crypto 9000 s
    (movingPeer Blockchain)).last
  revert hs hlast
  generalize runPeers _ _ _ _ _ = n
  intro hs hlast
  obtain ⟨hnone, hheight⟩ := Prod.mk.inj hs
  obtain ⟨peer, hpeer, -⟩ := hlast.owned _
    (Finmap.mem_keys.mpr (Finmap.mem_of_lookup_eq_some hheight))
  rw [hnone] at hpeer
  exact Finset.notMem_empty peer hpeer

end Peers

end Cryptex
