import Cryptex.Network.BlockDownload
import Cryptex.RegtestRun

/-!
# The bookkeeping of block downloads

When the queue, its set and the set of hashes in flight stay consistent, and
each hash in flight stays asked for on an open session.
-/

namespace Cryptex

open Codec Window

namespace Download

variable {χ : Type} {access : ChainAccess χ} {c : Crypto}

/-! ## The bookkeeping -/

/-- The set of queued hashes is that of the queue, which holds each once, none
of them is in flight, at most `MAX_PARALLEL_BLOCK_DOWNLOADS` hashes are, and
each of those has an unanswered GETBLOCK on an open session. -/
structure Bookkept (n : DownloadNode χ) (asked : List (Nat × Nat)) : Prop where
  sound : Sound Constants.maxParallelBlockDownloads n.downloads
  served : ∀ hash ∈ n.downloads.inflight, Covered n.sessions asked hash

section

variable (access : ChainAccess χ) (c : Crypto)

/-- The bookkeeping is right before and after every event. -/
def BookkeptRun : DownloadNode χ → List (Nat × Nat) → List (DownloadEvent χ) → Prop
  | n, asked, [] => Bookkept n asked
  | n, asked, event :: events =>
      Bookkept n asked ∧
        BookkeptRun (event.run access c n).node (event.unanswered access c n asked) events

/-- The hashes that the headers of a payload offer for download, and whether
the payload is faulty. -/
def headerOffers (chain : χ) : Nat → Option Hash256 → Bytes → List Nat × Bool
  | 0, _, _ => ([], false)
  | count + 1, previousLink, data =>
      if data = [] then ([], false)
      else
        match readBytes data with
        | none => ([], true)
        | some (bytes, rest) =>
            match BlockHeader.deserialize bytes.toList with
            | none => ([], true)
            | some (header, _) =>
                if linked access chain previousLink header then
                  let offers := headerOffers chain count (some (header.hash c)) rest
                  ((header.powHash c).toNat :: offers.1, offers.2)
                else ([], true)

/-- The hashes that a HEADERS payload offers. -/
def headersOffers (chain : χ) (payload : Bytes) : List Nat × Bool :=
  match readVarint payload with
  | none => ([], true)
  | some (count, data) =>
      if count > Constants.maxHeadersPerMessage then ([], true)
      else headerOffers access c chain count none data

/-- The block hashes of the entries of an INV payload. -/
def invHashes : Nat → Bytes → List Nat
  | 0, _ => []
  | _ + 1, [] => []
  | count + 1, kind :: data =>
      if kind = 1 then
        if data.length < Constants.powHashBytes then []
        else fromBytes (data.take Constants.powHashBytes) ::
          invHashes count (data.drop Constants.powHashBytes)
      else if kind = 2 then
        if data.length < 32 then [] else invHashes count (data.drop 32)
      else invHashes count data

/-- The hashes that an INV payload offers. -/
def invOffers (payload : Bytes) : List Nat × Bool :=
  match readVarint payload with
  | none => ([], true)
  | some (count, data) => (invHashes count data, false)

/-- A hash that is not known, queued or in flight. -/
def Fresh (n : DownloadNode χ) (hash : Nat) : Bool :=
  (access.getBlockByHash n.chain hash).isNone && hash ∉ n.downloads.queued &&
    hash ∉ n.downloads.inflight

/-- The hashes of an offer that are new to the node. -/
def newHashes (n : DownloadNode χ) (hashes : List Nat) : List Nat :=
  (hashes.filter (Fresh access n)).eraseDups

/-- Those of them for which there is room at once. -/
def requested (n : DownloadNode χ) (hashes : List Nat) : List Nat :=
  (newHashes access n hashes).take
    (Constants.maxParallelBlockDownloads - n.downloads.inflight.card)

/-- The open sessions after a message of a peer. -/
def sessionsAfter (n : DownloadNode χ) (peer : Nat) (punished banned : Bool) : Finset Nat :=
  if punished && banned then n.sessions.erase peer else n.sessions

/-- The sessions cover what is in flight, and the peer is one of them or they
cover what is requested of it. -/
def SafeOffer (n : DownloadNode χ) (asked : List (Nat × Nat)) (peer : Nat)
    (offers : List Nat × Bool) (banned : Bool) : Prop :=
  let sessions := sessionsAfter n peer offers.2 banned
  (∀ hash ∈ n.downloads.inflight, Covered sessions asked hash) ∧
    ∀ hash ∈ requested access n offers.1, peer ∈ sessions ∨ Covered sessions asked hash

/-- A block that the chain takes or rejects does not wait in the queue, and if
it makes room, the next item of the queue is for an open session. -/
def SafeBlock (n : DownloadNode χ) (asked : List (Nat × Nat)) (peer : Nat) (banned : Bool)
    (blk : Block) : Prop :=
  let hash := (blk.header.powHash c).toNat
  let asked := asked.filter fun item => item ≠ (hash, peer)
  match access.acceptBlock n.chain blk with
  | none =>
      ∀ other ∈ n.downloads.inflight, Covered (sessionsAfter n peer true banned) asked other
  | some (ok, chain) =>
      let sessions := sessionsAfter n peer (!ok) banned
      hash ∉ n.downloads.keys ∧
        (∀ other ∈ n.downloads.inflight, other ≠ hash → Covered sessions asked other) ∧
        (hash ∈ n.downloads.inflight → ∀ item,
          n.downloads.queue.find? ({ n with chain := chain }.usable access) = some item →
            item.2 ∈ sessions ∨ Covered sessions asked item.1)

/-- The event keeps the bookkeeping right. -/
def SafeEvent (n : DownloadNode χ) (asked : List (Nat × Nat)) : DownloadEvent χ → Prop
  | .disconnect peer =>
      ∀ hash ∈ n.downloads.inflight, Covered (n.sessions.erase peer) asked hash
  | .headers peer payload banned =>
      peer ∈ n.alive → SafeOffer access n asked peer (headersOffers access c n.chain payload) banned
  | .inv peer payload banned =>
      peer ∈ n.alive → SafeOffer access n asked peer (invOffers payload) banned
  | .block peer payload banned =>
      peer ∈ n.alive →
        match Block.deserialize payload with
        | none =>
            ∀ hash ∈ n.downloads.inflight, Covered (sessionsAfter n peer true banned) asked hash
        | some (blk, _) => SafeBlock access c n asked peer banned blk
  | .other peer _ punished banned =>
      ∀ hash ∈ n.downloads.inflight, Covered (sessionsAfter n peer punished banned) asked hash
  | _ => True

def SafeRun : DownloadNode χ → List (Nat × Nat) → List (DownloadEvent χ) → Prop
  | _, _, [] => True
  | n, asked, event :: events =>
      SafeEvent access c n asked event ∧
        SafeRun (event.run access c n).node (event.unanswered access c n asked) events

end

/-! ## Offers -/

/-- Nothing waits while there is room. -/
def DrainedNode (n : DownloadNode χ) : Prop :=
  Drained Constants.maxParallelBlockDownloads n.downloads

/-- Enqueue hashes, and pump unless the payload is faulty. -/
def enqueueHashes (access : ChainAccess χ) (peer : Nat) (faulty : Bool) :
    List Nat → DownloadNode χ → DownloadStep χ
  | [], n => if faulty then { node := n, sent := [], punished := true } else pumpBlockDownloads access n
  | hash :: hashes, n =>
      (enqueueHashes access peer faulty hashes (enqueueBlockDownload access hash peer n).node).after
        (enqueueBlockDownload access hash peer n).sent

def enqueueOffers (access : ChainAccess χ) (peer : Nat) (offers : List Nat × Bool)
    (n : DownloadNode χ) : DownloadStep χ :=
  enqueueHashes access peer offers.2 offers.1 n

theorem enqueueBlockDownload_chain (hash peer : Nat) (n : DownloadNode χ) :
    (enqueueBlockDownload access hash peer n).node.chain = n.chain := by
  rw [enqueueBlockDownload]
  split
  · rfl
  · split
    · rfl
    · rfl

/-- The check that the handlers make before they enqueue is that of
`enqueue_block_download`. -/
theorem enqueue_unless_known (hash peer : Nat) (n : DownloadNode χ) :
    (if (access.getBlockByHash n.chain hash).isNone then enqueueBlockDownload access hash peer n
      else { node := n, sent := [] }) = enqueueBlockDownload access hash peer n := by
  split
  · rfl
  · next hknown =>
      have hsome : (access.getBlockByHash n.chain hash).isSome = true :=
        Option.isSome_iff_ne_none.mpr fun hnone => hknown (Option.isNone_iff_eq_none.mpr hnone)
      rw [enqueueBlockDownload, if_pos hsome]

theorem headersLoop_eq (peer : Nat) : ∀ (count : Nat) (previousLink : Option Hash256) (data : Bytes)
    (n : DownloadNode χ), headersLoop access c peer count previousLink data n =
      enqueueOffers access peer (headerOffers access c n.chain count previousLink data) n
  | 0, _, _, _ => rfl
  | count + 1, previousLink, data, n => by
      rw [headersLoop, headerOffers]
      by_cases hdata : data = []
      · rw [if_pos hdata, if_pos hdata]
        rfl
      · rw [if_neg hdata, if_neg hdata]
        cases readBytes data with
        | none => rfl
        | some read =>
            dsimp only
            cases BlockHeader.deserialize read.1.toList with
            | none => rfl
            | some header =>
                dsimp only
                split
                · rw [enqueue_unless_known, headersLoop_eq peer count, enqueueBlockDownload_chain]
                  rfl
                · rfl

theorem headersHandler_eq (peer : Nat) (payload : Bytes) (n : DownloadNode χ) :
    headersHandler access c peer payload n =
      enqueueOffers access peer (headersOffers access c n.chain payload) n := by
  rw [headersHandler, headersOffers]
  cases readVarint payload with
  | none => rfl
  | some read =>
      dsimp only
      split
      · rfl
      · exact headersLoop_eq peer read.1 none read.2 n

theorem invLoop_eq (peer : Nat) : ∀ (count : Nat) (data : Bytes) (n : DownloadNode χ),
    invLoop access peer count data n = enqueueOffers access peer (invHashes count data, false) n
  | 0, _, _ => rfl
  | _ + 1, [], _ => rfl
  | count + 1, kind :: data, n => by
      rw [invLoop, invHashes]
      split
      · split
        · rfl
        · dsimp only
          rw [enqueue_unless_known, invLoop_eq peer count]
          rfl
      · split
        · split
          · rfl
          · exact invLoop_eq peer count _ n
        · exact invLoop_eq peer count _ n

theorem invHandler_eq (peer : Nat) (payload : Bytes) (n : DownloadNode χ) :
    invHandler access peer payload n = enqueueOffers access peer (invOffers payload) n := by
  rw [invHandler, invOffers]
  cases readVarint payload with
  | none => rfl
  | some read => exact invLoop_eq peer read.1 read.2 n

/-! ## What an offer does -/

variable {n : DownloadNode χ}

theorem enqueue_of_not_fresh {hash : Nat} (peer : Nat) (h : Fresh access n hash = false) :
    enqueueBlockDownload access hash peer n = { node := n, sent := [] } := by
  rw [enqueueBlockDownload]
  split
  · rfl
  · next hunknown =>
      split
      · rfl
      · next hnew =>
          obtain ⟨hqueued, hinflight⟩ := not_or.mp hnew
          have hnone : (access.getBlockByHash n.chain hash).isNone = true :=
            Option.isNone_iff_eq_none.mpr (Option.not_isSome_iff_eq_none.mp hunknown)
          rw [Fresh, hnone, decide_eq_true hqueued, decide_eq_true hinflight] at h
          cases h

/-- The node with one more hash in flight. -/
def DownloadNode.asking (n : DownloadNode χ) (hash : Nat) : DownloadNode χ :=
  { n with downloads := { n.downloads with inflight := insert hash n.downloads.inflight } }

/-- The node with one more hash in the queue. -/
def DownloadNode.queueing (n : DownloadNode χ) (item : Nat × Nat) : DownloadNode χ :=
  { n with downloads := n.downloads.push item }

/-- A fresh hash is asked for at once if there is room, and queued otherwise. -/
theorem enqueue_of_fresh {hash peer : Nat} (h : Fresh access n hash = true)
    (hdrained : DrainedNode n) (halive : peer ∈ n.alive) :
    enqueueBlockDownload access hash peer n =
      if n.downloads.inflight.card < Constants.maxParallelBlockDownloads then
        { node := n.asking hash, sent := [(hash, peer)] }
      else { node := n.queueing (hash, peer), sent := [] } := by
  rw [Fresh, Bool.and_eq_true, Bool.and_eq_true, decide_eq_true_eq, decide_eq_true_eq] at h
  obtain ⟨⟨hnone, hqueued⟩, hinflight⟩ := h
  have hunknown : ¬ (access.getBlockByHash n.chain hash).isSome = true :=
    Option.not_isSome_iff_eq_none.mpr (Option.isNone_iff_eq_none.mp hnone)
  have husable : n.usable access (hash, peer) = true := by
    rw [DownloadNode.usable, hnone, decide_eq_true halive]
    rfl
  have hpump := pump_push hdrained hqueued husable
  rw [enqueueBlockDownload, if_neg hunknown, if_neg (not_or.mpr ⟨hqueued, hinflight⟩),
    pumpBlockDownloads]
  dsimp only
  have hsame : DownloadNode.usable access { n with downloads := n.downloads.push (hash, peer) }
      = n.usable access := rfl
  rw [hsame, hpump]
  split
  · rfl
  · rfl

theorem fresh_asking (hash x : Nat) :
    Fresh access (n.asking hash) x = (Fresh access n x && !x == hash) := by
  have hmem : x ∈ (n.asking hash).downloads.inflight ↔ x = hash ∨ x ∈ n.downloads.inflight :=
    Finset.mem_insert
  simp only [Fresh, hmem]
  simp only [DownloadNode.asking]
  grind

theorem fresh_queueing (item : Nat × Nat) (x : Nat) :
    Fresh access (n.queueing item) x = (Fresh access n x && !x == item.1) := by
  have hmem : x ∈ (n.queueing item).downloads.queued ↔ x = item.1 ∨ x ∈ n.downloads.queued :=
    Finset.mem_insert
  simp only [Fresh, hmem]
  simp only [DownloadNode.queueing, push]
  grind

/-- A hash that is enqueued is no longer new. -/
theorem newHashes_cons {n' : DownloadNode χ} {hash : Nat} {hashes : List Nat}
    (h : Fresh access n hash = true)
    (hafter : ∀ x, Fresh access n' x = (Fresh access n x && !x == hash)) :
    newHashes access n (hash :: hashes) = hash :: newHashes access n' hashes := by
  have hfilter : hashes.filter (Fresh access n')
      = (hashes.filter (Fresh access n)).filter fun x => !x == hash := by
    rw [List.filter_filter]
    exact List.filter_congr fun x _ => (hafter x).trans (Bool.and_comm _ _)
  rw [newHashes, List.filter_cons_of_pos h, List.eraseDups_cons, newHashes, hfilter]

theorem newHashes_cons_of_not_fresh {hash : Nat} {hashes : List Nat}
    (h : Fresh access n hash = false) :
    newHashes access n (hash :: hashes) = newHashes access n hashes := by
  rw [newHashes, List.filter_cons_of_neg (Bool.eq_false_iff.mp h), newHashes]

/-- With room for it, a new hash at the front is requested. -/
theorem requested_cons_of_room {hash : Nat} {hashes : List Nat} (h : Fresh access n hash = true)
    (hinflight : hash ∉ n.downloads.inflight)
    (hroom : n.downloads.inflight.card < Constants.maxParallelBlockDownloads) :
    requested access n (hash :: hashes) = hash :: requested access (n.asking hash) hashes := by
  have hcard : (n.asking hash).downloads.inflight.card = n.downloads.inflight.card + 1 :=
    Finset.card_insert_of_notMem hinflight
  rw [requested, newHashes_cons h (fresh_asking hash), requested, hcard, ← Nat.succ_sub_succ,
    Nat.succ_sub hroom, List.take_succ_cons]

/-- Without room none is. -/
theorem requested_of_full (hashes : List Nat)
    (hfull : ¬ n.downloads.inflight.card < Constants.maxParallelBlockDownloads) :
    requested access n hashes = [] := by
  rw [requested, Nat.sub_eq_zero_of_le (Nat.not_lt.mp hfull), List.take_zero]

theorem pump_of_drained (h : DrainedNode n) :
    pumpBlockDownloads access n = { node := n, sent := [] } := by
  rw [pumpBlockDownloads, Drained.pump h]

/-- What an offer of a live session does to the node. -/
structure Offered (access : ChainAccess χ) (n : DownloadNode χ) (hashes : List Nat) (peer : Nat)
    (faulty : Bool) (step : DownloadStep χ) : Prop where
  sound : Sound Constants.maxParallelBlockDownloads step.node.downloads
  drained : DrainedNode step.node
  sessions : step.node.sessions = n.sessions
  sent : step.sent = (requested access n hashes).map fun hash => (hash, peer)
  inflight : ∀ x, x ∈ step.node.downloads.inflight ↔
    x ∈ n.downloads.inflight ∨ x ∈ requested access n hashes
  punished : step.punished = faulty

theorem enqueueHashes_offered {peer : Nat} {faulty : Bool} :
    ∀ {hashes : List Nat} {n : DownloadNode χ},
      Sound Constants.maxParallelBlockDownloads n.downloads → DrainedNode n → peer ∈ n.alive →
      Offered access n hashes peer faulty (enqueueHashes access peer faulty hashes n)
  | [], n, hsound, hdrained, _ => by
      have hnone : requested access n [] = [] := List.take_nil
      have hstep : enqueueHashes access peer faulty [] n
          = { node := n, sent := [], punished := faulty } := by
        rw [enqueueHashes, pump_of_drained hdrained]
        cases faulty <;> rfl
      rw [hstep]
      exact ⟨hsound, hdrained, rfl, by rw [hnone]; rfl, fun x => by rw [hnone]; simp, rfl⟩
  | hash :: hashes, n, hsound, hdrained, halive => by
      rw [enqueueHashes]
      cases hfresh : Fresh access n hash with
      | false =>
          rw [enqueue_of_not_fresh peer hfresh]
          have hrest : Offered access n hashes peer faulty (enqueueHashes access peer faulty hashes n) :=
            enqueueHashes_offered hsound hdrained halive
          have hsame : requested access n (hash :: hashes) = requested access n hashes := by
            rw [requested, newHashes_cons_of_not_fresh hfresh, requested]
          exact ⟨hrest.sound, hrest.drained, hrest.sessions, by rw [hsame]; exact hrest.sent,
            fun x => by rw [hsame]; exact hrest.inflight x, hrest.punished⟩
      | true =>
          rw [enqueue_of_fresh hfresh hdrained halive]
          have hnew := hfresh
          rw [Fresh, Bool.and_eq_true, Bool.and_eq_true, decide_eq_true_eq,
            decide_eq_true_eq] at hnew
          obtain ⟨⟨-, hqueued⟩, hinflight⟩ := hnew
          split
          · next hroom =>
              have hrest : Offered access (n.asking hash) hashes peer faulty _ :=
                enqueueHashes_offered (hsound.insert_inflight hqueued hinflight hroom)
                  (.inl (hdrained.resolve_right (Nat.not_le.mpr hroom))) halive
              have hcons : requested access n (hash :: hashes) = _ :=
                requested_cons_of_room hfresh hinflight hroom
              refine ⟨hrest.sound, hrest.drained, hrest.sessions, ?_, fun x => ?_, hrest.punished⟩
              · rw [hcons]
                exact congrArg ((hash, peer) :: ·) hrest.sent
              · have hmem : x ∈ (n.asking hash).downloads.inflight ↔
                    x = hash ∨ x ∈ n.downloads.inflight := Finset.mem_insert
                rw [hcons, List.mem_cons, or_left_comm, ← or_assoc, ← hmem]
                exact hrest.inflight x
          · next hfull =>
              have hrest : Offered access (n.queueing (hash, peer)) hashes peer faulty _ :=
                enqueueHashes_offered (hsound.push hqueued hinflight)
                  (.inr (Nat.not_lt.mp hfull)) halive
              have hfull' : ¬ (n.queueing (hash, peer)).downloads.inflight.card
                  < Constants.maxParallelBlockDownloads := hfull
              have hsame : requested access (n.queueing (hash, peer)) hashes
                  = requested access n (hash :: hashes) :=
                (requested_of_full hashes hfull').trans (requested_of_full _ hfull).symm
              exact ⟨hrest.sound, hrest.drained, hrest.sessions, hsame ▸ hrest.sent,
                fun x => hsame ▸ hrest.inflight x, hrest.punished⟩

/-! ## One event -/

variable {asked : List (Nat × Nat)}

theorem closeIfBanned_downloads (banned : Bool) (peer : Nat) (step : DownloadStep χ) :
    (closeIfBanned banned peer step).node.downloads = step.node.downloads := by
  rw [closeIfBanned]
  split <;> rfl

theorem closeIfBanned_sessions {banned : Bool} {peer : Nat} {step : DownloadStep χ}
    (h : step.node.sessions = n.sessions) : (closeIfBanned banned peer step).node.sessions
      = sessionsAfter n peer step.punished banned := by
  rw [closeIfBanned, sessionsAfter, ← h]
  split <;> rfl

theorem closeIfBanned_sent (banned : Bool) (peer : Nat) (step : DownloadStep χ) :
    (closeIfBanned banned peer step).sent = step.sent := by
  rw [closeIfBanned]
  split <;> rfl

/-- A node with the same downloads is bookkept if its sessions cover what is in
flight. -/
theorem bookkept_iff_covered {n' : DownloadNode χ}
    (hsound : Sound Constants.maxParallelBlockDownloads n.downloads)
    (hsame : n'.downloads = n.downloads) : Bookkept n' asked ↔
      ∀ hash ∈ n.downloads.inflight, Covered n'.sessions asked hash := by
  constructor
  · intro h hash hmem
    exact h.served hash (by rw [hsame]; exact hmem)
  · intro h
    exact ⟨hsame ▸ hsound, fun hash hmem => h hash (by rw [← hsame]; exact hmem)⟩

theorem fresh_of_requested {hashes : List Nat} {hash : Nat}
    (h : hash ∈ requested access n hashes) : Fresh access n hash = true :=
  (List.mem_filter.mp (List.mem_eraseDups.mp (List.mem_of_mem_take h))).2

theorem Offered.bookkept_iff {offers : List Nat × Bool} {peer : Nat} {step : DownloadStep χ}
    (h : Offered access n offers.1 peer offers.2 step) (banned : Bool) :
    Bookkept (closeIfBanned banned peer step).node (asked ++ step.sent) ↔
      SafeOffer access n asked peer offers banned := by
  have hafter : ∀ x, x ∈ step.node.downloads.inflight ↔
      x ∈ n.downloads.inflight ∨ ∃ src, (x, src) ∈ step.sent := by
    intro x
    rw [h.inflight x, h.sent]
    simp
  have hnew : ∀ item ∈ step.sent, item.1 ∉ n.downloads.inflight := by
    intro item hitem hmem
    rw [h.sent] at hitem
    obtain ⟨hash, hhash, rfl⟩ := List.mem_map.mp hitem
    have hfresh := fresh_of_requested hhash
    rw [Fresh, Bool.and_eq_true, decide_eq_true_eq] at hfresh
    exact hfresh.2 hmem
  have honce : ∀ a ∈ step.sent, ∀ b ∈ step.sent, a.1 = b.1 → a = b := by
    intro a ha b hb hab
    rw [h.sent] at ha hb
    obtain ⟨x, -, rfl⟩ := List.mem_map.mp ha
    obtain ⟨y, -, rfl⟩ := List.mem_map.mp hb
    have hxy : x = y := hab
    rw [hxy]
  rw [bookkept_iff_covered h.sound (closeIfBanned_downloads banned peer step),
    closeIfBanned_sessions h.sessions, h.punished, SafeOffer, covered_iff hafter hnew honce, h.sent]
  refine and_congr_right fun _ => ?_
  simp only [List.mem_map, forall_exists_index, and_imp, forall_apply_eq_imp_iff₂]

/-- Finishing a hash that is not queued asks for the first usable item of the
queue if the hash was in flight. -/
theorem mem_finish_sent {hash : Nat} {item : Nat × Nat} {chain : χ} (hbook : Bookkept n asked)
    (hdrained : DrainedNode n) (hqueue : hash ∉ n.downloads.keys) :
    item ∈ (finishBlockDownload access hash { n with chain := chain }).sent ↔
      hash ∈ n.downloads.inflight ∧
        n.downloads.queue.find? ({ n with chain := chain }.usable access) = some item := by
  by_cases hinflight : hash ∈ n.downloads.inflight
  · have hsent : (finishBlockDownload access hash { n with chain := chain }).sent
        = (n.downloads.queue.find? ({ n with chain := chain }.usable access)).toList :=
      asked_pump_finish hbook.sound hdrained hinflight
    rw [hsent, Option.mem_toList, and_iff_right hinflight]
  · have hqueued : hash ∉ n.downloads.queued := fun h => hqueue ((hbook.sound.queued hash).mp h)
    have hsame : n.downloads.finish hash = n.downloads := finish_of_notMem hqueued hinflight
    have hsent : (finishBlockDownload access hash { n with chain := chain }).sent = [] := by
      have hdrained' : DrainedNode { n with chain := chain } := hdrained
      rw [finishBlockDownload, hsame]
      exact congrArg DownloadStep.sent (pump_of_drained hdrained')
    rw [hsent]
    exact iff_of_false List.not_mem_nil fun h => hinflight h.1

/-- Nothing is asked for when a hash of the queue is finished. -/
theorem finish_queued {hash : Nat} {chain : χ} (hbook : Bookkept n asked)
    (hdrained : DrainedNode n) (hqueue : hash ∈ n.downloads.keys) :
    (finishBlockDownload access hash { n with chain := chain }).node.downloads
      = n.downloads.finish hash := by
  have hinflight := hbook.sound.disjoint hash ((hbook.sound.queued hash).mpr hqueue)
  have hfull : Constants.maxParallelBlockDownloads ≤ n.downloads.inflight.card := by
    refine hdrained.resolve_left fun hempty => ?_
    rw [keys, hempty] at hqueue
    cases hqueue
  have hdrained' : DrainedNode { n with chain := chain, downloads := n.downloads.finish hash } := by
    refine .inr ?_
    have hsame : (n.downloads.finish hash).inflight = n.downloads.inflight :=
      Finset.erase_eq_of_notMem hinflight
    dsimp only
    rw [hsame]
    exact hfull
  rw [finishBlockDownload]
  exact congrArg (fun step => step.node.downloads) (pump_of_drained hdrained')

/-- A block that the chain takes or rejects. -/
theorem finish_bookkept_iff {hash peer : Nat} {ok banned : Bool} {chain : χ}
    (hbook : Bookkept n asked) (hdrained : DrainedNode n) :
    let step := { finishBlockDownload access hash { n with chain := chain } with punished := !ok }
    Bookkept (closeIfBanned banned peer step).node
        (asked.filter (fun item => item ≠ (hash, peer)) ++ step.sent) ↔
      hash ∉ n.downloads.keys ∧
        (∀ other ∈ n.downloads.inflight, other ≠ hash →
          Covered (sessionsAfter n peer (!ok) banned) (asked.filter fun item => item ≠ (hash, peer))
            other) ∧
        (hash ∈ n.downloads.inflight → ∀ item,
          n.downloads.queue.find? ({ n with chain := chain }.usable access) = some item →
            item.2 ∈ sessionsAfter n peer (!ok) banned ∨
              Covered (sessionsAfter n peer (!ok) banned)
                (asked.filter fun item => item ≠ (hash, peer)) item.1) := by
  intro step
  have hdownloads : step.node.downloads = ((n.downloads.finish hash).pump
      Constants.maxParallelBlockDownloads ({ n with chain := chain }.usable access)).1 := rfl
  have hsessions : (closeIfBanned banned peer step).node.sessions
      = sessionsAfter n peer (!ok) banned := closeIfBanned_sessions rfl
  by_cases hqueue : hash ∈ n.downloads.keys
  · refine iff_of_false (fun hafter => ?_) fun h => h.1 hqueue
    have hsound := hafter.sound
    rw [closeIfBanned_downloads] at hsound
    exact not_sound_finish hqueue (finish_queued hbook hdrained hqueue ▸ hsound)
  · have hsound : Sound Constants.maxParallelBlockDownloads step.node.downloads :=
      (hbook.sound.finish hqueue).pump
    have hsent : ∀ item, item ∈ step.sent ↔ hash ∈ n.downloads.inflight ∧
        n.downloads.queue.find? ({ n with chain := chain }.usable access) = some item := fun item =>
      mem_finish_sent hbook hdrained hqueue
    have hafter : ∀ k, k ∈ step.node.downloads.inflight ↔
        k ∈ n.downloads.inflight.erase hash ∨ ∃ src, (k, src) ∈ step.sent := fun k =>
      mem_inflight_pump
    have hnew : ∀ item ∈ step.sent, item.1 ∉ n.downloads.inflight.erase hash := by
      intro item hitem hmem
      have hkey : item.1 ∈ n.downloads.keys :=
        List.mem_map_of_mem (List.mem_of_find?_eq_some ((hsent item).mp hitem).2)
      exact hbook.sound.disjoint item.1 ((hbook.sound.queued _).mpr hkey)
        (Finset.mem_of_mem_erase hmem)
    have honce : ∀ a ∈ step.sent, ∀ b ∈ step.sent, a.1 = b.1 → a = b := fun a ha b hb _ =>
      Option.some.inj (((hsent a).mp ha).2.symm.trans ((hsent b).mp hb).2)
    rw [bookkept_iff_covered hsound (closeIfBanned_downloads banned peer step), hsessions,
      covered_iff hafter hnew honce, and_iff_right hqueue]
    refine and_congr ?_ ?_
    · simp only [Finset.mem_erase, ne_eq, and_imp]
      exact forall_congr' fun _ => imp.swap
    · simp only [hsent, and_imp]
      exact ⟨fun h hmem item => h item hmem, fun h item hmem => h hmem item⟩

theorem pump_drained : DrainedNode (pumpBlockDownloads access n).node := drained_pump

theorem enqueue_drained (hash peer : Nat) (h : DrainedNode n) :
    DrainedNode (enqueueBlockDownload access hash peer n).node := by
  rw [enqueueBlockDownload]
  split
  · exact h
  · split
    · exact h
    · exact pump_drained

theorem enqueueHashes_drained (peer : Nat) (faulty : Bool) : ∀ (hashes : List Nat)
    (n : DownloadNode χ), DrainedNode n →
      DrainedNode (enqueueHashes access peer faulty hashes n).node
  | [], n, h => by
      rw [enqueueHashes]
      split
      · exact h
      · exact pump_drained
  | hash :: hashes, n, h => enqueueHashes_drained peer faulty hashes _ (enqueue_drained hash peer h)

theorem block_drained (payload : Bytes) (h : DrainedNode n) :
    DrainedNode (blockHandler access c payload n).node := by
  rw [blockHandler]
  split
  · exact h
  · split
    · exact h
    · exact pump_drained

theorem closeIfBanned_drained {step : DownloadStep χ} (banned : Bool) (peer : Nat)
    (h : DrainedNode step.node) : DrainedNode (closeIfBanned banned peer step).node := by
  rw [DrainedNode, closeIfBanned_downloads]
  exact h

theorem step_drained (event : DownloadEvent χ) (h : DrainedNode n) :
    DrainedNode (event.run access c n).node := by
  cases event with
  | connect => exact h
  | disconnect peer => exact h
  | release peer =>
      rw [DownloadEvent.run]
      split
      · exact h
      · exact h
  | headers peer payload banned =>
      rw [DownloadEvent.run]
      split
      · rw [headersHandler_eq]
        exact closeIfBanned_drained banned peer (enqueueHashes_drained peer _ _ n h)
      · exact h
  | inv peer payload banned =>
      rw [DownloadEvent.run]
      split
      · rw [invHandler_eq]
        exact closeIfBanned_drained banned peer (enqueueHashes_drained peer _ _ n h)
      · exact h
  | block peer payload banned =>
      rw [DownloadEvent.run]
      split
      · exact closeIfBanned_drained banned peer (block_drained payload h)
      · exact h
  | other peer chain punished banned =>
      have hchain : DrainedNode { n with chain := chain } := h
      rw [DownloadEvent.run]
      exact closeIfBanned_drained banned peer hchain
  | deactivate => exact drained_empty

/-- An event that answers nothing leaves what is unanswered. -/
theorem unanswered_of_silent {event : DownloadEvent χ} (h : ∀ item, event.answers c n item = false) :
    event.unanswered access c n asked = asked ++ (event.run access c n).sent := by
  have hall : asked.filter (fun item => !event.answers c n item) = asked :=
    List.filter_eq_self.mpr fun item _ => by rw [h item]; rfl
  rw [DownloadEvent.unanswered, hall]

/-- An event that leaves the downloads alone and sends nothing. -/
theorem quiet_bookkept_iff {event : DownloadEvent χ} (hbook : Bookkept n asked)
    (hanswers : ∀ item, event.answers c n item = false) (hsent : (event.run access c n).sent = [])
    (hsame : (event.run access c n).node.downloads = n.downloads) :
    Bookkept (event.run access c n).node (event.unanswered access c n asked) ↔
      ∀ hash ∈ n.downloads.inflight, Covered (event.run access c n).node.sessions asked hash := by
  rw [unanswered_of_silent hanswers, hsent, List.append_nil]
  exact bookkept_iff_covered hbook.sound hsame

/-- A message that offers hashes. -/
theorem offer_bookkept_iff {event : DownloadEvent χ} {peer : Nat} {offers : List Nat × Bool}
    {banned : Bool} (hbook : Bookkept n asked) (hdrained : DrainedNode n)
    (hanswers : ∀ item, event.answers c n item = false)
    (hrun : event.run access c n = if peer ∈ n.alive then
      closeIfBanned banned peer (enqueueOffers access peer offers n) else { node := n, sent := [] }) :
    Bookkept (event.run access c n).node (event.unanswered access c n asked) ↔
      (peer ∈ n.alive → SafeOffer access n asked peer offers banned) := by
  rw [unanswered_of_silent hanswers, hrun]
  split
  · next halive =>
      have hoffered : Offered access n offers.1 peer offers.2 (enqueueOffers access peer offers n) :=
        enqueueHashes_offered hbook.sound hdrained halive
      rw [closeIfBanned_sent, hoffered.bookkept_iff banned]
      exact ⟨fun h _ => h, fun h => h halive⟩
  · next hgone =>
      rw [List.append_nil]
      exact iff_of_true hbook fun halive => absurd halive hgone

/-- A BLOCK message. -/
theorem block_bookkept_iff (hbook : Bookkept n asked) (hdrained : DrainedNode n) (peer : Nat)
    (payload : Bytes) (banned : Bool) :
    Bookkept (DownloadEvent.run access c n (.block peer payload banned)).node
        (DownloadEvent.unanswered access c n asked (.block peer payload banned)) ↔
      SafeEvent access c n asked (.block peer payload banned) := by
  rw [DownloadEvent.unanswered, SafeEvent, DownloadEvent.run]
  by_cases halive : peer ∈ n.alive
  · rw [if_pos halive, closeIfBanned_sent, blockHandler, forall_prop_of_true halive]
    cases hblk : Block.deserialize payload with
    | none =>
        have hasked : asked.filter (fun item => !DownloadEvent.answers c n (.block peer payload banned)
            item) = asked := by
          refine List.filter_eq_self.mpr fun item _ => ?_
          rw [DownloadEvent.answers, hblk]
          rfl
        have hsessions : (closeIfBanned banned peer
              { node := n, sent := [], punished := true }).node.sessions
            = sessionsAfter n peer true banned := closeIfBanned_sessions rfl
        dsimp only
        rw [hasked, List.append_nil,
          bookkept_iff_covered hbook.sound (closeIfBanned_downloads banned peer _), hsessions]
    | some read =>
        have hasked : asked.filter (fun item => !DownloadEvent.answers c n (.block peer payload banned)
            item) = asked.filter fun item => item ≠ ((read.1.header.powHash c).toNat, peer) := by
          refine List.filter_congr fun item _ => ?_
          rw [DownloadEvent.answers, hblk]
          dsimp only
          rw [decide_eq_true halive, Bool.true_and, ← decide_not]
        dsimp only
        rw [hasked, SafeBlock]
        cases access.acceptBlock n.chain read.1 with
        | none =>
            have hsessions : (closeIfBanned banned peer
                  { node := n, sent := [], punished := true }).node.sessions
                = sessionsAfter n peer true banned := closeIfBanned_sessions rfl
            dsimp only
            rw [List.append_nil,
              bookkept_iff_covered hbook.sound (closeIfBanned_downloads banned peer _), hsessions]
        | some accepted => exact finish_bookkept_iff hbook hdrained
  · have hasked : asked.filter (fun item => !DownloadEvent.answers c n (.block peer payload banned)
        item) = asked := by
      refine List.filter_eq_self.mpr fun item _ => ?_
      rw [DownloadEvent.answers]
      split
      · rfl
      · rw [decide_eq_false halive]
        rfl
    rw [if_neg halive, hasked, List.append_nil]
    exact iff_of_true hbook fun h => absurd h halive

/-- An event keeps the bookkeeping right exactly if it is a safe one. -/
theorem step_bookkept_iff (event : DownloadEvent χ) (hbook : Bookkept n asked)
    (hdrained : DrainedNode n) :
    Bookkept (event.run access c n).node (event.unanswered access c n asked) ↔
      SafeEvent access c n asked event := by
  cases event with
  | connect =>
      rw [quiet_bookkept_iff hbook (fun _ => rfl) rfl rfl]
      refine iff_of_true (fun hash hmem => ?_) trivial
      obtain ⟨src, hsrc, hasked⟩ := hbook.served hash hmem
      exact ⟨src, Finset.mem_insert_of_mem hsrc, hasked⟩
  | disconnect peer =>
      rw [quiet_bookkept_iff hbook (fun _ => rfl) rfl rfl]
      rfl
  | release peer =>
      have hsame : (DownloadEvent.run access c n (.release peer)).node.downloads = n.downloads ∧
          (DownloadEvent.run access c n (.release peer)).node.sessions = n.sessions := by
        rw [DownloadEvent.run]
        split <;> exact ⟨rfl, rfl⟩
      rw [quiet_bookkept_iff hbook (fun _ => rfl) rfl hsame.1, hsame.2]
      exact iff_of_true hbook.served trivial
  | headers peer payload banned =>
      have hrun : DownloadEvent.run access c n (.headers peer payload banned) = _ :=
        DownloadEvent.run.eq_4 access c n peer payload banned
      rw [headersHandler_eq] at hrun
      exact offer_bookkept_iff hbook hdrained (fun _ => rfl) hrun
  | inv peer payload banned =>
      have hrun : DownloadEvent.run access c n (.inv peer payload banned) = _ :=
        DownloadEvent.run.eq_5 access c n peer payload banned
      rw [invHandler_eq] at hrun
      exact offer_bookkept_iff hbook hdrained (fun _ => rfl) hrun
  | block peer payload banned => exact block_bookkept_iff hbook hdrained peer payload banned
  | other peer chain punished banned =>
      have hsessions : (closeIfBanned banned peer
            { node := { n with chain := chain }, sent := [], punished := punished }).node.sessions
          = sessionsAfter n peer punished banned := closeIfBanned_sessions rfl
      have hquiet : Bookkept (DownloadEvent.run access c n (.other peer chain punished banned)).node
          (DownloadEvent.unanswered access c n asked (.other peer chain punished banned)) ↔ _ :=
        quiet_bookkept_iff hbook (fun _ => rfl) (closeIfBanned_sent banned peer _)
          (closeIfBanned_downloads banned peer _)
      rw [hquiet, DownloadEvent.run, hsessions]
      rfl
  | deactivate =>
      refine iff_of_true ⟨sound_empty, fun hash hmem => ?_⟩ trivial
      exact absurd hmem (Finset.notMem_empty hash)

/-! ## The run -/

theorem bookkeptRun_iff_from : ∀ (events : List (DownloadEvent χ)) (n : DownloadNode χ)
    (asked : List (Nat × Nat)), Bookkept n asked → DrainedNode n →
      (BookkeptRun access c n asked events ↔ SafeRun access c n asked events)
  | [], n, asked, hbook, _ => iff_of_true hbook trivial
  | event :: events, n, asked, hbook, hdrained => by
      have hstep : Bookkept (event.run access c n).node (event.unanswered access c n asked) ↔
          SafeEvent access c n asked event := step_bookkept_iff event hbook hdrained
      have hdrained' : DrainedNode (event.run access c n).node := step_drained event hdrained
      rw [BookkeptRun, SafeRun, ← hstep, and_iff_right hbook]
      constructor
      · intro hrun
        have hafter : Bookkept (event.run access c n).node (event.unanswered access c n asked) := by
          cases events with
          | nil => exact hrun
          | cons next rest => exact hrun.1
        exact ⟨hafter, (bookkeptRun_iff_from events _ _ hafter hdrained').mp hrun⟩
      · rintro ⟨hafter, hrun⟩
        exact (bookkeptRun_iff_from events _ _ hafter hdrained').mpr hrun

/-- Over any run of a node that starts without sessions, the bookkeeping stays
right exactly if every event is a safe one. -/
theorem downloads_bookkept_iff (access : ChainAccess χ) (c : Crypto) (chain : χ)
    (events : List (DownloadEvent χ)) :
    BookkeptRun access c (freshDownloadNode chain) [] events ↔
      SafeRun access c (freshDownloadNode chain) [] events :=
  bookkeptRun_iff_from events _ _
    ⟨sound_empty, fun hash hmem => absurd hmem (Finset.notMem_empty hash)⟩ drained_empty

/-- The node after a run. -/
def runDownloads (access : ChainAccess χ) (c : Crypto) (n : DownloadNode χ)
    (events : List (DownloadEvent χ)) : DownloadNode χ :=
  events.foldl (fun n event => (event.run access c n).node) n

theorem BookkeptRun.last : ∀ {events : List (DownloadEvent χ)} {n : DownloadNode χ}
    {asked : List (Nat × Nat)}, BookkeptRun access c n asked events →
      ∃ asked', Bookkept (runDownloads access c n events) asked'
  | [], _, asked, h => ⟨asked, h⟩
  | event :: events, n, _, h => by
      change ∃ asked', Bookkept (runDownloads access c (event.run access c n).node events) asked'
      exact BookkeptRun.last h.2

/-- A peer connects, announces a block, and leaves. -/
def leavingPeer (χ : Type) : List (DownloadEvent χ) :=
  [.connect, .headers 0 (writeVarint 1 ++ writeBytes Regtest.a1.header.serialize) false,
    .disconnect 0]

/-- The block stays in flight, and no session is open. -/
theorem left_in_flight : (Regtest.after []).map (fun s =>
      let n := runDownloads (chainAccess Regtest.crypto .regtest Regtest.env 10) Regtest.crypto
        (freshDownloadNode s) (leavingPeer Blockchain)
      (n.downloads.inflight, n.sessions))
    = some ({(Regtest.a1.header.powHash Regtest.crypto).toNat}, ∅) := by
  decide +kernel

theorem not_downloads_bookkept : ¬ ∀ (access : ChainAccess Blockchain) (c : Crypto)
    (chain : Blockchain) (events : List (DownloadEvent Blockchain)),
    BookkeptRun access c (freshDownloadNode chain) [] events := by
  intro hall
  obtain ⟨s, -, hs⟩ := Option.map_eq_some_iff.mp left_in_flight
  obtain ⟨asked, hlast⟩ := BookkeptRun.last (hall
    (chainAccess Regtest.crypto .regtest Regtest.env 10) Regtest.crypto s (leavingPeer Blockchain))
  revert hs hlast
  generalize (Regtest.a1.header.powHash Regtest.crypto).toNat = hash
  generalize runDownloads _ _ _ _ = n
  intro hs hlast
  have hmem : hash ∈ n.downloads.inflight := by
    rw [(Prod.mk.inj hs).1]
    exact Finset.mem_singleton_self hash
  obtain ⟨peer, hpeer, -⟩ := hlast.served hash hmem
  rw [(Prod.mk.inj hs).2] at hpeer
  exact Finset.notMem_empty peer hpeer

end Download

end Cryptex
