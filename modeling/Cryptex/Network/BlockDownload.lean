import Cryptex.Blockchain
import Cryptex.Lib.Window

/-!
# Block downloads

`NetworkNode` asks the peers that announce unknown blocks for them. A hash is
queued together with the session that announced it; `pump_block_downloads`
sends GETBLOCK for the first hashes of the queue while fewer than
`MAX_PARALLEL_BLOCK_DOWNLOADS` are in flight, and a BLOCK finishes its hash.
The queue holds weak references: a session that `remove_session` has taken off
the list may still be referred to until its last pending operation ends.
-/

namespace Cryptex

open Codec Window

namespace Constants

def maxHeadersPerMessage : Nat := 2000
def maxParallelBlockDownloads : Nat := 8

end Constants

namespace Download

/-! ## The node -/

/-- What the message handlers use of the chain. `acceptBlock` returns `none`
where it throws. -/
structure ChainAccess (χ : Type) where
  getBlockByHash : χ → Nat → Option Block
  knowsHash : χ → Nat → Bool
  acceptBlock : χ → Block → Option (Bool × χ)

/-- The chain of the node. -/
def chainAccess (c : Crypto) (p : ChainParams) (env : Env) (fuel : Nat) : ChainAccess Blockchain where
  getBlockByHash := Blockchain.getBlockByHash
  knowsHash := Blockchain.knowsHash
  acceptBlock := Blockchain.acceptBlock c p env false fuel

/-- The part of `NetworkNode` that block downloads use. Sessions are numbered
as they are created; `alive` are those that some reference still keeps. -/
structure DownloadNode (χ : Type) where
  chain : χ
  downloads : Window Nat Nat
  sessions : Finset Nat
  alive : Finset Nat
  nextSession : Nat

/-- The node after a handler, the hashes it sent GETBLOCK for with their
sessions, and whether it punished the peer at its end. -/
structure DownloadStep (χ : Type) where
  node : DownloadNode χ
  sent : List (Nat × Nat)
  punished : Bool := false

variable {χ : Type}

/-- A step before which GETBLOCK was sent. -/
def DownloadStep.after (sent : List (Nat × Nat)) (step : DownloadStep χ) : DownloadStep χ :=
  { step with sent := sent ++ step.sent }

section

variable (access : ChainAccess χ)

/-- The session of an item still exists, and its block is not known. -/
def DownloadNode.usable (n : DownloadNode χ) (item : Nat × Nat) : Bool :=
  item.2 ∈ n.alive && (access.getBlockByHash n.chain item.1).isNone

/-- `pump_block_downloads`. -/
def pumpBlockDownloads (n : DownloadNode χ) : DownloadStep χ :=
  let pumped := n.downloads.pump Constants.maxParallelBlockDownloads (n.usable access)
  { node := { n with downloads := pumped.1 }, sent := pumped.2 }

/-- `enqueue_block_download`. -/
def enqueueBlockDownload (hash peer : Nat) (n : DownloadNode χ) : DownloadStep χ :=
  if (access.getBlockByHash n.chain hash).isSome then { node := n, sent := [] }
  else if hash ∈ n.downloads.queued ∨ hash ∈ n.downloads.inflight then { node := n, sent := [] }
  else pumpBlockDownloads access { n with downloads := n.downloads.push (hash, peer) }

/-- `finish_block_download`. -/
def finishBlockDownload (hash : Nat) (n : DownloadNode χ) : DownloadStep χ :=
  pumpBlockDownloads access { n with downloads := n.downloads.finish hash }

/-- `remove_session`. -/
def removeSession (peer : Nat) (n : DownloadNode χ) : DownloadNode χ :=
  { n with sessions := n.sessions.erase peer }

/-- The end of a handler: a peer that is punished and banned by that is
closed. -/
def closeIfBanned (banned : Bool) (peer : Nat) (step : DownloadStep χ) : DownloadStep χ :=
  if step.punished && banned then { step with node := removeSession peer step.node } else step

/-- A header of a message names the one before it, the first one a known block. -/
def linked (chain : χ) (previousLink : Option Hash256) (header : BlockHeader) : Bool :=
  match previousLink with
  | none => header.prevBlockHash = 0 || access.knowsHash chain header.prevBlockHash.toNat
  | some link => header.prevBlockHash = link

variable (c : Crypto)

/-- The loop of the HEADERS handler over the headers that are left, from the
link of the one before. -/
def headersLoop (peer : Nat) : Nat → Option Hash256 → Bytes → DownloadNode χ → DownloadStep χ
  | 0, _, _, n => pumpBlockDownloads access n
  | count + 1, previousLink, data, n =>
      if data = [] then pumpBlockDownloads access n
      else
        match readBytes data with
        | none => { node := n, sent := [], punished := true }
        | some (bytes, rest) =>
            match BlockHeader.deserialize bytes.toList with
            | none => { node := n, sent := [], punished := true }
            | some (header, _) =>
                if linked access n.chain previousLink header then
                  let canonical := (header.powHash c).toNat
                  let step :=
                    if (access.getBlockByHash n.chain canonical).isNone then
                      enqueueBlockDownload access canonical peer n
                    else { node := n, sent := [] }
                  (headersLoop peer count (some (header.hash c)) rest step.node).after step.sent
                else { node := n, sent := [], punished := true }

/-- The HEADERS handler. -/
def headersHandler (peer : Nat) (payload : Bytes) (n : DownloadNode χ) : DownloadStep χ :=
  match readVarint payload with
  | none => { node := n, sent := [], punished := true }
  | some (count, data) =>
      if count > Constants.maxHeadersPerMessage then { node := n, sent := [], punished := true }
      else headersLoop access c peer count none data n

/-- The loop of the INV handler over the entries that are left. -/
def invLoop (peer : Nat) : Nat → Bytes → DownloadNode χ → DownloadStep χ
  | 0, _, n => pumpBlockDownloads access n
  | _ + 1, [], n => pumpBlockDownloads access n
  | count + 1, kind :: data, n =>
      if kind = 1 then
        if data.length < Constants.powHashBytes then pumpBlockDownloads access n
        else
          let hash := fromBytes (data.take Constants.powHashBytes)
          let step :=
            if (access.getBlockByHash n.chain hash).isNone then
              enqueueBlockDownload access hash peer n
            else { node := n, sent := [] }
          (invLoop peer count (data.drop Constants.powHashBytes) step.node).after step.sent
      else if kind = 2 then
        if data.length < 32 then pumpBlockDownloads access n
        else invLoop peer count (data.drop 32) n
      else invLoop peer count data n

/-- The INV handler. -/
def invHandler (peer : Nat) (payload : Bytes) (n : DownloadNode χ) : DownloadStep χ :=
  match readVarint payload with
  | none => { node := n, sent := [], punished := true }
  | some (count, data) => invLoop access peer count data n

/-- The BLOCK handler. -/
def blockHandler (payload : Bytes) (n : DownloadNode χ) : DownloadStep χ :=
  match Block.deserialize payload with
  | none => { node := n, sent := [], punished := true }
  | some (blk, _) =>
      match access.acceptBlock n.chain blk with
      | none => { node := n, sent := [], punished := true }
      | some (ok, chain) =>
          let step := finishBlockDownload access (blk.header.powHash c).toNat { n with chain := chain }
          { step with punished := !ok }

end

/-! ## Events -/

/-- What can happen to the node. A message comes from a session and may end in
the ban of its peer. -/
inductive DownloadEvent (χ : Type) where
  | connect
  | disconnect (peer : Nat)
  /-- The last reference to a closed session goes. -/
  | release (peer : Nat)
  | headers (peer : Nat) (payload : Bytes) (banned : Bool)
  | inv (peer : Nat) (payload : Bytes) (banned : Bool)
  | block (peer : Nat) (payload : Bytes) (banned : Bool)
  /-- Any other message; it may change the chain. -/
  | other (peer : Nat) (chain : χ) (punished banned : Bool)
  /-- `set_network_active(false)`. -/
  | deactivate

section

variable (access : ChainAccess χ) (c : Crypto)

def DownloadEvent.run (n : DownloadNode χ) : DownloadEvent χ → DownloadStep χ
  | .connect =>
      { node :=
          { n with
            sessions := insert n.nextSession n.sessions
            alive := insert n.nextSession n.alive
            nextSession := n.nextSession + 1 }
        sent := [] }
  | .disconnect peer => { node := removeSession peer n, sent := [] }
  | .release peer =>
      { node := if peer ∈ n.sessions then n else { n with alive := n.alive.erase peer }, sent := [] }
  | .headers peer payload banned =>
      if peer ∈ n.alive then closeIfBanned banned peer (headersHandler access c peer payload n)
      else { node := n, sent := [] }
  | .inv peer payload banned =>
      if peer ∈ n.alive then closeIfBanned banned peer (invHandler access peer payload n)
      else { node := n, sent := [] }
  | .block peer payload banned =>
      if peer ∈ n.alive then closeIfBanned banned peer (blockHandler access c payload n)
      else { node := n, sent := [] }
  | .other peer chain punished banned =>
      closeIfBanned banned peer { node := { n with chain := chain }, sent := [], punished := punished }
  | .deactivate => { node := { n with downloads := .empty, sessions := ∅ }, sent := [] }

/-- The GETBLOCK messages that a message of the event answers: those its
session was sent for the hash of the block. -/
def DownloadEvent.answers (n : DownloadNode χ) : DownloadEvent χ → Nat × Nat → Bool
  | .block peer payload _, item =>
      match Block.deserialize payload with
      | none => false
      | some (blk, _) => peer ∈ n.alive && item = ((blk.header.powHash c).toNat, peer)
  | _, _ => false

/-- The GETBLOCK messages that are unanswered after an event. -/
def DownloadEvent.unanswered (n : DownloadNode χ) (asked : List (Nat × Nat))
    (event : DownloadEvent χ) : List (Nat × Nat) :=
  asked.filter (fun item => !event.answers c n item) ++ (event.run access c n).sent

end

/-- A node without sessions. -/
def freshDownloadNode (chain : χ) : DownloadNode χ := ⟨chain, .empty, ∅, ∅, 0⟩

end Download

end Cryptex
