import Cryptex.Network.MailStore
import Cryptex.Network.VoiceWire

/-!
# Peer sessions

A session of `network.cpp` and the label it goes by: the one it was connected
or greeted under if there is one, else the endpoint of its socket, else
"unknown". A VERSION message may replace the label by an address that the peer
names.
-/

namespace Cryptex

open Encoding Mail Voice

namespace Peers

/-! ## Addresses -/

/-- `ip_address`. -/
structure IpAddress where
  addr : UInt32
deriving DecidableEq

/-- The four numbers of the address, from the highest byte on. -/
def IpAddress.toText (ip : IpAddress) : Bytes :=
  decimal ((ip.addr >>> 24) &&& 0xFF).toNat ++ chars "." ++
    decimal ((ip.addr >>> 16) &&& 0xFF).toNat ++ chars "." ++
    decimal ((ip.addr >>> 8) &&& 0xFF).toNat ++ chars "." ++
    decimal (ip.addr &&& 0xFF).toNat

def endpointLabel (ip : IpAddress) (port : UInt16) : Bytes :=
  ip.toText ++ chars ":" ++ decimal port.toNat

/-- The address of a socket; the text of a version 6 address comes from the
library. -/
inductive Host where
  | v4 (ip : IpAddress)
  | v6 (text : Bytes)
deriving DecidableEq

def Host.toText : Host → Bytes
  | .v4 ip => ip.toText
  | .v6 text => text

structure Endpoint where
  host : Host
  port : UInt16
deriving DecidableEq

def Endpoint.label (e : Endpoint) : Bytes := e.host.toText ++ chars ":" ++ decimal e.port.toNat

/-! ## VERSION -/

structure VersionPayload where
  protocolVersion : UInt32
  bestHeight : UInt32
  listenPort : UInt16
  flags : UInt8
  advertisedIp : Option IpAddress

/-- The advertised address, in network byte order. -/
def readAdvertisedIp (flags : UInt8) (data : Bytes) : Option (Option IpAddress) :=
  if flags &&& 0x01 = 0 then some none
  else if data.length < 4 then none
  else some (some ⟨UInt32.ofNat (fromBytes (data.take 4))⟩)

def VersionPayload.deserialize (defaultP2pPort : UInt16) (data : Bytes) : Option VersionPayload :=
  if data.length < 8 then none
  else do
    let (protocolVersion, data) ← readU32 data
    let (bestHeight, data) ← readU32 data
    if data.length < 3 then
      some ⟨protocolVersion, bestHeight, defaultP2pPort, 0, none⟩
    else
      let (listenPort, data) ← readU16 data
      let (flags, data) ← readU8 data
      let advertisedIp ← readAdvertisedIp flags data
      some ⟨protocolVersion, bestHeight, listenPort, flags, advertisedIp⟩

/-! ## Sessions -/

structure PeerSession where
  remoteLabelOverride : Option Bytes := none
  endpointOverride : Option Endpoint := none
  /-- `socket_.remote_endpoint()`; `none` where it throws. -/
  remoteEndpoint : Option Endpoint := none
  versionSeen : Bool := false

namespace PeerSession

def remoteLabel (s : PeerSession) : Bytes :=
  match s.remoteLabelOverride, s.remoteEndpoint with
  | some label, _ => label
  | none, some endpoint => endpoint.label
  | none, none => chars "unknown"

def endpoint (s : PeerSession) : Endpoint :=
  match s.endpointOverride, s.remoteEndpoint with
  | some endpoint, _ => endpoint
  | none, some endpoint => endpoint
  | none, none => ⟨.v4 ⟨0⟩, 0⟩

def markVersionSeen (s : PeerSession) : PeerSession := { s with versionSeen := true }

def adoptRemoteLabel (s : PeerSession) (label : Bytes) : PeerSession :=
  { s with remoteLabelOverride := some label }

/-- The socket is closed, or its connection is gone. -/
def unplugged (s : PeerSession) : PeerSession := { s with remoteEndpoint := none }

end PeerSession

def canonicalPeerLabelFromVersion (defaultP2pPort : UInt16) (remote : Endpoint)
    (version : VersionPayload) : Option Bytes :=
  let port := if version.listenPort ≠ 0 then version.listenPort else defaultP2pPort
  match version.advertisedIp, remote.host with
  | some ip, _ => some (endpointLabel ip port)
  | none, .v4 ip =>
      if port = defaultP2pPort ∨ remote.port = port then some (endpointLabel ip port) else none
  | none, .v6 _ => none

/-- The session after a VERSION message was read. -/
def PeerSession.greeted (s : PeerSession) (defaultP2pPort : UInt16) (version : VersionPayload) :
    PeerSession :=
  match canonicalPeerLabelFromVersion defaultP2pPort s.endpoint version with
  | some advertised => s.markVersionSeen.adoptRemoteLabel advertised
  | none => s.markVersionSeen

/-! ## What the label of a session depends on -/

theorem PeerSession.remoteLabel_adopt (s : PeerSession) (label : Bytes) :
    (s.adoptRemoteLabel label).remoteLabel = label := rfl

/-- A session with a label of its own keeps it without its socket. -/
theorem PeerSession.remoteLabel_unplugged {s : PeerSession} {label : Bytes}
    (h : s.remoteLabelOverride = some label) : s.unplugged.remoteLabel = s.remoteLabel := by
  rw [remoteLabel, remoteLabel, unplugged, h]

/-- The peer chooses the label: any address and port. -/
theorem PeerSession.remoteLabel_greeted (s : PeerSession) (defaultP2pPort : UInt16)
    {version : VersionPayload} {ip : IpAddress} (h : version.advertisedIp = some ip)
    (hport : version.listenPort ≠ 0) :
    (s.greeted defaultP2pPort version).remoteLabel = endpointLabel ip version.listenPort := by
  rw [greeted, canonicalPeerLabelFromVersion, h]
  simp only [if_pos hport]
  rfl

end Peers

end Cryptex
