import Radii.Foundations.Codec

/-!
# The messages of the mesh and their wire format

`crates/proto/src/lib.rs`: the constants that bound what a peer may send, the two message types
and their postcard encoding.  A message is its variant's index and then its fields in the order
of declaration; `messageCodec` packages the encoder and the decoder with their laws.
-/

namespace Radii

open Wire

/-! ## Bounds -/

/-- Maximum accepted frame payload, 1 MiB. -/
def maxFrameLen : ℕ := 1024 * 1024

/-- How much of a frame Crawl may fill with `GraphSnapshot` contents. -/
def snapshotBudget : ℕ := maxFrameLen - 1024

def maxTunnelHops : ℕ := 32
def maxListenAddrs : ℕ := 16
def maxListenAddrLen : ℕ := 256
def maxRoleLen : ℕ := 64
def maxNodeIdLen : ℕ := 256
def maxProtocolLen : ℕ := 64
def maxNodeRoles : ℕ := 16

/-! ## Messages -/

/-- One hop of an initiator-pinned source route. -/
structure RouteHop where
  nodeId : String
  addr : String
  deriving DecidableEq, Repr

/-- One advertised listener, and what it speaks. -/
structure ListenAddr where
  addr : String
  role : String
  deriving DecidableEq, Repr

structure NodeInfo where
  nodeId : String
  listenAddrs : List ListenAddr
  roles : List String
  deriving DecidableEq, Repr

structure GraphReport where
  fromId : String
  target : String
  protocol : String
  reachable : Bool
  rttMs : Option UInt32
  deriving DecidableEq, Repr

/-- The subset of messages a Head may relay to Crawl on a client's behalf.  Flat: it cannot hold
another envelope. -/
inductive RelayedMessage where
  | nodeHello (nodeId : String) (roles : List String) (listenAddrs : List ListenAddr)
  | reachabilityProbe (fromId toId : String) (sentAtUnixMs : UInt64)
  | reachabilityReport (fromId target protocol : String) (reachable : Bool)
      (rttMs : Option UInt32) (observedAddr : Option String)
  deriving DecidableEq, Repr

inductive RadiiMessage where
  | nodeHello (nodeId : String) (roles : List String) (listenAddrs : List ListenAddr)
  | reachabilityProbe (fromId toId : String) (sentAtUnixMs : UInt64)
  | reachabilityReport (fromId target protocol : String) (reachable : Bool)
      (rttMs : Option UInt32) (observedAddr : Option String)
  | fromHead (source : String) (clientIdentity : Option String) (message : RelayedMessage)
  | graphQuery
  | graphSnapshot (nodes : List NodeInfo) (reports : List GraphReport)
  | ack (status : String)
  | tunnelOpen (hops : List RouteHop)
  deriving DecidableEq, Repr

/-- The node id a relayed message speaks for.  A probe writes no state and claims nothing. -/
def RelayedMessage.claimedNodeId : RelayedMessage → Option String
  | .nodeHello nodeId _ _ => some nodeId
  | .reachabilityReport fromId _ _ _ _ _ => some fromId
  | .reachabilityProbe _ _ _ => none

/-- `TryFrom<RadiiMessage>`: what a Head agrees to relay.  The error carries the message it
quotes: "message is not relayable through a Head: …". -/
def RelayedMessage.tryFrom : RadiiMessage → Except RadiiMessage RelayedMessage
  | .nodeHello nodeId roles listenAddrs => .ok (.nodeHello nodeId roles listenAddrs)
  | .reachabilityProbe fromId toId sentAt => .ok (.reachabilityProbe fromId toId sentAt)
  | .reachabilityReport fromId target protocol reachable rttMs observedAddr =>
      .ok (.reachabilityReport fromId target protocol reachable rttMs observedAddr)
  | other => .error other

/-! ## Wire format of the fields -/

def routeHopCodec : Codec RouteHop :=
  (Codec.str.prod Codec.str).imap (fun p => ⟨p.1, p.2⟩) (fun h => (h.nodeId, h.addr))
    (fun _ => rfl) (fun _ => rfl)

def listenAddrCodec : Codec ListenAddr :=
  (Codec.str.prod Codec.str).imap (fun p => ⟨p.1, p.2⟩) (fun a => (a.addr, a.role))
    (fun _ => rfl) (fun _ => rfl)

def nodeInfoCodec : Codec NodeInfo :=
  (Codec.str.prod (listenAddrCodec.seq.prod Codec.str.seq)).imap
    (fun p => ⟨p.1, p.2.1, p.2.2⟩) (fun n => (n.nodeId, n.listenAddrs, n.roles))
    (fun _ => rfl) (fun _ => rfl)

def graphReportCodec : Codec GraphReport :=
  (Codec.str.prod (Codec.str.prod (Codec.str.prod (Codec.bool.prod Codec.uint32.option)))).imap
    (fun p => ⟨p.1, p.2.1, p.2.2.1, p.2.2.2.1, p.2.2.2.2⟩)
    (fun r => (r.fromId, r.target, r.protocol, r.reachable, r.rttMs))
    (fun _ => rfl) (fun _ => rfl)

/-- The fields of a hello: node id, roles, listen addresses. -/
def helloCodec : Codec (String × List String × List ListenAddr) :=
  Codec.str.prod (Codec.str.seq.prod listenAddrCodec.seq)

/-- The fields of a probe. -/
def probeCodec : Codec (String × String × UInt64) :=
  Codec.str.prod (Codec.str.prod Codec.uint64)

/-- The fields of a report. -/
def reportCodec :
    Codec (String × String × String × Bool × Option UInt32 × Option String) :=
  Codec.str.prod (Codec.str.prod (Codec.str.prod
    (Codec.bool.prod (Codec.uint32.option.prod Codec.str.option))))

/-! ## Wire format of the messages -/

def encodeRelayed : RelayedMessage → Bytes
  | .nodeHello nodeId roles listenAddrs =>
      Codec.putVariant 0 (helloCodec.encode (nodeId, roles, listenAddrs))
  | .reachabilityProbe fromId toId sentAt =>
      Codec.putVariant 1 (probeCodec.encode (fromId, toId, sentAt))
  | .reachabilityReport fromId target protocol reachable rttMs observedAddr =>
      Codec.putVariant 2
        (reportCodec.encode (fromId, target, protocol, reachable, rttMs, observedAddr))

def decodeRelayed (bytes : Bytes) : Option (RelayedMessage × Bytes) :=
  match takeVarint u32 bytes with
  | some (0, fields) =>
      (helloCodec.decode fields).map fun r => (.nodeHello r.1.1 r.1.2.1 r.1.2.2, r.2)
  | some (1, fields) =>
      (probeCodec.decode fields).map fun r => (.reachabilityProbe r.1.1 r.1.2.1 r.1.2.2, r.2)
  | some (2, fields) =>
      (reportCodec.decode fields).map fun r =>
        (.reachabilityReport r.1.1 r.1.2.1 r.1.2.2.1 r.1.2.2.2.1 r.1.2.2.2.2.1 r.1.2.2.2.2.2,
          r.2)
  | _ => none

/-- The wire format of a relayed message. -/
def relayedCodec : Codec RelayedMessage where
  encode := encodeRelayed
  decode := decodeRelayed
  encode_pos m := by cases m <;> exact Codec.putVariant_pos _ _
  decode_encode m rest h := by
    cases m <;>
    · simp only [encodeRelayed, Codec.putVariant, List.length_append] at h
      simp only [encodeRelayed, Codec.putVariant, List.append_assoc, decodeRelayed]
      rw [takeVarint_put u32 (by decide)]
      simp only
      rw [Codec.decode_encode _ _ _ (by omega)]
      rfl
  encode_le bytes m rest h := by
    rw [decodeRelayed] at h
    split at h
    case h_4 => simp at h
    all_goals
      rename_i fields htag
      rcases Codec.map_read_eq_some.mp h with ⟨p, hp, rfl⟩
      exact Codec.putVariant_le _ htag hp

/-- The fields of an envelope: source, client identity, relayed message. -/
def fromHeadCodec : Codec (String × Option String × RelayedMessage) :=
  Codec.str.prod (Codec.str.option.prod relayedCodec)

/-- The fields of a snapshot. -/
def snapshotCodec : Codec (List NodeInfo × List GraphReport) :=
  nodeInfoCodec.seq.prod graphReportCodec.seq

/-- `postcard::to_allocvec`. -/
def encodeMessage : RadiiMessage → Bytes
  | .nodeHello nodeId roles listenAddrs =>
      Codec.putVariant 0 (helloCodec.encode (nodeId, roles, listenAddrs))
  | .reachabilityProbe fromId toId sentAt =>
      Codec.putVariant 1 (probeCodec.encode (fromId, toId, sentAt))
  | .reachabilityReport fromId target protocol reachable rttMs observedAddr =>
      Codec.putVariant 2
        (reportCodec.encode (fromId, target, protocol, reachable, rttMs, observedAddr))
  | .fromHead source clientIdentity message =>
      Codec.putVariant 3 (fromHeadCodec.encode (source, clientIdentity, message))
  | .graphQuery => Codec.putVariant 4 []
  | .graphSnapshot nodes reports => Codec.putVariant 5 (snapshotCodec.encode (nodes, reports))
  | .ack status => Codec.putVariant 6 (Codec.str.encode status)
  | .tunnelOpen hops => Codec.putVariant 7 (routeHopCodec.seq.encode hops)

def decodeMessage (bytes : Bytes) : Option (RadiiMessage × Bytes) :=
  match takeVarint u32 bytes with
  | some (0, fields) =>
      (helloCodec.decode fields).map fun r => (.nodeHello r.1.1 r.1.2.1 r.1.2.2, r.2)
  | some (1, fields) =>
      (probeCodec.decode fields).map fun r => (.reachabilityProbe r.1.1 r.1.2.1 r.1.2.2, r.2)
  | some (2, fields) =>
      (reportCodec.decode fields).map fun r =>
        (.reachabilityReport r.1.1 r.1.2.1 r.1.2.2.1 r.1.2.2.2.1 r.1.2.2.2.2.1 r.1.2.2.2.2.2,
          r.2)
  | some (3, fields) =>
      (fromHeadCodec.decode fields).map fun r => (.fromHead r.1.1 r.1.2.1 r.1.2.2, r.2)
  | some (4, fields) => some (.graphQuery, fields)
  | some (5, fields) =>
      (snapshotCodec.decode fields).map fun r => (.graphSnapshot r.1.1 r.1.2, r.2)
  | some (6, fields) => (Codec.str.decode fields).map fun r => (.ack r.1, r.2)
  | some (7, fields) => (routeHopCodec.seq.decode fields).map fun r => (.tunnelOpen r.1, r.2)
  | _ => none

/-- **The wire format of a message.** -/
def messageCodec : Codec RadiiMessage where
  encode := encodeMessage
  decode := decodeMessage
  encode_pos m := by cases m <;> exact Codec.putVariant_pos _ _
  decode_encode m rest h := by
    cases m
    case graphQuery =>
      simp only [encodeMessage, Codec.putVariant, List.append_assoc, decodeMessage]
      rw [takeVarint_put u32 (by decide)]
      rfl
    all_goals
      simp only [encodeMessage, Codec.putVariant, List.length_append] at h
      simp only [encodeMessage, Codec.putVariant, List.append_assoc, decodeMessage]
      rw [takeVarint_put u32 (by decide)]
      simp only
      rw [Codec.decode_encode _ _ _ (by omega)]
      rfl
  encode_le bytes m rest h := by
    rw [decodeMessage] at h
    split at h
    case h_5 =>
      rename_i fields htag
      simp only [Option.some.injEq, Prod.mk.injEq] at h
      rcases h with ⟨rfl, rfl⟩
      obtain ⟨-, used, hused, hlen⟩ := takeVarint_sound u32 htag
      exact ⟨used, hused, by simpa [encodeMessage, Codec.putVariant] using hlen⟩
    case h_9 => simp at h
    all_goals
      rename_i fields htag
      rcases Codec.map_read_eq_some.mp h with ⟨p, hp, rfl⟩
      exact Codec.putVariant_le _ htag hp

end Radii
