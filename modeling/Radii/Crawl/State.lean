import Radii.Foundations.HashMap
import Radii.Proto.Validate

/-!
# Crawl's state

`crates/crawl/src/server.rs`: the node registry, the reachability table and what may be written
to them.  `Upserted` says once what recording a report can do to the table; everything later
about the table (who may write it, what a sweep removes, what stays within the wire bounds) is
derived from it.
-/

namespace Radii

open Collections

/-- Ceilings on how much reachability state peers can make Crawl hold. -/
def maxReachabilityEntries : ℕ := 16384
def maxReachabilityEntriesPerPeer : ℕ := 1024

structure NodeEntry where
  listenAddrs : List ListenAddr
  roles : List String
  lastSeenUnixMs : ℕ
  deriving DecidableEq, Repr

/-- Who observed it, about what, over which protocol. -/
structure ReachabilityKey where
  fromId : String
  target : String
  protocol : String
  deriving DecidableEq, Repr

structure ReachabilityEntry where
  reachable : Bool
  rttMs : Option UInt32
  observedAddr : Option String
  lastSeenUnixMs : ℕ
  deriving DecidableEq, Repr

structure CrawlState where
  nodes : HashMap String NodeEntry
  reachability : HashMap ReachabilityKey ReachabilityEntry
  /-- `none`: entries never expire. -/
  nodeTtlMs : Option ℕ
  /-- Authenticated node ids allowed to relay `FromHead` envelopes. -/
  relayPeers : Finset String

namespace CrawlState

/-- The state Crawl starts in. -/
def initial (nodeTtlMs : Option ℕ) (relayPeers : Finset String) : CrawlState :=
  ⟨∅, ∅, nodeTtlMs, relayPeers⟩

/-- Whether an entry last seen at `lastSeen` is older than the ttl at time `now`.  The
subtraction saturates, as the source's does. -/
def stale (s : CrawlState) (now lastSeen : ℕ) : Bool :=
  match s.nodeTtlMs with
  | none => false
  | some ttl => decide (now - lastSeen > ttl)

/-- Drops observations older than the ttl. -/
def expireReports (s : CrawlState) (now : ℕ) : CrawlState :=
  { s with reachability := s.reachability.retain fun _ entry => !s.stale now entry.lastSeenUnixMs }

/-- How many stored observations come from `fromId`. -/
def peerEntries (s : CrawlState) (fromId : String) : ℕ :=
  s.reachability.countKeys fun k => k.fromId == fromId

/-- The sweep that runs before a new key is admitted to a full table. -/
def makeRoom (s : CrawlState) (now : ℕ) : CrawlState :=
  if s.reachability.len ≥ maxReachabilityEntries then s.expireReports now else s

/-- `record_report`: replaces the observation under `key`, or admits a new one if the table and
the peer's share of it have room.  The flag says whether the report was stored. -/
def recordReport (s : CrawlState) (key : ReachabilityKey) (entry : ReachabilityEntry) :
    CrawlState × Bool :=
  match s.reachability.lookup key with
  | some _ => ({ s with reachability := s.reachability.insert key entry }, true)
  | none =>
      let s' := s.makeRoom entry.lastSeenUnixMs
      if s'.reachability.len ≥ maxReachabilityEntries then (s', false)
      else if s'.peerEntries key.fromId ≥ maxReachabilityEntriesPerPeer then (s', false)
      else ({ s' with reachability := s'.reachability.insert key entry }, true)

/-- `state.nodes.insert`. -/
def insertNode (s : CrawlState) (nodeId : String) (entry : NodeEntry) : CrawlState :=
  { s with nodes := s.nodes.insert nodeId entry }

/-! ## What recording a report can do -/

/-- The table `t` after something was (or was not) written under `key` at time `now` to the table
of `s`: every other entry is as it was, or was stale and is gone. -/
structure Upserted (s : CrawlState) (now : ℕ) (key : ReachabilityKey) (entry : ReachabilityEntry)
    (accepted : Bool) (t : CrawlState) : Prop where
  nodes : t.nodes = s.nodes
  nodeTtlMs : t.nodeTtlMs = s.nodeTtlMs
  relayPeers : t.relayPeers = s.relayPeers
  other : ∀ k, k ≠ key → t.reachability.lookup k = s.reachability.lookup k ∨
    t.reachability.lookup k = none ∧
      ∃ e, s.reachability.lookup k = some e ∧ s.stale now e.lastSeenUnixMs = true
  stored : accepted = true → t.reachability.lookup key = some entry
  refused : accepted = false →
    s.reachability.lookup key = none ∧ t.reachability.lookup key = none

lemma lookup_expireReports (s : CrawlState) (now : ℕ) (k : ReachabilityKey) :
    (s.expireReports now).reachability.lookup k = s.reachability.lookup k ∨
      (s.expireReports now).reachability.lookup k = none ∧
        ∃ e, s.reachability.lookup k = some e ∧ s.stale now e.lastSeenUnixMs = true := by
  simp only [expireReports, HashMap.lookup_retain]
  cases s.reachability.lookup k with
  | none => exact Or.inl rfl
  | some e =>
      cases hst : s.stale now e.lastSeenUnixMs with
      | false => exact Or.inl (by simp [hst])
      | true => exact Or.inr ⟨by simp [hst], e, rfl, hst⟩

lemma lookup_makeRoom (s : CrawlState) (now : ℕ) (k : ReachabilityKey) :
    (s.makeRoom now).reachability.lookup k = s.reachability.lookup k ∨
      (s.makeRoom now).reachability.lookup k = none ∧
        ∃ e, s.reachability.lookup k = some e ∧ s.stale now e.lastSeenUnixMs = true := by
  rw [makeRoom]
  split
  · exact lookup_expireReports s now k
  · exact Or.inl rfl

lemma makeRoom_frame (s : CrawlState) (now : ℕ) :
    (s.makeRoom now).nodes = s.nodes ∧ (s.makeRoom now).nodeTtlMs = s.nodeTtlMs ∧
      (s.makeRoom now).relayPeers = s.relayPeers := by
  rw [makeRoom]
  split <;> exact ⟨rfl, rfl, rfl⟩

/-- **What `record_report` can do**, whatever the state and whatever the report. -/
theorem recordReport_upserted (s : CrawlState) (key : ReachabilityKey)
    (entry : ReachabilityEntry) :
    Upserted s entry.lastSeenUnixMs key entry (s.recordReport key entry).2
      (s.recordReport key entry).1 := by
  rw [recordReport]
  cases hkey : s.reachability.lookup key with
  | some old =>
      exact ⟨rfl, rfl, rfl, fun k hk => Or.inl (HashMap.lookup_insert_of_ne hk),
        fun _ => AList.lookup_insert _, fun h => by simp at h⟩
  | none =>
      obtain ⟨hnodes, httl, hrelay⟩ := makeRoom_frame s entry.lastSeenUnixMs
      have hroom := lookup_makeRoom s entry.lastSeenUnixMs
      have hnone : (s.makeRoom entry.lastSeenUnixMs).reachability.lookup key = none := by
        rcases hroom key with h | ⟨h, -⟩
        · rw [h, hkey]
        · exact h
      simp only
      split_ifs
      · exact ⟨hnodes, httl, hrelay, fun k _ => hroom k, fun h => by simp at h,
          fun _ => ⟨hkey, hnone⟩⟩
      · exact ⟨hnodes, httl, hrelay, fun k _ => hroom k, fun h => by simp at h,
          fun _ => ⟨hkey, hnone⟩⟩
      · refine ⟨hnodes, httl, hrelay, ?_, fun _ => AList.lookup_insert _,
          fun h => by simp at h⟩
        intro k hk
        simp only [HashMap.lookup_insert_of_ne hk]
        exact hroom k

end CrawlState

/-! ## Applying a claim

A hello or a report, however it arrived, is applied the same way once it has been authorized;
`applyClaim` is that common part, with the reply flag of `record_report`. -/

/-- Applies an authorized hello or report at time `now`. -/
def applyClaim (now : ℕ) (s : CrawlState) : RelayedMessage → CrawlState × Bool
  | .nodeHello nodeId roles listenAddrs => (s.insertNode nodeId ⟨listenAddrs, roles, now⟩, true)
  | .reachabilityProbe _ _ _ => (s, true)
  | .reachabilityReport fromId target protocol reachable rttMs observedAddr =>
      s.recordReport ⟨fromId, target, protocol⟩ ⟨reachable, rttMs, observedAddr, now⟩

lemma applyClaim_nodeTtlMs (now : ℕ) (s : CrawlState) (r : RelayedMessage) :
    (applyClaim now s r).1.nodeTtlMs = s.nodeTtlMs := by
  cases r with
  | nodeHello => rfl
  | reachabilityProbe => rfl
  | reachabilityReport => exact (CrawlState.recordReport_upserted _ _ _).nodeTtlMs

lemma applyClaim_relayPeers (now : ℕ) (s : CrawlState) (r : RelayedMessage) :
    (applyClaim now s r).1.relayPeers = s.relayPeers := by
  cases r with
  | nodeHello => rfl
  | reachabilityProbe => rfl
  | reachabilityReport => exact (CrawlState.recordReport_upserted _ _ _).relayPeers

/-! ## Authorization -/

/-- A peer speaks for its own authenticated node id; a plaintext peer is not checked. -/
def authorized (peerIdentity : Option String) (claimedNodeId : String) : Bool :=
  match peerIdentity with
  | some identity => identity == claimedNodeId
  | none => true

/-- Whether a peer may relay `FromHead` envelopes at all. -/
def authorizedRelayPeer (peerIdentity : Option String) (relayPeers : Finset String) : Bool :=
  match peerIdentity with
  | some identity => decide (identity ∈ relayPeers)
  | none => true

/-- Whether a relayed claim is backed by the identity the Head authenticated for its client. -/
def authorizedRelayedClaim (peerIdentity clientIdentity : Option String)
    (claimedNodeId : String) : Bool :=
  match peerIdentity with
  | some _ => clientIdentity == some claimedNodeId
  | none => true

end Radii
