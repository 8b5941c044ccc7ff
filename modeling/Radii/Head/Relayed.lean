import Radii.Crawl.Alone
import Radii.Head.Bridge
import Radii.Proto.Address

/-!
# Going through Head

A client can send its hello or its report to Crawl, or to a Head that wraps it in an envelope and
relays it.  The two ways have checks and handlers of their own; with no connection failing and Crawl
serving nobody else meanwhile (`Prog.exec`):

* `relayed_as_direct` — what each of them leaves of Crawl's state is the same, for every message a
  Head agrees to relay.
-/

namespace Radii

open Sync Collections Wire

/-! ## The two ways -/

/-- What the first frame of a stream leaves of Crawl's state. -/
def crawlReads (peer : Option String) (env : Env) (stream : Chunks) (s : CrawlState) : CrawlState :=
  match readMessage stream with
  | .error _ => s
  | .ok (m, _) => (handleConnection peer m).exec env s

/-- What it leaves when a Head reads it and relays it, in `handle_connection` of
`crates/head/src/radii.rs`. -/
def crawlReadsViaHead (via : Via) (env : Env) (stream : Chunks) (s : CrawlState) : CrawlState :=
  match readMessage stream with
  | .error _ => s
  | .ok (m, _) =>
      match RelayedMessage.tryFrom m with
      -- answered with "unsupported_relay_message"
      | .error _ => s
      | .ok r =>
          match writeMessage [] (via.wrap r) with
          | .error _ => s
          | .ok wrapped => crawlReads via.peer env [wrapped] s

/-- The client and the Head are known by their certificates, on both ways alike, and the Head may
relay; or no link is authenticated. -/
inductive Linked (relayPeers : Finset String) : Option String → Via → Prop where
  | authenticated {client head source : String} (hrelay : head ∈ relayPeers) :
      Linked relayPeers (some client) ⟨some head, some client, source⟩
  | plaintext {source : String} : Linked relayPeers none ⟨none, none, source⟩

/-- That is what a run of the connection alone leaves. -/
lemma crawlReads_of_run {peer : Option String} {env : Env} {stream rest : Chunks} {m : RadiiMessage}
    (hread : readMessage stream = .ok (m, rest)) {c c' : CrawlConfig} {i : ℕ}
    (hrun : Run crawl (fun _ e => e.Alone i env) c c')
    (hconn : c.conns i = some ⟨peer, some m, handleConnection peer m⟩)
    (hdone : c'.conns i = some ⟨peer, some m, .done⟩) :
    c'.state = crawlReads peer env stream c.state := by
  rw [crawlReads, hread]
  exact hrun.exec hconn hdone rfl

/-! ## The same -/

/-- A message and what a Head makes of it are within the same bounds. -/
lemma validateRelayed_tryFrom {m : RadiiMessage} {r : RelayedMessage}
    (hm : RelayedMessage.tryFrom m = .ok r) (h : validateMessage m = .ok ()) :
    validateRelayed r = .ok () := by
  cases m with
  | nodeHello | reachabilityProbe | reachabilityReport =>
      rw [RelayedMessage.tryFrom, Except.ok.injEq] at hm
      subst hm
      exact h
  | _ => simp [RelayedMessage.tryFrom] at hm

lemma claimed_le {r : RelayedMessage} (h : validateRelayed r = .ok ()) {claimed : String}
    (hclaimed : r.claimedNodeId = some claimed) : ValidNodeId claimed := by
  cases r with
  | nodeHello =>
      rw [RelayedMessage.claimedNodeId, Option.some.injEq] at hclaimed
      exact hclaimed ▸ (validateHello_eq_ok.mp h).nodeId_le
  | reachabilityProbe => simp [RelayedMessage.claimedNodeId] at hclaimed
  | reachabilityReport =>
      rw [RelayedMessage.claimedNodeId, Option.some.injEq] at hclaimed
      exact hclaimed ▸ (validateReport_eq_ok.mp h).from_le

/-- Crawl makes the same of the client's claim on both ways. -/
lemma Linked.allowed_iff {relayPeers : Finset String} {client : Option String} {via : Via}
    (h : Linked relayPeers client via) (r : RelayedMessage) :
    (authorizedRelayPeer via.peer relayPeers = true ∧ ∀ claimed, r.claimedNodeId = some claimed →
      authorizedRelayedClaim via.peer via.clientIdentity claimed = true) ↔
    ownClaim client r = true := by
  cases h with
  | authenticated hrelay =>
      simp only [authorizedRelayPeer, hrelay, decide_true, true_and, authorizedRelayedClaim,
        ownClaim]
      cases r.claimedNodeId with
      | none => simp
      | some claimed => simp [authorized]
  | plaintext =>
      simp only [authorizedRelayPeer, true_and, authorizedRelayedClaim, ownClaim]
      cases r.claimedNodeId with
      | none => simp
      | some claimed => simp [authorized]

/-- A client whose name does not fit the wire has no claim of its own, so nothing is lost when
its envelope is refused. -/
lemma Linked.unclaimed_of_long {relayPeers : Finset String} {client : Option String} {via : Via}
    (hlinked : Linked relayPeers client via)
    (hlong : ¬ ∀ identity ∈ via.clientIdentity, identity.utf8ByteSize ≤ maxNodeIdLen)
    {r : RelayedMessage} (h : validateRelayed r = .ok ()) (env : Env) (s : CrawlState) :
    (if ownClaim client r then (applyClaim env.now s r).1 else s) = s := by
  cases hclaimed : r.claimedNodeId with
  | none =>
      cases r with
      | reachabilityProbe => rfl
      | _ => simp [RelayedMessage.claimedNodeId] at hclaimed
  | some claimed =>
      cases hlinked with
      | @authenticated client _ _ _ =>
          have hne : client ≠ claimed := by
            rintro rfl
            exact hlong fun identity hidentity =>
              Option.mem_some_iff.mp hidentity ▸ claimed_le h hclaimed
          rw [ownClaim, hclaimed, if_neg (by simp [authorized, hne])]
      | plaintext => exact absurd (fun _ hidentity => absurd hidentity (by simp)) hlong

/-- **Going through Head changes nothing**: every message it relays leaves what it would have left
when sent to Crawl, what it refuses would have left nothing, and its envelopes pass the wire
whenever the client's name does. -/
theorem relayed_as_direct (client : Option String) (via : Via) (addr : SocketAddr)
    (hsource : via.source = addr.text) {stream rest : Chunks} {m : RadiiMessage}
    (hread : readMessage stream = .ok (m, rest)) (env : Env) (s : CrawlState) :
    (∀ r, RelayedMessage.tryFrom m = .ok r → Linked s.relayPeers client via →
      crawlReadsViaHead via env stream s = crawlReads client env stream s) ∧
    (∀ refused, RelayedMessage.tryFrom m = .error refused →
      (∀ source identity message, m ≠ .fromHead source identity message) →
        crawlReads client env stream s = s) ∧
    (∀ r, RelayedMessage.tryFrom m = .ok r →
      (∀ identity ∈ via.clientIdentity, identity.utf8ByteSize ≤ maxNodeIdLen) →
        ∃ wrapped, writeMessage [] (via.wrap r) = .ok wrapped ∧
          ∃ left, readMessage [wrapped] = .ok (via.wrap r, left)) := by
  have hvalid := (fits_of_readMessage hread).1.2
  have hpasses : ∀ r, RelayedMessage.tryFrom m = .ok r →
      (∀ identity ∈ via.clientIdentity, identity.utf8ByteSize ≤ maxNodeIdLen) →
        ∃ wrapped, writeMessage [] (via.wrap r) = .ok wrapped ∧
          ∃ left, readMessage [wrapped] = .ok (via.wrap r, left) := by
    intro r hr hidentity
    exact sendable_iff.mp (sendable_fromHead (hsource ▸ addr.text_le) hidentity
      (validateRelayed_tryFrom hr hvalid)) |>.imp fun wrapped h => by
        rcases h with ⟨left, hwrite, hleft⟩
        exact ⟨hwrite, left, hleft⟩
  refine ⟨fun r hr hlinked => ?_, fun refused hrefused hflat => ?_, hpasses⟩
  · rw [crawlReads, crawlReadsViaHead, hread]
    simp only [hr, direct_exec hr]
    by_cases hfits : ∀ identity ∈ via.clientIdentity, identity.utf8ByteSize ≤ maxNodeIdLen
    · rcases hpasses r hr hfits with ⟨wrapped, hwrite, left, hleft⟩
      simp only [hwrite, crawlReads, hleft]
      rw [Via.wrap, fromHead_exec]
      exact if_congr (hlinked.allowed_iff r) rfl rfl
    · rw [hlinked.unclaimed_of_long hfits (validateRelayed_tryFrom hr hvalid)]
      cases hwrite : writeMessage [] (via.wrap r) with
      | error e => rfl
      | ok wrapped =>
          simp only [crawlReads]
          cases hleft : readMessage [wrapped] with
          | error e => rfl
          | ok read =>
              -- Crawl refuses the envelope
              have hreadable := (readMessage_written hwrite hleft).2.2
              simp only [Via.wrap, validateMessage, andThen_eq_ok] at hreadable
              refine absurd ?_ hfits
              intro identity hidentity
              rw [Option.mem_def.mp hidentity] at hreadable
              exact bounded_eq_ok.mp hreadable.2.1
  · rw [crawlReads, hread]
    exact refused_exec hrefused hflat

/-- A client's hello, over the Head of the node `h`. -/
theorem relayed_as_direct_hello :
    crawlReadsViaHead ⟨some "h", some "n", "192.168.0.7:50800"⟩ default
        [frame (.nodeHello "n" ["head"] [⟨"a:1", "relay"⟩])] (.initial none {"h"}) =
      crawlReads (some "n") default [frame (.nodeHello "n" ["head"] [⟨"a:1", "relay"⟩])]
        (.initial none {"h"}) := by
  have hread : readMessage [frame (.nodeHello "n" ["head"] [⟨"a:1", "relay"⟩])] =
      .ok (.nodeHello "n" ["head"] [⟨"a:1", "relay"⟩], [[]]) := by decide
  exact (relayed_as_direct (some "n") ⟨some "h", some "n", "192.168.0.7:50800"⟩
    (.v4 0xc0a80007 50800) (by decide) hread default (.initial none {"h"})).1 _ rfl
      (.authenticated (Finset.mem_singleton_self "h"))

end Radii
