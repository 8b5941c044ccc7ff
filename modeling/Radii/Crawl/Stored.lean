import Radii.Crawl.Server
import Radii.Foundations.Progress

/-!
# What is stored under a key

A hello is about a node and a report about a (from, target, protocol) triple; `subject` gives the
key and the value a relayed message states for it, and `stored` what Crawl holds under a key.
Applying a message stores its value under its own key or nothing, and leaves every other key alone
or drops it (`stored_applyClaim_self`, `stored_applyClaim_of_ne`).  Crawl's program for a relayed
message applies it once, before its one reply (`fromHeadArm_pending`, `fromHeadArm_repliesLast`).
-/

namespace Radii

open Sync Collections

/-- What a message of the mesh can be about. -/
inductive StoreKey where
  | node (nodeId : String)
  | report (key : ReachabilityKey)
  deriving DecidableEq, Repr

/-- What a message states, without the time of its arrival. -/
inductive StoredValue where
  | node (roles : List String) (listenAddrs : List ListenAddr)
  | report (reachable : Bool) (rttMs : Option UInt32) (observedAddr : Option String)
  deriving DecidableEq, Repr

/-- The node whose word counts for a key. -/
def StoreKey.owner : StoreKey → String
  | .node nodeId => nodeId
  | .report key => key.fromId

/-- The key a relayed message writes, and the value it writes there. -/
def RelayedMessage.subject : RelayedMessage → Option (StoreKey × StoredValue)
  | .nodeHello nodeId roles listenAddrs => some (.node nodeId, .node roles listenAddrs)
  | .reachabilityProbe _ _ _ => none
  | .reachabilityReport fromId target protocol reachable rttMs observedAddr =>
      some (.report ⟨fromId, target, protocol⟩, .report reachable rttMs observedAddr)

/-- The claim a frame makes, directly or in an envelope. -/
def RadiiMessage.claim : RadiiMessage → Option RelayedMessage
  | .nodeHello nodeId roles listenAddrs => some (.nodeHello nodeId roles listenAddrs)
  | .reachabilityReport fromId target protocol reachable rttMs observedAddr =>
      some (.reachabilityReport fromId target protocol reachable rttMs observedAddr)
  | .fromHead _ _ message => some message
  | _ => none

/-- Whether the relayed message is about the key. -/
def RelayedMessage.About (r : RelayedMessage) (key : StoreKey) : Prop :=
  ∃ v, r.subject = some (key, v)

/-- What Crawl holds under a key. -/
def CrawlState.stored (s : CrawlState) : StoreKey → Option StoredValue
  | .node nodeId => (s.nodes.lookup nodeId).map fun e => .node e.roles e.listenAddrs
  | .report key =>
      (s.reachability.lookup key).map fun e => .report e.reachable e.rttMs e.observedAddr

lemma claimedNodeId_of_subject {r : RelayedMessage} {key : StoreKey} {v : StoredValue}
    (h : r.subject = some (key, v)) : r.claimedNodeId = some key.owner := by
  cases r with
  | nodeHello =>
      simp only [RelayedMessage.subject, Option.some.injEq, Prod.mk.injEq] at h
      rw [← h.1]
      rfl
  | reachabilityProbe => simp [RelayedMessage.subject] at h
  | reachabilityReport =>
      simp only [RelayedMessage.subject, Option.some.injEq, Prod.mk.injEq] at h
      rw [← h.1]
      rfl

lemma claim_of_grants {relayPeers : Finset String} {peer : Option String} {m : RadiiMessage}
    {r : RelayedMessage} (h : Grants relayPeers peer m r) : m.claim = some r := by
  cases h <;> rfl

/-- Two messages about one key are granted together. -/
lemma grants_of_same_key {relayPeers : Finset String} {peer clientIdentity : Option String}
    {source : String} {key : StoreKey} {r r' : RelayedMessage} (hr : r.About key)
    (hr' : r'.About key) (h : Grants relayPeers peer (.fromHead source clientIdentity r) r) :
    Grants relayPeers peer (.fromHead source clientIdentity r') r' := by
  rcases hr with ⟨v, hv⟩
  rcases hr' with ⟨v', hv'⟩
  cases h with
  | fromHead hrelay hclaim =>
      refine .fromHead hrelay ?_
      rw [claimedNodeId_of_subject hv']
      rwa [claimedNodeId_of_subject hv] at hclaim

/-! ## Applying a message -/

/-- Afterwards its own key holds its value, or nothing. -/
lemma stored_applyClaim_self (now : ℕ) (s : CrawlState) {r : RelayedMessage} {key : StoreKey}
    {v : StoredValue} (h : r.subject = some (key, v)) :
    (applyClaim now s r).1.stored key = some v ∨ (applyClaim now s r).1.stored key = none := by
  cases r with
  | nodeHello nodeId roles listenAddrs =>
      simp only [RelayedMessage.subject, Option.some.injEq, Prod.mk.injEq] at h
      rcases h with ⟨rfl, rfl⟩
      refine Or.inl ?_
      rw [applyClaim, CrawlState.stored, CrawlState.insertNode, AList.lookup_insert]
      rfl
  | reachabilityProbe => simp [RelayedMessage.subject] at h
  | reachabilityReport fromId target protocol reachable rttMs observedAddr =>
      simp only [RelayedMessage.subject, Option.some.injEq, Prod.mk.injEq] at h
      rcases h with ⟨rfl, rfl⟩
      have hup := CrawlState.recordReport_upserted s ⟨fromId, target, protocol⟩
        ⟨reachable, rttMs, observedAddr, now⟩
      rw [applyClaim, CrawlState.stored]
      cases haccepted : (s.recordReport ⟨fromId, target, protocol⟩
          ⟨reachable, rttMs, observedAddr, now⟩).2 with
      | true => exact Or.inl (by rw [hup.stored haccepted]; rfl)
      | false => exact Or.inr (by rw [(hup.refused haccepted).2]; rfl)

/-- Every other key is as it was, or has lost its entry. -/
lemma stored_applyClaim_of_ne (now : ℕ) (s : CrawlState) {r : RelayedMessage} {key : StoreKey}
    (h : ¬ r.About key) :
    (applyClaim now s r).1.stored key = s.stored key ∨
      (applyClaim now s r).1.stored key = none := by
  cases r with
  | nodeHello nodeId roles listenAddrs =>
      refine Or.inl ?_
      cases key with
      | node x =>
          have hne : x ≠ nodeId := by
            rintro rfl
            exact h ⟨_, rfl⟩
          rw [applyClaim, CrawlState.stored, CrawlState.insertNode,
            HashMap.lookup_insert_of_ne hne, CrawlState.stored]
      | report k => rfl
  | reachabilityProbe => exact Or.inl rfl
  | reachabilityReport fromId target protocol reachable rttMs observedAddr =>
      have hup := CrawlState.recordReport_upserted s ⟨fromId, target, protocol⟩
        ⟨reachable, rttMs, observedAddr, now⟩
      cases key with
      | node x =>
          exact Or.inl (by rw [applyClaim, CrawlState.stored, CrawlState.stored, hup.nodes])
      | report k =>
          have hne : k ≠ ⟨fromId, target, protocol⟩ := by
            rintro rfl
            exact h ⟨_, rfl⟩
          rw [applyClaim, CrawlState.stored, CrawlState.stored]
          rcases hup.other k hne with hsame | ⟨hgone, -⟩
          · exact Or.inl (by rw [hsame])
          · exact Or.inr (by rw [hgone]; rfl)

/-! ## The program of a relayed message -/

/-- The update a relayed message makes. -/
def applyUpdate (r : RelayedMessage) : Env → CrawlState → CrawlState :=
  fun env s => (applyClaim env.now s r).1

lemma checked_repliesLast (check : Bool) (status : String) {passed : CrawlProg}
    (h : passed.RepliesLast) :
    (if !check then replyAck status .done else passed).RepliesLast := by
  cases check with
  | false => exact rfl
  | true => exact h

/-- Crawl answers a relayed message once, at the end. -/
lemma fromHeadArm_repliesLast (peer clientIdentity : Option String) (r : RelayedMessage) :
    (fromHeadArm peer clientIdentity r).RepliesLast := by
  intro env s
  refine checked_repliesLast _ _ ?_
  have hhandled :
      (handleWrappedMessage r (replyAck "head_message_received" .done)).RepliesLast := by
    cases r with
    | nodeHello => exact fun _ _ => rfl
    | reachabilityProbe => exact rfl
    | reachabilityReport => exact fun _ _ => rfl
  rw [relayedClaimArm]
  cases r.claimedNodeId with
  | none => exact hhandled
  | some claimed => exact checked_repliesLast _ _ hhandled

/-- Crawl applies a granted message once, before it answers. -/
lemma fromHeadArm_pending {relayPeers : Finset String} {peer clientIdentity : Option String}
    {source : String} {key : StoreKey} {r : RelayedMessage} (hr : r.About key)
    (hg : Grants relayPeers peer (.fromHead source clientIdentity r) r) :
    (fromHeadArm peer clientIdentity r).Pending (fun s => s.relayPeers = relayPeers)
      (applyUpdate r) := by
  rcases hr with ⟨v, hv⟩
  cases hg with
  | fromHead hrelay hclaim =>
      refine Or.inr ⟨rfl, ?_⟩
      intro env s hs
      have hclaimed := claimedNodeId_of_subject hv
      simp only [hs, hrelay, relayedClaimArm, hclaimed, hclaim _ hclaimed]
      cases r with
      | nodeHello => exact Or.inl ⟨rfl, fun _ _ => trivial⟩
      | reachabilityProbe => simp [RelayedMessage.subject] at hv
      | reachabilityReport => exact Or.inl ⟨rfl, fun _ _ => trivial⟩

end Radii
