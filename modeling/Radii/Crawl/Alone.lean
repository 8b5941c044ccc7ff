import Radii.Crawl.Server
import Radii.Foundations.Alone

/-!
# Crawl serving one peer

What one frame leaves of Crawl's state when nobody else is served meanwhile (`Prog.exec`).

* `direct_exec` — a hello, a probe or a report sent directly.
* `fromHead_exec` — the same in an envelope.
-/

namespace Radii

open Sync

/-- Whether the claim of a message, if it makes one, is its sender's own. -/
def ownClaim (peer : Option String) (r : RelayedMessage) : Bool :=
  match r.claimedNodeId with
  | some claimed => authorized peer claimed
  | none => true

section Exec

variable {peer clientIdentity : Option String} {env : Env} {s : CrawlState} {r : RelayedMessage}

lemma handleWrappedMessage_exec {rest : CrawlProg} (hrest : ∀ s, rest.exec env s = s) :
    (handleWrappedMessage r rest).exec env s = (applyClaim env.now s r).1 := by
  cases r with
  | nodeHello => exact hrest _
  | reachabilityProbe => exact hrest s
  | reachabilityReport => exact hrest _

/-- **Sent directly**, a message is applied if it claims nothing but its sender's own. -/
lemma direct_exec {m : RadiiMessage} (hm : RelayedMessage.tryFrom m = .ok r) :
    (handleConnection peer m).exec env s =
      if ownClaim peer r then (applyClaim env.now s r).1 else s := by
  cases m with
  | nodeHello nodeId roles listenAddrs =>
      rw [RelayedMessage.tryFrom, Except.ok.injEq] at hm
      subst hm
      have hown : ownClaim peer (.nodeHello nodeId roles listenAddrs) =
          authorized peer nodeId := rfl
      rw [handleConnection, nodeHelloArm, hown]
      cases authorized peer nodeId with
      | false => rfl
      | true => rfl
  | reachabilityProbe fromId toId sentAt =>
      rw [RelayedMessage.tryFrom, Except.ok.injEq] at hm
      subst hm
      rfl
  | reachabilityReport fromId target protocol reachable rttMs observedAddr =>
      rw [RelayedMessage.tryFrom, Except.ok.injEq] at hm
      subst hm
      have hown : ownClaim peer (.reachabilityReport fromId target protocol reachable rttMs
        observedAddr) = authorized peer fromId := rfl
      rw [handleConnection, reachabilityReportArm, hown]
      cases authorized peer fromId with
      | false => rfl
      | true =>
          -- whether it was accepted only changes the reply
          have hreply : ∀ accepted t, Prog.exec env (if (!accepted) = true then
              replyAck "reachability_table_full" .done else replyAck "report_received" .done :
              CrawlProg) t = t := by
            intro accepted t
            cases accepted <;> rfl
          exact hreply _ _
  | _ => simp [RelayedMessage.tryFrom] at hm

/-- **Sent in an envelope**, it is applied if the peer may relay and the claim is the client's. -/
lemma fromHead_exec {source : String} :
    (handleConnection peer (.fromHead source clientIdentity r)).exec env s =
      if authorizedRelayPeer peer s.relayPeers = true ∧ (∀ claimed, r.claimedNodeId = some claimed →
        authorizedRelayedClaim peer clientIdentity claimed = true) then
        (applyClaim env.now s r).1 else s := by
  have hhandled : (handleWrappedMessage r (replyAck "head_message_received" .done)).exec env s =
      (applyClaim env.now s r).1 := handleWrappedMessage_exec fun _ => rfl
  rw [handleConnection, fromHeadArm]
  show Prog.exec env (if (!authorizedRelayPeer peer s.relayPeers) = true then
    replyAck "unauthorized_relay_peer" .done else relayedClaimArm peer clientIdentity r) s = _
  cases hrelay : authorizedRelayPeer peer s.relayPeers with
  | false => simp [replyAck, Prog.exec]
  | true =>
      rw [relayedClaimArm]
      cases hclaimed : r.claimedNodeId with
      | none => simpa using hhandled
      | some claimed =>
          cases hclaim : authorizedRelayedClaim peer clientIdentity claimed with
          | false => simp [hclaim, replyAck, Prog.exec]
          | true => simpa [hclaim] using hhandled

/-- What a Head refuses changes nothing, unless it is an envelope. -/
lemma refused_exec {m refused : RadiiMessage} (hm : RelayedMessage.tryFrom m = .error refused)
    (hflat : ∀ source identity message, m ≠ .fromHead source identity message) :
    (handleConnection peer m).exec env s = s := by
  cases m with
  | fromHead source identity message => exact absurd rfl (hflat source identity message)
  | graphQuery => rfl
  | graphSnapshot => rfl
  | ack => rfl
  | tunnelOpen => rfl
  | _ => simp [RelayedMessage.tryFrom] at hm

end Exec

end Radii
