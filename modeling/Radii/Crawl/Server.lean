import Radii.Crawl.Snapshot
import Radii.Foundations.LockDiscipline

/-!
# Crawl's connections

`handle_connection` of `crates/crawl/src/server.rs`, arm by arm, as programs over the shared
`CrawlState`: where each takes the lock, what it reads or changes, where it gives the lock back and
what it writes to its peer.  `crawl` is the server these programs make, with any number of
connections in any order; the frames it can receive are those `read_message` returns.

`arm_spec` says what one frame can make Crawl do, and every result on whole runs follows from it:
here, that the reply to a query always fits a frame and is accepted (`graphQuery_answerable`).
-/

namespace Radii

open Sync Collections

/-! ## The programs -/

/-- What one access to the state sees besides it: the clock, and the order of a walk. -/
structure Env where
  now : ℕ
  order : WalkOrder

instance : Inhabited Env := ⟨⟨0, WalkOrder.default⟩⟩

abbrev CrawlProg := Prog CrawlState Env RadiiMessage

/-- Writes an acknowledgement. -/
def replyAck (status : String) (rest : CrawlProg) : CrawlProg := .reply (.ack status) rest

/-- Applies a claim under the write lock. -/
def applying (r : RelayedMessage) (rest : Bool → CrawlProg) : CrawlProg :=
  .lock .write (.access (fun env s => (applyClaim env.now s r).1)
    fun env s => rest (applyClaim env.now s r).2)

/-- `NodeHello`.  The guard is the arm's local `state`; it is still in scope at the reply. -/
def nodeHelloArm (peer : Option String) (nodeId : String) (roles : List String)
    (listenAddrs : List ListenAddr) : CrawlProg :=
  if !authorized peer nodeId then replyAck "unauthorized_node_id" .done
  else applying (.nodeHello nodeId roles listenAddrs) fun _ =>
    replyAck "hello_received" (.unlock .done)

/-- `ReachabilityReport`.  The guard is dropped before either reply. -/
def reachabilityReportArm (peer : Option String) (fromId target protocol : String)
    (reachable : Bool) (rttMs : Option UInt32) (observedAddr : Option String) : CrawlProg :=
  if !authorized peer fromId then replyAck "unauthorized_node_id" .done
  else applying (.reachabilityReport fromId target protocol reachable rttMs observedAddr)
    fun accepted => .unlock
      (if !accepted then replyAck "reachability_table_full" .done
      else replyAck "report_received" .done)

/-- `handle_wrapped_message`: applies a relayed message that has been authorized. -/
def handleWrappedMessage (message : RelayedMessage) (rest : CrawlProg) : CrawlProg :=
  match message with
  | .nodeHello nodeId roles listenAddrs =>
      applying (.nodeHello nodeId roles listenAddrs) fun _ => .unlock rest
  | .reachabilityProbe _ _ _ => rest
  | .reachabilityReport fromId target protocol reachable rttMs observedAddr =>
      applying (.reachabilityReport fromId target protocol reachable rttMs observedAddr)
        fun _ => .unlock rest

/-- What `FromHead` does once the relay check has been made and its guard dropped. -/
def relayedClaimArm (peer clientIdentity : Option String) (message : RelayedMessage) :
    CrawlProg :=
  let handled := handleWrappedMessage message (replyAck "head_message_received" .done)
  match message.claimedNodeId with
  | some claimed =>
      if !authorizedRelayedClaim peer clientIdentity claimed then
        replyAck "unauthorized_node_id" .done
      else handled
  | none => handled

/-- `FromHead`. -/
def fromHeadArm (peer clientIdentity : Option String) (message : RelayedMessage) : CrawlProg :=
  .lock .read (.access (fun _ s => s) fun _ s => .unlock
    (if !authorizedRelayPeer peer s.relayPeers then replyAck "unauthorized_relay_peer" .done
    else relayedClaimArm peer clientIdentity message))

/-- `GraphQuery`. -/
def graphQueryArm : CrawlProg :=
  .lock .read (.access (fun _ s => s) fun env s => .unlock
    (.reply (.graphSnapshot (graphSnapshot env.order s env.now).1
      (graphSnapshot env.order s env.now).2.1) .done))

/-- `handle_connection`: what is done with one frame. -/
def handleConnection (peer : Option String) : RadiiMessage → CrawlProg
  | .nodeHello nodeId roles listenAddrs => nodeHelloArm peer nodeId roles listenAddrs
  | .reachabilityProbe _ _ _ => replyAck "probe_received" .done
  | .reachabilityReport fromId target protocol reachable rttMs observedAddr =>
      reachabilityReportArm peer fromId target protocol reachable rttMs observedAddr
  | .fromHead _ clientIdentity message => fromHeadArm peer clientIdentity message
  | .graphQuery => graphQueryArm
  | .graphSnapshot _ _ => .done
  | .ack _ => .done
  | .tunnelOpen _ => replyAck "unsupported_message" .done

/-- **Crawl.**  A connection delivers whatever `read_message` accepts. -/
def crawl : Server (Option String) RadiiMessage CrawlState Env RadiiMessage where
  handle := handleConnection
  Reads m := ∃ cs rest, readMessage cs = .ok (m, rest)

abbrev CrawlConfig := Config (Option String) RadiiMessage CrawlState Env RadiiMessage

abbrev CrawlEvent := Event (Option String) RadiiMessage Env

/-- Crawl as it starts: empty tables, no connections. -/
def crawlInitial (nodeTtlMs : Option ℕ) (relayPeers : Finset String) : CrawlConfig :=
  Config.initial (CrawlState.initial nodeTtlMs relayPeers)

/-! ## What one frame can do -/

/-- The claim `r` that Crawl applies for a frame `m` of `peer`. -/
inductive Grants (relayPeers : Finset String) (peer : Option String) :
    RadiiMessage → RelayedMessage → Prop where
  | nodeHello {nodeId roles listenAddrs} (hauth : authorized peer nodeId = true) :
      Grants relayPeers peer (.nodeHello nodeId roles listenAddrs)
        (.nodeHello nodeId roles listenAddrs)
  | reachabilityReport {fromId target protocol reachable rttMs observedAddr}
      (hauth : authorized peer fromId = true) :
      Grants relayPeers peer
        (.reachabilityReport fromId target protocol reachable rttMs observedAddr)
        (.reachabilityReport fromId target protocol reachable rttMs observedAddr)
  | fromHead {source clientIdentity message}
      (hrelay : authorizedRelayPeer peer relayPeers = true)
      (hclaim : ∀ claimed, message.claimedNodeId = some claimed →
        authorizedRelayedClaim peer clientIdentity claimed = true) :
      Grants relayPeers peer (.fromHead source clientIdentity message) message

/-- What never changes about the state, and the bounds it stays within. -/
structure CrawlState.Ok (nodeTtlMs : Option ℕ) (relayPeers : Finset String) (s : CrawlState) :
    Prop where
  bounds : StateBounds s
  ttl : s.nodeTtlMs = nodeTtlMs
  relays : s.relayPeers = relayPeers

/-- One access leaves the state alone or applies a claim the frame is entitled to. -/
def Effect (relayPeers : Finset String) (peer : Option String) (m : RadiiMessage) (env : Env)
    (s s' : CrawlState) : Prop :=
  s' = s ∨ ∃ r, Grants relayPeers peer m r ∧ s' = (applyClaim env.now s r).1

section Spec

variable {nodeTtlMs : Option ℕ} {relayPeers : Finset String} {peer : Option String}
  {m : RadiiMessage}

lemma replyAck_spec {pre : CrawlState → Prop} {act : Env → CrawlState → CrawlState → Prop}
    {status : String} (h : status.utf8ByteSize ≤ 256) {rest : CrawlProg}
    (hrest : rest.Spec pre act Sendable) : (replyAck status rest).Spec pre act Sendable :=
  ⟨sendable_ack h, hrest⟩

/-- A check, the refusal it makes and what follows when it passes. -/
lemma checked_spec {pre : CrawlState → Prop} {act : Env → CrawlState → CrawlState → Prop}
    {check : Bool} {status : String} (h : status.utf8ByteSize ≤ 256) {passed : CrawlProg}
    (hpassed : check = true → passed.Spec pre act Sendable) :
    (if !check then replyAck status .done else passed).Spec pre act Sendable := by
  cases check with
  | false => exact replyAck_spec h trivial
  | true => exact hpassed rfl

/-- Applying a granted claim within the bounds. -/
lemma applying_spec {r : RelayedMessage} (hr : validateRelayed r = .ok ())
    (hg : Grants relayPeers peer m r) {rest : Bool → CrawlProg}
    (hrest : ∀ accepted, (rest accepted).Spec (CrawlState.Ok nodeTtlMs relayPeers)
      (Effect relayPeers peer m) Sendable) :
    (applying r rest).Spec (CrawlState.Ok nodeTtlMs relayPeers) (Effect relayPeers peer m)
      Sendable := by
  rintro env s ⟨hbounds, httl, hrelays⟩
  exact ⟨⟨stateBounds_applyClaim hbounds hr, by rw [applyClaim_nodeTtlMs, httl],
    by rw [applyClaim_relayPeers, hrelays]⟩, Or.inr ⟨r, hg, rfl⟩, hrest _⟩

/-- Reading the state. -/
lemma reading_spec {rest : Env → CrawlState → CrawlProg}
    (hrest : ∀ env s, CrawlState.Ok nodeTtlMs relayPeers s →
      (rest env s).Spec (CrawlState.Ok nodeTtlMs relayPeers) (Effect relayPeers peer m)
        Sendable) :
    (Prog.lock .read (.access (fun _ s => s) rest)).Spec (CrawlState.Ok nodeTtlMs relayPeers)
      (Effect relayPeers peer m) Sendable := by
  intro env s hs
  exact ⟨hs, Or.inl rfl, hrest env s hs⟩

lemma handleWrappedMessage_spec {r : RelayedMessage} (hr : validateRelayed r = .ok ())
    (hg : Grants relayPeers peer m r) {rest : CrawlProg}
    (hrest : rest.Spec (CrawlState.Ok nodeTtlMs relayPeers) (Effect relayPeers peer m) Sendable) :
    (handleWrappedMessage r rest).Spec (CrawlState.Ok nodeTtlMs relayPeers)
      (Effect relayPeers peer m) Sendable := by
  cases r with
  | nodeHello nodeId roles listenAddrs => exact applying_spec hr hg fun _ => hrest
  | reachabilityProbe => exact hrest
  | reachabilityReport fromId target protocol reachable rttMs observedAddr =>
      exact applying_spec hr hg fun _ => hrest

lemma relayedClaimArm_spec {source : String} {clientIdentity : Option String}
    {r : RelayedMessage} (hr : validateRelayed r = .ok ())
    (hrelay : authorizedRelayPeer peer relayPeers = true) :
    (relayedClaimArm peer clientIdentity r).Spec (CrawlState.Ok nodeTtlMs relayPeers)
      (Effect relayPeers peer (.fromHead source clientIdentity r)) Sendable := by
  have hack : (replyAck "head_message_received" .done).Spec
      (CrawlState.Ok nodeTtlMs relayPeers)
      (Effect relayPeers peer (.fromHead source clientIdentity r)) Sendable :=
    replyAck_spec (by decide) trivial
  rw [relayedClaimArm]
  cases hclaimed : r.claimedNodeId with
  | none => exact handleWrappedMessage_spec hr (.fromHead hrelay (by simp [hclaimed])) hack
  | some claimed =>
      refine checked_spec (by decide) ?_
      intro hauth
      refine handleWrappedMessage_spec hr (.fromHead hrelay ?_) hack
      intro other hother
      rw [hclaimed, Option.some.injEq] at hother
      rw [← hother, hauth]

/-- **What one frame can make Crawl do**: change the state as `Grants` says, and write replies
that fit and are accepted. -/
theorem arm_spec (hm : crawl.Reads m) :
    (handleConnection peer m).Spec (CrawlState.Ok nodeTtlMs relayPeers)
      (Effect relayPeers peer m) Sendable := by
  rcases hm with ⟨cs, rest, hread⟩
  have hv : validateMessage m = .ok () := (fits_of_readMessage hread).1.2
  cases m with
  | nodeHello nodeId roles listenAddrs =>
      refine checked_spec (by decide) ?_
      intro hauth
      exact applying_spec (r := .nodeHello nodeId roles listenAddrs) hv (.nodeHello hauth) fun _ =>
        replyAck_spec (by decide) (by trivial)
  | reachabilityProbe => exact replyAck_spec (by decide) (by trivial)
  | reachabilityReport fromId target protocol reachable rttMs observedAddr =>
      refine checked_spec (by decide) ?_
      intro hauth
      refine applying_spec (r := .reachabilityReport fromId target protocol reachable rttMs
        observedAddr) hv (.reachabilityReport hauth) ?_
      intro accepted
      exact checked_spec (by decide) fun _ => replyAck_spec (by decide) (by trivial)
  | fromHead source clientIdentity message =>
      simp only [validateMessage, andThen_eq_ok] at hv
      refine reading_spec ?_
      intro env s hs
      refine checked_spec (by decide) ?_
      intro hrelay
      exact relayedClaimArm_spec hv.2.2 (hs.relays ▸ hrelay)
  | graphQuery =>
      exact reading_spec fun env s hs =>
        ⟨⟨snapshot_encode_le _ _ hs.bounds, snapshot_readable hs.bounds⟩, trivial⟩
  | graphSnapshot => trivial
  | ack => trivial
  | tunnelOpen => exact replyAck_spec (by decide) (by trivial)

end Spec

/-! ## Whole runs -/

/-- Crawl's invariant, in every run. -/
lemma crawl_meets {nodeTtlMs : Option ℕ} {relayPeers : Finset String}
    {ok : CrawlConfig → CrawlEvent → Prop} {c : CrawlConfig}
    (hrun : Run crawl ok (crawlInitial nodeTtlMs relayPeers) c) :
    c.Meets (CrawlState.Ok nodeTtlMs relayPeers) (Effect relayPeers) fun _ _ => Sendable :=
  hrun.meets (fun _ _ hm => arm_spec hm) ⟨stateBounds_initial nodeTtlMs relayPeers, rfl, rfl⟩

/-- **A query is always answerable.**  Whatever frames Crawl has handled, on whatever connections
and in whatever order, the snapshot it would answer with at any time fits a frame; and a poller
reads that frame as exactly the snapshot. -/
theorem graphQuery_answerable {nodeTtlMs : Option ℕ} {relayPeers : Finset String}
    {c : CrawlConfig} (hreach : Reachable crawl (crawlInitial nodeTtlMs relayPeers) c)
    (order : WalkOrder) (now : ℕ) :
    ∃ stream,
      (encodeMessage (.graphSnapshot (graphSnapshot order c.state now).1
        (graphSnapshot order c.state now).2.1)).length ≤ maxFrameLen ∧
      writeMessage [] (.graphSnapshot (graphSnapshot order c.state now).1
        (graphSnapshot order c.state now).2.1) = .ok stream ∧
      ∀ (cs : Wire.Chunks) (tail : Wire.Bytes), cs.flatten = stream ++ tail →
        ∃ rest, readMessage cs = .ok (.graphSnapshot (graphSnapshot order c.state now).1
          (graphSnapshot order c.state now).2.1, rest) ∧ rest.flatten = tail := by
  have hbounds := (crawl_meets hreach).state.bounds
  have hfit := snapshot_encode_le order now hbounds
  refine ⟨_, hfit, writeMessage_eq_ok [] hfit, ?_⟩
  intro cs tail hcs
  exact readMessage_frame (snapshot_readable hbounds) hfit (by rw [hcs, List.nil_append])

/-- After a plaintext hello has been handled. -/
theorem graphQuery_answerable_hello : ∃ c : CrawlConfig,
    c.state.nodes.lookup "n" = some ⟨[⟨"a:1", "relay"⟩], ["head"], 7⟩ ∧
    ∃ stream, writeMessage [] (.graphSnapshot (graphSnapshot WalkOrder.default c.state 9).1
      (graphSnapshot WalkOrder.default c.state 9).2.1) = .ok stream := by
  have hreads : crawl.Reads (.nodeHello "n" ["head"] [⟨"a:1", "relay"⟩]) :=
    ⟨[frame (.nodeHello "n" ["head"] [⟨"a:1", "relay"⟩])], [[]], by decide⟩
  obtain ⟨c, hrun, -, -, hconn, -⟩ := enters (S := crawl) (fun _ _ => True)
    (crawlInitial (some 5) ∅) 0 none (fun _ _ _ => trivial) rfl rfl hreads rfl
  have hrun' : Reachable crawl (crawlInitial (some 5) ∅) _ :=
    hrun.tail ⟨_, trivial, .access ⟨7, WalkOrder.default⟩ hconn rfl⟩
  obtain ⟨stream, -, hwrite, -⟩ := graphQuery_answerable hrun' WalkOrder.default 9
  exact ⟨_, AList.lookup_insert _, stream, hwrite⟩

end Radii
