import Radii.Crawl.Serial
import Radii.Mesh.Poll

/-!
# Where a dialed address comes from

Crawl with any number of peers, what it has written to them, and any number of Heads and Fetches
that poll it: every step of any of them, in any order, with answers that come late, in pieces or cut
off.

`said` stands for what Crawl was told by those entitled to say it, a node itself or a relay peer for
its own client, and for what Crawl's clock said then (`Spoken`).  Nothing else gets into Crawl's
tables (`Heard`), and nothing else or older into an answer (`Recent`, `Listed`) or into a route
(`RouteSaid`).

* `Told.step` — what every step of the mesh keeps.
* `mesh_routes_said` — every hop of every route is where its node said, in every run.
-/

namespace Radii

open Sync Collections Graphs Wire Decision

/-! ## What Crawl has heard -/

/-- In this step Crawl handles a frame, if any, whose claims are `said` as of its clock. -/
def Spoken (said : RelayedMessage → ℕ → Prop) (relayPeers : Finset String) (c : CrawlConfig)
    (e : CrawlEvent) : Prop :=
  ∀ i env conn m, e = .access i env → c.conns i = some conn → conn.frame = some m →
    ∀ r, Grants relayPeers conn.peer m r → said r env.now

/-- All that is stored was said, when it is stored to have been. -/
structure Heard (said : RelayedMessage → ℕ → Prop) (s : CrawlState) : Prop where
  nodes : ∀ id entry, s.nodes.lookup id = some entry →
    said (.nodeHello id entry.roles entry.listenAddrs) entry.lastSeenUnixMs
  reports : ∀ k entry, s.reachability.lookup k = some entry →
    said (.reachabilityReport k.fromId k.target k.protocol entry.reachable entry.rttMs
      entry.observedAddr) entry.lastSeenUnixMs

/-- Said within the ttl, as of some time. -/
def Recent (said : RelayedMessage → ℕ → Prop) (nodeTtlMs : Option ℕ) (now : ℕ)
    (r : RelayedMessage) : Prop :=
  ∃ heard, said r heard ∧ ∀ ttl, nodeTtlMs = some ttl → now ≤ heard + ttl

/-- All that a snapshot lists was said. -/
structure Listed (said : RelayedMessage → Prop) (nodes : List NodeInfo)
    (reports : List GraphReport) : Prop where
  nodes : ∀ node ∈ nodes, said (.nodeHello node.nodeId node.roles node.listenAddrs)
  reports : ∀ report ∈ reports, ∃ observed, said (.reachabilityReport report.fromId report.target
    report.protocol report.reachable report.rttMs observed)

/-- If it is a snapshot, all that it lists was said recently when it was taken, and `taken` holds of
that time. -/
def ListsRecent (said : RelayedMessage → ℕ → Prop) (nodeTtlMs : Option ℕ) (taken : ℕ → Prop)
    (reply : RadiiMessage) : Prop :=
  ∀ nodes reports, reply = .graphSnapshot nodes reports →
    ∃ now, taken now ∧ Listed (Recent said nodeTtlMs now) nodes reports

section Crawl

variable {said : RelayedMessage → ℕ → Prop} {relayPeers : Finset String} {nodeTtlMs : Option ℕ}
  {s : CrawlState} {now : ℕ} {taken : ℕ → Prop}

lemma heard_applyClaim (h : Heard said s) {r : RelayedMessage} (hr : said r now) :
    Heard said (applyClaim now s r).1 := by
  cases r with
  | nodeHello nodeId roles listenAddrs =>
      refine ⟨?_, h.reports⟩
      intro id entry hentry
      by_cases hid : id = nodeId
      · subst hid
        rw [applyClaim, CrawlState.insertNode, AList.lookup_insert, Option.some.injEq] at hentry
        exact hentry ▸ hr
      · rw [applyClaim, CrawlState.insertNode, HashMap.lookup_insert_of_ne hid] at hentry
        exact h.nodes id entry hentry
  | reachabilityProbe => exact h
  | reachabilityReport fromId target protocol reachable rttMs observedAddr =>
      have hup := CrawlState.recordReport_upserted s ⟨fromId, target, protocol⟩
        ⟨reachable, rttMs, observedAddr, now⟩
      refine ⟨?_, ?_⟩
      · intro id entry hentry
        rw [applyClaim, hup.nodes] at hentry
        exact h.nodes id entry hentry
      · intro k entry hentry
        rw [applyClaim] at hentry
        by_cases hk : k = ⟨fromId, target, protocol⟩
        · subst hk
          cases haccepted : (s.recordReport ⟨fromId, target, protocol⟩
              ⟨reachable, rttMs, observedAddr, now⟩).2 with
          | true =>
              rw [hup.stored haccepted, Option.some.injEq] at hentry
              exact hentry ▸ hr
          | false => simp [(hup.refused haccepted).2] at hentry
        · rcases hup.other k hk with hsame | ⟨hgone, -⟩
          · exact h.reports k entry (hsame ▸ hentry)
          · simp [hgone] at hentry

/-- Within the ttl of the state, as of a time. -/
lemma CrawlState.Fresh.le (httl : s.nodeTtlMs = nodeTtlMs) {lastSeen : ℕ}
    (h : s.Fresh now lastSeen) : ∀ ttl, nodeTtlMs = some ttl → now ≤ lastSeen + ttl := by
  intro ttl hsome
  have hage := h ttl (httl.trans hsome)
  omega

lemma listed_graphSnapshot (order : WalkOrder) (h : Heard said s) (httl : s.nodeTtlMs = nodeTtlMs) :
    Listed (Recent said nodeTtlMs now) (graphSnapshot order s now).1
      (graphSnapshot order s now).2.1 := by
  constructor
  · intro node hnode
    rcases (mem_liveNodes order).mp ((fill_sublist _ _ _).subset hnode) with
      ⟨entry, hentry, hfresh, haddrs, hroles⟩
    rw [haddrs, hroles]
    exact ⟨_, h.nodes _ entry hentry, hfresh.le httl⟩
  · intro report hreport
    rcases (mem_liveReports order).mp ((fill_sublist _ _ _).subset hreport) with
      ⟨entry, hentry, hfresh, -, -, hreachable, hrtt⟩
    rw [hreachable, hrtt]
    exact ⟨_, _, h.reports _ entry hentry, hfresh.le httl⟩

/-- What a task sees while it handles a frame: a state in which all was said, with Crawl's ttl, at a
time of which `taken` holds. -/
structure Seen (said : RelayedMessage → ℕ → Prop) (nodeTtlMs : Option ℕ) (taken : ℕ → Prop)
    (env : Env) (s : CrawlState) : Prop where
  heard : Heard said s
  ttl : s.nodeTtlMs = nodeTtlMs
  taken : taken env.now

end Crawl

/-! ## What Crawl answers -/

section Answers

variable {pre : Env → CrawlState → Prop} {out : RadiiMessage → Prop}

lemma replyAck_tells (hack : ∀ status, out (.ack status)) {status : String} {rest : CrawlProg}
    (hrest : rest.Tells pre out) : (replyAck status rest).Tells pre out :=
  ⟨hack status, hrest⟩

lemma checked_tells (hack : ∀ status, out (.ack status)) {check : Bool} {status : String}
    {passed : CrawlProg} (hpassed : passed.Tells pre out) :
    (if !check then replyAck status .done else passed).Tells pre out := by
  cases check with
  | false => exact replyAck_tells hack trivial
  | true => exact hpassed

lemma handleWrappedMessage_tells (hack : ∀ status, out (.ack status)) {r : RelayedMessage}
    {status : String} : (handleWrappedMessage r (replyAck status .done)).Tells pre out := by
  cases r with
  | nodeHello => exact fun _ _ _ => replyAck_tells hack trivial
  | reachabilityProbe => exact replyAck_tells hack trivial
  | reachabilityReport => exact fun _ _ _ => replyAck_tells hack trivial

/-- **What Crawl answers**, to whomever and to whatever frame, is an ack or what its state shows. -/
lemma handleConnection_tells (hack : ∀ status, out (.ack status))
    (hsnapshot : ∀ env s, pre env s → out (.graphSnapshot (graphSnapshot env.order s env.now).1
      (graphSnapshot env.order s env.now).2.1))
    (peer : Option String) (m : RadiiMessage) : (handleConnection peer m).Tells pre out := by
  cases m with
  | nodeHello =>
      refine checked_tells hack ?_
      exact fun _ _ _ => replyAck_tells hack trivial
  | reachabilityProbe => exact replyAck_tells hack trivial
  | reachabilityReport =>
      refine checked_tells hack ?_
      exact fun _ _ _ => checked_tells hack (replyAck_tells hack trivial)
  | fromHead source clientIdentity message =>
      intro env s hs
      refine checked_tells hack ?_
      rw [relayedClaimArm]
      cases message.claimedNodeId with
      | none => exact handleWrappedMessage_tells hack
      | some claimed => exact checked_tells hack (handleWrappedMessage_tells hack)
  | graphQuery => exact fun env s hs => ⟨hsnapshot env s hs, trivial⟩
  | graphSnapshot => trivial
  | ack => trivial
  | tunnelOpen => exact replyAck_tells hack trivial

end Answers

/-- When each frame was read, after this step. -/
def readAfter (clock : ℕ) (readAt : ℕ → ℕ) : CrawlEvent → ℕ → ℕ
  | .recv i _ => Function.update readAt i clock
  | _ => readAt

section Telling

variable {pre : ℕ → Env → CrawlState → Prop} {out : ℕ → RadiiMessage → Prop} {readAt : ℕ → ℕ}
  {clock : ℕ} {c c' : CrawlConfig} {e : CrawlEvent}

lemma readAfter_of_not_recv {j : ℕ} (h : ¬ ∃ m, e = .recv j m) :
    readAfter clock readAt e j = readAt j := by
  cases e with
  | recv i m =>
      rw [readAfter, Function.update_of_ne]
      rintro rfl
      exact h ⟨m, rfl⟩
  | _ => rfl

/-- Whatever a frame read at `t` is answered is one of `out t`, as long as all that is seen for it
satisfies `pre t`. -/
def CrawlTells (pre : ℕ → Env → CrawlState → Prop) (out : ℕ → RadiiMessage → Prop) (readAt : ℕ → ℕ)
    (c : CrawlConfig) : Prop :=
  ∀ i conn, c.conns i = some conn → conn.prog.Tells (pre (readAt i)) (out (readAt i))

lemma CrawlTells.step (hack : ∀ t status, out t (.ack status))
    (hsnapshot : ∀ t env s, pre t env s →
      out t (.graphSnapshot (graphSnapshot env.order s env.now).1
        (graphSnapshot env.order s env.now).2.1))
    (h : CrawlTells pre out readAt c)
    (hpre : ∀ i env, e = .access i env → pre (readAt i) env c.state) (hstep : Step crawl c e c') :
    CrawlTells pre out (readAfter clock readAt e) c' := by
  intro j conn hj
  by_cases hread : ∃ m, e = .recv j m
  · rcases hread with ⟨m, rfl⟩
    cases hstep with
    | recv hold hdone hreads =>
        rw [Config.put_conns_self, Option.some.injEq] at hj
        rw [← hj]
        exact handleConnection_tells (hack _) (hsnapshot _) _ _
  · rw [readAfter_of_not_recv hread]
    cases hstep.advances hj with
    | kept hold => exact h j conn hold
    | accepted hframe hprog =>
        rw [hprog]
        trivial
    | received hold hdone hnew => exact absurd ⟨_, rfl⟩ hread
    | @advanced _ old prog hold hnew hadvance =>
        rw [hnew]
        exact (h j old hold).advance (hpre j) hadvance

/-- What is seen written is what was to be told. -/
lemma CrawlTells.written (h : CrawlTells pre out readAt c) (hstep : Step crawl c e c') {i : ℕ}
    {reply : RadiiMessage} (hseen : .reply i reply ∈ c.seen e) : out (readAt i) reply := by
  cases hstep with
  | @drain j conn told rest hconn hprog =>
      rw [Config.seen_drain hconn hprog, List.mem_singleton] at hseen
      obtain ⟨rfl, rfl⟩ : i = j ∧ reply = told := by simpa using hseen
      have htells := h i conn hconn
      rw [hprog] at htells
      exact htells.1
  | _ => simp [Config.seen] at hseen

end Telling

section Crawl

variable {said : RelayedMessage → ℕ → Prop} {relayPeers : Finset String} {nodeTtlMs : Option ℕ}

/-- Crawl's part of the invariant.  A frame that was read at `readAt` is handled only at times of
which `handled` holds. -/
structure CrawlTold (said : RelayedMessage → ℕ → Prop) (nodeTtlMs : Option ℕ)
    (relayPeers : Finset String) (handled : ℕ → ℕ → Prop) (readAt : ℕ → ℕ) (c : CrawlConfig) :
    Prop where
  meets : c.Meets (CrawlState.Ok nodeTtlMs relayPeers) (Effect relayPeers) fun _ _ => Sendable
  heard : Heard said c.state
  tells : CrawlTells (fun t => Seen said nodeTtlMs (handled t))
    (fun t => ListsRecent said nodeTtlMs (handled t)) readAt c

variable {handled : ℕ → ℕ → Prop} {readAt : ℕ → ℕ} {clock : ℕ}

lemma crawlTold_initial :
    CrawlTold said nodeTtlMs relayPeers handled readAt (crawlInitial nodeTtlMs relayPeers) :=
  ⟨meets_initial ⟨stateBounds_initial nodeTtlMs relayPeers, rfl, rfl⟩,
    ⟨fun id entry h => by simp [crawlInitial, Config.initial, CrawlState.initial] at h,
      fun k entry h => by simp [crawlInitial, Config.initial, CrawlState.initial] at h⟩,
    fun i conn h => by simp [crawlInitial, Config.initial] at h⟩

lemma CrawlTold.step {c c' : CrawlConfig} {e : CrawlEvent}
    (h : CrawlTold said nodeTtlMs relayPeers handled readAt c)
    (hspoken : Spoken said relayPeers c e)
    (hhandled : ∀ i env, e = .access i env → handled (readAt i) env.now)
    (hstep : Step crawl c e c') :
    CrawlTold said nodeTtlMs relayPeers handled (readAfter clock readAt e) c' := by
  refine ⟨Config.Meets.step (fun _ _ hm => arm_spec hm) hstep h.meets, ?_, ?_⟩
  · rcases Config.Meets.effect hstep h.meets with
      hsame | ⟨i, env, conn, m, he, hconn, hframe, hsame | ⟨r, hgrants, hstate⟩⟩
    · exact hsame ▸ h.heard
    · exact hsame ▸ h.heard
    · rw [hstate]
      exact heard_applyClaim h.heard (hspoken i env conn m he hconn hframe r hgrants)
  · refine h.tells.step (fun t status nodes reports heq => by simp at heq) ?_ ?_ hstep
    · rintro t env s hs nodes reports ⟨rfl, rfl⟩
      exact ⟨env.now, hs.taken, listed_graphSnapshot env.order hs.heard hs.ttl⟩
    · exact fun i env he => ⟨h.heard, h.meets.state.ttl, hhandled i env he⟩

/-- What is seen written in a step can be read. -/
lemma sendable_of_seen {c c' : CrawlConfig} {e : CrawlEvent}
    (h : c.Meets (CrawlState.Ok nodeTtlMs relayPeers) (Effect relayPeers) fun _ _ => Sendable)
    (hstep : Step crawl c e c') {i : ℕ} {out : RadiiMessage} (hseen : .reply i out ∈ c.seen e) :
    Sendable out := by
  cases hstep with
  | @drain j conn reply rest hconn hprog =>
      rw [Config.seen_drain hconn hprog, List.mem_singleton] at hseen
      obtain ⟨rfl, rfl⟩ : i = j ∧ out = reply := by simpa using hseen
      cases hframe : conn.frame with
      | none =>
          have hdone := h.idle i conn hconn hframe
          rw [hprog] at hdone
          simp at hdone
      | some m =>
          have hspec := h.busy i conn m hconn hframe
          rw [hprog] at hspec
          exact hspec.1
  | _ => simp [Config.seen] at hseen

end Crawl

/-! ## What is routed from -/

/-- The links and the addresses were said. -/
structure GraphSaid (said : RelayedMessage → Prop) (snapshot : GraphSnapshot)
    (listenAddrs : ListenAddrs) : Prop where
  links : ∀ link ∈ snapshot.links, ∃ observed, said (.reachabilityReport link.fromId link.toId
    link.protocol link.reachable link.latencyMs observed)
  addrs : ∀ nodeId advertised, listenAddrs.lookup nodeId = some advertised → ∃ roles entries,
    said (.nodeHello nodeId roles entries) ∧
      advertised = entries.map fun entry => (entry.addr, entry.role)

/-- The node has said that it can be dialed there. -/
def AddrSaid (said : RelayedMessage → Prop) (hop : ResolvedHop) : Prop :=
  ∃ roles entries, said (.nodeHello hop.nodeId roles entries) ∧ ⟨hop.addr, relayRole⟩ ∈ entries

/-- The first has said that it reaches the second, in a way the planner may use. -/
def LinkSaid (said : RelayedMessage → Prop) (allowed : List ProtocolId) (u v : NodeId) : Prop :=
  ∃ protocol rtt observed, said (.reachabilityReport u v protocol true rtt observed) ∧
    (allowed = [] ∨ protocol ∈ allowed)

/-- Every hop is at an address that the node itself gave, and every link on the way from the source
is one its own beginning reported. -/
structure RouteSaid (said : RelayedMessage → Prop) (source : NodeId) (allowed : List ProtocolId)
    (route : ResolvedRoute) : Prop where
  addrs : ∀ hop ∈ route.hops, AddrSaid said hop
  links : (source :: route.nodeSequence).IsChain (LinkSaid said allowed)

lemma RouteSaid.imp {said said' : RelayedMessage → Prop} {source : NodeId}
    {allowed : List ProtocolId} {route : ResolvedRoute} (himp : ∀ r, said r → said' r)
    (h : RouteSaid said source allowed route) : RouteSaid said' source allowed route := by
  constructor
  · intro hop hmem
    rcases h.addrs hop hmem with ⟨roles, entries, hsaid, hentry⟩
    exact ⟨roles, entries, himp _ hsaid, hentry⟩
  · refine h.links.imp ?_
    rintro u v ⟨protocol, rtt, observed, hsaid, hallowed⟩
    exact ⟨protocol, rtt, observed, himp _ hsaid, hallowed⟩

section Routes

variable {said : RelayedMessage → Prop} {snapshot : GraphSnapshot} {listenAddrs : ListenAddrs}

lemma graphSaid_of_listed {nodes : List NodeInfo} {reports : List GraphReport}
    (h : Listed said nodes reports) :
    GraphSaid said (buildSnapshot reports) (buildRegistry nodes) := by
  constructor
  · intro link hlink
    rcases links_buildSnapshot hlink with ⟨report, hreport, rfl⟩
    exact h.reports report hreport
  · intro nodeId advertised hlookup
    rcases lookup_buildRegistry hlookup with ⟨node, hnode, rfl, hadvertised⟩
    exact ⟨node.roles, node.listenAddrs, h.nodes node hnode, hadvertised⟩

lemma addrSaid_of_advertised (h : GraphSaid said snapshot listenAddrs) {hop : ResolvedHop}
    (hfirst : FirstAdvertised listenAddrs hop.nodeId relayRole hop.addr) : AddrSaid said hop := by
  rcases hfirst with ⟨before, after, hlookup, -⟩
  rcases h.addrs _ _ hlookup with ⟨roles, entries, hsaid, hadvertised⟩
  have hmem : (hop.addr, relayRole) ∈ entries.map fun entry => (entry.addr, entry.role) := by
    rw [← hadvertised]
    simp
  rcases List.mem_map.mp hmem with ⟨⟨addr, role⟩, hentry, heq⟩
  simp only [Prod.mk.injEq] at heq
  rw [heq.1, heq.2] at hentry
  exact ⟨roles, entries, hsaid, hentry⟩

/-- **What is resolved was said.** -/
lemma routeSaid_of_resolved (orders : ℕ → ℕ → ℕ → IterOrder NodeId (Cell Arc ℕ)) {q : Query}
    (h : GraphSaid said q.snapshot q.listenAddrs) (hhop : q.hopRole = some relayRole)
    (htarget : q.targetRole = relayRole) {route : ResolvedRoute}
    (hroute : route ∈ resolveCandidates orders q) :
    RouteSaid said q.source q.allowedProtocols route := by
  obtain ⟨target, -, p, halong, -, -⟩ := route_real hroute
  constructor
  · intro hop hmem
    rcases halong.last with ⟨last, hlast, hnode, hfirst⟩
    rw [← List.dropLast_append_getLast? last hlast, List.mem_append, List.mem_singleton] at hmem
    rcases hmem with hmem | rfl
    · rcases halong.between hop hmem with ⟨role, hrole, hfirst⟩
      rw [hhop, Option.some.injEq] at hrole
      subst hrole
      exact addrSaid_of_advertised h hfirst
    · rw [← hnode, htarget] at hfirst
      exact addrSaid_of_advertised h hfirst
  · have hjoined : p.IsChain _ := halong.path.joined
    rw [halong.every relayRole hhop] at hjoined
    refine hjoined.imp ?_
    rintro u v ⟨⟨_, link⟩, ⟨hlink, ⟨hreachable, hallowed⟩, hfrom⟩, rfl, rfl⟩
    rcases h.links link hlink with ⟨observed, hsaid⟩
    rw [hreachable, hfrom] at hsaid
    exact ⟨link.protocol, link.latencyMs, observed, hsaid, hallowed⟩

end Routes

namespace Mesh

/-! ## The whole -/

/-- Crawl, all it has written, and what each Head and each Fetch has. -/
structure System where
  /-- In nanoseconds. -/
  clock : ℕ
  crawl : CrawlConfig
  /-- When each connection's last frame was read. -/
  readAt : ℕ → ℕ
  /-- What Crawl wrote, each with when the frame it answers was read. -/
  written : List (ℕ × RadiiMessage)
  heads : ℕ → PolledGraph
  fetches : ℕ → List ResolvedRoute

def initial (nodeTtlMs : Option ℕ) (relayPeers : Finset String) : System :=
  ⟨0, crawlInitial nodeTtlMs relayPeers, fun _ => 0, [], fun _ => .default, fun _ => []⟩

inductive Event where
  | pass (now : ℕ)
  /-- Crawl or one of its peers does something. -/
  | crawl (e : CrawlEvent)
  /-- A turn of Head `k`, which had asked at `asked`. -/
  | head (k : ℕ) (p : Poll) (asked : ℕ)
  | fetch (k : ℕ) (orders : ℕ → ℕ → ℕ → IterOrder NodeId (Cell Arc ℕ)) (p : Poll) (asked : ℕ)

/-- The replies among what is seen. -/
def replied (readAt : ℕ → ℕ) (seen : CrawlHistory) : List (ℕ × RadiiMessage) :=
  seen.filterMap fun
    | .reply i out => some (readAt i, out)
    | _ => none

/-- What comes back to a poller is what Crawl wrote in answer to a frame that it read after the
poller asked, so far as it has come. -/
def ComesFrom (written : List (ℕ × RadiiMessage)) (asked : ℕ) (p : Poll) : Prop :=
  ∀ cs, p.answer = some cs → ∃ readAt reply, (readAt, reply) ∈ written ∧ asked ≤ readAt ∧
    ∃ coming tail, cs.flatten ++ coming = frame reply ++ tail

/-- One step of anybody. -/
inductive Step (configs : ℕ → PlanConfig) (m : System) : Event → System → Prop where
  | pass {now : ℕ} (hlater : m.clock ≤ now) : Step configs m (.pass now) { m with clock := now }
  | crawl {e : CrawlEvent} {c' : CrawlConfig} (hstep : Sync.Step Radii.crawl m.crawl e c') :
      Step configs m (.crawl e) { m with
        crawl := c'
        readAt := readAfter m.clock m.readAt e
        written := m.written ++ replied m.readAt (m.crawl.seen e) }
  | head {k : ℕ} {p : Poll} {asked : ℕ} (hlanded : p.landed = m.clock)
      (hcomes : ComesFrom m.written asked p) :
      Step configs m (.head k p asked) { m with
        heads := Function.update m.heads k (refresh (m.heads k) p) }
  | fetch {k : ℕ} {orders : ℕ → ℕ → ℕ → IterOrder NodeId (Cell Arc ℕ)} {p : Poll} {asked : ℕ}
      (hlanded : p.landed = m.clock) (hcomes : ComesFrom m.written asked p) :
      Step configs m (.fetch k orders p asked) { m with
        fetches := Function.update m.fetches k
          (refreshRoutes orders (configs k) (m.fetches k) p) }

/-- A run of the mesh, in which every event is `ok` where it happens. -/
def Run (configs : ℕ → PlanConfig) (ok : System → Event → Prop) : System → System → Prop :=
  Relation.ReflTransGen fun m m' => ∃ e, ok m e ∧ Mesh.Step configs m e m'

/-- Crawl is told only what is `said`. -/
def Speaks (said : RelayedMessage → ℕ → Prop) (relayPeers : Finset String) (m : System) :
    Event → Prop
  | .crawl e => Spoken said relayPeers m.crawl e
  | _ => True

/-- What Crawl reads at one time it handles at one of which `handled` holds, and what Head asks at
one time lands at one of which `took` holds. -/
def Timed (handled took : ℕ → ℕ → Prop) (m : System) : Event → Prop
  | .crawl e => ∀ i env, e = .access i env → handled (m.readAt i) env.now
  | .head _ p asked => took asked p.landed
  | _ => True

/-- Crawl's clock, in milliseconds, is right. -/
def RightClock (m : System) : Event → Prop
  | .crawl e => ∀ i env, e = .access i env → env.now = m.clock / 1000000
  | _ => True

/-- No poll of a Head takes longer than `bound`. -/
def Prompt (bound : ℕ) : Event → Prop
  | .head _ p asked => p.landed ≤ asked + bound
  | _ => True

/-- Head has no graph yet, or one of what had been said recently when Crawl answered it last. -/
def HeadTold (said : RelayedMessage → ℕ → Prop) (nodeTtlMs : Option ℕ)
    (handled took : ℕ → ℕ → Prop) (s : PolledGraph) : Prop :=
  s = .default ∨ ∃ asked readAt now landed, s.lastRefresh = some landed ∧ took asked landed ∧
    asked ≤ readAt ∧ handled readAt now ∧
      GraphSaid (Recent said nodeTtlMs now) s.graph.snapshot s.graph.listenAddrs

/-- What holds of the mesh at all times. -/
structure Told (said : RelayedMessage → ℕ → Prop) (nodeTtlMs : Option ℕ)
    (relayPeers : Finset String) (handled took : ℕ → ℕ → Prop) (configs : ℕ → PlanConfig)
    (m : System) : Prop where
  crawl : CrawlTold said nodeTtlMs relayPeers handled m.readAt m.crawl
  written : ∀ readAt reply, (readAt, reply) ∈ m.written →
    Sendable reply ∧ ListsRecent said nodeTtlMs (handled readAt) reply
  heads : ∀ k, HeadTold said nodeTtlMs handled took (m.heads k)
  fetches : ∀ k, ∀ route ∈ m.fetches k, ∃ now,
    RouteSaid (Recent said nodeTtlMs now) (configs k).source (configs k).allowedProtocols route

section Run

variable {said : RelayedMessage → ℕ → Prop} {nodeTtlMs : Option ℕ} {relayPeers : Finset String}
  {handled took : ℕ → ℕ → Prop} {configs : ℕ → PlanConfig} {ok ok' : System → Event → Prop}

lemma Run.imp {m m' : System} (hok : ∀ m e, ok m e → ok' m e) (hrun : Run configs ok m m') :
    Run configs ok' m m' :=
  Relation.ReflTransGen.mono (fun m _ ⟨e, he, hstep⟩ => ⟨e, hok m e he, hstep⟩) _ _ hrun

/-- What a poller makes of an answer was said recently when Crawl answered. -/
lemma graphSaid_of_fetched {written : List (ℕ × RadiiMessage)}
    (h : ∀ readAt reply, (readAt, reply) ∈ written →
      Sendable reply ∧ ListsRecent said nodeTtlMs (handled readAt) reply) {asked : ℕ} {p : Poll}
    (hcomes : ComesFrom written asked p) {x : GraphSnapshot × ListenAddrs}
    (hfetched : fetchOnce p = some x) : ∃ readAt now, asked ≤ readAt ∧ handled readAt now ∧
      GraphSaid (Recent said nodeTtlMs now) x.1 x.2 := by
  cases hanswer : p.answer with
  | none => simp [fetchOnce, hanswer] at hfetched
  | some cs =>
      rcases hcomes cs hanswer with ⟨readAt, reply, hreply, hasked, coming, tail, hcs⟩
      rw [fetchOnce, hanswer, Option.map_some, queryGraphOn] at hfetched
      cases hread : readMessage cs with
      | error e => simp [hread] at hfetched
      | ok read =>
          rcases read with ⟨m, rest⟩
          rcases h readAt reply hreply with ⟨hsendable, hlists⟩
          obtain rfl := readMessage_of_frame hsendable hcs hread
          cases m with
          | graphSnapshot nodes reports =>
              simp only [hread, Option.some.injEq] at hfetched
              rcases hlists nodes reports rfl with ⟨now, hhandled, hlisted⟩
              rw [← hfetched]
              exact ⟨readAt, now, hasked, hhandled, graphSaid_of_listed hlisted⟩
          | _ => simp [hread] at hfetched

lemma told_initial :
    Told said nodeTtlMs relayPeers handled took configs (initial nodeTtlMs relayPeers) :=
  ⟨crawlTold_initial, by simp [initial], fun k => Or.inl rfl, by simp [initial]⟩

/-- **One step** of anybody keeps it. -/
theorem Told.step {m m' : System} {e : Event}
    (h : Told said nodeTtlMs relayPeers handled took configs m)
    (hspeaks : Speaks said relayPeers m e) (htimed : Timed handled took m e)
    (hstep : Mesh.Step configs m e m') :
    Told said nodeTtlMs relayPeers handled took configs m' := by
  cases hstep with
  | pass hlater => exact ⟨h.crawl, h.written, h.heads, h.fetches⟩
  | crawl hstep =>
      refine ⟨h.crawl.step hspeaks htimed hstep, ?_, h.heads, h.fetches⟩
      intro readAt reply hreply
      rcases List.mem_append.mp hreply with hold | hnew
      · exact h.written readAt reply hold
      · rcases List.mem_filterMap.mp hnew with ⟨v, hv, hout⟩
        cases v with
        | reply i out =>
            simp only [Option.some.injEq, Prod.mk.injEq] at hout
            rcases hout with ⟨rfl, rfl⟩
            exact ⟨sendable_of_seen h.crawl.meets hstep hv, h.crawl.tells.written hstep hv⟩
        | _ => simp at hout
  | @head k p asked hlanded hcomes =>
      refine ⟨h.crawl, h.written, ?_, h.fetches⟩
      intro j
      by_cases hj : j = k
      · subst hj
        simp only [Function.update_self]
        cases hfetched : fetchOnce p with
        | none =>
            rw [refresh_of_failed hfetched]
            exact h.heads j
        | some x =>
            rw [refresh_of_answered hfetched]
            rcases graphSaid_of_fetched h.written hcomes hfetched with
              ⟨readAt, now, hasked, hhandled, hsaid⟩
            exact Or.inr ⟨asked, readAt, now, p.landed, rfl, htimed, hasked, hhandled, hsaid⟩
      · simp only [Function.update_of_ne hj]
        exact h.heads j
  | @fetch k orders p asked hlanded hcomes =>
      refine ⟨h.crawl, h.written, h.heads, ?_⟩
      intro j
      by_cases hj : j = k
      · subst hj
        simp only [Function.update_self, refreshRoutes]
        cases hfetched : fetchOnce p with
        | none => exact h.fetches j
        | some x =>
            rcases graphSaid_of_fetched h.written hcomes hfetched with
              ⟨readAt, now, -, -, hsaid⟩
            exact fun route hroute => ⟨now, routeSaid_of_resolved orders hsaid rfl rfl hroute⟩
      · simp only [Function.update_of_ne hj]
        exact h.fetches j

lemma told_of_run {m : System}
    (hrun : Run configs (fun m e => Speaks said relayPeers m e ∧ Timed handled took m e)
      (initial nodeTtlMs relayPeers) m) :
    Told said nodeTtlMs relayPeers handled took configs m := by
  induction hrun with
  | refl => exact told_initial
  | tail _ hlast ih =>
      rcases hlast with ⟨e, ⟨hspeaks, htimed⟩, hstep⟩
      exact ih.step hspeaks htimed hstep

/-- Nothing is planned without a graph. -/
lemma not_mem_planned_default (orders : ℕ → ℕ → ℕ → IterOrder NodeId (Cell Arc ℕ))
    {source : NodeId} {targets : List NodeId} {allowed : List ProtocolId} {maxHops limit : ℕ}
    {route : ResolvedRoute} : route ∉ resolveCandidates orders
      ⟨PolledGraph.default.graph.snapshot, PolledGraph.default.graph.listenAddrs, source, targets,
        allowed, maxHops, limit, some relayRole, relayRole⟩ := by
  intro hroute
  have hnone : GraphSaid (fun _ => False) PolledGraph.default.graph.snapshot
      PolledGraph.default.graph.listenAddrs :=
    ⟨fun link h => absurd h List.not_mem_nil, fun nodeId advertised h => by
      simp [PolledGraph.default] at h⟩
  have hsaid := routeSaid_of_resolved orders hnone rfl rfl hroute
  rcases List.exists_mem_of_ne_nil _ route.nonempty with ⟨hop, hhop⟩
  rcases hsaid.addrs hop hhop with ⟨-, -, hfalse, -⟩
  exact hfalse

/-- What Head plans was said recently when Crawl answered it last. -/
lemma HeadTold.planned {s : PolledGraph} (h : HeadTold said nodeTtlMs handled took s)
    {orders : ℕ → ℕ → ℕ → IterOrder NodeId (Cell Arc ℕ)} {poisoned : Bool} {source : NodeId}
    {targets : List NodeId} {allowed : List ProtocolId} {maxHops limit : ℕ} {route : ResolvedRoute}
    (hroute : route ∈ planBackends orders ⟨s.graph, poisoned⟩ source targets allowed maxHops
      limit) :
    ∃ asked readAt now landed, s.lastRefresh = some landed ∧ took asked landed ∧ asked ≤ readAt ∧
      handled readAt now ∧ RouteSaid (Recent said nodeTtlMs now) source allowed route := by
  rw [planBackends, SharedGraphState.read] at hroute
  cases poisoned with
  | true => simp at hroute
  | false =>
      rcases h with rfl | ⟨asked, readAt, now, landed, hlast, htook, hasked, hhandled, hsaid⟩
      · exact absurd hroute (not_mem_planned_default _)
      · exact ⟨asked, readAt, now, landed, hlast, htook, hasked, hhandled,
          routeSaid_of_resolved orders hsaid rfl rfl hroute⟩

end Run

/-- **Nobody is dialed where they did not say.**  In every run of the mesh, every hop of every route
that a Fetch holds, or that a Head plans to any targets, is at a relay address from a hello of the
very node the hop names, and every link from the source on was reported, as reachable, by the node
it leads from: each in a frame that Crawl handled for somebody entitled to speak for that node. -/
theorem mesh_routes_said {said : RelayedMessage → Prop} {nodeTtlMs : Option ℕ}
    {relayPeers : Finset String} {configs : ℕ → PlanConfig} {m : System}
    (hrun : Run configs (Speaks (fun r _ => said r) relayPeers) (initial nodeTtlMs relayPeers) m)
    (k : ℕ) :
    (∀ route ∈ m.fetches k,
      RouteSaid said (configs k).source (configs k).allowedProtocols route) ∧
    ∀ orders poisoned source targets allowed maxHops limit,
      ∀ route ∈ planBackends orders ⟨(m.heads k).graph, poisoned⟩ source targets allowed maxHops
        limit, RouteSaid said source allowed route := by
  have h : Told (fun r _ => said r) nodeTtlMs relayPeers (fun _ _ => True) (fun _ _ => True) configs
      m := told_of_run (hrun.imp fun m e hspeaks => ⟨hspeaks, by cases e <;> simp [Timed]⟩)
  constructor
  · intro route hroute
    rcases h.fetches k route hroute with ⟨now, hsaid⟩
    exact hsaid.imp fun r ⟨_, hr, _⟩ => hr
  · intro orders poisoned source targets allowed maxHops limit route hroute
    rcases (h.heads k).planned hroute with ⟨-, -, now, -, -, -, -, -, hsaid⟩
    exact hsaid.imp fun r ⟨_, hr, _⟩ => hr

def toldHello : RadiiMessage := .nodeHello "t" ["relay"] [⟨"10.0.0.3:9000", "relay"⟩]

def toldReport : RadiiMessage := .reachabilityReport "s" "t" "radii" true (some 10) none

/-- What the two claim, when both are read at once. -/
def toldSaid (r : RelayedMessage) (heard : ℕ) : Prop :=
  heard = 0 ∧ (toldHello.claim = some r ∨ toldReport.claim = some r)

def toldRoute : ResolvedRoute := ⟨[⟨"t", "10.0.0.3:9000"⟩], 20, by decide⟩

/-- What Crawl answers after both. -/
def toldSnapshot : RadiiMessage :=
  .graphSnapshot [⟨"t", [⟨"10.0.0.3:9000", "relay"⟩], ["relay"]⟩]
    [⟨"s", "t", "radii", true, some 10⟩]

/-- The mesh gets there at once, with a Crawl that is told both and a Fetch on its way to `"t"`. -/
def ToldRun (m : System) : Prop :=
  Run (fun _ => ⟨"s", ["t"], [], 4, 4⟩)
    (fun m e => Speaks toldSaid ∅ m e ∧ RightClock m e ∧ Prompt 0 e) (initial (some 5) ∅) m

/-- An idle connection asks, and has Crawl to itself. -/
lemma exists_queried (configs : ℕ → PlanConfig) (ok : System → Event → Prop) {m : System}
    {peer : Option String} {old : Option RadiiMessage}
    (hconn : m.crawl.conns 0 = some ⟨peer, old, .done⟩) (hlock : m.crawl.lock = .free) (env : Env)
    (hok : ∀ (m' : System) (e : CrawlEvent), m'.crawl.state = m.crawl.state → m'.clock = m.clock →
      (∀ i env', e = .access i env' → env' = env ∧
        ∀ conn, m'.crawl.conns i = some conn → conn.frame = some .graphQuery) →
      ok m' (.crawl e)) :
    ∃ m', Run configs ok m m' ∧ m'.clock = m.clock ∧ m'.heads = m.heads ∧
      m'.fetches = m.fetches ∧
      (m.clock, .graphSnapshot (graphSnapshot env.order m.crawl.state env.now).1
        (graphSnapshot env.order m.crawl.state env.now).2.1) ∈ m'.written := by
  have hquery : Radii.crawl.Reads .graphQuery := ⟨[frame .graphQuery], [[]], by decide⟩
  have idle : ∀ {m' : System} {e : CrawlEvent} {c' : CrawlConfig}, Run configs ok m m' →
      m'.crawl.state = m.crawl.state → m'.clock = m.clock → (∀ i env', e ≠ .access i env') →
      Sync.Step Radii.crawl m'.crawl e c' → Run configs ok m { m' with
        crawl := c'
        readAt := readAfter m'.clock m'.readAt e
        written := m'.written ++ replied m'.readAt (m'.crawl.seen e) } := by
    intro m' e c' hrun hstate hclock he hstep
    exact hrun.tail ⟨.crawl e, hok m' e hstate hclock fun i env' haccess =>
      absurd haccess (he i env'), .crawl hstep⟩
  have h1 := idle .refl rfl rfl (by simp) (.recv _ hconn rfl hquery)
  have h2 := idle h1 rfl rfl (by simp) (.request (Config.put_conns_self _ _ _) rfl
    (by simp [Config.put, hlock, RwLock.free]))
  have hqueue : (m.crawl.lock.request 0 .read).queue = (0, .read) :: [] := by
    rw [hlock]
    rfl
  have hholders : (m.crawl.lock.request 0 .read).holders = [] := by
    rw [hlock]
    rfl
  have h3 := idle h2 rfl rfl (by simp) (.grant (Config.put_conns_self _ _ _) rfl hqueue
    (RwLock.admits_of_holders_nil hholders _))
  have h4 := h3.tail ⟨.crawl (.access 0 env), hok _ _ rfl rfl (by
    rintro _ _ ⟨rfl, rfl⟩
    refine ⟨rfl, fun conn hconn => ?_⟩
    rw [Config.put_conns_self, Option.some.injEq] at hconn
    rw [← hconn]
    rfl), .crawl (.access env (Config.put_conns_self _ _ _) rfl)⟩
  have h5 := idle h4 rfl rfl (by simp) (.release (Config.put_conns_self _ _ _) rfl)
  have h6 := idle h5 rfl rfl (by simp) (.drain (Config.put_conns_self _ _ _) rfl)
  exact ⟨_, h6, rfl, rfl, rfl, List.mem_append_right _ List.mem_cons_self⟩

section ToldRun

variable {m : System} {c' : CrawlConfig}

lemma ToldRun.idle {e : CrawlEvent} (h : ToldRun m) (he : ∀ i env, e ≠ .access i env)
    (hstep : Sync.Step Radii.crawl m.crawl e c') : ToldRun { m with
      crawl := c'
      readAt := readAfter m.clock m.readAt e
      written := m.written ++ replied m.readAt (m.crawl.seen e) } :=
  h.tail ⟨.crawl e, ⟨fun i env _ _ haccess => absurd haccess (he i env),
    fun i env haccess => absurd haccess (he i env), trivial⟩, .crawl hstep⟩

lemma ToldRun.access (h : ToldRun m) (hclock : m.clock = 0)
    {conn : Conn (Option String) RadiiMessage CrawlState Env RadiiMessage} {frame : RadiiMessage}
    (hconn : m.crawl.conns 0 = some conn) (hframe : conn.frame = some frame)
    (hone : frame = toldHello ∨ frame = toldReport)
    (hstep : Sync.Step Radii.crawl m.crawl (.access 0 ⟨0, .default⟩) c') : ToldRun { m with
      crawl := c'
      readAt := m.readAt
      written := m.written ++ [] } := by
  refine h.tail ⟨.crawl (.access 0 ⟨0, .default⟩), ⟨?_, ?_, trivial⟩, .crawl hstep⟩
  · rintro _ _ conn' frame' ⟨rfl, rfl⟩ hconn' hframe' r hgrants
    rw [hconn, Option.some.injEq] at hconn'
    subst hconn'
    rw [hframe, Option.some.injEq] at hframe'
    subst hframe'
    have hclaim := claim_of_grants hgrants
    rcases hone with rfl | rfl
    · exact ⟨rfl, Or.inl hclaim⟩
    · exact ⟨rfl, Or.inr hclaim⟩
  · rintro _ _ ⟨rfl, rfl⟩
    rw [hclock]

/-- Crawl is told both. -/
lemma exists_told : ∃ m : System, ToldRun m ∧ m.clock = 0 ∧ m.crawl.lock = .free ∧
    m.crawl.conns 0 = some ⟨none, some toldReport, .done⟩ ∧
    m.crawl.state = (applyClaim 0 (applyClaim 0 (.initial (some 5) ∅)
      (.nodeHello "t" ["relay"] [⟨"10.0.0.3:9000", "relay"⟩])).1
      (.reachabilityReport "s" "t" "radii" true (some 10) none)).1 := by
  have hhello : Radii.crawl.Reads toldHello := ⟨[frame toldHello], [[]], by decide⟩
  have hreport : Radii.crawl.Reads toldReport := ⟨[frame toldReport], [[]], by decide⟩
  have h0 := ToldRun.idle .refl (by simp) (.accept (i := 0) none rfl)
  -- the hello
  have h1 := h0.idle (by simp) (.recv _ (Config.put_conns_self _ _ _) rfl hhello)
  have h2 := h1.idle (by simp) (.request (Config.put_conns_self _ _ _) rfl
    (by simp [initial, crawlInitial, Config.initial, RwLock.free]))
  have h3 := h2.idle (by simp) (.grant (Config.put_conns_self _ _ _) rfl rfl rfl)
  have h4 := h3.access rfl (Config.put_conns_self _ _ _) rfl (Or.inl rfl)
    (.access _ (Config.put_conns_self _ _ _) rfl)
  have h5 := h4.idle (by simp) (.drain (Config.put_conns_self _ _ _) rfl)
  have h6 := h5.idle (by simp) (.release (Config.put_conns_self _ _ _) rfl)
  -- the report
  have h7 := h6.idle (by simp) (.recv _ (Config.put_conns_self _ _ _) rfl hreport)
  have h8 := h7.idle (by simp) (.request (Config.put_conns_self _ _ _) rfl
    (by simp [initial, crawlInitial, Config.initial, RwLock.free, RwLock.request, RwLock.enter,
      RwLock.release]))
  have h9 := h8.idle (by simp) (.grant (Config.put_conns_self _ _ _) rfl rfl rfl)
  have h10 := h9.access rfl (Config.put_conns_self _ _ _) rfl (Or.inr rfl)
    (.access _ (Config.put_conns_self _ _ _) rfl)
  have h11 := h10.idle (by simp) (.release (Config.put_conns_self _ _ _) rfl)
  have h12 := h11.idle (by simp) (.drain (Config.put_conns_self _ _ _) rfl)
  exact ⟨_, h12, rfl, rfl, Config.put_conns_self _ _ _, rfl⟩

/-- Then Head polls. -/
lemma exists_toldRun : ∃ m : System, ToldRun m ∧ m.clock = 0 ∧ (m.heads 0).lastRefresh = some 0 ∧
    toldRoute ∈ planBackends (fun _ _ _ => .default) ⟨(m.heads 0).graph, false⟩ "s" ["t"] [] 4
      4 := by
  obtain ⟨m, hrun, hclock, hlock, hconn, hstate⟩ := exists_told
  obtain ⟨m', hrun', hclock', -, -, hwritten⟩ := exists_queried
    (fun _ => ⟨"s", ["t"], [], 4, 4⟩)
    (fun m e => Speaks toldSaid ∅ m e ∧ RightClock m e ∧ Prompt 0 e) hconn hlock ⟨0, .default⟩
    (by
      intro m' e _ hclock' haccess
      refine ⟨?_, ?_, trivial⟩
      · intro i env conn frame he hconn hframe r hgrants
        rw [(haccess i env he).2 conn hconn, Option.some.injEq] at hframe
        have hclaim := claim_of_grants hgrants
        rw [← hframe] at hclaim
        simp [RadiiMessage.claim] at hclaim
      · intro i env he
        rw [(haccess i env he).1, hclock', hclock])
  rw [hclock, hstate] at hwritten
  refine ⟨_, (Relation.ReflTransGen.trans hrun hrun').tail
    ⟨.head 0 ⟨0, some [frame toldSnapshot]⟩ 0, ⟨trivial, trivial, le_refl 0⟩,
    .head (hclock'.trans hclock).symm ?_⟩, hclock'.trans hclock, ?_, ?_⟩
  · rintro cs ⟨rfl⟩
    exact ⟨0, toldSnapshot, hwritten, le_refl 0, [], [], rfl⟩
  · simp only [Function.update_self]
    rw [refresh_of_answered rfl]
  · simp only [Function.update_self]
    rw [refresh_of_answered rfl]
    decide

end ToldRun

/-- The route that Head then has. -/
theorem mesh_routes_said_told : ∃ m : System,
    Run (fun _ => ⟨"s", ["t"], [], 4, 4⟩)
      (Speaks (fun r _ => toldHello.claim = some r ∨ toldReport.claim = some r) ∅)
      (initial (some 5) ∅) m ∧
    toldRoute ∈ planBackends (fun _ _ _ => .default) ⟨(m.heads 0).graph, false⟩ "s" ["t"] [] 4 4 ∧
    RouteSaid (fun r => toldHello.claim = some r ∨ toldReport.claim = some r) "s" [] toldRoute := by
  obtain ⟨m, hrun, -, -, hroute⟩ := exists_toldRun
  have hsaid : Run (fun _ => ⟨"s", ["t"], [], 4, 4⟩)
      (Speaks (fun r _ => toldHello.claim = some r ∨ toldReport.claim = some r) ∅)
      (initial (some 5) ∅) m := by
    refine hrun.imp ?_
    rintro m e ⟨hspeaks, -⟩
    cases e with
    | crawl e =>
        intro i env conn frame haccess hconn hframe r hgrants
        exact (hspeaks i env conn frame haccess hconn hframe r hgrants).2
    | _ => trivial
  exact ⟨m, hsaid, hroute, (mesh_routes_said hsaid 0).2 _ _ _ _ _ _ _ _ hroute⟩

end Mesh

end Radii
