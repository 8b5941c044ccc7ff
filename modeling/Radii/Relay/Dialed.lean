import Radii.Relay.Handshake
import Radii.Routing.Best

/-!
# What is planned can be dialed

`fetch_once` and `plan_from` of `crates/fetch/src/graph.rs` (and `plan_backends` of
`crates/head/src/graph.rs`, which does the same) plan over a snapshot and a registry made of one
`GraphSnapshot` reply; `establish` of `crates/fetch/src/chain.rs` puts a route in one `TunnelOpen`.
The bounds of the reply are carried through both, and a planned path visits no node twice:

* `hops_within` — what the hops of a route are, with their bounds.
* `planned_chain_accepted` — the frame passes the wire, and each relay's own checks.
-/

namespace Radii

open Collections Graphs Wire

/-! ## From a reply to a plan -/

/-- The link a report is about. -/
def GraphReport.link (report : GraphReport) : Link :=
  ⟨report.fromId, report.target, report.protocol, report.reachable, report.rttMs⟩

/-- The loop of `fetch_once` over the reports; what `add_link` drops is only counted. -/
def buildSnapshot (reports : List GraphReport) : GraphSnapshot :=
  reports.foldl (fun snapshot report => (snapshot.addLink report.link).1) .new

/-- The registry `fetch_once` collects; a later entry for a node replaces an earlier one. -/
def buildRegistry (nodes : List NodeInfo) : ListenAddrs :=
  nodes.foldl (fun registry node =>
    registry.insert node.nodeId (node.listenAddrs.map fun entry => (entry.addr, entry.role))) ∅

/-- The hop list `establish` sends for a route. -/
def ResolvedRoute.routeHops (route : ResolvedRoute) : List RouteHop :=
  route.hops.map fun hop => ⟨hop.nodeId, hop.addr⟩

lemma links_buildSnapshot {reports : List GraphReport} {link : Link}
    (h : link ∈ (buildSnapshot reports).links) : ∃ report ∈ reports, report.link = link := by
  induction reports using List.reverseRecOn with
  | nil => exact absurd h List.not_mem_nil
  | append_singleton reports report ih =>
      rw [buildSnapshot, List.foldl_append, List.foldl_cons, List.foldl_nil, ← buildSnapshot] at h
      rcases GraphSnapshot.mem_links_addLink h with h | rfl
      · rcases ih h with ⟨earlier, hearlier, heq⟩
        exact ⟨earlier, List.mem_append_left _ hearlier, heq⟩
      · exact ⟨report, by simp, rfl⟩

lemma lookup_buildRegistry {nodes : List NodeInfo} {nodeId : NodeId}
    {advertised : List (String × RoleId)}
    (h : (buildRegistry nodes).lookup nodeId = some advertised) :
    ∃ node ∈ nodes, node.nodeId = nodeId ∧
      advertised = node.listenAddrs.map fun entry => (entry.addr, entry.role) := by
  induction nodes using List.reverseRecOn with
  | nil => simp [buildRegistry] at h
  | append_singleton nodes node ih =>
      rw [buildRegistry, List.foldl_append, List.foldl_cons, List.foldl_nil, ← buildRegistry] at h
      by_cases heq : nodeId = node.nodeId
      · subst heq
        rw [AList.lookup_insert, Option.some.injEq] at h
        exact ⟨node, by simp, rfl, h.symm⟩
      · rw [HashMap.lookup_insert_of_ne heq] at h
        rcases ih h with ⟨earlier, hearlier, hspec⟩
        exact ⟨earlier, List.mem_append_left _ hearlier, hspec⟩

/-! ## The bounds of a reply -/

/-- The bounds on what a planner reads. -/
structure WithinBounds (snapshot : GraphSnapshot) (listenAddrs : ListenAddrs) : Prop where
  target_le : ∀ link ∈ snapshot.links, ValidNodeId link.toId
  addr_le : ∀ nodeId advertised, listenAddrs.lookup nodeId = some advertised →
    ∀ entry ∈ advertised, entry.1.utf8ByteSize ≤ maxListenAddrLen

/-- What the reader checked of a reply holds of what is built from it. -/
lemma withinBounds_of_readable {nodes : List NodeInfo} {reports : List GraphReport}
    (h : Readable (.graphSnapshot nodes reports)) :
    WithinBounds (buildSnapshot reports) (buildRegistry nodes) := by
  have hchecked := h.2
  simp only [validateMessage, andThen_eq_ok, forAll_eq_ok, validateHello_eq_ok,
    validateReport_eq_ok] at hchecked
  rcases hchecked with ⟨hnodes, hreports⟩
  constructor
  · intro link hlink
    rcases links_buildSnapshot hlink with ⟨report, hreport, rfl⟩
    exact (hreports report hreport).target_le
  · intro nodeId advertised hlookup entry hentry
    rcases lookup_buildRegistry hlookup with ⟨node, hnode, -, rfl⟩
    rcases List.mem_map.mp hentry with ⟨listen, hlisten, rfl⟩
    exact ((hnodes node hnode).addr_le listen hlisten).1

lemma addr_mem {listenAddrs : ListenAddrs} {node : NodeId} {role : RoleId} {addr : String}
    (h : addrForRole listenAddrs node role = some addr) :
    ∃ advertised, listenAddrs.lookup node = some advertised ∧ (addr, role) ∈ advertised := by
  rw [addrForRole, Option.bind_eq_some_iff] at h
  rcases h with ⟨advertised, hlookup, hfind⟩
  rw [Option.map_eq_some_iff] at hfind
  rcases hfind with ⟨⟨found, foundRole⟩, hfound, rfl⟩
  have hrole : foundRole = role := by simpa using List.find?_some hfound
  exact ⟨advertised, hlookup, hrole ▸ List.mem_of_find?_eq_some hfound⟩

/-! ## The hops of a route -/

/-- Hops that the wire and every relay on the way accept. -/
structure HopsWithin (hops : List RouteHop) : Prop where
  nonempty : hops ≠ []
  length_le : hops.length ≤ maxTunnelHops
  nodeId_le : ∀ hop ∈ hops, ValidNodeId hop.nodeId
  addr_le : ∀ hop ∈ hops, hop.addr.utf8ByteSize ≤ maxListenAddrLen
  nodup : (hops.map RouteHop.nodeId).Nodup

lemma resolves_of_mem {listenAddrs : ListenAddrs} {hops : List ResolvedHop}
    {xs : List (NodeId × RoleId)} (h : List.Forall₂ (Resolves listenAddrs) hops xs)
    {hop : ResolvedHop} (hhop : hop ∈ hops) : ∃ x ∈ xs, Resolves listenAddrs hop x := by
  induction h with
  | nil => exact absurd hhop List.not_mem_nil
  | @cons first x hops xs hresolves _ ih =>
      rcases List.mem_cons.mp hhop with rfl | hhop
      · exact ⟨x, List.mem_cons_self, hresolves⟩
      · rcases ih hhop with ⟨y, hy, hresolves⟩
        exact ⟨y, List.mem_cons_of_mem _ hy, hresolves⟩

/-- **The hops of a resolved route**: the nodes of a simple path after its source, each under an
address the registry has for it. -/
theorem hops_within (orders : ℕ → ℕ → ℕ → IterOrder NodeId (Cell Arc ℕ)) (q : Query) {role : RoleId}
    (hbounds : WithinBounds q.snapshot q.listenAddrs) (hrole : q.hopRole = some role)
    {route : ResolvedRoute} (h : route ∈ resolveCandidates orders q) :
    HopsWithin route.routeHops := by
  obtain ⟨i, target, -, candidate, hcandidate, hroute⟩ :=
    mem_resolved.mp ((selected_resolveCandidates orders q).mem route h)
  have hpath : CostGraph.IsPath _ _ _ _ candidate.hops :=
    (plan_top (fun link => Nat.zero_le (defaultLinkCost link)) (orders i) q.snapshot
      ⟨q.source, target, q.allowedProtocols, q.maxHops⟩ q.limit).1.mem candidate.hops
      (List.mem_map_of_mem hcandidate)
  rcases resolveCandidate_spec q candidate with ⟨found, hfound, hall, -⟩ | ⟨hnone, -⟩
  · rw [hroute, Option.some.injEq] at hfound
    subst hfound
    have hids : route.routeHops.map RouteHop.nodeId = candidate.hops.tail := by
      have hnodes := (advertises_of_resolves hall).1
      rw [Query.required_of_some hrole] at hnodes
      rw [← hnodes, ResolvedRoute.routeHops, List.map_map]
      rfl
    have hlength : route.routeHops.length ≤ candidate.hops.length - 1 := by
      rw [← List.length_map RouteHop.nodeId, hids, List.length_tail]
    refine ⟨?_, ?_, ?_, ?_, ?_⟩
    · rw [ResolvedRoute.routeHops, ne_eq, List.map_eq_nil_iff]
      exact route.nonempty
    · have hceiling : candidate.hops.length ≤ maxTunnelHops + 1 :=
        hpath.length.trans (Nat.add_le_add_right (min_le_right _ _) 1)
      omega
    · -- a node after the source is one that a reported link goes to
      intro hop hhop
      have hmem : hop.nodeId ∈ candidate.hops.tail := hids ▸ List.mem_map_of_mem hhop
      obtain ⟨rest, hrest⟩ := List.head?_eq_some_iff.mp hpath.head
      have hchain := hpath.joined
      rw [hrest] at hchain hmem
      rcases CostGraph.exists_joined hchain hmem with ⟨_, ⟨_, link⟩, hlink, -, hto⟩
      have hto : link.toId = hop.nodeId := hto
      rw [← hto]
      exact hbounds.target_le link hlink.1
    · intro hop hhop
      rcases List.mem_map.mp hhop with ⟨dialed, hdialed, rfl⟩
      rcases resolves_of_mem hall hdialed with ⟨x, -, -, haddr⟩
      rcases addr_mem haddr with ⟨advertised, hlookup, hentry⟩
      exact hbounds.addr_le x.1 advertised hlookup _ hentry
    · rw [hids]
      exact hpath.nodup.sublist (List.tail_sublist _)
  · rw [hroute] at hnone
    exact absurd hnone (by simp)

/-! ## What the wire and the relays make of them -/

namespace HopsWithin

variable {hops : List RouteHop}

lemma sendable (h : HopsWithin hops) : Sendable (.tunnelOpen hops) := by
  rw [sendable_tunnelOpen]
  refine ⟨validateHopCount_tunnelOpen.mpr
    ⟨Nat.one_le_iff_ne_zero.mpr (by simpa using h.nonempty), h.length_le⟩, ?_⟩
  simp only [validateMessage, forAll_eq_ok, andThen_eq_ok, validateNodeId, bounded_eq_ok]
  exact fun hop hhop => ⟨h.nodeId_le hop hhop, h.addr_le hop hhop⟩

/-- What is left of the list at each relay passes that relay's checks. -/
lemma validate_drop (h : HopsWithin hops) {i : ℕ} {hop : RouteHop} (hi : hops[i]? = some hop)
    {config : RelayConfig} (hnode : config.nodeId = hop.nodeId)
    (hmax : (hops.drop i).length ≤ config.maxHops) : validate (hops.drop i) config = .ok () := by
  have hhead : (hops.drop i).head? = some hop := by rw [List.head?_drop, hi]
  have hnodup : ((hops.drop i).map RouteHop.nodeId).Nodup :=
    h.nodup.sublist ((List.drop_sublist i hops).map _)
  rw [validate, if_neg (not_lt.mpr hmax), hhead]
  simp only [hnode, ne_eq, not_true_eq_false, if_false, hnodup, not_true_eq_false]

end HopsWithin

/-- **A planned chain is accepted.**  The `TunnelOpen` of a route planned over a reply can be
written and read back, and no relay on it refuses what is left of it as misaddressed, looping or
too long, if it allows so many hops. -/
theorem planned_chain_accepted {reply rest : Chunks} {nodes : List NodeInfo}
    {reports : List GraphReport}
    (hread : readMessage reply = .ok (.graphSnapshot nodes reports, rest))
    (orders : ℕ → ℕ → ℕ → IterOrder NodeId (Cell Arc ℕ)) (source : NodeId) (targets : List NodeId)
    (allowedProtocols : List ProtocolId) (maxHops limit : ℕ) (hopRole targetRole : RoleId)
    {route : ResolvedRoute} (hroute : route ∈ resolveCandidates orders
      ⟨buildSnapshot reports, buildRegistry nodes, source, targets, allowedProtocols, maxHops, limit,
        some hopRole, targetRole⟩) :
    (1 ≤ route.routeHops.length ∧ route.routeHops.length ≤ maxTunnelHops) ∧
    (∀ sink : Bytes, ∃ written, writeMessage sink (.tunnelOpen route.routeHops) =
        .ok (sink ++ written) ∧
      ∀ (cs : Chunks) (tail : Bytes), cs.flatten = written ++ tail →
        ∃ left, readMessage cs = .ok (.tunnelOpen route.routeHops, left) ∧ left.flatten = tail) ∧
    ∀ (i : ℕ) (hop : RouteHop), route.routeHops[i]? = some hop →
      ∀ config : RelayConfig, config.nodeId = hop.nodeId →
        (route.routeHops.drop i).length ≤ config.maxHops →
          validate (route.routeHops.drop i) config = .ok () := by
  have hbounds := withinBounds_of_readable (fits_of_readMessage hread).1
  have hwithin := hops_within orders _ hbounds rfl hroute
  rcases hwithin.sendable with ⟨hfit, hreadable⟩
  refine ⟨validateHopCount_tunnelOpen.mp hreadable.1, ?_, ?_⟩
  · intro sink
    exact ⟨frame _, writeMessage_eq_ok sink hfit,
      fun cs tail hcs => readMessage_frame hreadable hfit hcs⟩
  · intro i hop hi config
    exact hwithin.validate_drop hi

/-- A node that can be reached over another, as Crawl reports both. -/
def polledNodes : List NodeInfo :=
  [⟨"r", [⟨"10.0.0.2:9000", "relay"⟩], ["relay"]⟩, ⟨"t", [⟨"10.0.0.3:9000", "relay"⟩], ["relay"]⟩]

def polledReports : List GraphReport :=
  [⟨"s", "r", "radii", true, some 10⟩, ⟨"r", "t", "radii", true, some 10⟩]

/-- The chain from `s` over `r` to `t`. -/
theorem planned_chain_accepted_relayed :
    let hops : List RouteHop := [⟨"r", "10.0.0.2:9000"⟩, ⟨"t", "10.0.0.3:9000"⟩]
    validate hops ⟨"r", 8, 256, 8, 256, 16, []⟩ = .ok () ∧
      validate (hops.drop 1) ⟨"t", 1, 256, 8, 256, 16, []⟩ = .ok () := by
  have hread : readMessage [frame (.graphSnapshot polledNodes polledReports)] =
      .ok (.graphSnapshot polledNodes polledReports, [[]]) := by decide
  have hroute : (⟨[⟨"r", "10.0.0.2:9000"⟩, ⟨"t", "10.0.0.3:9000"⟩], 40, by decide⟩ :
      ResolvedRoute) ∈ resolveCandidates (fun _ _ _ => .default)
        ⟨buildSnapshot polledReports, buildRegistry polledNodes, "s", ["t"], ["radii"], 4, 3,
          some "relay", "relay"⟩ := by decide
  have haccepted := (planned_chain_accepted hread (fun _ _ _ => .default) "s" ["t"] ["radii"] 4 3
    "relay" "relay" hroute).2.2
  exact ⟨haccepted 0 _ rfl ⟨"r", 8, 256, 8, 256, 16, []⟩ rfl (by decide),
    haccepted 1 _ rfl ⟨"t", 1, 256, 8, 256, 16, []⟩ rfl (by decide)⟩

end Radii
