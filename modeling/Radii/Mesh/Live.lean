import Radii.Mesh.Replicas

/-!
# What is live is routed

From Crawl's tables to the routes of a poller.  A `LivePath` is said in terms of the tables alone:
its nodes are relays and its links observations, all of them heard from within the ttl.

* `live_routes_best` — a poller that gets all of them has the best routes along them.
* `LivePath.applyClaim` — a path stays live as long as its nodes take nothing of it back.
-/

namespace Radii

open Sync Collections Graphs Wire Decision

/-! ## Live paths -/

namespace CrawlState

/-- A node that has lately said where it relays. -/
def Relays (s : CrawlState) (now : ℕ) (nodeId : String) : Prop :=
  ∃ node ∈ s.LiveNodes now, node.nodeId = nodeId ∧ ∃ addr, ⟨addr, relayRole⟩ ∈ node.listenAddrs

/-- A node that has lately reported that it reaches another, in a way that planning may use. -/
def Reaches (s : CrawlState) (now : ℕ) (allowed : List ProtocolId) (u v : String) : Prop :=
  ∃ report ∈ s.LiveReports now, report.fromId = u ∧ report.target = v ∧
    Usable allowed report.link

/-- The least that a live link from the one to the other costs. -/
noncomputable def hopCost (s : CrawlState) (now : ℕ) (allowed : List ProtocolId) (u v : String) :
    ℕ :=
  sInf {c | ∃ report ∈ s.LiveReports now, report.fromId = u ∧ report.target = v ∧
    Usable allowed report.link ∧ defaultLinkCost report.link = c}

noncomputable def pathCost (s : CrawlState) (now : ℕ) (allowed : List ProtocolId) :
    List String → ℕ
  | u :: v :: rest => s.hopCost now allowed u v + pathCost s now allowed (v :: rest)
  | _ => 0

/-- The first address under which a live node relays. -/
def RelayAddr (s : CrawlState) (now : ℕ) (nodeId addr : String) : Prop :=
  ∃ node ∈ s.LiveNodes now, node.nodeId = nodeId ∧
    ((node.listenAddrs.find? fun entry => entry.role = relayRole).map ListenAddr.addr) = some addr

end CrawlState

namespace Mesh

/-- A way from the source to one of the targets, over nodes and links that are live. -/
structure LivePath (s : CrawlState) (now : ℕ) (config : PlanConfig) (target : NodeId)
    (path : List NodeId) : Prop where
  listed : target ∈ config.targets
  ne_source : target ≠ config.source
  head : path.head? = some config.source
  last : path.getLast? = some target
  nodup : path.Nodup
  joined : path.IsChain (s.Reaches now config.allowedProtocols)
  length : path.length ≤ min config.maxHops maxRouteHops + 1
  relays : ∀ nodeId ∈ path.tail, s.Relays now nodeId

/-- The routes are the best over what is live: each is along a live path with the nodes' own
addresses, there are as many as may be or as there are such paths, and none of these is left out
that costs less. -/
structure LiveBest (s : CrawlState) (now : ℕ) (config : PlanConfig) (routes : List ResolvedRoute) :
    Prop where
  live : ∀ route ∈ routes, ∃ target,
    LivePath s now config target (config.source :: route.nodeSequence) ∧
    route.score = s.pathCost now config.allowedProtocols (config.source :: route.nodeSequence)
  addrs : ∀ route ∈ routes, ∀ hop ∈ route.hops, s.RelayAddr now hop.nodeId hop.addr
  distinct : (routes.map ResolvedRoute.nodeSequence).Nodup
  count : (routes.length : ℕ∞) =
    min (config.maxCandidates : ℕ∞) {path | ∃ target, LivePath s now config target path}.encard
  least : ∀ route ∈ routes, ∀ target path, LivePath s now config target path →
    path.tail ∉ routes.map ResolvedRoute.nodeSequence →
    route.score ≤ s.pathCost now config.allowedProtocols path

section Live

variable {order : WalkOrder} {s : CrawlState} {now : ℕ} {p : Poll} {config : PlanConfig}

/-- The registry has a relay address for exactly the nodes that relay. -/
lemma Whole.advertises_iff (h : Whole order s now p) (nodeId : NodeId) :
    Advertises (view order s now).2 nodeId relayRole ↔ s.Relays now nodeId := by
  rw [Advertises, CrawlState.Relays]
  constructor
  · rintro ⟨advertised, hlookup, addr, hmem⟩
    rcases (h.lookup nodeId advertised).mp hlookup with ⟨node, hnode, hid, rfl⟩
    rcases List.mem_map.mp hmem with ⟨⟨_, _⟩, hentry, heq⟩
    simp only [Prod.mk.injEq] at heq
    rcases heq with ⟨rfl, rfl⟩
    exact ⟨node, hnode, hid, _, hentry⟩
  · rintro ⟨node, hnode, hid, addr, hentry⟩
    exact ⟨_, (h.lookup nodeId _).mpr ⟨node, hnode, hid, rfl⟩, addr,
      List.mem_map.mpr ⟨_, hentry, rfl⟩⟩

/-- The planner's network joins exactly the nodes that reach each other. -/
lemma Whole.joined_iff (h : Whole order s now p) (allowed : List ProtocolId) (u v : NodeId) :
    (network (view order s now).1 allowed defaultLinkCost).Joined u v ↔
      s.Reaches now allowed u v := by
  constructor
  · rintro ⟨⟨_, link⟩, ⟨hlink, husable, hfrom⟩, rfl, rfl⟩
    rcases (h.mem_links link).mp hlink with ⟨report, hreport, rfl⟩
    exact ⟨report, hreport, hfrom, rfl, husable⟩
  · rintro ⟨report, hreport, rfl, rfl, husable⟩
    exact ⟨(report.fromId, report.link),
      ⟨(h.mem_links _).mpr ⟨report, hreport, rfl⟩, husable, rfl⟩, rfl, rfl⟩

/-- What can be dialed along a path. -/
lemma forall_required_iff {q : Query} {role : RoleId} (hhop : q.hopRole = some role)
    (htarget : q.targetRole = role) {nodes : List NodeId} {P : NodeId → RoleId → Prop} :
    (∀ x ∈ q.required nodes, P x.1 x.2) ↔ ∀ node ∈ nodes, P node role := by
  cases hlast : nodes.getLast? with
  | none =>
      rw [List.getLast?_eq_none_iff.mp hlast]
      simp [Query.required]
  | some target =>
      have hall : q.required nodes = nodes.map fun node => (node, role) := by
        rw [q.required_eq hlast, hhop, htarget, Option.toList_some, List.flatMap_singleton,
          ← List.map_singleton (f := fun node => (node, role)), ← List.map_append,
          List.dropLast_append_getLast? target hlast]
      rw [hall, List.forall_mem_map]

/-- **What the poller can dial along is what is live.** -/
theorem Whole.dialable_iff (h : Whole order s now p) {target : NodeId} {path : List NodeId} :
    (config.query (view order s now)).Dialable target path ↔
      LivePath s now config target path := by
  have hadvertised : (∀ x ∈ (config.query (view order s now)).required path.tail,
      Advertises (view order s now).2 x.1 x.2) ↔ ∀ node ∈ path.tail, s.Relays now node := by
    rw [forall_required_iff rfl rfl]
    exact forall₂_congr fun node _ => h.advertises_iff node
  have hjoined : path.IsChain (network (view order s now).1 config.allowedProtocols
      defaultLinkCost).Joined ↔ path.IsChain (s.Reaches now config.allowedProtocols) := by
    refine iff_of_eq (congrArg (List.IsChain · path) ?_)
    ext u v
    exact h.joined_iff _ u v
  constructor
  · rintro ⟨hlisted, hne, ⟨hhead, hlast, hnodup, hchain, hlength⟩, hdialed⟩
    exact ⟨hlisted, hne, hhead, hlast, hnodup, hjoined.mp hchain, hlength,
      hadvertised.mp hdialed⟩
  · rintro ⟨hlisted, hne, hhead, hlast, hnodup, hchain, hlength, hrelays⟩
    exact ⟨hlisted, hne, ⟨hhead, hlast, hnodup, hjoined.mpr hchain, hlength⟩,
      hadvertised.mpr hrelays⟩

/-- What the planner charges for a path is what its links cost. -/
lemma Whole.cost_eq (h : Whole order s now p) (path : List NodeId) :
    (config.query (view order s now)).cost path =
      s.pathCost now config.allowedProtocols path := by
  have hhop : ∀ u v, (network (view order s now).1 config.allowedProtocols defaultLinkCost).hopCost
      u v = s.hopCost now config.allowedProtocols u v := by
    intro u v
    rw [CostGraph.hopCost_eq_sInf, CrawlState.hopCost]
    congr 1
    ext c
    constructor
    · rintro ⟨⟨_, link⟩, ⟨hlink, husable, hfrom⟩, rfl, rfl, rfl⟩
      rcases (h.mem_links link).mp hlink with ⟨report, hreport, rfl⟩
      exact ⟨report, hreport, hfrom, rfl, husable, rfl⟩
    · rintro ⟨report, hreport, rfl, rfl, husable, rfl⟩
      exact ⟨(report.fromId, report.link),
        ⟨(h.mem_links _).mpr ⟨report, hreport, rfl⟩, husable, rfl⟩, rfl, rfl, rfl⟩
  rw [Query.cost]
  show CostGraph.pathCost (network (view order s now).1 config.allowedProtocols _) path = _
  induction path with
  | nil => rfl
  | cons u path ih =>
      cases path with
      | nil => rfl
      | cons v rest => rw [CostGraph.pathCost, CrawlState.pathCost, hhop, ih]

/-- The registry's address for a node is the first under which it relays. -/
lemma Whole.relayAddr (h : Whole order s now p) {nodeId : NodeId} {addr : String}
    (haddr : addrForRole (view order s now).2 nodeId relayRole = some addr) :
    s.RelayAddr now nodeId addr := by
  rcases Option.bind_eq_some_iff.mp haddr with ⟨advertised, hlookup, hfind⟩
  rcases (h.lookup nodeId advertised).mp hlookup with ⟨node, hnode, hid, rfl⟩
  refine ⟨node, hnode, hid, ?_⟩
  rw [List.find?_map, Option.map_map] at hfind
  exact hfind

/-- All but the first of a chain are reached. -/
lemma exists_reaches_of_isChain {α : Type} {R : α → α → Prop} {path : List α}
    (h : path.IsChain R) : ∀ v ∈ path.tail, ∃ u, R u v := by
  induction path with
  | nil => exact fun v hv => absurd hv List.not_mem_nil
  | cons u path ih =>
      cases path with
      | nil => exact fun v hv => absurd hv List.not_mem_nil
      | cons w rest =>
          rw [List.isChain_cons_cons] at h
          intro v hv
          rcases List.mem_cons.mp hv with rfl | hv
          · exact ⟨u, h.1⟩
          · exact ih h.2 v hv

/-- Where whoever is reached relays, no path is in the way of one that can be dialed. -/
lemma Whole.uncrowded (h : Whole order s now p)
    (hknown : ∀ u v, v ≠ config.source → s.Reaches now config.allowedProtocols u v →
      s.Relays now v) : (config.query (view order s now)).Uncrowded := by
  intro target path hpath _
  refine Or.inl fun path' hpath' _ => ?_
  rw [h.dialable_iff] at hpath ⊢
  have hpath' : CostGraph.IsPath _ _ _ _ path' := hpath'
  rcases hpath' with ⟨hhead, hlast, hnodup, hchain, hlength⟩
  have hjoined : path'.IsChain (s.Reaches now config.allowedProtocols) :=
    hchain.imp fun u v => (h.joined_iff _ u v).mp
  refine ⟨hpath.listed, hpath.ne_source, hhead, hlast, hnodup, hjoined, hlength, ?_⟩
  intro v hv
  obtain ⟨u, hreaches⟩ := exists_reaches_of_isChain hjoined v hv
  refine hknown u v ?_ hreaches
  rintro rfl
  obtain ⟨rest, rfl⟩ := List.head?_eq_some_iff.mp hhead
  exact (List.nodup_cons.mp hnodup).1 hv

lemma exists_of_forall₂ {α β : Type} {R : α → β → Prop} {l : List α} {l' : List β}
    (h : List.Forall₂ R l l') : ∀ a ∈ l, ∃ b ∈ l', R a b := by
  induction h with
  | nil => exact fun a ha => absurd ha List.not_mem_nil
  | @cons a b l l' hab _ ih =>
      intro x hx
      rcases List.mem_cons.mp hx with rfl | hx
      · exact ⟨b, List.mem_cons_self, hab⟩
      · rcases ih x hx with ⟨y, hy, hxy⟩
        exact ⟨y, List.mem_cons_of_mem b hy, hxy⟩

/-- The best routes of the planner are the best over what is live. -/
lemma Whole.liveBest (h : Whole order s now p) {routes : List ResolvedRoute}
    (hbest : Best (config.query (view order s now)) routes) : LiveBest s now config routes := by
  have hsequence : ∀ path, (config.query (view order s now)).sequence path = path.tail :=
    fun path => Query.required_of_some rfl path.tail
  have halong : ∀ route ∈ routes, ∃ target path,
      (config.query (view order s now)).Dialable target path ∧
      path = config.source :: route.nodeSequence ∧
      route.score = (config.query (view order s now)).cost path ∧
      List.Forall₂ (Resolves (view order s now).2) route.hops
        ((config.query (view order s now)).required path.tail) := by
    intro route hroute
    obtain ⟨target, path, hpath, hall, hscore⟩ := hbest.dialable route hroute
    refine ⟨target, path, hpath, ?_, hscore, hall⟩
    have hnodes : route.nodeSequence = path.tail :=
      (advertises_of_resolves hall).1.trans (hsequence path)
    rw [hnodes]
    exact (Query.exists_tail hpath.path hpath.ne_source).1
  refine ⟨?_, ?_, hbest.distinct, ?_, ?_⟩
  · intro route hroute
    obtain ⟨target, path, hpath, rfl, hscore, -⟩ := halong route hroute
    exact ⟨target, h.dialable_iff.mp hpath, hscore.trans (h.cost_eq _)⟩
  · intro route hroute hop hhop
    obtain ⟨target, path, hpath, -, -, hall⟩ := halong route hroute
    rcases exists_of_forall₂ hall hop hhop with ⟨x, hx, hnode, haddr⟩
    have hrole : ∀ x ∈ (config.query (view order s now)).required path.tail, x.2 = relayRole :=
      (forall_required_iff (P := fun _ role => role = relayRole) rfl rfl).mpr fun _ _ => rfl
    rw [hrole x hx, ← hnode] at haddr
    exact h.relayAddr haddr
  · rw [hbest.count]
    have himage : (config.query (view order s now)).sequences =
        List.tail '' {path | ∃ target, LivePath s now config target path} := by
      ext nodes
      constructor
      · rintro ⟨target, path, hpath, rfl⟩
        exact ⟨path, ⟨target, h.dialable_iff.mp hpath⟩, (hsequence path).symm⟩
      · rintro ⟨path, ⟨target, hpath⟩, rfl⟩
        exact ⟨target, path, h.dialable_iff.mpr hpath, hsequence path⟩
    have hinj : Set.InjOn List.tail {path | ∃ target, LivePath s now config target path} := by
      rintro path ⟨target, hpath⟩ path' ⟨target', hpath'⟩ heq
      obtain ⟨rest, rfl⟩ := List.head?_eq_some_iff.mp hpath.head
      obtain ⟨rest', rfl⟩ := List.head?_eq_some_iff.mp hpath'.head
      exact congrArg _ heq
    rw [himage, hinj.encard_image]
    rfl
  · intro route hroute target path hpath hout
    rw [← h.cost_eq]
    exact hbest.least route hroute target path (h.dialable_iff.mpr hpath) (hsequence path ▸ hout)

/-- Where whoever is reported to be reached relays, the planner misses none of the best. -/
lemma Whole.liveBest_of_known (h : Whole order s now p) (hpos : 1 ≤ config.maxCandidates)
    (hlimit : config.maxCandidates ≤ maxRouteResults)
    (hknown : ∀ u v, v ≠ config.source → s.Reaches now config.allowedProtocols u v →
      s.Relays now v) (orders : ℕ → ℕ → ℕ → IterOrder NodeId (Cell Arc ℕ)) :
    LiveBest s now config (resolveCandidates orders (config.query (view order s now))) :=
  h.liveBest (best_of_placed fun _ _ hp =>
    placed_of_uncrowded hpos hlimit (h.uncrowded hknown) hp)

/-- Fetch's routes are the planner's. -/
lemma Whole.refreshRoutes_eq (h : Whole order s now p)
    (orders : ℕ → ℕ → ℕ → IterOrder NodeId (Cell Arc ℕ)) (held : List ResolvedRoute) :
    refreshRoutes orders config held p =
      resolveCandidates orders (config.query (view order s now)) := by
  rw [refreshRoutes, h.fetched]
  rfl

/-- And so are Head's. -/
lemma Whole.planBackends_eq (h : Whole order s now p)
    (orders : ℕ → ℕ → ℕ → IterOrder NodeId (Cell Arc ℕ)) (old : PolledGraph) :
    planBackends orders ⟨(refresh old p).graph, false⟩ config.source config.targets
      config.allowedProtocols config.maxHops config.maxCandidates =
        resolveCandidates orders (config.query (view order s now)) := by
  rw [refresh_of_answered h.fetched]
  rfl

/-- **A poller has the best routes there are.**  Crawl answers a poll, from whatever state and at
whatever time, and nothing is left out of the answer.  If whoever is reported to be reached relays,
then Fetch and Head have the best routes over what is live in Crawl's tables, whatever orders
anybody walks hash maps in. -/
theorem live_routes_best (h : Whole order s now p) (hpos : 1 ≤ config.maxCandidates)
    (hlimit : config.maxCandidates ≤ maxRouteResults)
    (hknown : ∀ u v, v ≠ config.source → s.Reaches now config.allowedProtocols u v →
      s.Relays now v) (orders : ℕ → ℕ → ℕ → IterOrder NodeId (Cell Arc ℕ)) :
    (∀ held, LiveBest s now config (refreshRoutes orders config held p)) ∧
    ∀ old, LiveBest s now config (planBackends orders ⟨(refresh old p).graph, false⟩ config.source
      config.targets config.allowedProtocols config.maxHops config.maxCandidates) := by
  have hbest := h.liveBest_of_known hpos hlimit hknown orders
  constructor
  · intro held
    rw [h.refreshRoutes_eq]
    exact hbest
  · intro old
    rw [h.planBackends_eq]
    exact hbest

end Live

/-- The path from `s` to `t`, of which all is live for five milliseconds. -/
lemma livePath_heardAt {heard now : ℕ} (hnow : now ≤ heard + 5) :
    LivePath (heardAt heard (.initial (some 5) ∅)) now ⟨"s", ["t"], [], 4, 4⟩ "t" ["s", "t"] := by
  have hfresh : (heardAt heard (.initial (some 5) ∅)).Fresh now heard := by
    rintro ttl ⟨rfl⟩
    omega
  have hnobody : ∀ nodeId, ¬ (heardAt heard (.initial (some 5) ∅)).Quiet now nodeId := by
    rintro nodeId ⟨entry, hentry, hquiet⟩
    have hnodes : (heardAt heard (.initial (some 5) ∅)).nodes =
        AList.insert "t" ⟨[⟨"10.0.0.3:9000", "relay"⟩], ["relay"], heard⟩ ∅ := rfl
    rw [hnodes] at hentry
    by_cases hid : nodeId = "t"
    · subst hid
      rw [AList.lookup_insert, Option.some.injEq] at hentry
      exact hquiet (hentry ▸ hfresh)
    · rw [HashMap.lookup_insert_of_ne hid] at hentry
      simp at hentry
  refine ⟨by decide, by decide, rfl, rfl, by decide, ?_, by decide, ?_⟩
  · exact List.isChain_pair.mpr ⟨⟨"s", "t", "radii", true, some 10⟩,
      ⟨⟨true, some 10, none, heard⟩, rfl, hfresh, hnobody _, hnobody _, rfl, rfl⟩, rfl, rfl, rfl,
      Or.inl rfl⟩
  · intro nodeId hmem
    rw [List.mem_singleton.mp hmem]
    exact ⟨⟨"t", [⟨"10.0.0.3:9000", "relay"⟩], ["relay"]⟩,
      ⟨⟨[⟨"10.0.0.3:9000", "relay"⟩], ["relay"], heard⟩, rfl, hfresh, rfl, rfl⟩, rfl,
      "10.0.0.3:9000", List.mem_singleton_self _⟩

/-- Nobody else is reached. -/
lemma eq_of_reaches_heardAt {heard now : ℕ} {allowed : List ProtocolId} {u v : String}
    (h : (heardAt heard (.initial (some 5) ∅)).Reaches now allowed u v) : v = "t" := by
  rcases h with ⟨report, ⟨entry, hentry, -⟩, -, rfl, -⟩
  have hreports : (heardAt heard (.initial (some 5) ∅)).reachability =
      AList.insert ⟨"s", "t", "radii"⟩ ⟨true, some 10, none, heard⟩ ∅ := rfl
  rw [hreports] at hentry
  by_contra hne
  rw [HashMap.lookup_insert_of_ne] at hentry
  · simp at hentry
  · intro hkey
    exact hne (congrArg ReachabilityKey.target hkey)

/-- A Fetch that polls while it is live. -/
theorem live_routes_best_told :
    LivePath (heardAt 7 (.initial (some 5) ∅)) 8 ⟨"s", ["t"], [], 4, 4⟩ "t" ["s", "t"] ∧
    LiveBest (heardAt 7 (.initial (some 5) ∅)) 8 ⟨"s", ["t"], [], 4, 4⟩
      (refreshRoutes (fun _ _ _ => .default) ⟨"s", ["t"], [], 4, 4⟩ []
        (pollOf (heardAt 7 (.initial (some 5) ∅)) 8)) := by
  have hpath := livePath_heardAt (show 8 ≤ 7 + 5 by omega)
  refine ⟨hpath, (live_routes_best (whole_pollOf
    (stateBounds_heardAt 7 (stateBounds_initial _ _)) (by decide) (by decide)) (by decide)
    (by decide) ?_ _).1 []⟩
  intro u v _ hreaches
  exact eq_of_reaches_heardAt hreaches ▸ hpath.relays "t" (by simp)

/-! ## Staying live -/

/-- The claim takes nothing of the path back: a hello of a node on it still says where that relays,
and a report about a link of it still that it is reachable. -/
def Keeps (path : List NodeId) : RelayedMessage → Prop
  | .nodeHello nodeId _ listenAddrs =>
      nodeId ∈ path.tail → ∃ addr, ⟨addr, relayRole⟩ ∈ listenAddrs
  | .reachabilityProbe _ _ _ => True
  | .reachabilityReport fromId target _ reachable _ _ =>
      [fromId, target] <:+: path → reachable = true

section Staying

variable {s : CrawlState} {now deadline : ℕ} {allowed : List ProtocolId} {u v : String}
  {config : PlanConfig} {target : NodeId} {path : List NodeId} {r : RelayedMessage}

lemma fresh_earlier {lastSeen : ℕ} (h : s.Fresh deadline lastSeen) (hnow : now ≤ deadline) :
    s.Fresh now lastSeen := by
  intro ttl httl
  have hage := h ttl httl
  omega

lemma quiet_later (h : s.Quiet now u) (hnow : now ≤ deadline) : s.Quiet deadline u := by
  rcases h with ⟨entry, hentry, hquiet⟩
  exact ⟨entry, hentry, fun hfresh => hquiet (fresh_earlier hfresh hnow)⟩

/-- What is live still later is live. -/
lemma LivePath.earlier (h : LivePath s deadline config target path) (hnow : now ≤ deadline) :
    LivePath s now config target path := by
  refine ⟨h.listed, h.ne_source, h.head, h.last, h.nodup, h.joined.imp ?_, h.length, ?_⟩
  · rintro u v ⟨report, ⟨entry, hentry, hfresh, hfrom, htarget, hrest⟩, hends⟩
    exact ⟨report, ⟨entry, hentry, fresh_earlier hfresh hnow,
      fun hquiet => hfrom (quiet_later hquiet hnow),
      fun hquiet => htarget (quiet_later hquiet hnow), hrest⟩, hends⟩
  · intro nodeId hmem
    rcases h.relays nodeId hmem with ⟨node, ⟨entry, hentry, hfresh, hrest⟩, hnode⟩
    exact ⟨node, ⟨entry, hentry, fresh_earlier hfresh hnow, hrest⟩, hnode⟩

lemma fresh_applyClaim {lastSeen : ℕ} :
    (applyClaim now s r).1.Fresh deadline lastSeen ↔ s.Fresh deadline lastSeen := by
  rw [CrawlState.Fresh, CrawlState.Fresh, applyClaim_nodeTtlMs]

/-- What is said within a ttl of the deadline is fresh then. -/
lemma fresh_of_said (httl : ∀ ttl, s.nodeTtlMs = some ttl → deadline ≤ now + ttl) :
    s.Fresh deadline now := by
  intro ttl hsome
  have hwithin := httl ttl hsome
  omega

/-- Nobody goes quiet by what is said. -/
lemma quiet_applyClaim (httl : ∀ ttl, s.nodeTtlMs = some ttl → deadline ≤ now + ttl)
    (h : (applyClaim now s r).1.Quiet deadline u) : s.Quiet deadline u := by
  rcases h with ⟨entry, hentry, hquiet⟩
  rw [fresh_applyClaim] at hquiet
  cases r with
  | nodeHello nodeId roles listenAddrs =>
      by_cases hid : u = nodeId
      · subst hid
        rw [applyClaim, CrawlState.insertNode, AList.lookup_insert, Option.some.injEq] at hentry
        subst hentry
        exact absurd (fresh_of_said httl) hquiet
      · rw [applyClaim, CrawlState.insertNode, HashMap.lookup_insert_of_ne hid] at hentry
        exact ⟨entry, hentry, hquiet⟩
  | reachabilityProbe => exact ⟨entry, hentry, hquiet⟩
  | reachabilityReport =>
      rw [applyClaim, (CrawlState.recordReport_upserted _ _ _).nodes] at hentry
      exact ⟨entry, hentry, hquiet⟩

/-- A fresh observation is kept, or replaced by a newer one. -/
lemma lookup_applyClaim_of_fresh (hnow : now ≤ deadline) {key : ReachabilityKey}
    {entry : ReachabilityEntry} (hentry : s.reachability.lookup key = some entry)
    (hfresh : s.Fresh deadline entry.lastSeenUnixMs) :
    (applyClaim now s r).1.reachability.lookup key = some entry ∨
      ∃ reachable rttMs observedAddr,
        r = .reachabilityReport key.fromId key.target key.protocol reachable rttMs observedAddr ∧
        (applyClaim now s r).1.reachability.lookup key =
          some ⟨reachable, rttMs, observedAddr, now⟩ := by
  cases r with
  | nodeHello => exact Or.inl hentry
  | reachabilityProbe => exact Or.inl hentry
  | reachabilityReport fromId target protocol reachable rttMs observedAddr =>
      have hup := CrawlState.recordReport_upserted s ⟨fromId, target, protocol⟩
        ⟨reachable, rttMs, observedAddr, now⟩
      rw [applyClaim]
      by_cases hkey : key = ⟨fromId, target, protocol⟩
      · subst hkey
        refine Or.inr ⟨reachable, rttMs, observedAddr, rfl, hup.stored ?_⟩
        by_contra hrefused
        rw [(hup.refused (by simpa using hrefused)).1] at hentry
        exact absurd hentry (by simp)
      · rcases hup.other key hkey with hsame | ⟨-, other, hother, hstale⟩
        · exact Or.inl (hsame.trans hentry)
        · rw [hentry, Option.some.injEq] at hother
          subst hother
          rw [stale_eq_false_iff.mpr (fresh_earlier hfresh hnow)] at hstale
          exact absurd hstale (by simp)

lemma reaches_applyClaim (hnow : now ≤ deadline)
    (httl : ∀ ttl, s.nodeTtlMs = some ttl → deadline ≤ now + ttl)
    (hkeeps : ∀ protocol reachable rttMs observedAddr,
      r = .reachabilityReport u v protocol reachable rttMs observedAddr → reachable = true)
    (h : s.Reaches deadline allowed u v) : (applyClaim now s r).1.Reaches deadline allowed u v := by
  rcases h with
    ⟨report, ⟨entry, hentry, hfresh, hfrom, htarget, hreachable, hrtt⟩, rfl, rfl, husable⟩
  have hends : ¬ (applyClaim now s r).1.Quiet deadline report.fromId ∧
      ¬ (applyClaim now s r).1.Quiet deadline report.target :=
    ⟨fun hquiet => hfrom (quiet_applyClaim httl hquiet),
      fun hquiet => htarget (quiet_applyClaim httl hquiet)⟩
  rcases lookup_applyClaim_of_fresh (r := r) hnow hentry hfresh with
    hkept | ⟨reachable, rttMs, observedAddr, hr, hnew⟩
  · exact ⟨report, ⟨entry, hkept, fresh_applyClaim.mpr hfresh, hends.1, hends.2, hreachable, hrtt⟩,
      rfl, rfl, husable⟩
  · refine ⟨⟨report.fromId, report.target, report.protocol, reachable, rttMs⟩,
      ⟨_, hnew, fresh_applyClaim.mpr (fresh_of_said httl), hends.1, hends.2, rfl, rfl⟩, rfl, rfl,
      hkeeps _ _ _ _ hr, husable.2⟩

lemma relays_applyClaim (httl : ∀ ttl, s.nodeTtlMs = some ttl → deadline ≤ now + ttl)
    (hkeeps : ∀ roles listenAddrs, r = .nodeHello u roles listenAddrs →
      ∃ addr, ⟨addr, relayRole⟩ ∈ listenAddrs)
    (h : s.Relays deadline u) : (applyClaim now s r).1.Relays deadline u := by
  rcases h with ⟨node, ⟨entry, hentry, hfresh, haddrs, hroles⟩, rfl, addr, haddr⟩
  cases r with
  | nodeHello nodeId roles listenAddrs =>
      by_cases hid : node.nodeId = nodeId
      · subst hid
        rcases hkeeps roles listenAddrs rfl with ⟨addr', haddr'⟩
        refine ⟨⟨node.nodeId, listenAddrs, roles⟩, ⟨⟨listenAddrs, roles, now⟩, ?_,
          fresh_applyClaim.mpr (fresh_of_said httl), rfl, rfl⟩, rfl, addr', haddr'⟩
        rw [applyClaim, CrawlState.insertNode, AList.lookup_insert]
      · refine ⟨node, ⟨entry, ?_, fresh_applyClaim.mpr hfresh, haddrs, hroles⟩, rfl, addr, haddr⟩
        rw [applyClaim, CrawlState.insertNode, HashMap.lookup_insert_of_ne hid, hentry]
  | reachabilityProbe => exact ⟨node, ⟨entry, hentry, hfresh, haddrs, hroles⟩, rfl, addr, haddr⟩
  | reachabilityReport =>
      refine ⟨node, ⟨entry, ?_, fresh_applyClaim.mpr hfresh, haddrs, hroles⟩, rfl, addr, haddr⟩
      rw [applyClaim, (CrawlState.recordReport_upserted _ _ _).nodes, hentry]

/-- **One claim leaves a live path live**, up to a deadline within its ttl, if it takes nothing of
it back: nothing fresh is swept away, and what replaces it is fresher. -/
theorem LivePath.applyClaim (h : LivePath s deadline config target path) (hnow : now ≤ deadline)
    (httl : ∀ ttl, s.nodeTtlMs = some ttl → deadline ≤ now + ttl) (hkeeps : Keeps path r) :
    LivePath (applyClaim now s r).1 deadline config target path := by
  refine ⟨h.listed, h.ne_source, h.head, h.last, h.nodup, ?_, h.length, ?_⟩
  · have hjoined := List.isChain_iff_getElem.mp h.joined
    have hadjacent := List.isChain_iff_getElem.mp (List.isChain_isInfix path)
    refine List.isChain_iff_getElem.mpr fun i hi => ?_
    refine reaches_applyClaim hnow httl ?_ (hjoined i hi)
    rintro protocol reachable rttMs observedAddr rfl
    exact hkeeps (hadjacent i hi)
  · intro nodeId hmem
    refine relays_applyClaim httl ?_ (h.relays nodeId hmem)
    rintro roles listenAddrs rfl
    exact hkeeps hmem

end Staying

end Mesh

end Radii
