import Radii.Crawl.LiveGraph
import Radii.Mesh.Provenance
import Radii.Routing.Best
import Radii.Routing.Truncation

/-!
# Whoever reads the same graph plans the same routes

Crawl writes its tables out in whatever order it walks them, Head and Fetch collect them in hash
maps of their own, and the planner walks hash maps again.  None of these orders is up to anybody.

* `plan_agrees` — the routes of two plans cost the same, and a smaller plan is the beginning of a
  larger one.
* `replicas_agree` — a Head and a Fetch that ask while the same is live choose the same routes, in
  the same order, from the same addresses.
-/

namespace Radii

open Collections Graphs Wire Decision

/-! ## Plans -/

section Plan

variable {C : Type} [AddCommMonoid C] [LinearOrder C] [IsOrderedCancelAddMonoid C]
  {linkCost : Link → C}

omit [AddCommMonoid C] [IsOrderedCancelAddMonoid C] in
/-- The order of the links is of no account, nor how often they come. -/
lemma network_congr {snapshot snapshot' : GraphSnapshot}
    (h : ∀ link, link ∈ snapshot.links ↔ link ∈ snapshot'.links) (allowed : List ProtocolId)
    (linkCost : Link → C) :
    network snapshot allowed linkCost = network snapshot' allowed linkCost := by
  simp only [network, h]

lemma scores_plan (hcost : ∀ link, 0 ≤ linkCost link)
    (orders : ℕ → ℕ → IterOrder NodeId (Cell Arc C)) (snapshot : GraphSnapshot)
    (request : RouteRequest) (limit : ℕ) :
    (plan linkCost orders snapshot request limit).map RouteCandidate.score =
      ((plan linkCost orders snapshot request limit).map RouteCandidate.hops).map
        (request.cost linkCost snapshot) := by
  rw [List.map_map]
  exact List.map_congr_left fun route hroute =>
    (plan_top hcost orders snapshot request limit).2 route hroute

/-- **Two plans agree.**  Whatever the orders of the links and of the hash maps, what the routes of
the smaller plan cost is what the first of the larger one do; and where no two paths cost the same,
the routes are the same. -/
theorem plan_agrees (hcost : ∀ link, 0 ≤ linkCost link)
    (orders orders' : ℕ → ℕ → IterOrder NodeId (Cell Arc C)) {snapshot snapshot' : GraphSnapshot}
    (hlinks : ∀ link, link ∈ snapshot.links ↔ link ∈ snapshot'.links) (request : RouteRequest)
    {k n : ℕ} (hle : k ≤ n) :
    let smaller := plan linkCost orders snapshot request k
    let larger := plan linkCost orders' snapshot' request n
    smaller.map RouteCandidate.score =
      (larger.map RouteCandidate.score).take (min k maxRouteResults) ∧
    (Set.InjOn (request.cost linkCost snapshot) (request.paths linkCost snapshot) →
      smaller.map RouteCandidate.hops =
        (larger.map RouteCandidate.hops).take (min k maxRouteResults)) := by
  intro smaller larger
  have hnetwork := network_congr hlinks request.allowedProtocols linkCost
  have hsmaller := (plan_top hcost orders snapshot request k).1
  have hlarger := (plan_top hcost orders' snapshot' request n).1
  rw [← hnetwork] at hlarger
  have hlimits : min k maxRouteResults ≤ min n maxRouteResults := min_le_min_right _ hle
  have hscores : request.cost linkCost snapshot' = request.cost linkCost snapshot := by
    rw [RouteRequest.cost, RouteRequest.cost, hnetwork]
  refine ⟨?_, fun hinj => hsmaller.eq_take hlarger hlimits hinj⟩
  rw [scores_plan hcost, scores_plan hcost, hscores]
  exact hsmaller.costs_eq_take hlarger hlimits

end Plan

/-- The links of `parallelSnapshot`, the other way round. -/
def turnedSnapshot : GraphSnapshot :=
  .fromReports [⟨"a", "d", "radii", true, some 15⟩, ⟨"a", "d", "radii", true, some 500⟩,
    ⟨"b", "d", "radii", true, some 10⟩, ⟨"a", "b", "radii", true, some 10⟩]

/-- The cheaper of the two routes from `a` to `d`. -/
theorem plan_agrees_parallel :
    (plan (fun link => (link.latencyMs.map UInt32.toNat).getD 1000) (fun _ _ => .default)
      turnedSnapshot ⟨"a", "d", ["radii"], 4⟩ 1).map RouteCandidate.score =
    ((plan (fun link => (link.latencyMs.map UInt32.toNat).getD 1000) (fun _ _ => .default)
      parallelSnapshot ⟨"a", "d", ["radii"], 4⟩ 3).map RouteCandidate.score).take
        (min 1 maxRouteResults) := by
  have hperm : turnedSnapshot.links.Perm parallelSnapshot.links := by decide
  exact (plan_agrees (fun _ => Nat.zero_le _) _ _ (fun _ => hperm.mem_iff) _ (by decide)).1

/-! ## From the same graph -/

/-- Which protocol its last link has is not looked at again. -/
lemma filterMap_resolveCandidate (q : Query) (candidates : List (RouteCandidate ℕ)) :
    candidates.filterMap (resolveCandidate q) =
      (candidates.map fun c => (c.hops, c.score)).filterMap fun c =>
        resolveCandidate q ⟨c.1, "", c.2⟩ := by
  rw [List.filterMap_map]
  rfl

lemma resolveHops_congr {q q' : Query} (hrole : q.hopRole = q'.hopRole)
    (htarget : q.targetRole = q'.targetRole)
    (haddrs : ∀ node, q.listenAddrs.lookup node = q'.listenAddrs.lookup node) (lastIndex : ℕ)
    (nodes : List (NodeId × ℕ)) :
    ∀ hops, resolveHops q lastIndex nodes hops = resolveHops q' lastIndex nodes hops := by
  have haddr : ∀ node role,
      addrForRole q.listenAddrs node role = addrForRole q'.listenAddrs node role := by
    intro node role
    rw [addrForRole, addrForRole, haddrs]
  induction nodes with
  | nil => exact fun _ => rfl
  | cons node nodes ih =>
      intro hops
      rw [resolveHops, resolveHops, hrole, htarget]
      cases (if node.2 = lastIndex then some q'.targetRole else q'.hopRole) with
      | none => exact ih hops
      | some role =>
          simp only [haddr]
          cases addrForRole q'.listenAddrs node.1 role with
          | some addr => exact ih _
          | none => rfl

/-- Two queries that ask the same, over graphs with the same links and the same addresses. -/
structure SameQuery (q q' : Query) : Prop where
  links : ∀ link, link ∈ q.snapshot.links ↔ link ∈ q'.snapshot.links
  addrs : ∀ node, q.listenAddrs.lookup node = q'.listenAddrs.lookup node
  source : q.source = q'.source
  targets : q.targets = q'.targets
  allowed : q.allowedProtocols = q'.allowedProtocols
  maxHops : q.maxHops = q'.maxHops
  limit : q.limit = q'.limit
  hopRole : q.hopRole = q'.hopRole
  targetRole : q.targetRole = q'.targetRole

lemma SameQuery.resolveCandidate {q q' : Query} (h : SameQuery q q') (c : RouteCandidate ℕ) :
    resolveCandidate q c = Radii.resolveCandidate q' c := by
  rw [Radii.resolveCandidate, Radii.resolveCandidate,
    resolveHops_congr h.hopRole h.targetRole h.addrs]

/-- The candidates for one target. -/
lemma SameQuery.planned {q q' : Query} (h : SameQuery q q')
    (orders orders' : ℕ → ℕ → IterOrder NodeId (Cell Arc ℕ)) {target : NodeId}
    (hties : Set.InjOn q.cost (q.paths target)) :
    (plan defaultLinkCost orders q.snapshot
      ⟨q.source, target, q.allowedProtocols, q.maxHops⟩ q.limit).map (fun c => (c.hops, c.score)) =
    (plan defaultLinkCost orders' q'.snapshot
      ⟨q'.source, target, q'.allowedProtocols, q'.maxHops⟩ q'.limit).map
        (fun c => (c.hops, c.score)) := by
  have hcost : ∀ link, 0 ≤ defaultLinkCost link := fun link => Nat.zero_le _
  have hnetwork := network_congr h.links q.allowedProtocols defaultLinkCost
  rw [← h.source, ← h.allowed, ← h.maxHops, ← h.limit]
  set request : RouteRequest := ⟨q.source, target, q.allowedProtocols, q.maxHops⟩
  have htop := plan_top hcost orders q.snapshot request q.limit
  have htop' := plan_top hcost orders' q'.snapshot request q.limit
  rw [← hnetwork] at htop'
  have hhops := htop.1.eq_take htop'.1 (le_refl _) hties
  rw [List.take_of_length_le htop'.1.length] at hhops
  have hpairs : ∀ candidates : List (RouteCandidate ℕ),
      (∀ c ∈ candidates, c.score = q.cost c.hops) →
      candidates.map (fun c => (c.hops, c.score)) =
        (candidates.map RouteCandidate.hops).map fun hops => (hops, q.cost hops) := by
    intro candidates hscores
    rw [List.map_map]
    exact List.map_congr_left fun c hc => by rw [hscores c hc]; rfl
  rw [hpairs _ htop.2, hpairs _ htop'.2, hhops]

/-- **Two resolutions agree.** -/
theorem SameQuery.resolveCandidates {q q' : Query} (h : SameQuery q q')
    (orders orders' : ℕ → ℕ → ℕ → IterOrder NodeId (Cell Arc ℕ))
    (hties : ∀ target ∈ q.targets, Set.InjOn q.cost (q.paths target)) :
    resolveCandidates orders q = Radii.resolveCandidates orders' q' := by
  have hresolved : resolved orders q = resolved orders' q' := by
    rw [resolved, resolved, ← h.targets]
    refine List.flatMap_congr fun x hx => ?_
    rcases x with ⟨target, i⟩
    have htarget : target ∈ q.targets := (List.mem_zipIdx hx).2.2 ▸ List.getElem_mem _
    simp only
    rw [filterMap_resolveCandidate, filterMap_resolveCandidate,
      h.planned (orders i) (orders' i) (hties target htarget)]
    exact List.filterMap_congr fun c _ => h.resolveCandidate _
  rw [Radii.resolveCandidates, Radii.resolveCandidates, hresolved, h.limit]

/-! ## From the same live graph -/

lemma fill_whole {α : Type} {cost : α → ℕ} {xs : List α} {budget : ℕ}
    (h : (fill cost xs budget).2.2 = 0) : (fill cost xs budget).1 = xs := by
  have hcount := fill_count cost xs budget
  exact (fill_sublist cost xs budget).eq_of_length (by omega)

/-- A snapshot that counts nothing as dropped lists all that is live. -/
lemma graphSnapshot_whole {order : WalkOrder} {s : CrawlState} {now : ℕ}
    (h : (graphSnapshot order s now).2.2 = 0) :
    (graphSnapshot order s now).1 = liveNodes order s now ∧
    (graphSnapshot order s now).2.1 = liveReports order s now := by
  simp only [graphSnapshot, Nat.add_eq_zero_iff] at h ⊢
  exact ⟨fill_whole h.1, fill_whole h.2⟩

namespace GraphSnapshot

lemma accepted_sublist (s : GraphSnapshot) (calls : List Link) :
    (accepted s calls).Sublist calls := by
  induction calls generalizing s with
  | nil => exact List.Sublist.refl []
  | cons link calls ih =>
      rw [accepted]
      split_ifs
      · exact (ih _).cons_cons link
      · exact (ih _).cons link

lemma links_of_none_dropped {calls : List Link} (h : (new.addLinks calls).droppedLinks = 0) :
    (new.addLinks calls).links = calls := by
  have hlinks : (new.addLinks calls).links = accepted new calls := links_addLinks new calls
  have hcount := counted_addLinks new calls
  rw [hlinks, h] at hcount
  rw [hlinks]
  refine (accepted_sublist new calls).eq_of_length (hcount.trans ?_)
  exact Nat.zero_add _

end GraphSnapshot

lemma links_buildSnapshot_of_none_dropped {reports : List GraphReport}
    (h : (buildSnapshot reports).droppedLinks = 0) :
    (buildSnapshot reports).links = reports.map GraphReport.link := by
  have hcalls : buildSnapshot reports =
      GraphSnapshot.new.addLinks (reports.map GraphReport.link) := by
    rw [GraphSnapshot.addLinks, List.foldl_map]
    rfl
  rw [hcalls] at h ⊢
  exact GraphSnapshot.links_of_none_dropped h

/-- What is collected of nodes that are listed once each. -/
lemma lookup_buildRegistry_iff {nodes : List NodeInfo} (hnodup : (nodes.map NodeInfo.nodeId).Nodup)
    {nodeId : NodeId} {advertised : List (String × RoleId)} :
    (buildRegistry nodes).lookup nodeId = some advertised ↔ ∃ node ∈ nodes,
      node.nodeId = nodeId ∧
        advertised = node.listenAddrs.map fun entry => (entry.addr, entry.role) := by
  refine ⟨lookup_buildRegistry, ?_⟩
  rintro ⟨node, hnode, rfl, rfl⟩
  induction nodes using List.reverseRecOn with
  | nil => exact absurd hnode List.not_mem_nil
  | append_singleton nodes last ih =>
      rw [List.map_append, List.map_singleton, List.nodup_append] at hnodup
      rw [buildRegistry, List.foldl_append, List.foldl_cons, List.foldl_nil, ← buildRegistry]
      rcases List.mem_append.mp hnode with hearlier | hlast
      · have hne : node.nodeId ≠ last.nodeId :=
          hnodup.2.2 _ (List.mem_map_of_mem hearlier) _ List.mem_cons_self
        rw [HashMap.lookup_insert_of_ne hne]
        exact ih hnodup.1 hearlier
      · rw [List.mem_singleton.mp hlast, AList.lookup_insert]

namespace Mesh

/-- What a poller makes of Crawl's answer. -/
def view (order : WalkOrder) (s : CrawlState) (now : ℕ) : GraphSnapshot × ListenAddrs :=
  (buildSnapshot (graphSnapshot order s now).2.1, buildRegistry (graphSnapshot order s now).1)

/-- What is asked of the planner about it. -/
def PlanConfig.query (config : PlanConfig) (x : GraphSnapshot × ListenAddrs) : Query where
  snapshot := x.1
  listenAddrs := x.2
  source := config.source
  targets := config.targets
  allowedProtocols := config.allowedProtocols
  maxHops := config.maxHops
  limit := config.maxCandidates
  hopRole := some relayRole
  targetRole := relayRole

/-- The poll brings what Crawl lists of `s`, which is all that is live there, and the poller keeps
all of it. -/
structure Whole (order : WalkOrder) (s : CrawlState) (now : ℕ) (p : Poll) : Prop where
  fetched : fetchOnce p = some (view order s now)
  listed : (graphSnapshot order s now).2.2 = 0
  kept : (view order s now).1.droppedLinks = 0

/-- A Fetch that has just polled holds these routes, and a Head plans them, whatever they had. -/
structure Chooses (config : PlanConfig) (p : Poll) (routes : List ResolvedRoute) : Prop where
  fetch : ∀ orders held, refreshRoutes orders config held p = routes
  head : ∀ orders old, planBackends orders ⟨(refresh old p).graph, false⟩ config.source
    config.targets config.allowedProtocols config.maxHops config.maxCandidates = routes

section Replicas

variable {order order' : WalkOrder} {s s' : CrawlState} {now now' : ℕ} {p p' : Poll}
  {config : PlanConfig}

/-- What the poller makes of the frame that Crawl answers with. -/
lemma fetchOnce_of_frame (hbounds : StateBounds s) {cs : Chunks} {tail : Bytes}
    (hanswer : p.answer = some cs) (hcs : cs.flatten = frame (.graphSnapshot
      (graphSnapshot order s now).1 (graphSnapshot order s now).2.1) ++ tail) :
    fetchOnce p = some (view order s now) := by
  rcases readMessage_frame (snapshot_readable hbounds) (snapshot_encode_le order now hbounds) hcs
    with ⟨rest, hread, -⟩
  rw [fetchOnce, hanswer, Option.map_some, queryGraphOn, hread]
  rfl

/-- All the live observations are links. -/
lemma Whole.mem_links (h : Whole order s now p) (link : Link) :
    link ∈ (view order s now).1.links ↔ ∃ report ∈ s.LiveReports now, report.link = link := by
  rw [view, links_buildSnapshot_of_none_dropped h.kept, (graphSnapshot_whole h.listed).2,
    List.mem_map]
  simp only [mem_liveReports]

/-- All the live nodes are registered. -/
lemma Whole.lookup (h : Whole order s now p) (nodeId : NodeId)
    (advertised : List (String × RoleId)) :
    (view order s now).2.lookup nodeId = some advertised ↔
      ∃ node ∈ s.LiveNodes now, node.nodeId = nodeId ∧
        advertised = node.listenAddrs.map fun entry => (entry.addr, entry.role) := by
  rw [view, (graphSnapshot_whole h.listed).1,
    lookup_buildRegistry_iff (liveNodes_nodup order s now)]
  simp only [mem_liveNodes]

lemma Whole.sameQuery (h : Whole order s now p) (h' : Whole order' s' now' p')
    (hnodes : s.LiveNodes now = s'.LiveNodes now')
    (hreports : s.LiveReports now = s'.LiveReports now') (config : PlanConfig) :
    SameQuery (config.query (view order s now)) (config.query (view order' s' now')) where
  links link := (h.mem_links link).trans (hreports ▸ (h'.mem_links link).symm)
  addrs node := Option.ext fun advertised =>
    (h.lookup node advertised).trans (hnodes ▸ (h'.lookup node advertised).symm)
  source := rfl
  targets := rfl
  allowed := rfl
  maxHops := rfl
  limit := rfl
  hopRole := rfl
  targetRole := rfl

/-- It chooses what is resolved. -/
lemma Whole.chooses (h : Whole order s now p) {routes : List ResolvedRoute}
    (hroutes : ∀ orders, resolveCandidates orders (config.query (view order s now)) = routes) :
    Chooses config p routes := by
  constructor
  · intro orders held
    rw [refreshRoutes, h.fetched]
    exact hroutes orders
  · intro orders old
    rw [refresh_of_answered h.fetched]
    exact hroutes orders

/-- **Whoever reads the same graph plans the same routes.**  Crawl answers two polls, at any two
times and whatever else is in its tables, from states in which the same nodes and the same
observations are live.  If nothing is left out of either answer, and no two paths to a target cost
the same, a Fetch or a Head that got the one and a Fetch or a Head that got the other have one and
the same list of routes, whatever orders they walk their hash maps in. -/
theorem replicas_agree (h : Whole order s now p) (h' : Whole order' s' now' p')
    (hnodes : s.LiveNodes now = s'.LiveNodes now')
    (hreports : s.LiveReports now = s'.LiveReports now')
    (hties : ∀ target ∈ config.targets, Set.InjOn (config.query (view order s now)).cost
      ((config.query (view order s now)).paths target)) :
    ∃ routes, Chooses config p routes ∧ Chooses config p' routes := by
  have hsame := h.sameQuery h' hnodes hreports config
  have hself := h.sameQuery h rfl rfl config
  refine ⟨resolveCandidates (fun _ _ _ => .default) (config.query (view order s now)), ?_, ?_⟩
  · exact h.chooses fun orders => hself.resolveCandidates orders _ hties
  · exact h'.chooses fun orders => (hsame.resolveCandidates _ orders hties).symm

end Replicas

/-- `s` after a node has said where it is and another that it reaches it. -/
def heardAt (now : ℕ) (s : CrawlState) : CrawlState :=
  (applyClaim now (applyClaim now s (.nodeHello "t" ["relay"] [⟨"10.0.0.3:9000", "relay"⟩])).1
    (.reachabilityReport "s" "t" "radii" true (some 10) none)).1

lemma stateBounds_heardAt (now : ℕ) {s : CrawlState} (h : StateBounds s) :
    StateBounds (heardAt now s) :=
  stateBounds_applyClaim (stateBounds_applyClaim h (by decide)) (by decide)

/-- Another node has been there, and gone quiet. -/
def onceBusier : CrawlState :=
  (applyClaim 1 (.initial (some 5) ∅) (.nodeHello "q" ["relay"] [⟨"10.0.0.9:9000", "relay"⟩])).1

/-- All that a Crawl lists, in one piece. -/
def pollOf (s : CrawlState) (now : ℕ) : Poll :=
  ⟨now, some [frame (.graphSnapshot (graphSnapshot .default s now).1
    (graphSnapshot .default s now).2.1)]⟩

lemma whole_pollOf {s : CrawlState} {now : ℕ} (hbounds : StateBounds s)
    (hlisted : (graphSnapshot .default s now).2.2 = 0)
    (hkept : (view .default s now).1.droppedLinks = 0) : Whole .default s now (pollOf s now) :=
  ⟨fetchOnce_of_frame hbounds rfl List.flatten_cons, hlisted, hkept⟩

/-- Two Crawls that were told the same at different times. -/
theorem replicas_agree_told :
    (∃ routes, Chooses ⟨"s", ["t"], [], 4, 4⟩ (pollOf (heardAt 7 (.initial (some 5) ∅)) 8) routes ∧
      Chooses ⟨"s", ["t"], [], 4, 4⟩ (pollOf (heardAt 20 onceBusier) 21) routes) ∧
    resolveCandidates (fun _ _ _ => .default) ((⟨"s", ["t"], [], 4, 4⟩ : PlanConfig).query
      (view .default (heardAt 7 (.initial (some 5) ∅)) 8)) = [toldRoute] := by
  refine ⟨replicas_agree
    (whole_pollOf (stateBounds_heardAt 7 (stateBounds_initial _ _)) (by decide) (by decide))
    (whole_pollOf (stateBounds_heardAt 20 (stateBounds_applyClaim (stateBounds_initial _ _)
      (by decide))) (by decide) (by decide)) ?_ ?_ ?_, by decide⟩
  · have hlists : liveNodes .default (heardAt 7 (.initial (some 5) ∅)) 8 =
        liveNodes .default (heardAt 20 onceBusier) 21 := by decide
    ext node
    rw [← mem_liveNodes .default, hlists, mem_liveNodes]
  · have hlists : liveReports .default (heardAt 7 (.initial (some 5) ∅)) 8 =
        liveReports .default (heardAt 20 onceBusier) 21 := by decide
    ext report
    rw [← mem_liveReports .default, hlists, mem_liveReports]
  · intro target htarget
    rw [List.mem_singleton.mp htarget]
    have htop := (plan_top (fun link => Nat.zero_le (defaultLinkCost link))
      (fun _ _ => .default) (view .default (heardAt 7 (.initial (some 5) ∅)) 8).1
      ⟨"s", "t", [], 4⟩ 4).1
    -- the plan has room for more paths than there are
    have honly : ∀ path ∈ ((⟨"s", ["t"], [], 4, 4⟩ : PlanConfig).query
        (view .default (heardAt 7 (.initial (some 5) ∅)) 8)).paths "t", path = ["s", "t"] := by
      intro path hpath
      have hmem := htop.full (by decide) path hpath
      rw [show plan _ _ _ _ _ = [⟨["s", "t"], "radii", 20⟩] by decide] at hmem
      exact List.mem_singleton.mp hmem
    intro path hpath path' hpath' _
    rw [honly path hpath, honly path' hpath']

end Mesh

end Radii
