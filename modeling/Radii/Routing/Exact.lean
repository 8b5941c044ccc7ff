import Radii.Routing.Search

/-!
# What a search returns

A way from `source` to `target` is a list of hops with a link for each step between them.
`shortestPath_exact` says that `shortest_path` finds a cheapest way of those that stay within the
hop budget and avoid what is banned, and returns nothing only if there is none; a target that has a
cell in the last layer is never given up.
-/

namespace Radii

open Collections Graphs

/-- There is one link for each step, of those that the map has for the hop it is taken from. -/
def Steps (adjacency : HashMap NodeId (List Link)) : List NodeId → List Link → Prop
  | [_], [] => True
  | a :: b :: hops, link :: links =>
      (link ∈ linksOf adjacency a ∧ link.toId = b) ∧ Steps adjacency (b :: hops) links
  | _, _ => False

/-- A way from `source` to `target` over at most `maxHops` links, that avoids the nodes and the
pairs that are banned. -/
structure Way (adjacency : HashMap NodeId (List Link)) (bannedNodes : List NodeId)
    (bannedEdges : List (NodeId × NodeId)) (source target : NodeId) (maxHops : ℕ)
    (hops : List NodeId) (links : List Link) : Prop where
  head : hops.head? = some source
  last : hops.getLast? = some target
  steps : Steps adjacency hops links
  nodes : ∀ node ∈ hops, node ∉ bannedNodes
  pairs : ∀ pair ∈ hops.zip hops.tail, pair ∉ bannedEdges
  length : links.length ≤ maxHops

section Exact

variable {C : Type} [LinearOrder C] {linkCost : Link → C}
  {adjacency : HashMap NodeId (List Link)} {bannedNodes : List NodeId}
  {bannedEdges : List (NodeId × NodeId)} {source target : NodeId} {maxHops : ℕ}

lemma Steps.length {hops : List NodeId} {links : List Link} (h : Steps adjacency hops links) :
    hops.length = links.length + 1 := by
  induction links generalizing hops with
  | nil =>
      match hops, h with
      | [_], _ => rfl
  | cons link links ih =>
      match hops, h with
      | a :: b :: hops, h => rw [List.length_cons, ih h.2, List.length_cons]

variable (linkCost) in
/-- The steps of a way are a walk over the arcs. -/
lemma Steps.isWalk {hops : List NodeId} {links : List Link} (h : Steps adjacency hops links)
    (hhead : hops.head? = some source) (hlast : hops.getLast? = some target) :
    ∃ es, (arcs adjacency linkCost).IsWalk source es target ∧
      (arcs adjacency linkCost).vertices source es = hops ∧ es.map Prod.snd = links := by
  induction links generalizing hops source with
  | nil =>
      match hops, h with
      | [a], _ =>
          rw [List.head?_cons, Option.some.injEq] at hhead
          rw [List.getLast?_singleton, Option.some.injEq] at hlast
          subst hhead
          exact ⟨[], hlast, rfl, rfl⟩
  | cons link links ih =>
      match hops, h with
      | a :: b :: hops, h =>
          rcases h with ⟨⟨hlink, rfl⟩, hsteps⟩
          rw [List.head?_cons, Option.some.injEq] at hhead
          rw [List.getLast?_cons_cons] at hlast
          subst hhead
          rcases ih hsteps rfl hlast with ⟨es, hwalk, hvertices, hlinks⟩
          refine ⟨(a, link) :: es, ⟨hlink, rfl, hwalk⟩, ?_, ?_⟩
          · rw [CostGraph.vertices_cons]
            exact congrArg (a :: ·) hvertices
          · rw [List.map_cons, hlinks]

lemma steps_of_isWalk {es : List Arc} (h : (arcs adjacency linkCost).IsWalk source es target) :
    Steps adjacency ((arcs adjacency linkCost).vertices source es) (es.map Prod.snd) := by
  induction es generalizing source with
  | nil => trivial
  | cons e es ih =>
      rcases h with ⟨hlink, rfl, hwalk⟩
      exact ⟨⟨hlink, rfl⟩, ih hwalk⟩

/-- A walk of the search, within its budget, is a way. -/
lemma way_of_isWalk {es : List Arc} (hsource : source ∉ bannedNodes)
    (h : (searched linkCost adjacency bannedNodes bannedEdges).IsWalk source es target)
    (hlength : es.length ≤ maxHops) :
    Way adjacency bannedNodes bannedEdges source target maxHops
      ((searched linkCost adjacency bannedNodes bannedEdges).vertices source es)
      (es.map Prod.snd) := by
  rcases CostGraph.isWalk_restrict.mp h with ⟨hwalk, hunbanned⟩
  refine ⟨rfl, h.last, steps_of_isWalk hwalk, ?_, ?_, (es.length_map _).trans_le hlength⟩
  · intro node hnode
    rcases List.mem_cons.mp hnode with rfl | hnode
    · exact hsource
    · rcases List.mem_map.mp hnode with ⟨e, he, rfl⟩
      exact (hunbanned e he).1
  · rw [CostGraph.vertices, List.tail_cons, ← CostGraph.vertices, h.zip_vertices,
      List.forall_mem_map]
    intro e he
    exact (hunbanned e he).2

variable [AddCommMonoid C]

variable (linkCost) in
/-- A way is a walk of the search. -/
lemma Way.isWalk {hops : List NodeId} {links : List Link}
    (h : Way adjacency bannedNodes bannedEdges source target maxHops hops links) :
    ∃ es, (searched linkCost adjacency bannedNodes bannedEdges).IsWalk source es target ∧
      es.length ≤ maxHops ∧
      (searched linkCost adjacency bannedNodes bannedEdges).walkCost es =
        (links.map linkCost).sum := by
  rcases h.steps.isWalk linkCost h.head h.last with ⟨es, hwalk, rfl, rfl⟩
  have hpairs := h.pairs
  rw [CostGraph.vertices, List.tail_cons, ← CostGraph.vertices, hwalk.zip_vertices,
    List.forall_mem_map] at hpairs
  refine ⟨es, CostGraph.isWalk_restrict.mpr ⟨hwalk, ?_⟩, ?_, ?_⟩
  · intro e he
    exact ⟨h.nodes _ (List.mem_cons_of_mem _ (List.mem_map_of_mem he)), hpairs e he⟩
  · rw [← es.length_map Prod.snd]
    exact h.length
  · rw [List.map_map]
    rfl

variable [IsOrderedCancelAddMonoid C]

/-- Nothing that the last layer has a cell for is given up on the way back: no node comes twice,
and the way back ends at the source. -/
lemma reconstruct_ne_none {order : IterOrder NodeId (Cell Arc C)}
    (hcost : ∀ link, 0 ≤ linkCost link)
    (hcell : (layerAt linkCost order adjacency bannedNodes bannedEdges source maxHops).lookup
      target ≠ none) :
    reconstruct ((List.range (maxHops + 1)).map
      (layerAt linkCost order adjacency bannedNodes bannedEdges source)) source target maxHops ≠
        none := by
  obtain ⟨cell, hcell⟩ := Option.ne_none_iff_exists'.mp hcell
  obtain ⟨es, -, -, hfound⟩ := reconstruct_shortest hcost hcell
  rw [hfound]
  exact Option.some_ne_none _

variable (linkCost) in
/-- **The search is exact.**  It returns nothing only where there is no way; otherwise a cheapest
one, that visits no node twice.  A target with a cell in the last layer is always returned. -/
theorem shortestPath_exact (order : IterOrder NodeId (Cell Arc C))
    (adjacency : HashMap NodeId (List Link)) (source target : NodeId) (maxHops : ℕ)
    (bannedNodes : List NodeId) (bannedEdges : List (NodeId × NodeId))
    (hcost : ∀ link, 0 ≤ linkCost link) (hsource : source ∉ bannedNodes)
    (htarget : target ∉ bannedNodes) :
    (shortestPath linkCost order adjacency source target maxHops bannedNodes bannedEdges = none ↔
      ¬ ∃ hops links, Way adjacency bannedNodes bannedEdges source target maxHops hops links) ∧
    (∀ path, shortestPath linkCost order adjacency source target maxHops bannedNodes bannedEdges =
        some path →
      Way adjacency bannedNodes bannedEdges source target maxHops path.hops path.links ∧
      path.hops.Nodup ∧ path.hops.length = path.links.length + 1 ∧
      path.cost = (path.links.map linkCost).sum ∧
      ∀ hops links, Way adjacency bannedNodes bannedEdges source target maxHops hops links →
        path.cost ≤ (links.map linkCost).sum) ∧
    ((layerAt linkCost order adjacency bannedNodes bannedEdges source maxHops).lookup target ≠
        none →
      reconstruct ((List.range (maxHops + 1)).map
        (layerAt linkCost order adjacency bannedNodes bannedEdges source)) source target maxHops ≠
          none) := by
  rw [← and_assoc]
  refine ⟨?_, reconstruct_ne_none hcost⟩
  rcases shortestPath_spec order adjacency bannedEdges hcost maxHops hsource htarget with
    ⟨hnone, hlong⟩ | ⟨es, hshortest, hnodup, hsome⟩
  · -- no walk is short enough
    refine ⟨iff_of_true hnone ?_, ?_⟩
    · rintro ⟨hops, links, hway⟩
      rcases hway.isWalk linkCost with ⟨es, hwalk, hlength, -⟩
      exact absurd hlength (not_le.mpr (hlong es hwalk))
    · intro path hpath
      rw [hnone] at hpath
      exact absurd hpath.symm (Option.some_ne_none _)
  · have hway := way_of_isWalk hsource hshortest.isWalk hshortest.length
    refine ⟨iff_of_false ?_ ?_, ?_⟩
    · rw [hsome]
      exact Option.some_ne_none _
    · exact not_not_intro ⟨_, _, hway⟩
    · intro path hpath
      rw [hsome, Option.some.injEq] at hpath
      subst hpath
      refine ⟨hway, hnodup, hway.steps.length, ?_, ?_⟩
      · rw [List.map_map]
        rfl
      · intro hops links hother
        rcases hother.isWalk linkCost with ⟨fs, hfs, hlength, hcostOf⟩
        rw [← hcostOf]
        exact hshortest.least fs hfs hlength

/-- Links that cost nothing, round which a walk may go for ever. -/
def freeRound : HashMap NodeId (List Link) :=
  buildAdjacency (GraphSnapshot.fromReports [⟨"a", "b", "radii", true, some 0⟩,
    ⟨"b", "a", "radii", true, some 0⟩, ⟨"a", "c", "radii", true, some 0⟩,
    ⟨"b", "c", "radii", true, some 0⟩]) []

/-- With the link from `a` to `c` banned, the way leads over `b`, once. -/
theorem shortestPath_exact_freeRound :
    Way freeRound ["d"] [("a", "c")] "a" "c" 5 ["a", "b", "c"]
      [⟨"a", "b", "radii", true, some 0⟩, ⟨"b", "c", "radii", true, some 0⟩] ∧
    ["a", "b", "c"].Nodup :=
  have h := (shortestPath_exact (fun link => (link.latencyMs.map UInt32.toNat).getD 0)
    .default freeRound "a" "c" 5 ["d"] [("a", "c")] (fun _ => Nat.zero_le _) (by decide)
    (by decide)).2.1 ⟨["a", "b", "c"], [⟨"a", "b", "radii", true, some 0⟩,
      ⟨"b", "c", "radii", true, some 0⟩], 0⟩ rfl
  ⟨h.1, h.2.1⟩

end Exact

end Radii
