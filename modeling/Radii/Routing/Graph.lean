import Radii.Foundations.Relaxation

/-!
# The reachability graph

`crates/core/src/routing.rs`: the snapshot a planner works on, how it is put together from peers'
reports, and the adjacency map of the links a request may use.  `Usable` says which these are,
`network` is the network they make, and `arcs` the one an adjacency map describes.
-/

namespace Radii

open Collections Graphs

/-! ## Ceilings -/

def maxGraphNodes : ℕ := 4096
def maxGraphLinks : ℕ := 32768
def maxRouteHops : ℕ := 32
def maxRouteResults : ℕ := 32

/-! ## Snapshots -/

abbrev NodeId := String
abbrev ProtocolId := String
abbrev RoleId := String

/-- One direction of reachability, as reported. -/
structure Link where
  fromId : NodeId
  toId : NodeId
  protocol : ProtocolId
  reachable : Bool
  latencyMs : Option UInt32
  deriving DecidableEq, Repr

structure GraphSnapshot where
  nodes : Finset NodeId
  links : List Link
  /-- How many links were refused because the snapshot was at a cap. -/
  droppedLinks : ℕ
  deriving DecidableEq

/-- What a peer says about one link. -/
structure ReachabilityReport where
  fromId : String
  target : String
  protocol : String
  reachable : Bool
  rttMs : Option UInt32
  deriving DecidableEq, Repr

namespace GraphSnapshot

def new : GraphSnapshot := ⟨∅, [], 0⟩

/-- Adds a link, or drops it if the snapshot is at its size cap; the flag says which. -/
def addLink (s : GraphSnapshot) (link : Link) : GraphSnapshot × Bool :=
  let wouldAddNodes := (if link.fromId ∈ s.nodes then 0 else 1) +
    (if link.toId ∈ s.nodes then 0 else 1)
  if s.links.length ≥ maxGraphLinks ∨ s.nodes.card + wouldAddNodes > maxGraphNodes then
    ({ s with droppedLinks := s.droppedLinks + 1 }, false)
  else
    (⟨insert link.toId (insert link.fromId s.nodes), s.links ++ [link], s.droppedLinks⟩, true)

def fromReports (reports : List ReachabilityReport) : GraphSnapshot :=
  reports.foldl (fun snapshot report => (snapshot.addLink
    ⟨report.fromId, report.target, report.protocol, report.reachable, report.rttMs⟩).1) new

end GraphSnapshot

lemma GraphSnapshot.mem_links_addLink {s : GraphSnapshot} {link new : Link}
    (h : link ∈ (s.addLink new).1.links) : link ∈ s.links ∨ link = new := by
  have hcases : (s.addLink new).1.links = s.links ∨ (s.addLink new).1.links = s.links ++ [new] :=
    ite_eq_or_eq _ _ _ |>.imp (congrArg fun r : GraphSnapshot × Bool => r.1.links)
      (congrArg fun r : GraphSnapshot × Bool => r.1.links)
  rcases hcases with heq | heq
  · exact Or.inl (heq ▸ h)
  · rw [heq] at h
    simpa using h

/-! ## The links of a request -/

structure RouteRequest where
  source : NodeId
  target : NodeId
  allowedProtocols : List ProtocolId
  maxHops : ℕ
  deriving DecidableEq, Repr

/-- Whether planning may use the link.  An empty list of protocols allows all. -/
def Usable (allowed : List ProtocolId) (link : Link) : Prop :=
  link.reachable = true ∧ (allowed = [] ∨ link.protocol ∈ allowed)

/-- One link's turn in `build_adjacency`. -/
def addAdjacent (allowed : List ProtocolId) (map : HashMap NodeId (List Link)) (link : Link) :
    HashMap NodeId (List Link) :=
  if !link.reachable then map
  else if !allowed.isEmpty && !allowed.contains link.protocol then map
  else map.insert link.fromId ((map.lookup link.fromId).getD [] ++ [link])

/-- `build_adjacency`: the usable links, by the node they start from. -/
def buildAdjacency (snapshot : GraphSnapshot) (allowed : List ProtocolId) :
    HashMap NodeId (List Link) :=
  snapshot.links.foldl (addAdjacent allowed) ∅

/-- The links an adjacency map holds for a node. -/
def linksOf (adjacency : HashMap NodeId (List Link)) (node : NodeId) : List Link :=
  (adjacency.lookup node).getD []

lemma addAdjacent_of_not_usable {allowed : List ProtocolId} {map : HashMap NodeId (List Link)}
    {link : Link} (h : ¬ Usable allowed link) : addAdjacent allowed map link = map := by
  rw [addAdjacent]
  split_ifs with hreachable hallowed
  · rfl
  · rfl
  · refine absurd ⟨by simpa using hreachable, ?_⟩ h
    simp only [Bool.and_eq_true, Bool.not_eq_true', List.isEmpty_eq_false_iff,
      List.contains_eq_mem, decide_eq_false_iff_not, not_and, not_not] at hallowed
    by_cases hnil : allowed = []
    · exact Or.inl hnil
    · exact Or.inr (hallowed hnil)

lemma addAdjacent_of_usable {allowed : List ProtocolId} {map : HashMap NodeId (List Link)}
    {link : Link} (h : Usable allowed link) :
    addAdjacent allowed map link =
      map.insert link.fromId (linksOf map link.fromId ++ [link]) := by
  rcases h with ⟨hreachable, hallowed⟩
  rw [addAdjacent, if_neg (by simp [hreachable]), if_neg, linksOf]
  rcases hallowed with rfl | hmem
  · simp
  · simp [hmem]

lemma mem_linksOf_addAdjacent {allowed : List ProtocolId} {map : HashMap NodeId (List Link)}
    {node : NodeId} {link new : Link} :
    link ∈ linksOf (addAdjacent allowed map new) node ↔
      link ∈ linksOf map node ∨ link = new ∧ Usable allowed new ∧ new.fromId = node := by
  by_cases husable : Usable allowed new
  · rw [addAdjacent_of_usable husable]
    by_cases hnode : node = new.fromId
    · subst hnode
      rw [linksOf, AList.lookup_insert, Option.getD_some, List.mem_append, List.mem_singleton]
      simp [husable]
    · rw [linksOf, HashMap.lookup_insert_of_ne hnode, ← linksOf]
      simp [Ne.symm hnode]
  · rw [addAdjacent_of_not_usable husable]
    simp [husable]

/-- An adjacency map lists exactly the usable links, each under the node it starts from. -/
lemma mem_linksOf_buildAdjacency {snapshot : GraphSnapshot} {allowed : List ProtocolId}
    {node : NodeId} {link : Link} :
    link ∈ linksOf (buildAdjacency snapshot allowed) node ↔
      link ∈ snapshot.links ∧ Usable allowed link ∧ link.fromId = node := by
  have hfold : ∀ (links : List Link) (map : HashMap NodeId (List Link)),
      link ∈ linksOf (links.foldl (addAdjacent allowed) map) node ↔
        link ∈ linksOf map node ∨ link ∈ links ∧ Usable allowed link ∧ link.fromId = node := by
    intro links
    induction links with
    | nil => simp
    | cons new links ih =>
        intro map
        rw [List.foldl_cons, ih, mem_linksOf_addAdjacent, List.mem_cons, or_assoc, or_and_right]
        refine or_congr_right (or_congr_left ?_)
        constructor
        · rintro ⟨rfl, h⟩
          exact ⟨rfl, h⟩
        · rintro ⟨rfl, h⟩
          exact ⟨rfl, h⟩
  rw [buildAdjacency, hfold]
  simp [linksOf]

/-- A link, and the node it is taken from. -/
abbrev Arc := NodeId × Link

variable {C : Type} [LinearOrder C]

/-- The network an adjacency map describes. -/
def arcs (adjacency : HashMap NodeId (List Link)) (linkCost : Link → C) : CostGraph NodeId Arc C where
  src := Prod.fst
  dst arc := arc.2.toId
  cost arc := linkCost arc.2
  Has arc := arc.2 ∈ linksOf adjacency arc.1
  attains := by
    rintro _ _ ⟨⟨a, link⟩, hlink, rfl, rfl⟩
    obtain ⟨cheapest, hmem, hleast⟩ := Finset.exists_min_image
      ((linksOf adjacency a).filter fun l => l.toId = link.toId).toFinset linkCost
      ⟨link, by simpa using hlink⟩
    rw [List.mem_toFinset, List.mem_filter, decide_eq_true_eq] at hmem
    refine ⟨(a, cheapest), ⟨hmem.1, rfl, hmem.2⟩, ?_⟩
    rintro ⟨_, other⟩ hother rfl hto
    exact hleast other (by simpa using ⟨hother, hto⟩)

/-- The network of the links a request may use. -/
def network (snapshot : GraphSnapshot) (allowed : List ProtocolId) (linkCost : Link → C) :
    CostGraph NodeId Arc C where
  src := Prod.fst
  dst arc := arc.2.toId
  cost arc := linkCost arc.2
  Has arc := arc.2 ∈ snapshot.links ∧ Usable allowed arc.2 ∧ arc.2.fromId = arc.1
  attains := by
    have hattains := (arcs (buildAdjacency snapshot allowed) linkCost).attains
    simpa only [arcs, mem_linksOf_buildAdjacency] using hattains

/-- The adjacency map describes it. -/
lemma arcs_buildAdjacency (snapshot : GraphSnapshot) (allowed : List ProtocolId)
    (linkCost : Link → C) :
    arcs (buildAdjacency snapshot allowed) linkCost = network snapshot allowed linkCost := by
  simp only [arcs, network, mem_linksOf_buildAdjacency]

end Radii
