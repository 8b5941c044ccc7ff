import Radii.Foundations.Panic
import Radii.Routing.Resolve

/-!
# The planner, with its panics

`plan` and `resolve_candidates` of `crates/core/src/routing.rs` once more, with every subtraction,
index and slice that could panic, and for costs of which nothing is known but an order: they need
not be exact, nor add up in the way numbers do.  A loop that has used up its fuel counts as a panic.
-/

namespace Radii

namespace Checked

open Collections Graphs Panics

/-! ## The search -/

section Search

variable {C : Type} [Add C] [LinearOrder C] (linkCost : Link → C)
  (order : IterOrder NodeId (Cell Arc C)) (adjacency : HashMap NodeId (List Link))
  (bannedNodes : List NodeId) (bannedEdges : List (NodeId × NodeId))

/-- One link out of `node`, whose cell is `cell`. -/
def relaxLink (hop : ℕ) (node : NodeId) (cell : Cell Arc C) (layer : Layer C) (link : Link) :
    MayPanic (Layer C) :=
  if bannedNodes.contains link.toId then pure layer
  else if bannedEdges.contains (node, link.toId) then pure layer
  else
    let cost := cell.cost + linkCost link
    let improves := match layer.lookup link.toId with
      | some existing => decide (cost < existing.cost)
      | none => true
    if improves then do
      pure (layer.insert link.toId ⟨cost, some ((node, link), ← sub hop 1)⟩)
    else pure layer

/-- All links out of a node. -/
def relaxNode (hop : ℕ) (layer : Layer C) (entry : NodeId × Cell Arc C) : MayPanic (Layer C) :=
  match adjacency.lookup entry.1 with
  | none => pure layer
  | some links =>
      links.foldlM (relaxLink linkCost bannedNodes bannedEdges hop entry.1 entry.2) layer

/-- The turn of the search that makes the layer of `hop` hops. -/
def pushLayer (layers : List (Layer C)) (hop : ℕ) : MayPanic (List (Layer C)) := do
  let layer ← index layers (← sub hop 1)
  let before ← index layers (← sub hop 1)
  let layer ← (order.list before).foldlM
    (relaxNode linkCost adjacency bannedNodes bannedEdges hop) layer
  pure (layers ++ [layer])

/-- The loop of `reconstruct`. -/
def followParents (layers : List (Layer C)) : ℕ → NodeId × ℕ → List NodeId → List Link →
    MayPanic (Option (List NodeId × List Link))
  | 0, _, _, _ => throw .endless
  | fuel + 1, cursor, hops, links =>
      match (layers[cursor.2]?).bind fun layer => layer.lookup cursor.1 with
      | none => pure none
      | some cell =>
          match cell.parent with
          | none => pure (some (hops, links))
          | some ((previous, link), previousLayer) =>
              if hops.contains previous then pure none
              else followParents layers fuel (previous, previousLayer) (hops ++ [previous])
                (links ++ [link])

def reconstruct (layers : List (Layer C)) (source target : NodeId) (maxHops : ℕ) :
    MayPanic (Option (Path C)) :=
  match (layers[maxHops]?).bind fun layer => layer.lookup target with
  | none => pure none
  | some cell => do
      match ← followParents layers (maxHops + 1) (target, maxHops) [target] [] with
      | none => pure none
      | some (hops, links) =>
          if hops.reverse.head? ≠ some source then pure none
          else pure (some ⟨hops.reverse, links.reverse, cell.cost⟩)

def shortestPath [Zero C] (source target : NodeId) (maxHops : ℕ) (bannedNodes : List NodeId)
    (bannedEdges : List (NodeId × NodeId)) : MayPanic (Option (Path C)) :=
  if bannedNodes.contains source || bannedNodes.contains target then pure none
  else if source = target then pure (some ⟨[source], [], 0⟩)
  else do
    let _capacity ← add maxHops 1
    let layers ← (List.range' 1 maxHops).foldlM
      (pushLayer linkCost order adjacency bannedNodes bannedEdges)
      [AList.insert source ⟨0, none⟩ ∅]
    reconstruct layers source target maxHops

end Search

/-! ## The planner -/

section Plan

variable {C : Type} [Zero C] [Add C] [LinearOrder C] (linkCost : Link → C)

/-- The cost of a path, summed up link by link. -/
def total (links : List Link) : C := (links.map linkCost).foldl (· + ·) 0

/-- Bans the next hop of the path, if that begins with `root`. -/
def banEdge (root : List NodeId) (spurIndex : ℕ) (banned : List (NodeId × NodeId)) (path : Path C) :
    MayPanic (List (NodeId × NodeId)) := do
  if path.hops.length > (← add spurIndex 1) then
    if (← through path.hops spurIndex) = root then
      let a ← index path.hops spurIndex
      let b ← index path.hops (← add spurIndex 1)
      pure (banned ++ [(a, b)])
    else pure banned
  else pure banned

/-- One turn of the inner loop. -/
def trySpur (order : IterOrder NodeId (Cell Arc C)) (adjacency : HashMap NodeId (List Link))
    (target : NodeId) (maxHops : ℕ) (accepted : List (Path C)) (previous : Path C)
    (candidates : List (Path C)) (spurIndex : ℕ) : MayPanic (List (Path C)) := do
  let spurNode ← index previous.hops spurIndex
  let root ← through previous.hops spurIndex
  let bannedEdges ← (accepted ++ candidates).foldlM (banEdge root spurIndex) []
  let bannedNodes ← upTo root spurIndex
  let budget ← sub maxHops spurIndex
  let found ← shortestPath linkCost order adjacency spurNode target budget bannedNodes bannedEdges
  match found with
  | none => pure candidates
  | some spurPath => do
      let hops := (← upTo root spurIndex) ++ spurPath.hops
      let links := (← upTo previous.links spurIndex) ++ spurPath.links
      let combined : Path C := ⟨hops, links, total linkCost links⟩
      let alreadyKnown := (accepted ++ candidates).any fun path => path.hops = combined.hops
      if alreadyKnown then pure candidates else pure (candidates ++ [combined])

def bestIndex (candidates : List (Path C)) : MayPanic ℕ :=
  candidates.zipIdx.foldlM (fun best entry => do
    let kept ← index candidates best
    pure (if entry.1.cost < kept.cost then entry.2 else best)) 0

/-- The outer loop, with the candidates that are left. -/
def acceptMore (orders : ℕ → ℕ → IterOrder NodeId (Cell Arc C))
    (adjacency : HashMap NodeId (List Link)) (target : NodeId) (maxHops : ℕ) :
    ℕ → List (Path C) → List (Path C) → MayPanic (List (Path C) × List (Path C))
  | 0, accepted, candidates => pure (accepted, candidates)
  | more + 1, accepted, candidates => do
      let previous ← index accepted (← sub accepted.length 1)
      let candidates ← (List.range (previous.hops.length - 1)).foldlM
        (fun candidates spurIndex => trySpur linkCost (orders accepted.length spurIndex) adjacency
          target maxHops accepted previous candidates spurIndex) candidates
      if candidates.isEmpty then pure (accepted, candidates)
      else do
        let best ← bestIndex candidates
        let (path, candidates) ← remove candidates best
        acceptMore orders adjacency target maxHops more (accepted ++ [path]) candidates

/-- The paths that `plan` accepts, and the candidates it does not. -/
def planPaths (orders : ℕ → ℕ → IterOrder NodeId (Cell Arc C)) (snapshot : GraphSnapshot)
    (request : RouteRequest) (limit : ℕ) : MayPanic (List (Path C) × List (Path C)) :=
  let limit := min limit maxRouteResults
  let maxHops := min request.maxHops maxRouteHops
  if limit = 0 then pure ([], [])
  else do
    let adjacency := buildAdjacency snapshot request.allowedProtocols
    let found ← shortestPath linkCost (orders 0 0) adjacency request.source request.target maxHops
      [] []
    match found with
    | none => pure ([], [])
    | some best => acceptMore linkCost orders adjacency request.target maxHops (limit - 1) [best] []

/-- `RoutePlanner::plan`. -/
def plan (orders : ℕ → ℕ → IterOrder NodeId (Cell Arc C)) (snapshot : GraphSnapshot)
    (request : RouteRequest) (limit : ℕ) : MayPanic (List (RouteCandidate C)) := do
  let (accepted, _) ← planPaths linkCost orders snapshot request limit
  pure (accepted.map Path.candidate)

end Plan

/-! ## Dialable routes -/

section Resolve

variable {C : Type}

/-- A dialable route, as the program has it: that there is a hop is for `resolve_candidates` to see
to. -/
structure ResolvedRoute (C : Type) where
  hops : List ResolvedHop
  score : C

/-- `ResolvedRoute::target`. -/
def ResolvedRoute.target (route : ResolvedRoute C) : MayPanic NodeId := do
  let hop ← expect route.hops.getLast? "ResolvedRoute::hops is non-empty by construction"
  pure hop.nodeId

/-- `ResolvedRoute::node_sequence`. -/
def ResolvedRoute.nodeSequence (route : ResolvedRoute C) : List NodeId :=
  route.hops.map ResolvedHop.nodeId

def resolveCandidate (q : Query) (candidate : RouteCandidate C) :
    MayPanic (Option (ResolvedRoute C)) := do
  let lastIndex ← sub candidate.hops.length 1
  match resolveHops q lastIndex (candidate.hops.zipIdx.drop 1) [] with
  | none => pure none
  | some hops => if hops.isEmpty then pure none else pure (some ⟨hops, candidate.score⟩)

variable [Zero C] [Add C] [LinearOrder C] (linkCost : Link → C)

/-- The turn of one target, with its plan. -/
def resolveTarget (orders : ℕ → ℕ → ℕ → IterOrder NodeId (Cell Arc C)) (q : Query)
    (resolved : List (ResolvedRoute C)) (entry : NodeId × ℕ) :
    MayPanic (List (ResolvedRoute C)) := do
  let candidates ← plan linkCost (orders entry.2) q.snapshot
    ⟨q.source, entry.1, q.allowedProtocols, q.maxHops⟩ q.limit
  candidates.foldlM (fun resolved candidate => do
    let route ← resolveCandidate q candidate
    pure (resolved ++ route.toList)) resolved

def resolveCandidates (orders : ℕ → ℕ → ℕ → IterOrder NodeId (Cell Arc C)) (q : Query) :
    MayPanic (List (ResolvedRoute C)) := do
  let resolved ← q.targets.zipIdx.foldlM (resolveTarget linkCost orders q) []
  pure ((distinctBy ResolvedRoute.nodeSequence []
    (resolved.insertionSort fun a b => a.score ≤ b.score)).take q.limit)

end Resolve

end Checked

end Radii
