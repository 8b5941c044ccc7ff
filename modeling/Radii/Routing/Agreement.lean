import Radii.Routing.NoPanic

/-!
# What planning returns

Where costs are exact, the planner that may panic returns what the planner without panics is said to
return, and so has all that is known of it: `plan_eq` for the plans, `resolveCandidates_eq` for the
dialable routes.
-/

namespace Radii

namespace Checked

open Collections Graphs Panics

/-! ## The search -/

section Search

variable {C : Type} [AddCommMonoid C] [LinearOrder C] {linkCost : Link → C}
  {order : IterOrder NodeId (Cell Arc C)} {adjacency : HashMap NodeId (List Link)}
  {bannedNodes : List NodeId} {bannedEdges : List (NodeId × NodeId)}

lemma relaxLink_yields (previous : ℕ) (node : NodeId) (cell : Cell Arc C) (layer : Layer C)
    (link : Link) :
    Yields (relaxLink linkCost bannedNodes bannedEdges (previous + 1) node cell layer link)
      (· = Radii.relaxLink linkCost bannedNodes bannedEdges previous node cell layer link) := by
  have hput : Yields (do
      pure (layer.insert link.toId ⟨cell.cost + linkCost link,
        some ((node, link), ← sub (previous + 1) 1)⟩))
      (· = layer.insert link.toId ⟨cell.cost + linkCost link, some ((node, link), previous)⟩) := by
    refine (yields_sub _ _).bind_eq ?_
    exact yields_pure rfl
  rw [relaxLink, Radii.relaxLink]
  split_ifs
  · exact yields_pure rfl
  · exact yields_pure rfl
  · cases layer.lookup link.toId with
    | none => exact hput
    | some existing =>
        by_cases hlt : cell.cost + linkCost link < existing.cost
        · simp only [hlt, decide_true, if_true]
          exact hput
        · simp only [hlt, decide_false, Bool.false_eq_true, if_false]
          exact yields_pure rfl

lemma relaxNode_yields (previous : ℕ) (layer : Layer C) (entry : NodeId × Cell Arc C) :
    Yields (relaxNode linkCost adjacency bannedNodes bannedEdges (previous + 1) layer entry)
      (· = Radii.relaxNode linkCost adjacency bannedNodes bannedEdges previous layer entry.1
        entry.2) := by
  rw [relaxNode, Radii.relaxNode]
  cases adjacency.lookup entry.1 with
  | none => exact yields_pure rfl
  | some links =>
      exact foldlM_yields (fun link _ layer => relaxLink_yields previous _ _ layer link) layer

variable (linkCost order adjacency bannedNodes bannedEdges) in
/-- The layers of up to `hop` hops. -/
def layersUpTo (source : NodeId) (hop : ℕ) : List (Layer C) :=
  (List.range (hop + 1)).map (layerAt linkCost order adjacency bannedNodes bannedEdges source)

lemma pushLayer_yields (source : NodeId) (hop : ℕ) :
    Yields (pushLayer linkCost order adjacency bannedNodes bannedEdges
        (layersUpTo linkCost order adjacency bannedNodes bannedEdges source hop) (hop + 1))
      (· = layersUpTo linkCost order adjacency bannedNodes bannedEdges source (hop + 1)) := by
  have hindex : Yields (index (layersUpTo linkCost order adjacency bannedNodes bannedEdges source
      hop) hop) (· = layerAt linkCost order adjacency bannedNodes bannedEdges source hop) := by
    intro layer hlayer
    have hget := yields_index _ _ layer hlayer
    rw [layersUpTo, getElem?_layers _ le_rfl, Option.some.injEq] at hget
    exact hget.symm
  have hsub : Yields (sub (hop + 1) 1) (· = hop) := yields_sub _ _
  rw [pushLayer]
  refine hsub.bind_eq ?_
  refine hindex.bind_eq ?_
  refine hsub.bind_eq ?_
  refine hindex.bind_eq ?_
  refine (foldlM_yields (fun entry _ layer => relaxNode_yields hop layer entry) _).bind_eq ?_
  refine yields_pure ?_
  rw [layersUpTo, layersUpTo, List.range_succ (n := hop + 1), List.map_append]
  rfl

lemma layers_yield (source : NodeId) (maxHops : ℕ) :
    Yields ((List.range' 1 maxHops).foldlM
        (pushLayer linkCost order adjacency bannedNodes bannedEdges)
        [AList.insert source ⟨0, none⟩ ∅])
      (· = layersUpTo linkCost order adjacency bannedNodes bannedEdges source maxHops) := by
  induction maxHops with
  | zero => exact yields_pure rfl
  | succ maxHops ih =>
      rw [List.range'_1_concat, List.foldlM_append]
      refine ih.bind_eq ?_
      rw [List.foldlM_cons, Nat.add_comm]
      refine (pushLayer_yields source maxHops).bind_eq ?_
      exact yields_pure rfl

omit [AddCommMonoid C] [LinearOrder C] in
lemma followParents_yields (layers : List (Layer C)) (fuel : ℕ) (cursor : NodeId × ℕ)
    (hops : List NodeId) (links : List Link) :
    Yields (followParents layers fuel cursor hops links)
      (· = Radii.followParents layers fuel cursor hops links) := by
  induction fuel generalizing cursor hops links with
  | zero => exact yields_throw _
  | succ fuel ih =>
      rw [followParents, Radii.followParents]
      cases (layers[cursor.2]?).bind fun layer => layer.lookup cursor.1 with
      | none => exact yields_pure rfl
      | some cell =>
          dsimp only
          cases cell.parent with
          | none => exact yields_pure rfl
          | some parent =>
              dsimp only
              split_ifs
              · exact yields_pure rfl
              · exact ih _ _ _

omit [AddCommMonoid C] [LinearOrder C] in
lemma reconstruct_yields (layers : List (Layer C)) (source target : NodeId) (maxHops : ℕ) :
    Yields (reconstruct layers source target maxHops)
      (· = Radii.reconstruct layers source target maxHops) := by
  rw [reconstruct, Radii.reconstruct]
  cases (layers[maxHops]?).bind fun layer => layer.lookup target with
  | none => exact yields_pure rfl
  | some cell =>
      refine (followParents_yields layers _ _ _ _).bind_eq ?_
      cases Radii.followParents layers (maxHops + 1) (target, maxHops) [target] [] with
      | none => exact yields_pure rfl
      | some found =>
          dsimp only
          split_ifs
          · exact yields_pure rfl
          · exact yields_pure rfl

/-- **The search** returns what it does without panics. -/
theorem shortestPath_yields (source target : NodeId) (maxHops : ℕ) :
    Yields (shortestPath linkCost order adjacency source target maxHops bannedNodes bannedEdges)
      (· = Radii.shortestPath linkCost order adjacency source target maxHops bannedNodes
        bannedEdges) := by
  rw [shortestPath, Radii.shortestPath]
  split_ifs
  · exact yields_pure rfl
  · exact yields_pure rfl
  · refine (yields_add _ _).bind fun _ _ => (layers_yield source maxHops).bind_eq ?_
    exact reconstruct_yields _ _ _ _

end Search

/-! ## The planner -/

section Plan

variable {C : Type}

/-- The hops banned at a root. -/
lemma banEdges_yield (paths : List (Path C)) (root : List NodeId) (spurIndex : ℕ) :
    Yields (paths.foldlM (banEdge root spurIndex) [])
      (· = Radii.bannedEdges paths root spurIndex) := by
  rw [Radii.bannedEdges, List.filterMap_eq_flatMap_toList, List.flatMap_eq_foldl]
  refine foldlM_yields ?_ []
  intro path _ banned
  rw [banEdge]
  refine (yields_add _ _).bind_eq ?_
  by_cases hlength : path.hops.length > spurIndex + 1
  · rw [if_pos hlength]
    refine (yields_through _ _).bind_eq ?_
    by_cases hroot : path.hops.take (spurIndex + 1) = root
    · rw [if_pos hroot, if_pos ⟨hlength, hroot⟩]
      refine (yields_index _ _).bind fun a ha => ?_
      refine (yields_add _ _).bind_eq ?_
      refine (yields_index _ _).bind fun b hb => yields_pure ?_
      rw [ha, hb]
      rfl
    · rw [if_neg hroot, if_neg fun h => hroot h.2]
      exact yields_pure (List.append_nil _).symm
  · rw [if_neg hlength, if_neg fun h => hlength h.1]
    exact yields_pure (List.append_nil _).symm

lemma bestIndex_yields [LinearOrder C] (candidates : List (Path C)) :
    Yields (bestIndex candidates) (· = Radii.bestIndex candidates) := by
  have hrange : List.range candidates.length = candidates.zipIdx.map Prod.snd := by
    rw [List.zipIdx_map_snd, List.range_eq_range']
  rw [Radii.bestIndex, hrange, List.foldl_map]
  refine foldlM_yields ?_ 0
  rintro ⟨path, index⟩ hmem best
  have hpath : candidates[index]? = some path := List.mk_mem_zipIdx_iff_getElem?.mp hmem
  refine (yields_index _ _).bind fun kept hkept => yields_pure ?_
  rw [hpath, hkept]

variable [AddCommMonoid C] [LinearOrder C] {linkCost : Link → C}
  {adjacency : HashMap NodeId (List Link)} {target : NodeId} {maxHops : ℕ}

omit [LinearOrder C] in
lemma total_eq (links : List Link) : total linkCost links = (links.map linkCost).sum := by
  rw [total, List.sum_eq_foldl]

/-- **One turn of the inner loop** returns what it does without panics. -/
theorem trySpur_yields (order : IterOrder NodeId (Cell Arc C)) (accepted : List (Path C))
    (previous : Path C) (candidates : List (Path C)) (spurIndex : ℕ) :
    Yields (trySpur linkCost order adjacency target maxHops accepted previous candidates spurIndex)
      (· = Radii.trySpur linkCost order adjacency target maxHops accepted previous candidates
        spurIndex) := by
  rw [trySpur]
  refine (yields_index _ _).bind fun spurNode hspurNode => ?_
  rw [Radii.trySpur, hspurNode]
  refine (yields_through _ _).bind_eq ?_
  refine (banEdges_yield _ _ _).bind_eq ?_
  refine (yields_upTo _ _).bind_eq ?_
  refine (yields_sub _ _).bind_eq ?_
  refine (shortestPath_yields _ _ _).bind_eq ?_
  dsimp only
  cases Radii.shortestPath linkCost order adjacency spurNode target (maxHops - spurIndex)
    ((previous.hops.take (spurIndex + 1)).take spurIndex)
    (Radii.bannedEdges (accepted ++ candidates) (previous.hops.take (spurIndex + 1)) spurIndex) with
  | none => exact yields_pure rfl
  | some spurPath =>
      refine (yields_upTo _ _).bind_eq ?_
      refine (yields_upTo _ _).bind_eq ?_
      rw [total_eq]
      dsimp only
      split_ifs
      · exact yields_pure rfl
      · exact yields_pure rfl

/-- **The outer loop** accepts what it does without panics. -/
theorem acceptMore_yields (orders : ℕ → ℕ → IterOrder NodeId (Cell Arc C)) (more : ℕ)
    (accepted candidates : List (Path C)) :
    Yields (acceptMore linkCost orders adjacency target maxHops more accepted candidates)
      fun paths => paths.1 = Radii.acceptMore linkCost orders adjacency target maxHops more accepted
        candidates := by
  induction more generalizing accepted candidates with
  | zero => exact yields_pure rfl
  | succ more ih =>
      rw [acceptMore, Radii.acceptMore]
      refine (yields_sub _ _).bind_eq ?_
      refine (yields_index _ _).bind fun previous hprevious => ?_
      rw [← List.getLast?_eq_getElem?] at hprevious
      rw [hprevious]
      refine (foldlM_yields (fun spurIndex _ candidates =>
        trySpur_yields _ accepted previous candidates spurIndex) candidates).bind ?_
      intro found hfound
      dsimp only
      rw [← hfound]
      by_cases hempty : found = []
      · subst hempty
        exact yields_pure rfl
      · rw [if_neg (by simpa using hempty)]
        refine (bestIndex_yields found).bind_eq ?_
        refine (yields_remove _ _).bind ?_
        rintro ⟨path, rest⟩ ⟨hpath, rfl⟩
        rw [hpath]
        exact ih _ _

lemma planPaths_yields (orders : ℕ → ℕ → IterOrder NodeId (Cell Arc C)) (snapshot : GraphSnapshot)
    (request : RouteRequest) (limit : ℕ) :
    Yields (planPaths linkCost orders snapshot request limit) fun paths =>
      paths.1.map Path.candidate = Radii.plan linkCost orders snapshot request limit := by
  rw [planPaths, Radii.plan]
  dsimp only
  split_ifs
  · exact yields_pure rfl
  · refine (shortestPath_yields _ _ _).bind_eq ?_
    cases Radii.shortestPath linkCost (orders 0 0)
        (buildAdjacency snapshot request.allowedProtocols) request.source request.target
        (min request.maxHops maxRouteHops) [] [] with
    | none => exact yields_pure rfl
    | some best =>
        intro paths hpaths
        exact congrArg (List.map Path.candidate) (acceptMore_yields _ _ _ _ paths hpaths)

/-- **The plan is the same.** -/
theorem plan_eq (linkCost : Link → C) (orders : ℕ → ℕ → IterOrder NodeId (Cell Arc C))
    (snapshot : GraphSnapshot) (request : RouteRequest) (limit : ℕ) :
    plan linkCost orders snapshot request limit =
      .ok (Radii.plan linkCost orders snapshot request limit) := by
  refine (plan_returns orders snapshot request limit).eq_ok ?_
  rw [plan]
  refine (planPaths_yields orders snapshot request limit).bind ?_
  rintro ⟨accepted, candidates⟩ haccepted
  exact yields_pure haccepted

end Plan

/-! ## Dialable routes -/

section Resolve

/-- The route, with what is known of its hops left out. -/
def ResolvedRoute.ofResolved (route : Radii.ResolvedRoute) : ResolvedRoute ℕ :=
  ⟨route.hops, route.score⟩

lemma resolveCandidate_yields (q : Query) (candidate : RouteCandidate ℕ) :
    Yields (resolveCandidate q candidate)
      (· = (Radii.resolveCandidate q candidate).map ResolvedRoute.ofResolved) := by
  rw [resolveCandidate, Radii.resolveCandidate]
  refine (yields_sub _ _).bind_eq ?_
  cases resolveHops q (candidate.hops.length - 1) (candidate.hops.zipIdx.drop 1) [] with
  | none => exact yields_pure rfl
  | some hops =>
      dsimp only
      by_cases hnil : hops = []
      · subst hnil
        exact yields_pure rfl
      · rw [if_neg (by simpa using hnil), dif_neg hnil]
        exact yields_pure rfl

lemma resolveTarget_yields (orders : ℕ → ℕ → ℕ → IterOrder NodeId (Cell Arc ℕ)) (q : Query)
    (routes : List (ResolvedRoute ℕ)) (entry : NodeId × ℕ) :
    Yields (resolveTarget defaultLinkCost orders q routes entry)
      (· = routes ++ ((Radii.plan defaultLinkCost (orders entry.2) q.snapshot
        ⟨q.source, entry.1, q.allowedProtocols, q.maxHops⟩ q.limit).filterMap
          (Radii.resolveCandidate q)).map ResolvedRoute.ofResolved) := by
  rw [resolveTarget, plan_eq, List.map_filterMap, List.filterMap_eq_flatMap_toList,
    List.flatMap_def, ← List.foldl_append_eq_append]
  refine foldlM_yields ?_ routes
  intro candidate _ routes
  refine (resolveCandidate_yields q candidate).bind_eq ?_
  exact yields_pure rfl

/-- **The dialable routes are the same.** -/
theorem resolveCandidates_eq (orders : ℕ → ℕ → ℕ → IterOrder NodeId (Cell Arc ℕ)) (q : Query) :
    resolveCandidates defaultLinkCost orders q =
      .ok ((Radii.resolveCandidates orders q).map ResolvedRoute.ofResolved) := by
  have hresolved : (resolved orders q).map ResolvedRoute.ofResolved = q.targets.zipIdx.foldl
      (fun routes entry => routes ++ ((Radii.plan defaultLinkCost (orders entry.2) q.snapshot
        ⟨q.source, entry.1, q.allowedProtocols, q.maxHops⟩ q.limit).filterMap
          (Radii.resolveCandidate q)).map ResolvedRoute.ofResolved) [] := by
    rw [resolved, List.map_flatMap, List.flatMap_eq_foldl]
  refine (resolveCandidates_returns defaultLinkCost orders q).eq_ok ?_
  rw [resolveCandidates, Radii.resolveCandidates]
  refine (foldlM_yields (fun entry _ routes => resolveTarget_yields orders q routes entry) []).bind
    fun routes hroutes => yields_pure ?_
  have hsort := List.map_insertionSort (fun a b => a.score ≤ b.score) (fun a b => a.score ≤ b.score)
    ResolvedRoute.ofResolved (resolved orders q) fun _ _ _ _ => Iff.rfl
  have hdistinct : ∀ routes, (distinctBy Radii.ResolvedRoute.nodeSequence [] routes).map
      ResolvedRoute.ofResolved =
      distinctBy ResolvedRoute.nodeSequence [] (routes.map ResolvedRoute.ofResolved) :=
    fun _ => map_distinctBy fun _ => rfl
  rw [hroutes, ← hresolved, ← hsort, List.map_take, hdistinct]

end Resolve

end Checked

end Radii
