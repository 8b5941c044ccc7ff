import Radii.Routing.Graph

/-!
# The hop-layered search

`shortest_path` and `reconstruct` of `crates/core/src/routing.rs`, for any scorer with exact costs
that are not negative and for every order in which the hash maps are walked.  `shortestPath_spec`
says what a search finds: a shortest walk over the links that are not banned, which visits no node
twice; or nothing, if there is no such walk within the hop budget.
-/

namespace Radii

open Collections Graphs

/-- One path through the graph, carried while planning. -/
structure Path (C : Type) where
  hops : List NodeId
  links : List Link
  cost : C

/-- A layer: the best known way to each node within some hop budget. -/
abbrev Layer (C : Type) := HashMap NodeId (Cell Arc C)

section Search

variable {C : Type} [AddCommMonoid C] [LinearOrder C] (linkCost : Link → C)
  (order : IterOrder NodeId (Cell Arc C)) (adjacency : HashMap NodeId (List Link))
  (bannedNodes : List NodeId) (bannedEdges : List (NodeId × NodeId))

/-- One link out of `node`, whose cell in layer `previous` is `cell`. -/
def relaxLink (previous : ℕ) (node : NodeId) (cell : Cell Arc C) (layer : Layer C) (link : Link) :
    Layer C :=
  if bannedNodes.contains link.toId then layer
  else if bannedEdges.contains (node, link.toId) then layer
  else
    let cost := cell.cost + linkCost link
    let improves := match layer.lookup link.toId with
      | some existing => decide (cost < existing.cost)
      | none => true
    if improves then layer.insert link.toId ⟨cost, some ((node, link), previous)⟩ else layer

/-- All links out of `node`. -/
def relaxNode (previous : ℕ) (layer : Layer C) (node : NodeId) (cell : Cell Arc C) : Layer C :=
  match adjacency.lookup node with
  | none => layer
  | some links => links.foldl (relaxLink linkCost bannedNodes bannedEdges previous node cell) layer

/-- The layer after the one numbered `previous`, from which it starts. -/
def nextLayer (previous : ℕ) (before : Layer C) : Layer C :=
  (order.list before).foldl
    (fun layer entry =>
      relaxNode linkCost adjacency bannedNodes bannedEdges previous layer entry.1 entry.2) before

/-- The layer of `hop` hops. -/
def layerAt (source : NodeId) : ℕ → Layer C
  | 0 => AList.insert source ⟨0, none⟩ ∅
  | hop + 1 => nextLayer linkCost order adjacency bannedNodes bannedEdges hop (layerAt source hop)

end Search

section Reconstruct

variable {C : Type}

/-- The loop of `reconstruct`.  `hops` is also the set of nodes seen; the fuel is one more than the
layer of the cursor, which gets smaller in every turn. -/
def followParents (layers : List (Layer C)) : ℕ → NodeId × ℕ → List NodeId → List Link →
    Option (List NodeId × List Link)
  | 0, _, _, _ => none
  | fuel + 1, cursor, hops, links =>
      match (layers[cursor.2]?).bind fun layer => layer.lookup cursor.1 with
      | none => none
      | some cell =>
          match cell.parent with
          | none => some (hops, links)
          | some ((previous, link), previousLayer) =>
              if hops.contains previous then none
              else followParents layers fuel (previous, previousLayer) (hops ++ [previous])
                (links ++ [link])

/-- Walks the parent pointers back from `target` to `source`. -/
def reconstruct (layers : List (Layer C)) (source target : NodeId) (maxHops : ℕ) :
    Option (Path C) :=
  match (layers[maxHops]?).bind fun layer => layer.lookup target with
  | none => none
  | some cell =>
      match followParents layers (maxHops + 1) (target, maxHops) [target] [] with
      | none => none
      | some (hops, links) =>
          if hops.reverse.head? ≠ some source then none
          else some ⟨hops.reverse, links.reverse, cell.cost⟩

/-- `shortest_path`: the cheapest path from `source` to `target` over at most `maxHops` links. -/
def shortestPath [AddCommMonoid C] [LinearOrder C] (linkCost : Link → C)
    (order : IterOrder NodeId (Cell Arc C)) (adjacency : HashMap NodeId (List Link))
    (source target : NodeId) (maxHops : ℕ) (bannedNodes : List NodeId)
    (bannedEdges : List (NodeId × NodeId)) : Option (Path C) :=
  if bannedNodes.contains source || bannedNodes.contains target then none
  else if source = target then some ⟨[source], [], 0⟩
  else
    reconstruct ((List.range (maxHops + 1)).map
      (layerAt linkCost order adjacency bannedNodes bannedEdges source)) source target maxHops

end Reconstruct

/-! ## What a search finds -/

section Spec

variable {C : Type} [AddCommMonoid C] [LinearOrder C] {linkCost : Link → C}
  {order : IterOrder NodeId (Cell Arc C)} {adjacency : HashMap NodeId (List Link)}
  {bannedNodes : List NodeId} {bannedEdges : List (NodeId × NodeId)}

/-- The hops a search may use. -/
def Unbanned (bannedNodes : List NodeId) (bannedEdges : List (NodeId × NodeId))
    (a b : NodeId) : Prop :=
  b ∉ bannedNodes ∧ (a, b) ∉ bannedEdges

lemma relaxLink_banned {previous : ℕ} {node : NodeId} {cell : Cell Arc C} {layer : Layer C}
    {link : Link} (h : ¬ Unbanned bannedNodes bannedEdges node link.toId) :
    relaxLink linkCost bannedNodes bannedEdges previous node cell layer link = layer := by
  rw [relaxLink]
  split_ifs with hnode hedge
  · rfl
  · rfl
  · exact absurd ⟨by simpa using hnode, by simpa using hedge⟩ h

lemma relaxLink_unbanned {previous : ℕ} {node : NodeId} {cell : Cell Arc C} {layer : Layer C}
    {link : Link} (h : Unbanned bannedNodes bannedEdges node link.toId) :
    relaxLink linkCost bannedNodes bannedEdges previous node cell layer link =
      layer.improve Cell.cost link.toId
        ⟨cell.cost + linkCost link, some ((node, link), previous)⟩ := by
  rw [relaxLink, if_neg (by simpa using h.1), if_neg (by simpa using h.2), HashMap.improve]
  cases layer.lookup link.toId with
  | none => rfl
  | some existing =>
      simp only [decide_eq_true_eq]

instance (a b : NodeId) : Decidable (Unbanned bannedNodes bannedEdges a b) :=
  inferInstanceAs (Decidable (_ ∧ _))

variable (linkCost adjacency bannedNodes bannedEdges) in
/-- What the links out of `node` have to offer. -/
def offers (previous : ℕ) (node : NodeId) (cell : Cell Arc C) : List (NodeId × Cell Arc C) :=
  ((linksOf adjacency node).filter fun link => Unbanned bannedNodes bannedEdges node link.toId).map
    fun link => (link.toId, ⟨cell.cost + linkCost link, some ((node, link), previous)⟩)

lemma relaxNode_eq (previous : ℕ) (layer : Layer C) (node : NodeId) (cell : Cell Arc C) :
    relaxNode linkCost adjacency bannedNodes bannedEdges previous layer node cell =
      layer.improveAll Cell.cost
        (offers linkCost adjacency bannedNodes bannedEdges previous node cell) := by
  have hfold : ∀ (links : List Link) (layer : Layer C),
      links.foldl (relaxLink linkCost bannedNodes bannedEdges previous node cell) layer =
        layer.improveAll Cell.cost
          ((links.filter fun link => Unbanned bannedNodes bannedEdges node link.toId).map
            fun link => (link.toId, ⟨cell.cost + linkCost link,
              some ((node, link), previous)⟩)) := by
    intro links
    induction links with
    | nil => exact fun _ => rfl
    | cons link links ih =>
        intro layer
        rw [List.foldl_cons, ih]
        by_cases h : Unbanned bannedNodes bannedEdges node link.toId
        · rw [relaxLink_unbanned h, List.filter_cons_of_pos (by simpa using h)]
          rfl
        · rw [relaxLink_banned h, List.filter_cons_of_neg (by simpa using h)]
  rw [relaxNode, offers, linksOf]
  cases adjacency.lookup node with
  | none => rfl
  | some links => exact hfold links layer

lemma nextLayer_eq (previous : ℕ) (before : Layer C) :
    nextLayer linkCost order adjacency bannedNodes bannedEdges previous before =
      before.improveAll Cell.cost ((order.list before).flatMap fun entry =>
        offers linkCost adjacency bannedNodes bannedEdges previous entry.1 entry.2) := by
  have hfold : ∀ (entries : List (NodeId × Cell Arc C)) (layer : Layer C),
      entries.foldl (fun layer entry => relaxNode linkCost adjacency bannedNodes bannedEdges
        previous layer entry.1 entry.2) layer =
      layer.improveAll Cell.cost (entries.flatMap fun entry =>
        offers linkCost adjacency bannedNodes bannedEdges previous entry.1 entry.2) := by
    intro entries
    induction entries with
    | nil => exact fun _ => rfl
    | cons entry entries ih =>
        intro layer
        rw [List.foldl_cons, ih, relaxNode_eq, List.flatMap_cons, HashMap.improveAll_append]
  exact hfold _ before

variable (linkCost adjacency bannedNodes bannedEdges) in
/-- The network a search walks. -/
def searched : CostGraph NodeId Arc C :=
  (arcs adjacency linkCost).restrict (Unbanned bannedNodes bannedEdges)

/-- The layers of a search are the tables of the network it walks. -/
lemma layers_layerAt (source : NodeId) :
    Layers (searched linkCost adjacency bannedNodes bannedEdges) source
      (layerAt linkCost order adjacency bannedNodes bannedEdges source) := by
  refine ⟨?_, fun hop => ⟨_, nextLayer_eq hop _, ?_⟩⟩
  · intro node cell
    rw [layerAt]
    by_cases hnode : node = source
    · subst hnode
      rw [AList.lookup_insert, Option.some.injEq]
      simp [eq_comm]
    · rw [HashMap.lookup_insert_of_ne hnode]
      simp [hnode]
  · intro node cell
    rw [List.mem_flatMap]
    constructor
    · rintro ⟨⟨previous, old⟩, hentry, hoffer⟩
      rw [IterOrder.mem] at hentry
      simp only [offers, List.mem_map, List.mem_filter, decide_eq_true_eq] at hoffer
      rcases hoffer with ⟨link, ⟨hlink, hunbanned⟩, heq⟩
      rw [Prod.mk.injEq] at heq
      exact ⟨(previous, link), old, ⟨hlink, hunbanned⟩, hentry, heq.1.symm, heq.2.symm⟩
    · rintro ⟨⟨previous, link⟩, old, ⟨hlink, hunbanned⟩, hentry, rfl, rfl⟩
      refine ⟨(previous, old), (order.mem).mpr hentry, ?_⟩
      simp only [offers, List.mem_map, List.mem_filter, decide_eq_true_eq]
      exact ⟨link, ⟨hlink, hunbanned⟩, rfl⟩

omit [AddCommMonoid C] [LinearOrder C] in
lemma getElem?_layers (T : ℕ → Layer C) {hop maxHops : ℕ} (h : hop ≤ maxHops) :
    ((List.range (maxHops + 1)).map T)[hop]? = some (T hop) := by
  rw [List.getElem?_map, List.getElem?_range (Nat.lt_succ_of_le h), Option.map_some]

omit [AddCommMonoid C] in
/-- Following the parents of a cell gives the walk they trace. -/
lemma followParents_traced {T : ℕ → Layer C} {source : NodeId} {maxHops h : ℕ} {node : NodeId}
    {es : List Arc}
    (htraced : Traced (searched linkCost adjacency bannedNodes bannedEdges) source T h node es)
    (hwalk : (searched linkCost adjacency bannedNodes bannedEdges).IsWalk source es node)
    (hnodup : ((searched linkCost adjacency bannedNodes bannedEdges).vertices source es).Nodup)
    (hh : h ≤ maxHops) {fuel : ℕ} (hfuel : h < fuel) {hops : List NodeId} {links : List Link}
    (hnew : ∀ x ∈ ((searched linkCost adjacency bannedNodes bannedEdges).vertices source
      es).dropLast, x ∉ hops) :
    followParents ((List.range (maxHops + 1)).map T) fuel (node, h) hops links =
      some (hops ++ ((searched linkCost adjacency bannedNodes bannedEdges).vertices source
        es).dropLast.reverse, links ++ (es.map Prod.snd).reverse) := by
  induction htraced generalizing fuel hops links with
  | source hcell hparent =>
      obtain ⟨fuel, rfl⟩ := Nat.exists_eq_succ_of_ne_zero (Nat.ne_zero_of_lt hfuel)
      simp [followParents, getElem?_layers T hh, hcell, hparent]
  | @step h v cell e l es hcell hparent hl htraced ih =>
      rcases e with ⟨previous, link⟩
      obtain ⟨fuel, rfl⟩ := Nat.exists_eq_succ_of_ne_zero (Nat.ne_zero_of_lt hfuel)
      rcases CostGraph.isWalk_concat.mp hwalk with ⟨hes, -, -⟩
      -- the walk before ends at `previous`, which is the next hop the loop puts down
      have hvertices : ∀ d : Arc, (searched linkCost adjacency bannedNodes bannedEdges).vertices
          source (es ++ [d]) = (searched linkCost adjacency bannedNodes bannedEdges).vertices
            source es ++ [d.2.toId] := by
        intro d
        rw [CostGraph.vertices, List.map_append, CostGraph.vertices]
        rfl
      have hbefore : (searched linkCost adjacency bannedNodes bannedEdges).vertices source es =
          ((searched linkCost adjacency bannedNodes bannedEdges).vertices source es).dropLast ++
            [previous] :=
        (List.dropLast_append_getLast? _ hes.last).symm
      rw [hvertices, List.dropLast_concat] at hnew
      rw [hvertices] at hnodup
      have hprevious : previous ∉ hops := hnew previous (by rw [hbefore]; simp)
      have hlater : ∀ x ∈ ((searched linkCost adjacency bannedNodes bannedEdges).vertices source
          es).dropLast, x ∉ hops ++ [previous] := by
        intro x hx hmem
        rcases List.mem_append.mp hmem with hmem | hmem
        · exact hnew x (List.mem_of_mem_dropLast hx) hmem
        · have hdistinct := hnodup.of_append_left
          rw [hbefore, List.nodup_append] at hdistinct
          exact hdistinct.2.2 x hx previous (List.mem_singleton_self _) (List.mem_singleton.mp hmem)
      rw [followParents, getElem?_layers T hh, Option.bind_some, hcell]
      simp only [hparent]
      rw [if_neg (by simpa using hprevious), hvertices, List.dropLast_concat]
      refine (ih hes hnodup.of_append_left (hl.le.trans hh)
        (hl.trans_le (Nat.le_of_lt_succ hfuel)) hlater).trans ?_
      rw [Option.some.injEq, Prod.mk.injEq]
      constructor
      · conv_rhs => rw [hbefore]
        simp
      · simp

omit [AddCommMonoid C] in
lemma reconstruct_traced {T : ℕ → Layer C} {source target : NodeId} {maxHops : ℕ}
    {cell : Cell Arc C} {es : List Arc} (hcell : (T maxHops).lookup target = some cell)
    (htraced : Traced (searched linkCost adjacency bannedNodes bannedEdges) source T maxHops
      target es)
    (hwalk : (searched linkCost adjacency bannedNodes bannedEdges).IsWalk source es target)
    (hnodup : ((searched linkCost adjacency bannedNodes bannedEdges).vertices source es).Nodup) :
    reconstruct ((List.range (maxHops + 1)).map T) source target maxHops =
      some ⟨(searched linkCost adjacency bannedNodes bannedEdges).vertices source es,
        es.map Prod.snd, cell.cost⟩ := by
  have hsplit : (searched linkCost adjacency bannedNodes bannedEdges).vertices source es =
      ((searched linkCost adjacency bannedNodes bannedEdges).vertices source es).dropLast ++
        [target] :=
    (List.dropLast_append_getLast? _ hwalk.last).symm
  have hnew : ∀ x ∈ ((searched linkCost adjacency bannedNodes bannedEdges).vertices source
      es).dropLast, x ∉ [target] := by
    intro x hx hmem
    rw [hsplit, List.nodup_append] at hnodup
    exact hnodup.2.2 x hx target (List.mem_singleton_self _) (List.mem_singleton.mp hmem)
  rw [reconstruct, getElem?_layers T le_rfl, Option.bind_some, hcell]
  simp only
  rw [followParents_traced htraced hwalk hnodup (le_refl _) (Nat.lt_succ_self _) hnew]
  simp only [List.reverse_append, List.reverse_reverse, List.reverse_singleton, ← hsplit]
  simp [CostGraph.vertices]

/-- The way back from a cell is a shortest walk. -/
lemma reconstruct_shortest [IsOrderedCancelAddMonoid C] (hcost : ∀ link, 0 ≤ linkCost link)
    {source target : NodeId} {maxHops : ℕ} {cell : Cell Arc C}
    (hcell : (layerAt linkCost order adjacency bannedNodes bannedEdges source maxHops).lookup
      target = some cell) :
    ∃ es, (searched linkCost adjacency bannedNodes bannedEdges).Shortest source target maxHops es ∧
      ((searched linkCost adjacency bannedNodes bannedEdges).vertices source es).Nodup ∧
      reconstruct ((List.range (maxHops + 1)).map
          (layerAt linkCost order adjacency bannedNodes bannedEdges source)) source target maxHops =
        some ⟨(searched linkCost adjacency bannedNodes bannedEdges).vertices source es,
          es.map Prod.snd,
          (searched linkCost adjacency bannedNodes bannedEdges).walkCost es⟩ := by
  obtain ⟨es, htraced, hshortest, hes, hnodup⟩ :=
    (layers_layerAt source).shortest (fun arc => hcost arc.2) hcell
  refine ⟨es, hshortest, hnodup, ?_⟩
  rw [hes]
  exact reconstruct_traced hcell htraced hshortest.isWalk hnodup

variable (order adjacency bannedEdges) in
/-- **What a search finds.**  A shortest walk that visits no node twice, or nothing if there is no
walk within the hop budget. -/
theorem shortestPath_spec [IsOrderedCancelAddMonoid C] (hcost : ∀ link, 0 ≤ linkCost link)
    {source target : NodeId} (maxHops : ℕ) (hsource : source ∉ bannedNodes)
    (htarget : target ∉ bannedNodes) :
    (shortestPath linkCost order adjacency source target maxHops bannedNodes bannedEdges = none ∧
      ∀ es, (searched linkCost adjacency bannedNodes bannedEdges).IsWalk source es target →
        maxHops < es.length) ∨
    ∃ es, (searched linkCost adjacency bannedNodes bannedEdges).Shortest source target maxHops es ∧
      ((searched linkCost adjacency bannedNodes bannedEdges).vertices source es).Nodup ∧
      shortestPath linkCost order adjacency source target maxHops bannedNodes bannedEdges =
        some ⟨(searched linkCost adjacency bannedNodes bannedEdges).vertices source es,
          es.map Prod.snd,
          (searched linkCost adjacency bannedNodes bannedEdges).walkCost es⟩ := by
  have hT : Layers (searched linkCost adjacency bannedNodes bannedEdges) source
      (layerAt linkCost order adjacency bannedNodes bannedEdges source) := layers_layerAt source
  rw [shortestPath, if_neg (by simp [hsource, htarget])]
  by_cases heq : source = target
  · subst heq
    rw [if_pos rfl]
    refine Or.inr ⟨[], ⟨rfl, Nat.zero_le _, ?_⟩, List.nodup_singleton _, rfl⟩
    intro fs _ _
    exact CostGraph.walkCost_nonneg (fun arc => hcost arc.2) fs
  · rw [if_neg heq]
    cases hcell : (layerAt linkCost order adjacency bannedNodes bannedEdges source
      maxHops).lookup target with
    | none =>
        refine Or.inl ⟨?_, ?_⟩
        · rw [reconstruct, getElem?_layers _ le_rfl, Option.bind_some, hcell]
        · intro es hes
          by_contra hlength
          obtain ⟨cell, hfound, -⟩ := hT.complete hes (not_lt.mp hlength)
          rw [hcell] at hfound
          exact absurd hfound (by simp)
    | some cell =>
        exact Or.inr (reconstruct_shortest hcost hcell)

end Spec

end Radii
