import Radii.Foundations.Selection
import Radii.Routing.Planner

/-!
# Dialable routes

`resolve_candidates` of `crates/core/src/routing.rs`: a plan to every target, an address for every
hop that is dialed, and of what is left the cheapest routes.  A route that no address is known for
is dropped after its plan was cut off at the limit.

* `selected_resolveCandidates` — what is returned is selected from the routes planned.
* `mem_resolved` — these are the planned paths whose hops resolve.
-/

namespace Radii

open Collections Graphs

/-! ## Scores -/

/-- Charged per hop, in milliseconds. -/
def hopPenaltyMs : ℕ := 10
/-- Assumed for a link that was never measured. -/
def unknownLatencyMs : ℕ := 1000

/-- `DefaultScorer::link_cost`.  Costs are whole numbers of milliseconds, so that the sums the
planner makes of them are exact (`walkCost_lt`). -/
def defaultLinkCost (link : Link) : ℕ :=
  hopPenaltyMs + (link.latencyMs.map UInt32.toNat).getD unknownLatencyMs

/-- Up to 2 ^ 53 the scores, which the program has as floats, are whole numbers. -/
lemma walkCost_lt {snapshot : GraphSnapshot} {allowed : List ProtocolId} {es : List Arc}
    (h : es.length ≤ maxRouteHops) :
    (network snapshot allowed defaultLinkCost).walkCost es < 2 ^ 53 := by
  have hlink : ∀ c ∈ es.map (network snapshot allowed defaultLinkCost).cost, c ≤ 2 ^ 33 := by
    intro c hc
    rcases List.mem_map.mp hc with ⟨⟨_, link⟩, -, rfl⟩
    show defaultLinkCost link ≤ _
    rw [defaultLinkCost, hopPenaltyMs, unknownLatencyMs]
    cases link.latencyMs with
    | none => simp
    | some latency =>
        have := latency.toNat_lt
        rw [Option.map_some, Option.getD_some]
        omega
  calc (network snapshot allowed defaultLinkCost).walkCost es
      ≤ (es.map (network snapshot allowed defaultLinkCost).cost).length • 2 ^ 33 :=
        List.sum_le_card_nsmul _ _ hlink
    _ = es.length * 2 ^ 33 := by rw [List.length_map, smul_eq_mul]
    _ ≤ maxRouteHops * 2 ^ 33 := by gcongr
    _ < 2 ^ 53 := by decide

/-! ## Resolving hops -/

/-- The addresses that nodes advertise, each with its role. -/
abbrev ListenAddrs := HashMap NodeId (List (String × RoleId))

/-- The arguments of `resolve_candidates`. -/
structure Query where
  snapshot : GraphSnapshot
  listenAddrs : ListenAddrs
  source : NodeId
  targets : List NodeId
  allowedProtocols : List ProtocolId
  maxHops : ℕ
  limit : ℕ
  hopRole : Option RoleId
  targetRole : RoleId

/-- A dialable hop: the node to reach, and the address the registry has for it. -/
structure ResolvedHop where
  nodeId : NodeId
  addr : String
  deriving DecidableEq, Repr

/-- A dialable route, without its source. -/
structure ResolvedRoute where
  hops : List ResolvedHop
  score : ℕ
  nonempty : hops ≠ []
  deriving DecidableEq, Repr

/-- `ResolvedRoute::target`. -/
def ResolvedRoute.target (route : ResolvedRoute) : NodeId :=
  (route.hops.getLast route.nonempty).nodeId

/-- `ResolvedRoute::node_sequence`. -/
def ResolvedRoute.nodeSequence (route : ResolvedRoute) : List NodeId :=
  route.hops.map ResolvedHop.nodeId

/-- The first address `node` advertises in `role`. -/
def addrForRole (listenAddrs : ListenAddrs) (node : NodeId) (role : RoleId) : Option String :=
  (listenAddrs.lookup node).bind fun advertised =>
    (advertised.find? fun entry => entry.2 = role).map Prod.fst

/-- The loop over the hops of a candidate, with their indices; `none` if one does not resolve. -/
def resolveHops (q : Query) (lastIndex : ℕ) :
    List (NodeId × ℕ) → List ResolvedHop → Option (List ResolvedHop)
  | [], hops => some hops
  | (node, index) :: rest, hops =>
      match if index = lastIndex then some q.targetRole else q.hopRole with
      -- an intermediate hop that the caller does not dial
      | none => resolveHops q lastIndex rest hops
      | some role =>
          match addrForRole q.listenAddrs node role with
          | some addr => resolveHops q lastIndex rest (hops ++ [⟨node, addr⟩])
          | none => none

def resolveCandidate (q : Query) (candidate : RouteCandidate ℕ) : Option ResolvedRoute :=
  match resolveHops q (candidate.hops.length - 1) (candidate.hops.zipIdx.drop 1) [] with
  | none => none
  | some hops => if h : hops = [] then none else some ⟨hops, candidate.score, h⟩

/-- The routes of all targets, before they are sorted.  `orders` gives the hash-map orders of each
target's plan. -/
def resolved (orders : ℕ → ℕ → ℕ → IterOrder NodeId (Cell Arc ℕ)) (q : Query) :
    List ResolvedRoute :=
  q.targets.zipIdx.flatMap fun (target, i) =>
    (plan defaultLinkCost (orders i) q.snapshot
      ⟨q.source, target, q.allowedProtocols, q.maxHops⟩ q.limit).filterMap (resolveCandidate q)

/-- `resolve_candidates`: the best `limit` routes to all targets, in ascending score order. -/
def resolveCandidates (orders : ℕ → ℕ → ℕ → IterOrder NodeId (Cell Arc ℕ)) (q : Query) :
    List ResolvedRoute :=
  (distinctBy ResolvedRoute.nodeSequence []
    ((resolved orders q).insertionSort fun a b => a.score ≤ b.score)).take q.limit

/-! ## What resolves -/

namespace Query

/-- The hops after the source that must be resolved, each with the role it is dialed in. -/
def required (q : Query) : List NodeId → List (NodeId × RoleId)
  | [] => []
  | [target] => [(target, q.targetRole)]
  | node :: next :: rest =>
      (q.hopRole.map fun role => (node, role)).toList ++ q.required (next :: rest)

end Query

/-- Whether the registry has an address for the node in the role. -/
def Advertises (listenAddrs : ListenAddrs) (node : NodeId) (role : RoleId) : Prop :=
  ∃ advertised, listenAddrs.lookup node = some advertised ∧ ∃ addr, (addr, role) ∈ advertised

/-- The hop is the one required, under the first address for it. -/
def Resolves (listenAddrs : ListenAddrs) (hop : ResolvedHop) (x : NodeId × RoleId) : Prop :=
  hop.nodeId = x.1 ∧ addrForRole listenAddrs x.1 x.2 = some hop.addr

lemma addrForRole_isSome {listenAddrs : ListenAddrs} {node : NodeId} {role : RoleId} :
    (addrForRole listenAddrs node role).isSome ↔ Advertises listenAddrs node role := by
  rw [addrForRole, Advertises]
  cases listenAddrs.lookup node with
  | none => simp
  | some advertised =>
      simp only [Option.bind_some, Option.isSome_map, List.find?_isSome, decide_eq_true_eq,
        Option.some.injEq, exists_eq_left']
      constructor
      · rintro ⟨⟨addr, _⟩, hmem, rfl⟩
        exact ⟨addr, hmem⟩
      · rintro ⟨addr, hmem⟩
        exact ⟨(addr, role), hmem, rfl⟩

/-- One hop that is dialed. -/
lemma resolveHops_dial (q : Query) (node : NodeId) {role : RoleId} {index lastIndex : ℕ}
    (hrole : (if index = lastIndex then some q.targetRole else q.hopRole) = some role)
    (rest : List (NodeId × ℕ)) (hops : List ResolvedHop) :
    (∃ hop, Resolves q.listenAddrs hop (node, role) ∧
      resolveHops q lastIndex ((node, index) :: rest) hops =
        resolveHops q lastIndex rest (hops ++ [hop])) ∨
    resolveHops q lastIndex ((node, index) :: rest) hops = none ∧
      ¬ Advertises q.listenAddrs node role := by
  rw [resolveHops, hrole]
  simp only
  cases haddr : addrForRole q.listenAddrs node role with
  | none => exact Or.inr ⟨rfl, by rw [← addrForRole_isSome, haddr]; simp⟩
  | some addr => exact Or.inl ⟨⟨node, addr⟩, ⟨rfl, haddr⟩, rfl⟩

/-- The loop resolves the required hops, in their order, or one of them has no address. -/
lemma resolveHops_spec (q : Query) {nodes : List NodeId} {k lastIndex : ℕ}
    (hlast : lastIndex + 1 = k + nodes.length) (hops : List ResolvedHop) :
    (∃ found, resolveHops q lastIndex (nodes.zipIdx k) hops = some (hops ++ found) ∧
      List.Forall₂ (Resolves q.listenAddrs) found (q.required nodes)) ∨
    resolveHops q lastIndex (nodes.zipIdx k) hops = none ∧
      ∃ x ∈ q.required nodes, ¬ Advertises q.listenAddrs x.1 x.2 := by
  induction nodes generalizing k hops with
  | nil => exact Or.inl ⟨[], by simp [resolveHops], .nil⟩
  | cons node nodes ih =>
      rw [List.zipIdx_cons]
      have ih := fun hops => ih (k := k + 1) (by rw [hlast, List.length_cons]; omega) hops
      match nodes, hlast, ih with
      | [], hlast, _ =>
          have hindex : k = lastIndex := by
            rw [List.length_singleton] at hlast
            omega
          rcases resolveHops_dial q node (if_pos hindex) [] hops with
            ⟨hop, hresolves, hloop⟩ | ⟨hnone, hmissing⟩
          · exact Or.inl ⟨[hop], hloop, .cons hresolves .nil⟩
          · exact Or.inr ⟨hnone, _, List.mem_singleton_self _, hmissing⟩
      | next :: rest, hlast, ih =>
          have hindex : k ≠ lastIndex := by
            rw [List.length_cons, List.length_cons] at hlast
            omega
          rw [Query.required]
          cases hrole : q.hopRole with
          | none =>
              -- the hop is not dialed
              rw [resolveHops, if_neg hindex, hrole]
              exact ih hops
          | some role =>
              rcases resolveHops_dial q node ((if_neg hindex).trans hrole)
                ((next :: rest).zipIdx (k + 1)) hops with
                ⟨hop, hresolves, hloop⟩ | ⟨hnone, hmissing⟩
              · rw [hloop]
                rcases ih (hops ++ [hop]) with ⟨found, hfound, hall⟩ | ⟨hnone, x, hx, hmissing⟩
                · exact Or.inl ⟨hop :: found, by rw [hfound]; simp, .cons hresolves hall⟩
                · exact Or.inr ⟨hnone, x, List.mem_append_right _ hx, hmissing⟩
              · exact Or.inr
                  ⟨hnone, _, List.mem_append_left _ (List.mem_singleton_self _), hmissing⟩

lemma Query.required_ne_nil (q : Query) {nodes : List NodeId} (h : nodes ≠ []) :
    q.required nodes ≠ [] := by
  induction nodes with
  | nil => exact absurd rfl h
  | cons node nodes ih =>
      match nodes, ih with
      | [], _ => simp [required]
      | next :: rest, ih =>
          rw [required]
          exact List.append_ne_nil_of_right_ne_nil _ (ih (List.cons_ne_nil _ _))

/-- **What a candidate resolves to.**  A route over the required hops of its path; or none, if the
path has no hop or one of them has no address. -/
theorem resolveCandidate_spec (q : Query) (candidate : RouteCandidate ℕ) :
    (∃ route, resolveCandidate q candidate = some route ∧
      List.Forall₂ (Resolves q.listenAddrs) route.hops (q.required candidate.hops.tail) ∧
      route.score = candidate.score) ∨
    resolveCandidate q candidate = none ∧ (candidate.hops.tail = [] ∨
      ∃ x ∈ q.required candidate.hops.tail, ¬ Advertises q.listenAddrs x.1 x.2) := by
  have hloop : candidate.hops.zipIdx.drop 1 = candidate.hops.tail.zipIdx 1 := by
    cases candidate.hops with
    | nil => rfl
    | cons source tail => rw [List.zipIdx_cons, List.drop_one, List.tail_cons, List.tail_cons]
  by_cases hnil : candidate.hops.tail = []
  · refine Or.inr ⟨?_, Or.inl hnil⟩
    rw [resolveCandidate, hloop, hnil]
    rfl
  have hlast : candidate.hops.length - 1 + 1 = 1 + candidate.hops.tail.length := by
    rw [List.length_tail, add_comm]
  rw [resolveCandidate, hloop]
  rcases resolveHops_spec q hlast [] with ⟨found, hfound, hall⟩ | ⟨hnone, hmissing⟩
  · rw [List.nil_append] at hfound
    have hne : found ≠ [] := by
      rintro rfl
      exact q.required_ne_nil hnil (List.forall₂_nil_left_iff.mp hall)
    simp only [hfound, hne, dite_false]
    exact Or.inl ⟨_, rfl, hall, rfl⟩
  · rw [hnone]
    exact Or.inr ⟨rfl, Or.inr hmissing⟩

lemma mem_resolved {orders : ℕ → ℕ → ℕ → IterOrder NodeId (Cell Arc ℕ)} {q : Query}
    {route : ResolvedRoute} :
    route ∈ resolved orders q ↔ ∃ i target, q.targets[i]? = some target ∧
      ∃ candidate ∈ plan defaultLinkCost (orders i) q.snapshot
        ⟨q.source, target, q.allowedProtocols, q.maxHops⟩ q.limit,
        resolveCandidate q candidate = some route := by
  simp only [resolved, List.mem_flatMap, Prod.exists, List.mem_filterMap,
    List.mem_zipIdx_iff_getElem?]
  exact ⟨fun ⟨target, i, hi, h⟩ => ⟨i, target, hi, h⟩, fun ⟨i, target, hi, h⟩ => ⟨target, i, hi, h⟩⟩

lemma selected_resolveCandidates (orders : ℕ → ℕ → ℕ → IterOrder NodeId (Cell Arc ℕ)) (q : Query) :
    Selected ResolvedRoute.score ResolvedRoute.nodeSequence q.limit (resolved orders q)
      (resolveCandidates orders q) :=
  selected_sort _ _ _ _

end Radii
