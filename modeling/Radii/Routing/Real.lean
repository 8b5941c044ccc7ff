import Radii.Routing.Best

/-!
# Where a route comes from

Every route that `resolve_candidates` returns is a way through the graph: `Query.Along` says which
path it is dialed along, hop by hop.  A path of which a hop were left out, or resolved in another
role, or a score of another path, would not be one.

* `addrForRole_eq_some` — the address of a hop is the first one advertised in the role.
* `resolved_routes_real` — each route is along a path, and costs what the cheapest such path does.
-/

namespace Radii

open Collections Graphs

/-- The first address the node advertises in the role. -/
def FirstAdvertised (listenAddrs : ListenAddrs) (node : NodeId) (role : RoleId) (addr : String) :
    Prop :=
  ∃ before after, listenAddrs.lookup node = some (before ++ (addr, role) :: after) ∧
    ∀ advertised ∈ before, advertised.2 ≠ role

lemma addrForRole_eq_some {listenAddrs : ListenAddrs} {node : NodeId} {role : RoleId}
    {addr : String} : addrForRole listenAddrs node role = some addr ↔
      FirstAdvertised listenAddrs node role addr := by
  rw [addrForRole, FirstAdvertised]
  cases listenAddrs.lookup node with
  | none => simp
  | some advertised =>
      simp only [Option.bind_some, Option.map_eq_some_iff, List.find?_eq_some_iff_append,
        Option.some.injEq]
      constructor
      · rintro ⟨⟨_, _⟩, ⟨hrole, before, after, rfl, hbefore⟩, rfl⟩
        obtain rfl := of_decide_eq_true hrole
        exact ⟨before, after, rfl, fun x hx => by simpa using hbefore x hx⟩
      · rintro ⟨before, after, rfl, hbefore⟩
        exact ⟨(addr, role), ⟨by simp, before, after, rfl, fun x hx => by simpa using hbefore x hx⟩,
          rfl⟩

/-- The route is dialed along this path to `target`: through all of its nodes if there is a role for
the hops between, and straight to `target` if there is none, each under its first address. -/
structure Query.Along (q : Query) (target : NodeId) (p : List NodeId) (route : ResolvedRoute) :
    Prop where
  path : p ∈ q.paths target
  every : ∀ role, q.hopRole = some role → p = q.source :: route.nodeSequence
  only : q.hopRole = none → route.nodeSequence = [target]
  between : ∀ hop ∈ route.hops.dropLast, ∃ role, q.hopRole = some role ∧
    FirstAdvertised q.listenAddrs hop.nodeId role hop.addr
  last : ∃ hop, route.hops.getLast? = some hop ∧ hop.nodeId = target ∧
    FirstAdvertised q.listenAddrs target q.targetRole hop.addr

/-- A list related to one with a last element has one too. -/
lemma forall₂_concat {α β : Type} {R : α → β → Prop} {x : β} {xs : List β} {l : List α}
    (h : List.Forall₂ R l (xs ++ [x])) : ∃ l' a, l = l' ++ [a] ∧ List.Forall₂ R l' xs ∧ R a x := by
  have hlast : List.Forall₂ R (l.drop xs.length) [x] := List.forall₂_drop_append l xs [x] h
  rcases List.forall₂_cons_right_iff.mp hlast with ⟨a, rest, ha, hrest, hdrop⟩
  obtain rfl := List.forall₂_nil_right_iff.mp hrest
  refine ⟨l.take xs.length, a, ?_, List.forall₂_take_append l xs [x] h, ha⟩
  rw [← hdrop, List.take_append_drop]

/-- What is resolved along a path is dialed along it. -/
lemma along_of_resolves {q : Query} {target : NodeId} {p : List NodeId} {route : ResolvedRoute}
    (hpath : p ∈ q.paths target) (hne : target ≠ q.source)
    (hall : List.Forall₂ (Resolves q.listenAddrs) route.hops (q.required p.tail)) :
    q.Along target p route := by
  rcases Query.exists_tail hpath hne with ⟨hp, hlast⟩
  have hsequence : route.nodeSequence = q.sequence p := (advertises_of_resolves hall).1
  rw [q.required_eq hlast] at hall
  rcases forall₂_concat hall with ⟨hops, hop, hhops, hbetween, hnode, haddr⟩
  refine ⟨hpath, ?_, ?_, ?_, ?_⟩
  · intro role hrole
    rw [hsequence, Query.sequence, Query.required_of_some hrole]
    exact hp
  · intro hrole
    rw [hsequence, Query.sequence_of_none hrole hpath hne]
  · intro between hmem
    rw [hhops, List.dropLast_concat] at hmem
    rcases List.getElem_of_mem hmem with ⟨i, hi, rfl⟩
    rcases hbetween.get hi (hbetween.length_eq ▸ hi) with ⟨hnode, haddr⟩
    have hrequired := List.getElem_mem (l := q.hopRole.toList.flatMap fun role =>
      p.tail.dropLast.map fun node => (node, role)) (hbetween.length_eq ▸ hi)
    simp only [List.mem_flatMap, Option.mem_toList, List.mem_map] at hrequired
    rcases hrequired with ⟨role, hrole, node, -, heq⟩
    refine ⟨role, hrole, ?_⟩
    rw [List.get_eq_getElem, List.get_eq_getElem, ← heq] at hnode haddr
    rw [← addrForRole_eq_some, hnode]
    exact haddr
  · refine ⟨hop, by rw [hhops, List.getLast?_concat], hnode, ?_⟩
    rw [← addrForRole_eq_some]
    exact haddr

/-- A route has one target. -/
lemma Query.Along.target_eq {q : Query} {target target' : NodeId} {p p' : List NodeId}
    {route : ResolvedRoute} (h : q.Along target p route) (h' : q.Along target' p' route) :
    target = target' := by
  rcases h.last with ⟨hop, hlast, rfl, -⟩
  rcases h'.last with ⟨hop', hlast', rfl, -⟩
  rw [hlast, Option.some.injEq] at hlast'
  rw [hlast']

section Real

variable {orders : ℕ → ℕ → ℕ → IterOrder NodeId (Cell Arc ℕ)} {q : Query} {route : ResolvedRoute}

/-- Where only targets are dialed, the score is that of the cheapest path to the target: it is
planned, and comes to the selection under the same sequence. -/
lemma score_le_of_collapsed (hrole : q.hopRole = none) (hroute : route ∈ resolveCandidates orders q)
    {i : ℕ} {target : NodeId} {p p' : List NodeId} (hi : q.targets[i]? = some target)
    (hp : q.Dialable target p)
    (hplanned : p ∈ (plannedTo orders q i target).map RouteCandidate.hops)
    (hsequence : route.nodeSequence = q.sequence p) (hscore : route.score = q.cost p)
    (hp' : p' ∈ q.paths target) : route.score ≤ q.cost p' := by
  have hselected := selected_resolveCandidates orders q
  by_cases hmem : p' ∈ (plannedTo orders q i target).map RouteCandidate.hops
  · have hrequired : q.required p'.tail = q.required p.tail := by
      rw [Query.required_of_none hrole (Query.exists_tail hp' hp.ne_source).2,
        Query.required_of_none hrole (Query.exists_tail hp.path hp.ne_source).2]
    obtain ⟨other, hother, hsame, hcost⟩ := mem_resolved_of_dialable hi
      ⟨hp.listed, hp.ne_source, hp', hrequired ▸ hp.advertised⟩ hmem
    rw [← hcost]
    rcases hselected.placed other hother with ⟨kept, hkept, hkey, hle⟩ | ⟨-, hall⟩
    · have heq : kept.nodeSequence = route.nodeSequence := by
        rw [hkey, hsame, hsequence, Query.sequence, Query.sequence, hrequired]
      rwa [List.inj_on_of_nodup_map hselected.nodup hkept hroute heq] at hle
    · exact hall route hroute
  · rw [hscore]
    exact (plannedTo_top orders i target).1.least p hplanned p' hp' hmem

/-- **Every route is a way through the graph**, and costs what the cheapest path it could stand for
does. -/
theorem route_real (hroute : route ∈ resolveCandidates orders q) :
    ∃ target ∈ q.targets, ∃ p, q.Along target p route ∧ route.score = q.cost p ∧
      ∀ target' ∈ q.targets, ∀ p', q.Along target' p' route → route.score ≤ q.cost p' := by
  obtain ⟨i, target, p, hi, hp, hplanned, hall, hscore⟩ :=
    dialable_of_mem_resolved ((selected_resolveCandidates orders q).mem route hroute)
  have halong := along_of_resolves hp.path hp.ne_source hall
  refine ⟨target, hp.listed, p, halong, hscore, ?_⟩
  intro target' _ p' halong'
  obtain rfl := halong.target_eq halong'
  cases hrole : q.hopRole with
  | none =>
      exact score_le_of_collapsed hrole hroute hi hp hplanned (advertises_of_resolves hall).1 hscore
        halong'.path
  | some role => rw [hscore, halong.every role hrole, halong'.every role hrole]

end Real

/-- **Every resolved route is a real one**: it has a hop, is dialed along a simple path of links the
query allows to one of its targets, and is scored as the cheapest such path.  The routes are in order
of their scores, no two of them alike, and no more than asked for. -/
theorem resolved_routes_real (orders : ℕ → ℕ → ℕ → IterOrder NodeId (Cell Arc ℕ)) (q : Query) :
    (∀ route ∈ resolveCandidates orders q, route.hops ≠ [] ∧
      ∃ target ∈ q.targets, ∃ p, q.Along target p route ∧ route.score = q.cost p ∧
        ∀ target' ∈ q.targets, ∀ p', q.Along target' p' route → route.score ≤ q.cost p') ∧
    (resolveCandidates orders q).Pairwise (fun a b => a.score ≤ b.score) ∧
    ((resolveCandidates orders q).map ResolvedRoute.nodeSequence).Nodup ∧
    (resolveCandidates orders q).length ≤ q.limit := by
  have hselected := selected_resolveCandidates orders q
  refine ⟨?_, pairwise_selection _ _ _ _, hselected.nodup, hselected.length⟩
  intro route hroute
  exact ⟨route.nonempty, route_real hroute⟩

/-- A query for a way to `t`; the registry knows the relay, and an edge address of it too. -/
def dialedQuery : Query :=
  { relayedQuery (some "relay") with
    listenAddrs := AList.insert "r" [("10.0.0.4:8000", "edge"), ("10.0.0.4:9000", "relay")]
      (relayedQuery (some "relay")).listenAddrs }

/-- The way through the relay keeps its hop. -/
theorem resolved_routes_real_relayed :
    ∃ route, resolveCandidates (fun _ _ _ => .default) dialedQuery = [route] ∧
      route.hops = [⟨"r", "10.0.0.4:9000"⟩, ⟨"t", "10.0.0.5:9000"⟩] ∧
      ∃ target ∈ dialedQuery.targets, ∃ p, dialedQuery.Along target p route := by
  have hroutes : resolveCandidates (fun _ _ _ => .default) dialedQuery =
      [⟨[⟨"r", "10.0.0.4:9000"⟩, ⟨"t", "10.0.0.5:9000"⟩], 40, by simp⟩] := by decide
  obtain ⟨-, target, htarget, p, halong, -⟩ :=
    (resolved_routes_real (fun _ _ _ => .default) dialedQuery).1 _
      (hroutes ▸ List.mem_singleton_self _)
  exact ⟨_, hroutes, rfl, target, htarget, p, halong⟩

end Radii
