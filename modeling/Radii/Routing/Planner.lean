import Radii.Foundations.Ranking
import Radii.Routing.Search

/-!
# The cheapest routes to one target

`RoutePlanner::plan` of `crates/core/src/routing.rs`: Yen's algorithm over the hop-layered search.
`plan_top` says that a plan holds the cheapest simple paths of the request, `limit` of them or all
there are, whatever the order in which the hash maps are walked; `plan_cheapest` counts them.
-/

namespace Radii

open Collections Graphs

structure RouteCandidate (C : Type) where
  /-- Every node on the path, from the source to the target. -/
  hops : List NodeId
  /-- The protocol of the final link. -/
  protocol : ProtocolId
  score : C
  deriving DecidableEq, Repr

/-- `Path::candidate`. -/
def Path.candidate {C : Type} (p : Path C) : RouteCandidate C where
  hops := p.hops
  protocol := (p.links.getLast?.map Link.protocol).getD "radii"
  score := p.cost

/-! ## Yen's algorithm -/

section Plan

variable {C : Type} [AddCommMonoid C] [LinearOrder C] (linkCost : Link → C)

/-- The hops on which the paths that begin with `root` leave it. -/
def bannedEdges (paths : List (Path C)) (root : List NodeId) (spurIndex : ℕ) :
    List (NodeId × NodeId) :=
  paths.filterMap fun path =>
    if spurIndex + 1 < path.hops.length ∧ path.hops.take (spurIndex + 1) = root then
      match path.hops[spurIndex]?, path.hops[spurIndex + 1]? with
      | some a, some b => some (a, b)
      | _, _ => none
    else none

/-- One turn of the inner loop: looks for a path that leaves `previous` after `spurIndex` hops. -/
def trySpur (order : IterOrder NodeId (Cell Arc C)) (adjacency : HashMap NodeId (List Link))
    (target : NodeId) (maxHops : ℕ) (accepted : List (Path C)) (previous : Path C)
    (candidates : List (Path C)) (spurIndex : ℕ) : List (Path C) :=
  match previous.hops[spurIndex]? with
  | none => candidates
  | some spurNode =>
      let root := previous.hops.take (spurIndex + 1)
      match shortestPath linkCost order adjacency spurNode target (maxHops - spurIndex)
        (root.take spurIndex) (bannedEdges (accepted ++ candidates) root spurIndex) with
      | none => candidates
      | some spurPath =>
          let hops := root.take spurIndex ++ spurPath.hops
          let links := previous.links.take spurIndex ++ spurPath.links
          let combined : Path C := ⟨hops, links, (links.map linkCost).sum⟩
          let alreadyKnown := (accepted ++ candidates).any fun path => path.hops = combined.hops
          if alreadyKnown then candidates else candidates ++ [combined]

/-- The index of the first of the cheapest candidates. -/
def bestIndex (candidates : List (Path C)) : ℕ :=
  (List.range candidates.length).foldl (fun best index =>
    match candidates[index]?, candidates[best]? with
    | some path, some kept => if path.cost < kept.cost then index else best
    | _, _ => best) 0

/-- The outer loop; the recursion is on how many more routes the limit allows. -/
def acceptMore (orders : ℕ → ℕ → IterOrder NodeId (Cell Arc C))
    (adjacency : HashMap NodeId (List Link)) (target : NodeId) (maxHops : ℕ) :
    ℕ → List (Path C) → List (Path C) → List (Path C)
  | 0, accepted, _ => accepted
  | more + 1, accepted, candidates =>
      match accepted.getLast? with
      | none => accepted
      | some previous =>
          let candidates := (List.range (previous.hops.length - 1)).foldl
            (fun candidates spurIndex => trySpur linkCost (orders accepted.length spurIndex)
              adjacency target maxHops accepted previous candidates spurIndex) candidates
          let best := bestIndex candidates
          match candidates[best]? with
          | none => accepted
          | some path =>
              acceptMore orders adjacency target maxHops more (accepted ++ [path])
                (candidates.eraseIdx best)

/-- `RoutePlanner::plan`: up to `limit` loop-free routes, cheapest first.  `orders` gives the order
in which the search made after so many accepted routes, at some spur index, walks its hash maps. -/
def plan (orders : ℕ → ℕ → IterOrder NodeId (Cell Arc C)) (snapshot : GraphSnapshot)
    (request : RouteRequest) (limit : ℕ) : List (RouteCandidate C) :=
  let limit := min limit maxRouteResults
  let maxHops := min request.maxHops maxRouteHops
  if limit = 0 then []
  else
    let adjacency := buildAdjacency snapshot request.allowedProtocols
    match shortestPath linkCost (orders 0 0) adjacency request.source request.target maxHops [] []
      with
    | none => []
    | some best =>
        (acceptMore linkCost orders adjacency request.target maxHops (limit - 1) [best] []).map
          Path.candidate

end Plan

/-! ## The candidate to accept -/

section Best

variable {C : Type} [LinearOrder C] {candidates : List (Path C)}

lemma bestIndex_spec (hne : candidates ≠ []) :
    ∃ best, candidates[bestIndex candidates]? = some best ∧
      ∀ path ∈ candidates, best.cost ≤ path.cost := by
  have hfold : ∀ n ≤ candidates.length, ∃ best,
      candidates[(List.range n).foldl (fun best index =>
        match candidates[index]?, candidates[best]? with
        | some path, some kept => if path.cost < kept.cost then index else best
        | _, _ => best) 0]? = some best ∧
      ∀ index path, index < n → candidates[index]? = some path → best.cost ≤ path.cost := by
    intro n
    induction n with
    | zero =>
        intro _
        have hhead : candidates[0]? = some (candidates.head hne) := by
          rw [← List.head?_eq_getElem?, List.head?_eq_some_head hne]
        refine ⟨candidates.head hne, hhead, ?_⟩
        intro index path h
        exact absurd h (Nat.not_lt_zero index)
    | succ n ih =>
        intro hn
        obtain ⟨kept, hkept, hleast⟩ := ih (Nat.le_of_succ_le hn)
        have hpath : candidates[n]? = some candidates[n] := List.getElem?_eq_getElem hn
        rw [List.range_succ, List.foldl_append, List.foldl_cons, List.foldl_nil, hpath, hkept]
        simp only
        split_ifs with hlt
        · refine ⟨_, hpath, ?_⟩
          intro index path hindex hat
          rcases Nat.lt_succ_iff_lt_or_eq.mp hindex with hindex | rfl
          · exact hlt.le.trans (hleast index path hindex hat)
          · rw [hpath, Option.some.injEq] at hat
            rw [hat]
        · refine ⟨_, hkept, ?_⟩
          intro index path hindex hat
          rcases Nat.lt_succ_iff_lt_or_eq.mp hindex with hindex | rfl
          · exact hleast index path hindex hat
          · rw [hpath, Option.some.injEq] at hat
            rw [← hat]
            exact not_lt.mp hlt
  obtain ⟨best, hbest, hleast⟩ := hfold candidates.length (le_refl _)
  refine ⟨best, hbest, ?_⟩
  intro path hpath
  rcases List.getElem_of_mem hpath with ⟨index, hindex, hat⟩
  exact hleast index path hindex (hat ▸ List.getElem?_eq_getElem hindex)

omit [LinearOrder C] in
lemma perm_eraseIdx {index : ℕ} {best : Path C} (h : candidates[index]? = some best) :
    candidates.Perm (best :: candidates.eraseIdx index) := by
  obtain ⟨hindex, rfl⟩ := List.getElem?_eq_some_iff.mp h
  exact (List.getElem_cons_eraseIdx_perm hindex).symm

end Best

/-! ## A search at a root -/

section Spur

variable {C : Type} [AddCommMonoid C] [LinearOrder C] {linkCost : Link → C}
  {adjacency : HashMap NodeId (List Link)} {source target : NodeId} {maxHops : ℕ}

omit [AddCommMonoid C] [LinearOrder C] in
lemma mem_bannedEdges {paths : List (Path C)} {pre : List NodeId} {v a b : NodeId} :
    (a, b) ∈ bannedEdges paths (pre ++ [v]) pre.length ↔
      a = v ∧ Begun (paths.map Path.hops) (pre ++ [v] ++ [b]) := by
  rw [bannedEdges, List.mem_filterMap]
  constructor
  · rintro ⟨path, hpath, hsome⟩
    split_ifs at hsome with hroot
    rcases hroot with ⟨hlength, htake⟩
    have hsplit : path.hops = pre ++ [v] ++ path.hops.drop (pre.length + 1) := by
      rw [← htake, List.take_append_drop]
    cases hdrop : path.hops.drop (pre.length + 1) with
    | nil => exact absurd (List.drop_eq_nil_iff.mp hdrop) (not_le.mpr hlength)
    | cons y rest =>
        rw [hdrop] at hsplit
        have hv : path.hops[pre.length]? = some v := by simp [hsplit]
        have hy : path.hops[pre.length + 1]? = some y := by simp [hsplit]
        simp only [hv, hy, Option.some.injEq, Prod.mk.injEq] at hsome
        rcases hsome with ⟨rfl, rfl⟩
        refine ⟨rfl, path.hops, List.mem_map_of_mem hpath, rest, ?_⟩
        rw [hsplit]
        simp
  · rintro ⟨rfl, hops, hmem, rest, hrest⟩
    rcases List.mem_map.mp hmem with ⟨path, hpath, rfl⟩
    have htake : (pre ++ [a] ++ ([b] ++ rest)).take (pre.length + 1) = pre ++ [a] :=
      List.take_left' (by simp)
    refine ⟨path, hpath, ?_⟩
    rw [← hrest, List.append_assoc, if_pos ⟨by simp, htake⟩]
    simp

omit [AddCommMonoid C] [LinearOrder C] in
/-- What a search at the root `pre ++ [v]` may use are the hops beyond the root. -/
lemma unbanned_eq_beyond (paths : List (Path C)) (pre : List NodeId) (v : NodeId) :
    Unbanned pre (bannedEdges paths (pre ++ [v]) pre.length) =
      CostGraph.Beyond pre v fun y => Begun (paths.map Path.hops) (pre ++ [v] ++ [y]) := by
  funext a b
  rw [Unbanned, mem_bannedEdges, CostGraph.Beyond]

/-- A path as the planner holds it: the cheapest links along its hops, and what they cost. -/
structure Planned (G : CostGraph NodeId Arc C) (source target : NodeId) (maxHops : ℕ)
    (path : Path C) : Prop where
  isPath : G.IsPath source target maxHops path.hops
  along : ∃ es, G.Along path.hops es ∧ path.links = es.map Prod.snd ∧ path.cost = G.walkCost es

lemma Planned.cost {G : CostGraph NodeId Arc C} {path : Path C}
    (h : Planned G source target maxHops path) : path.cost = G.pathCost path.hops := by
  rcases h.along with ⟨es, halong, -, hcost⟩
  rw [hcost, halong.cost]

variable (linkCost adjacency source target maxHops) in
/-- What holds of the accepted paths and the candidates at all times. -/
structure Yen (accepted candidates : List (Path C)) : Prop where
  known : Known ((arcs adjacency linkCost).paths source target maxHops)
    (arcs adjacency linkCost).pathCost (accepted.map Path.hops) (candidates.map Path.hops)
  planned : ∀ path ∈ accepted ++ candidates,
    Planned (arcs adjacency linkCost) source target maxHops path

omit [AddCommMonoid C] in
lemma rooted_paths {G : CostGraph NodeId Arc C} :
    Rooted (G.paths source target maxHops) source :=
  rooted_of_ends fun _ hp => ⟨hp.head, hp.last, hp.nodup⟩

lemma exists_split {α : Type} {l : List α} {i : ℕ} (h : i + 1 < l.length) :
    ∃ pre v y rest, l = pre ++ v :: y :: rest ∧ pre.length = i := by
  refine ⟨l.take i, l[i], l[i + 1], l.drop (i + 2), ?_, by simp; omega⟩
  rw [← List.drop_eq_getElem_cons h, ← List.drop_eq_getElem_cons, List.take_append_drop]

/-- A path found after the root `pre ++ [v]` of another, put together with it. -/
lemma Planned.combine {G : CostGraph NodeId Arc C} (hG : G = arcs adjacency linkCost)
    {previous : Path C} (hprevious : Planned G source target maxHops previous)
    {pre rest : List NodeId} {v : NodeId} (hhops : previous.hops = pre ++ v :: rest)
    {es : List Arc} (hpath : G.IsPath source target maxHops (pre ++ G.vertices v es))
    (halong : G.Along (G.vertices v es) es) :
    Planned G source target maxHops ⟨pre ++ G.vertices v es,
      previous.links.take pre.length ++ es.map Prod.snd,
      ((previous.links.take pre.length ++ es.map Prod.snd).map linkCost).sum⟩ := by
  rcases hprevious.along with ⟨fs, hfs, hlinks, -⟩
  rw [hhops] at hfs
  refine ⟨hpath, fs.take pre.length ++ es, hfs.take.append halong, ?_, ?_⟩
  · show previous.links.take pre.length ++ es.map Prod.snd = _
    rw [hlinks, List.map_append, List.map_take]
  · rw [hlinks, ← List.map_take, ← List.map_append, List.map_map, hG]
    rfl

variable [IsOrderedCancelAddMonoid C] (hcost : ∀ link, 0 ≤ linkCost link)
include hcost

/-- **One turn of the inner loop** covers its root. -/
theorem Yen.trySpur (order : IterOrder NodeId (Cell Arc C))
    {accepted candidates : List (Path C)} {previous : Path C} {spurIndex : ℕ}
    (h : Yen linkCost adjacency source target maxHops accepted candidates)
    (hprevious : previous ∈ accepted) (hspur : spurIndex + 1 < previous.hops.length) :
    ∃ found, Radii.trySpur linkCost order adjacency target maxHops accepted previous candidates
        spurIndex = candidates ++ found ∧
      Yen linkCost adjacency source target maxHops accepted (candidates ++ found) ∧
      Covered ((arcs adjacency linkCost).paths source target maxHops)
        (arcs adjacency linkCost).pathCost (accepted.map Path.hops)
        ((candidates ++ found).map Path.hops) (previous.hops.take (spurIndex + 1)) := by
  rcases exists_split hspur with ⟨pre, v, y, rest, hhops, rfl⟩
  have hplanned := h.planned previous (List.mem_append_left _ hprevious)
  have hpath := hhops ▸ hplanned.isPath
  have hsplit : pre ++ v :: y :: rest = pre ++ [v] ++ (y :: rest) := by simp
  have hroot : previous.hops.take (pre.length + 1) = pre ++ [v] := by
    rw [hhops, hsplit]
    exact List.take_left' (by simp)
  have hnodup : (pre ++ [v]).Nodup := (hsplit ▸ hpath.nodup).of_append_left
  have hlast : (v :: y :: rest).getLast? = some target := by
    have hlast := hpath.last
    rwa [List.getLast?_append_of_ne_nil _ (by simp)] at hlast
  have hsource : v ∉ pre := fun hmem =>
    (List.nodup_append.mp hnodup).2.2 v hmem v (List.mem_singleton_self v) rfl
  have htarget : target ∉ pre := fun hmem => (List.nodup_append.mp hpath.nodup).2.2 target hmem
    target (List.mem_of_getLast? hlast) rfl
  have hbegun : Begun (accepted.map Path.hops) (pre ++ [v]) :=
    ⟨previous.hops, List.mem_map_of_mem hprevious, y :: rest, by rw [hhops, hsplit]⟩
  have hall : (accepted ++ candidates).map Path.hops =
      accepted.map Path.hops ++ candidates.map Path.hops := List.map_append
  rw [Radii.trySpur, hroot, show previous.hops[pre.length]? = some v by simp [hhops]]
  simp only [List.take_left]
  rcases shortestPath_spec order adjacency
      (bannedEdges (accepted ++ candidates) (pre ++ [v]) pre.length) hcost
      (maxHops - pre.length) hsource htarget with ⟨hnone, hwalks⟩ | ⟨es, hshortest, hsimple, hsome⟩
  · rw [hnone]
    rw [searched, unbanned_eq_beyond, hall] at hwalks
    refine ⟨[], (List.append_nil _).symm, by rwa [List.append_nil], ?_⟩
    rw [List.append_nil]
    refine h.known.exhausted rooted_paths hbegun ?_
    intro q hq z hz
    -- otherwise the path would give the search a walk
    by_contra hnew
    rcases hz with ⟨tail, htail⟩
    exact CostGraph.no_continuation hwalks hq ⟨z, tail, by rw [← htail]; simp, hnew⟩
  · rw [searched, unbanned_eq_beyond, hall] at hshortest
    have hvt : v ≠ target := by
      rintro rfl
      rw [List.getLast?_cons_cons] at hlast
      exact (List.nodup_append.mp hpath.nodup).2.1.notMem (List.mem_of_getLast? hlast)
    have hbudget : pre.length ≤ maxHops := by
      have hlength := hpath.length
      rw [List.length_append, List.length_cons, List.length_cons] at hlength
      omega
    obtain ⟨hfound, ⟨z, tail, hz, hnew⟩, halong, hleast⟩ := hshortest.cheapest_after hsimple hvt
      (by rw [← hpath.head]; cases pre <;> rfl) hnodup
      (List.IsChain.left_of_append (hsplit ▸ hpath.joined)) hbudget
    have hgoes : pre ++ [v] ++ [z] <+: pre ++ (arcs adjacency linkCost).vertices v es :=
      ⟨tail, by rw [hz]; simp⟩
    obtain ⟨hknown, hcovered⟩ := h.known.search rooted_paths hbegun hfound hgoes hnew
      fun q hq x hx hxnew => by
        rcases hx with ⟨rest', hrest'⟩
        exact hleast q hq ⟨x, rest', by rw [← hrest']; simp, hxnew⟩
    have hunknown : ((accepted ++ candidates).any fun path =>
        path.hops = pre ++ (arcs adjacency linkCost).vertices v es) = false := by
      rw [List.any_eq_false]
      intro path hmem heq
      rw [decide_eq_true_eq] at heq
      exact hnew ⟨path.hops, hall ▸ List.mem_map_of_mem hmem, heq ▸ hgoes⟩
    have hcombined := hplanned.combine rfl hhops hfound halong
    have hsome : shortestPath linkCost order adjacency v target (maxHops - pre.length) pre
        (bannedEdges (accepted ++ candidates) (pre ++ [v]) pre.length) =
        some ⟨(arcs adjacency linkCost).vertices v es, es.map Prod.snd, _⟩ := hsome
    rw [hsome]
    simp only [hunknown, Bool.false_eq_true, if_false]
    refine ⟨[_], rfl, ⟨?_, ?_⟩, ?_⟩
    · rwa [List.map_append]
    · intro path hmem
      rw [← List.append_assoc, List.mem_append, List.mem_singleton] at hmem
      rcases hmem with hmem | rfl
      · exact h.planned path hmem
      · exact hcombined
    · rwa [List.map_append]

/-- The inner loop covers every root of the path it goes along. -/
lemma Yen.trySpurs (order : ℕ → IterOrder NodeId (Cell Arc C)) {accepted candidates : List (Path C)}
    {previous : Path C} (h : Yen linkCost adjacency source target maxHops accepted candidates)
    (hprevious : previous ∈ accepted) {n : ℕ} (hn : n ≤ previous.hops.length - 1) :
    ∃ found, (List.range n).foldl (fun candidates spurIndex => Radii.trySpur linkCost
        (order spurIndex) adjacency target maxHops accepted previous candidates spurIndex)
        candidates = candidates ++ found ∧
      Yen linkCost adjacency source target maxHops accepted (candidates ++ found) ∧
      ∀ i < n, Covered ((arcs adjacency linkCost).paths source target maxHops)
        (arcs adjacency linkCost).pathCost (accepted.map Path.hops)
        ((candidates ++ found).map Path.hops) (previous.hops.take (i + 1)) := by
  induction n with
  | zero => exact ⟨[], by simp, by rwa [List.append_nil], fun i hi => absurd hi (Nat.not_lt_zero i)⟩
  | succ n ih =>
      obtain ⟨found, hfold, hyen, hcovered⟩ := ih (Nat.le_of_succ_le hn)
      obtain ⟨more, htry, hyen, hlast⟩ :=
        hyen.trySpur hcost (order n) hprevious (Nat.add_lt_of_lt_sub hn)
      rw [List.append_assoc] at htry hyen hlast
      refine ⟨found ++ more, ?_, hyen, ?_⟩
      · rw [List.range_succ, List.foldl_append, hfold, List.foldl_cons, List.foldl_nil, htry]
      · intro i hi
        rcases Nat.lt_succ_iff_lt_or_eq.mp hi with hi | rfl
        · refine (hcovered i hi).mono ?_
          rw [← List.append_assoc]
          exact List.map_subset _ (List.subset_append_left _ _)
        · exact hlast

/-! ## The plan -/

variable (linkCost adjacency source target maxHops) in
/-- What holds whenever the outer loop starts a turn: the accepted paths are the cheapest ones, in
order, and every root is covered that the last of them does not begin with. -/
structure Accepting (accepted candidates : List (Path C)) : Prop
    extends Yen linkCost adjacency source target maxHops accepted candidates where
  ranked : Ranked ((arcs adjacency linkCost).paths source target maxHops)
    (arcs adjacency linkCost).pathCost (accepted.map Path.hops)
  sorted : (accepted.map Path.hops).Pairwise fun p q =>
    (arcs adjacency linkCost).pathCost p ≤ (arcs adjacency linkCost).pathCost q
  covered : ∃ previous, accepted.getLast? = some previous ∧ ∀ r, ¬ r <+: previous.hops →
    Covered ((arcs adjacency linkCost).paths source target maxHops)
      (arcs adjacency linkCost).pathCost (accepted.map Path.hops) (candidates.map Path.hops) r

/-- After the inner loop every root is covered. -/
lemma Accepting.trySpurs (order : ℕ → IterOrder NodeId (Cell Arc C))
    {accepted candidates : List (Path C)}
    (h : Accepting linkCost adjacency source target maxHops accepted candidates) :
    ∃ previous found, accepted.getLast? = some previous ∧
      (List.range (previous.hops.length - 1)).foldl (fun candidates spurIndex => Radii.trySpur
        linkCost (order spurIndex) adjacency target maxHops accepted previous candidates spurIndex)
        candidates = candidates ++ found ∧
      Yen linkCost adjacency source target maxHops accepted (candidates ++ found) ∧
      ∀ r, Covered ((arcs adjacency linkCost).paths source target maxHops)
        (arcs adjacency linkCost).pathCost (accepted.map Path.hops)
        ((candidates ++ found).map Path.hops) r := by
  rcases h.covered with ⟨previous, hlast, hcovered⟩
  have hprevious : previous ∈ accepted := List.mem_of_getLast? hlast
  have hmem : previous.hops ∈ accepted.map Path.hops := List.mem_map_of_mem hprevious
  obtain ⟨found, hfold, hyen, htaken⟩ :=
    h.toYen.trySpurs hcost order hprevious (le_refl _)
  refine ⟨previous, found, hlast, hfold, hyen, ?_⟩
  intro r
  by_cases hr : r <+: previous.hops
  · have hk : r = previous.hops.take r.length := List.prefix_iff_eq_take.mp hr
    rcases r.length.eq_zero_or_pos with hzero | hpos
    · rw [List.length_eq_zero_iff.mp hzero]
      exact covered_nil rooted_paths h.ranked.mem (List.ne_nil_of_mem hmem)
    rcases hr.length_le.eq_or_lt with hfull | hlt
    · rw [hr.eq_of_length hfull]
      exact covered_self rooted_paths h.ranked.mem hmem
    · have hroot := htaken (r.length - 1) (by omega)
      rwa [Nat.sub_add_cancel hpos, ← hk] at hroot
  · refine (hcovered r hr).mono ?_
    exact List.map_subset _ (List.subset_append_left _ _)

omit [IsOrderedCancelAddMonoid C] hcost in
/-- Accepting the cheapest candidate. -/
lemma Accepting.accept {accepted candidates found rest : List (Path C)} {best : Path C}
    (h : Accepting linkCost adjacency source target maxHops accepted candidates)
    (hyen : Yen linkCost adjacency source target maxHops accepted (candidates ++ found))
    (hcovered : ∀ r, Covered ((arcs adjacency linkCost).paths source target maxHops)
      (arcs adjacency linkCost).pathCost (accepted.map Path.hops)
      ((candidates ++ found).map Path.hops) r)
    (hperm : (candidates ++ found).Perm (best :: rest))
    (hbest : ∀ path ∈ candidates ++ found, best.cost ≤ path.cost) :
    Accepting linkCost adjacency source target maxHops (accepted ++ [best]) rest := by
  have hmem : best ∈ candidates ++ found := hperm.mem_iff.mpr List.mem_cons_self
  have hmaps : ((candidates ++ found).map Path.hops).Perm (best.hops :: rest.map Path.hops) :=
    hperm.map Path.hops
  have hplanned := hyen.planned best (List.mem_append_right _ hmem)
  have hnew : best.hops ∉ accepted.map Path.hops := fun hA =>
    (List.disjoint_of_nodup_append hyen.known.nodup) hA (List.mem_map_of_mem hmem)
  have hne : accepted.map Path.hops ≠ [] := by
    rcases h.covered with ⟨previous, hlast, -⟩
    exact List.ne_nil_of_mem (List.mem_map_of_mem (List.mem_of_getLast? hlast))
  have hleast : ∀ q ∈ (arcs adjacency linkCost).paths source target maxHops,
      q ∉ accepted.map Path.hops →
      (arcs adjacency linkCost).pathCost best.hops ≤ (arcs adjacency linkCost).pathCost q := by
    intro q hq hA
    obtain ⟨c, hc, hle⟩ := covered_cheapest hne hcovered hq hA
    rcases List.mem_map.mp hc with ⟨path, hpath, rfl⟩
    rw [← hplanned.cost]
    refine (hbest path hpath).trans ?_
    rwa [(hyen.planned path (List.mem_append_right _ hpath)).cost]
  refine ⟨⟨?_, fun path hpath => ?_⟩, ?_, ?_, best, List.getLast?_concat, fun r hr => ?_⟩
  · rw [List.map_append]
    exact hyen.known.accept hmaps
  · rw [List.append_assoc] at hpath
    exact hyen.planned path ((hperm.append_left accepted).mem_iff.mpr hpath)
  · rw [List.map_append]
    exact h.ranked.concat hplanned.isPath hnew hleast
  · rw [List.map_append]
    refine List.pairwise_append.mpr ⟨h.sorted, List.pairwise_singleton _ _, ?_⟩
    intro p hp q hq
    rw [List.map_singleton, List.mem_singleton] at hq
    exact hq ▸ h.ranked.least p hp _ hplanned.isPath hnew
  · rw [List.map_append]
    exact (hcovered r).accept hmaps hr

/-- **The outer loop** ends with the cheapest paths. -/
theorem Accepting.acceptMore (orders : ℕ → ℕ → IterOrder NodeId (Cell Arc C)) (more : ℕ)
    {accepted candidates : List (Path C)}
    (h : Accepting linkCost adjacency source target maxHops accepted candidates) :
    (∀ path ∈ Radii.acceptMore linkCost orders adjacency target maxHops more accepted candidates,
      Planned (arcs adjacency linkCost) source target maxHops path) ∧
    Top ((arcs adjacency linkCost).paths source target maxHops)
      (arcs adjacency linkCost).pathCost (accepted.length + more)
      ((Radii.acceptMore linkCost orders adjacency target maxHops more accepted candidates).map
        Path.hops) := by
  induction more generalizing accepted candidates with
  | zero =>
      rw [Radii.acceptMore, Nat.add_zero]
      exact ⟨fun path hpath => h.planned path (List.mem_append_left _ hpath), h.ranked, h.sorted,
        by simp, fun hlt => absurd hlt (by simp)⟩
  | succ more ih =>
      obtain ⟨previous, found, hlast, hfold, hyen, hcovered⟩ :=
        h.trySpurs hcost (orders accepted.length)
      rw [Radii.acceptMore, hlast]
      simp only [hfold]
      by_cases hnil : candidates ++ found = []
      · -- no candidate is left, so every path is accepted
        rw [hnil] at hcovered ⊢
        refine ⟨fun path hpath => h.planned path (List.mem_append_left _ hpath), h.ranked, h.sorted,
          by simp, ?_⟩
        intro _ q hq
        by_contra hA
        have hne : accepted.map Path.hops ≠ [] :=
          List.ne_nil_of_mem (List.mem_map_of_mem (List.mem_of_getLast? hlast))
        obtain ⟨c, hc, -⟩ := covered_cheapest hne hcovered hq hA
        simp at hc
      · rcases bestIndex_spec hnil with ⟨best, hbest, hcheapest⟩
        rw [hbest]
        have hnext := ih (h.accept hyen hcovered (perm_eraseIdx hbest) hcheapest)
        rwa [List.length_append, List.length_singleton, add_assoc, add_comm 1 more] at hnext

omit [AddCommMonoid C] [IsOrderedCancelAddMonoid C] hcost in
lemma searched_nil : searched linkCost adjacency [] [] = arcs adjacency linkCost :=
  CostGraph.restrict_of_all fun _ _ => ⟨List.not_mem_nil, List.not_mem_nil⟩

omit hcost in
/-- What the first search finds is where the outer loop starts. -/
lemma accepting_first {es : List Arc}
    (hshortest : (arcs adjacency linkCost).Shortest source target maxHops es)
    (hsimple : ((arcs adjacency linkCost).vertices source es).Nodup) :
    Accepting linkCost adjacency source target maxHops
      [⟨(arcs adjacency linkCost).vertices source es, es.map Prod.snd,
        (arcs adjacency linkCost).walkCost es⟩] [] := by
  rcases hshortest.isPath hsimple with ⟨hpath, hleast⟩
  refine ⟨⟨⟨List.nodup_singleton _, ?_, by simp⟩, ?_⟩,
    ⟨List.nodup_singleton _, ?_, ?_⟩, List.pairwise_singleton _ _, _, rfl, ?_⟩
  · intro p hp
    exact List.mem_singleton.mp hp ▸ hpath
  · intro path hmem
    rw [List.mem_singleton.mp hmem]
    exact ⟨hpath, es, hshortest.along, rfl, rfl⟩
  · intro p hp
    exact List.mem_singleton.mp hp ▸ hpath
  · intro p hp q hq _
    exact List.mem_singleton.mp hp ▸ hleast q hq
  · intro r hr q _ _ hleaves
    rcases hleaves.2.1 with ⟨p, hp, hrp⟩
    exact absurd (List.mem_singleton.mp hp ▸ hrp) hr

/-- **A plan holds the cheapest paths** of the request, `limit` of them or all there are, each with
what its hops cost. -/
theorem plan_top (orders : ℕ → ℕ → IterOrder NodeId (Cell Arc C)) (snapshot : GraphSnapshot)
    (request : RouteRequest) (limit : ℕ) :
    Top ((network snapshot request.allowedProtocols linkCost).paths request.source request.target
        (min request.maxHops maxRouteHops))
      (network snapshot request.allowedProtocols linkCost).pathCost (min limit maxRouteResults)
      ((plan linkCost orders snapshot request limit).map RouteCandidate.hops) ∧
    ∀ candidate ∈ plan linkCost orders snapshot request limit, candidate.score =
      (network snapshot request.allowedProtocols linkCost).pathCost candidate.hops := by
  rw [← arcs_buildAdjacency, plan]
  split_ifs with hzero
  · rw [hzero]
    exact ⟨⟨⟨List.nodup_nil, by simp, by simp⟩, List.Pairwise.nil, le_refl _, by simp⟩, by simp⟩
  · rcases shortestPath_spec (orders 0 0) (buildAdjacency snapshot request.allowedProtocols) []
        hcost (min request.maxHops maxRouteHops) (List.not_mem_nil (a := request.source))
        (List.not_mem_nil (a := request.target)) with
      ⟨hnone, hwalks⟩ | ⟨es, hshortest, hsimple, hsome⟩
    · simp only [hnone]
      refine ⟨⟨⟨List.nodup_nil, by simp, by simp⟩, List.Pairwise.nil, Nat.zero_le _, ?_⟩, by simp⟩
      rw [searched_nil] at hwalks
      intro _ q hq
      rcases CostGraph.IsPath.walk hq with ⟨es, hes, hlength, -⟩
      exact absurd (hwalks es hes) (not_lt.mpr hlength)
    · rw [searched_nil] at hshortest hsimple hsome
      simp only [hsome, List.map_map]
      obtain ⟨hplanned, htop⟩ := (accepting_first hshortest hsimple).acceptMore hcost orders
        (min limit maxRouteResults - 1)
      rw [List.length_singleton, Nat.add_sub_cancel' (Nat.one_le_iff_ne_zero.mpr hzero)] at htop
      refine ⟨htop, ?_⟩
      intro candidate hcandidate
      rcases List.mem_map.mp hcandidate with ⟨path, hpath, rfl⟩
      exact (hplanned path hpath).cost

end Spur

/-! ## The plan of a request -/

section Requested

variable {C : Type} [AddCommMonoid C] [LinearOrder C] [IsOrderedCancelAddMonoid C]
  (linkCost : Link → C)

/-- The simple node sequences a request asks about. -/
def RouteRequest.paths (snapshot : GraphSnapshot) (request : RouteRequest) : Set (List NodeId) :=
  (network snapshot request.allowedProtocols linkCost).paths request.source request.target
    (min request.maxHops maxRouteHops)

/-- What a node sequence costs, each step by the cheapest link of the request that goes there. -/
noncomputable def RouteRequest.cost (snapshot : GraphSnapshot) (request : RouteRequest) :
    List NodeId → C :=
  (network snapshot request.allowedProtocols linkCost).pathCost

/-- The routes are `k` cheapest ones, or all there are, cheapest first. -/
structure CheapestRoutes (N : Set (List NodeId)) (cost : List NodeId → C) (k : ℕ)
    (routes : List (RouteCandidate C)) : Prop where
  distinct : (routes.map RouteCandidate.hops).Nodup
  mem : ∀ route ∈ routes, route.hops ∈ N
  score : ∀ route ∈ routes, route.score = cost route.hops
  count : (routes.length : ℕ∞) = min (k : ℕ∞) N.encard
  sorted : routes.Pairwise fun first second => first.score ≤ second.score
  least : ∀ p ∈ N, p ∉ routes.map RouteCandidate.hops → ∀ route ∈ routes, route.score ≤ cost p

/-- **`RoutePlanner::plan` returns the cheapest routes.**  A request for a way from a node to itself
has one, of no links. -/
theorem plan_cheapest (hcost : ∀ link, 0 ≤ linkCost link)
    (orders : ℕ → ℕ → IterOrder NodeId (Cell Arc C)) (snapshot : GraphSnapshot)
    (request : RouteRequest) (limit : ℕ) :
    CheapestRoutes (request.paths linkCost snapshot) (request.cost linkCost snapshot)
      (min limit maxRouteResults) (plan linkCost orders snapshot request limit) ∧
    (request.source = request.target → request.paths linkCost snapshot = {[request.source]} ∧
      request.cost linkCost snapshot [request.source] = 0) := by
  rcases plan_top hcost orders snapshot request limit with ⟨htop, hscore⟩
  refine ⟨⟨htop.nodup, ?_, hscore, ?_, ?_, ?_⟩, fun hself => ⟨?_, rfl⟩⟩
  · intro route hroute
    exact htop.mem route.hops (List.mem_map_of_mem hroute)
  · rw [← List.length_map RouteCandidate.hops]
    exact htop.count
  · refine (List.pairwise_map.mp htop.sorted).imp_of_mem fun hfirst hsecond hle => ?_
    rwa [hscore _ hfirst, hscore _ hsecond]
  · intro p hp hout route hroute
    rw [hscore route hroute]
    exact htop.least route.hops (List.mem_map_of_mem hroute) p hp hout
  · rw [RouteRequest.paths, ← hself]
    exact CostGraph.paths_self request.source _

/-- Two links to `d`, one of them dear, and a way through `b`. -/
def parallelSnapshot : GraphSnapshot :=
  .fromReports [⟨"a", "b", "radii", true, some 10⟩, ⟨"b", "d", "radii", true, some 10⟩,
    ⟨"a", "d", "radii", true, some 500⟩, ⟨"a", "d", "radii", true, some 15⟩]

/-- The two routes from `a` to `d`, with latencies for costs. -/
theorem plan_cheapest_parallel :
    CheapestRoutes
      (RouteRequest.paths (fun link => (link.latencyMs.map UInt32.toNat).getD 1000)
        parallelSnapshot ⟨"a", "d", ["radii"], 4⟩)
      (RouteRequest.cost (fun link => (link.latencyMs.map UInt32.toNat).getD 1000)
        parallelSnapshot ⟨"a", "d", ["radii"], 4⟩) 3
      [⟨["a", "d"], "radii", 15⟩, ⟨["a", "b", "d"], "radii", 20⟩] :=
  (plan_cheapest (fun link => (link.latencyMs.map UInt32.toNat).getD 1000)
    (fun _ => Nat.zero_le _) (fun _ _ => .default) parallelSnapshot ⟨"a", "d", ["radii"], 4⟩ 3).1

end Requested

end Radii
