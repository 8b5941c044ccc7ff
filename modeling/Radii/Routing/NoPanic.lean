import Radii.Routing.Checked

/-!
# Planning never panics

* `Budgeted` — what holds of every path the planner has: one more hop than links, and no more links
  than the hop budget.
* `planning_never_panics` — whatever the graph, the request and the registry, plans and dialable
  routes are returned.
-/

namespace Radii

namespace Checked

open Collections Graphs Panics

/-! ## A search returns -/

section Searched

variable {C : Type}

/-- The parents of the cells stand in layers before `hop`. -/
def Below (hop : ℕ) (layer : Layer C) : Prop :=
  ∀ node cell arc previous, layer.lookup node = some cell → cell.parent = some (arc, previous) →
    previous < hop

/-- In every layer the parents stand in layers before it. -/
def Layered (layers : List (Layer C)) : Prop :=
  ∀ hop layer, layers[hop]? = some layer → Below hop layer

/-- One more hop than links, and no more links than the budget. -/
structure Budgeted (maxHops : ℕ) (path : Path C) : Prop where
  hops : path.hops.length = path.links.length + 1
  links : path.links.length ≤ maxHops

lemma Below.mono {hop hop' : ℕ} {layer : Layer C} (h : Below hop layer) (hle : hop ≤ hop') :
    Below hop' layer :=
  fun node cell arc previous hcell hparent => (h node cell arc previous hcell hparent).trans_le hle

/-- A cell is put down whose parent stands before `hop`. -/
lemma Below.insert {hop previous : ℕ} {layer : Layer C} (h : Below hop layer) (hlt : previous < hop)
    (node : NodeId) (cost : C) (arc : Arc) :
    Below hop (layer.insert node ⟨cost, some (arc, previous)⟩) := by
  intro node' cell arc' previous' hcell hparent
  by_cases hnode : node' = node
  · subst hnode
    rw [AList.lookup_insert, Option.some.injEq] at hcell
    subst hcell
    simp only [Option.some.injEq, Prod.mk.injEq] at hparent
    exact hparent.2 ▸ hlt
  · rw [HashMap.lookup_insert_of_ne hnode] at hcell
    exact h node' cell arc' previous' hcell hparent

lemma below_first (source : NodeId) (cost : C) :
    Below 0 (AList.insert source ⟨cost, none⟩ ∅ : Layer C) := by
  intro node cell arc previous hcell hparent
  by_cases hnode : node = source
  · subst hnode
    rw [AList.lookup_insert, Option.some.injEq] at hcell
    subst hcell
    exact absurd hparent (by simp)
  · rw [HashMap.lookup_insert_of_ne hnode, AList.lookup_empty] at hcell
    exact absurd hcell (by simp)

lemma layered_nil : Layered ([] : List (Layer C)) := by
  intro hop layer hlayer
  exact absurd hlayer (by simp)

lemma Layered.concat {layers : List (Layer C)} (h : Layered layers) {layer : Layer C}
    (hlayer : Below layers.length layer) : Layered (layers ++ [layer]) := by
  intro hop layer' hget
  rcases Nat.lt_or_ge hop layers.length with hlt | hge
  · rw [List.getElem?_append_left hlt] at hget
    exact h hop layer' hget
  · obtain ⟨hlast, hget⟩ := List.getElem?_eq_some_iff.mp hget
    rw [List.length_append, List.length_singleton] at hlast
    obtain rfl : hop = layers.length := by omega
    rw [List.getElem_concat_length rfl] at hget
    exact hget ▸ hlayer

variable [Add C] [LinearOrder C] {linkCost : Link → C} {order : IterOrder NodeId (Cell Arc C)}
  {adjacency : HashMap NodeId (List Link)} {bannedNodes : List NodeId}
  {bannedEdges : List (NodeId × NodeId)}

lemma relaxLink_returns {hop : ℕ} (hhop : 0 < hop) (node : NodeId) (cell : Cell Arc C)
    {layer : Layer C} (hlayer : Below hop layer) (link : Link) :
    Returns (relaxLink linkCost bannedNodes bannedEdges hop node cell layer link) (Below hop) := by
  have hinsert : ∀ cost, Returns (do
      pure (layer.insert link.toId ⟨cost, some ((node, link), ← sub hop 1)⟩)) (Below hop) := by
    intro cost
    refine (returns_sub (Nat.succ_le_of_lt hhop)).bind ?_
    rintro previous rfl
    exact returns_pure (hlayer.insert (Nat.sub_lt hhop Nat.one_pos) _ _ _)
  rw [relaxLink]
  split_ifs
  · exact returns_pure hlayer
  · exact returns_pure hlayer
  · exact returns_ite (fun _ => hinsert _) fun _ => returns_pure hlayer

lemma relaxNode_returns {hop : ℕ} (hhop : 0 < hop) {layer : Layer C} (hlayer : Below hop layer)
    (entry : NodeId × Cell Arc C) :
    Returns (relaxNode linkCost adjacency bannedNodes bannedEdges hop layer entry) (Below hop) := by
  rw [relaxNode]
  cases adjacency.lookup entry.1 with
  | none => exact returns_pure hlayer
  | some links =>
      refine foldlM_returns (Below hop) hlayer ?_
      intro link _ layer hlayer
      exact relaxLink_returns hhop entry.1 entry.2 hlayer link

lemma pushLayer_returns {layers : List (Layer C)} (hlayers : Layered layers) (hne : layers ≠ []) :
    Returns (pushLayer linkCost order adjacency bannedNodes bannedEdges layers layers.length)
      fun layers' => layers'.length = layers.length + 1 ∧ Layered layers' := by
  have hhop : 0 < layers.length := List.length_pos_iff.mpr hne
  have hlast : layers.length - 1 < layers.length := Nat.sub_lt hhop Nat.one_pos
  rw [pushLayer]
  refine (returns_sub hhop).bind_eq ?_
  refine (returns_index hlast).bind ?_
  intro layer hlayer
  refine (returns_sub hhop).bind_eq ?_
  refine (returns_index hlast).bind ?_
  intro before _
  have hbelow : Below layers.length layer := (hlayers _ _ hlayer).mono hlast.le
  refine (foldlM_returns (Below layers.length) hbelow ?_).bind ?_
  · intro entry _ layer hlayer
    exact relaxNode_returns hhop hlayer entry
  · intro layer hlayer
    exact returns_pure ⟨List.length_append, hlayers.concat hlayer⟩

lemma layers_return (source : NodeId) (cost : C) (maxHops : ℕ) :
    Returns ((List.range' 1 maxHops).foldlM
      (pushLayer linkCost order adjacency bannedNodes bannedEdges)
      [AList.insert source ⟨cost, none⟩ ∅]) Layered := by
  -- after so many turns there are so many layers, and one
  refine (foldlM_returns_done (fun done layers => layers.length = done.length + 1 ∧ Layered layers)
    ⟨rfl, ?_⟩ ?_).mono fun _ h => h.2
  · exact layered_nil.concat (below_first source cost)
  · rintro done hop rest hall layers ⟨hlength, hlayers⟩
    have hhop : hop = layers.length := by
      have hget := congrArg (fun hops : List ℕ => hops[done.length]?) hall
      simp only [List.getElem?_append_right le_rfl, Nat.sub_self, List.getElem?_cons_zero,
        List.getElem?_eq_some_iff, List.getElem_range'] at hget
      rcases hget with ⟨-, hget⟩
      omega
    subst hhop
    rw [List.length_append, List.length_singleton, ← hlength]
    exact pushLayer_returns hlayers (List.ne_nil_of_length_pos (by omega))

omit [Add C] [LinearOrder C] in
/-- The way back gets a hop with every link, and a layer lower with every turn. -/
lemma followParents_returns {layers : List (Layer C)} (hlayers : Layered layers) {fuel h : ℕ}
    (hfuel : h < fuel) (node : NodeId) (hops : List NodeId) (links : List Link) :
    Returns (followParents layers fuel (node, h) hops links) fun found =>
      ∀ hops' links', found = some (hops', links') →
        hops'.length + links.length = hops.length + links'.length ∧
        links'.length ≤ links.length + h := by
  induction fuel generalizing h node hops links with
  | zero => exact absurd hfuel (Nat.not_lt_zero h)
  | succ fuel ih =>
      rw [followParents]
      cases hcell : (layers[h]?).bind fun layer => layer.lookup node with
      | none => exact returns_pure (by simp)
      | some cell =>
          obtain ⟨layer, hlayer, hcell⟩ := Option.bind_eq_some_iff.mp hcell
          dsimp only
          cases hparent : cell.parent with
          | none =>
              refine returns_pure ?_
              rintro hops' links' heq
              obtain ⟨rfl, rfl⟩ := Prod.mk.inj (Option.some.inj heq)
              exact ⟨rfl, Nat.le_add_right _ _⟩
          | some parent =>
              rcases parent with ⟨⟨previous, link⟩, l⟩
              have hl := hlayers h layer hlayer node cell _ l hcell hparent
              refine returns_ite (fun _ => returns_pure (by simp)) fun _ => ?_
              refine (ih (hl.trans_le (Nat.le_of_lt_succ hfuel)) previous _ _).mono ?_
              intro found hfound hops' links' heq
              have hlengths := hfound hops' links' heq
              simp only [List.length_append, List.length_singleton] at hlengths
              omega

omit [Add C] [LinearOrder C] in
lemma reconstruct_returns {layers : List (Layer C)} (hlayers : Layered layers)
    (source target : NodeId) (maxHops : ℕ) :
    Returns (reconstruct layers source target maxHops) fun found =>
      ∀ path, found = some path → Budgeted maxHops path := by
  rw [reconstruct]
  cases (layers[maxHops]?).bind fun layer => layer.lookup target with
  | none => exact returns_pure (by simp)
  | some cell =>
      refine (followParents_returns hlayers (Nat.lt_succ_self maxHops) target [target] []).bind ?_
      intro found hfound
      match found, hfound with
      | none, _ => exact returns_pure (by simp)
      | some (hops, links), hfound =>
          have hlengths := hfound hops links rfl
          rw [List.length_nil, List.length_singleton] at hlengths
          refine returns_ite (fun _ => returns_pure (by simp)) fun _ => returns_pure ?_
          rintro path heq
          obtain rfl := Option.some.inj heq
          refine ⟨?_, ?_⟩
          · rw [List.length_reverse, List.length_reverse]
            omega
          · rw [List.length_reverse]
            omega

/-- **A search returns**, and what it finds is within its budget. -/
theorem shortestPath_returns [Zero C] (source target : NodeId) {maxHops : ℕ}
    (hmax : maxHops + 1 < 2 ^ 64) :
    Returns (shortestPath linkCost order adjacency source target maxHops bannedNodes bannedEdges)
      fun found => ∀ path, found = some path → Budgeted maxHops path := by
  rw [shortestPath]
  split_ifs
  · exact returns_pure (by simp)
  · refine returns_pure ?_
    rintro path heq
    obtain rfl := Option.some.inj heq
    exact ⟨rfl, Nat.zero_le _⟩
  · refine (returns_add hmax).bind fun _ _ => (layers_return source 0 maxHops).bind ?_
    intro layers hlayers
    exact reconstruct_returns hlayers source target maxHops

end Searched

/-! ## A plan returns -/

section Planned

variable {C : Type}

/-- All paths the planner has are within the budget. -/
def AllBudgeted (maxHops : ℕ) (paths : List (Path C)) : Prop :=
  ∀ path ∈ paths, Budgeted maxHops path

lemma AllBudgeted.append {maxHops : ℕ} {paths paths' : List (Path C)}
    (h : AllBudgeted maxHops paths) (h' : AllBudgeted maxHops paths') :
    AllBudgeted maxHops (paths ++ paths') := by
  intro path hpath
  rcases List.mem_append.mp hpath with hpath | hpath
  · exact h path hpath
  · exact h' path hpath

lemma allBudgeted_singleton {maxHops : ℕ} {path : Path C} (h : Budgeted maxHops path) :
    AllBudgeted maxHops [path] :=
  fun _ hpath => List.mem_singleton.mp hpath ▸ h

lemma banEdge_returns (root : List NodeId) {spurIndex : ℕ} (hspur : spurIndex + 1 < 2 ^ 64)
    (banned : List (NodeId × NodeId)) (path : Path C) :
    Returns (banEdge root spurIndex banned path) fun _ => True := by
  rw [banEdge]
  refine (returns_add hspur).bind_eq ?_
  refine returns_ite (fun hlength => ?_) fun _ => returns_pure trivial
  have hspurIndex : spurIndex < path.hops.length := Nat.lt_of_succ_lt hlength
  refine (returns_through hspurIndex).bind fun begun _ => ?_
  refine returns_ite (fun _ => ?_) fun _ => returns_pure trivial
  refine (returns_index hspurIndex).bind fun a _ => ?_
  refine (returns_add hspur).bind_eq ?_
  exact (returns_index hlength).bind fun b _ => returns_pure trivial

/-- A prefix of one path and a path found with what is left of the budget. -/
lemma Budgeted.combine {maxHops spurIndex : ℕ} {previous spurPath : Path C}
    (hprevious : Budgeted maxHops previous) (hspur : spurIndex + 1 < previous.hops.length)
    (hspurPath : Budgeted (maxHops - spurIndex) spurPath) (cost : C) :
    Budgeted maxHops ⟨(previous.hops.take (spurIndex + 1)).take spurIndex ++ spurPath.hops,
      previous.links.take spurIndex ++ spurPath.links, cost⟩ := by
  rcases hprevious with ⟨hhops, hlinks⟩
  rcases hspurPath with ⟨hspurHops, hspurLinks⟩
  refine ⟨?_, ?_⟩
  · simp only [List.length_append, List.length_take]
    omega
  · simp only [List.length_append, List.length_take]
    omega

variable [LinearOrder C]

lemma bestIndex_returns {candidates : List (Path C)} (hne : candidates ≠ []) :
    Returns (bestIndex candidates) (· < candidates.length) := by
  refine foldlM_returns (· < candidates.length) (List.length_pos_iff.mpr hne) ?_
  rintro ⟨path, i⟩ hmem best hbest
  refine (returns_index hbest).bind fun kept _ => returns_pure ?_
  split_ifs
  · exact List.snd_lt_of_mem_zipIdx hmem
  · exact hbest

variable [Zero C] [Add C] {linkCost : Link → C} {adjacency : HashMap NodeId (List Link)}
  {target : NodeId} {maxHops : ℕ}

/-- **One turn of the inner loop**: every index and slice is within `previous`. -/
theorem trySpur_returns (hmax : maxHops + 1 < 2 ^ 64) (order : IterOrder NodeId (Cell Arc C))
    (accepted : List (Path C)) {previous : Path C} (hprevious : Budgeted maxHops previous)
    {candidates : List (Path C)} (hcandidates : AllBudgeted maxHops candidates) {spurIndex : ℕ}
    (hspur : spurIndex + 1 < previous.hops.length) :
    Returns (trySpur linkCost order adjacency target maxHops accepted previous candidates spurIndex)
      (AllBudgeted maxHops) := by
  -- with one more hop than links, the spur node has a link after it, and budget is left
  have hhops := hprevious.hops
  have hlinks := hprevious.links
  have hindex : spurIndex < previous.hops.length := Nat.lt_of_succ_lt hspur
  have hroot : spurIndex ≤ (previous.hops.take (spurIndex + 1)).length := by
    rw [List.length_take]
    omega
  rw [trySpur]
  refine (returns_index hindex).bind fun spurNode _ => ?_
  refine (returns_through hindex).bind_eq ?_
  refine (foldlM_returns (fun _ => True) trivial ?_).bind fun bannedEdges _ => ?_
  · intro path _ banned _
    exact banEdge_returns _ (by omega) banned path
  refine (returns_upTo hroot).bind fun bannedNodes _ => ?_
  refine (returns_sub (by omega)).bind_eq ?_
  refine (shortestPath_returns spurNode target (by omega)).bind fun found hfound => ?_
  cases found with
  | none => exact returns_pure hcandidates
  | some spurPath =>
      refine (returns_upTo hroot).bind_eq ?_
      refine (returns_upTo (by omega)).bind_eq ?_
      have hcombined := hprevious.combine hspur (hfound spurPath rfl)
      exact returns_ite (fun _ => returns_pure hcandidates)
        fun _ => returns_pure (hcandidates.append (allBudgeted_singleton (hcombined _)))

/-- A path that lacks its links would make the slice of them panic. -/
example : trySpur (fun _ => 1) .default (buildAdjacency (GraphSnapshot.fromReports
    [⟨"b", "d", "radii", true, none⟩, ⟨"d", "c", "radii", true, none⟩]) []) "c" 4 []
    ⟨["a", "b", "c"], [], (0 : ℕ)⟩ [] 1 = .error .outOfRange := rfl

/-- **The outer loop** keeps all paths within the budget. -/
theorem acceptMore_returns (hmax : maxHops + 1 < 2 ^ 64)
    (orders : ℕ → ℕ → IterOrder NodeId (Cell Arc C)) (more : ℕ)
    {accepted candidates : List (Path C)} (hne : accepted ≠ [])
    (haccepted : AllBudgeted maxHops accepted) (hcandidates : AllBudgeted maxHops candidates) :
    Returns (acceptMore linkCost orders adjacency target maxHops more accepted candidates)
      fun paths => AllBudgeted maxHops (paths.1 ++ paths.2) := by
  induction more generalizing accepted candidates with
  | zero => exact returns_pure (haccepted.append hcandidates)
  | succ more ih =>
      have hlength : 0 < accepted.length := List.length_pos_iff.mpr hne
      rw [acceptMore]
      refine (returns_sub hlength).bind_eq ?_
      refine (returns_index (Nat.sub_lt hlength Nat.one_pos)).bind fun previous hprevious => ?_
      have hprevious := haccepted previous (List.mem_of_getElem? hprevious)
      refine (foldlM_returns (AllBudgeted maxHops) hcandidates ?_).bind
        fun candidates hcandidates => ?_
      · intro spurIndex hmem candidates hcandidates
        exact trySpur_returns hmax _ accepted hprevious hcandidates
          (Nat.add_lt_of_lt_sub (List.mem_range.mp hmem))
      refine returns_ite (fun _ => returns_pure (haccepted.append hcandidates)) fun hnonempty => ?_
      refine (bestIndex_returns (by simpa using hnonempty)).bind fun best hbest => ?_
      refine (returns_remove hbest).bind ?_
      rintro ⟨path, rest⟩ ⟨hpath, rfl⟩
      refine ih (by simp) (haccepted.append (allBudgeted_singleton ?_)) ?_
      · exact hcandidates path (List.mem_of_getElem? hpath)
      · exact fun other hother => hcandidates other (List.mem_of_mem_eraseIdx hother)

variable (linkCost) in
lemma planPaths_returns (orders : ℕ → ℕ → IterOrder NodeId (Cell Arc C)) (snapshot : GraphSnapshot)
    (request : RouteRequest) (limit : ℕ) :
    Returns (planPaths linkCost orders snapshot request limit) fun paths =>
      AllBudgeted (min request.maxHops maxRouteHops) (paths.1 ++ paths.2) := by
  have hmax : min request.maxHops maxRouteHops + 1 < 2 ^ 64 := by
    rw [maxRouteHops]
    omega
  have hnone : AllBudgeted (min request.maxHops maxRouteHops) ([] ++ [] : List (Path C)) := by
    intro path hpath
    exact absurd hpath List.not_mem_nil
  rw [planPaths]
  refine returns_ite (fun _ => returns_pure hnone) fun _ => ?_
  refine (shortestPath_returns _ _ hmax).bind fun found hfound => ?_
  cases found with
  | none => exact returns_pure hnone
  | some best =>
      exact acceptMore_returns hmax orders _ (List.cons_ne_nil _ _)
        (allBudgeted_singleton (hfound best rfl)) fun _ hpath => absurd hpath List.not_mem_nil

/-- A plan's candidates have a hop. -/
lemma plan_returns (orders : ℕ → ℕ → IterOrder NodeId (Cell Arc C)) (snapshot : GraphSnapshot)
    (request : RouteRequest) (limit : ℕ) :
    Returns (plan linkCost orders snapshot request limit) fun candidates =>
      ∀ candidate ∈ candidates, candidate.hops ≠ [] := by
  rw [plan]
  refine (planPaths_returns linkCost orders snapshot request limit).bind ?_
  rintro ⟨accepted, candidates⟩ hpaths
  refine returns_pure ?_
  intro candidate hcandidate
  rcases List.mem_map.mp hcandidate with ⟨path, hpath, rfl⟩
  have hhops := (hpaths path (List.mem_append_left _ hpath)).hops
  exact List.ne_nil_of_length_eq_add_one hhops

end Planned

/-! ## Nothing panics -/

section Resolved

variable {C : Type}

/-- None of the routes is without a hop. -/
def AllDialable (routes : List (ResolvedRoute C)) : Prop := ∀ route ∈ routes, route.hops ≠ []

lemma resolveCandidate_returns (q : Query) {candidate : RouteCandidate C}
    (hhops : candidate.hops ≠ []) :
    Returns (resolveCandidate q candidate) fun route => AllDialable route.toList := by
  rw [resolveCandidate]
  refine (returns_sub (List.length_pos_iff.mpr hhops)).bind fun lastIndex _ => ?_
  cases resolveHops q lastIndex (candidate.hops.zipIdx.drop 1) [] with
  | none => exact returns_pure (by simp [AllDialable])
  | some hops =>
      refine returns_ite (fun _ => returns_pure (by simp [AllDialable])) fun hnonempty => ?_
      exact returns_pure (by simpa [AllDialable] using hnonempty)

lemma ResolvedRoute.target_returns {route : ResolvedRoute C} (h : route.hops ≠ []) :
    Returns route.target fun _ => True := by
  rw [ResolvedRoute.target, List.getLast?_eq_getLast_of_ne_nil h]
  exact (returns_expect _ _).bind fun _ _ => returns_pure trivial

variable [Zero C] [Add C] [LinearOrder C] {linkCost : Link → C}

lemma resolveTarget_returns (orders : ℕ → ℕ → ℕ → IterOrder NodeId (Cell Arc C)) (q : Query)
    {resolved : List (ResolvedRoute C)} (hresolved : AllDialable resolved) (entry : NodeId × ℕ) :
    Returns (resolveTarget linkCost orders q resolved entry) AllDialable := by
  rw [resolveTarget]
  refine (plan_returns _ _ _ _).bind fun candidates hcandidates => ?_
  refine foldlM_returns AllDialable hresolved ?_
  intro candidate hmem resolved hresolved
  refine (resolveCandidate_returns q (hcandidates candidate hmem)).bind fun route hroute => ?_
  refine returns_pure ?_
  intro r hr
  rcases List.mem_append.mp hr with hr | hr
  · exact hresolved r hr
  · exact hroute r hr

variable (linkCost) in
lemma resolveCandidates_returns (orders : ℕ → ℕ → ℕ → IterOrder NodeId (Cell Arc C)) (q : Query) :
    Returns (resolveCandidates linkCost orders q) AllDialable := by
  have hnil : AllDialable ([] : List (ResolvedRoute C)) := by simp [AllDialable]
  rw [resolveCandidates]
  refine (foldlM_returns AllDialable hnil ?_).bind fun resolved hresolved => returns_pure ?_
  · intro entry _ resolved hresolved
    exact resolveTarget_returns orders q hresolved entry
  · intro route hroute
    have hmem := distinctBy_sublist.subset (List.mem_of_mem_take hroute)
    exact hresolved route ((List.mem_insertionSort _).mp hmem)

/-- **Planning never panics.**  Whatever the costs and the order in which the hash maps are walked:
every path accepted, and every candidate left, has one more hop than links and no more links than
the hop budget; the plan and the dialable routes are returned; and every one of these has a target. -/
theorem planning_never_panics (linkCost : Link → C) :
    (∀ orders snapshot request limit, ∃ accepted candidates,
      planPaths linkCost orders snapshot request limit = .ok (accepted, candidates) ∧
      (∀ path ∈ accepted ++ candidates, Budgeted (min request.maxHops maxRouteHops) path) ∧
      plan linkCost orders snapshot request limit = .ok (accepted.map Path.candidate)) ∧
    ∀ orders q, ∃ routes, resolveCandidates linkCost orders q = .ok routes ∧
      ∀ route ∈ routes, ∃ node, route.target = .ok node := by
  refine ⟨?_, ?_⟩
  · intro orders snapshot request limit
    rcases planPaths_returns linkCost orders snapshot request limit with
      ⟨⟨accepted, candidates⟩, hpaths, hbudgeted⟩
    refine ⟨accepted, candidates, hpaths, hbudgeted, ?_⟩
    rw [plan, hpaths]
    rfl
  · intro orders q
    rcases resolveCandidates_returns linkCost orders q with ⟨routes, heq, hroutes⟩
    refine ⟨routes, heq, ?_⟩
    intro route hroute
    rcases ResolvedRoute.target_returns (hroutes route hroute) with ⟨node, hnode, -⟩
    exact ⟨node, hnode⟩

end Resolved

end Checked

end Radii
