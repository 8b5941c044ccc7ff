import Radii.Routing.Resolve

/-!
# The best dialable routes

What `resolve_candidates` is for, said without its code: `Dialable` paths, the node sequences they
are dialed along, and the `Best` of these.  The code cuts each plan off at the limit before it asks
the registry for addresses, so that paths nobody can dial take the places of paths one could.

* `resolveCandidates_best` — the result is the best one exactly where no dialable path is crowded
  out in this way.
* `undialable_path_hides_dialable` — where the only dialable path is, nothing is returned.
-/

namespace Radii

open Collections Graphs

/-! ## Dialable paths -/

namespace Query

/-- The simple paths from the source to `target`, over links the query allows. -/
def paths (q : Query) (target : NodeId) : Set (List NodeId) :=
  (network q.snapshot q.allowedProtocols defaultLinkCost).paths q.source target
    (min q.maxHops maxRouteHops)

/-- What the links of a path cost. -/
noncomputable def cost (q : Query) (p : List NodeId) : ℕ :=
  (network q.snapshot q.allowedProtocols defaultLinkCost).pathCost p

/-- The nodes that are dialed along a path. -/
def sequence (q : Query) (p : List NodeId) : List NodeId := (q.required p.tail).map Prod.fst

/-- A path to a listed target on which every hop to be resolved has an address. -/
structure Dialable (q : Query) (target : NodeId) (p : List NodeId) : Prop where
  listed : target ∈ q.targets
  ne_source : target ≠ q.source
  path : p ∈ q.paths target
  advertised : ∀ x ∈ q.required p.tail, Advertises q.listenAddrs x.1 x.2

/-- The dialable node sequences. -/
def sequences (q : Query) : Set (List NodeId) :=
  {s | ∃ target p, q.Dialable target p ∧ q.sequence p = s}

end Query

/-- The routes are the best dialable ones: as many as the limit allows or as there are, each with
its addresses and its score, and none left out that is cheaper. -/
structure Best (q : Query) (routes : List ResolvedRoute) : Prop where
  dialable : ∀ route ∈ routes, ∃ target p, q.Dialable target p ∧
    List.Forall₂ (Resolves q.listenAddrs) route.hops (q.required p.tail) ∧ route.score = q.cost p
  distinct : (routes.map ResolvedRoute.nodeSequence).Nodup
  count : (routes.length : ℕ∞) = min (q.limit : ℕ∞) q.sequences.encard
  cheapest : ∀ route ∈ routes, ∀ target p, q.Dialable target p →
    q.sequence p = route.nodeSequence → route.score ≤ q.cost p
  least : ∀ route ∈ routes, ∀ target p, q.Dialable target p →
    q.sequence p ∉ routes.map ResolvedRoute.nodeSequence → route.score ≤ q.cost p

namespace Query

/-- No dialable path that may be among the best is crowded out of its plan: either nothing that
costs no more is undialable, or there are fewer than `limit` other paths that cost no more. -/
def Uncrowded (q : Query) : Prop :=
  ∀ target p, q.Dialable target p →
    {s | ∃ target' p', q.Dialable target' p' ∧ q.sequence p' = s ∧
      q.cost p' < q.cost p}.encard < q.limit →
    (∀ p' ∈ q.paths target, q.cost p' ≤ q.cost p → q.Dialable target p') ∨
    {p' ∈ q.paths target | q.sequence p' ≠ q.sequence p ∧ q.cost p' ≤ q.cost p}.encard < q.limit

/-- No dialable path that must be among the best has `limit` cheaper paths before it. -/
def Unhidden (q : Query) : Prop :=
  ∀ target p, q.Dialable target p →
    {s | s ≠ q.sequence p ∧ ∃ target' p', q.Dialable target' p' ∧ q.sequence p' = s ∧
      q.cost p' ≤ q.cost p}.encard < q.limit →
    {p' ∈ q.paths target | q.sequence p' ≠ q.sequence p ∧ q.cost p' < q.cost p}.encard < q.limit

/-- No two paths that are dialed differently cost the same. -/
def NoTies (q : Query) : Prop :=
  ∀ target ∈ q.targets, ∀ target' ∈ q.targets, ∀ p ∈ q.paths target, ∀ p' ∈ q.paths target',
    q.cost p = q.cost p' → q.sequence p = q.sequence p'

/-- Without ties the two conditions are one. -/
lemma Unhidden.uncrowded {q : Query} (h : q.Unhidden) (hties : q.NoTies) : q.Uncrowded := by
  intro target p hp hbetter
  refine Or.inr (lt_of_le_of_lt (Set.encard_le_encard ?_) (h target p hp ?_))
  · rintro p' ⟨hpath, hne, hle⟩
    refine ⟨hpath, hne, hle.lt_of_ne fun heq => hne ?_⟩
    exact hties target hp.listed target hp.listed p' hpath p hp.path heq
  · refine lt_of_le_of_lt (Set.encard_le_encard ?_) hbetter
    rintro _ ⟨hne, target', p', hp', rfl, hle⟩
    refine ⟨target', p', hp', rfl, hle.lt_of_ne fun heq => hne ?_⟩
    exact hties target' hp'.listed target hp.listed p' hp'.path p hp.path heq

/-! ## Sequences -/

/-- Past the source, the path goes on to the target. -/
lemma exists_tail {q : Query} {target : NodeId} {p : List NodeId} (hp : p ∈ q.paths target)
    (hne : target ≠ q.source) : p = q.source :: p.tail ∧ p.tail.getLast? = some target := by
  have hp : CostGraph.IsPath _ _ _ _ p := hp
  obtain ⟨rest, hrest⟩ := List.head?_eq_some_iff.mp hp.head
  have hlast := hp.last
  subst hrest
  refine ⟨rfl, ?_⟩
  cases rest with
  | nil =>
      rw [List.getLast?_singleton, Option.some.injEq] at hlast
      exact absurd hlast.symm hne
  | cons y rest => rwa [List.getLast?_cons_cons] at hlast

/-- A path to the source itself has no hop. -/
lemma tail_eq_nil {q : Query} {p : List NodeId} (hp : p ∈ q.paths q.source) : p.tail = [] := by
  have hp : CostGraph.IsPath _ _ _ _ p := hp
  obtain ⟨rest, rfl⟩ := List.head?_eq_some_iff.mp hp.head
  cases rest with
  | nil => rfl
  | cons y rest =>
      have hlast := hp.last
      rw [List.getLast?_cons_cons] at hlast
      exact absurd (List.mem_of_getLast? hlast) (List.nodup_cons.mp hp.nodup).1

/-- What is dialed along a path: the hops between, if there is a role for them, and the target. -/
lemma required_eq (q : Query) {nodes : List NodeId} {target : NodeId}
    (h : nodes.getLast? = some target) :
    q.required nodes = (q.hopRole.toList.flatMap fun role =>
      nodes.dropLast.map fun node => (node, role)) ++ [(target, q.targetRole)] := by
  induction nodes with
  | nil => simp at h
  | cons node nodes ih =>
      match nodes, ih, h with
      | [], _, h =>
          rw [List.getLast?_singleton, Option.some.injEq] at h
          rw [required, h]
          cases q.hopRole <;> rfl
      | next :: rest, ih, h =>
          rw [List.getLast?_cons_cons] at h
          rw [required, ih h]
          cases q.hopRole with
          | none => rfl
          | some role => simp

/-- Without a role for the hops between, only the target is dialed. -/
lemma required_of_none {q : Query} (hrole : q.hopRole = none) {nodes : List NodeId}
    {target : NodeId} (h : nodes.getLast? = some target) :
    q.required nodes = [(target, q.targetRole)] := by
  rw [q.required_eq h, hrole]
  rfl

/-- With a role for them, every hop is. -/
lemma required_of_some {q : Query} {role : RoleId} (hrole : q.hopRole = some role)
    (nodes : List NodeId) : (q.required nodes).map Prod.fst = nodes := by
  cases hlast : nodes.getLast? with
  | none =>
      rw [List.getLast?_eq_none_iff.mp hlast]
      rfl
  | some target =>
      rw [q.required_eq hlast, hrole]
      simpa [Function.comp_def] using List.dropLast_append_getLast? target hlast

lemma sequence_of_none {q : Query} (hrole : q.hopRole = none) {target : NodeId} {p : List NodeId}
    (hp : p ∈ q.paths target) (hne : target ≠ q.source) : q.sequence p = [target] := by
  rw [sequence, required_of_none hrole (exists_tail hp hne).2]
  rfl

lemma sequence_getLast {q : Query} {target : NodeId} {p : List NodeId} (hp : p ∈ q.paths target)
    (hne : target ≠ q.source) : (q.sequence p).getLast? = some target := by
  cases hrole : q.hopRole with
  | none => rw [sequence_of_none hrole hp hne, List.getLast?_singleton]
  | some role =>
      rw [sequence, required_of_some hrole]
      exact (exists_tail hp hne).2

/-- Where the hops between are dialed, a path is dialed along all of its nodes. -/
lemma sequence_injOn {q : Query} {role : RoleId} (hrole : q.hopRole = some role)
    {target : NodeId} (hne : target ≠ q.source) : Set.InjOn q.sequence (q.paths target) := by
  intro p hp p' hp' heq
  rw [sequence, sequence, required_of_some hrole, required_of_some hrole] at heq
  rw [(exists_tail hp hne).1, (exists_tail hp' hne).1, heq]

end Query

/-! ## What is returned -/

lemma advertises_of_resolves {listenAddrs : ListenAddrs} {hops : List ResolvedHop}
    {xs : List (NodeId × RoleId)} (h : List.Forall₂ (Resolves listenAddrs) hops xs) :
    hops.map ResolvedHop.nodeId = xs.map Prod.fst ∧
      ∀ x ∈ xs, Advertises listenAddrs x.1 x.2 := by
  induction h with
  | nil => simp
  | @cons hop x hops xs hresolves _ ih =>
      rcases hresolves with ⟨hnode, haddr⟩
      refine ⟨by rw [List.map_cons, List.map_cons, hnode, ih.1], ?_⟩
      rw [List.forall_mem_cons]
      exact ⟨addrForRole_isSome.mp (by rw [haddr]; rfl), ih.2⟩

section Returned

variable {orders : ℕ → ℕ → ℕ → IterOrder NodeId (Cell Arc ℕ)} {q : Query}

variable (orders q) in
/-- The paths planned to the target numbered `i`. -/
def plannedTo (i : ℕ) (target : NodeId) : List (RouteCandidate ℕ) :=
  plan defaultLinkCost (orders i) q.snapshot ⟨q.source, target, q.allowedProtocols, q.maxHops⟩
    q.limit

variable (orders) in
lemma plannedTo_top (i : ℕ) (target : NodeId) :
    Top (q.paths target) q.cost (min q.limit maxRouteResults)
      ((plannedTo orders q i target).map RouteCandidate.hops) ∧
      ∀ candidate ∈ plannedTo orders q i target, candidate.score = q.cost candidate.hops :=
  plan_top (fun link => Nat.zero_le (defaultLinkCost link)) (orders i) q.snapshot
    ⟨q.source, target, q.allowedProtocols, q.maxHops⟩ q.limit

variable (orders) in
lemma plannedTo_top_of_le (hlimit : q.limit ≤ maxRouteResults) (i : ℕ) (target : NodeId) :
    Top (q.paths target) q.cost q.limit
      ((plannedTo orders q i target).map RouteCandidate.hops) := by
  have htop := (plannedTo_top orders (q := q) i target).1
  rwa [min_eq_left hlimit] at htop

/-- A planned path that can be dialed comes before the selection. -/
lemma mem_resolved_of_dialable {i : ℕ} {target : NodeId}
    {p : List NodeId} (hi : q.targets[i]? = some target) (hp : q.Dialable target p)
    (hplanned : p ∈ (plannedTo orders q i target).map RouteCandidate.hops) :
    ∃ route ∈ resolved orders q, route.nodeSequence = q.sequence p ∧ route.score = q.cost p := by
  rcases List.mem_map.mp hplanned with ⟨candidate, hcandidate, rfl⟩
  obtain ⟨htail, hlast⟩ := Query.exists_tail hp.path hp.ne_source
  rcases resolveCandidate_spec q candidate with ⟨route, hroute, hall, hscore⟩ | ⟨-, hnil | hmissing⟩
  · refine ⟨route, mem_resolved.mpr ⟨i, target, hi, candidate, hcandidate, hroute⟩,
      (advertises_of_resolves hall).1, ?_⟩
    rw [hscore, (plannedTo_top orders i target).2 candidate hcandidate]
  · rw [hnil] at hlast
    exact absurd hlast (by simp)
  · rcases hmissing with ⟨x, hx, hmissing⟩
    exact absurd (hp.advertised x hx) hmissing

/-- Every route before the selection is a planned path that can be dialed. -/
lemma dialable_of_mem_resolved {route : ResolvedRoute} (h : route ∈ resolved orders q) :
    ∃ i target p, q.targets[i]? = some target ∧ q.Dialable target p ∧
      p ∈ (plannedTo orders q i target).map RouteCandidate.hops ∧
      List.Forall₂ (Resolves q.listenAddrs) route.hops (q.required p.tail) ∧
      route.score = q.cost p := by
  rcases mem_resolved.mp h with ⟨i, target, hi, candidate, hcandidate, hroute⟩
  obtain ⟨htop, hscores⟩ := plannedTo_top orders (q := q) i target
  have hmem : candidate.hops ∈ (plannedTo orders q i target).map RouteCandidate.hops :=
    List.mem_map_of_mem hcandidate
  rcases resolveCandidate_spec q candidate with ⟨route', hroute', hall, hscore⟩ | ⟨hnone, -⟩
  · rw [hroute, Option.some.injEq] at hroute'
    subst hroute'
    refine ⟨i, target, candidate.hops, hi, ⟨List.mem_of_getElem? hi, ?_, htop.mem _ hmem,
      (advertises_of_resolves hall).2⟩, hmem, hall, hscore.trans (hscores candidate hcandidate)⟩
    rintro rfl
    rw [Query.tail_eq_nil (htop.mem _ hmem)] at hall
    exact route.nonempty (List.forall₂_nil_right_iff.mp hall)
  · rw [hroute] at hnone
    exact absurd hnone (by simp)

/-! ## Enough: nothing is crowded out -/

/-- The planned paths of a target are dialed along as many sequences as there are of them. -/
lemma le_encard_image {role : RoleId} (hrole : q.hopRole = some role) {target : NodeId}
    (hne : target ≠ q.source) {ps : List (List NodeId)} (hnodup : ps.Nodup)
    (hpaths : ∀ p ∈ ps, p ∈ q.paths target) :
    (ps.length : ℕ∞) = (q.sequence '' {p | p ∈ ps}).encard := by
  have hsub : {p | p ∈ ps} ⊆ q.paths target := hpaths
  rw [((Query.sequence_injOn hrole hne).mono hsub).encard_image, encard_mem hnodup]

/-- **Every dialable path is returned or beaten.**  If none is crowded out, then for every dialable
path its sequence is returned at no higher score, or as many routes as the limit allows are. -/
theorem placed_of_uncrowded (hpos : 1 ≤ q.limit) (hlimit : q.limit ≤ maxRouteResults)
    (hq : q.Uncrowded) {target : NodeId} {p : List NodeId} (hp : q.Dialable target p) :
    Placed ResolvedRoute.score ResolvedRoute.nodeSequence q.limit (resolveCandidates orders q)
      (q.sequence p) (q.cost p) := by
  have hselected := selected_resolveCandidates orders q
  have hplanned : ∀ {i target p}, q.targets[i]? = some target → q.Dialable target p →
      p ∈ (plannedTo orders q i target).map RouteCandidate.hops →
      Placed ResolvedRoute.score ResolvedRoute.nodeSequence q.limit (resolveCandidates orders q)
        (q.sequence p) (q.cost p) := by
    intro i target p hi hp hmem
    obtain ⟨route, hroute, hsequence, hscore⟩ := mem_resolved_of_dialable hi hp hmem
    rw [← hsequence, ← hscore]
    exact hselected.placed route hroute
  -- by induction on the cost: what is cheaper is placed
  induction hcost : q.cost p using Nat.strong_induction_on generalizing target p with
  | _ n ih =>
      subst hcost
      obtain ⟨i, hi⟩ := List.getElem?_of_mem hp.listed
      have htop := plannedTo_top_of_le orders hlimit i target
      by_cases hmem : p ∈ (plannedTo orders q i target).map RouteCandidate.hops
      · exact hplanned hi hp hmem
      -- the plan is full of paths that cost no more
      have hlength : ((plannedTo orders q i target).map RouteCandidate.hops).length = q.limit :=
        htop.length.eq_of_not_lt fun hlt => hmem (htop.full hlt p hp.path)
      have hle : ∀ p' ∈ (plannedTo orders q i target).map RouteCandidate.hops,
          q.cost p' ≤ q.cost p := fun p' hp' => htop.least p' hp' p hp.path hmem
      cases hrole : q.hopRole with
      | none =>
          -- all paths to the target are dialed alike, so any planned one does
          obtain ⟨p', hp'⟩ := List.exists_mem_of_length_pos (hpos.trans_eq hlength.symm)
          have hpath' : p' ∈ q.paths target := htop.mem p' hp'
          have hrequired : q.required p'.tail = q.required p.tail := by
            rw [Query.required_of_none hrole (Query.exists_tail hpath' hp.ne_source).2,
              Query.required_of_none hrole (Query.exists_tail hp.path hp.ne_source).2]
          have hdialable : q.Dialable target p' :=
            ⟨hp.listed, hp.ne_source, hpath', hrequired ▸ hp.advertised⟩
          have hplaced := (hplanned hi hdialable hp').mono (hle p' hp')
          rwa [Query.sequence, hrequired] at hplaced
      | some role =>
          have hinj := Query.sequence_injOn hrole hp.ne_source
          refine Or.inr ?_
          by_cases hbetter : {s | ∃ target' p', q.Dialable target' p' ∧ q.sequence p' = s ∧
              q.cost p' < q.cost p}.encard < q.limit
          · rcases hq target p hp hbetter with hall | hfew
            · -- the planned paths are all dialable: they are the crowd
              refine full_of_crowd hselected.nodup hselected.length
                (K := q.sequence '' {p' | p' ∈ (plannedTo orders q i target).map
                  RouteCandidate.hops}) ?_ ?_
              · rw [← le_encard_image hrole hp.ne_source htop.nodup htop.mem, hlength]
              · rintro _ ⟨p', hp', rfl⟩
                have hdialable := hall p' (htop.mem p' hp') (hle p' hp')
                exact (hplanned hi hdialable hp').mono (hle p' hp')
            · -- the planned paths are too many
              refine absurd hfew (not_lt.mpr ?_)
              rw [← hlength, ← encard_mem htop.nodup]
              refine Set.encard_le_encard fun p' hp' => ⟨htop.mem p' hp', ?_, hle p' hp'⟩
              intro heq
              exact hmem (hinj (htop.mem p' hp') hp.path heq ▸ hp')
          · -- the cheaper sequences are the crowd
            refine full_of_crowd hselected.nodup hselected.length (not_lt.mp hbetter) ?_
            rintro _ ⟨target', p', hp', rfl, hlt⟩
            exact (ih _ hlt hp' rfl).mono hlt.le

/-- If every dialable path is placed, the routes are the best. -/
lemma best_of_placed (hplaced : ∀ target p, q.Dialable target p → Placed ResolvedRoute.score
      ResolvedRoute.nodeSequence q.limit (resolveCandidates orders q) (q.sequence p) (q.cost p)) :
    Best q (resolveCandidates orders q) := by
  have hselected := selected_resolveCandidates orders q
  have hdialable : ∀ route ∈ resolveCandidates orders q, ∃ target p, q.Dialable target p ∧
      List.Forall₂ (Resolves q.listenAddrs) route.hops (q.required p.tail) ∧
      route.score = q.cost p := by
    intro route hroute
    obtain ⟨_, target, p, -, hp, -, hall, hscore⟩ :=
      dialable_of_mem_resolved (hselected.mem route hroute)
    exact ⟨target, p, hp, hall, hscore⟩
  have hsub : {s | s ∈ (resolveCandidates orders q).map ResolvedRoute.nodeSequence} ⊆
      q.sequences := by
    intro s hs
    rcases List.mem_map.mp hs with ⟨route, hroute, rfl⟩
    obtain ⟨target, p, hp, hall, -⟩ := hdialable route hroute
    exact ⟨target, p, hp, (advertises_of_resolves hall).1.symm⟩
  have hcard := encard_mem hselected.nodup
  rw [List.length_map] at hcard
  refine ⟨hdialable, hselected.nodup, ?_, ?_, ?_⟩
  · by_cases hfull : (resolveCandidates orders q).length = q.limit
    · rw [← hfull, ← hcard, min_eq_left (Set.encard_le_encard hsub)]
    · have hall : q.sequences ⊆
          {s | s ∈ (resolveCandidates orders q).map ResolvedRoute.nodeSequence} := by
        rintro _ ⟨target, p, hp, rfl⟩
        rcases hplaced target p hp with ⟨route, hroute, heq, -⟩ | ⟨hlength, -⟩
        · exact List.mem_map.mpr ⟨route, hroute, heq⟩
        · exact absurd hlength hfull
      rw [hall.antisymm hsub, hcard, min_eq_right (by exact_mod_cast hselected.length)]
  · intro route hroute target p hp heq
    rcases hplaced target p hp with ⟨other, hother, hsame, hle⟩ | ⟨-, hall⟩
    · rwa [List.inj_on_of_nodup_map hselected.nodup hother hroute (hsame.trans heq)] at hle
    · exact hall route hroute
  · intro route hroute target p hp hout
    rcases hplaced target p hp with ⟨other, hother, hsame, -⟩ | ⟨-, hall⟩
    · exact absurd (List.mem_map.mpr ⟨other, hother, hsame⟩) hout
    · exact hall route hroute

/-! ## Needed: nothing is hidden -/

/-- What must be among the best is returned. -/
lemma Best.returned {routes : List ResolvedRoute} (h : Best q routes) {target : NodeId}
    {p : List NodeId} (hp : q.Dialable target p)
    (hfew : {s | s ≠ q.sequence p ∧ ∃ target' p', q.Dialable target' p' ∧ q.sequence p' = s ∧
      q.cost p' ≤ q.cost p}.encard < q.limit) :
    q.sequence p ∈ routes.map ResolvedRoute.nodeSequence := by
  by_contra hout
  have hmem : ∀ s ∈ routes.map ResolvedRoute.nodeSequence, ∃ target' p', q.Dialable target' p' ∧
      q.sequence p' = s ∧ q.cost p' ≤ q.cost p := by
    intro s hs
    rcases List.mem_map.mp hs with ⟨route, hroute, rfl⟩
    obtain ⟨target', p', hp', hall, hscore⟩ := h.dialable route hroute
    refine ⟨target', p', hp', (advertises_of_resolves hall).1.symm, ?_⟩
    rw [← hscore]
    exact h.least route hroute target p hp hout
  have hcard := encard_mem h.distinct
  rw [List.length_map] at hcard
  have hlt : (routes.length : ℕ∞) < q.limit := by
    refine lt_of_le_of_lt ?_ hfew
    rw [← hcard]
    exact Set.encard_le_encard fun s hs => ⟨fun heq => hout (heq ▸ hs), hmem s hs⟩
  -- so every sequence is returned, that of `p` too
  have hall : {s | s ∈ routes.map ResolvedRoute.nodeSequence} = q.sequences := by
    refine (List.finite_toSet _).eq_of_subset_of_encard_le ?_ ?_
    · intro s hs
      obtain ⟨target', p', hp', heq, -⟩ := hmem s hs
      exact ⟨target', p', hp', heq⟩
    · rw [hcard]
      have hcount := h.count
      rcases min_choice (q.limit : ℕ∞) q.sequences.encard with hmin | hmin
      · exact absurd (hcount.trans hmin) hlt.ne
      · exact (hcount.trans hmin).ge
  have hp_mem : q.sequence p ∈ q.sequences := ⟨target, p, hp, rfl⟩
  rw [← hall] at hp_mem
  exact hout hp_mem

lemma unhidden_of_best (hpos : 1 ≤ q.limit) (hlimit : q.limit ≤ maxRouteResults)
    (h : Best q (resolveCandidates orders q)) : q.Unhidden := by
  intro target p hp hfew
  obtain ⟨route, hroute, hsequence⟩ := List.mem_map.mp (h.returned hp hfew)
  obtain ⟨i, target', p', -, hp', hplanned, hall, -⟩ := dialable_of_mem_resolved
    ((selected_resolveCandidates orders q).mem route hroute)
  have hsame : q.sequence p' = q.sequence p := by
    rw [← hsequence]
    exact (advertises_of_resolves hall).1.symm
  have htarget : target' = target := by
    have hlast := Query.sequence_getLast hp'.path hp'.ne_source
    rw [hsame, Query.sequence_getLast hp.path hp.ne_source, Option.some.injEq] at hlast
    exact hlast.symm
  subst htarget
  cases hrole : q.hopRole with
  | none =>
      have hempty : {p' ∈ q.paths target' | q.sequence p' ≠ q.sequence p ∧
          q.cost p' < q.cost p} = ∅ := by
        refine Set.eq_empty_of_forall_notMem ?_
        rintro p'' ⟨hpath, hne, -⟩
        rw [Query.sequence_of_none hrole hpath hp.ne_source,
          Query.sequence_of_none hrole hp.path hp.ne_source] at hne
        exact hne rfl
      rw [hempty, Set.encard_empty]
      exact_mod_cast hpos
  | some role =>
      rw [Query.sequence_injOn hrole hp.ne_source hp'.path hp.path hsame] at hplanned
      have htop := plannedTo_top_of_le orders hlimit i target'
      -- all cheaper paths are planned, and `p` is
      have hbefore : {p' ∈ q.paths target' | q.sequence p' ≠ q.sequence p ∧
          q.cost p' < q.cost p} ⊂ {p' | p' ∈ (plannedTo orders q i target').map
            RouteCandidate.hops} := by
        refine ⟨?_, fun hsub => (hsub hplanned).2.1 rfl⟩
        rintro p'' ⟨hpath, -, hlt⟩
        by_contra hout
        exact absurd (htop.least p hplanned p'' hpath hout) (not_le.mpr hlt)
      have hfinite := (List.finite_toSet ((plannedTo orders q i target').map
        RouteCandidate.hops)).subset hbefore.subset
      refine (hfinite.encard_lt_encard hbefore).trans_le ?_
      rw [encard_mem htop.nodup]
      exact_mod_cast htop.length

/-- Nothing is crowded out where only the targets are dialed. -/
lemma Query.uncrowded_of_none (hrole : q.hopRole = none) : q.Uncrowded := by
  intro target p hp _
  refine Or.inl fun p' hp' _ => ⟨hp.listed, hp.ne_source, hp', ?_⟩
  rw [required_of_none hrole (exists_tail hp' hp.ne_source).2,
    ← required_of_none hrole (exists_tail hp.path hp.ne_source).2]
  exact hp.advertised

end Returned

/-- **`resolve_candidates` returns the best dialable routes** where no dialable path is crowded out
of its plan, and only where none is hidden; without ties, exactly where none is crowded out. -/
theorem resolveCandidates_best (orders : ℕ → ℕ → ℕ → IterOrder NodeId (Cell Arc ℕ)) (q : Query)
    (hpos : 1 ≤ q.limit) (hlimit : q.limit ≤ maxRouteResults) :
    (q.Uncrowded → Best q (resolveCandidates orders q)) ∧
    (Best q (resolveCandidates orders q) → q.Unhidden) ∧
    (q.NoTies → (Best q (resolveCandidates orders q) ↔ q.Uncrowded)) := by
  have henough : q.Uncrowded → Best q (resolveCandidates orders q) := fun hq =>
    best_of_placed fun _ _ hp => placed_of_uncrowded hpos hlimit hq hp
  have hneeded : Best q (resolveCandidates orders q) → q.Unhidden :=
    unhidden_of_best hpos hlimit
  exact ⟨henough, hneeded, fun hties => ⟨fun h => (hneeded h).uncrowded hties, henough⟩⟩

/-- Reports of a short way through a relay and of a long direct link. -/
def relayedSnapshot : GraphSnapshot :=
  .fromReports [⟨"s", "r", "radii", true, some 10⟩, ⟨"r", "t", "radii", true, some 10⟩,
    ⟨"s", "t", "radii", true, some 500⟩]

/-- A query for one route to `t`; the registry does not know the relay. -/
def relayedQuery (hopRole : Option RoleId) : Query where
  snapshot := relayedSnapshot
  listenAddrs := AList.insert "t" [("10.0.0.5:9000", "relay")] ∅
  source := "s"
  targets := ["t"]
  allowedProtocols := ["radii"]
  maxHops := 4
  limit := 1
  hopRole := hopRole
  targetRole := "relay"

/-- The same where the direct link is the short way. -/
def detourQuery : Query :=
  { relayedQuery (some "relay") with
    snapshot := .fromReports [⟨"s", "r", "radii", true, some 10⟩,
      ⟨"r", "t", "radii", true, some 10⟩, ⟨"s", "t", "radii", true, some 5⟩] }

/-- The network of its links. -/
abbrev detourNetwork : CostGraph NodeId Arc ℕ :=
  network detourQuery.snapshot detourQuery.allowedProtocols defaultLinkCost

lemma has_detour {e : Arc} : detourNetwork.Has e ↔
    e = ("s", ⟨"s", "r", "radii", true, some 10⟩) ∨ e = ("r", ⟨"r", "t", "radii", true, some 10⟩) ∨
      e = ("s", ⟨"s", "t", "radii", true, some 5⟩) := by
  have hlinks : detourQuery.snapshot.links = [⟨"s", "r", "radii", true, some 10⟩,
      ⟨"r", "t", "radii", true, some 10⟩, ⟨"s", "t", "radii", true, some 5⟩] := by decide
  constructor
  · rcases e with ⟨u, link⟩
    rintro ⟨hlink, -, hfrom⟩
    have hfrom : link.fromId = u := hfrom
    subst hfrom
    have hlink : link ∈ detourQuery.snapshot.links := hlink
    rw [hlinks] at hlink
    simp only [List.mem_cons, List.not_mem_nil, or_false] at hlink
    rcases hlink with rfl | rfl | rfl <;> simp
  · rintro (rfl | rfl | rfl) <;> exact ⟨by decide, ⟨rfl, Or.inr (by decide)⟩, rfl⟩

/-- There are two ways to `t`. -/
lemma paths_detour {p : List NodeId} (h : p ∈ detourQuery.paths "t") :
    p = ["s", "t"] ∨ p = ["s", "r", "t"] := by
  have h : detourNetwork.IsPath "s" "t" _ p := h
  have hjoined : ∀ {u v}, detourNetwork.Joined u v →
      (u = "s" ∧ v = "r") ∨ (u = "r" ∧ v = "t") ∨ (u = "s" ∧ v = "t") := by
    rintro u v ⟨e, he, rfl, rfl⟩
    rcases has_detour.mp he with rfl | rfl | rfl
    · exact Or.inl ⟨rfl, rfl⟩
    · exact Or.inr (Or.inl ⟨rfl, rfl⟩)
    · exact Or.inr (Or.inr ⟨rfl, rfl⟩)
  -- nothing leads on from `t`
  have hend : ∀ {rest}, ("t" :: rest).IsChain detourNetwork.Joined → rest = [] := by
    intro rest hchain
    cases rest with
    | nil => rfl
    | cons v rest =>
        rcases hjoined (List.isChain_cons_cons.mp hchain).1 with ⟨hs, -⟩ | ⟨hs, -⟩ | ⟨hs, -⟩ <;>
          exact absurd hs (by decide)
  obtain ⟨rest, rfl⟩ := List.head?_eq_some_iff.mp h.head
  have hchain := h.joined
  have hlast := h.last
  cases rest with
  | nil => exact absurd hlast (by decide)
  | cons v rest =>
      rw [List.isChain_cons_cons] at hchain
      rcases hjoined hchain.1 with ⟨-, rfl⟩ | ⟨hs, -⟩ | ⟨-, rfl⟩
      · cases rest with
        | nil => exact absurd hlast (by decide)
        | cons w rest =>
            rw [List.isChain_cons_cons] at hchain
            rcases hjoined hchain.2.1 with ⟨hr, -⟩ | ⟨-, rfl⟩ | ⟨hr, -⟩
            · exact absurd hr (by decide)
            · rw [hend hchain.2.2]
              exact Or.inr rfl
            · exact absurd hr (by decide)
      · exact absurd hs (by decide)
      · rw [hend hchain.2]
        exact Or.inl rfl

/-- The way through the relay cannot be dialed, and costs more. -/
lemma detour_dearer (h : ["s", "r", "t"] ∈ detourQuery.paths "t") :
    ¬ detourQuery.Dialable "t" ["s", "r", "t"] ∧
      detourQuery.cost ["s", "t"] < detourQuery.cost ["s", "r", "t"] := by
  constructor
  · intro hdialable
    rcases hdialable.advertised ("r", "relay") (by decide) with ⟨advertised, hlookup, -⟩
    have hunknown : detourQuery.listenAddrs.lookup "r" = none := by decide
    rw [hunknown] at hlookup
    exact absurd hlookup (by simp)
  · have hdirect : detourNetwork.hopCost "s" "t" ≤ 15 :=
      CostGraph.hopCost_le (has_detour.mpr (Or.inr (Or.inr rfl))) rfl rfl
    have hjoined : detourNetwork.Joined "r" "t" := by
      have hchain : ["s", "r", "t"].IsChain detourNetwork.Joined := h.joined
      simpa using hchain.tail
    obtain ⟨e, he⟩ := hjoined.cheapest
    have hlast : detourNetwork.hopCost "r" "t" = 20 := by
      rw [← he.cost]
      rcases has_detour.mp he.1.1 with rfl | rfl | rfl
      · exact absurd he.1.2.1 (by decide)
      · rfl
      · exact absurd he.1.2.1 (by decide)
    have hcost : detourQuery.cost ["s", "r", "t"] = detourNetwork.hopCost "s" "r" +
        (detourNetwork.hopCost "r" "t" + 0) := rfl
    have hshort : detourQuery.cost ["s", "t"] = detourNetwork.hopCost "s" "t" + 0 := rfl
    omega

/-- A dearer path that nobody can dial crowds nothing out. -/
theorem resolveCandidates_best_detour :
    (resolveCandidates (fun _ _ _ => .default) detourQuery).map ResolvedRoute.nodeSequence =
      [["t"]] ∧
    (∃ p ∈ detourQuery.paths "t", ¬ detourQuery.Dialable "t" p) ∧
    Best detourQuery (resolveCandidates (fun _ _ _ => .default) detourQuery) := by
  have hpath : ["s", "r", "t"] ∈ detourQuery.paths "t" := by
    refine ⟨rfl, rfl, by decide, ?_, by decide⟩
    exact List.IsChain.cons_cons ⟨_, has_detour.mpr (Or.inl rfl), rfl, rfl⟩
      (List.isChain_pair.mpr ⟨_, has_detour.mpr (Or.inr (Or.inl rfl)), rfl, rfl⟩)
  obtain ⟨hundialable, hdearer⟩ := detour_dearer hpath
  refine ⟨by decide, ⟨_, hpath, hundialable⟩,
    (resolveCandidates_best _ _ (by decide) (by decide)).1 ?_⟩
  intro target p hp _
  obtain rfl : target = "t" := by simpa [detourQuery, relayedQuery] using hp.listed
  obtain rfl : p = ["s", "t"] :=
    (paths_detour hp.path).resolve_right fun heq => hundialable (heq ▸ hp)
  refine Or.inl fun p' hp' hle => ?_
  rcases paths_detour hp' with rfl | rfl
  · exact hp
  · exact absurd hle (not_le.mpr hdearer)

/-- **A path nobody can dial hides one that could be dialed.**  Through the relay is cheaper, so it
is the one path planned, and no route is returned. -/
theorem undialable_path_hides_dialable :
    ¬ ∀ (orders : ℕ → ℕ → ℕ → IterOrder NodeId (Cell Arc ℕ)) (q : Query), 1 ≤ q.limit →
      q.limit ≤ maxRouteResults → Best q (resolveCandidates orders q) := by
  intro h
  have hbest := h (fun _ _ _ => .default) (relayedQuery (some "relay")) (by decide) (by decide)
  have hnil : resolveCandidates (fun _ _ _ => .default) (relayedQuery (some "relay")) = [] := by
    decide
  have hdirect : (relayedQuery (some "relay")).Dialable "t" ["s", "t"] := by
    refine ⟨by decide, by decide, ⟨rfl, rfl, by decide, ?_, by decide⟩, ?_⟩
    · exact List.isChain_pair.mpr ⟨("s", ⟨"s", "t", "radii", true, some 500⟩),
        ⟨by decide, ⟨rfl, Or.inr (by decide)⟩, rfl⟩, rfl, rfl⟩
    · intro x hx
      rw [List.mem_singleton.mp hx]
      exact ⟨_, AList.lookup_insert _, "10.0.0.5:9000", List.mem_singleton_self _⟩
  -- there is a route to return, and there is room for it
  have hcount := hbest.count
  rw [hnil, List.length_nil, Nat.cast_zero] at hcount
  have hsome : 0 < min ((relayedQuery (some "relay")).limit : ℕ∞)
      (relayedQuery (some "relay")).sequences.encard :=
    lt_min (by decide) (Set.encard_pos.mpr ⟨_, "t", _, hdirect, rfl⟩)
  exact absurd hcount hsome.ne

end Radii
