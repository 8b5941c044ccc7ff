import Radii.Mesh.Fresh
import Radii.Mesh.Live

/-!
# Whoever has a way finds it

What the mesh promises to the nodes that play their part: as long as a path is live and its nodes
take nothing back, every poll that lands brings a route.

* `mesh_routes_found` — in every run.
-/

namespace Radii

open Sync Collections Graphs Wire Decision

namespace Mesh

/-- What Crawl lists then is all that is live, the poller keeps it, and whoever is reported to be
reached relays: a planner may otherwise fill its plan with paths that nobody can dial. -/
structure Roomy (config : PlanConfig) (s : CrawlState) (now : ℕ) : Prop where
  listed : ∀ order, (graphSnapshot order s now).2.2 = 0
  kept : ∀ order, (view order s now).1.droppedLinks = 0
  known : ∀ u v, v ≠ config.source → s.Reaches now config.allowedProtocols u v → s.Relays now v

/-- Nothing that Crawl handles takes anything of the path back, and it handles all of it before the
deadline and within the ttl of it, in states of which it can list everything and in which whoever is
reported to be reached relays. -/
structure Leaves (config : PlanConfig) (path : List NodeId) (nodeTtlMs : Option ℕ)
    (relayPeers : Finset String) (deadline : ℕ) (m : System) (e : Event) : Prop where
  keeps : Speaks (fun r now => Keeps path r ∧ ∀ ttl, nodeTtlMs = some ttl → deadline ≤ now + ttl)
    relayPeers m e
  before : ∀ i env, e = .crawl (.access i env) → env.now ≤ deadline
  roomy : ∀ i env, e = .crawl (.access i env) → Roomy config m.crawl.state env.now

section Found

variable {nodeTtlMs : Option ℕ} {relayPeers : Finset String} {configs : ℕ → PlanConfig}
  {config : PlanConfig} {target : NodeId} {path : List NodeId} {deadline since : ℕ}

/-- If it is a snapshot, it is one of a state in which the path is live. -/
def ShowsPath (config : PlanConfig) (target : NodeId) (path : List NodeId) (reply : RadiiMessage) :
    Prop :=
  ∀ nodes reports, reply = .graphSnapshot nodes reports → ∃ order s now,
    nodes = (graphSnapshot order s now).1 ∧ reports = (graphSnapshot order s now).2.1 ∧
    LivePath s now config target path ∧ Roomy config s now

/-- What holds as long as nobody takes the path back: it is live, and whatever is read after `since`
is answered by what shows it. -/
structure Found (nodeTtlMs : Option ℕ) (relayPeers : Finset String) (config : PlanConfig)
    (target : NodeId) (path : List NodeId) (deadline since : ℕ) (m : System) : Prop where
  meets : m.crawl.Meets (CrawlState.Ok nodeTtlMs relayPeers) (Effect relayPeers)
    fun _ _ => Sendable
  live : LivePath m.crawl.state deadline config target path
  tells : CrawlTells
    (fun t env s => since < t → LivePath s env.now config target path ∧ Roomy config s env.now)
    (fun t reply => since < t → ShowsPath config target path reply) m.readAt m.crawl
  written : ∀ readAt reply, (readAt, reply) ∈ m.written →
    Sendable reply ∧ (since < readAt → ShowsPath config target path reply)

lemma mem_replied {readAt : ℕ → ℕ} {seen : CrawlHistory} {t : ℕ} {reply : RadiiMessage}
    (h : (t, reply) ∈ replied readAt seen) : ∃ i, .reply i reply ∈ seen ∧ t = readAt i := by
  rcases List.mem_filterMap.mp h with ⟨v, hv, hout⟩
  cases v with
  | reply i out =>
      simp only [Option.some.injEq, Prod.mk.injEq] at hout
      rcases hout with ⟨rfl, rfl⟩
      exact ⟨i, hv, rfl⟩
  | _ => simp at hout

/-- **One step** of anybody that leaves the path alone. -/
theorem Found.step {m m' : System} {e : Event}
    (h : Found nodeTtlMs relayPeers config target path deadline since m)
    (hleaves : Leaves config path nodeTtlMs relayPeers deadline m e)
    (hstep : Mesh.Step configs m e m') :
    Found nodeTtlMs relayPeers config target path deadline since m' := by
  cases hstep with
  | pass hlater => exact ⟨h.meets, h.live, h.tells, h.written⟩
  | head => exact ⟨h.meets, h.live, h.tells, h.written⟩
  | fetch => exact ⟨h.meets, h.live, h.tells, h.written⟩
  | @crawl e c' hstep =>
      refine ⟨Config.Meets.step (fun _ _ hm => arm_spec hm) hstep h.meets, ?_, ?_, ?_⟩
      · rcases Config.Meets.effect hstep h.meets with
          hsame | ⟨i, env, conn, frame, rfl, hconn, hframe, hsame | ⟨r, hgrants, hstate⟩⟩
        · exact hsame ▸ h.live
        · exact hsame ▸ h.live
        · obtain ⟨hkeeps, hwithin⟩ := hleaves.keeps i env conn frame rfl hconn hframe r hgrants
          rw [← h.meets.state.ttl] at hwithin
          rw [hstate]
          exact h.live.applyClaim (hleaves.before i env rfl) hwithin hkeeps
      · refine h.tells.step (fun t status _ nodes reports heq => by simp at heq) ?_ ?_ hstep
        · rintro t env s hs hsince nodes reports ⟨rfl, rfl⟩
          exact ⟨env.order, s, env.now, rfl, rfl, hs hsince⟩
        · rintro i env rfl -
          exact ⟨h.live.earlier (hleaves.before i env rfl), hleaves.roomy i env rfl⟩
      · intro readAt reply hreply
        rcases List.mem_append.mp hreply with hold | hnew
        · exact h.written readAt reply hold
        · rcases mem_replied hnew with ⟨i, hseen, rfl⟩
          exact ⟨sendable_of_seen h.meets hstep hseen, h.tells.written hstep hseen⟩

lemma Found.run {m m' : System} (h : Found nodeTtlMs relayPeers config target path deadline since m)
    (hrun : Run configs (Leaves config path nodeTtlMs relayPeers deadline) m m') :
    Found nodeTtlMs relayPeers config target path deadline since m' := by
  induction hrun with
  | refl => exact h
  | tail _ hlast ih =>
      rcases hlast with ⟨e, hleaves, hstep⟩
      exact ih.step hleaves hstep

/-- Nothing was read, or is written of what was read, in the future. -/
structure Past (m : System) : Prop where
  readAt : ∀ i, m.readAt i ≤ m.clock
  written : ∀ t reply, (t, reply) ∈ m.written → t ≤ m.clock

lemma Past.step {m m' : System} {e : Event} (h : Past m) (hstep : Mesh.Step configs m e m') :
    Past m' := by
  refine ⟨readAt_le_of_step h.readAt hstep, ?_⟩
  cases hstep with
  | pass hlater => exact fun t reply hreply => (h.written t reply hreply).trans hlater
  | head => exact h.written
  | fetch => exact h.written
  | crawl =>
      intro t reply hreply
      rcases List.mem_append.mp hreply with hold | hnew
      · exact h.written t reply hold
      · rcases mem_replied hnew with ⟨i, -, rfl⟩
        exact h.readAt i

lemma past_of_run {ok : System → Event → Prop} {m : System}
    (hrun : Run configs ok (initial nodeTtlMs relayPeers) m) : Past m := by
  induction hrun with
  | refl => exact ⟨fun _ => le_refl 0, by simp [initial]⟩
  | tail _ hlast ih =>
      rcases hlast with ⟨e, -, hstep⟩
      exact ih.step hstep

/-- Every run gets to where it can begin. -/
lemma found_of_run {m : System}
    (hrun : Run configs (fun _ _ => True) (initial nodeTtlMs relayPeers) m)
    (hlive : LivePath m.crawl.state deadline config target path) :
    Found nodeTtlMs relayPeers config target path deadline m.clock m := by
  have htold : Told (fun _ _ => True) nodeTtlMs relayPeers (fun _ _ => True) (fun _ _ => True)
      configs m := by
    refine told_of_run (hrun.imp fun m e _ => ⟨?_, by cases e <;> simp [Timed]⟩)
    cases e with
    | crawl e => exact fun _ _ _ _ _ _ _ _ _ => trivial
    | _ => trivial
  have hpast := past_of_run hrun
  refine ⟨htold.crawl.meets, hlive, ?_, ?_⟩
  · intro i conn _
    exact Prog.tells_of_forall
      (fun _ hlater => absurd (hpast.readAt i) (not_le.mpr hlater)) conn.prog
  · intro readAt reply hreply
    exact ⟨(htold.written readAt reply hreply).1,
      fun hlater => absurd (hpast.written readAt reply hreply) (not_le.mpr hlater)⟩

/-- A poll that is answered brings a state in which the path is live. -/
lemma Found.whole {m : System} (h : Found nodeTtlMs relayPeers config target path deadline since m)
    {asked : ℕ} {p : Poll} (hcomes : ComesFrom m.written asked p) (hasked : since < asked)
    (hanswered : (fetchOnce p).isSome) :
    ∃ order s now,
      Whole order s now p ∧ LivePath s now config target path ∧ Roomy config s now := by
  obtain ⟨x, hx⟩ := Option.isSome_iff_exists.mp hanswered
  have hfetched := hx
  cases hanswer : p.answer with
  | none => simp [fetchOnce, hanswer] at hx
  | some cs =>
      rcases hcomes cs hanswer with ⟨readAt, reply, hreply, hread, coming, tail, hcs⟩
      rcases h.written readAt reply hreply with ⟨hsendable, hshows⟩
      rw [fetchOnce, hanswer, Option.map_some, queryGraphOn] at hx
      cases hmessage : readMessage cs with
      | error e => simp [hmessage] at hx
      | ok read =>
          rcases read with ⟨message, rest⟩
          obtain rfl := readMessage_of_frame hsendable hcs hmessage
          cases message with
          | graphSnapshot nodes reports =>
              rcases hshows (hasked.trans_le hread) nodes reports rfl with
                ⟨order, s, now, rfl, rfl, hlive, hroomy⟩
              simp only [hmessage, Option.some.injEq] at hx
              refine ⟨order, s, now, ⟨?_, hroomy.listed order, hroomy.kept order⟩, hlive, hroomy⟩
              rw [hfetched, ← hx]
              rfl
          | _ => simp [hmessage] at hx

/-- Where there is a live path, the best routes are not none. -/
lemma LiveBest.ne_nil {s : CrawlState} {now : ℕ} {routes : List ResolvedRoute}
    (h : LiveBest s now config routes) (hpos : 1 ≤ config.maxCandidates)
    (hlive : LivePath s now config target path) : routes ≠ [] := by
  rintro rfl
  have hcount := h.count
  have hsome : 0 < min (config.maxCandidates : ℕ∞)
      {path | ∃ target, LivePath s now config target path}.encard :=
    lt_min (by exact_mod_cast hpos) (Set.encard_pos.mpr ⟨path, target, hlive⟩)
  rw [← hcount] at hsome
  exact absurd hsome (by simp)

end Found

/-- **Whoever has a way finds it.**  At some point of a run a path from the source to a target is
live, and will be until a deadline; from then on, until that deadline, nobody takes anything of it
back, Crawl can list all there is, and whoever is reported to be reached relays.  Then every poll
after that point that is answered leaves a Fetch with routes, and has Head plan some, if either is
to keep from 1 to `maxRouteResults` of them, in every run and whatever else happens. -/
theorem mesh_routes_found {nodeTtlMs : Option ℕ} {relayPeers : Finset String}
    {configs : ℕ → PlanConfig} {m₀ m : System} {k deadline : ℕ} {target : NodeId}
    {path : List NodeId} (hpos : 1 ≤ (configs k).maxCandidates)
    (hlimit : (configs k).maxCandidates ≤ maxRouteResults)
    (hbefore : Run configs (fun _ _ => True) (initial nodeTtlMs relayPeers) m₀)
    (hlive : LivePath m₀.crawl.state deadline (configs k) target path)
    (hrun : Run configs (Leaves (configs k) path nodeTtlMs relayPeers deadline) m₀ m) :
    (∀ orders p asked m', Mesh.Step configs m (.fetch k orders p asked) m' → m₀.clock < asked →
      (fetchOnce p).isSome → m'.fetches k ≠ []) ∧
    ∀ j p asked m', Mesh.Step configs m (.head j p asked) m' → m₀.clock < asked →
      (fetchOnce p).isSome → ∀ orders, planBackends orders ⟨(m'.heads j).graph, false⟩
        (configs k).source (configs k).targets (configs k).allowedProtocols (configs k).maxHops
        (configs k).maxCandidates ≠ [] := by
  have hfound := (found_of_run hbefore hlive).run hrun
  constructor
  · intro orders p asked m' hstep hasked hanswered
    cases hstep with
    | fetch hlanded hcomes =>
        obtain ⟨order, s, now, hwhole, hpath, hroomy⟩ := hfound.whole hcomes hasked hanswered
        simp only [Function.update_self]
        rw [hwhole.refreshRoutes_eq]
        exact (hwhole.liveBest_of_known hpos hlimit hroomy.known orders).ne_nil hpos hpath
  · intro j p asked m' hstep hasked hanswered orders
    cases hstep with
    | head hlanded hcomes =>
        obtain ⟨order, s, now, hwhole, hpath, hroomy⟩ := hfound.whole hcomes hasked hanswered
        simp only [Function.update_self]
        rw [hwhole.planBackends_eq]
        exact (hwhole.liveBest_of_known hpos hlimit hroomy.known orders).ne_nil hpos hpath

/-- There is room for the path from `s` to `t`. -/
lemma roomy_heardAt : Roomy ⟨"s", ["t"], [], 4, 4⟩ (heardAt 0 (.initial (some 5) ∅)) 0 := by
  have hnodes : ∀ order : WalkOrder, order.nodes.list (heardAt 0 (.initial (some 5) ∅)).nodes =
      [("t", ⟨[⟨"10.0.0.3:9000", "relay"⟩], ["relay"], 0⟩)] :=
    fun order => List.perm_singleton.mp (order.nodes.perm _)
  have hreports : ∀ order : WalkOrder,
      order.reachability.list (heardAt 0 (.initial (some 5) ∅)).reachability =
        [(⟨"s", "t", "radii"⟩, ⟨true, some 10, none, 0⟩)] :=
    fun order => List.perm_singleton.mp (order.reachability.perm _)
  refine ⟨fun order => ?_, fun order => ?_, fun u v _ hreaches => ?_⟩
  · simp only [graphSnapshot, liveNodes, liveReports, hnodes, hreports]
    decide
  · simp only [view, graphSnapshot, liveNodes, liveReports, hnodes, hreports]
    decide
  · exact eq_of_reaches_heardAt hreaches ▸
      (livePath_heardAt (Nat.zero_le (0 + 5))).relays "t" (by simp)

/-- A Fetch that polls a nanosecond after Crawl was told both. -/
theorem mesh_routes_found_told : ∃ m : System,
    Run (fun _ => ⟨"s", ["t"], [], 4, 4⟩) (fun _ _ => True) (initial (some 5) ∅) m ∧
      m.fetches 0 ≠ [] := by
  obtain ⟨m₀, hrun₀, hclock, hlock, hconn, hstate⟩ := exists_told
  have hlive : LivePath m₀.crawl.state 5 ⟨"s", ["t"], [], 4, 4⟩ "t" ["s", "t"] := by
    rw [hstate]
    exact livePath_heardAt (le_refl (0 + 5))
  have hpass : Run (fun _ => ⟨"s", ["t"], [], 4, 4⟩)
      (Leaves ⟨"s", ["t"], [], 4, 4⟩ ["s", "t"] (some 5) ∅ 5) m₀ { m₀ with clock := 1 } :=
    Relation.ReflTransGen.single ⟨.pass 1, ⟨trivial, by simp, by simp⟩, .pass (by simp [hclock])⟩
  obtain ⟨m, hrun, hclock', -, -, hwritten⟩ := exists_queried (fun _ => ⟨"s", ["t"], [], 4, 4⟩)
    (Leaves ⟨"s", ["t"], [], 4, 4⟩ ["s", "t"] (some 5) ∅ 5) (m := { m₀ with clock := 1 }) hconn
    hlock ⟨0, .default⟩ (by
      intro m' e hsame _ haccess
      refine ⟨?_, ?_, ?_⟩
      · intro i env conn frame he hconn hframe r hgrants
        rw [(haccess i env he).2 conn hconn, Option.some.injEq] at hframe
        have hclaim := claim_of_grants hgrants
        rw [← hframe] at hclaim
        simp [RadiiMessage.claim] at hclaim
      · rintro i env ⟨rfl⟩
        rw [(haccess i env rfl).1]
        exact Nat.zero_le 5
      · rintro i env ⟨rfl⟩
        rw [(haccess i env rfl).1, hsame, hstate]
        exact roomy_heardAt)
  obtain ⟨m', hstep⟩ : ∃ m', Mesh.Step (fun _ => ⟨"s", ["t"], [], 4, 4⟩) m
      (.fetch 0 (fun _ _ _ => .default) ⟨1, some [frame toldSnapshot]⟩ 1) m' := by
    refine ⟨_, .fetch hclock'.symm ?_⟩
    rintro cs ⟨rfl⟩
    simp only [hstate] at hwritten
    exact ⟨1, toldSnapshot, hwritten, le_refl 1, [], [], rfl⟩
  have hbefore : Run (fun _ => ⟨"s", ["t"], [], 4, 4⟩) (fun _ _ => True) (initial (some 5) ∅) m₀ :=
    hrun₀.imp fun _ _ _ => trivial
  have hafter := Run.imp (fun _ _ _ => trivial) (hpass.trans hrun)
  refine ⟨m', (hbefore.trans hafter).tail ⟨_, trivial, hstep⟩, (mesh_routes_found (by decide)
    (by decide) hbefore hlive (hpass.trans hrun)).1 _ _ _ _ hstep ?_ ?_⟩
  · rw [hclock]
    exact Nat.zero_lt_one
  · decide

end Mesh

end Radii
