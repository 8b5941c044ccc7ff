import Radii.Head.Decision
import Radii.Relay.Dialed

/-!
# Polling Crawl

`query_graph_on` of `crates/proto/src/lib.rs`, the pollers `run_poll` and `fetch_once` of
`crates/head/src/graph.rs` and `crates/fetch/src/graph.rs`, and `HealthWatch` of
`crates/head/src/http.rs`.  A failed query is logged and retried, so the poller goes on with an
older view; `/health` reports how old it may be.  Times are in nanoseconds.

* `polled_eq` — Head routes from the last answer, whole, or from nothing.
* `health_ok_iff` — it is healthy as long as that answer landed within three intervals.
* `rides_out_iff` — how many failed polls in a row that tolerates.
-/

namespace Radii

open Collections Graphs Wire Decision

namespace Mesh

/-! ## One query -/

/-- Why a query failed. -/
inductive QueryError where
  | wire (e : WireError)
  /-- `unexpected reply to graph query`, and the reply. -/
  | unexpected (reply : RadiiMessage)

/-- What `query_graph_on` makes of what comes back for its `GraphQuery`. -/
def queryGraphOn (answer : Chunks) : Except QueryError (List NodeInfo × List GraphReport) :=
  match readMessage answer with
  | .error e => .error (.wire e)
  | .ok (.graphSnapshot nodes reports, _) => .ok (nodes, reports)
  | .ok (reply, _) => .error (.unexpected reply)

/-- One turn of a poller: when it knew the outcome, and what came back, if it could dial and
write. -/
structure Poll where
  landed : ℕ
  answer : Option Chunks

/-- `fetch_once`. -/
def fetchOnce (p : Poll) : Option (GraphSnapshot × ListenAddrs) :=
  match p.answer.map queryGraphOn with
  | some (.ok (nodes, reports)) => some (buildSnapshot reports, buildRegistry nodes)
  | _ => none

/-! ## Head -/

/-- Head's view of the graph, with the time of the last successful query. -/
structure PolledGraph where
  graph : GraphState
  lastRefresh : Option ℕ

def PolledGraph.default : PolledGraph := ⟨⟨.new, ∅⟩, none⟩

/-- One turn of `run_poll`. -/
def refresh (s : PolledGraph) (p : Poll) : PolledGraph :=
  match fetchOnce p with
  | some (snapshot, listenAddrs) => ⟨⟨snapshot, listenAddrs⟩, some p.landed⟩
  | none => s

/-- Head's view after these polls. -/
def polled (polls : List Poll) : PolledGraph := polls.foldl refresh .default

/-! ## Fetch -/

/-- What Fetch plans with. -/
structure PlanConfig where
  source : NodeId
  targets : List NodeId
  allowedProtocols : List ProtocolId
  maxHops : ℕ
  maxCandidates : ℕ

/-- `plan_from`. -/
def planFrom (orders : ℕ → ℕ → ℕ → IterOrder NodeId (Cell Arc ℕ)) (snapshot : GraphSnapshot)
    (listenAddrs : ListenAddrs) (config : PlanConfig) : List ResolvedRoute :=
  resolveCandidates orders
    { snapshot := snapshot
      listenAddrs := listenAddrs
      source := config.source
      targets := config.targets
      allowedProtocols := config.allowedProtocols
      maxHops := config.maxHops
      limit := config.maxCandidates
      hopRole := some relayRole
      targetRole := relayRole }

/-- One turn of Fetch's `run_poll`: an answer without a route leaves none. -/
def refreshRoutes (orders : ℕ → ℕ → ℕ → IterOrder NodeId (Cell Arc ℕ)) (config : PlanConfig)
    (routes : List ResolvedRoute) (p : Poll) : List ResolvedRoute :=
  match fetchOnce p with
  | some (snapshot, listenAddrs) => planFrom orders snapshot listenAddrs config
  | none => routes

/-! ## Health -/

/-- Head's view behind its lock. -/
structure SharedPolled where
  state : PolledGraph
  poisoned : Bool

/-- What `/health` inspects: the graph and its greatest age, if one is configured. -/
structure HealthWatch where
  graph : Option (SharedPolled × ℕ)

namespace HealthWatch

def none : HealthWatch := ⟨.none⟩

/-- How many poll intervals may be missed. -/
def staleAfterIntervals : ℕ := 3

def fromGraphConfig (state : SharedPolled) (pollIntervalMs : ℕ) : HealthWatch :=
  ⟨some (state, max pollIntervalMs 1 * 1000000 * staleAfterIntervals)⟩

/-- Whether Head is healthy, and what is said of the graph. -/
def evaluate (watch : HealthWatch) (now : ℕ) : Bool × String :=
  match watch.graph with
  | .none => (true, "not_configured")
  | some (shared, maxAge) =>
      if shared.poisoned then (false, "poisoned")
      else match shared.state.lastRefresh with
        | .none => (false, "never_refreshed")
        | some refreshed => if now - refreshed > maxAge then (false, "stale") else (true, "fresh")

end HealthWatch

/-- `health`: the status code, the status and the graph's state. -/
def health (watch : HealthWatch) (now : ℕ) : ℕ × String × String :=
  let (healthy, graph) := watch.evaluate now
  (if healthy then 200 else 503, if healthy then "ok" else "degraded", graph)

/-! ## What Head routes from -/

lemma refresh_of_answered {s : PolledGraph} {p : Poll} {x : GraphSnapshot × ListenAddrs}
    (h : fetchOnce p = some x) : refresh s p = ⟨⟨x.1, x.2⟩, some p.landed⟩ := by
  rw [refresh, h]

lemma refresh_of_failed {s : PolledGraph} {p : Poll} (h : fetchOnce p = none) :
    refresh s p = s := by
  rw [refresh, h]

lemma foldl_refresh_of_failed {polls : List Poll} (h : ∀ p ∈ polls, fetchOnce p = none)
    (s : PolledGraph) : polls.foldl refresh s = s := by
  induction polls with
  | nil => rfl
  | cons p polls ih =>
      rw [List.foldl_cons, refresh_of_failed (h p List.mem_cons_self)]
      exact ih fun q hq => h q (List.mem_cons_of_mem p hq)

/-- The last poll that was answered, if there is one. -/
lemma exists_last_answered (polls : List Poll) : (∀ p ∈ polls, fetchOnce p = none) ∨
    ∃ before p x after, polls = before ++ p :: after ∧ fetchOnce p = some x ∧
      ∀ q ∈ after, fetchOnce q = none := by
  induction polls with
  | nil => exact Or.inl (by simp)
  | cons first polls ih =>
      rcases ih with hnone | ⟨before, p, x, after, rfl, hp, hafter⟩
      · cases hfirst : fetchOnce first with
        | none =>
            refine Or.inl ?_
            simpa [hfirst] using hnone
        | some x => exact Or.inr ⟨[], first, x, polls, rfl, hfirst, hnone⟩
      · exact Or.inr ⟨first :: before, p, x, after, rfl, hp, hafter⟩

/-- **Head routes from the last answer**, the links and the addresses both from it. -/
lemma polled_eq {before after : List Poll} {p : Poll} {x : GraphSnapshot × ListenAddrs}
    (hp : fetchOnce p = some x) (hafter : ∀ q ∈ after, fetchOnce q = none) :
    polled (before ++ p :: after) = ⟨⟨x.1, x.2⟩, some p.landed⟩ := by
  rw [polled, List.foldl_append, List.foldl_cons, foldl_refresh_of_failed hafter,
    refresh_of_answered hp]

lemma polled_of_failed {polls : List Poll} (h : ∀ p ∈ polls, fetchOnce p = none) :
    polled polls = .default := foldl_refresh_of_failed h _

/-! ## Health -/

/-- The poll interval, in nanoseconds. -/
def pollInterval (pollIntervalMs : ℕ) : ℕ := max pollIntervalMs 1 * 1000000

lemma maxAge_eq (pollIntervalMs : ℕ) :
    max pollIntervalMs 1 * 1000000 * HealthWatch.staleAfterIntervals =
      3 * pollInterval pollIntervalMs := by
  rw [pollInterval, mul_comm 3, HealthWatch.staleAfterIntervals]

lemma health_fromGraphConfig (shared : SharedPolled) (pollIntervalMs now : ℕ) :
    health (.fromGraphConfig shared pollIntervalMs) now =
      if shared.poisoned then (503, "degraded", "poisoned")
      else match shared.state.lastRefresh with
        | none => (503, "degraded", "never_refreshed")
        | some refreshed => if now - refreshed > 3 * pollInterval pollIntervalMs then
            (503, "degraded", "stale") else (200, "ok", "fresh") := by
  rw [HealthWatch.fromGraphConfig, maxAge_eq, health, HealthWatch.evaluate]
  cases hpoisoned : shared.poisoned with
  | true => simp only [hpoisoned]; rfl
  | false =>
      simp only [hpoisoned, Bool.false_eq_true, if_false]
      cases shared.state.lastRefresh with
      | none => rfl
      | some refreshed =>
          by_cases hstale : now - refreshed > 3 * pollInterval pollIntervalMs
          · simp only [if_pos hstale]
            rfl
          · simp only [if_neg hstale]
            rfl

/-- It looks at the time of the last answer alone. -/
lemma health_ok_iff_lastRefresh (shared : SharedPolled) (pollIntervalMs now : ℕ) :
    (health (.fromGraphConfig shared pollIntervalMs) now).1 = 200 ↔ shared.poisoned = false ∧
      ∃ refreshed, shared.state.lastRefresh = some refreshed ∧
        now ≤ refreshed + 3 * pollInterval pollIntervalMs := by
  have h := health_fromGraphConfig shared pollIntervalMs now
  cases hpoisoned : shared.poisoned with
  | true => simp [h, hpoisoned]
  | false =>
      rw [hpoisoned] at h
      cases hlast : shared.state.lastRefresh with
      | none =>
          rw [hlast] at h
          simp [h]
      | some refreshed =>
          rw [hlast] at h
          simp only [Option.some.injEq, exists_eq_left', true_and]
          by_cases hstale : now - refreshed > 3 * pollInterval pollIntervalMs
          · simp only [if_pos hstale, Bool.false_eq_true, if_false] at h
            rw [h]
            exact iff_of_false (by simp) (by omega)
          · simp only [if_neg hstale, Bool.false_eq_true, if_false] at h
            rw [h]
            exact iff_of_true rfl (by omega)

/-- What `/health` says after these polls. -/
def healthAfter (polls : List Poll) (pollIntervalMs now : ℕ) : ℕ × String × String :=
  health (.fromGraphConfig ⟨polled polls, false⟩ pollIntervalMs) now

lemma healthAfter_ok_iff (polls : List Poll) (pollIntervalMs now : ℕ) :
    (healthAfter polls pollIntervalMs now).1 = 200 ↔ ∃ refreshed,
      (polled polls).lastRefresh = some refreshed ∧
        now ≤ refreshed + 3 * pollInterval pollIntervalMs := by
  rw [healthAfter, health_ok_iff_lastRefresh]
  exact and_iff_right rfl

/-- **Healthy** is to have had an answer within three intervals. -/
theorem health_ok_iff {polls : List Poll} (hsorted : polls.Pairwise (·.landed ≤ ·.landed))
    (pollIntervalMs now : ℕ) : (healthAfter polls pollIntervalMs now).1 = 200 ↔
      ∃ p ∈ polls, (fetchOnce p).isSome ∧ now ≤ p.landed + 3 * pollInterval pollIntervalMs := by
  rw [healthAfter_ok_iff]
  rcases exists_last_answered polls with hnone | ⟨before, p, x, after, rfl, hp, hafter⟩
  · rw [polled_of_failed hnone]
    refine iff_of_false (by simp [PolledGraph.default]) ?_
    rintro ⟨p, hmem, hanswered, -⟩
    simp [hnone p hmem] at hanswered
  · rw [polled_eq hp hafter]
    simp only [Option.some.injEq, exists_eq_left']
    constructor
    · intro hrecent
      exact ⟨p, by simp, by simp [hp], hrecent⟩
    · rintro ⟨q, hmem, hanswered, hrecent⟩
      -- no answered poll landed later than the last one
      have hlast : q.landed ≤ p.landed := by
        rw [List.pairwise_append, List.pairwise_cons] at hsorted
        rcases List.mem_append.mp hmem with hbefore | hmem
        · exact hsorted.2.2 q hbefore p List.mem_cons_self
        · rcases List.mem_cons.mp hmem with rfl | hq
          · exact le_refl _
          · simp [hafter q hq] at hanswered
      exact hrecent.trans (Nat.add_le_add_right hlast _)

/-! ## How many failures it rides out -/

/-- A run of polls up to `now`: it begins with an answer, each poll lands at least an interval after
the one before and at most `took` later than that, and no more than `failures` in a row fail. -/
structure Schedule (interval took failures : ℕ) (polls : List Poll) (now : ℕ) : Prop where
  begins : ∃ p rest, polls = p :: rest ∧ (fetchOnce p).isSome
  spaced : polls.IsChain fun p q =>
    p.landed + interval ≤ q.landed ∧ q.landed ≤ p.landed + interval + took
  present : ∀ p, polls.getLast? = some p → p.landed ≤ now ∧ now ≤ p.landed + interval + took
  answered : ∀ window, window <:+: polls → window.length = failures + 1 →
    ∃ p ∈ window, (fetchOnce p).isSome

/-- After `n` more polls, no more than `n` turns have passed. -/
lemma landed_le_of_chain {interval took : ℕ} {p : Poll} {rest : List Poll}
    (h : (p :: rest).IsChain fun p q =>
      p.landed + interval ≤ q.landed ∧ q.landed ≤ p.landed + interval + took) {q : Poll}
    (hq : (p :: rest).getLast? = some q) :
    q.landed ≤ p.landed + rest.length * (interval + took) := by
  induction rest generalizing p with
  | nil =>
      simp only [List.getLast?_singleton, Option.some.injEq] at hq
      subst hq
      exact Nat.le_add_right _ _
  | cons next rest ih =>
      rw [List.isChain_cons_cons] at h
      have hrest := ih h.2 (by rwa [List.getLast?_cons_cons] at hq)
      rw [List.length_cons, Nat.add_one_mul]
      omega

/-- After the last answer there are at most `failures` polls. -/
lemma Schedule.length_after {interval took failures now : ℕ} {before after : List Poll} {p : Poll}
    (h : Schedule interval took failures (before ++ p :: after) now)
    (hafter : ∀ q ∈ after, fetchOnce q = none) : after.length ≤ failures := by
  by_contra hlong
  have hwindow : after.take (failures + 1) <:+: before ++ p :: after := by
    refine (List.take_prefix _ after).isInfix.trans ?_
    exact ⟨before ++ [p], [], by simp⟩
  rcases h.answered _ hwindow (by rw [List.length_take]; omega) with ⟨q, hq, hanswered⟩
  simp [hafter q (List.mem_of_mem_take hq)] at hanswered

/-- A poll that is answered, and one that is not. -/
def answeredAt (landed : ℕ) : Poll := ⟨landed, some [frame (.graphSnapshot [] [])]⟩

def failedAt (landed : ℕ) : Poll := ⟨landed, none⟩

lemma fetchOnce_answeredAt (landed : ℕ) : (fetchOnce (answeredAt landed)).isSome := by
  have hread : readMessage [frame (.graphSnapshot [] [])] = .ok (.graphSnapshot [] [], [[]]) := by
    decide
  rw [fetchOnce, answeredAt, Option.map_some, queryGraphOn, hread]
  rfl

/-- One answer, and then nothing but failures, a turn apart. -/
def lateFailures (turn failures : ℕ) : List Poll :=
  (List.range (failures + 1)).map fun k => if k = 0 then answeredAt 0 else failedAt (k * turn)

lemma landed_lateFailures (turn k : ℕ) :
    (if k = 0 then answeredAt 0 else failedAt (k * turn)).landed = k * turn := by
  split_ifs with hk
  · rw [hk, Nat.zero_mul]
    rfl
  · rfl

lemma polled_lateFailures (turn failures : ℕ) :
    (polled (lateFailures turn failures)).lastRefresh = some 0 := by
  rcases Option.isSome_iff_exists.mp (fetchOnce_answeredAt 0) with ⟨x, hx⟩
  rw [lateFailures, List.range_succ_eq_map, List.map_cons, List.map_map, if_pos rfl,
    ← List.nil_append (answeredAt 0 :: _), polled_eq hx]
  · rfl
  · intro q hq
    rcases List.mem_map.mp hq with ⟨k, -, rfl⟩
    rfl

/-- Such a run is on schedule until one more turn has passed. -/
lemma schedule_lateFailures (interval took failures : ℕ) :
    Schedule interval took failures (lateFailures (interval + took) failures)
      ((failures + 1) * (interval + took)) := by
  refine ⟨?_, ?_, ?_, ?_⟩
  · rw [lateFailures, List.range_succ_eq_map]
    exact ⟨_, _, rfl, fetchOnce_answeredAt 0⟩
  · rw [lateFailures, List.isChain_map, List.isChain_range_succ]
    intro k _
    rw [landed_lateFailures, landed_lateFailures, Nat.succ_eq_add_one, Nat.add_one_mul]
    omega
  · intro p hp
    rw [lateFailures, List.range_succ, List.map_append, List.getLast?_append] at hp
    simp only [List.map_cons, List.map_nil, List.getLast?_singleton, Option.some_or,
      Option.some.injEq] at hp
    rw [← hp, landed_lateFailures, Nat.add_one_mul]
    omega
  · intro window hwindow hlength
    have hall : window = lateFailures (interval + took) failures :=
      hwindow.eq_of_length (by rw [hlength, lateFailures, List.length_map, List.length_range])
    refine ⟨answeredAt 0, ?_, fetchOnce_answeredAt 0⟩
    rw [hall, lateFailures]
    exact List.mem_map.mpr ⟨0, by simp, rfl⟩

/-- **What Head rides out.**  Whatever the polls bring, no more than `failures` failures in a row
make it unhealthy, exactly if so many turns and one more fit in three intervals: one failure if a
poll takes no more than half an interval, and two only if polls take no time at all. -/
theorem rides_out_iff (pollIntervalMs took failures : ℕ) :
    (∀ polls now, Schedule (pollInterval pollIntervalMs) took failures polls now →
      (healthAfter polls pollIntervalMs now).1 = 200) ↔
      (failures + 1) * (pollInterval pollIntervalMs + took) ≤ 3 * pollInterval pollIntervalMs := by
  constructor
  · intro hall
    have hok := hall _ _ (schedule_lateFailures (pollInterval pollIntervalMs) took failures)
    rw [healthAfter_ok_iff, polled_lateFailures] at hok
    simpa using hok
  · intro hfits polls now h
    rw [healthAfter_ok_iff]
    rcases exists_last_answered polls with hnone | ⟨before, p, x, after, rfl, hp, hafter⟩
    · rcases h.begins with ⟨p, rest, rfl, hanswered⟩
      simp [hnone p List.mem_cons_self] at hanswered
    · refine ⟨p.landed, by rw [polled_eq hp hafter], ?_⟩
      obtain ⟨q, hq⟩ : ∃ q, (p :: after).getLast? = some q :=
        Option.isSome_iff_exists.mp (by simp)
      have hchain : (p :: after).IsChain _ := h.spaced.suffix (List.suffix_append _ _)
      have hlanded := landed_le_of_chain hchain hq
      have hnow := (h.present q (by rw [List.getLast?_append, hq]; rfl)).2
      have hfew := Nat.mul_le_mul_right (pollInterval pollIntervalMs + took) (h.length_after hafter)
      rw [Nat.add_one_mul] at hfits
      omega

end Mesh

end Radii
