import Radii.Routing.Real

/-!
# Deciding on a backend

`crates/head/src/decision.rs`: the policies that `from_config_with_graph` puts together and the
engine that asks them in order, and `plan_backends` of `crates/head/src/graph.rs`.  The graph is
written by peers; the configuration names the nodes and the backends.

* `decide_cases` — the decision is the graph policy's if that finds a route, and static otherwise.
* `decision_configured` — every backend it can name goes back to the configuration.
-/

namespace Radii

open Collections Graphs

namespace Decision

/-! ## The graph Head polls -/

/-- `RoleId::RELAY`. -/
def relayRole : RoleId := "relay"

structure GraphState where
  snapshot : GraphSnapshot
  listenAddrs : ListenAddrs

/-- The graph behind its lock, which is poisoned if the poller panicked while it wrote. -/
structure SharedGraphState where
  state : GraphState
  poisoned : Bool

def SharedGraphState.read (shared : SharedGraphState) : Option GraphState :=
  if shared.poisoned then none else some shared.state

/-- `plan_backends`, with the orders of the hash maps that planning walks through. -/
def planBackends (orders : ℕ → ℕ → ℕ → IterOrder NodeId (Cell Arc ℕ)) (shared : SharedGraphState)
    (source : NodeId) (targets : List NodeId) (allowedProtocols : List ProtocolId)
    (maxHops limit : ℕ) : List ResolvedRoute :=
  match shared.read with
  | none => []
  | some guard => resolveCandidates orders
      { snapshot := guard.snapshot
        listenAddrs := guard.listenAddrs
        source := source
        targets := targets
        allowedProtocols := allowedProtocols
        maxHops := maxHops
        limit := limit
        hopRole := some relayRole
        targetRole := relayRole }

/-! ## Decisions -/

/-- What a policy looks at; the source has more of the request here, which none of them reads. -/
structure DecisionInput where
  host : Option String

inductive BackendTarget where
  | chain (routes : List ResolvedRoute)
  | direct (addr : String)

inductive DecisionReason where
  | graphRoute
  | hostMatch
  | default
  deriving DecidableEq, Repr

structure BackendDecision where
  target : BackendTarget
  reason : DecisionReason

namespace BackendDecision

/-- The address of the first route's last hop. -/
def backend (decision : BackendDecision) : String :=
  match decision.target with
  | .chain routes =>
      ((routes.head?.bind fun route => route.hops.getLast?).map ResolvedHop.addr).getD "unreachable"
  | .direct addr => addr

def candidates (decision : BackendDecision) : List String :=
  match decision.target with
  | .chain routes => routes.filterMap fun route => route.hops.getLast?.map ResolvedHop.addr
  | .direct addr => [addr]

end BackendDecision

/-! ## Policies -/

abbrev DecisionPolicy := DecisionInput → Option BackendDecision

structure GraphRoutePolicy where
  nodeMap : HashMap String (List NodeId)
  source : NodeId
  allowedProtocols : List ProtocolId
  maxHops : ℕ
  maxCandidates : ℕ
  state : SharedGraphState

/-- `GraphRoutePolicy::evaluate`. -/
def GraphRoutePolicy.evaluate (orders : ℕ → ℕ → ℕ → IterOrder NodeId (Cell Arc ℕ))
    (policy : GraphRoutePolicy) : DecisionPolicy := fun input =>
  match input.host with
  | none => none
  | some host =>
      match policy.nodeMap.lookup host with
      | none => none
      | some targets =>
          let routes := planBackends orders policy.state policy.source targets
            policy.allowedProtocols policy.maxHops policy.maxCandidates
          if routes.isEmpty then none else some ⟨.chain routes, .graphRoute⟩

/-- `HostMapPolicy::evaluate`. -/
def hostMapPolicy (hostMap : HashMap String String) : DecisionPolicy := fun input =>
  match input.host with
  | none => none
  | some host => (hostMap.lookup host).map fun backend => ⟨.direct backend, .hostMatch⟩

/-- `DefaultPolicy::evaluate`. -/
def defaultPolicy (backend : String) : DecisionPolicy := fun _ => some ⟨.direct backend, .default⟩

/-! ## The engine -/

structure RoutingConfig where
  defaultBackend : String
  hostMap : HashMap String String

structure DecisionEngine where
  policies : List DecisionPolicy

namespace DecisionEngine

def new : DecisionEngine := ⟨[]⟩

def withPolicy (engine : DecisionEngine) (policy : DecisionPolicy) : DecisionEngine :=
  ⟨engine.policies ++ [policy]⟩

/-- `from_config_with_graph`. -/
def fromConfigWithGraph (orders : ℕ → ℕ → ℕ → IterOrder NodeId (Cell Arc ℕ))
    (config : RoutingConfig) (graphPolicy : Option GraphRoutePolicy) : DecisionEngine :=
  let engine := match graphPolicy with
    | some policy => new.withPolicy (policy.evaluate orders)
    | none => new
  (engine.withPolicy (hostMapPolicy config.hostMap)).withPolicy
    (defaultPolicy config.defaultBackend)

/-- The first policy that answers decides. -/
def decide (engine : DecisionEngine) (input : DecisionInput) : BackendDecision :=
  (engine.policies.findSome? fun policy => policy input).getD ⟨.direct "unreachable", .default⟩

end DecisionEngine

/-! ## What is decided -/

/-- The routes asked for when a host is mapped to `targets`. -/
def GraphRoutePolicy.query (policy : GraphRoutePolicy) (targets : List NodeId) : Query where
  snapshot := policy.state.state.snapshot
  listenAddrs := policy.state.state.listenAddrs
  source := policy.source
  targets := targets
  allowedProtocols := policy.allowedProtocols
  maxHops := policy.maxHops
  limit := policy.maxCandidates
  hopRole := some relayRole
  targetRole := relayRole

/-- What the configuration says of a host without the graph. -/
def staticDecision (config : RoutingConfig) (host : Option String) : BackendDecision :=
  match host.bind config.hostMap.lookup with
  | some backend => ⟨.direct backend, .hostMatch⟩
  | none => ⟨.direct config.defaultBackend, .default⟩

section Decide

variable (orders : ℕ → ℕ → ℕ → IterOrder NodeId (Cell Arc ℕ)) {config : RoutingConfig}
  {graphPolicy : Option GraphRoutePolicy} {input : DecisionInput}

/-- There is a graph policy, it can read the graph, it knows the host, and there is a route. -/
structure Routed (graphPolicy : Option GraphRoutePolicy) (input : DecisionInput)
    (policy : GraphRoutePolicy) (host : String) (targets : List NodeId) : Prop where
  present : graphPolicy = some policy
  readable : policy.state.poisoned = false
  asked : input.host = some host
  mapped : policy.nodeMap.lookup host = some targets
  found : resolveCandidates orders (policy.query targets) ≠ []

variable {orders}

lemma planBackends_eq (policy : GraphRoutePolicy) (targets : List NodeId) :
    planBackends orders policy.state policy.source targets policy.allowedProtocols policy.maxHops
      policy.maxCandidates =
      if policy.state.poisoned then [] else resolveCandidates orders (policy.query targets) := by
  rw [planBackends, SharedGraphState.read]
  cases policy.state.poisoned with
  | false => rfl
  | true => rfl

/-- **What the graph policy answers** is its routes. -/
lemma evaluate_of_routed {policy : GraphRoutePolicy} {host : String} {targets : List NodeId}
    (h : Routed orders (some policy) input policy host targets) : policy.evaluate orders input =
      some ⟨.chain (resolveCandidates orders (policy.query targets)), .graphRoute⟩ := by
  rw [GraphRoutePolicy.evaluate, h.asked]
  simp only [h.mapped, planBackends_eq, h.readable]
  rw [if_neg Bool.false_ne_true, if_neg]
  rw [List.isEmpty_iff]
  exact h.found

/-- It has an answer only if there are routes. -/
lemma routed_of_evaluate {policy : GraphRoutePolicy} (h : policy.evaluate orders input ≠ none) :
    ∃ host targets, Routed orders (some policy) input policy host targets := by
  rw [GraphRoutePolicy.evaluate] at h
  cases hhost : input.host with
  | none => exact absurd (by rw [hhost]) h
  | some host =>
      cases hmapped : policy.nodeMap.lookup host with
      | none => exact absurd (by simp only [hhost, hmapped]) h
      | some targets =>
          simp only [hhost, hmapped, planBackends_eq] at h
          have hroutes : (if policy.state.poisoned then [] else
              resolveCandidates orders (policy.query targets)) ≠ [] := by
            intro hnil
            rw [hnil] at h
            exact h rfl
          split_ifs at hroutes with hpoisoned
          · exact absurd rfl hroutes
          · exact ⟨host, targets, rfl, Bool.not_eq_true _ ▸ hpoisoned, hhost, hmapped, hroutes⟩

/-- The other two policies between them always answer. -/
lemma decide_static (config : RoutingConfig) (input : DecisionInput) :
    DecisionEngine.decide ⟨[hostMapPolicy config.hostMap, defaultPolicy config.defaultBackend]⟩ input =
      staticDecision config input.host := by
  rw [DecisionEngine.decide, staticDecision, List.findSome?_cons]
  cases hhost : input.host with
  | none =>
      rw [hostMapPolicy, hhost]
      rfl
  | some host =>
      rw [hostMapPolicy, hhost, Option.bind_some]
      cases hentry : config.hostMap.lookup host with
      | none => simp [hentry, defaultPolicy]
      | some backend => simp [hentry]

/-- **What is decided**: what the graph policy finds, and otherwise what is configured. -/
theorem decide_cases (orders : ℕ → ℕ → ℕ → IterOrder NodeId (Cell Arc ℕ)) (config : RoutingConfig)
    (graphPolicy : Option GraphRoutePolicy) (input : DecisionInput) :
    (∃ policy host targets, Routed orders graphPolicy input policy host targets ∧
      (DecisionEngine.fromConfigWithGraph orders config graphPolicy).decide input =
        ⟨.chain (resolveCandidates orders (policy.query targets)), .graphRoute⟩) ∨
    (¬ ∃ policy host targets, Routed orders graphPolicy input policy host targets) ∧
      (DecisionEngine.fromConfigWithGraph orders config graphPolicy).decide input =
        staticDecision config input.host := by
  cases graphPolicy with
  | none =>
      refine Or.inr ⟨?_, decide_static config input⟩
      rintro ⟨policy, host, targets, h⟩
      exact absurd h.present (by simp)
  | some policy =>
      by_cases hrouted : ∃ host targets, Routed orders (some policy) input policy host targets
      · rcases hrouted with ⟨host, targets, h⟩
        refine Or.inl ⟨policy, host, targets, h, ?_⟩
        show Option.getD (List.findSome? _ (policy.evaluate orders :: _)) _ = _
        rw [List.findSome?_cons, evaluate_of_routed h]
        rfl
      · refine Or.inr ⟨?_, ?_⟩
        · rintro ⟨policy', host, targets, h⟩
          obtain rfl := Option.some.inj h.present
          exact hrouted ⟨host, targets, h⟩
        · have hnone : policy.evaluate orders input = none := by
            by_contra hanswer
            exact hrouted (routed_of_evaluate hanswer)
          rw [← decide_static]
          show Option.getD (List.findSome? _ (policy.evaluate orders :: _)) _ = _
          rw [List.findSome?_cons, hnone]
          rfl

/-- The candidates start with the backend. -/
lemma candidates_head {routes : List ResolvedRoute} (hne : routes ≠ []) (reason : DecisionReason) :
    (BackendDecision.mk (.chain routes) reason).candidates.head? =
      some (BackendDecision.mk (.chain routes) reason).backend := by
  rcases List.exists_cons_of_ne_nil hne with ⟨route, routes, rfl⟩
  simp only [BackendDecision.candidates, BackendDecision.backend, List.filterMap_cons,
    List.getLast?_eq_some_getLast route.nonempty, Option.map_some, List.head?_cons,
    Option.bind_some, Option.getD_some]

lemma candidates_head_static (config : RoutingConfig) (host : Option String) :
    (staticDecision config host).candidates.head? = some (staticDecision config host).backend := by
  rw [staticDecision]
  cases host.bind config.hostMap.lookup with
  | none => rfl
  | some backend => rfl

lemma staticDecision_of_mapped {host backend : String}
    (h : config.hostMap.lookup host = some backend) :
    staticDecision config (some host) = ⟨.direct backend, .hostMatch⟩ := by
  rw [staticDecision, Option.bind_some, h]

lemma staticDecision_of_unmapped {host : Option String}
    (h : ∀ name, host = some name → config.hostMap.lookup name = none) :
    staticDecision config host = ⟨.direct config.defaultBackend, .default⟩ := by
  rw [staticDecision, Option.bind_eq_none_iff.mpr h]

lemma staticDecision_reason (config : RoutingConfig) (host : Option String) :
    (staticDecision config host).reason ≠ .graphRoute := by
  rw [staticDecision]
  cases host.bind config.hostMap.lookup with
  | none => simp
  | some backend => simp

/-- A candidate is the address of a mapped node that can be reached. -/
lemma candidate_advertised {policy : GraphRoutePolicy} {targets : List NodeId} {addr : String}
    {reason : DecisionReason} (h : addr ∈ (BackendDecision.mk
      (.chain (resolveCandidates orders (policy.query targets))) reason).candidates) :
    ∃ target ∈ targets, ((policy.query targets).paths target).Nonempty ∧
      FirstAdvertised policy.state.state.listenAddrs target relayRole addr := by
  rcases List.mem_filterMap.mp h with ⟨route, hroute, hlast⟩
  rcases Option.map_eq_some_iff.mp hlast with ⟨hop, hhop, rfl⟩
  rcases route_real hroute with ⟨target, htarget, p, halong, -⟩
  rcases halong.last with ⟨hop', hhop', -, haddr⟩
  obtain rfl : hop = hop' := Option.some.inj (hhop.symm.trans hhop')
  exact ⟨target, htarget, ⟨p, halong.path⟩, haddr⟩

end Decide

/-- **Head names no backend that the configuration did not.**  The candidates start with the backend.
The reason is the graph exactly if its policy is there, can read it, knows the host and finds a
route, and then every candidate is the relay address of a node mapped to the host that is reachable
over allowed links; otherwise the only candidate is the host's entry, or else the default. -/
theorem decision_configured (orders : ℕ → ℕ → ℕ → IterOrder NodeId (Cell Arc ℕ))
    (config : RoutingConfig) (graphPolicy : Option GraphRoutePolicy) (input : DecisionInput) :
    let decision := (DecisionEngine.fromConfigWithGraph orders config graphPolicy).decide input
    decision.candidates.head? = some decision.backend ∧
    (decision.reason = .graphRoute ↔ ∃ policy host targets, graphPolicy = some policy ∧
      policy.state.poisoned = false ∧ input.host = some host ∧
      policy.nodeMap.lookup host = some targets ∧
      resolveCandidates orders (policy.query targets) ≠ []) ∧
    (decision.reason = .graphRoute → ∃ policy host targets, graphPolicy = some policy ∧
      input.host = some host ∧ policy.nodeMap.lookup host = some targets ∧
      ∀ addr ∈ decision.candidates, ∃ target ∈ targets,
        ((policy.query targets).paths target).Nonempty ∧
        FirstAdvertised policy.state.state.listenAddrs target relayRole addr) ∧
    (decision.reason ≠ .graphRoute →
      (∀ host backend, input.host = some host → config.hostMap.lookup host = some backend →
        decision.reason = .hostMatch ∧ decision.candidates = [backend]) ∧
      ((∀ host, input.host = some host → config.hostMap.lookup host = none) →
        decision.reason = .default ∧ decision.candidates = [config.defaultBackend])) := by
  intro decision
  rcases decide_cases orders config graphPolicy input with
    ⟨policy, host, targets, h, hdecision⟩ | ⟨hnone, hdecision⟩
  · change decision = _ at hdecision
    have hreason : decision.reason = .graphRoute := by rw [hdecision]
    refine ⟨?_, ?_, ?_, fun hother => absurd hreason hother⟩
    · rw [hdecision]
      exact candidates_head h.found _
    · exact iff_of_true hreason
        ⟨policy, host, targets, h.present, h.readable, h.asked, h.mapped, h.found⟩
    · intro _
      refine ⟨policy, host, targets, h.present, h.asked, h.mapped, ?_⟩
      intro addr haddr
      rw [hdecision] at haddr
      exact candidate_advertised haddr
  · change decision = _ at hdecision
    have hreason : decision.reason ≠ .graphRoute := by
      rw [hdecision]
      exact staticDecision_reason config input.host
    refine ⟨?_, ?_, fun hgraph => absurd hgraph hreason, fun _ => ⟨?_, ?_⟩⟩
    · rw [hdecision]
      exact candidates_head_static config input.host
    · refine iff_of_false hreason ?_
      rintro ⟨policy, host, targets, hpresent, hreadable, hhost, hmapped, hfound⟩
      exact hnone ⟨policy, host, targets, hpresent, hreadable, hhost, hmapped, hfound⟩
    · intro host backend hhost hentry
      rw [hdecision, hhost, staticDecision_of_mapped hentry]
      exact ⟨rfl, rfl⟩
    · intro hmissing
      rw [hdecision, staticDecision_of_unmapped hmissing]
      exact ⟨rfl, rfl⟩

end Decision

end Radii
