import Radii.Head.Decision
import Radii.Head.Forwarded

/-!
# What Head says it would do

`decision_json` of `crates/head/src/http.rs` answers with the decision for a request, and
`proxy_request` acts on one.  The first takes the host from axum's `Host` extractor, which asks
`Forwarded` and `X-Forwarded-Host` before `Host`; the second takes the first `Host` line.

* `reported_iff` — exactly for which requests the answer is what the proxy would do.
* `forwarded_host_misreported` — one for which it names another backend.
-/

namespace Radii

open Http

namespace Decision

variable (H : HeaderMap)

/-! ## The two handlers -/

/-- A request as the handlers see it; `authority` is the host of its target, if that has one. -/
structure HttpRequest where
  headers : H.Map
  authority : Option (List Char)

/-- axum's `Host`.  How it reads `Forwarded` is a parameter. -/
def extractHost (forwarded : H.Map → Option (List Char)) (request : HttpRequest H) :
    Option (List Char) :=
  (forwarded request.headers).or <|
    ((H.get request.headers xForwardedHost).bind H.toStr).or <|
      (requestHost H request.headers).or request.authority

structure HeadResponse where
  sourceIp : String
  host : Option String
  backend : String
  /-- Every reachable backend, best first. -/
  candidates : List String
  decisionReason : String

def reasonText : DecisionReason → String
  | .graphRoute => "graph_route"
  | .hostMatch => "host_map"
  | .default => "default"

def decisionJson (engine : DecisionEngine) (forwarded : H.Map → Option (List Char))
    (peer : SocketAddr) (request : HttpRequest H) : HeadResponse :=
  let host := (extractHost H forwarded request).map String.ofList
  let decision := engine.decide ⟨host⟩
  { sourceIp := peer.text
    host := host
    backend := decision.backend
    candidates := decision.candidates
    decisionReason := reasonText decision.reason }

/-- What `proxy_request` decides on, and for which host. -/
def proxyDecision (engine : DecisionEngine) (request : HttpRequest H) :
    Option String × BackendDecision :=
  let host := (requestHost H request.headers).map String.ofList
  (host, engine.decide ⟨host⟩)

variable {H}

/-- The answer is what the proxy would do. -/
structure Reported (response : HeadResponse) (proxied : Option String × BackendDecision) : Prop where
  host : response.host = proxied.1
  backend : response.backend = proxied.2.backend
  candidates : response.candidates = proxied.2.candidates

/-! ## When they agree -/

lemma map_ofList_inj {a b : Option (List Char)} :
    a.map String.ofList = b.map String.ofList ↔ a = b := by
  refine (Option.map_injective ?_).eq_iff
  intro l l' h
  simpa using congrArg String.toList h

/-- The decision is a function of the host, and the host is part of the answer. -/
lemma reported_iff_host (engine : DecisionEngine) (forwarded : H.Map → Option (List Char))
    (peer : SocketAddr) (request : HttpRequest H) :
    Reported (decisionJson H engine forwarded peer request) (proxyDecision H engine request) ↔
      extractHost H forwarded request = requestHost H request.headers := by
  constructor
  · intro h
    exact map_ofList_inj.mp h.host
  · intro h
    rw [decisionJson, proxyDecision, h]
    exact ⟨rfl, rfl, rfl⟩

/-- **The answer is what the proxy would do** exactly if `Forwarded`, where it names a host, names
the one in `Host`; `X-Forwarded-Host`, where that is not so, does; and, where neither does, there is
a `Host` or the target has none either.  Both handlers ask one engine: the graph, and the order in
which its maps are walked, are the same for the two. -/
theorem reported_iff (H : HeaderMap) (engine : DecisionEngine)
    (forwarded : H.Map → Option (List Char)) (peer : SocketAddr) (request : HttpRequest H) :
    Reported (decisionJson H engine forwarded peer request) (proxyDecision H engine request) ↔
      (∀ host, forwarded request.headers = some host →
        requestHost H request.headers = some host) ∧
      (forwarded request.headers = none → ∀ host,
        (H.get request.headers xForwardedHost).bind H.toStr = some host →
        requestHost H request.headers = some host) ∧
      (forwarded request.headers = none →
        (H.get request.headers xForwardedHost).bind H.toStr = none →
        requestHost H request.headers ≠ none ∨ request.authority = none) := by
  rw [reported_iff_host, extractHost]
  cases forwarded request.headers with
  | some host => simp [eq_comm]
  | none =>
      cases (H.get request.headers xForwardedHost).bind H.toStr with
      | some host => simp [eq_comm]
      | none =>
          cases requestHost H request.headers with
          | some host => simp
          | none => simp

/-- Two hosts, each with a backend of its own. -/
def twoHosts : RoutingConfig where
  defaultBackend := "http://127.0.0.1:9000"
  hostMap := AList.insert "a.example" "http://10.0.0.1:9000"
    (AList.insert "b.example" "http://10.0.0.2:9000" ∅)

/-- A request for the one that was forwarded under the name of the other. -/
def forwardedRequest : HttpRequest fieldLines where
  headers := [(hostName, ascii "a.example".toList), (xForwardedHost, ascii "b.example".toList)]
  authority := none

/-- **The endpoint names a backend the proxy does not use.**  The request has no `Forwarded` line. -/
theorem forwarded_host_misreported :
    let engine := DecisionEngine.fromConfigWithGraph (fun _ _ _ => .default) twoHosts none
    let response := decisionJson fieldLines engine (fun _ => none) localhost forwardedRequest
    response.host = some "b.example" ∧ response.backend = "http://10.0.0.2:9000" ∧
    (proxyDecision fieldLines engine forwardedRequest).1 = some "a.example" ∧
    (proxyDecision fieldLines engine forwardedRequest).2.backend = "http://10.0.0.1:9000" ∧
    ¬ Reported response (proxyDecision fieldLines engine forwardedRequest) := by
  intro engine response
  have hbackend : response.backend = "http://10.0.0.2:9000" := by decide
  have hproxied : (proxyDecision fieldLines engine forwardedRequest).2.backend =
      "http://10.0.0.1:9000" := by decide
  refine ⟨by decide, hbackend, by decide, hproxied, ?_⟩
  intro h
  have hsame := h.backend
  rw [hbackend, hproxied] at hsame
  exact absurd hsame (by decide)

end Decision

end Radii
