import Radii.Head.Forwarded
import Radii.Relay.Initiator

/-!
# Proxying a request

`proxy_request` and `connect_backend` of `crates/head/src/http.rs` and `forward` of
`crates/head/src/proxy.rs`: a connection to the best candidate that works, one request on it, and a
`502` otherwise.  What was decided, and how the world answers, is arbitrary.

`proxied_once`: the request goes to that candidate alone and at most once, and Fetch, which has a
loop of its own, picks the same one.
-/

namespace Radii

open Effects Http

/-- A request or a response: its headers, and all that is passed on as it is. -/
structure HttpMessage (H : HeaderMap) (β : Type) where
  headers : H.Map
  rest : β

/-- Where a decision sends a request. -/
inductive BackendTarget where
  | chain (routes : List Candidate)
  | direct (addr : String)

/-- How the world answers the exchange on a connection. -/
structure Exchange (ρ : Type) where
  handshake : Except Failure Unit
  /-- The response's headers, an error, or nothing in time. -/
  response : Except Failure ρ

/-- The exchange fails: the handshake, or what comes after it. -/
def Exchange.Fails {ρ : Type} (exchange : Exchange ρ) : Prop :=
  (∃ e, exchange.handshake = .error e) ∨ ∃ e, exchange.response = .error e

inductive Response (μ : Type) where
  /-- `502`, of Head's own. -/
  | badGateway
  | backend (response : μ)

namespace Head

variable {R : Type}

/-! ## Connecting -/

/-- The dialing of a configured backend, which has no node identity. -/
def dialDirect (answers : Answers) (addr : String) : Traced (Action R) Failure Stream := do
  .perform (.dial .configured (Initiator.normalizeUpstream addr) none) answers.configured
  pure .configured

/-- The loop of `connect_backend`, with the error of the candidate before. -/
def connectRoutes (answers : Answers) :
    ℕ → Failure → List Candidate → Traced (Action R) Failure Stream
  | _, last, [] => .fail last
  | index, _, route :: routes => do
      match ← (Initiator.establish index route (answers.candidate index)).attempt with
      | .ok stream => pure stream
      | .error err => connectRoutes answers (index + 1) err routes

def connectBackend (answers : Answers) : BackendTarget → Traced (Action R) Failure Stream
  | .direct addr => dialDirect answers addr
  | .chain routes => connectRoutes answers 0 .noCandidate routes

/-- The attempts that a target allows, should each of them be made. -/
def tries (answers : Answers) : BackendTarget → List (Traced (Action R) Failure Stream)
  | .direct addr => [dialDirect answers addr]
  | .chain routes => Initiator.attempts answers 0 routes

/-- The candidate at this index works, as the world answers; a configured backend is the one
candidate of its target. -/
def Works (answers : Answers) : BackendTarget → ℕ → Prop
  | .direct _, k => k = 0 ∧ answers.configured = .ok ()
  | .chain routes, k =>
      ∃ route, routes[k]? = some route ∧ (answers.candidate k).Establishes route

/-! ## One request -/

variable {β ρ : Type} (H : HeaderMap)

def forward (exchange : Exchange (HttpMessage H ρ)) (stream : Stream) (request : HttpMessage H β) :
    Traced (Action (HttpMessage H β)) Failure (HttpMessage H ρ) := do
  .perform (.handshake stream) exchange.handshake
  let outbound := { request with headers := stripHopByHop H request.headers }
  let response ← .perform (.sendRequest stream outbound) exchange.response
  pure { response with headers := stripHopByHop H response.headers }

/-- `proxy_request`, whatever the decision for a host is. -/
def proxyRequest (decision : Option (List Char) → BackendTarget) (answers : Answers)
    (exchange : Exchange (HttpMessage H ρ)) (peer : SocketAddr) (request : HttpMessage H β) :
    Traced (Action (HttpMessage H β)) Empty (Response (HttpMessage H ρ)) := do
  let host := requestHost H request.headers
  let target := decision host
  let request := { request with headers := addForwardedHeaders H request.headers peer host }
  match ← (connectBackend answers target).attempt with
  | .error _ => pure .badGateway
  | .ok stream =>
      match ← (forward H exchange stream request).attempt with
      | .ok response => pure (.backend response)
      | .error _ => pure .badGateway

/-! ## The loops -/

lemma connectRoutes_eq (answers : Answers) (routes : List Candidate) :
    ∀ (index : ℕ) (last : Failure),
      (connectRoutes answers index last routes : Traced (Action R) Failure Stream) =
        tryInOrder last (Initiator.attempts answers index routes) := by
  induction routes with
  | nil => exact fun index last => rfl
  | cons route routes ih =>
      intro index last
      rw [connectRoutes, Traced.attempt_bind, Initiator.attempts, tryInOrder]
      cases h : (Initiator.establish index route (answers.candidate index) :
          Traced (Action R) Failure Stream).result with
      | ok stream => simp
      | error e => simp [ih (index + 1) e]

/-- Head tries what its target allows, in order. -/
lemma connectBackend_eq (answers : Answers) (target : BackendTarget) :
    (connectBackend answers target : Traced (Action R) Failure Stream) =
      tryInOrder .noCandidate (tries answers target) := by
  cases target with
  | chain routes => exact connectRoutes_eq answers routes 0 .noCandidate
  | direct addr => exact (tryInOrder_singleton _ _).symm

/-- **Which attempts succeed** is up to the answers. -/
lemma succeedAt_tries (answers : Answers) (target : BackendTarget) :
    SucceedAt (tries (R := R) answers target) (Works answers target) := by
  cases target with
  | chain routes => exact Initiator.succeedAt_attempts answers routes
  | direct addr =>
      intro k
      cases k with
      | zero =>
          cases hconfigured : answers.configured with
          | ok _ => simp [tries, dialDirect, Works, hconfigured, Traced.perform, Traced.bind_of_ok]
          | error e =>
              simp [tries, dialDirect, Works, hconfigured, Traced.perform, Traced.bind_of_error]
      | succ k => simp [tries, Works]

/-- No attempt writes a request. -/
lemma unsent_tries {answers : Answers} {target : BackendTarget}
    {x : Traced (Action R) Failure Stream} (hx : x ∈ tries answers target) :
    ∀ action ∈ x.actions, ∀ stream request, action ≠ .sendRequest stream request := by
  cases target with
  | chain routes =>
      exact fun action hmem => (Initiator.attempts_actions routes 0 x hx action hmem).1
  | direct addr =>
      rw [List.mem_singleton.mp hx]
      exact Traced.forall_actions_bind (by simp [Traced.perform]) fun _ _ => by simp

/-! ## The exchange -/

/-- What is done on the stream that was chosen. -/
def exchangeActions (exchange : Exchange ρ) (stream : Stream) (sent : R) : List (Action R) :=
  .handshake stream :: match exchange.handshake with
    | .ok _ => [.sendRequest stream sent]
    | .error _ => []

variable {H}

lemma forward_spec (exchange : Exchange (HttpMessage H ρ)) (stream : Stream)
    (request : HttpMessage H β) :
    (forward H exchange stream request).actions = exchangeActions exchange stream
      { request with headers := stripHopByHop H request.headers } ∧
    ((∃ e, (forward H exchange stream request).result = .error e) ↔ exchange.Fails) := by
  rcases exchange with ⟨handshake, response⟩
  cases handshake with
  | error e => exact ⟨rfl, fun _ => Or.inl ⟨e, rfl⟩, fun _ => ⟨e, rfl⟩⟩
  | ok _ =>
      cases response with
      | error e => exact ⟨rfl, fun _ => Or.inr ⟨e, rfl⟩, fun _ => ⟨e, rfl⟩⟩
      | ok response =>
          refine ⟨rfl, ?_, ?_⟩
          · rintro ⟨e, he⟩
            have hok : (forward H ⟨.ok (), .ok response⟩ stream request).result =
                .ok { response with headers := stripHopByHop H response.headers } := rfl
            exact absurd (hok.symm.trans he) (by simp)
          · rintro (⟨e, he⟩ | ⟨e, he⟩) <;> simp at he

/-! ## The whole -/

/-- What is written of a request: its headers rewritten, and the rest as it is. -/
def written (peer : SocketAddr) (request : HttpMessage H β) : HttpMessage H β :=
  { request with headers := backendHeaders H request.headers peer }

/-- The attempts that the decision for a request allows. -/
def triesFor (decision : Option (List Char) → BackendTarget) (answers : Answers)
    (request : HttpMessage H β) : List (Traced (Action (HttpMessage H β)) Failure Stream) :=
  tries answers (decision (requestHost H request.headers))

variable {decision : Option (List Char) → BackendTarget} {answers : Answers}
  (exchange : Exchange (HttpMessage H ρ)) (peer : SocketAddr) {request : HttpMessage H β}

/-- Once a connection is there, its exchange decides. -/
lemma proxyRequest_of_firstOk {k : ℕ} {stream : Stream}
    (h : FirstOk (triesFor decision answers request) k stream) :
    (proxyRequest H decision answers exchange peer request).actions =
      actionsOf ((triesFor decision answers request).take (k + 1)) ++
        exchangeActions exchange stream (written peer request) ∧
    ((proxyRequest H decision answers exchange peer request).result = .ok .badGateway ↔
      exchange.Fails) := by
  let outbound : HttpMessage H β :=
    ⟨addForwardedHeaders H request.headers peer (requestHost H request.headers), request.rest⟩
  rcases forward_spec exchange stream outbound with ⟨hactions, hfails⟩
  rw [triesFor] at h
  simp only [proxyRequest, Traced.attempt_bind, connectBackend_eq, tryInOrder_of_firstOk h]
  rw [← hfails]
  cases (forward H exchange stream outbound).result with
  | ok response =>
      refine ⟨congrArg _ ((List.append_nil _).trans hactions), ?_⟩
      simp
  | error e =>
      refine ⟨congrArg _ ((List.append_nil _).trans hactions), ?_⟩
      simp

/-- Without one nothing is written. -/
lemma proxyRequest_of_allFail (h : AllFail (triesFor decision answers request)) :
    (proxyRequest H decision answers exchange peer request).actions =
      actionsOf (triesFor decision answers request) ∧
    (proxyRequest H decision answers exchange peer request).result = .ok .badGateway := by
  rcases tryInOrder_of_allFail h .noCandidate with ⟨e, htry⟩
  rw [triesFor] at htry
  simp only [proxyRequest, Traced.attempt_bind, connectBackend_eq, htry]
  exact ⟨List.append_nil _, rfl⟩

/-- The first attempt that succeeds is at the first candidate that works, and all fail if none
does. -/
structure Chosen (works : ℕ → Prop) (tries : List (Traced (Action R) Failure Stream)) : Prop where
  first : ∀ k, (∃ stream, FirstOk tries k stream) ↔ works k ∧ ∀ j < k, ¬ works j
  none : AllFail tries ↔ ∀ k, ¬ works k

lemma chosen_tries (answers : Answers) (target : BackendTarget) :
    Chosen (Works answers target) (tries (R := R) answers target) :=
  ⟨fun _ => (succeedAt_tries answers target).firstOk_iff,
    (succeedAt_tries answers target).allFail_iff⟩

/-- What is to hold of the proxying of a request, given the attempts its decision allows. -/
structure ProxiedOnce (answers : Answers) (exchange : Exchange (HttpMessage H ρ))
    (sent : HttpMessage H β) (tries : List (Traced (Action (HttpMessage H β)) Failure Stream))
    (run : Traced (Action (HttpMessage H β)) Empty (Response (HttpMessage H ρ))) : Prop where
  /-- The attempts are made in rank order, and none after the first that succeeds. -/
  chosen : ∀ k stream, FirstOk tries k stream →
    run.actions = actionsOf (tries.take (k + 1)) ++ exchangeActions exchange stream sent
  failed : AllFail tries → run.actions = actionsOf tries
  /-- The request is written at most once. -/
  once : run.actions.countP Action.isRequest ≤ 1
  /-- It is written to the first that succeeds, and not before the acknowledgement. -/
  only : ∀ stream request, .sendRequest stream request ∈ run.actions →
    request = sent ∧ ∃ k, FirstOk tries k stream
  acknowledged : ∀ index request, .sendRequest (.candidate index) request ∈ run.actions →
    (answers.candidate index).read = .ok (.ack "tunnel_ready")
  badGateway : run.result = .ok .badGateway ↔ AllFail tries ∨ exchange.Fails

/-- No request is among the actions of attempts. -/
lemma isRequest_of_tries {target : BackendTarget} {xs : List (Traced (Action R) Failure Stream)}
    (hsub : xs ⊆ tries answers target) : ∀ action ∈ actionsOf xs, action.isRequest = false := by
  intro action hmem
  rcases List.mem_flatMap.mp hmem with ⟨x, hx, hmem⟩
  have hne := unsent_tries (hsub hx) action hmem
  cases action with
  | sendRequest stream request => exact absurd rfl (hne stream request)
  | _ => rfl

lemma countP_exchangeActions_le (exchange : Exchange ρ) (stream : Stream) (sent : R) :
    (exchangeActions exchange stream sent).countP Action.isRequest ≤ 1 := by
  rw [exchangeActions]
  cases exchange.handshake with
  | ok _ => exact le_rfl
  | error e => exact Nat.zero_le 1

lemma eq_of_mem_exchangeActions {exchange : Exchange ρ} {stream stream' : Stream} {sent sent' : R}
    (h : .sendRequest stream' sent' ∈ exchangeActions exchange stream sent) :
    stream' = stream ∧ sent' = sent := by
  rw [exchangeActions] at h
  cases hhandshake : exchange.handshake with
  | ok _ => simpa [hhandshake] using h
  | error e => simp [hhandshake] at h

/-- A candidate that is chosen has acknowledged. -/
lemma read_of_chosen {target : BackendTarget} {k index : ℕ}
    (h : FirstOk (tries (R := R) answers target) k (.candidate index)) :
    (answers.candidate index).read = .ok (.ack "tunnel_ready") := by
  cases target with
  | chain routes =>
      rcases Initiator.read_of_firstOk h with ⟨hstream, hread⟩
      rw [Stream.candidate.inj hstream]
      exact hread
  | direct addr =>
      rcases Option.map_eq_some_iff.mp h.succeeds with ⟨x, hx, hok⟩
      rw [List.mem_singleton.mp (List.mem_of_getElem? hx), dialDirect,
        Traced.result_bind_eq_ok] at hok
      rcases hok with ⟨-, -, hconfigured⟩
      simp at hconfigured

/-- A request is written to the stream that was chosen. -/
lemma eq_of_sendRequest {k : ℕ} {stream stream' : Stream} {sent : HttpMessage H β}
    (h : FirstOk (triesFor decision answers request) k stream)
    (hmem : .sendRequest stream' sent ∈
      (proxyRequest H decision answers exchange peer request).actions) :
    stream' = stream ∧ sent = written peer request := by
  rw [(proxyRequest_of_firstOk exchange peer h).1] at hmem
  rcases List.mem_append.mp hmem with hmem | hmem
  · have hnone := isRequest_of_tries (List.take_subset (k + 1) (triesFor decision answers request))
    exact absurd (hnone _ hmem) (by simp [Action.isRequest])
  · exact eq_of_mem_exchangeActions hmem

lemma proxiedOnce_of_firstOk {k : ℕ} {stream : Stream}
    (h : FirstOk (triesFor decision answers request) k stream) :
    ProxiedOnce answers exchange (written peer request) (triesFor decision answers request)
      (proxyRequest H decision answers exchange peer request) := by
  rcases proxyRequest_of_firstOk exchange peer h with ⟨hactions, hresult⟩
  have hnone := isRequest_of_tries (List.take_subset (k + 1) (triesFor decision answers request))
  refine ⟨?_, fun hall => absurd hall h.not_allFail, ?_, ?_, ?_, ?_⟩
  · intro k' stream' h'
    rcases h.unique h' with ⟨rfl, rfl⟩
    exact hactions
  · rw [hactions, List.countP_append, List.countP_eq_zero.mpr (by simpa using hnone), Nat.zero_add]
    exact countP_exchangeActions_le exchange stream (written peer request)
  · intro stream' sent hmem
    rcases eq_of_sendRequest exchange peer h hmem with ⟨rfl, rfl⟩
    exact ⟨rfl, k, h⟩
  · intro index sent hmem
    rcases eq_of_sendRequest exchange peer h hmem with ⟨rfl, rfl⟩
    exact read_of_chosen h
  · rw [hresult, or_iff_right h.not_allFail]

lemma proxiedOnce_of_allFail (h : AllFail (triesFor decision answers request)) :
    ProxiedOnce answers exchange (written peer request) (triesFor decision answers request)
      (proxyRequest H decision answers exchange peer request) := by
  rcases proxyRequest_of_allFail exchange peer h with ⟨hactions, hresult⟩
  have hnone := isRequest_of_tries (List.Subset.refl (triesFor decision answers request))
  rw [← hactions] at hnone
  have hunsent : ∀ stream sent, .sendRequest stream sent ∉
      (proxyRequest H decision answers exchange peer request).actions := by
    intro stream sent hmem
    exact absurd (hnone _ hmem) (by simp [Action.isRequest])
  refine ⟨fun k stream hfirst => absurd h hfirst.not_allFail, fun _ => hactions, ?_, ?_, ?_, ?_⟩
  · rw [List.countP_eq_zero.mpr (by simpa using hnone)]
    exact Nat.zero_le 1
  · exact fun stream sent hmem => absurd hmem (hunsent stream sent)
  · exact fun index sent hmem => absurd hmem (hunsent _ sent)
  · exact iff_of_true hresult (Or.inl h)

/-- **One request**, whatever the attempts come to. -/
theorem proxiedOnce : ProxiedOnce answers exchange (written peer request)
    (triesFor decision answers request)
    (proxyRequest H decision answers exchange peer request) := by
  rcases tryInOrder_spec (triesFor decision answers request) .noCandidate with
    ⟨k, stream, hfirst, -⟩ | ⟨hall, -⟩
  · exact proxiedOnce_of_firstOk exchange peer hfirst
  · exact proxiedOnce_of_allFail exchange peer hall

end Head

open Head in
/-- **A proxied request is delivered at most once, to the best candidate that works.**  Head tries
the candidates of its decision in rank order and none after the first that is established, which is
the first that the world's answers let be; it writes the request, if at all, once, to that one,
after it has acknowledged; and it answers `502` of its own exactly when none was established or the
exchange failed.  With the same candidates and answers Fetch takes the same one after the same
attempts, and it dials its static upstream exactly when all have failed. -/
theorem proxied_once {β ρ : Type} (H : HeaderMap) (decision : Option (List Char) → BackendTarget)
    (answers : Answers) (exchange : Exchange (HttpMessage H ρ)) (peer : SocketAddr)
    (request : HttpMessage H β) :
    Chosen (Works answers (decision (requestHost H request.headers)))
      (triesFor decision answers request) ∧
    ProxiedOnce answers exchange (written peer request) (triesFor decision answers request)
      (proxyRequest H decision answers exchange peer request) ∧
    ∀ (routes : Option (List Candidate)) (staticUpstream : String),
      let attempts := Initiator.attempts (R := HttpMessage H β) answers 0 (routes.getD [])
      let head := connectBackend (R := HttpMessage H β) answers (.chain (routes.getD []))
      let fetch := Initiator.connectUpstream (R := HttpMessage H β) answers routes staticUpstream
      Chosen (Works answers (.chain (routes.getD []))) attempts ∧
      (∀ k stream, FirstOk attempts k stream →
        stream = .candidate k ∧ head.result = .ok stream ∧ fetch = head) ∧
      (AllFail attempts → (∃ e, head.result = .error e) ∧
        fetch.result = answers.configured.map fun _ => .configured) ∧
      ((∃ addr expected, .dial .configured addr expected ∈ fetch.actions) ↔ AllFail attempts) := by
  refine ⟨chosen_tries answers _, proxiedOnce exchange peer, fun routes staticUpstream => ?_⟩
  intro attempts head fetch
  have hhead : head = tryInOrder .noCandidate attempts := connectRoutes_eq answers _ 0 .noCandidate
  refine ⟨chosen_tries answers (.chain _), ?_, ?_,
    Initiator.connectUpstream_dials_iff staticUpstream⟩
  · intro k stream hfirst
    have hfetch := Initiator.connectUpstream_of_firstOk staticUpstream hfirst
    rw [hhead, tryInOrder_of_firstOk hfirst]
    exact ⟨(Initiator.read_of_firstOk hfirst).1, rfl, hfetch⟩
  · intro hall
    rcases tryInOrder_of_allFail hall .noCandidate with ⟨e, htry⟩
    have hfetch : fetch = _ := Initiator.connectUpstream_of_allFail staticUpstream hall
    rw [hhead, htry, hfetch]
    exact ⟨⟨e, rfl⟩, rfl⟩

/-- Two candidates. -/
def twoCandidates : List Candidate := [[⟨"a", "a:1"⟩], [⟨"b", "b:1"⟩]]

/-- The first of them is busy. -/
def firstBusy : Answers where
  candidate k :=
    ⟨.ok (), .ok (), .ok (.ack (if k = 0 then "relay_busy" else "tunnel_ready")), .ok ()⟩
  configured := .ok ()

/-- The response does not come. -/
def lostExchange : Exchange (HttpMessage fieldLines Unit) := ⟨.ok (), .error .elapsed⟩

def plainRequest : HttpMessage fieldLines Unit := ⟨[(hostName, ascii "a.example".toList)], ()⟩

open Head in
/-- The request is written to the second and is lost with it; Fetch takes the second too. -/
theorem proxied_once_firstBusy :
    let tries := triesFor (fun _ => .chain twoCandidates) firstBusy plainRequest
    let run := proxyRequest fieldLines (fun _ => .chain twoCandidates) firstBusy lostExchange
      localhost plainRequest
    let fetch := Initiator.connectUpstream (R := HttpMessage fieldLines Unit) firstBusy
      (some twoCandidates) "u:1"
    FirstOk tries 1 (.candidate 1) ∧
    run.actions = actionsOf (tries.take 2) ++
      exchangeActions lostExchange (.candidate 1) (written localhost plainRequest) ∧
    run.result = .ok .badGateway ∧ fetch.result = .ok (.candidate 1) := by
  intro tries run fetch
  rcases proxied_once fieldLines (fun _ => .chain twoCandidates) firstBusy lostExchange localhost
    plainRequest with ⟨hchosen, hproxied, hfetch⟩
  rcases hfetch (some twoCandidates) "u:1" with ⟨-, hsame, -, -⟩
  have hworks : Works firstBusy (.chain twoCandidates) 1 :=
    ⟨_, rfl, by simp, rfl, rfl, rfl, rfl⟩
  have hbusy : ∀ j < 1, ¬ Works firstBusy (.chain twoCandidates) j := by
    rintro j hj ⟨route, -, hestablishes⟩
    obtain rfl : j = 0 := by omega
    exact absurd hestablishes.read (by simp [firstBusy])
  obtain ⟨stream, hfirst⟩ := (hchosen.first 1).mpr ⟨hworks, hbusy⟩
  rcases hsame 1 stream hfirst with ⟨rfl, hresult, hequal⟩
  refine ⟨hfirst, hproxied.chosen 1 _ hfirst, ?_, ?_⟩
  · exact hproxied.badGateway.mpr (Or.inr (Or.inr ⟨_, rfl⟩))
  · exact (congrArg Traced.result hequal).trans hresult

end Radii
