import Radii.Foundations.Effects
import Radii.Foundations.HeaderFields
import Radii.Relay.Chain

/-!
# The initiator's side of a chain

`establish` of `crates/fetch/src/chain.rs`, as what the initiator does on the connection to its
first hop, and `connect_upstream` of `crates/fetch/src/server.rs`, which tries the ranked
candidates.  Each await is one action with one answer of the world; a bound that elapses is an
answer too.

* `establish_result` — when a candidate is established.
* `connectUpstream_of_firstOk`, `connectUpstream_dials_iff` — which one is taken, and when none is.
* `established_over` — an established chain is up to its end.
-/

namespace Radii

open Effects

/-- The hops of a ranked candidate. -/
abbrev Candidate := List RouteHop

/-- Which connection: one that a candidate's `establish` opened, or the one to a configured address,
which is no node's. -/
inductive Stream where
  | candidate (index : ℕ)
  | configured
  deriving DecidableEq, Repr

/-- Why something failed. -/
inductive Failure where
  /-- `no reachable candidate`. -/
  | noCandidate
  /-- `route has no hops`. -/
  | noHops
  /-- `chain refused: …`. -/
  | refused (status : String)
  /-- `expected an ack opening a chain, got …`. -/
  | unexpected (message : RadiiMessage)
  /-- An error of a connection or of TLS. -/
  | broken
  /-- The bound around it has elapsed. -/
  | elapsed
  deriving DecidableEq

/-- What is done on a stream; `R` is what a request is. -/
inductive Action (R : Type) where
  /-- Connects, and expects the identity if there is one to expect. -/
  | dial (stream : Stream) (addr : String) (expected : Option String)
  | send (stream : Stream) (message : RadiiMessage)
  | read (stream : Stream)
  /-- The end-to-end handshake. -/
  | connectOn (stream : Stream) (addr : String) (expected : Option String)
  /-- The HTTP handshake. -/
  | handshake (stream : Stream)
  | sendRequest (stream : Stream) (request : R)

def Action.isRequest {R : Type} : Action R → Bool
  | .sendRequest _ _ => true
  | _ => false

/-- How the world answers one `establish`. -/
structure Attempt where
  dial : Except Failure Unit
  send : Except Failure Unit
  read : Except Failure RadiiMessage
  connectOn : Except Failure Unit

/-- How the world answers a connection's establishment: each candidate's, and the dialing of a
configured address. -/
structure Answers where
  candidate : ℕ → Attempt
  configured : Except Failure Unit

/-- The candidate is established: every await of it succeeds, and the frame that is read is the
acknowledgement. -/
structure Attempt.Establishes (answers : Attempt) (hops : Candidate) : Prop where
  hops : hops ≠ []
  dial : answers.dial = .ok ()
  send : answers.send = .ok ()
  read : answers.read = .ok (.ack "tunnel_ready")
  connectOn : answers.connectOn = .ok ()

variable {R : Type}

/-- What the frame that answers a `TunnelOpen` means. -/
def checkAck : RadiiMessage → Except Failure Unit
  | .ack status => if status = "tunnel_ready" then .ok () else .error (.refused status)
  | other => .error (.unexpected other)

namespace Initiator

/-- `establish`, for the candidate at this index. -/
def establish (index : ℕ) (hops : Candidate) (answers : Attempt) :
    Traced (Action R) Failure Stream :=
  match hops.head?, hops.getLast? with
  | some first, some target => do
      let stream := Stream.candidate index
      .perform (.dial stream first.addr (some first.nodeId)) answers.dial
      .perform (.send stream (.tunnelOpen hops)) answers.send
      let reply ← .perform (.read stream) answers.read
      ⟨[], checkAck reply⟩
      .perform (.connectOn stream target.addr (some target.nodeId)) answers.connectOn
      pure stream
  | _, _ => .fail .noHops

/-! ## One candidate -/

lemma checkAck_eq_ok {m : RadiiMessage} : checkAck m = .ok () ↔ m = .ack "tunnel_ready" := by
  cases m with
  | ack status =>
      rw [checkAck]
      split_ifs with h
      · simp [h]
      · simp [h]
  | _ => simp [checkAck]

/-- **When a candidate is established**: every await of it succeeds, and the frame it reads is the
acknowledgement. -/
theorem establish_result {index : ℕ} {hops : Candidate} {answers : Attempt} {stream : Stream} :
    (establish index hops answers : Traced (Action R) Failure Stream).result = .ok stream ↔
      stream = .candidate index ∧ hops ≠ [] ∧ answers.dial = .ok () ∧ answers.send = .ok () ∧
        answers.read = .ok (.ack "tunnel_ready") ∧ answers.connectOn = .ok () := by
  rw [establish]
  cases hops with
  | nil => simp [Traced.fail]
  | cons first rest =>
      simp only [List.head?_cons, List.getLast?_cons, Traced.result_bind_eq_ok, Traced.perform,
        Traced.result_pure]
      constructor
      · rintro ⟨⟨⟩, hdial, ⟨⟩, hsend, reply, hread, ⟨⟩, hack, ⟨⟩, hconnect, heq⟩
        rw [checkAck_eq_ok.mp hack] at hread
        exact ⟨(Except.ok.inj heq).symm, by simp, hdial, hsend, hread, hconnect⟩
      · rintro ⟨rfl, -, hdial, hsend, hread, hconnect⟩
        exact ⟨(), hdial, (), hsend, _, hread, (), checkAck_eq_ok.mpr rfl, (), hconnect, rfl⟩

/-- What is done for a candidate: the dialing of its first hop, its one frame, and the handshake
with its target; no request among it. -/
lemma establish_actions {index : ℕ} {hops : Candidate} {answers : Attempt} :
    ∀ action ∈ (establish index hops answers : Traced (Action R) Failure Stream).actions,
      (∀ stream request, action ≠ .sendRequest stream request) ∧
      (∀ stream m, action = .send stream m → m = .tunnelOpen hops) ∧
      (∀ addr expected, action ≠ .dial .configured addr expected) := by
  rw [establish]
  cases hops with
  | nil => simp [Traced.fail]
  | cons first rest =>
      simp only [List.head?_cons, List.getLast?_cons]
      refine Traced.forall_actions_bind (by simp [Traced.perform]) ?_
      intro _ _
      refine Traced.forall_actions_bind (by simp [Traced.perform]) ?_
      intro _ _
      refine Traced.forall_actions_bind (by simp [Traced.perform]) ?_
      intro _ _
      refine Traced.forall_actions_bind (by simp) ?_
      intro _ _
      refine Traced.forall_actions_bind (by simp [Traced.perform]) ?_
      intro _ _
      simp

/-! ## The ranked candidates -/

/-- The attempts at the candidates, should each of them be tried. -/
def attempts (answers : Answers) (index : ℕ) (routes : List Candidate) :
    List (Traced (Action R) Failure Stream) :=
  match routes with
  | [] => []
  | route :: routes =>
      establish index route (answers.candidate index) :: attempts answers (index + 1) routes

/-- No attempt writes a request, or dials a configured address. -/
lemma attempts_actions {answers : Answers} (routes : List Candidate) : ∀ index : ℕ,
    ∀ x ∈ attempts (R := R) answers index routes, ∀ action ∈ x.actions,
      (∀ stream request, action ≠ .sendRequest stream request) ∧
      (∀ addr expected, action ≠ .dial .configured addr expected) := by
  induction routes with
  | nil => exact fun index x hx => absurd hx List.not_mem_nil
  | cons route routes ih =>
      intro index x hx action hmem
      rcases List.mem_cons.mp hx with rfl | hx
      · rcases establish_actions action hmem with ⟨hrequest, -, hdial⟩
        exact ⟨hrequest, hdial⟩
      · exact ih (index + 1) x hx action hmem

/-- The attempt at the candidate at `k`. -/
lemma getElem?_attempts (answers : Answers) (routes : List Candidate) : ∀ index k : ℕ,
    (attempts (R := R) answers index routes)[k]? =
      routes[k]?.map fun route => establish (index + k) route (answers.candidate (index + k)) := by
  induction routes with
  | nil => exact fun index k => by simp [attempts]
  | cons route routes ih =>
      intro index k
      cases k with
      | zero => rfl
      | succ k =>
          rw [attempts, List.getElem?_cons_succ, ih, List.getElem?_cons_succ, Nat.add_assoc,
            Nat.add_comm 1 k]

/-- **Which candidates are established** is up to the answers. -/
lemma succeedAt_attempts (answers : Answers) (routes : List Candidate) :
    SucceedAt (attempts (R := R) answers 0 routes) fun k =>
      ∃ route, routes[k]? = some route ∧ (answers.candidate k).Establishes route := by
  intro k
  rw [getElem?_attempts, Nat.zero_add]
  constructor
  · rintro ⟨stream, hok⟩
    rcases Option.map_eq_some_iff.mp hok with ⟨x, hx, hok⟩
    rcases Option.map_eq_some_iff.mp hx with ⟨route, hroute, rfl⟩
    rcases establish_result.mp hok with ⟨-, hne, hdial, hsend, hread, hconnect⟩
    exact ⟨route, hroute, hne, hdial, hsend, hread, hconnect⟩
  · rintro ⟨route, hroute, h⟩
    refine ⟨.candidate k, ?_⟩
    rw [hroute, Option.map_some, Option.map_some]
    exact congrArg some (establish_result.mpr ⟨rfl, h.hops, h.dial, h.send, h.read, h.connectOn⟩)

/-- A candidate that is taken has acknowledged, and its stream is its own. -/
lemma read_of_firstOk {answers : Answers} {routes : List Candidate} {k : ℕ} {stream : Stream}
    (h : FirstOk (attempts (R := R) answers 0 routes) k stream) :
    stream = .candidate k ∧ (answers.candidate k).read = .ok (.ack "tunnel_ready") := by
  rcases Option.map_eq_some_iff.mp h.succeeds with ⟨x, hx, hok⟩
  rw [getElem?_attempts, Nat.zero_add] at hx
  rcases Option.map_eq_some_iff.mp hx with ⟨route, -, rfl⟩
  rcases establish_result.mp hok with ⟨hstream, -, -, -, hread, -⟩
  exact ⟨hstream, hread⟩

/-- `str::strip_prefix`. -/
def stripPrefix (text scheme : List Char) : Option (List Char) :=
  if scheme <+: text then some (text.drop scheme.length) else none

/-- `normalize_upstream`. -/
def normalizeUpstream (upstream : String) : String :=
  let trimmed := Http.trim Http.isWhitespace upstream.toList
  String.ofList ((["ssh://", "tcp://", "http://"].findSome? fun scheme =>
    stripPrefix trimmed scheme.toList).getD trimmed)

/-- The loop of `connect_upstream`. -/
def connectCandidates (answers : Answers) :
    ℕ → List Candidate → Traced (Action R) Failure (Option Stream)
  | _, [] => pure none
  | index, route :: routes => do
      match ← (establish index route (answers.candidate index)).attempt with
      | .ok stream => pure (some stream)
      | .error _ => connectCandidates answers (index + 1) routes

/-- `connect_upstream`; no candidates if the lock on them is poisoned. -/
def connectUpstream (answers : Answers) (routes : Option (List Candidate))
    (staticUpstream : String) : Traced (Action R) Failure Stream := do
  let candidates := routes.getD []
  match ← connectCandidates answers 0 candidates with
  | some stream => pure stream
  | none =>
      .perform (.dial .configured (normalizeUpstream staticUpstream) none) answers.configured
      pure .configured

/-- The loop tries the candidates in order. -/
lemma connectCandidates_eq (answers : Answers) (last : Failure) (routes : List Candidate) :
    ∀ index : ℕ, (connectCandidates answers index routes : Traced (Action R) Failure _) =
      let tried := tryInOrder last (attempts answers index routes)
      ⟨tried.actions, .ok tried.result.toOption⟩ := by
  induction routes generalizing last with
  | nil => exact fun index => rfl
  | cons route routes ih =>
      intro index
      rw [connectCandidates, Traced.attempt_bind, attempts, tryInOrder]
      cases h : (establish index route (answers.candidate index) :
          Traced (Action R) Failure Stream).result with
      | ok stream => simp [Except.toOption]
      | error e => simp [ih e (index + 1)]

variable {answers : Answers} {routes : Option (List Candidate)} (staticUpstream : String)

/-- Fetch takes the first candidate that is established, and tries no other after it. -/
theorem connectUpstream_of_firstOk {k : ℕ} {stream : Stream}
    (h : FirstOk (attempts (R := R) answers 0 (routes.getD [])) k stream) :
    (connectUpstream answers routes staticUpstream : Traced (Action R) Failure Stream) =
      ⟨actionsOf ((attempts answers 0 (routes.getD [])).take (k + 1)), .ok stream⟩ := by
  rw [connectUpstream, connectCandidates_eq answers .noHops, tryInOrder_of_firstOk h]
  simp [Traced.bind_of_ok, Except.toOption]

/-- It dials its static upstream when every candidate has failed. -/
theorem connectUpstream_of_allFail (h : AllFail (attempts (R := R) answers 0 (routes.getD []))) :
    (connectUpstream answers routes staticUpstream : Traced (Action R) Failure Stream) =
      ⟨actionsOf (attempts answers 0 (routes.getD [])) ++
        [.dial .configured (normalizeUpstream staticUpstream) none],
        answers.configured.map fun _ => .configured⟩ := by
  rcases tryInOrder_of_allFail h .noHops with ⟨e, htry⟩
  rw [connectUpstream, connectCandidates_eq answers .noHops, htry, Traced.bind_of_ok rfl]
  cases answers.configured with
  | ok _ => rfl
  | error e => rfl

/-- It does so then alone. -/
theorem connectUpstream_dials_iff :
    (∃ addr expected, .dial .configured addr expected ∈
      (connectUpstream answers routes staticUpstream : Traced (Action R) Failure Stream).actions) ↔
    AllFail (attempts (R := R) answers 0 (routes.getD [])) := by
  constructor
  · rintro ⟨addr, expected, hmem⟩
    rcases tryInOrder_spec (attempts (R := R) answers 0 (routes.getD [])) .noHops with
      ⟨k, stream, hfirst, -⟩ | ⟨hall, -⟩
    · rw [connectUpstream_of_firstOk staticUpstream hfirst] at hmem
      rcases List.mem_flatMap.mp hmem with ⟨x, hx, hmem⟩
      exact absurd rfl ((attempts_actions _ 0 x (List.mem_of_mem_take hx) _ hmem).2 addr expected)
    · exact hall
  · intro hall
    rw [connectUpstream_of_allFail staticUpstream hall]
    exact ⟨_, none, List.mem_append_right _ (List.mem_singleton.mpr rfl)⟩

end Initiator

/-! ## Over a network of relays -/

/-- What comes back from the relays, as an answer. -/
def replyOf (t : Trace) : Except Failure RadiiMessage :=
  match t.reply with
  | some reply => .ok reply
  | none => .error .broken

/-- The answers to an `establish` over a network; whether the first hop can be dialed, and what is
read from it, is up to the relays. -/
def Attempt.over (net : Network) (faults : ℕ → Fault) (originator : String) (hops : Candidate)
    (connectOn : Except Failure Unit) : Attempt where
  dial := match hops.head?.bind fun first => net.dial first.addr first.nodeId with
    | some _ => .ok ()
    | none => .error .broken
  send := .ok ()
  read := replyOf (establish net faults originator hops)
  connectOn := connectOn

/-- **An established chain is up to its end.**  Over a network of relays a candidate is established
only if every hop of it was reached and the last one had connected to its upstream before it
acknowledged. -/
theorem established_over {net : Network} {faults : ℕ → Fault} {originator : String} {index : ℕ}
    {hops : Candidate} {connectOn : Except Failure Unit} {stream : Stream}
    (h : (Initiator.establish index hops (.over net faults originator hops connectOn) :
      Traced (Action R) Failure Stream).result = .ok stream) :
    (establish net faults originator hops).visits.length = hops.length ∧
    ∃ v rest, (establish net faults originator hops).visits.getLast? = some v ∧
      v.node.upstream = true ∧
        v.actions = .connectUpstream true :: .ack "tunnel_ready" :: rest := by
  rcases Initiator.establish_result.mp h with ⟨-, hne, -, -, hread, -⟩
  have hready : (establish net faults originator hops).Ready := by
    have hread : replyOf (establish net faults originator hops) = .ok (.ack "tunnel_ready") := hread
    rw [replyOf] at hread
    cases hreply : (establish net faults originator hops).reply with
    | some reply =>
        rw [hreply] at hread
        rw [Trace.Ready, hreply, Except.ok.inj hread]
    | none => simp [hreply] at hread
  rw [establish] at hready ⊢
  cases hfirst : hops.head? with
  | none => exact absurd (List.head?_eq_none_iff.mp hfirst) hne
  | some first =>
      rw [hfirst] at hready
      cases hdial : net.dial first.addr first.nodeId with
      | none => simp [hdial, Trace.Ready, Trace.nothing] at hready
      | some node =>
          simp only [hdial] at hready ⊢
          exact openChain_ready hops faults originator node hready

end Radii
