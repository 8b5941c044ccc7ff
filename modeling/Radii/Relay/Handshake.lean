import Radii.Proto.Framing
import Radii.Relay.Admission

/-!
# One relay's part in opening a chain

`handshake`, `validate`, `refuse`, `terminate` and `forward` of `crates/fetch/src/relay.rs`, as the
list of what the relay does, in order, given what the world answers.  A connection that breaks or a
handshake bound that elapses cuts the list short; `World.reply` is what was read from the next
hop, if anything was.

The next hop is not trusted: `handshake_sanitised` is about any frame it may send.
-/

namespace Radii

/-! ## The vocabulary -/

def unknownDownstreamStatus : String := "relay_downstream_status_unrecognised"

/-- The closed vocabulary of `Ack.status` values a relay understands, whether its own or received
from a downstream hop. -/
def knownAckStatuses : List String :=
  ["tunnel_ready", "tunnel_misaddressed", "tunnel_too_long", "tunnel_path_loops",
    "tunnel_hop_unreachable", "relay_forwarding_unavailable", "expected_tunnel_open",
    "relay_forbidden", "relay_busy", unknownDownstreamStatus]

/-- What is relayed upstream of a frame the next hop returned. -/
def sanitise : RadiiMessage → String
  | .ack status => if status ∈ knownAckStatuses then status else unknownDownstreamStatus
  | _ => unknownDownstreamStatus

lemma sanitise_known (m : RadiiMessage) : sanitise m ∈ knownAckStatuses := by
  cases m with
  | ack status =>
      rw [sanitise]
      split
      · assumption
      · decide
  | _ =>
      show unknownDownstreamStatus ∈ knownAckStatuses
      decide

lemma sanitise_ack {status : String} (h : status ∈ knownAckStatuses) :
    sanitise (.ack status) = status := if_pos h

/-- Only an acknowledgement that says so counts as readiness. -/
lemma sanitise_eq_ready {m : RadiiMessage} (h : sanitise m = "tunnel_ready") :
    m = .ack "tunnel_ready" := by
  have hne : unknownDownstreamStatus ≠ "tunnel_ready" := by decide
  cases m with
  | ack status =>
      rw [sanitise] at h
      split_ifs at h with hknown
      · rw [h]
      · exact absurd h hne
  | _ => exact absurd h hne

/-! ## The relay -/

/-- Local checks on the remaining hops, before anything is dialed. -/
def validate (hops : List RouteHop) (config : RelayConfig) : Except String Unit :=
  if hops.length > config.maxHops then .error "tunnel_too_long"
  else match hops.head? with
    | none => .error "tunnel_misaddressed"
    | some first =>
        if first.nodeId ≠ config.nodeId then .error "tunnel_misaddressed"
        else if ¬ (hops.map RouteHop.nodeId).Nodup then .error "tunnel_path_loops"
        else .ok ()

/-- One relay: its configuration, the name on its certificate, its accounting when the chain
reaches it, and whether its own upstream can be reached then. -/
structure RelayNode where
  config : RelayConfig
  identity : String
  live : Live
  upstream : Bool

/-- What a relay does while a chain is opened. -/
inductive RelayAction where
  /-- Connects to its own upstream; the flag says whether that succeeded. -/
  | connectUpstream (ok : Bool)
  | dial (addr nodeId : String)
  /-- Writes to the next hop. -/
  | send (message : RadiiMessage)
  /-- Writes to the previous hop. -/
  | ack (status : String)
  | splice
  deriving DecidableEq

/-- What the next hop answers: whether it was reached, and what was read from it. -/
structure World where
  dialled : Bool
  reply : Option RadiiMessage

def refuse (status : String) : List RelayAction := [.ack status]

/-- `terminate`: the upstream first, then the acknowledgement. -/
def terminate (node : RelayNode) : List RelayAction :=
  .connectUpstream node.upstream ::
    (if node.upstream then [.ack "tunnel_ready", .splice] else refuse "tunnel_hop_unreachable")

/-- What `forward` does with the frame it read from the next hop. -/
def relayReply (reply : RadiiMessage) : List RelayAction :=
  .ack (sanitise reply) :: (if sanitise reply = "tunnel_ready" then [.splice] else [])

/-- `forward`, to `next`, with the hops from `next` on as the tail. -/
def forward (next : RouteHop) (tail : List RouteHop) (world : World) : List RelayAction :=
  .dial next.addr next.nodeId ::
    (if world.dialled then .send (.tunnelOpen tail) :: (world.reply.map relayReply).getD []
    else refuse "tunnel_hop_unreachable")

/-- What follows the local checks: the last hop terminates the chain, any other forwards it. -/
def proceed (node : RelayNode) (hops : List RouteHop) (world : World) : List RelayAction :=
  match hops with
  | [] => []
  | [_] => terminate node
  | _ :: next :: rest => forward next (next :: rest) world

/-- Why a relay refuses a chain before it dials anything. -/
def localRefusal (node : RelayNode) (peer : String) (hops : List RouteHop) : Option String :=
  if !admits node.config peer then some "relay_forbidden"
  else if !(acquire node.config peer node.live).2 then some "relay_busy"
  else match validate hops node.config with
    | .error status => some status
    | .ok () => none

/-- `handshake`, from the frame read to the acknowledgement. -/
def handshake (node : RelayNode) (peer : String) (frame : RadiiMessage) (world : World) :
    List RelayAction :=
  match frame with
  | .tunnelOpen hops =>
      match localRefusal node peer hops with
      | some status => refuse status
      | none => proceed node hops world
  | _ => refuse "expected_tunnel_open"

/-! ## What the checks guarantee -/

lemma validate_eq_ok {hops : List RouteHop} {config : RelayConfig} :
    validate hops config = .ok () ↔
      hops.length ≤ config.maxHops ∧ (∃ first rest, hops = first :: rest ∧
        first.nodeId = config.nodeId) ∧ (hops.map RouteHop.nodeId).Nodup := by
  rw [validate]
  cases hops with
  | nil => simp
  | cons first rest =>
      simp only [List.head?_cons]
      split_ifs with hlen hnode hnodup
      · simp at hlen ⊢
        omega
      · simp [hnode]
      · rw [ne_eq, not_not] at hnode
        simp only [true_iff]
        exact ⟨by omega, ⟨first, rest, rfl, hnode⟩, hnodup⟩
      · simp only [false_iff]
        rintro ⟨-, -, h⟩
        exact hnodup h

lemma validate_error_known {hops : List RouteHop} {config : RelayConfig} {status : String}
    (h : validate hops config = .error status) :
    status ∈ knownAckStatuses ∧ status ≠ "tunnel_ready" := by
  rw [validate] at h
  cases hops with
  | nil =>
      simp only [List.head?_nil] at h
      split_ifs at h
      all_goals
        obtain rfl := Except.error.inj h
        decide
  | cons first rest =>
      simp only [List.head?_cons] at h
      split_ifs at h
      all_goals
        obtain rfl := Except.error.inj h
        decide

/-- A local refusal is in the vocabulary, and is no readiness. -/
lemma localRefusal_known {node : RelayNode} {peer : String} {hops : List RouteHop}
    {status : String} (h : localRefusal node peer hops = some status) :
    status ∈ knownAckStatuses ∧ status ≠ "tunnel_ready" := by
  rw [localRefusal] at h
  split_ifs at h
  · obtain rfl := Option.some.inj h
    decide
  · obtain rfl := Option.some.inj h
    decide
  · cases hv : validate hops node.config with
    | error text =>
        rw [hv] at h
        obtain rfl := Option.some.inj h
        exact validate_error_known hv
    | ok u =>
        rw [hv] at h
        simp at h

lemma localRefusal_eq_none {node : RelayNode} {peer : String} {hops : List RouteHop} :
    localRefusal node peer hops = none ↔
      admits node.config peer = true ∧ (acquire node.config peer node.live).2 = true ∧
        validate hops node.config = .ok () := by
  rw [localRefusal]
  cases admits node.config peer with
  | false => simp
  | true =>
      cases (acquire node.config peer node.live).2 with
      | false => simp
      | true =>
          cases validate hops node.config with
          | error text => simp
          | ok u => simp

/-! ## Any frame the next hop may send -/

lemma forward_sanitised (next : RouteHop) (tail : List RouteHop) (world : World) :
    (∀ status, .ack status ∈ forward next tail world → status ∈ knownAckStatuses) ∧
    (.ack "tunnel_ready" ∈ forward next tail world ∨ .splice ∈ forward next tail world →
      world.reply = some (.ack "tunnel_ready")) := by
  rw [forward]
  cases world.dialled with
  | false => simp [refuse, knownAckStatuses]
  | true =>
      cases hreply : world.reply with
      | none => simp
      | some reply =>
          have hready : ∀ h : sanitise reply = "tunnel_ready",
              reply = .ack "tunnel_ready" := fun h => sanitise_eq_ready h
          simp only [relayReply, if_true, Option.map_some, Option.getD_some, List.mem_cons,
            reduceCtorEq, false_or, RelayAction.ack.injEq, Option.some.injEq]
          constructor
          · rintro status (rfl | hmem)
            · exact sanitise_known reply
            · split_ifs at hmem <;> simp at hmem
          · rintro (⟨h | hmem⟩ | hmem)
            · exact hready h.symm
            · split_ifs at hmem <;> simp at hmem
            · split_ifs at hmem with h
              · exact hready h
              · simp at hmem

/-- **What an honest relay says of a downstream it does not trust.**  Every status it writes
upstream is in the vocabulary; and where it has a next hop, it reports readiness and goes on to
splice only if that hop's frame was an acknowledgement saying exactly that. -/
theorem handshake_sanitised (node : RelayNode) (peer : String) (frame : RadiiMessage)
    (world : World) :
    (∀ status, .ack status ∈ handshake node peer frame world → status ∈ knownAckStatuses) ∧
    (∀ hops, frame = .tunnelOpen hops → 2 ≤ hops.length →
      .ack "tunnel_ready" ∈ handshake node peer frame world ∨
        .splice ∈ handshake node peer frame world →
      world.reply = some (.ack "tunnel_ready")) := by
  cases frame with
  | tunnelOpen hops =>
      rw [handshake]
      cases href : localRefusal node peer hops with
      | some status =>
          rcases localRefusal_known href with ⟨hknown, hne⟩
          simp [refuse, hknown, hne.symm]
      | none =>
          match hops with
          | [] => simp [proceed]
          | [_] =>
              refine ⟨?_, ?_⟩
              · intro status hmem
                simp only [proceed, terminate, refuse] at hmem
                split_ifs at hmem
                · obtain rfl : status = "tunnel_ready" := by simpa using hmem
                  decide
                · obtain rfl : status = "tunnel_hop_unreachable" := by simpa using hmem
                  decide
              · intro hops hhops hlen
                obtain rfl := RadiiMessage.tunnelOpen.inj hhops
                simp at hlen
          | _ :: next :: rest =>
              obtain ⟨hknown, hready⟩ := forward_sanitised next (next :: rest) world
              exact ⟨hknown, fun _ _ _ => hready⟩
  | _ =>
      refine ⟨?_, by simp⟩
      intro status hmem
      obtain rfl : status = "expected_tunnel_open" := by simpa [handshake, refuse] using hmem
      decide

end Radii
