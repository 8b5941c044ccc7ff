import Radii.Relay.Chain

/-!
# What the originator of a chain reads

Without faults, the acknowledgement an originator reads is decided by the relays on its path alone:
it is the first refusal, or readiness if there is none, whatever the number of relays in between
(`outcome_reaches_originator`).  The induction is on the hop list; it goes through because every
status a relay can produce is in the vocabulary its predecessor passes on.
-/

namespace Radii

/-! ## Without faults -/

/-- A relay on the path of a chain: who hands it the chain, and with which hops. -/
structure Station where
  peer : String
  node : RelayNode
  hops : List RouteHop

/-- The relays on the path, as far as the dials reach, whether or not they would accept. -/
def stations (net : Network) : List RouteHop → String → RelayNode → List Station
  | [], peer, node => [⟨peer, node, []⟩]
  | [hop], peer, node => [⟨peer, node, [hop]⟩]
  | hop :: next :: rest, peer, node =>
      ⟨peer, node, hop :: next :: rest⟩ ::
        ((net.dial next.addr next.nodeId).map fun reached =>
          stations net (next :: rest) node.identity reached).getD []

/-- Whether a relay reaches what comes after it: the next hop, or its own upstream. -/
def Station.reaches (net : Network) (s : Station) : Bool :=
  match s.hops with
  | _ :: next :: _ => (net.dial next.addr next.nodeId).isSome
  | _ => s.node.upstream

/-- The status a relay refuses the chain with, on its own account. -/
def Station.refusal (net : Network) (s : Station) : Option String :=
  match localRefusal s.node s.peer s.hops with
  | some status => some status
  | none => if s.reaches net then none else some "tunnel_hop_unreachable"

lemma Station.refusal_of_reached {net : Network} {s : Station}
    (hlocal : localRefusal s.node s.peer s.hops = none) (h : s.reaches net = true) :
    s.refusal net = none := by
  rw [Station.refusal, hlocal, h]
  rfl

lemma Station.refusal_of_unreached {net : Network} {s : Station}
    (hlocal : localRefusal s.node s.peer s.hops = none) (h : s.reaches net = false) :
    s.refusal net = some "tunnel_hop_unreachable" := by
  rw [Station.refusal, hlocal, h]
  rfl

/-- A relay refuses nothing exactly if it admits its predecessor, has room, accepts the hops and
reaches what comes after it. -/
lemma Station.refusal_eq_none {net : Network} {s : Station} :
    s.refusal net = none ↔ admits s.node.config s.peer = true ∧
      (acquire s.node.config s.peer s.node.live).2 = true ∧
      validate s.hops s.node.config = .ok () ∧ s.reaches net = true := by
  rw [Station.refusal]
  cases href : localRefusal s.node s.peer s.hops with
  | some status =>
      simp only [reduceCtorEq, false_iff]
      rintro ⟨h1, h2, h3, -⟩
      rw [localRefusal_eq_none.mpr ⟨h1, h2, h3⟩] at href
      simp at href
  | none =>
      rcases localRefusal_eq_none.mp href with ⟨h1, h2, h3⟩
      cases hreach : s.reaches net with
      | false => simp
      | true => simp [h1, h2, h3]

lemma Station.refusal_known {net : Network} {s : Station} {status : String}
    (h : s.refusal net = some status) : status ∈ knownAckStatuses ∧ status ≠ "tunnel_ready" := by
  rw [Station.refusal] at h
  cases href : localRefusal s.node s.peer s.hops with
  | some other =>
      rw [href] at h
      obtain rfl := Option.some.inj h
      exact localRefusal_known href
  | none =>
      rw [href] at h
      split_ifs at h
      obtain rfl := Option.some.inj h
      decide

/-- The first refusal on a path, or readiness. -/
def firstRefusal (net : Network) (path : List Station) : String :=
  (path.findSome? (Station.refusal net)).getD "tunnel_ready"

lemma firstRefusal_known (net : Network) (path : List Station) :
    firstRefusal net path ∈ knownAckStatuses := by
  rw [firstRefusal]
  cases h : path.findSome? (Station.refusal net) with
  | none => decide
  | some status =>
      obtain ⟨before, s, after, -, hs, -⟩ := List.findSome?_eq_some_iff.mp h
      exact (Station.refusal_known hs).1

lemma readReply_ack {status : String} (h : status ∈ knownAckStatuses)
    (rest : List RelayAction) : readReply (.ack status :: rest) = some (.ack status) := by
  have hsize : ∀ s ∈ knownAckStatuses, s.utf8ByteSize ≤ 256 := by decide
  have hfirst : (.ack status :: rest).findSome? RelayAction.ackOf = some (.ack status) := rfl
  simp [readReply, hfirst, sendable_ack (hsize status h)]

/-- Actions that write nothing upstream do not matter to what is read. -/
lemma readReply_skip {action : RelayAction} (h : action.ackOf = none) (rest : List RelayAction) :
    readReply (action :: rest) = readReply rest := by
  simp [readReply, h]

lemma readable_tail {hop next : RouteHop} {rest : List RouteHop}
    (h : Sendable (.tunnelOpen (hop :: next :: rest))) : Sendable (.tunnelOpen (next :: rest)) := by
  rcases sendable_tunnelOpen.mp h with ⟨hcount, hbounds⟩
  refine sendable_tunnelOpen.mpr ⟨validateHopCount_tunnelOpen.mpr ?_, ?_⟩
  · have := validateHopCount_tunnelOpen.mp hcount
    simp only [List.length_cons] at this ⊢
    omega
  · simp only [validateMessage, forAll_eq_ok] at hbounds ⊢
    exact fun x hx => hbounds x (List.mem_cons_of_mem hop hx)

lemma firstRefusal_cons_some {net : Network} {s : Station} {path : List Station}
    {status : String} (h : s.refusal net = some status) :
    firstRefusal net (s :: path) = status := by
  simp [firstRefusal, h]

lemma firstRefusal_cons_none {net : Network} {s : Station} {path : List Station}
    (h : s.refusal net = none) : firstRefusal net (s :: path) = firstRefusal net path := by
  simp [firstRefusal, h]

/-- What is read of a relay that is not cut short. -/
lemma handleAt_reply {peer : String} {node : RelayNode} {hops : List RouteHop}
    {below : Option Trace} (h : Sendable (.tunnelOpen hops)) :
    (handleAt .none peer node hops below).reply = readReply
      (handshake node peer (.tunnelOpen hops) ⟨below.isSome, below.bind Trace.reply⟩) := by
  rw [handleAt, if_neg (by simp [h])]
  rfl

/-- **The chain's outcome, by induction on its length.** -/
theorem openChain_reply (net : Network) (hops : List RouteHop) : ∀ (peer : String)
    (node : RelayNode), Sendable (.tunnelOpen hops) →
    (openChain net hops (fun _ => .none) peer node).reply
      = some (.ack (firstRefusal net (stations net hops peer node))) := by
  induction hops with
  | nil =>
      intro peer node hsend
      have := (length_of_sendable hsend).1
      simp at this
  | cons hop rest ih =>
      intro peer node hsend
      cases rest with
      | nil =>
          rw [openChain, stations, handleAt_reply hsend, handshake]
          cases href : localRefusal node peer [hop] with
          | some status =>
              rw [firstRefusal_cons_some (by rw [Station.refusal, href])]
              exact readReply_ack (localRefusal_known href).1 []
          | none =>
              simp only [proceed, terminate]
              cases hup : node.upstream with
              | false =>
                  have hs : Station.refusal net ⟨peer, node, [hop]⟩
                      = some "tunnel_hop_unreachable" := Station.refusal_of_unreached href hup
                  rw [firstRefusal_cons_some hs]
                  exact readReply_ack (by decide) []
              | true =>
                  have hs : Station.refusal net ⟨peer, node, [hop]⟩ = none :=
                    Station.refusal_of_reached href hup
                  rw [firstRefusal_cons_none hs]
                  exact readReply_ack (by decide) [.splice]
      | cons next rest =>
          rw [openChain, stations, handleAt_reply hsend, handshake]
          cases href : localRefusal node peer (hop :: next :: rest) with
          | some status =>
              rw [firstRefusal_cons_some (by rw [Station.refusal, href])]
              exact readReply_ack (localRefusal_known href).1 []
          | none =>
              simp only [proceed, forward]
              cases hdial : net.dial next.addr next.nodeId with
              | none =>
                  have hs : Station.refusal net ⟨peer, node, hop :: next :: rest⟩
                      = some "tunnel_hop_unreachable" :=
                    Station.refusal_of_unreached href (by simp [Station.reaches, hdial])
                  rw [firstRefusal_cons_some hs]
                  exact readReply_ack (by decide) []
              | some reached =>
                  have hs : Station.refusal net ⟨peer, node, hop :: next :: rest⟩ = none :=
                    Station.refusal_of_reached href (by simp [Station.reaches, hdial])
                  rw [firstRefusal_cons_none hs]
                  have hbelow := ih node.identity reached (readable_tail hsend)
                  have hknown := firstRefusal_known net (stations net (next :: rest)
                    node.identity reached)
                  simp only [Option.map_some, Option.isSome_some, Option.bind_some, hbelow, if_true,
                    Option.getD_some, relayReply, sanitise_ack hknown]
                  rw [readReply_skip rfl, readReply_skip rfl]
                  exact readReply_ack hknown _

/-- **A chain's outcome reaches its originator unchanged, and nothing else does.**

Without faults, what the originator reads is readiness exactly if every relay on the path admits
its predecessor, has room, accepts the rest of the list and reaches what comes after it; otherwise
it is the status of the first relay that refuses, however many relays are in between.

And whatever the next hop sends, an honest relay's statuses are in the vocabulary, and it reports
readiness, or splices, only on an acknowledgement of the next hop that says so. -/
theorem outcome_reaches_originator :
    (∀ (net : Network) (originator : String) (hops : List RouteHop) (first : RouteHop)
      (node : RelayNode), hops.head? = some first →
      net.dial first.addr first.nodeId = some node → Sendable (.tunnelOpen hops) →
      ((establish net (fun _ => .none) originator hops).Ready ↔
        ∀ s ∈ stations net hops originator node, admits s.node.config s.peer = true ∧
          (acquire s.node.config s.peer s.node.live).2 = true ∧
          validate s.hops s.node.config = .ok () ∧ s.reaches net = true) ∧
      ∀ before s after status, stations net hops originator node = before ++ s :: after →
        (∀ b ∈ before, b.refusal net = none) → s.refusal net = some status →
        (establish net (fun _ => .none) originator hops).reply = some (.ack status)) ∧
    (∀ (node : RelayNode) (peer : String) (frame : RadiiMessage) (world : World),
      (∀ status, .ack status ∈ handshake node peer frame world → status ∈ knownAckStatuses) ∧
      (∀ hops, frame = .tunnelOpen hops → 2 ≤ hops.length →
        .ack "tunnel_ready" ∈ handshake node peer frame world ∨
          .splice ∈ handshake node peer frame world →
        world.reply = some (.ack "tunnel_ready"))) := by
  refine ⟨?_, handshake_sanitised⟩
  intro net originator hops first node hfirst hdial hsend
  have hreply : (establish net (fun _ => .none) originator hops).reply
      = some (.ack (firstRefusal net (stations net hops originator node))) := by
    simp only [establish, hfirst, hdial]
    exact openChain_reply net hops originator node hsend
  constructor
  · rw [Trace.Ready, hreply, Option.some.injEq, RadiiMessage.ack.injEq]
    simp only [← Station.refusal_eq_none]
    rw [← List.findSome?_eq_none_iff, firstRefusal]
    cases hpath : (stations net hops originator node).findSome? (Station.refusal net) with
    | none => simp
    | some status =>
        obtain ⟨before, s, after, -, hs, -⟩ := List.findSome?_eq_some_iff.mp hpath
        simpa using (Station.refusal_known hs).2
  · intro before s after status hpath hbefore hs
    have hfind : (stations net hops originator node).findSome? (Station.refusal net)
        = some status :=
      List.findSome?_eq_some_iff.mpr ⟨before, s, after, hpath, hs, hbefore⟩
    rw [hreply, firstRefusal, hfind, Option.getD_some]

/-- Two relays, of which the second cannot reach its upstream. -/
theorem outcome_reaches_originator_pair : ∃ (net : Network) (hops : List RouteHop),
    hops.length = 2 ∧ (establish net (fun _ => .none) "o" hops).reply
      = some (.ack "tunnel_hop_unreachable") := by
  let node (nodeId : String) : RelayNode :=
    ⟨{ nodeId := nodeId }, nodeId, Live.default, false⟩
  let net : Network := ⟨fun _ nodeId => some (node nodeId)⟩
  refine ⟨net, [⟨"a", "a:1"⟩, ⟨"b", "b:1"⟩], rfl, ?_⟩
  have houtcome := (outcome_reaches_originator.1 net "o" [⟨"a", "a:1"⟩, ⟨"b", "b:1"⟩]
    ⟨"a", "a:1"⟩ (node "a") rfl rfl (by decide)).2
  exact houtcome [⟨"o", node "a", [⟨"a", "a:1"⟩, ⟨"b", "b:1"⟩]⟩] ⟨"a", node "b", [⟨"b", "b:1"⟩]⟩ []
    "tunnel_hop_unreachable" rfl (by decide) (by decide)

end Radii
