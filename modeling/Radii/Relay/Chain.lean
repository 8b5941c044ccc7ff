import Radii.Relay.Handshake

/-!
# Opening a chain through a network of relays

`establish` of `crates/fetch/src/chain.rs` sends the whole hop list to its first hop, and every
relay that forwards sends its tail on.  `openChain` follows one such list through a network in
which every node runs the relay, and records who handled it, with which hops, and what they did.
Connections may break and bounds elapse at any point; a `Fault` for each depth says where.

`source_route_followed`: with any faults, the list is followed exactly and never twice through one
node.
-/

namespace Radii

/-! ## The network -/

/-- Which relay answers at an address, with the identity the dial expects.  `none`: the dial
fails. -/
structure Network where
  dial : String → String → Option RelayNode

/-- Where a relay's part in the chain is cut short, if anywhere. -/
inductive Fault where
  | none
  /-- The connection breaks before the frame has been read. -/
  | unread
  /-- The relay stops after this many actions. -/
  | stops (after : ℕ)
  deriving DecidableEq

def Fault.cut : Fault → List RelayAction → List RelayAction
  | .none, actions => actions
  | .unread, _ => []
  | .stops after, actions => actions.take after

/-- One relay's handling of the chain. -/
structure Visit where
  node : RelayNode
  received : List RouteHop
  actions : List RelayAction

def Visit.nodeId (v : Visit) : String := v.node.config.nodeId

/-- Who handled the chain from one hop on, and what the hop before reads. -/
structure Trace where
  visits : List Visit
  reply : Option RadiiMessage

def Trace.nothing : Trace := ⟨[], none⟩

def RelayAction.isSend : RelayAction → Bool
  | .send _ => true
  | _ => false

def RelayAction.ackOf : RelayAction → Option RadiiMessage
  | .ack status => some (.ack status)
  | _ => none

/-- A relay that passed the chain on. -/
def Visit.forwards (v : Visit) : Bool := v.actions.any RelayAction.isSend

/-- The frame the hop before reads, if it is written and gets through. -/
def readReply (actions : List RelayAction) : Option RadiiMessage :=
  (actions.findSome? RelayAction.ackOf).filter fun m => decide (Sendable m)

/-- One relay handles a chain; `below` is the rest of the chain, if the next hop is reached. -/
def handleAt (fault : Fault) (peer : String) (node : RelayNode) (hops : List RouteHop)
    (below : Option Trace) : Trace :=
  if fault = .unread ∨ ¬ Sendable (.tunnelOpen hops) then .nothing
  else
    let actions := fault.cut
      (handshake node peer (.tunnelOpen hops) ⟨below.isSome, below.bind Trace.reply⟩)
    { visits := ⟨node, hops, actions⟩ ::
        (if actions.any RelayAction.isSend then (below.map Trace.visits).getD [] else [])
      reply := readReply actions }

/-- The chain from `node` on. -/
def openChain (net : Network) : List RouteHop → (ℕ → Fault) → String → RelayNode → Trace
  | [], faults, peer, node => handleAt (faults 0) peer node [] none
  | [hop], faults, peer, node => handleAt (faults 0) peer node [hop] none
  | hop :: next :: rest, faults, peer, node =>
      handleAt (faults 0) peer node (hop :: next :: rest)
        ((net.dial next.addr next.nodeId).map fun reached =>
          openChain net (next :: rest) (fun i => faults (i + 1)) node.identity reached)

/-- `establish`, up to the originator's reading of the acknowledgement. -/
def establish (net : Network) (faults : ℕ → Fault) (originator : String) (hops : List RouteHop) :
    Trace :=
  match hops.head? with
  | none => .nothing
  | some first =>
      match net.dial first.addr first.nodeId with
      | none => .nothing
      | some node => openChain net hops faults originator node

/-- The chain is up, as far as the originator can tell. -/
def Trace.Ready (t : Trace) : Prop := t.reply = some (.ack "tunnel_ready")

/-! ## Following the list -/

/-- The visits follow the hops: each relay is the one that the network has where the list goes next,
received the list from itself on, and dialed only the hop after it, or its own upstream if there is
none. -/
inductive Follows (net : Network) : List RouteHop → List Visit → Prop where
  | nil {hops} : Follows net hops []
  | cons {hop rest v visits} (hreached : net.dial hop.addr hop.nodeId = some v.node)
      (hreceived : v.received = hop :: rest)
      (hdials : ∀ addr nodeId, .dial addr nodeId ∈ v.actions →
        ∃ next, rest.head? = some next ∧ addr = next.addr ∧ nodeId = next.nodeId)
      (hsends : ∀ m, .send m ∈ v.actions → rest ≠ [] ∧ m = .tunnelOpen rest)
      (hconnects : ∀ ok, .connectUpstream ok ∈ v.actions → rest = [] ∧ ok = v.node.upstream)
      (hvisits : visits ≠ [] → v.forwards = true) (hrest : Follows net rest visits) :
      Follows net (hop :: rest) (v :: visits)

/-- Every dial reaches the node whose id it expects. -/
def Network.Faithful (net : Network) : Prop :=
  ∀ addr nodeId node, net.dial addr nodeId = some node → node.config.nodeId = nodeId

lemma Follows.nodeIds {net : Network} (hnet : net.Faithful) {hops : List RouteHop}
    {visits : List Visit} (h : Follows net hops visits) :
    visits.map Visit.nodeId <+: hops.map RouteHop.nodeId := by
  induction h with
  | nil => exact List.nil_prefix
  | @cons hop rest v visits hreached _ _ _ _ _ _ ih =>
      have hnode : v.nodeId = hop.nodeId := hnet _ _ _ hreached
      rw [List.map_cons, List.map_cons, hnode]
      exact List.cons_prefix_cons.mpr ⟨rfl, ih⟩

/-- The relay at depth `i` and the hops from depth `i` on. -/
lemma Follows.getElem {net : Network} {hops : List RouteHop} {visits : List Visit}
    (h : Follows net hops visits) :
    ∀ i v, visits[i]? = some v → v.received = hops.drop i ∧
      (∃ hop, hops[i]? = some hop ∧ net.dial hop.addr hop.nodeId = some v.node) ∧
      (∀ addr nodeId, .dial addr nodeId ∈ v.actions →
        ∃ next, hops[i + 1]? = some next ∧ addr = next.addr ∧ nodeId = next.nodeId) ∧
      (∀ m, .send m ∈ v.actions → m = .tunnelOpen (hops.drop (i + 1))) ∧
      (∀ ok, .connectUpstream ok ∈ v.actions →
        (hops.drop i).length = 1 ∧ ok = v.node.upstream) := by
  induction h with
  | nil => intro i v hv; simp at hv
  | @cons hop rest first visits hreached hreceived hdials hsends hconnects _ _ ih =>
      intro i v hv
      cases i with
      | zero =>
          obtain rfl : first = v := by simpa using hv
          refine ⟨hreceived, ⟨hop, rfl, hreached⟩, ?_, fun m hmem => (hsends m hmem).2,
            fun ok hmem => ⟨by simp [(hconnects ok hmem).1], (hconnects ok hmem).2⟩⟩
          intro addr nodeId hmem
          obtain ⟨next, hnext, haddr, hnode⟩ := hdials addr nodeId hmem
          exact ⟨next, by simpa [List.head?_eq_getElem?] using hnext, haddr, hnode⟩
      | succ i => exact ih i v (by simpa using hv)

/-- The last hop passes nothing on. -/
lemma Follows.forwards_lt {net : Network} {hops : List RouteHop} {visits : List Visit}
    (h : Follows net hops visits) (hne : hops ≠ []) :
    visits.countP Visit.forwards < hops.length := by
  induction h with
  | nil => simpa [List.length_pos_iff] using hne
  | @cons hop rest v visits _ _ _ hsends _ hvisits _ ih =>
      rw [List.countP_cons, List.length_cons]
      cases hforwards : v.forwards with
      | false =>
          obtain rfl : visits = [] := by
            by_contra hvs
            rw [hvisits hvs] at hforwards
            simp at hforwards
          simp
      | true =>
          rcases List.any_eq_true.mp hforwards with ⟨action, hmem, hsend⟩
          cases action with
          | send m =>
              have := ih (hsends m hmem).1
              simp only [if_true]
              omega
          | _ => simp [RelayAction.isSend] at hsend

/-! ## One relay of the chain -/

/-- A cut list of actions is a beginning of it. -/
lemma Fault.cut_begins (fault : Fault) (actions : List RelayAction) :
    fault.cut actions <+: actions := by
  cases fault with
  | none => exact List.prefix_refl actions
  | unread => exact List.nil_prefix
  | stops after => exact List.take_prefix after actions

/-- A beginning that has come to `x` contains all that stands before it. -/
lemma prefix_of_mem {α : Type} {p before after : List α} {x : α} (h : p <+: before ++ x :: after)
    (hx : x ∈ p) (hbefore : x ∉ before) : before ++ [x] <+: p := by
  rcases h with ⟨q, hq⟩
  rcases List.append_eq_append_iff.mp hq with ⟨c, hc, -⟩ | ⟨c, hc, hrest⟩
  · exact absurd (hc ▸ List.mem_append_left c hx) hbefore
  · cases c with
    | nil => exact absurd (by simpa [hc] using hx) hbefore
    | cons y c =>
        rw [List.cons_append, List.cons.injEq] at hrest
        exact ⟨c, by rw [hc, ← hrest.1]; simp⟩

/-- What a relay's actions can be, however the world answers. -/
lemma handshake_actions (node : RelayNode) (peer : String) (hop : RouteHop)
    (rest : List RouteHop) (world : World) :
    (∀ addr nodeId, .dial addr nodeId ∈ handshake node peer (.tunnelOpen (hop :: rest)) world →
      ∃ next, rest.head? = some next ∧ addr = next.addr ∧ nodeId = next.nodeId) ∧
    (∀ m, .send m ∈ handshake node peer (.tunnelOpen (hop :: rest)) world →
      rest ≠ [] ∧ m = .tunnelOpen rest) ∧
    (∀ ok, .connectUpstream ok ∈ handshake node peer (.tunnelOpen (hop :: rest)) world →
      rest = [] ∧ ok = node.upstream) := by
  rw [handshake]
  cases localRefusal node peer (hop :: rest) with
  | some status => simp [refuse]
  | none =>
      cases rest with
      | nil =>
          simp only [proceed, terminate, refuse]
          split_ifs <;> simp
      | cons next rest =>
          simp only [proceed, forward, refuse]
          cases world.dialled with
          | false => simp
          | true =>
              cases world.reply with
              | none => simp
              | some reply =>
                  simp only [if_true, Option.map_some, Option.getD_some, relayReply]
                  split_ifs <;> simp

/-- A relay that passes the chain on has checked the hops it received. -/
lemma validated_of_forwards {fault : Fault} {node : RelayNode} {peer : String}
    {hops : List RouteHop} {world : World}
    (h : (fault.cut (handshake node peer (.tunnelOpen hops) world)).any RelayAction.isSend = true) :
    (hops.map RouteHop.nodeId).Nodup := by
  rcases List.any_eq_true.mp h with ⟨action, hmem, hsend⟩
  have hmem := (fault.cut_begins _).subset hmem
  rw [handshake] at hmem
  cases href : localRefusal node peer hops with
  | some status =>
      rw [href] at hmem
      obtain rfl : action = .ack status := by simpa [refuse] using hmem
      simp [RelayAction.isSend] at hsend
  | none => exact (validate_eq_ok.mp (localRefusal_eq_none.mp href).2.2).2.2

lemma mem_of_readReply {actions : List RelayAction} {status : String}
    (h : readReply actions = some (.ack status)) : .ack status ∈ actions := by
  rw [readReply, Option.filter_eq_some_iff, List.findSome?_eq_some_iff] at h
  rcases h with ⟨⟨before, action, after, rfl, hack, -⟩, -⟩
  cases action with
  | ack other =>
      obtain rfl : other = status := by simpa [RelayAction.ackOf] using hack
      simp
  | _ => simp [RelayAction.ackOf] at hack

/-- A relay that reports readiness has made no refusal. -/
lemma localRefusal_of_ready {fault : Fault} {node : RelayNode} {peer : String}
    {hops : List RouteHop} {world : World}
    (h : .ack "tunnel_ready" ∈ fault.cut (handshake node peer (.tunnelOpen hops) world)) :
    localRefusal node peer hops = none := by
  have hmem := (fault.cut_begins _).subset h
  rw [handshake] at hmem
  cases href : localRefusal node peer hops with
  | none => rfl
  | some status =>
      rw [href] at hmem
      have : status = "tunnel_ready" := by simpa [refuse, eq_comm] using hmem
      exact absurd this (localRefusal_known href).2

/-- The last hop reports readiness only after it has connected to its upstream. -/
lemma terminate_ready {fault : Fault} {node : RelayNode}
    (h : .ack "tunnel_ready" ∈ fault.cut (terminate node)) : node.upstream = true ∧
    ∃ rest, fault.cut (terminate node) = .connectUpstream true :: .ack "tunnel_ready" :: rest := by
  have hcut := fault.cut_begins (terminate node)
  cases hup : node.upstream with
  | false =>
      have := hcut.subset h
      simp [terminate, hup, refuse] at this
  | true =>
      have hlist : fault.cut (terminate node)
          <+: [.connectUpstream true] ++ .ack "tunnel_ready" :: [.splice] := by
        simpa [terminate, hup] using fault.cut_begins (terminate node)
      obtain ⟨rest, hrest⟩ := prefix_of_mem hlist h (by simp)
      exact ⟨rfl, rest, by simpa using hrest.symm⟩

/-- A relay in between reports readiness only after it has passed the chain on and read
readiness. -/
lemma forward_ready {fault : Fault} {next : RouteHop} {tail : List RouteHop} {world : World}
    (h : .ack "tunnel_ready" ∈ fault.cut (forward next tail world)) :
    (fault.cut (forward next tail world)).any RelayAction.isSend = true ∧ world.dialled = true ∧
      world.reply = some (.ack "tunnel_ready") := by
  have hcut := fault.cut_begins (forward next tail world)
  have hreply := (forward_sanitised next tail world).2 (Or.inl (hcut.subset h))
  cases hdial : world.dialled with
  | false =>
      have := hcut.subset h
      simp [forward, hdial, refuse] at this
  | true =>
      have hready : sanitise (.ack "tunnel_ready") = "tunnel_ready" := sanitise_ack (by decide)
      have hlist : fault.cut (forward next tail world)
          <+: [.dial next.addr next.nodeId, .send (.tunnelOpen tail)]
            ++ .ack "tunnel_ready" :: [.splice] := by
        simpa [forward, hdial, hreply, relayReply, hready] using hcut
      obtain ⟨rest, hrest⟩ := prefix_of_mem hlist h (by simp)
      refine ⟨?_, rfl, hreply⟩
      rw [← hrest]
      simp [RelayAction.isSend]

/-! ## The whole chain -/

/-- Nothing happens, or the relay has read the list and acts on it. -/
lemma handleAt_cases (fault : Fault) (peer : String) (node : RelayNode) (hops : List RouteHop)
    (below : Option Trace) :
    handleAt fault peer node hops below = .nothing ∨
      Sendable (.tunnelOpen hops) ∧ ∃ actions,
        actions = fault.cut
          (handshake node peer (.tunnelOpen hops) ⟨below.isSome, below.bind Trace.reply⟩) ∧
        handleAt fault peer node hops below
          = ⟨⟨node, hops, actions⟩ ::
              (if actions.any RelayAction.isSend then (below.map Trace.visits).getD [] else []),
            readReply actions⟩ := by
  rw [handleAt]
  split
  · exact Or.inl rfl
  · rename_i h
    rw [not_or, not_not] at h
    exact Or.inr ⟨h.2, _, rfl, rfl⟩

lemma length_of_sendable {hops : List RouteHop} (h : Sendable (.tunnelOpen hops)) :
    1 ≤ hops.length ∧ hops.length ≤ maxTunnelHops :=
  validateHopCount_tunnelOpen.mp h.2.1

/-- One relay follows the list if the rest of the chain does. -/
lemma handleAt_follows {net : Network} {fault : Fault} {peer : String} {node : RelayNode}
    {hop : RouteHop} {rest : List RouteHop} {below : Option Trace}
    (hreached : net.dial hop.addr hop.nodeId = some node)
    (hbelow : ∀ t, below = some t → Follows net rest t.visits) :
    Follows net (hop :: rest) (handleAt fault peer node (hop :: rest) below).visits := by
  rcases handleAt_cases fault peer node (hop :: rest) below with h | ⟨-, actions, hactions, h⟩
  · rw [h]
    exact .nil
  · rw [h]
    have hsub : actions ⊆ _ := hactions ▸ (fault.cut_begins _).subset
    obtain ⟨hdials, hsends, hconnects⟩ :=
      handshake_actions node peer hop rest ⟨below.isSome, below.bind Trace.reply⟩
    refine .cons hreached rfl (fun addr nodeId hmem => hdials addr nodeId (hsub hmem))
      (fun m hmem => hsends m (hsub hmem)) (fun ok hmem => hconnects ok (hsub hmem)) ?_ ?_
    · intro hvisits
      by_contra hforwards
      simp only [Visit.forwards] at hforwards
      simp [hforwards] at hvisits
    · split_ifs
      · cases below with
        | none => exact .nil
        | some t => exact hbelow t rfl
      · exact .nil

/-- Whatever the faults, the relays follow the list. -/
theorem openChain_follows {net : Network} (hops : List RouteHop) :
    ∀ (faults : ℕ → Fault) (peer : String) (node : RelayNode),
    (∀ hop, hops.head? = some hop → net.dial hop.addr hop.nodeId = some node) →
      Follows net hops (openChain net hops faults peer node).visits := by
  induction hops with
  | nil =>
      intro faults peer node _
      rcases handleAt_cases (faults 0) peer node [] none with h | ⟨hsend, -⟩
      · rw [openChain, h]
        exact .nil
      · have := (length_of_sendable hsend).1
        simp at this
  | cons hop rest ih =>
      intro faults peer node hreached
      cases rest with
      | nil =>
          rw [openChain]
          exact handleAt_follows (hreached hop rfl) (by simp)
      | cons next rest =>
          rw [openChain]
          refine handleAt_follows (hreached hop rfl) ?_
          intro t ht
          rcases Option.map_eq_some_iff.mp ht with ⟨reached, hdial, rfl⟩
          refine ih _ _ _ ?_
          intro first hfirst
          obtain rfl : next = first := by simpa using hfirst
          exact hdial

/-- A relay that is ready has passed its checks and says so in what it does next. -/
lemma handleAt_ready {fault : Fault} {peer : String} {node : RelayNode} {hops : List RouteHop}
    {below : Option Trace} (hready : (handleAt fault peer node hops below).Ready) :
    hops ≠ [] ∧ ∃ actions,
      actions = fault.cut (proceed node hops ⟨below.isSome, below.bind Trace.reply⟩) ∧
      .ack "tunnel_ready" ∈ actions ∧
      (handleAt fault peer node hops below).visits = ⟨node, hops, actions⟩ ::
        (if actions.any RelayAction.isSend then (below.map Trace.visits).getD [] else []) := by
  rcases handleAt_cases fault peer node hops below with h | ⟨hsend, actions, hactions, h⟩
  · rw [Trace.Ready, h] at hready
    simp [Trace.nothing] at hready
  · rw [Trace.Ready, h] at hready
    have hmem := mem_of_readReply hready
    refine ⟨?_, actions, ?_, hmem, by rw [h]⟩
    · rintro rfl
      have := (length_of_sendable hsend).1
      simp at this
    · rw [hactions] at hmem
      rw [hactions, handshake, localRefusal_of_ready hmem]

/-- Readiness means that the whole list was traversed, and that the last relay connected to its
upstream before it said so. -/
theorem openChain_ready {net : Network} (hops : List RouteHop) :
    ∀ (faults : ℕ → Fault) (peer : String) (node : RelayNode),
    (openChain net hops faults peer node).Ready →
      (openChain net hops faults peer node).visits.length = hops.length ∧
      ∃ v rest, (openChain net hops faults peer node).visits.getLast? = some v ∧
        v.node.upstream = true ∧
        v.actions = .connectUpstream true :: .ack "tunnel_ready" :: rest := by
  induction hops with
  | nil =>
      intro faults peer node hready
      exact absurd rfl (handleAt_ready hready).1
  | cons hop rest ih =>
      intro faults peer node hready
      cases rest with
      | nil =>
          rw [openChain] at hready ⊢
          rcases handleAt_ready hready with ⟨-, actions, hactions, hmem, hvisits⟩
          obtain ⟨hupstream, after, hafter⟩ := terminate_ready (hactions ▸ hmem)
          rw [hvisits]
          refine ⟨by simp, ⟨node, [hop], actions⟩, after, by simp, hupstream, ?_⟩
          rw [← hafter, hactions]
          rfl
      | cons next rest =>
          rw [openChain] at hready ⊢
          rcases handleAt_ready hready with ⟨-, actions, hactions, hmem, hvisits⟩
          obtain ⟨hsent, -, hreply⟩ := forward_ready (hactions ▸ hmem)
          rcases Option.bind_eq_some_iff.mp hreply with ⟨t, ht, hreply⟩
          rcases Option.map_eq_some_iff.mp ht with ⟨reached, hdial, rfl⟩
          obtain ⟨hlen, v, after, hlast, hv⟩ :=
            ih (fun i => faults (i + 1)) node.identity reached hreply
          have hsent : actions.any RelayAction.isSend = true := by
            rw [hactions]
            exact hsent
          rw [hvisits, if_pos hsent, ht]
          refine ⟨by simp [hlen], v, after, ?_, hv⟩
          rw [Option.map_some, Option.getD_some, List.getLast?_cons, hlast]
          rfl

/-- The chain is its first relay's handling, over some rest. -/
lemma openChain_eq (net : Network) (hops : List RouteHop) (faults : ℕ → Fault) (peer : String)
    (node : RelayNode) :
    ∃ below, openChain net hops faults peer node = handleAt (faults 0) peer node hops below := by
  match hops with
  | [] => exact ⟨_, rfl⟩
  | [_] => exact ⟨_, rfl⟩
  | _ :: _ :: _ => exact ⟨_, rfl⟩

/-- A chain that is handled at all has a list of 1 to `maxTunnelHops` hops; and one that is
passed on names no node twice. -/
lemma openChain_first (net : Network) (hops : List RouteHop) (faults : ℕ → Fault) (peer : String)
    (node : RelayNode) :
    let visits := (openChain net hops faults peer node).visits
    (visits ≠ [] → 1 ≤ hops.length ∧ hops.length ≤ maxTunnelHops) ∧
    (2 ≤ visits.length → (hops.map RouteHop.nodeId).Nodup) := by
  obtain ⟨below, hbelow⟩ := openChain_eq net hops faults peer node
  rw [hbelow]
  rcases handleAt_cases (faults 0) peer node hops below with h | ⟨hsend, actions, hactions, h⟩
  · rw [h]
    simp [Trace.nothing]
  · refine ⟨fun _ => length_of_sendable hsend, ?_⟩
    intro hlen
    cases hforwards : actions.any RelayAction.isSend with
    | true => exact validated_of_forwards (hactions ▸ hforwards)
    | false =>
        rw [h, hforwards] at hlen
        simp at hlen

/-- **Source routes are followed exactly and cannot cycle.**  Whatever list an originator sends
and wherever connections break, the relays that handle the chain are those the list names, in
order and each once; each receives the rest of the list and dials only the hop after it, or its own
upstream if it is the last; and the originator reads readiness only if the whole list was
traversed and its last relay, whose upstream can be reached, had connected to that before it
acknowledged. -/
theorem source_route_followed {net : Network} (hnet : net.Faithful) (faults : ℕ → Fault)
    (originator : String) (hops : List RouteHop) :
    let t := establish net faults originator hops
    t.visits.map Visit.nodeId <+: hops.map RouteHop.nodeId ∧
    (t.visits.map Visit.nodeId).Nodup ∧
    (∀ i v, t.visits[i]? = some v → v.received = hops.drop i ∧
      (∃ hop, hops[i]? = some hop ∧ net.dial hop.addr hop.nodeId = some v.node) ∧
      (∀ addr nodeId, .dial addr nodeId ∈ v.actions →
        ∃ next, hops[i + 1]? = some next ∧ addr = next.addr ∧ nodeId = next.nodeId) ∧
      (∀ m, .send m ∈ v.actions → m = .tunnelOpen (hops.drop (i + 1))) ∧
      (∀ ok, .connectUpstream ok ∈ v.actions →
        (hops.drop i).length = 1 ∧ ok = v.node.upstream)) ∧
    (t.visits ≠ [] → t.visits.countP Visit.forwards < hops.length ∧
      t.visits.countP Visit.forwards ≤ maxTunnelHops - 1) ∧
    (t.Ready → t.visits.length = hops.length ∧
      ∃ v rest, t.visits.getLast? = some v ∧ v.node.upstream = true ∧
        v.actions = .connectUpstream true :: .ack "tunnel_ready" :: rest) := by
  intro t
  have hnothing : t = .nothing ∨ ∃ first node, hops.head? = some first ∧
      net.dial first.addr first.nodeId = some node ∧
        t = openChain net hops faults originator node := by
    simp only [t, establish]
    cases hfirst : hops.head? with
    | none => exact Or.inl rfl
    | some first =>
        cases hdial : net.dial first.addr first.nodeId with
        | none => exact Or.inl (by simp [hdial])
        | some node => exact Or.inr ⟨first, node, rfl, hdial, by simp [hdial]⟩
  rcases hnothing with h | ⟨first, node, hfirst, hreached, h⟩
  · rw [h]
    simp [Trace.nothing, Trace.Ready]
  · have hfollows : Follows net hops t.visits := by
      rw [h]
      refine openChain_follows hops faults originator node ?_
      intro hop hhop
      rw [hfirst, Option.some.injEq] at hhop
      rw [← hhop, hreached]
    obtain ⟨hlength, hnodup⟩ := openChain_first net hops faults originator node
    rw [← h] at hlength hnodup
    refine ⟨hfollows.nodeIds hnet, ?_, hfollows.getElem, ?_, ?_⟩
    · rcases Nat.lt_or_ge t.visits.length 2 with hlt | hge
      · cases hvs : t.visits with
        | nil => exact List.nodup_nil
        | cons v others =>
            rw [hvs, List.length_cons] at hlt
            obtain rfl : others = [] := List.eq_nil_of_length_eq_zero (by omega)
            exact List.nodup_singleton v.nodeId
      · exact (hnodup hge).sublist (hfollows.nodeIds hnet).sublist
    · intro hvisits
      have hlt := hfollows.forwards_lt (by rintro rfl; simp at hfirst)
      have hmax := (hlength hvisits).2
      exact ⟨hlt, by omega⟩
    · intro hready
      rw [h] at hready ⊢
      exact openChain_ready hops faults originator node hready

/-- Two relays in a row, the second with its upstream reachable. -/
theorem source_route_followed_pair : ∃ (net : Network) (hops : List RouteHop),
    hops.length = 2 ∧ (establish net (fun _ => .none) "o" hops).Ready ∧
      (establish net (fun _ => .none) "o" hops).visits.length = 2 ∧
      ∃ v rest, (establish net (fun _ => .none) "o" hops).visits.getLast? = some v ∧
        v.node.upstream = true ∧
        v.actions = .connectUpstream true :: .ack "tunnel_ready" :: rest := by
  let net : Network := ⟨fun _ nodeId => some ⟨{ nodeId := nodeId }, nodeId, Live.default, true⟩⟩
  have hready : (establish net (fun _ => .none) "o" [⟨"a", "a:1"⟩, ⟨"b", "b:1"⟩]).Ready := by
    show _ = _
    decide
  have hnet : net.Faithful := by
    rintro addr nodeId node ⟨⟩
    rfl
  exact ⟨net, _, rfl, hready,
    (source_route_followed hnet (fun _ => .none) "o" _).2.2.2.2 hready⟩

end Radii
