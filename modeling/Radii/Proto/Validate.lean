import Radii.Proto.Message

/-!
# What a reader accepts

`validate_message` and its parts bound every peer-supplied string and list of a decoded message.
Each check is an instance of `bounded`, with the source's own text for the refusal; `Valid…`
states the same bounds as propositions, and the `_eq_ok` lemmas identify the two, so that later
proofs reason about bounds and never unfold a check.
-/

namespace Radii

/-- Refuses a count or a length above its bound. -/
def bounded (what : String) (n max : ℕ) : Except String Unit :=
  if n > max then .error s!"{what} {n} exceeds {max}" else .ok ()

@[simp] lemma bounded_eq_ok {what : String} {n max : ℕ} :
    bounded what n max = .ok () ↔ n ≤ max := by
  rw [bounded]
  split <;> simp <;> omega

/-- Checks run one after another; the first refusal wins. -/
def andThen (a b : Except String Unit) : Except String Unit :=
  match a with
  | .ok () => b
  | .error text => .error text

@[simp] lemma andThen_eq_ok {a b : Except String Unit} :
    andThen a b = .ok () ↔ a = .ok () ∧ b = .ok () := by
  rcases a with text | ⟨⟩ <;> simp [andThen]

/-- The same check on every element. -/
def forAll {α : Type} (check : α → Except String Unit) : List α → Except String Unit
  | [] => .ok ()
  | x :: xs => andThen (check x) (forAll check xs)

@[simp] lemma forAll_eq_ok {α : Type} {check : α → Except String Unit} {xs : List α} :
    forAll check xs = .ok () ↔ ∀ x ∈ xs, check x = .ok () := by
  induction xs with
  | nil => simp [forAll]
  | cons x xs ih => simp [forAll, ih]

/-! ## The checks -/

def validateNodeId (nodeId : String) : Except String Unit :=
  bounded "node id length" nodeId.utf8ByteSize maxNodeIdLen

def validateListenAddrs (listenAddrs : List ListenAddr) : Except String Unit :=
  andThen (bounded "node_hello listen_addrs count" listenAddrs.length maxListenAddrs)
    (forAll (fun entry =>
      andThen (bounded "node_hello listen address length" entry.addr.utf8ByteSize maxListenAddrLen)
        (bounded "node_hello listen address role length" entry.role.utf8ByteSize maxRoleLen))
      listenAddrs)

def validateHello (nodeId : String) (roles : List String) (listenAddrs : List ListenAddr) :
    Except String Unit :=
  andThen (validateNodeId nodeId)
    (andThen (bounded "node_hello roles count" roles.length maxNodeRoles)
      (andThen
        (forAll (fun role => bounded "node_hello role length" role.utf8ByteSize maxRoleLen) roles)
        (validateListenAddrs listenAddrs)))

def validateReport (fromId target protocol : String) (observedAddr : Option String) :
    Except String Unit :=
  andThen (validateNodeId fromId)
    (andThen (validateNodeId target)
      (andThen (bounded "report protocol length" protocol.utf8ByteSize maxProtocolLen)
        (match observedAddr with
          | some addr =>
              bounded "report observed address length" addr.utf8ByteSize maxListenAddrLen
          | none => .ok ())))

def validateProbe (fromId toId : String) : Except String Unit :=
  andThen (validateNodeId fromId) (validateNodeId toId)

def validateRelayed : RelayedMessage → Except String Unit
  | .nodeHello nodeId roles listenAddrs => validateHello nodeId roles listenAddrs
  | .reachabilityReport fromId target protocol _ _ observedAddr =>
      validateReport fromId target protocol observedAddr
  | .reachabilityProbe fromId toId _ => validateProbe fromId toId

def validateMessage : RadiiMessage → Except String Unit
  | .nodeHello nodeId roles listenAddrs => validateHello nodeId roles listenAddrs
  | .reachabilityReport fromId target protocol _ _ observedAddr =>
      validateReport fromId target protocol observedAddr
  | .reachabilityProbe fromId toId _ => validateProbe fromId toId
  | .fromHead source clientIdentity message =>
      andThen (bounded "from_head source length" source.utf8ByteSize maxListenAddrLen)
        (andThen
          (match clientIdentity with
            | some identity => validateNodeId identity
            | none => .ok ())
          (validateRelayed message))
  -- A poller reads this from Crawl: the same bounds hold in that direction.
  | .graphSnapshot nodes reports =>
      andThen
        (forAll (fun node => validateHello node.nodeId node.roles node.listenAddrs) nodes)
        (forAll (fun report => validateReport report.fromId report.target report.protocol none)
          reports)
  | .tunnelOpen hops =>
      forAll (fun hop =>
        andThen (validateNodeId hop.nodeId)
          (bounded "tunnel_open hop address length" hop.addr.utf8ByteSize maxListenAddrLen)) hops
  | .ack _ => .ok ()
  | .graphQuery => .ok ()

/-- The hop count of a `TunnelOpen`, checked by the reader before anything else. -/
def validateHopCount : RadiiMessage → Except String Unit
  | .tunnelOpen hops =>
      if hops.isEmpty ∨ hops.length > maxTunnelHops then
        .error s!"tunnel_open hop count {hops.length} outside 1..={maxTunnelHops}"
      else .ok ()
  | _ => .ok ()

/-! ## The same bounds as propositions -/

def ValidNodeId (nodeId : String) : Prop := nodeId.utf8ByteSize ≤ maxNodeIdLen

structure ValidHello (nodeId : String) (roles : List String) (listenAddrs : List ListenAddr) :
    Prop where
  nodeId_le : ValidNodeId nodeId
  roles_le : roles.length ≤ maxNodeRoles
  role_le : ∀ role ∈ roles, role.utf8ByteSize ≤ maxRoleLen
  addrs_le : listenAddrs.length ≤ maxListenAddrs
  addr_le : ∀ entry ∈ listenAddrs, entry.addr.utf8ByteSize ≤ maxListenAddrLen ∧
    entry.role.utf8ByteSize ≤ maxRoleLen

structure ValidReport (fromId target protocol : String) (observedAddr : Option String) :
    Prop where
  from_le : ValidNodeId fromId
  target_le : ValidNodeId target
  protocol_le : protocol.utf8ByteSize ≤ maxProtocolLen
  observed_le : ∀ addr ∈ observedAddr, addr.utf8ByteSize ≤ maxListenAddrLen

lemma validateHello_eq_ok {nodeId : String} {roles : List String}
    {listenAddrs : List ListenAddr} :
    validateHello nodeId roles listenAddrs = .ok () ↔ ValidHello nodeId roles listenAddrs := by
  simp only [validateHello, validateNodeId, validateListenAddrs, andThen_eq_ok, bounded_eq_ok,
    forAll_eq_ok]
  constructor
  · rintro ⟨h1, h2, h3, h4, h5⟩
    exact ⟨h1, h2, h3, h4, h5⟩
  · rintro ⟨h1, h2, h3, h4, h5⟩
    exact ⟨h1, h2, h3, h4, h5⟩

lemma validateReport_eq_ok {fromId target protocol : String} {observedAddr : Option String} :
    validateReport fromId target protocol observedAddr = .ok () ↔
      ValidReport fromId target protocol observedAddr := by
  simp only [validateReport, validateNodeId, andThen_eq_ok, bounded_eq_ok]
  constructor
  · rintro ⟨h1, h2, h3, h4⟩
    refine ⟨h1, h2, h3, ?_⟩
    rintro addr rfl
    simpa using h4
  · rintro ⟨h1, h2, h3, h4⟩
    refine ⟨h1, h2, h3, ?_⟩
    cases observedAddr with
    | none => rfl
    | some addr => simpa using h4 addr rfl

/-- What the reader demands of a message beyond being well encoded. -/
def Readable (m : RadiiMessage) : Prop :=
  validateHopCount m = .ok () ∧ validateMessage m = .ok ()

lemma validateHopCount_tunnelOpen {hops : List RouteHop} :
    validateHopCount (.tunnelOpen hops) = .ok () ↔
      1 ≤ hops.length ∧ hops.length ≤ maxTunnelHops := by
  simp only [validateHopCount, List.isEmpty_iff]
  split
  · rename_i h
    simp only [reduceCtorEq, false_iff]
    rintro ⟨h1, h2⟩
    rcases h with rfl | h
    · simp at h1
    · omega
  · rename_i h
    simp only [true_iff]
    rw [not_or] at h
    have := List.length_pos_iff.mpr h.1
    omega

/-- Only a `TunnelOpen` has its hops counted. -/
lemma validateHopCount_eq_ok {m : RadiiMessage} :
    validateHopCount m = .ok () ↔
      ∀ hops, m = .tunnelOpen hops → 1 ≤ hops.length ∧ hops.length ≤ maxTunnelHops := by
  constructor
  · rintro h hops rfl
    exact validateHopCount_tunnelOpen.mp h
  · intro h
    cases m with
    | tunnelOpen hops => exact validateHopCount_tunnelOpen.mpr (h hops rfl)
    | _ => rfl

end Radii
