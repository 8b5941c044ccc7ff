import Radii.Beacon.Recv
import Radii.Foundations.NetParse

/-!
# Where a node that was heard is reached

`Sighting`, `resolve` and the whole of `Beacon::recv` of `crates/beacon/src/lib.rs`: who was heard,
with its listeners.  A listener on an unspecified host is at the address that the beacon came from.
`receive` is `recv` with the listeners and with what else the socket can answer.

* `parse_chars` — a socket address is parsed as it is written.
* `listener_heard` — what `listener` gives, of whatever datagram.
-/

namespace Radii

open Net Wire

/-! ## Parsing socket addresses -/

namespace SocketAddr

def port : SocketAddr → UInt16
  | v4 _ port => port
  | v6 _ port _ _ => port

/-- `SocketAddr::new`. -/
def new : IpAddr → UInt16 → SocketAddr
  | .v4 ip, port => .v4 ip port
  | .v6 ip, port => .v6 ip port 0 0

/-- `read_socket_addr`. -/
def read (text : List Char) : Option (SocketAddr × List Char) :=
  match readSocketAddrV4 text with
  | some ((ip, port), rest) => some (.v4 ip (.ofNat port), rest)
  | none =>
      match readSocketAddrV6 text with
      | some ((ip, port, scopeId), rest) => some (.v6 ip (.ofNat port) 0 (.ofNat scopeId), rest)
      | none => none

/-- `str::parse::<SocketAddr>`: all of the text is read. -/
def parse (text : List Char) : Option SocketAddr :=
  match read text with
  | some (addr, []) => some addr
  | _ => none

/-- The flow is not written. -/
def written : SocketAddr → SocketAddr
  | v4 ip port => v4 ip port
  | v6 ip port _ scopeId => v6 ip port 0 scopeId

lemma port_lt (port : UInt16) : port.toNat < 65536 := port.toNat_lt

/-- An IPv6 socket address is not taken for an IPv4 one. -/
lemma readSocketAddrV4_bracket (text : List Char) : readSocketAddrV4 ('[' :: text) = none := by
  have hnone := readIpv4Addr_of_stops (stops_cons (by decide : toDigit 10 '[' = none) text)
    (by simp)
  rw [readSocketAddrV4, hnone]
  rfl

/-- **A socket address is parsed as it is written.** -/
theorem parse_chars (addr : SocketAddr) : parse addr.chars = some addr.written := by
  cases addr with
  | v4 ip port =>
      rw [parse, read, chars, readSocketAddrV4_text ip (port_lt port)]
      simp [written]
  | v6 ip port flowinfo scopeId =>
      have hscope : scope scopeId =
          if scopeId.toNat = 0 then [] else '%' :: Nat.toDigits 10 scopeId.toNat := by
        rw [scope]
        refine if_congr ?_ rfl rfl
        rw [← UInt32.toNat_inj]
        rfl
      have hread := readSocketAddrV6_text ip (port_lt port) scopeId.toNat_lt
      rw [parse, read, chars, List.cons_append, List.cons_append, List.append_assoc,
        readSocketAddrV4_bracket, hscope, hread]
      simp [written]

lemma parse_new (ip : IpAddr) (port : UInt16) : parse (new ip port).chars = some (new ip port) := by
  rw [parse_chars]
  cases ip <;> rfl

@[simp] lemma ip_new (ip : IpAddr) (port : UInt16) : (new ip port).ip = ip := by
  cases ip <;> rfl

@[simp] lemma port_new (ip : IpAddr) (port : UInt16) : (new ip port).port = port := by
  cases ip <;> rfl

end SocketAddr

def IpAddr.isUnspecified : IpAddr → Bool
  | .v4 octets => octets == 0
  | .v6 octets => octets == 0

/-- What comes from the local network comes from some address. -/
lemma specified_of_local {ip : IpAddr} (h : onLocalNetwork ip = true) :
    ip.isUnspecified = false := by
  have hzeros : onLocalNetwork (.v4 0) = false ∧ onLocalNetwork (.v6 0) = false := by decide
  cases hip : ip.isUnspecified with
  | false => rfl
  | true =>
      cases ip with
      | v4 octets =>
          obtain rfl : octets = 0 := by simpa [IpAddr.isUnspecified] using hip
          rw [hzeros.1] at h
          exact absurd h (by simp)
      | v6 octets =>
          obtain rfl : octets = 0 := by simpa [IpAddr.isUnspecified] using hip
          rw [hzeros.2] at h
          exact absurd h (by simp)

/-! ## Sightings -/

/-- A sighting with all its fields. -/
structure Sighted extends Sighting where
  /-- Its listeners, with an unspecified host replaced by the address the beacon came from. -/
  listenAddrs : List ListenAddr
  deriving DecidableEq

namespace Sighted

def hasRole (s : Sighted) (role : String) : Bool := s.roles.any (· == role)

/-- The first listener for the role that is a socket address. -/
def listener (s : Sighted) (role : String) : Option SocketAddr :=
  (s.listenAddrs.filter fun l => l.role == role).findSome? fun l => SocketAddr.parse l.addr.toList

end Sighted

namespace Beacon

/-- `resolve`. -/
def resolve (addr : String) (source : IpAddr) : String :=
  match SocketAddr.parse addr.toList with
  | some at' =>
      if at'.ip.isUnspecified then (SocketAddr.new source at'.port).text else addr
  | none => addr

/-- Why the socket has no datagram to give. -/
inductive SocketError where
  | wouldBlock
  | timedOut
  | interrupted
  | connectionReset
  | other
  deriving DecidableEq, Repr

/-- The errors that only mean that nothing came. -/
def SocketError.nothingCame : SocketError → Bool
  | other => false
  | _ => true

/-- `Beacon::recv`, on whatever the socket answers. -/
def receive (b : Beacon) : Except SocketError Arrival →
    Beacon × Option (SocketAddr × Bytes) × Except SocketError (Option Sighted)
  | .error e => (b, none, if e.nothingCame then .ok none else .error e)
  | .ok d =>
      if !onLocalNetwork d.source.ip then (b, none, .ok none)
      else match decode (d.contents.take maxDatagram) with
        | .ok (kind, .nodeHello nodeId roles listenAddrs) =>
            if nodeId = b.nodeId then (b, none, .ok none)
            else
              let r := if kind = .announce then b.answerTo d.source d.time else (b, none)
              (r.1, r.2, .ok (some
                { nodeId := nodeId
                  roles := roles
                  listenAddrs := listenAddrs.map fun l => ⟨resolve l.addr d.source.ip, l.role⟩
                  source := d.source
                  kind := kind }))
        | _ => (b, none, .ok none)

/-- Who a datagram shows, if anyone. -/
def shows (b : Beacon) (d : Arrival) : Option Sighted :=
  match (b.receive (.ok d)).2.2 with
  | .ok heard => heard
  | .error _ => none

/-- What `recv` does is what it does with the listeners left out. -/
theorem receive_eq (b : Beacon) (d : Arrival) :
    b.receive (.ok d) = ((b.recv d).1, (b.recv d).2.1, .ok (b.shows d)) ∧
      (b.shows d).map Sighted.toSighting = (b.recv d).2.2 := by
  rw [shows, recv, receive]
  split_ifs with hlocal
  · exact ⟨rfl, rfl⟩
  · cases hdecode : decode (d.contents.take maxDatagram) with
    | error e => exact ⟨rfl, rfl⟩
    | ok read =>
        rcases read with ⟨kind, hello⟩
        cases hello with
        | nodeHello nodeId roles listenAddrs =>
            simp only
            by_cases hself : nodeId = b.nodeId
            · simp [hself]
            · simp [hself]
        | _ => exact ⟨rfl, rfl⟩

/-- A datagram that shows a node: it comes from the local network and carries another node's hello.
-/
structure Shows (b : Beacon) (d : Arrival) (kind : Kind) (nodeId : String) (roles : List String)
    (listenAddrs : List ListenAddr) : Prop where
  near : onLocalNetwork d.source.ip = true
  carries : decode (d.contents.take maxDatagram) = .ok (kind, .nodeHello nodeId roles listenAddrs)
  other : nodeId ≠ b.nodeId

/-- The sighting of a node whose hello comes in this datagram. -/
def sighted (d : Arrival) (kind : Kind) (nodeId : String) (roles : List String)
    (listenAddrs : List ListenAddr) : Sighted where
  nodeId := nodeId
  roles := roles
  listenAddrs := listenAddrs.map fun l => ⟨resolve l.addr d.source.ip, l.role⟩
  source := d.source
  kind := kind

/-- **Which datagrams show a node**, and how. -/
theorem shows_eq_some {b : Beacon} {d : Arrival} {s : Sighted} :
    b.shows d = some s ↔ ∃ kind nodeId roles listenAddrs,
      Shows b d kind nodeId roles listenAddrs ∧
        s = sighted d kind nodeId roles listenAddrs := by
  constructor
  · intro h
    rw [shows, receive] at h
    cases hnear : onLocalNetwork d.source.ip with
    | false => simp [hnear] at h
    | true =>
        cases hdecode : decode (d.contents.take maxDatagram) with
        | error e => simp [hnear, hdecode] at h
        | ok read =>
            rcases read with ⟨kind, hello⟩
            cases hello with
            | nodeHello nodeId roles listenAddrs =>
                by_cases hself : nodeId = b.nodeId
                · simp [hnear, hdecode, hself] at h
                · simp only [hnear, hdecode, Bool.not_true, Bool.false_eq_true, if_false,
                    if_neg hself, Option.some.injEq] at h
                  exact ⟨kind, nodeId, roles, listenAddrs, ⟨hnear, hdecode, hself⟩, h.symm⟩
            | _ => simp [hnear, hdecode] at h
  · rintro ⟨kind, nodeId, roles, listenAddrs, hshows, rfl⟩
    simp [shows, receive, sighted, hshows.near, hshows.carries, hshows.other]

/-- What is asked shows who asks. -/
lemma shows_of_asks {b : Beacon} {d : Arrival} (h : Asks b.nodeId d) :
    ∃ s, b.shows d = some s ∧ s.kind = .announce ∧ s.source = d.source := by
  rcases h with ⟨hnear, other, roles, listenAddrs, hcarries, hother⟩
  exact ⟨_, shows_eq_some.mpr ⟨.announce, other, roles, listenAddrs, ⟨hnear, hcarries, hother⟩,
    rfl⟩, rfl, rfl⟩

/-- **What is sent for a datagram** is the answer, to where it came from. -/
theorem sent_of_recv {b : Beacon} {d : Arrival} {sent : SocketAddr × Bytes}
    (h : (b.recv d).2.1 = some sent) : Asks b.nodeId d ∧ sent = (d.source, b.answer) := by
  rcases b.recv_spec d with ⟨hasks, -, hsent⟩ | ⟨-, -, hsent⟩
  · refine ⟨hasks, ?_⟩
    rw [hsent, answerTo] at h
    simp only at h
    split_ifs at h
    exact (Option.some.inj h).symm
  · rw [hsent] at h
    exact absurd h (by simp)

/-! ## Listeners -/

/-- The address as it is for whoever heard it from `source`. -/
def heardAt (source : IpAddr) (addr : SocketAddr) : SocketAddr :=
  if addr.ip.isUnspecified then SocketAddr.new source addr.port else addr

lemma parse_resolve (addr : String) (source : IpAddr) :
    SocketAddr.parse (resolve addr source).toList =
      (SocketAddr.parse addr.toList).map (heardAt source) := by
  rw [resolve]
  cases hparse : SocketAddr.parse addr.toList with
  | none => simp [hparse]
  | some at' =>
      simp only [Option.map_some, heardAt]
      split_ifs with hunspecified
      · rw [SocketAddr.text, String.toList_ofList, SocketAddr.parse_new]
      · exact hparse

lemma heardAt_specified {source : IpAddr} (hsource : source.isUnspecified = false)
    (addr : SocketAddr) : (heardAt source addr).ip.isUnspecified = false := by
  rw [heardAt]
  split_ifs with hunspecified
  · rw [SocketAddr.ip_new]
    exact hsource
  · simpa using hunspecified

/-- The first listener for a role, of the resolved ones. -/
lemma findSome?_resolved (source : IpAddr) (role : String) (listenAddrs : List ListenAddr) :
    (((listenAddrs.map fun l => (⟨resolve l.addr source, l.role⟩ : ListenAddr)).filter
        fun l => l.role == role).findSome? fun l => SocketAddr.parse l.addr.toList) =
      (listenAddrs.filter fun l => l.role == role).findSome? fun l =>
        (SocketAddr.parse l.addr.toList).map (heardAt source) := by
  induction listenAddrs with
  | nil => rfl
  | cons l listenAddrs ih =>
      rw [List.map_cons, List.filter_cons, List.filter_cons]
      by_cases hrole : (l.role == role) = true
      · rw [if_pos hrole, if_pos hrole, List.findSome?_cons, List.findSome?_cons, parse_resolve, ih]
      · rw [if_neg hrole, if_neg hrole, ih]

/-- What a sighting says of the listeners of a node that is heard from `source`. -/
structure Reached (listenAddrs : List ListenAddr) (source : IpAddr) (s : Sighted) : Prop where
  /-- All are there, each for its role. -/
  roles : s.listenAddrs.map ListenAddr.role = listenAddrs.map ListenAddr.role
  /-- What is no socket address on an unspecified host is as it was. -/
  named : ∀ (i : ℕ) (l : ListenAddr), listenAddrs[i]? = some l →
    (∀ addr, SocketAddr.parse l.addr.toList = some addr → addr.ip.isUnspecified = false) →
      s.listenAddrs[i]? = some l
  /-- A socket address on an unspecified host is at the address it was heard from, and the text for
  that is parsed as it. -/
  moved : ∀ (i : ℕ) (l : ListenAddr) (addr : SocketAddr), listenAddrs[i]? = some l →
    SocketAddr.parse l.addr.toList = some addr → addr.ip.isUnspecified = true →
      s.listenAddrs[i]? = some ⟨(SocketAddr.new source addr.port).text, l.role⟩ ∧
      SocketAddr.parse (SocketAddr.new source addr.port).text.toList =
        some (.new source addr.port)
  /-- None is on an unspecified host. -/
  nowhere : ∀ l ∈ s.listenAddrs, ∀ addr, SocketAddr.parse l.addr.toList = some addr →
    addr.ip.isUnspecified = false
  /-- A role's listener is the first advertised as a socket address, at where it is heard. -/
  listener : ∀ role, s.listener role =
    (listenAddrs.filter fun l => l.role == role).findSome? fun l =>
      (SocketAddr.parse l.addr.toList).map (heardAt source)
  /-- It can be dialed. -/
  specified : ∀ role addr, s.listener role = some addr → addr.ip.isUnspecified = false

lemma resolve_named {addr : String} (source : IpAddr)
    (h : ∀ at', SocketAddr.parse addr.toList = some at' → at'.ip.isUnspecified = false) :
    resolve addr source = addr := by
  rw [resolve]
  cases hparse : SocketAddr.parse addr.toList with
  | none => rfl
  | some at' => simp [h at' hparse]

lemma resolve_moved {addr : String} (source : IpAddr) {at' : SocketAddr}
    (hparse : SocketAddr.parse addr.toList = some at') (h : at'.ip.isUnspecified = true) :
    resolve addr source = (SocketAddr.new source at'.port).text := by
  simp [resolve, hparse, h]

/-- Whatever is advertised, what is heard of it is on no unspecified host. -/
lemma specified_resolve {source : IpAddr} (hsource : source.isUnspecified = false) {addr : String}
    {at' : SocketAddr} (h : SocketAddr.parse (resolve addr source).toList = some at') :
    at'.ip.isUnspecified = false := by
  rw [parse_resolve] at h
  rcases Option.map_eq_some_iff.mp h with ⟨advertised, -, rfl⟩
  exact heardAt_specified hsource advertised

lemma reached_sighted {d : Arrival} (hnear : onLocalNetwork d.source.ip = true) (kind : Kind)
    (nodeId : String) (roles : List String) (listenAddrs : List ListenAddr) :
    Reached listenAddrs d.source.ip (sighted d kind nodeId roles listenAddrs) := by
  have hlistener : ∀ role, (sighted d kind nodeId roles listenAddrs).listener role =
      (listenAddrs.filter fun l => l.role == role).findSome? fun l =>
        (SocketAddr.parse l.addr.toList).map (heardAt d.source.ip) :=
    fun role => findSome?_resolved d.source.ip role listenAddrs
  have hsource := specified_of_local hnear
  refine ⟨?_, ?_, ?_, ?_, hlistener, ?_⟩
  · simp [sighted]
  · intro i l hl hnamed
    simp [sighted, hl, resolve_named d.source.ip hnamed]
  · intro i l addr hl hparse hunspecified
    refine ⟨by simp [sighted, hl, resolve_moved d.source.ip hparse hunspecified], ?_⟩
    rw [SocketAddr.text, String.toList_ofList, SocketAddr.parse_new]
  · intro l hl addr haddr
    rcases List.mem_map.mp hl with ⟨advertised, -, rfl⟩
    exact specified_resolve hsource haddr
  · intro role addr haddr
    rw [hlistener] at haddr
    rcases List.exists_of_findSome?_eq_some haddr with ⟨l, -, hl⟩
    rcases Option.map_eq_some_iff.mp hl with ⟨advertised, -, rfl⟩
    exact heardAt_specified hsource advertised

/-- **Whoever is heard can be reached.**  A datagram that shows a node is one from the local network
with another node's hello, and the sighting is of what that says: its listeners are those
advertised, each one on an unspecified host at the address the datagram came from, so that none is
on an unspecified host. -/
theorem listener_heard {b : Beacon} {d : Arrival} {s : Sighted} (h : b.shows d = some s) :
    ∃ kind nodeId roles listenAddrs, Shows b d kind nodeId roles listenAddrs ∧
      s.toSighting = ⟨nodeId, roles, d.source, kind⟩ ∧ Reached listenAddrs d.source.ip s := by
  rcases shows_eq_some.mp h with ⟨kind, nodeId, roles, listenAddrs, hshows, rfl⟩
  exact ⟨kind, nodeId, roles, listenAddrs, hshows, rfl, reached_sighted hshows.near _ _ _ _⟩

/-- Who a node shows that advertises two listeners on unspecified hosts, and one that is not. -/
def lanSighted : Option Sighted :=
  (bind ⟨"node-b", [], []⟩).toOption.bind fun b =>
    (encode .announce (.nodeHello "node-a" ["wave"] [⟨"0.0.0.0:50800", "wave"⟩,
        ⟨"10.0.0.5:9000", "relay"⟩, ⟨"[::]:50801", "wave"⟩])).toOption.bind
      fun announcement => b.shows ⟨0, .v4 0xc0a80007 7101, announcement⟩

/-- Both are reached where it was heard. -/
theorem listener_heard_lan : ∃ s listenAddrs, lanSighted = some s ∧
    Reached listenAddrs (.v4 0xc0a80007) s ∧
      s.listenAddrs = [⟨"192.168.0.7:50800", "wave"⟩, ⟨"10.0.0.5:9000", "relay"⟩,
        ⟨"192.168.0.7:50801", "wave"⟩] ∧
      s.listener "wave" = some (.v4 0xc0a80007 50800) := by
  have hshown : (lanSighted.map fun s => (s.listenAddrs, s.listener "wave")) =
      some ([⟨"192.168.0.7:50800", "wave"⟩, ⟨"10.0.0.5:9000", "relay"⟩,
        ⟨"192.168.0.7:50801", "wave"⟩], some (.v4 0xc0a80007 50800)) := by decide
  rcases Option.map_eq_some_iff.mp hshown with ⟨s, hs, hlisteners⟩
  have hheard := hs
  rw [lanSighted] at hheard
  rcases Option.bind_eq_some_iff.mp hheard with ⟨b, -, hheard⟩
  rcases Option.bind_eq_some_iff.mp hheard with ⟨announcement, -, hheard⟩
  rcases listener_heard hheard with ⟨kind, nodeId, roles, listenAddrs, -, -, hreached⟩
  exact ⟨s, listenAddrs, hs, hreached, (Prod.mk.inj hlisteners).1, (Prod.mk.inj hlisteners).2⟩

end Beacon

end Radii
