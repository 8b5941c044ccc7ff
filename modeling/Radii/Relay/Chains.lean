import Radii.Proto.Tls
import Radii.Relay.Initiator

/-!
# Any number of chains at once

The relays, whoever opens chains through them, and strangers, who do as they like: an address may
lead to anybody, anybody may connect to anybody, and whoever runs no relay answers what he wants.  A
relay does what `handshake` does, an initiator what `establish` does, each one step at a time and in
any order; whoever steps no more has been cut off.

Of a connection only the first frame in each direction is ever read before it goes opaque, and that
is what is kept of it.

`ok_of_reached` says of every run who has written what, on which connection, and to whom.  Names are
those on certificates; `Members.Genuine` is what is assumed of TLS.
-/

namespace Radii

open Effects Tls

namespace Chains

/-! ## Who is there -/

/-- A stream: the connection it is of, and the party that answers on it. -/
structure Line where
  conn : ℕ
  farEnd : ℕ

/-- The parties: which of them run a relay, with what configuration and identity, and who holds the
key of which certificate. -/
structure Members (I : Type) where
  tls : Rustls I Line
  relay : ℕ → Option (RelayConfig × I)
  holds : ℕ → Certificate → Prop

variable {I : Type}

def Members.Genuine (members : Members I) : Prop :=
  members.tls.Genuine fun line => members.holds line.farEnd

/-- The party holds a certificate for the node. -/
def Members.Named (members : Members I) (party : ℕ) (nodeId : String) : Prop :=
  ∃ leaf, members.holds party leaf ∧ peerCommonName members.tls leaf = .ok nodeId

/-! ## States -/

/-- Who has opened a connection: the relay that was handed the list on another, an initiator, or
anybody for any reason. -/
inductive Opener where
  | relay (conn : ℕ)
  | initiator (opening : ℕ)
  | anybody
  deriving DecidableEq

/-- A connection, with the first frame that each end has written. -/
structure Conn where
  opener : Opener
  client : ℕ
  server : ℕ
  sent : Option RadiiMessage
  reply : Option RadiiMessage

def Conn.send (conn : Conn) (m : RadiiMessage) : Conn := { conn with sent := conn.sent.or (some m) }

def Conn.answer (conn : Conn) (m : RadiiMessage) : Conn :=
  { conn with reply := conn.reply.or (some m) }

/-- A relay at work on a connection: what it has been handed, by whom, what it has seen of the world
and has done so far, and the connection to the next hop if there is one. -/
structure Task where
  node : RelayNode
  peer : String
  frame : RadiiMessage
  world : World
  done : List RelayAction
  next : Option ℕ

def Task.actions (t : Task) : List RelayAction := handshake t.node t.peer t.frame t.world

/-- The action is what the relay does next. -/
def Task.Next (t : Task) (action : RelayAction) : Prop := t.done ++ [action] <+: t.actions

instance (t : Task) (action : RelayAction) : Decidable (t.Next action) :=
  inferInstanceAs (Decidable (_ <+: _))

def Task.does (t : Task) (action : RelayAction) : Task := { t with done := t.done ++ [action] }

/-- An initiator at work on a candidate: how the world has answered so far, its connection to the
first hop, and who completed the end-to-end handshake. -/
structure Opening (I : Type) where
  party : ℕ
  hops : Candidate
  hopTls : Option I
  e2eTls : Option I
  answers : Attempt
  conn : Option ℕ
  target : Option ℕ

/-- Nothing has been answered yet. -/
def unanswered : Attempt := ⟨.error .broken, .error .broken, .error .broken, .error .broken⟩

structure State (I : Type) where
  conns : ℕ → Option Conn
  tasks : ℕ → Option Task
  openings : ℕ → Option (Opening I)

def State.initial : State I := ⟨fun _ => none, fun _ => none, fun _ => none⟩

namespace State

def setConn (s : State I) (c : ℕ) (conn : Conn) : State I :=
  { s with conns := Function.update s.conns c (some conn) }

def setTask (s : State I) (c : ℕ) (t : Task) : State I :=
  { s with tasks := Function.update s.tasks c (some t) }

def setOpening (s : State I) (k : ℕ) (o : Opening I) : State I :=
  { s with openings := Function.update s.openings k (some o) }

variable (s : State I) (i : ℕ) (conn : Conn) (t : Task) (o : Opening I)

@[simp] lemma conns_setConn : (s.setConn i conn).conns i = some conn := Function.update_self ..

@[simp] lemma tasks_setTask : (s.setTask i t).tasks i = some t := Function.update_self ..

@[simp] lemma openings_setOpening : (s.setOpening i o).openings i = some o :=
  Function.update_self ..

@[simp] lemma conns_setTask : (s.setTask i t).conns = s.conns := rfl

end State

/-! ## Steps -/

inductive Step (members : Members I) : State I → State I → Prop where
  /-- Somebody connects to somebody. -/
  | connects {s : State I} {c client server : ℕ} (hfree : s.conns c = none) :
      Step members s (s.setConn c ⟨.anybody, client, server, none, none⟩)
  /-- And sends something. -/
  | speaks {s : State I} {c : ℕ} {conn : Conn} {m : RadiiMessage} (hconn : s.conns c = some conn)
      (hopener : conn.opener = .anybody) : Step members s (s.setConn c (conn.send m))
  /-- Who runs no relay answers something. -/
  | answers {s : State I} {c : ℕ} {conn : Conn} {m : RadiiMessage} (hconn : s.conns c = some conn)
      (hserver : members.relay conn.server = none) : Step members s (s.setConn c (conn.answer m))
  /-- A relay accepts a connection and reads the first frame on it.  Its accounting, and whether it
  can reach its upstream, are as they are then. -/
  | accepts {s : State I} {c : ℕ} {conn : Conn} {node : RelayNode} {identity : I} {peer : String}
      {frame : RadiiMessage} {secured : BoxedStream Line} (hconn : s.conns c = some conn)
      (hrelay : members.relay conn.server = some (node.config, identity))
      (hfree : s.tasks c = none)
      (hpeer : acceptOn members.tls ⟨c, conn.client⟩ (some identity) = .ok (secured, some peer))
      (hsent : conn.sent = some frame) (hread : Sendable frame) :
      Step members s (s.setTask c ⟨node, peer, frame, ⟨false, none⟩, [], none⟩)
  /-- A relay reaches the next hop, which is whoever answers at its address. -/
  | dials {s : State I} {c d server : ℕ} {conn : Conn} {t : Task} {identity : I}
      {addr nodeId : String} {secured : BoxedStream Line} (htask : s.tasks c = some t)
      (hconn : s.conns c = some conn)
      (hrelay : members.relay conn.server = some (t.node.config, identity))
      (hnext : t.Next (.dial addr nodeId)) (hfree : s.conns d = none)
      (hdial : dialExpecting members.tls (fun _ => .ok ⟨d, server⟩) addr (some identity)
        (some nodeId) = .ok secured) :
      Step members s ((s.setConn d ⟨.relay c, conn.server, server, none, none⟩).setTask c
        { t.does (.dial addr nodeId) with world := ⟨true, none⟩, next := some d })
  /-- It hands the rest of the list on. -/
  | sends {s : State I} {c d : ℕ} {conn : Conn} {t : Task} {m : RadiiMessage}
      (htask : s.tasks c = some t) (hnext : t.Next (.send m)) (hdialed : t.next = some d)
      (hconn : s.conns d = some conn) :
      Step members s ((s.setConn d (conn.send m)).setTask c (t.does (.send m)))
  /-- It reads what the next hop has answered. -/
  | hears {s : State I} {c d : ℕ} {conn : Conn} {t : Task} {m : RadiiMessage}
      (htask : s.tasks c = some t) (hsent : t.done.any RelayAction.isSend = true)
      (hdialed : t.next = some d) (hconn : s.conns d = some conn) (hreply : conn.reply = some m)
      (hread : Sendable m) (hunheard : t.world.reply = none) :
      Step members s (s.setTask c { t with world := ⟨true, some m⟩ })
  /-- It answers the hop before. -/
  | acks {s : State I} {c : ℕ} {conn : Conn} {t : Task} {status : String}
      (htask : s.tasks c = some t) (hnext : t.Next (.ack status)) (hconn : s.conns c = some conn) :
      Step members s
        ((s.setConn c (conn.answer (.ack status))).setTask c (t.does (.ack status)))
  /-- It does what nobody else sees: it connects to its upstream, or fails to; fails to reach the
  next hop; splices. -/
  | acts {s : State I} {c : ℕ} {t : Task} {action : RelayAction} (htask : s.tasks c = some t)
      (hnext : t.Next action) (hlocal : action.isSend = false ∧ action.ackOf = none) :
      Step members s (s.setTask c (t.does action))
  /-- An initiator takes up a candidate. -/
  | opens {s : State I} {k party : ℕ} {hops : Candidate} {hopTls e2eTls : Option I}
      (hfree : s.openings k = none) :
      Step members s (s.setOpening k ⟨party, hops, hopTls, e2eTls, unanswered, none, none⟩)
  /-- It reaches the first hop. -/
  | openDials {s : State I} {k d server : ℕ} {o : Opening I} {first : RouteHop}
      {secured : BoxedStream Line} (hopening : s.openings k = some o)
      (hfirst : o.hops.head? = some first) (hundialed : o.conn = none) (hfree : s.conns d = none)
      (hdial : dialExpecting members.tls (fun _ => .ok ⟨d, server⟩) first.addr o.hopTls
        (some first.nodeId) = .ok secured) :
      Step members s ((s.setConn d ⟨.initiator k, o.party, server, none, none⟩).setOpening k
        { o with answers := { o.answers with dial := .ok () }, conn := some d })
  /-- It sends it the list. -/
  | openSends {s : State I} {k d : ℕ} {o : Opening I} {conn : Conn}
      (hopening : s.openings k = some o) (hdialed : o.conn = some d)
      (hconn : s.conns d = some conn) :
      Step members s ((s.setConn d (conn.send (.tunnelOpen o.hops))).setOpening k
        { o with answers := { o.answers with send := .ok () } })
  /-- It reads the answer. -/
  | openReads {s : State I} {k d : ℕ} {o : Opening I} {conn : Conn} {m : RadiiMessage}
      (hopening : s.openings k = some o) (hsent : o.answers.send = .ok ())
      (hdialed : o.conn = some d) (hconn : s.conns d = some conn) (hreply : conn.reply = some m)
      (hread : Sendable m) :
      Step members s (s.setOpening k { o with answers := { o.answers with read := .ok m } })
  /-- It completes the end-to-end handshake, with whoever the stream leads to. -/
  | openSecures {s : State I} {k d farEnd : ℕ} {o : Opening I} {target : RouteHop}
      {secured : BoxedStream Line} (hopening : s.openings k = some o)
      (hready : o.answers.read = .ok (.ack "tunnel_ready")) (hdialed : o.conn = some d)
      (htarget : o.hops.getLast? = some target)
      (hconnect : connectOn members.tls ⟨d, farEnd⟩ target.addr o.e2eTls
        (some target.nodeId) = .ok secured) :
      Step members s (s.setOpening k
        { o with answers := { o.answers with connectOn := .ok () }, target := some farEnd })

/-- The runs, from when nobody has done anything. -/
def Reached (members : Members I) (s : State I) : Prop :=
  Relation.ReflTransGen (Step members) .initial s

/-! ## What only grows -/

/-- Nothing of a table is lost, and what changes in it changes along `R`. -/
def Grows {α : Type} (R : α → α → Prop) (f f' : ℕ → Option α) : Prop :=
  ∀ i x, f i = some x → ∃ x', f' i = some x' ∧ R x x'

lemma Grows.refl {α : Type} {R : α → α → Prop} (hrefl : ∀ x, R x x) (f : ℕ → Option α) :
    Grows R f f := fun _ x hx => ⟨x, hx, hrefl x⟩

lemma Grows.update {α : Type} {R : α → α → Prop} (hrefl : ∀ x, R x x) {f : ℕ → Option α} {i : ℕ}
    {y : α} (h : ∀ x, f i = some x → R x y) : Grows R f (Function.update f i (some y)) := by
  intro j x hx
  by_cases hj : j = i
  · subst hj
    exact ⟨y, Function.update_self .., h x hx⟩
  · exact ⟨x, by rw [Function.update_of_ne hj, hx], hrefl x⟩

/-- What is in a table after an update was there before, or is the new. -/
lemma eq_some_or_of_update {α : Type} {P : ℕ → α → Prop} {f : ℕ → Option α} {i : ℕ} {y : α}
    (hy : P i y) : ∀ j x, Function.update f i (some y) j = some x → f j = some x ∨ P j x := by
  intro j x h
  by_cases hj : j = i
  · subst hj
    rw [Function.update_self, Option.some.injEq] at h
    exact Or.inr (h ▸ hy)
  · rw [Function.update_of_ne hj] at h
    exact Or.inl h

lemma forall_eq_some {α : Type} {P : α → Prop} {y : Option α} {x : α} (h : y = some x) (hx : P x) :
    ∀ old, y = some old → P old := by
  intro old hold
  rw [h, Option.some.injEq] at hold
  exact hold ▸ hx

structure Conn.Grows (conn conn' : Conn) : Prop where
  opener : conn'.opener = conn.opener
  client : conn'.client = conn.client
  server : conn'.server = conn.server
  sent : ∀ m, conn.sent = some m → conn'.sent = some m
  reply : ∀ m, conn.reply = some m → conn'.reply = some m

structure Task.Grows (t t' : Task) : Prop where
  done : t.done ⊆ t'.done
  next : ∀ d, t.next = some d → t'.next = some d

structure Opening.Grows (o o' : Opening I) : Prop where
  hops : o'.hops = o.hops
  conn : ∀ c, o.conn = some c → o'.conn = some c

/-- The one state may come after the other. -/
structure State.Grows (s s' : State I) : Prop where
  conns : Chains.Grows Conn.Grows s.conns s'.conns
  tasks : Chains.Grows Task.Grows s.tasks s'.tasks
  openings : Chains.Grows Opening.Grows s.openings s'.openings

lemma Conn.Grows.refl (conn : Conn) : conn.Grows conn := ⟨rfl, rfl, rfl, fun _ h => h, fun _ h => h⟩

lemma Task.Grows.refl (t : Task) : t.Grows t := ⟨List.Subset.refl _, fun _ h => h⟩

lemma Opening.Grows.refl (o : Opening I) : o.Grows o := ⟨rfl, fun _ h => h⟩

lemma Conn.grows_send (conn : Conn) (m : RadiiMessage) : conn.Grows (conn.send m) :=
  ⟨rfl, rfl, rfl, fun m' h => by rw [Conn.send, h]; rfl, fun _ h => h⟩

lemma Conn.grows_answer (conn : Conn) (m : RadiiMessage) : conn.Grows (conn.answer m) :=
  ⟨rfl, rfl, rfl, fun _ h => h, fun m' h => by rw [Conn.answer, h]; rfl⟩

lemma Task.grows_does (t : Task) (action : RelayAction) : t.Grows (t.does action) :=
  ⟨List.subset_append_left _ _, fun _ h => h⟩

/-! ## The invariant -/

/-- What a relay has been handed, by whom, and what has become of it. -/
structure TaskOk (members : Members I) (s : State I) (c : ℕ) (t : Task) : Prop where
  handed : ∃ conn, s.conns c = some conn ∧ conn.sent = some t.frame ∧
    members.Named conn.client t.peer ∧
    ∃ identity, members.relay conn.server = some (t.node.config, identity)
  begun : t.done <+: t.actions
  undialed : t.next = none → t.world = ⟨false, none⟩
  dialed : ∀ d, t.next = some d → t.world.dialled = true ∧ ∃ conn conn',
    s.conns c = some conn ∧ s.conns d = some conn' ∧ conn'.opener = .relay c ∧
    conn'.client = conn.server ∧
    (∃ addr nodeId, .dial addr nodeId ∈ t.done ∧ members.Named conn'.server nodeId) ∧
    (t.done.any RelayAction.isSend = true → ∃ m, conn'.sent = some m) ∧
    ∀ m, t.world.reply = some m → conn'.reply = some m

/-- Who has written what on a connection. -/
structure ConnOk (members : Members I) (s : State I) (d : ℕ) (conn : Conn) : Prop where
  relay : ∀ c, conn.opener = .relay c → ∃ t, s.tasks c = some t ∧ t.next = some d ∧
    ∀ m, conn.sent = some m → .send m ∈ t.done
  initiator : ∀ k, conn.opener = .initiator k → ∃ o, s.openings k = some o ∧ o.conn = some d ∧
    ∀ m, conn.sent = some m → m = .tunnelOpen o.hops
  reply : members.relay conn.server ≠ none → ∀ m, conn.reply = some m →
    ∃ t status, s.tasks d = some t ∧ m = .ack status ∧ .ack status ∈ t.done

/-- How far an initiator has got. -/
structure OpeningOk (members : Members I) (s : State I) (k : ℕ) (o : Opening I) : Prop where
  conn : ∀ d, o.conn = some d → ∃ conn first, s.conns d = some conn ∧
    conn.opener = .initiator k ∧ o.hops.head? = some first ∧
    (o.hopTls.isSome → members.Named conn.server first.nodeId)
  send : o.answers.send = .ok () →
    ∃ d conn, o.conn = some d ∧ s.conns d = some conn ∧ conn.sent = some (.tunnelOpen o.hops)
  read : ∀ m, o.answers.read = .ok m →
    ∃ d conn, o.conn = some d ∧ s.conns d = some conn ∧ conn.reply = some m
  target : o.answers.connectOn = .ok () → ∃ farEnd target, o.target = some farEnd ∧
    o.hops.getLast? = some target ∧ (o.e2eTls.isSome → members.Named farEnd target.nodeId)

structure Ok (members : Members I) (s : State I) : Prop where
  task : ∀ c t, s.tasks c = some t → TaskOk members s c t
  conn : ∀ d conn, s.conns d = some conn → ConnOk members s d conn
  opening : ∀ k o, s.openings k = some o → OpeningOk members s k o

variable {members : Members I} {s s' : State I}

lemma TaskOk.mono {c : ℕ} {t : Task} (h : TaskOk members s c t) (hgrows : s.Grows s') :
    TaskOk members s' c t := by
  rcases h with ⟨⟨conn, hconn, hsent, hpeer, hrelay⟩, hbegun, hundialed, hdialed⟩
  obtain ⟨after, hafter, hgrown⟩ := hgrows.conns c conn hconn
  refine ⟨⟨after, hafter, hgrown.sent _ hsent, hgrown.client ▸ hpeer, hgrown.server ▸ hrelay⟩,
    hbegun, hundialed, ?_⟩
  intro d hd
  obtain ⟨hworld, conn₀, conn', hconn₀, hconn', hopener, hclient, ⟨addr, nodeId, hdial, hnamed⟩,
    hsend, hreply⟩ := hdialed d hd
  rw [hconn, Option.some.injEq] at hconn₀
  subst hconn₀
  obtain ⟨after', hafter', hgrown'⟩ := hgrows.conns d conn' hconn'
  refine ⟨hworld, after, after', hafter, hafter', hgrown'.opener.trans hopener, ?_,
    ⟨addr, nodeId, hdial, ?_⟩, ?_, fun m hm => hgrown'.reply m (hreply m hm)⟩
  · rw [hgrown'.client, hgrown.server, hclient]
  · rw [hgrown'.server]
    exact hnamed
  · intro hany
    obtain ⟨m, hm⟩ := hsend hany
    exact ⟨m, hgrown'.sent m hm⟩

lemma ConnOk.mono {d : ℕ} {conn : Conn} (h : ConnOk members s d conn) (hgrows : s.Grows s') :
    ConnOk members s' d conn := by
  refine ⟨?_, ?_, ?_⟩
  · intro c hopener
    obtain ⟨t, ht, hnext, hsent⟩ := h.relay c hopener
    obtain ⟨t', ht', hgrown⟩ := hgrows.tasks c t ht
    exact ⟨t', ht', hgrown.next d hnext, fun m hm => hgrown.done (hsent m hm)⟩
  · intro k hopener
    obtain ⟨o, ho, hconn, hsent⟩ := h.initiator k hopener
    obtain ⟨o', ho', hgrown⟩ := hgrows.openings k o ho
    refine ⟨o', ho', hgrown.conn d hconn, fun m hm => ?_⟩
    rw [hgrown.hops]
    exact hsent m hm
  · intro hserver m hm
    obtain ⟨t, status, ht, hstatus, hack⟩ := h.reply hserver m hm
    obtain ⟨t', ht', hgrown⟩ := hgrows.tasks d t ht
    exact ⟨t', status, ht', hstatus, hgrown.done hack⟩

lemma OpeningOk.mono {k : ℕ} {o : Opening I} (h : OpeningOk members s k o)
    (hgrows : s.Grows s') : OpeningOk members s' k o := by
  refine ⟨?_, ?_, ?_, h.target⟩
  · intro d hd
    obtain ⟨conn, first, hconn, hopener, hfirst, hnamed⟩ := h.conn d hd
    obtain ⟨conn', hconn', hgrown⟩ := hgrows.conns d conn hconn
    refine ⟨conn', first, hconn', hgrown.opener.trans hopener, hfirst, fun htls => ?_⟩
    rw [hgrown.server]
    exact hnamed htls
  · intro hsend
    obtain ⟨d, conn, hd, hconn, hsent⟩ := h.send hsend
    obtain ⟨conn', hconn', hgrown⟩ := hgrows.conns d conn hconn
    exact ⟨d, conn', hd, hconn', hgrown.sent _ hsent⟩
  · intro m hread
    obtain ⟨d, conn, hd, hconn, hreply⟩ := h.read m hread
    obtain ⟨conn', hconn', hgrown⟩ := hgrows.conns d conn hconn
    exact ⟨d, conn', hd, hconn', hgrown.reply _ hreply⟩

/-- What has not changed is as right as before. -/
lemma Ok.of_grows (h : Ok members s) (hgrows : s.Grows s')
    (htask : ∀ c t, s'.tasks c = some t → s.tasks c = some t ∨ TaskOk members s' c t)
    (hconn : ∀ d conn, s'.conns d = some conn → s.conns d = some conn ∨ ConnOk members s' d conn)
    (hopening : ∀ k o, s'.openings k = some o →
      s.openings k = some o ∨ OpeningOk members s' k o) : Ok members s' := by
  refine ⟨fun c t ht => ?_, fun d conn hd => ?_, fun k o ho => ?_⟩
  · rcases htask c t ht with hold | hok
    · exact (h.task c t hold).mono hgrows
    · exact hok
  · rcases hconn d conn hd with hold | hok
    · exact (h.conn d conn hold).mono hgrows
    · exact hok
  · rcases hopening k o ho with hold | hok
    · exact (h.opening k o hold).mono hgrows
    · exact hok

/-! ## What a relay does, as it learns of the world -/

/-- A dial is the beginning of a forwarding, whatever comes of it. -/
lemma handshake_of_dial {node : RelayNode} {peer : String} {frame : RadiiMessage} {world : World}
    {addr nodeId : String} (h : .dial addr nodeId ∈ handshake node peer frame world) :
    ∃ hop next rest, frame = .tunnelOpen (hop :: next :: rest) ∧ addr = next.addr ∧
      nodeId = next.nodeId ∧
      ∀ world, handshake node peer frame world = forward next (next :: rest) world := by
  cases frame with
  | tunnelOpen hops =>
      rw [handshake] at h
      cases href : localRefusal node peer hops with
      | some status => simp [href, refuse] at h
      | none =>
          rw [href] at h
          cases hops with
          | nil => simp [proceed] at h
          | cons hop tail =>
              have hmem : .dial addr nodeId ∈
                  handshake node peer (.tunnelOpen (hop :: tail)) world := by
                rw [handshake, href]
                exact h
              obtain ⟨next, hnext, haddr, hnode⟩ :=
                (handshake_actions node peer hop tail world).1 addr nodeId hmem
              obtain ⟨rest, rfl⟩ := List.head?_eq_some_iff.mp hnext
              refine ⟨hop, next, rest, rfl, haddr, hnode, fun world => ?_⟩
              rw [handshake, href]
              rfl
  | _ => simp [handshake, refuse] at h

lemma dial_notMem_tail {next : RouteHop} {tail : List RouteHop} {world : World}
    {addr nodeId : String} : .dial addr nodeId ∉ (forward next tail world).tail := by
  rw [forward, List.tail_cons]
  cases world.dialled with
  | false => simp [refuse]
  | true =>
      cases world.reply with
      | none => simp
      | some reply =>
          simp only [if_true, Option.map_some, Option.getD_some, relayReply]
          split_ifs <;> simp

/-- What is found at the end of a beginning, and not after the first, is the first. -/
lemma eq_nil_of_prefix {α : Type} {p l : List α} {x : α} (h : p ++ [x] <+: l) (hx : x ∉ l.tail) :
    p = [] := by
  cases p with
  | nil => rfl
  | cons y p =>
      cases l with
      | nil => simp at h
      | cons z l =>
          rw [List.cons_append, List.cons_prefix_cons] at h
          exact absurd (h.2.subset (by simp)) hx

/-- A relay dials before all else. -/
lemma Task.Next.dial {t : Task} {addr nodeId : String} (h : t.Next (.dial addr nodeId)) :
    t.done = [] ∧ ∃ next tail, addr = next.addr ∧ nodeId = next.nodeId ∧
      ∀ world, handshake t.node t.peer t.frame world = forward next tail world := by
  have hmem : .dial addr nodeId ∈ handshake t.node t.peer t.frame t.world := h.subset (by simp)
  obtain ⟨hop, next, rest, -, haddr, hnode, hforward⟩ := handshake_of_dial hmem
  refine ⟨?_, next, next :: rest, haddr, hnode, hforward⟩
  rw [Task.Next, Task.actions, hforward] at h
  exact eq_nil_of_prefix h dial_notMem_tail

/-- What it reads adds to what it does. -/
lemma handshake_heard (node : RelayNode) (peer : String) (frame m : RadiiMessage) :
    handshake node peer frame ⟨true, none⟩ <+: handshake node peer frame ⟨true, some m⟩ := by
  cases frame with
  | tunnelOpen hops =>
      rw [handshake, handshake]
      cases localRefusal node peer hops with
      | some status => exact List.prefix_refl _
      | none =>
          cases hops with
          | nil => exact List.prefix_refl _
          | cons hop tail =>
              cases tail with
              | nil => exact List.prefix_refl _
              | cons next rest =>
                  simp only [proceed, forward, if_true, Option.map_some, Option.getD_some,
                    Option.map_none, Option.getD_none]
                  rw [List.cons_prefix_cons, List.cons_prefix_cons]
                  exact ⟨rfl, rfl, List.nil_prefix⟩
  | _ => exact List.prefix_refl _

/-! ## One step -/

lemma State.grows_setConn {c : ℕ} {conn : Conn}
    (h : ∀ old, s.conns c = some old → old.Grows conn) : s.Grows (s.setConn c conn) :=
  ⟨.update Conn.Grows.refl h, .refl Task.Grows.refl _, .refl Opening.Grows.refl _⟩

lemma State.grows_setTask {c : ℕ} {t : Task} (h : ∀ old, s.tasks c = some old → old.Grows t) :
    s.Grows (s.setTask c t) :=
  ⟨.refl Conn.Grows.refl _, .update Task.Grows.refl h, .refl Opening.Grows.refl _⟩

lemma State.grows_setOpening {k : ℕ} {o : Opening I}
    (h : ∀ old, s.openings k = some old → old.Grows o) : s.Grows (s.setOpening k o) :=
  ⟨.refl Conn.Grows.refl _, .refl Task.Grows.refl _, .update Opening.Grows.refl h⟩

lemma State.grows_setConn_setTask {c d : ℕ} {conn : Conn} {t : Task}
    (hconn : ∀ old, s.conns d = some old → old.Grows conn)
    (htask : ∀ old, s.tasks c = some old → old.Grows t) :
    s.Grows ((s.setConn d conn).setTask c t) :=
  ⟨.update Conn.Grows.refl hconn, .update Task.Grows.refl htask, .refl Opening.Grows.refl _⟩

lemma State.grows_setConn_setOpening {d k : ℕ} {conn : Conn} {o : Opening I}
    (hconn : ∀ old, s.conns d = some old → old.Grows conn)
    (hopening : ∀ old, s.openings k = some old → old.Grows o) :
    s.Grows ((s.setConn d conn).setOpening k o) :=
  ⟨.update Conn.Grows.refl hconn, .refl Task.Grows.refl _, .update Opening.Grows.refl hopening⟩

/-- One more frame from the client. -/
lemma ConnOk.send {d : ℕ} {conn : Conn} {m : RadiiMessage} (h : ConnOk members s d conn)
    (hrelay : ∀ c, conn.opener = .relay c → ∀ t, s.tasks c = some t → .send m ∈ t.done)
    (hinitiator : ∀ k, conn.opener = .initiator k →
      ∀ o, s.openings k = some o → m = .tunnelOpen o.hops) : ConnOk members s d (conn.send m) := by
  have hsent : ∀ x, (conn.send m).sent = some x → conn.sent = some x ∨ x = m := by
    intro x hx
    rw [Conn.send] at hx
    cases hold : conn.sent with
    | some y => exact Or.inl (by simpa [hold] using hx)
    | none => exact Or.inr (by simpa [hold, eq_comm] using hx)
  refine ⟨?_, ?_, h.reply⟩
  · intro c hopener
    obtain ⟨t, ht, hnext, hold⟩ := h.relay c hopener
    refine ⟨t, ht, hnext, fun x hx => ?_⟩
    rcases hsent x hx with hx | rfl
    · exact hold x hx
    · exact hrelay c hopener t ht
  · intro k hopener
    obtain ⟨o, ho, hconn, hold⟩ := h.initiator k hopener
    refine ⟨o, ho, hconn, fun x hx => ?_⟩
    rcases hsent x hx with hx | rfl
    · exact hold x hx
    · exact hinitiator k hopener o ho

/-- One more frame from the server. -/
lemma ConnOk.answer {d : ℕ} {conn : Conn} {m : RadiiMessage} (h : ConnOk members s d conn)
    (hm : members.relay conn.server ≠ none →
      ∃ t status, s.tasks d = some t ∧ m = .ack status ∧ .ack status ∈ t.done) :
    ConnOk members s d (conn.answer m) := by
  refine ⟨h.relay, h.initiator, fun hserver x hx => ?_⟩
  rw [Conn.answer] at hx
  cases hold : conn.reply with
  | some y => exact h.reply hserver x (by simpa [hold] using hx)
  | none =>
      obtain rfl : m = x := by simpa [hold] using hx
      exact hm hserver

/-- The relay does something more that its client or nobody sees. -/
lemma TaskOk.does {c : ℕ} {t : Task} {action : RelayAction} (h : TaskOk members s c t)
    (hnext : t.Next action) (hsend : action.isSend = false) :
    TaskOk members s c (t.does action) := by
  refine ⟨h.handed, hnext, h.undialed, fun d hd => ?_⟩
  obtain ⟨hworld, conn, conn', hconn, hconn', hopener, hclient, ⟨addr, nodeId, hdial, hnamed⟩,
    hsent, hreply⟩ := h.dialed d hd
  refine ⟨hworld, conn, conn', hconn, hconn', hopener, hclient,
    ⟨addr, nodeId, List.mem_append_left _ hdial, hnamed⟩, fun hany => hsent ?_, hreply⟩
  simpa [Task.does, hsend] using hany

/-- One connection has changed. -/
lemma Ok.setConn (h : Ok members s) {d : ℕ} {conn : Conn}
    (hgrows : ∀ old, s.conns d = some old → old.Grows conn)
    (hok : ConnOk members (s.setConn d conn) d conn) : Ok members (s.setConn d conn) :=
  h.of_grows (s.grows_setConn hgrows) (fun _ _ ht => Or.inl ht) (eq_some_or_of_update hok)
    (fun _ _ ho => Or.inl ho)

lemma Ok.setTask (h : Ok members s) {c : ℕ} {t : Task}
    (hgrows : ∀ old, s.tasks c = some old → old.Grows t)
    (hok : TaskOk members (s.setTask c t) c t) : Ok members (s.setTask c t) :=
  h.of_grows (s.grows_setTask hgrows) (eq_some_or_of_update hok) (fun _ _ hd => Or.inl hd)
    (fun _ _ ho => Or.inl ho)

lemma Ok.setOpening (h : Ok members s) {k : ℕ} {o : Opening I}
    (hgrows : ∀ old, s.openings k = some old → old.Grows o)
    (hok : OpeningOk members (s.setOpening k o) k o) : Ok members (s.setOpening k o) :=
  h.of_grows (s.grows_setOpening hgrows) (fun _ _ ht => Or.inl ht) (fun _ _ hd => Or.inl hd)
    (eq_some_or_of_update hok)

/-- A connection has changed, and the relay at work on one. -/
lemma Ok.setConn_setTask (h : Ok members s) {c d : ℕ} {conn : Conn} {t : Task}
    (hconn : ∀ old, s.conns d = some old → old.Grows conn)
    (htask : ∀ old, s.tasks c = some old → old.Grows t)
    (hconnOk : ConnOk members ((s.setConn d conn).setTask c t) d conn)
    (htaskOk : TaskOk members ((s.setConn d conn).setTask c t) c t) :
    Ok members ((s.setConn d conn).setTask c t) :=
  h.of_grows (s.grows_setConn_setTask hconn htask) (eq_some_or_of_update htaskOk)
    (eq_some_or_of_update hconnOk) (fun _ _ ho => Or.inl ho)

lemma Ok.setConn_setOpening (h : Ok members s) {d k : ℕ} {conn : Conn} {o : Opening I}
    (hconn : ∀ old, s.conns d = some old → old.Grows conn)
    (hopening : ∀ old, s.openings k = some old → old.Grows o)
    (hconnOk : ConnOk members ((s.setConn d conn).setOpening k o) d conn)
    (hopeningOk : OpeningOk members ((s.setConn d conn).setOpening k o) k o) :
    Ok members ((s.setConn d conn).setOpening k o) :=
  h.of_grows (s.grows_setConn_setOpening hconn hopening) (fun _ _ ht => Or.inl ht)
    (eq_some_or_of_update hconnOk) (eq_some_or_of_update hopeningOk)

/-- The next hop is whoever holds a certificate for it. -/
lemma Ok.dials (hgenuine : members.Genuine) (h : Ok members s) {c d server : ℕ} {conn : Conn}
    {t : Task} {identity : I} {addr nodeId : String} {secured : BoxedStream Line}
    (htask : s.tasks c = some t) (hconn : s.conns c = some conn)
    (hnext : t.Next (.dial addr nodeId)) (hfree : s.conns d = none)
    (hdial : dialExpecting members.tls (fun _ => .ok ⟨d, server⟩) addr (some identity)
      (some nodeId) = .ok secured) :
    Ok members ((s.setConn d ⟨.relay c, conn.server, server, none, none⟩).setTask c
      { t.does (.dial addr nodeId) with world := ⟨true, none⟩, next := some d }) := by
  obtain ⟨hnone, next, tail, haddr, hnode, hforward⟩ := hnext.dial
  have hundialed : t.next = none := by
    cases hnext' : t.next with
    | none => rfl
    | some d' =>
        obtain ⟨-, _, _, -, -, -, -, ⟨addr', nodeId', hmem, -⟩, -⟩ :=
          (h.task c t htask).dialed d' hnext'
        rw [hnone] at hmem
        exact absurd hmem List.not_mem_nil
  have hconns : ∀ old, s.conns d = some old →
      old.Grows ⟨.relay c, conn.server, server, none, none⟩ := fun old hold => by
    rw [hfree] at hold
    exact absurd hold (by simp)
  have htasks : ∀ old, s.tasks c = some old → old.Grows
      { t.does (.dial addr nodeId) with world := ⟨true, none⟩, next := some d } := by
    intro old hold
    rw [htask, Option.some.injEq] at hold
    subst hold
    refine ⟨(t.grows_does _).done, fun d' hd' => ?_⟩
    rw [hundialed] at hd'
    exact absurd hd' (by simp)
  have hgrows := State.grows_setConn_setTask hconns htasks
  refine h.setConn_setTask hconns htasks ⟨?_, by simp, by simp⟩ ⟨?_, ?_, by simp, ?_⟩
  · rintro c' ⟨⟩
    exact ⟨_, Function.update_self .., rfl, by simp⟩
  · exact ((h.task c t htask).mono hgrows).handed
  · simp only [Task.does, hnone, List.nil_append, Task.actions, hforward]
    rw [haddr, hnode]
    exact List.cons_prefix_cons.mpr ⟨rfl, List.nil_prefix⟩
  · rintro d' ⟨⟩
    obtain ⟨conn', hconn', hgrown⟩ := hgrows.conns c conn hconn
    refine ⟨rfl, conn', _, hconn', Function.update_self .., rfl, hgrown.server.symm,
      ⟨addr, nodeId, List.mem_append_right _ (List.mem_singleton_self _), ?_⟩, ?_, by simp⟩
    · exact connectOn_named hgenuine hdial
    · simp [Task.does, hnone, RelayAction.isSend]

/-- What is handed on is what the relay is to hand on. -/
lemma Ok.sends (h : Ok members s) {c d : ℕ} {conn : Conn} {t : Task} {m : RadiiMessage}
    (htask : s.tasks c = some t) (hnext : t.Next (.send m)) (hdialed : t.next = some d)
    (hconn : s.conns d = some conn) :
    Ok members ((s.setConn d (conn.send m)).setTask c (t.does (.send m))) := by
  have hconns : ∀ old, s.conns d = some old → old.Grows (conn.send m) :=
    forall_eq_some hconn (conn.grows_send m)
  have htasks : ∀ old, s.tasks c = some old → old.Grows (t.does (.send m)) :=
    forall_eq_some htask (t.grows_does _)
  have hgrows := State.grows_setConn_setTask hconns htasks
  obtain ⟨-, -, conn', -, hconn', hopener, -⟩ := (h.task c t htask).dialed d hdialed
  rw [hconn, Option.some.injEq] at hconn'
  subst hconn'
  have hold := (h.task c t htask).mono hgrows
  refine h.setConn_setTask hconns htasks (((h.conn d conn hconn).mono hgrows).send ?_ ?_)
    ⟨hold.handed, hnext, hold.undialed, ?_⟩
  · intro c' hc' t' ht'
    rw [hopener, Opener.relay.injEq] at hc'
    subst hc'
    rw [State.tasks_setTask, Option.some.injEq] at ht'
    exact ht' ▸ List.mem_append_right _ (List.mem_singleton_self _)
  · intro k hk
    rw [hopener] at hk
    exact absurd hk (by simp)
  · intro d' hd'
    obtain ⟨hworld, conn₁, conn₂, hconn₁, hconn₂, hopener, hclient, ⟨addr, nodeId, hdial, hnamed⟩,
      -, hreply⟩ := hold.dialed d' hd'
    refine ⟨hworld, conn₁, conn₂, hconn₁, hconn₂, hopener, hclient,
      ⟨addr, nodeId, List.mem_append_left _ hdial, hnamed⟩, fun _ => ?_, hreply⟩
    obtain rfl : d = d' := by
      have hd' : t.next = some d' := hd'
      rwa [hdialed, Option.some.injEq] at hd'
    rw [State.conns_setTask, State.conns_setConn, Option.some.injEq] at hconn₂
    rw [← hconn₂, Conn.send]
    cases conn.sent with
    | some old => exact ⟨old, rfl⟩
    | none => exact ⟨m, rfl⟩

/-- What the relay reads is what the next hop has answered. -/
lemma Ok.hears (h : Ok members s) {c d : ℕ} {conn : Conn} {t : Task} {m : RadiiMessage}
    (htask : s.tasks c = some t) (hdialed : t.next = some d) (hconn : s.conns d = some conn)
    (hreply : conn.reply = some m) (hunheard : t.world.reply = none) :
    Ok members (s.setTask c { t with world := ⟨true, some m⟩ }) := by
  have htasks : ∀ old, s.tasks c = some old → old.Grows { t with world := ⟨true, some m⟩ } :=
    forall_eq_some htask ⟨List.Subset.refl _, fun _ hd => hd⟩
  have hold := (h.task c t htask).mono (s.grows_setTask htasks)
  have hworld : t.world = ⟨true, none⟩ := by
    have hdialled := (hold.dialed d hdialed).1
    rw [← hdialled, ← hunheard]
  refine h.setTask htasks ⟨hold.handed, ?_, ?_, ?_⟩
  · have hbegun := hold.begun
    rw [Task.actions, hworld] at hbegun
    exact hbegun.trans (handshake_heard t.node t.peer t.frame m)
  · intro hnone
    have hnone : t.next = none := hnone
    rw [hdialed] at hnone
    exact absurd hnone (by simp)
  · intro d' hd'
    obtain rfl : d = d' := by
      have hd' : t.next = some d' := hd'
      rwa [hdialed, Option.some.injEq] at hd'
    obtain ⟨-, conn₁, conn₂, hconn₁, hconn₂, hopener, hclient, hnamed, hsent, -⟩ :=
      hold.dialed d hdialed
    obtain rfl : conn = conn₂ := by
      have hconn₂ : s.conns d = some conn₂ := hconn₂
      rwa [hconn, Option.some.injEq] at hconn₂
    refine ⟨rfl, conn₁, conn, hconn₁, hconn₂, hopener, hclient, hnamed, hsent, ?_⟩
    rintro x ⟨rfl⟩
    exact hreply

/-- What a relay answers is what it is to answer. -/
lemma Ok.acks (h : Ok members s) {c : ℕ} {conn : Conn} {t : Task} {status : String}
    (htask : s.tasks c = some t) (hnext : t.Next (.ack status)) (hconn : s.conns c = some conn) :
    Ok members
      ((s.setConn c (conn.answer (.ack status))).setTask c (t.does (.ack status))) := by
  have hconns : ∀ old, s.conns c = some old → old.Grows (conn.answer (.ack status)) :=
    forall_eq_some hconn (conn.grows_answer _)
  have htasks : ∀ old, s.tasks c = some old → old.Grows (t.does (.ack status)) :=
    forall_eq_some htask (t.grows_does _)
  have hgrows := State.grows_setConn_setTask hconns htasks
  refine h.setConn_setTask hconns htasks (((h.conn c conn hconn).mono hgrows).answer ?_)
    (((h.task c t htask).mono hgrows).does hnext rfl)
  intro _
  exact ⟨_, status, Function.update_self .., rfl,
    List.mem_append_right _ (List.mem_singleton_self _)⟩

/-- The first hop is whoever holds a certificate for it. -/
lemma Ok.openDials (hgenuine : members.Genuine) (h : Ok members s) {k d server : ℕ}
    {o : Opening I} {first : RouteHop} {secured : BoxedStream Line}
    (hopening : s.openings k = some o) (hfirst : o.hops.head? = some first)
    (hundialed : o.conn = none) (hfree : s.conns d = none)
    (hdial : dialExpecting members.tls (fun _ => .ok ⟨d, server⟩) first.addr o.hopTls
      (some first.nodeId) = .ok secured) :
    Ok members ((s.setConn d ⟨.initiator k, o.party, server, none, none⟩).setOpening k
      { o with answers := { o.answers with dial := .ok () }, conn := some d }) := by
  have hold := h.opening k o hopening
  refine h.setConn_setOpening (fun old hold => absurd (hfree ▸ hold) (by simp))
    (forall_eq_some hopening ⟨rfl, fun d' hd' => absurd (hundialed ▸ hd') (by simp)⟩)
    ⟨by simp, ?_, by simp⟩ ⟨?_, ?_, ?_, hold.target⟩
  · rintro k' ⟨⟩
    exact ⟨_, State.openings_setOpening .., rfl, by simp⟩
  · rintro d' ⟨⟩
    refine ⟨_, first, State.conns_setConn .., rfl, hfirst, fun htls => ?_⟩
    obtain ⟨identity, hidentity⟩ := Option.isSome_iff_exists.mp htls
    have hidentity : o.hopTls = some identity := hidentity
    rw [hidentity] at hdial
    exact connectOn_named hgenuine hdial
  · intro hsend
    obtain ⟨d', -, hd', -⟩ := hold.send hsend
    exact absurd (hundialed ▸ hd') (by simp)
  · intro m hread
    obtain ⟨d', -, hd', -⟩ := hold.read m hread
    exact absurd (hundialed ▸ hd') (by simp)

/-- What an initiator sends is its candidate. -/
lemma Ok.openSends (h : Ok members s) {k d : ℕ} {o : Opening I} {conn : Conn}
    (hopening : s.openings k = some o) (hdialed : o.conn = some d)
    (hconn : s.conns d = some conn) :
    Ok members ((s.setConn d (conn.send (.tunnelOpen o.hops))).setOpening k
      { o with answers := { o.answers with send := .ok () } }) := by
  have hconns : ∀ old, s.conns d = some old → old.Grows (conn.send (.tunnelOpen o.hops)) :=
    forall_eq_some hconn (conn.grows_send _)
  have hopenings : ∀ old, s.openings k = some old →
      old.Grows { o with answers := { o.answers with send := .ok () } } :=
    forall_eq_some hopening ⟨rfl, fun _ hd => hd⟩
  have hgrows := State.grows_setConn_setOpening hconns hopenings
  have hold := (h.opening k o hopening).mono hgrows
  obtain ⟨conn', first, hconn', hopener, -⟩ := (h.opening k o hopening).conn d hdialed
  obtain rfl : conn = conn' := by rwa [hconn, Option.some.injEq] at hconn'
  have hsent : (conn.send (.tunnelOpen o.hops)).sent = some (.tunnelOpen o.hops) := by
    cases hsent : conn.sent with
    | none => rw [Conn.send, hsent]; rfl
    | some x =>
        obtain ⟨o', ho', -, hlist⟩ := (h.conn d conn hconn).initiator k hopener
        rw [hopening, Option.some.injEq] at ho'
        rw [Conn.send, hsent, hlist x hsent, ho']
        rfl
  refine h.setConn_setOpening hconns hopenings (((h.conn d conn hconn).mono hgrows).send ?_ ?_)
    ⟨hold.conn, fun _ => ⟨d, _, hdialed, State.conns_setConn .., hsent⟩, hold.read, hold.target⟩
  · simp [hopener]
  · intro k' hk' o' ho'
    rw [hopener, Opener.initiator.injEq] at hk'
    subst hk'
    rw [State.openings_setOpening, Option.some.injEq] at ho'
    rw [← ho']

/-- **One step** of anybody. -/
theorem Ok.step (hgenuine : members.Genuine) (h : Ok members s) (hstep : Step members s s') :
    Ok members s' := by
  cases hstep with
  | connects hfree =>
      exact h.setConn (fun old hold => absurd (hfree ▸ hold) (by simp))
        ⟨by simp, by simp, by simp⟩
  | @speaks c conn m hconn hopener =>
      have hgrows : ∀ old, s.conns c = some old → old.Grows (conn.send m) :=
        forall_eq_some hconn (conn.grows_send m)
      refine h.setConn hgrows (((h.conn c conn hconn).mono (s.grows_setConn hgrows)).send ?_ ?_)
      · simp [hopener]
      · simp [hopener]
  | @answers c conn m hconn hserver =>
      have hgrows : ∀ old, s.conns c = some old → old.Grows (conn.answer m) :=
        forall_eq_some hconn (conn.grows_answer m)
      exact h.setConn hgrows (((h.conn c conn hconn).mono (s.grows_setConn hgrows)).answer
        fun hrelay => absurd hserver hrelay)
  | @accepts c conn node identity peer frame secured hconn hrelay hfree hpeer hsent hread =>
      refine h.setTask (fun old hold => absurd (hfree ▸ hold) (by simp))
        ⟨⟨conn, hconn, hsent, acceptOn_named hgenuine hpeer, identity, hrelay⟩,
          List.nil_prefix, fun _ => rfl, by simp⟩
  | dials htask hconn hrelay hnext hfree hdial =>
      exact h.dials hgenuine htask hconn hnext hfree hdial
  | sends htask hnext hdialed hconn => exact h.sends htask hnext hdialed hconn
  | hears htask hsent hdialed hconn hreply hread hunheard =>
      exact h.hears htask hdialed hconn hreply hunheard
  | acks htask hnext hconn => exact h.acks htask hnext hconn
  | @acts c t action htask hnext hlocal =>
      have hgrows : ∀ old, s.tasks c = some old → old.Grows (t.does action) :=
        forall_eq_some htask (t.grows_does action)
      exact h.setTask hgrows
        (((h.task c t htask).mono (s.grows_setTask hgrows)).does hnext hlocal.1)
  | opens hfree =>
      exact h.setOpening (fun old hold => absurd (hfree ▸ hold) (by simp))
        ⟨by simp, by simp [unanswered], by simp [unanswered], by simp [unanswered]⟩
  | @openDials k d server o first secured hopening hfirst hundialed hfree hdial =>
      exact h.openDials hgenuine hopening hfirst hundialed hfree hdial
  | openSends hopening hdialed hconn => exact h.openSends hopening hdialed hconn
  | @openReads k d o conn m hopening hsent hdialed hconn hreply hread =>
      have hold := h.opening k o hopening
      refine h.setOpening (forall_eq_some hopening ⟨rfl, fun _ hd => hd⟩)
        ⟨hold.conn, hold.send, ?_, hold.target⟩
      rintro x ⟨rfl⟩
      exact ⟨d, conn, hdialed, hconn, hreply⟩
  | @openSecures k d farEnd o target secured hopening hready hdialed htarget hconnect =>
      have hold := h.opening k o hopening
      refine h.setOpening (forall_eq_some hopening ⟨rfl, fun _ hd => hd⟩)
        ⟨hold.conn, hold.send, hold.read, fun _ => ⟨farEnd, target, rfl, htarget, fun htls => ?_⟩⟩
      obtain ⟨identity, hidentity⟩ := Option.isSome_iff_exists.mp htls
      rw [hidentity] at hconnect
      exact connectOn_named hgenuine hconnect

lemma ok_initial : Ok members (State.initial : State I) :=
  ⟨fun _ _ h => absurd h (by simp [State.initial]), fun _ _ h => absurd h (by simp [State.initial]),
    fun _ _ h => absurd h (by simp [State.initial])⟩

/-- It holds in every run. -/
lemma ok_of_reached (hgenuine : members.Genuine) (hrun : Reached members s) : Ok members s := by
  induction hrun with
  | refl => exact ok_initial
  | tail _ hstep ih => exact ih.step hgenuine hstep

end Chains

end Radii
