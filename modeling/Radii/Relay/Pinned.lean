import Radii.Relay.Chains

/-!
# Where chains lead

Of any number of chains at once, among strangers:

* `chain_pinned` — where the list of an established chain has been, and who is at its end.
* `chains_apart` — no connection is part of two chains.
-/

namespace Radii

open Effects Tls

namespace Chains

variable {I : Type} {members : Members I} {s : State I}

/-! ## Where a list goes -/

/-- The relay on the one connection has gone on over the other. -/
def HandsOn (s : State I) (c d : ℕ) : Prop := ∃ t, s.tasks c = some t ∧ t.next = some d

/-- What is left of the list was sent on the connection, and it is to whoever holds a certificate
for the node that comes first. -/
def Handed (members : Members I) (s : State I) (hops : List RouteHop) (c : ℕ) : Prop :=
  ∃ conn hop, s.conns c = some conn ∧ conn.sent = some (.tunnelOpen hops) ∧
    hops.head? = some hop ∧ members.Named conn.server hop.nodeId

/-- The connection is to somebody who runs no relay. -/
def ToStranger (members : Members I) (s : State I) (c : ℕ) : Prop :=
  ∃ conn, s.conns c = some conn ∧ members.relay conn.server = none

/-- The connection is to a relay that admits its client, under the name the client holds a
certificate for. -/
def Admitted (members : Members I) (s : State I) (c : ℕ) : Prop :=
  ∃ conn t identity, s.conns c = some conn ∧ s.tasks c = some t ∧
    members.relay conn.server = some (t.node.config, identity) ∧
    members.Named conn.client t.peer ∧ admits t.node.config t.peer = true

/-- The connections a list has gone over, one after another: to the nodes it names, in order and
from each to the next, up to somebody who runs no relay or else to the last, which is connected to
its upstream. -/
structure Chain (members : Members I) (s : State I) (hops : List RouteHop) (path : List ℕ) :
    Prop where
  handed : ∀ i c, path[i]? = some c → Handed members s (hops.drop i) c
  goesOn : path.IsChain (HandsOn s)
  admitted : ∀ c ∈ path, ToStranger members s c ∨ Admitted members s c
  distinct : 2 ≤ path.length → (hops.map RouteHop.nodeId).Nodup
  ends : ∃ c, path.getLast? = some c ∧ (ToStranger members s c ∨
    path.length = hops.length ∧ ∃ t, s.tasks c = some t ∧ .connectUpstream true ∈ t.done)

/-- It ends with a stranger at once. -/
lemma chain_stranger {hops : List RouteHop} {c : ℕ} (hhanded : Handed members s hops c)
    (hstranger : ToStranger members s c) : Chain members s hops [c] := by
  refine ⟨?_, List.isChain_singleton c, ?_, by simp, c, rfl, Or.inl hstranger⟩
  · intro i c' hc'
    cases i with
    | zero =>
        obtain rfl : c = c' := by simpa using hc'
        exact hhanded
    | succ i => simp at hc'
  · intro c' hc'
    rw [List.mem_singleton.mp hc']
    exact Or.inl hstranger

/-- It goes on from a relay to the next. -/
lemma Chain.cons {hop : RouteHop} {hops : List RouteHop} {c d : ℕ} {path : List ℕ}
    (h : Chain members s hops path) (hhead : path.head? = some d) (hnext : HandsOn s c d)
    (hhanded : Handed members s (hop :: hops) c) (hadmitted : Admitted members s c)
    (hdistinct : ((hop :: hops).map RouteHop.nodeId).Nodup) :
    Chain members s (hop :: hops) (c :: path) := by
  obtain ⟨rest, rfl⟩ := List.head?_eq_some_iff.mp hhead
  obtain ⟨last, hlast, hends⟩ := h.ends
  refine ⟨?_, List.isChain_cons_cons.mpr ⟨hnext, h.goesOn⟩, ?_, fun _ => hdistinct, last, ?_, ?_⟩
  · intro i c' hc'
    cases i with
    | zero =>
        obtain rfl : c = c' := by simpa using hc'
        exact hhanded
    | succ i => exact h.handed i c' (by simpa using hc')
  · intro c' hc'
    rcases List.mem_cons.mp hc' with rfl | hc'
    · exact Or.inr hadmitted
    · exact h.admitted c' hc'
  · rw [List.getLast?_cons, hlast]
    rfl
  · rcases hends with hstranger | ⟨hlength, hconnected⟩
    · exact Or.inl hstranger
    · exact Or.inr ⟨by rw [List.length_cons, hlength, List.length_cons], hconnected⟩

/-- A relay that is ready has made its checks, and is where `proceed` has got it. -/
lemma Ok.ready (h : Ok members s) {c : ℕ} {conn : Conn} {hops : List RouteHop}
    (hconn : s.conns c = some conn) (hsent : conn.sent = some (.tunnelOpen hops))
    (hreply : conn.reply = some (.ack "tunnel_ready")) (hrelay : members.relay conn.server ≠ none) :
    ∃ t, s.tasks c = some t ∧ t.frame = .tunnelOpen hops ∧ Admitted members s c ∧
      (hops.map RouteHop.nodeId).Nodup ∧
      ∃ fault : Fault, t.done = fault.cut (proceed t.node hops t.world) ∧
        .ack "tunnel_ready" ∈ t.done := by
  obtain ⟨t, status, ht, hstatus, hmem⟩ := (h.conn c conn hconn).reply hrelay _ hreply
  rw [RadiiMessage.ack.injEq] at hstatus
  subst hstatus
  obtain ⟨conn', hconn', hframe, hpeer, identity, hidentity⟩ := (h.task c t ht).handed
  obtain rfl : conn = conn' := by rwa [hconn, Option.some.injEq] at hconn'
  have hframe : t.frame = .tunnelOpen hops := by
    rw [hsent, Option.some.injEq] at hframe
    exact hframe.symm
  have hcut : t.done = (Fault.stops t.done.length).cut
      (handshake t.node t.peer (.tunnelOpen hops) t.world) := by
    rw [← hframe]
    exact List.prefix_iff_eq_take.mp (h.task c t ht).begun
  have hnone := localRefusal_of_ready (hcut ▸ hmem)
  obtain ⟨hadmits, -, hvalid⟩ := localRefusal_eq_none.mp hnone
  refine ⟨t, ht, hframe, ⟨conn, t, identity, hconn, ht, hidentity, hpeer, hadmits⟩,
    (validate_eq_ok.mp hvalid).2.2, .stops t.done.length, ?_, hmem⟩
  rw [handshake, hnone] at hcut
  exact hcut

/-- **Readiness comes from the end of the list, or from a stranger.** -/
theorem Ok.chain (h : Ok members s) (hops : List RouteHop) : ∀ c conn, s.conns c = some conn →
    conn.sent = some (.tunnelOpen hops) → conn.reply = some (.ack "tunnel_ready") →
    (∃ hop, hops.head? = some hop ∧ members.Named conn.server hop.nodeId) →
      ∃ path, Chain members s hops path ∧ path.head? = some c := by
  induction hops with
  | nil => exact fun c conn _ _ _ ⟨hop, hhop, _⟩ => absurd hhop (by simp)
  | cons hop rest ih =>
      rintro c conn hconn hsent hreply ⟨first, hfirst, hnamed⟩
      have hhanded : Handed members s (hop :: rest) c := ⟨conn, first, hconn, hsent, hfirst, hnamed⟩
      by_cases hstranger : members.relay conn.server = none
      · exact ⟨[c], chain_stranger hhanded ⟨conn, hconn, hstranger⟩, rfl⟩
      obtain ⟨t, ht, hframe, hadmitted, hdistinct, fault, hdone, hmem⟩ :=
        h.ready hconn hsent hreply hstranger
      have hactions := handshake_actions t.node t.peer hop rest t.world
      have hbegun := (h.task c t ht).begun
      rw [Task.actions, hframe] at hbegun
      cases rest with
      | nil =>
          obtain ⟨-, after, hafter⟩ := terminate_ready (hdone ▸ hmem)
          refine ⟨[c], ⟨?_, List.isChain_singleton c, ?_, by simp, c, rfl, Or.inr ⟨rfl, t, ht, ?_⟩⟩,
            rfl⟩
          · intro i c' hc'
            cases i with
            | zero =>
                obtain rfl : c = c' := by simpa using hc'
                exact hhanded
            | succ i => simp at hc'
          · intro c' hc'
            rw [List.mem_singleton.mp hc']
            exact Or.inr hadmitted
          · have hdone : t.done = fault.cut (terminate t.node) := hdone
            rw [hdone, hafter]
            exact List.mem_cons_self
      | cons next rest =>
          have hdone : t.done = fault.cut (forward next (next :: rest) t.world) := hdone
          obtain ⟨hany, hdialled, hheard⟩ := forward_ready (hdone ▸ hmem)
          rw [← hdone] at hany
          cases hnext : t.next with
          | none =>
              rw [(h.task c t ht).undialed hnext] at hdialled
              exact absurd hdialled (by simp)
          | some d =>
              obtain ⟨-, conn₀, conn', -, hconn', hopener, -, ⟨addr, nodeId, hdial, hnamed'⟩, hsome,
                hanswered⟩ := (h.task c t ht).dialed d hnext
              obtain ⟨m, hm⟩ := hsome hany
              obtain ⟨t', ht', -, hsends⟩ := (h.conn d conn' hconn').relay c hopener
              obtain rfl : t = t' := by rwa [ht, Option.some.injEq] at ht'
              obtain ⟨-, rfl⟩ := hactions.2.1 m (hbegun.subset (hsends m hm))
              obtain ⟨x, hx, -, rfl⟩ := hactions.1 addr nodeId (hbegun.subset hdial)
              obtain ⟨path, hpath, hhead⟩ :=
                ih d conn' hconn' hm (hanswered _ hheard) ⟨x, hx, hnamed'⟩
              exact ⟨c :: path, hpath.cons hhead ⟨t, ht, hnext⟩ hhanded hadmitted hdistinct, rfl⟩

variable {R : Type}

/-- **An established chain leads where its list says.**  Addresses may lead to anybody, strangers
may do and say what they like, and any number of chains may be open at once.  Whenever an initiator
that dials under TLS has established a candidate, its list has gone over connections to the nodes it
names, in order and none twice, from each to the next by relays that admit the one before; and it
has gone all the way, to a relay connected to its upstream, unless it came to somebody who runs no
relay.  However it ended, the stream is with somebody who holds a certificate for the target, if the
initiator has an identity to ask for one. -/
theorem chain_pinned (hgenuine : members.Genuine) (hrun : Reached members s) {k : ℕ}
    {o : Opening I} (hopening : s.openings k = some o) (htls : o.hopTls.isSome) {stream : Stream}
    (hestablished : (Initiator.establish k o.hops o.answers :
      Traced (Action R) Failure Stream).result = .ok stream) :
    (∃ path, Chain members s o.hops path ∧ path.head? = o.conn) ∧
    (o.e2eTls.isSome → ∃ target farEnd, o.hops.getLast? = some target ∧ o.target = some farEnd ∧
      members.Named farEnd target.nodeId) := by
  have hok := ok_of_reached hgenuine hrun
  have hopeningOk := hok.opening k o hopening
  obtain ⟨-, -, -, hsend, hread, hconnect⟩ := Initiator.establish_result.mp hestablished
  constructor
  · obtain ⟨d, conn, hd, hconn, hsent⟩ := hopeningOk.send hsend
    obtain ⟨d', conn', hd', hconn', hreply⟩ := hopeningOk.read _ hread
    obtain rfl : d = d' := by rwa [hd, Option.some.injEq] at hd'
    obtain rfl : conn = conn' := by rwa [hconn, Option.some.injEq] at hconn'
    obtain ⟨conn', first, hconn', -, hfirst, hnamed⟩ := hopeningOk.conn d hd
    obtain rfl : conn = conn' := by rwa [hconn, Option.some.injEq] at hconn'
    rw [hd]
    exact hok.chain o.hops d conn hconn hsent hreply ⟨first, hfirst, hnamed htls⟩
  · intro he2e
    obtain ⟨farEnd, target, hfar, htarget, hnamed⟩ := hopeningOk.target hconnect
    exact ⟨target, farEnd, htarget, hfar, hnamed he2e⟩

/-! ## No two chains meet -/

/-- The connection is part of what an initiator has opened, directly or over relays. -/
def Belongs (s : State I) (k d : ℕ) : Prop :=
  ∃ o c, s.openings k = some o ∧ o.conn = some c ∧ Relation.ReflTransGen (HandsOn s) c d

/-- A connection that a relay has gone on over is that relay's. -/
lemma Ok.opener_of_handsOn (h : Ok members s) {c d : ℕ} (hnext : HandsOn s c d) :
    ∃ conn, s.conns d = some conn ∧ conn.opener = .relay c := by
  obtain ⟨t, ht, hd⟩ := hnext
  obtain ⟨-, -, conn', -, hconn', hopener, -⟩ := (h.task c t ht).dialed d hd
  exact ⟨conn', hconn', hopener⟩

/-- **No connection is part of two chains.**  However many are open, over the same relays or not,
and whatever else goes on, what one initiator has opened, over however many relays, none other has.
-/
theorem chains_apart (hgenuine : members.Genuine) (hrun : Reached members s) {k k' d : ℕ}
    (h : Belongs s k d) (h' : Belongs s k' d) : k = k' := by
  have hok := ok_of_reached hgenuine hrun
  have hroot : ∀ {k o c}, s.openings k = some o → o.conn = some c →
      ∃ conn, s.conns c = some conn ∧ conn.opener = .initiator k := by
    intro k o c ho hc
    obtain ⟨conn, -, hconn, hopener, -⟩ := (hok.opening k o ho).conn c hc
    exact ⟨conn, hconn, hopener⟩
  -- a connection has one opener, so the two ways to it are the same all the way back
  have hsame : ∀ {d conn conn'}, s.conns d = some conn → s.conns d = some conn' →
      conn.opener = conn'.opener := by
    intro d conn conn' hconn hconn'
    rw [hconn, Option.some.injEq] at hconn'
    rw [hconn']
  rcases h with ⟨o, c, ho, hc, hreach⟩
  rcases h' with ⟨o', c', ho', hc', hreach'⟩
  obtain ⟨first, hfirst, hfirstOpener⟩ := hroot ho hc
  obtain ⟨first', hfirst', hfirstOpener'⟩ := hroot ho' hc'
  induction hreach with
  | refl =>
      cases hreach' with
      | refl =>
          have heq := hsame hfirst hfirst'
          rw [hfirstOpener, hfirstOpener', Opener.initiator.injEq] at heq
          exact heq
      | tail _ hlast' =>
          obtain ⟨conn, hconn, hopener⟩ := hok.opener_of_handsOn hlast'
          have heq := hsame hfirst hconn
          rw [hfirstOpener, hopener] at heq
          exact absurd heq (by simp)
  | tail _ hlast ih =>
      obtain ⟨conn, hconn, hopener⟩ := hok.opener_of_handsOn hlast
      cases hreach' with
      | refl =>
          have heq := hsame hfirst' hconn
          rw [hfirstOpener', hopener] at heq
          exact absurd heq (by simp)
      | tail hbefore' hlast' =>
          obtain ⟨conn', hconn', hopener'⟩ := hok.opener_of_handsOn hlast'
          have heq := hsame hconn hconn'
          rw [hopener, hopener', Opener.relay.injEq] at heq
          exact ih (heq ▸ hbefore')

/-! ## Two relays in a row -/

/-- The parties 1 and 2 run the relays `a` and `b`; everybody shows the certificate that bears his
number. -/
def pair : Members ℕ where
  tls :=
    { isServerName := fun _ => true
      connect := fun _ _ line => .ok ⟨some [[UInt8.ofNat line.farEnd]]⟩
      accept := fun _ line => .ok ⟨some [[UInt8.ofNat line.farEnd]]⟩
      commonNames := fun cert =>
        some [some (if cert = [1] then "a" else if cert = [2] then "b" else "o")] }
  relay := fun party =>
    if party = 1 then some ({ nodeId := "a" }, 1)
    else if party = 2 then some ({ nodeId := "b" }, 2)
    else none
  holds := fun party leaf => leaf = [UInt8.ofNat party]

lemma genuine_pair : pair.Genuine := by
  constructor
  · rintro identity serverName line session leaf issuers ⟨⟩ ⟨⟩
    rfl
  · rintro identity line session leaf issuers ⟨⟩ ⟨⟩
    rfl

def pairHops : List RouteHop := [⟨"a", "a:1"⟩, ⟨"b", "b:1"⟩]

/-- Party 0 opens a chain to `b` over `a`. -/
lemma exists_pair : ∃ (s : State ℕ) (o : Opening ℕ), Reached pair s ∧ s.openings 0 = some o ∧
    o.hops = pairHops ∧ o.hopTls = some 0 ∧ o.conn = some 0 ∧ HandsOn s 0 1 ∧
    (Initiator.establish 0 o.hops o.answers : Traced (Action Unit) Failure Stream).result =
      .ok (.candidate 0) := by
  have h₁ := Relation.ReflTransGen.single
    (@Step.opens ℕ pair .initial 0 0 pairHops (some 0) (some 0) rfl)
  have h₂ := h₁.tail (@Step.openDials ℕ pair _ 0 0 1 _ _ _ rfl rfl rfl rfl rfl)
  have h₃ := h₂.tail (@Step.openSends ℕ pair _ 0 0 _ _ rfl rfl rfl)
  have h₄ := h₃.tail (@Step.accepts ℕ pair _ 0 _ ⟨{ nodeId := "a" }, "a", .default, true⟩ 1 "o"
    _ _ rfl rfl rfl rfl rfl (by decide))
  have h₅ := h₄.tail (@Step.dials ℕ pair _ 0 1 2 _ _ 1 "b:1" "b" _ rfl rfl rfl (by decide) rfl rfl)
  have h₆ := h₅.tail (@Step.sends ℕ pair _ 0 1 _ _ (.tunnelOpen [⟨"b", "b:1"⟩]) rfl (by decide)
    rfl rfl)
  have h₇ := h₆.tail (@Step.accepts ℕ pair _ 1 _ ⟨{ nodeId := "b" }, "b", .default, true⟩ 2 "a"
    _ _ rfl rfl rfl rfl rfl (by decide))
  have h₈ := h₇.tail (@Step.acts ℕ pair _ 1 _ (.connectUpstream true) rfl (by decide) (by decide))
  have h₉ := h₈.tail (@Step.acks ℕ pair _ 1 _ _ "tunnel_ready" rfl (by decide) rfl)
  have h₁₀ := h₉.tail (@Step.hears ℕ pair _ 0 1 _ _ _ rfl rfl rfl rfl rfl (by decide) rfl)
  have h₁₁ := h₁₀.tail (@Step.acks ℕ pair _ 0 _ _ "tunnel_ready" rfl (by decide) rfl)
  have h₁₂ := h₁₁.tail (@Step.openReads ℕ pair _ 0 0 _ _ _ rfl rfl rfl rfl rfl (by decide))
  have h₁₃ := h₁₂.tail (@Step.openSecures ℕ pair _ 0 0 2 _ _ _ rfl rfl rfl rfl rfl)
  exact ⟨_, _, h₁₃, rfl, rfl, rfl, rfl, ⟨_, rfl, rfl⟩, rfl⟩

/-- Its list has gone over both. -/
theorem chain_pinned_pair : ∃ (s : State ℕ) (path : List ℕ), Reached pair s ∧
    Chain pair s pairHops path ∧ path.head? = some 0 := by
  obtain ⟨s, o, hrun, hopening, hhops, htls, hconn, -, hestablished⟩ := exists_pair
  obtain ⟨path, hpath, hhead⟩ :=
    (chain_pinned genuine_pair hrun hopening (by simp [htls]) hestablished).1
  exact ⟨s, path, hrun, hhops ▸ hpath, hhead.trans hconn⟩

/-- And the second connection is part of no other. -/
theorem chains_apart_pair : ∃ s : State ℕ, Reached pair s ∧ Belongs s 0 1 ∧
    ∀ k, Belongs s k 1 → k = 0 := by
  obtain ⟨s, o, hrun, hopening, -, -, hconn, hnext, -⟩ := exists_pair
  have hbelongs : Belongs s 0 1 := ⟨o, 0, hopening, hconn, Relation.ReflTransGen.single hnext⟩
  exact ⟨s, hrun, hbelongs, fun k hk => chains_apart genuine_pair hrun hk hbelongs⟩

end Chains

end Radii
