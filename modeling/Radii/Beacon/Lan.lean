import Radii.Beacon.Sighting

/-!
# Beacons on one network

Any number of beacons on a network that loses datagrams, repeats them, holds them back and delivers
them to anyone.  A step of it is one call of `announce`, `announce_at` or `recv` of
`crates/beacon/src/lib.rs`, or time that passes.  What the socket gives to `recv` is up to the
network, strangers included; in a `Genuine` step it is a datagram that one of the beacons has sent,
from one of its addresses.

* `lan_sightings_true` — in every genuine run whoever is heard is one of the beacons, and is
  reached.
* `lan_found_both_ways` — in every run one announcement that gets through finds both ways.
-/

namespace Radii

open Net Wire Collections

namespace Beacon

/-- One destination's turn: what was sent before, the last failure before, and which turn it is. -/
def announceOne (b : Beacon) (port : UInt16) (sends : ℕ → Except SocketError Unit)
    (tried : List (SocketAddr × Bytes) × Option SocketError) (dest : Ipv4Addr × ℕ) :
    List (SocketAddr × Bytes) × Option SocketError :=
  match sends dest.2 with
  | .ok () => (tried.1 ++ [(.v4 dest.1 port, b.announce)], tried.2)
  | .error e => (tried.1, some e)

/-- `Beacon::announce`: what is sent, and how it ends. -/
def announceTo (b : Beacon) (port : UInt16) (dests : List Ipv4Addr)
    (sends : ℕ → Except SocketError Unit) :
    List (SocketAddr × Bytes) × Except SocketError Unit :=
  let tried := (0xffffffff :: dests).zipIdx.foldl (announceOne b port sends) ([], none)
  (tried.1, match tried.2 with
    | some e => if tried.1.isEmpty then .error e else .ok ()
    | none => .ok ())

/-- Everything that is sent is the announcement. -/
lemma contents_of_announceTo {b : Beacon} {port : UInt16} {dests : List Ipv4Addr}
    {sends : ℕ → Except SocketError Unit} :
    ∀ x ∈ (b.announceTo port dests sends).1, x.2 = b.announce := by
  have hfold : ∀ (turns : List (Ipv4Addr × ℕ)) tried, (∀ x ∈ tried.1, x.2 = b.announce) →
      ∀ x ∈ (turns.foldl (announceOne b port sends) tried).1, x.2 = b.announce := by
    intro turns
    induction turns with
    | nil => exact fun _ h => h
    | cons turn turns ih =>
        intro tried h
        refine ih _ ?_
        rw [announceOne]
        cases sends turn.2 with
        | error e => exact h
        | ok =>
            intro x hx
            rcases List.mem_append.mp hx with hx | hx
            · exact h x hx
            · rw [List.mem_singleton.mp hx]
  exact hfold _ _ (by simp)

end Beacon

/-! ## The network -/

/-- A datagram that a beacon has sent. -/
structure Datagram where
  sender : ℕ
  dest : SocketAddr
  contents : Bytes

structure Lan where
  clock : ℕ
  beacons : ℕ → Beacon
  /-- What each of them received, and what it sent for it. -/
  log : ℕ → List Beacon.Reception
  heard : ℕ → List Sighted
  sent : List Datagram

inductive LanEvent where
  | pass (time : ℕ)
  | announce (i : ℕ) (port : UInt16) (dests : List Ipv4Addr)
      (sends : ℕ → Except Beacon.SocketError Unit)
  | announceAt (i : ℕ) (dest : SocketAddr) (sends : Except Beacon.SocketError Unit)
  /-- What the socket gives to `recv`. -/
  | receive (i : ℕ) (got : Except Beacon.SocketError (SocketAddr × Bytes))

namespace Lan

def initial (beacons : ℕ → Beacon) : Lan := ⟨0, beacons, fun _ => [], fun _ => [], []⟩

def send (m : Lan) (i : ℕ) (datagrams : List (SocketAddr × Bytes)) : Lan :=
  { m with sent := m.sent ++ datagrams.map fun d => ⟨i, d.1, d.2⟩ }

/-- A beacon handles what has come. -/
def deliver (m : Lan) (i : ℕ) (d : Arrival) : Lan :=
  let r := (m.beacons i).receive (.ok d)
  { m with
    beacons := Function.update m.beacons i r.1
    log := Function.update m.log i (m.log i ++ [⟨d, r.2.1⟩])
    heard := Function.update m.heard i (m.heard i ++ ((m.beacons i).shows d).toList)
    sent := m.sent ++ r.2.1.toList.map fun d => ⟨i, d.1, d.2⟩ }

def next (m : Lan) : LanEvent → Lan
  | .pass time => { m with clock := m.clock + time }
  | .announce i port dests sends => m.send i ((m.beacons i).announceTo port dests sends).1
  | .announceAt i dest (.ok ()) => m.send i [(dest, (m.beacons i).announce)]
  | .announceAt _ _ (.error _) => m
  | .receive i (.ok (source, contents)) => m.deliver i ⟨m.clock, source, contents⟩
  | .receive _ (.error _) => m

/-- Any events that are `ok`, one after another. -/
def Run (ok : Lan → LanEvent → Prop) : Lan → Lan → Prop :=
  Relation.ReflTransGen fun m m' => ∃ e, ok m e ∧ m' = m.next e

/-- What comes was sent by a beacon, and comes from an address of it. -/
def Genuine (addrs : ℕ → IpAddr → Prop) (m : Lan) (e : LanEvent) : Prop :=
  ∀ i source contents, e = .receive i (.ok (source, contents)) →
    ∃ d ∈ m.sent, d.contents = contents ∧ addrs d.sender source.ip

end Lan

/-! ## Every run -/

def BeaconConfig.hello (config : BeaconConfig) : RadiiMessage :=
  .nodeHello config.nodeId config.roles config.listenAddrs

namespace Lan

/-- A beacon that was bound with this. -/
structure BoundTo (config : BeaconConfig) (b : Beacon) : Prop where
  self : b.nodeId = config.nodeId
  announce : Beacon.encode .announce config.hello = .ok b.announce
  answer : Beacon.encode .answer config.hello = .ok b.answer

lemma boundTo_of_bind {config : BeaconConfig} {b : Beacon} (h : Beacon.bind config = .ok b) :
    BoundTo config b := by
  rcases Beacon.answered_bind h with ⟨hself, -, hanswer⟩
  refine ⟨hself, ?_, hanswer⟩
  rw [Beacon.bind] at h
  cases hannounce : Beacon.encode .announce
      (.nodeHello config.nodeId config.roles config.listenAddrs) with
  | error e => simp [hannounce, Except.bind] at h
  | ok announce =>
      rw [hannounce, hanswer] at h
      simp only [Except.bind, Except.map, Except.ok.injEq] at h
      rw [← h]
      exact hannounce

/-- What every run keeps: each beacon is as it was bound, and answers as `Guarded` says. -/
structure Kept (config : ℕ → BeaconConfig) (m : Lan) : Prop where
  bound : ∀ i, BoundTo (config i) (m.beacons i)
  guarded : ∀ i, Beacon.Guarded (config i).nodeId ((m.log i).map Beacon.Reception.arrival)
    (m.beacons i) (m.log i)
  past : ∀ i, ∀ r ∈ m.log i, r.arrival.time ≤ m.clock

variable {config : ℕ → BeaconConfig} {addrs : ℕ → IpAddr → Prop} {m m' : Lan}
  {ok : Lan → LanEvent → Prop}

lemma nodeId_recv (b : Beacon) (d : Arrival) : (b.recv d).1.nodeId = b.nodeId ∧
    (b.recv d).1.announce = b.announce ∧ (b.recv d).1.answer = b.answer := by
  rcases b.recv_spec d with ⟨-, hstate, -⟩ | ⟨-, hstate, -⟩ <;> rw [hstate] <;>
    exact ⟨rfl, rfl, rfl⟩

lemma kept_initial {beacons : ℕ → Beacon} (hbind : ∀ i, Beacon.bind (config i) = .ok (beacons i)) :
    Kept config (initial beacons) := by
  refine ⟨fun i => boundTo_of_bind (hbind i), fun i => ?_,
    fun i r hr => absurd hr (by simp [initial])⟩
  rcases Beacon.answered_bind (hbind i) with ⟨hself, hfresh, -⟩
  rw [← hself]
  exact (beacons i).guarded_hearAll hfresh List.Pairwise.nil

lemma Kept.send (h : Kept config m) (i : ℕ) (datagrams : List (SocketAddr × Bytes)) :
    Kept config (m.send i datagrams) := ⟨h.bound, h.guarded, h.past⟩

lemma Kept.deliver (h : Kept config m) (i : ℕ) {d : Arrival} (hnow : d.time = m.clock) :
    Kept config (m.deliver i d) := by
  have hreceive := ((m.beacons i).receive_eq d).1
  refine ⟨?_, ?_, ?_⟩
  · intro j
    rw [Lan.deliver, hreceive]
    by_cases hj : j = i
    · subst hj
      rcases nodeId_recv (m.beacons j) d with ⟨hself, hannounce, hanswer⟩
      simp only [Function.update_self]
      exact ⟨hself.trans (h.bound j).self, hannounce ▸ (h.bound j).announce,
        hanswer ▸ (h.bound j).answer⟩
    · simp only [Function.update_of_ne hj]
      exact h.bound j
  · intro j
    rw [Lan.deliver, hreceive]
    by_cases hj : j = i
    · subst hj
      simp only [Function.update_self, List.map_append, List.map_cons, List.map_nil]
      refine (h.guarded j).hear (d := d) ?_
      intro earlier hearlier
      rcases List.mem_map.mp hearlier with ⟨r, hr, rfl⟩
      exact (h.past j r hr).trans_eq hnow.symm
    · simp only [Function.update_of_ne hj]
      exact h.guarded j
  · intro j r hr
    rw [Lan.deliver, hreceive] at hr
    by_cases hj : j = i
    · subst hj
      simp only [Function.update_self] at hr
      rcases List.mem_append.mp hr with hr | hr
      · exact h.past j r hr
      · rw [List.mem_singleton.mp hr]
        exact hnow.le
    · simp only [Function.update_of_ne hj] at hr
      exact h.past j r hr

lemma Kept.next (h : Kept config m) (e : LanEvent) : Kept config (m.next e) := by
  cases e with
  | pass time =>
      exact ⟨h.bound, h.guarded, fun i r hr => (h.past i r hr).trans (Nat.le_add_right _ _)⟩
  | announce i port dests sends => exact h.send i _
  | announceAt i dest sends =>
      cases sends with
      | ok => exact h.send i _
      | error e => exact h
  | receive i got =>
      cases got with
      | ok d => exact h.deliver i rfl
      | error e => exact h

/-- **Every run.** -/
theorem Kept.run (h : Kept config m) (hrun : Run ok m m') : Kept config m' := by
  induction hrun with
  | refl => exact h
  | tail _ hlast ih =>
      rcases hlast with ⟨e, -, rfl⟩
      exact ih.next e

/-! ## Who is heard -/

/-- A sighting of the beacon with this configuration, heard from an address of it. -/
structure ShowsBeacon (config : BeaconConfig) (addrs : IpAddr → Prop) (s : Sighted) : Prop where
  nodeId : s.nodeId = config.nodeId
  roles : s.roles = config.roles
  source : addrs s.source.ip
  reached : Beacon.Reached config.listenAddrs s.source.ip s

/-- An announcement was heard by this beacon, from this address. -/
def HeardAnnounce (m : Lan) (i : ℕ) (source : SocketAddr) : Prop :=
  ∃ s ∈ m.heard i, s.kind = .announce ∧ s.source = source

/-- A datagram is one of its sender's two, and if it is the answer an announcement was heard from
where it is sent. -/
def Sent (config : ℕ → BeaconConfig) (m : Lan) (d : Datagram) : Prop :=
  ∃ kind, Beacon.encode kind (config d.sender).hello = .ok d.contents ∧
    (kind = .answer → HeardAnnounce m d.sender d.dest)

/-- Whoever `i` heard is another beacon, and if it answered it had heard an announcement. -/
def Heard (config : ℕ → BeaconConfig) (addrs : ℕ → IpAddr → Prop) (m : Lan) (i : ℕ)
    (s : Sighted) : Prop :=
  ∃ j, (config j).nodeId ≠ (config i).nodeId ∧ ShowsBeacon (config j) (addrs j) s ∧
    (s.kind = .answer → ∃ source, HeardAnnounce m j source)

structure Truthful (config : ℕ → BeaconConfig) (addrs : ℕ → IpAddr → Prop) (m : Lan) : Prop where
  sent : ∀ d ∈ m.sent, Sent config m d
  heard : ∀ i, ∀ s ∈ m.heard i, Lan.Heard config addrs m i s

/-- What was heard stays heard. -/
lemma heard_next (m : Lan) (e : LanEvent) (i : ℕ) : m.heard i ⊆ (m.next e).heard i := by
  cases e with
  | receive j got =>
      cases got with
      | ok d =>
          intro s hs
          by_cases hij : i = j
          · subst hij
            simp only [next, Lan.deliver, Function.update_self]
            exact List.mem_append_left _ hs
          · simpa only [next, Lan.deliver, Function.update_of_ne hij] using hs
      | error e => exact fun s hs => hs
  | announceAt j dest sends => cases sends <;> exact fun s hs => hs
  | _ => exact fun s hs => hs

lemma HeardAnnounce.next {i : ℕ} {source : SocketAddr} (h : HeardAnnounce m i source)
    (e : LanEvent) : HeardAnnounce (m.next e) i source := by
  rcases h with ⟨s, hs, hkind, hsource⟩
  exact ⟨s, heard_next m e i hs, hkind, hsource⟩

lemma Sent.next {d : Datagram} (h : Sent config m d) (e : LanEvent) : Sent config (m.next e) d := by
  rcases h with ⟨kind, hencoded, hanswer⟩
  exact ⟨kind, hencoded, fun hkind => (hanswer hkind).next e⟩

lemma Heard.next {i : ℕ} {s : Sighted} (h : Lan.Heard config addrs m i s) (e : LanEvent) :
    Lan.Heard config addrs (m.next e) i s := by
  rcases h with ⟨j, hother, hshows, hanswer⟩
  refine ⟨j, hother, hshows, fun hkind => ?_⟩
  rcases hanswer hkind with ⟨source, hheard⟩
  exact ⟨source, hheard.next e⟩

lemma truthful_initial (beacons : ℕ → Beacon) : Truthful config addrs (initial beacons) :=
  ⟨fun d hd => absurd hd (by simp [initial]), fun i s hs => absurd hs (by simp [initial])⟩

/-- A step that hears nobody and sends what may be sent. -/
lemma Truthful.quiet (h : Truthful config addrs m) (e : LanEvent)
    (hheard : ∀ i, (m.next e).heard i = m.heard i)
    (hsent : ∀ d ∈ (m.next e).sent, d ∈ m.sent ∨ Sent config (m.next e) d) :
    Truthful config addrs (m.next e) := by
  refine ⟨?_, ?_⟩
  · intro d hd
    rcases hsent d hd with hold | hnew
    · exact (h.sent d hold).next e
    · exact hnew
  · intro i s hs
    rw [hheard] at hs
    exact (h.heard i s hs).next e

lemma sent_announce (h : Kept config m) (e : LanEvent) (i : ℕ) (dest : SocketAddr) :
    Sent config (m.next e) ⟨i, dest, (m.beacons i).announce⟩ :=
  ⟨.announce, (h.bound i).announce, fun hkind => absurd hkind (by decide)⟩

/-- Whom a genuine datagram shows. -/
lemma showsBeacon_of_shows {i j : ℕ} {d : Arrival} {kind : Kind}
    (hbound : BoundTo (config i) (m.beacons i))
    (hencoded : Beacon.encode kind (config j).hello = .ok d.contents)
    (hsource : addrs j d.source.ip) {s : Sighted} (hs : (m.beacons i).shows d = some s) :
    (config j).nodeId ≠ (config i).nodeId ∧ ShowsBeacon (config j) (addrs j) s ∧ s.kind = kind ∧
      s.source = d.source := by
  rcases Beacon.shows_eq_some.mp hs with ⟨kind', nodeId, roles, listenAddrs, hshows, hs'⟩
  have hcarries := hshows.carries
  rw [List.take_of_length_le (Beacon.encode_eq_ok.mp hencoded).2.2.2,
    Beacon.decode_encode hencoded, BeaconConfig.hello, Except.ok.injEq, Prod.mk.injEq,
    RadiiMessage.nodeHello.injEq] at hcarries
  rcases hcarries with ⟨rfl, rfl, rfl, rfl⟩
  subst hs'
  have hother : (config j).nodeId ≠ (config i).nodeId := hbound.self ▸ hshows.other
  exact ⟨hother, ⟨rfl, rfl, hsource, Beacon.reached_sighted hshows.near _ _ _ _⟩, rfl, rfl⟩

/-- What `i` does with a genuine datagram. -/
lemma Truthful.deliver (h : Truthful config addrs m) (hkept : Kept config m) (i : ℕ)
    {source : SocketAddr} {contents : Bytes}
    (hgenuine : ∃ d ∈ m.sent, d.contents = contents ∧ addrs d.sender source.ip) :
    Truthful config addrs (m.next (.receive i (.ok (source, contents)))) := by
  set e := LanEvent.receive i (.ok (source, contents)) with he
  rcases hgenuine with ⟨d, hd, rfl, haddr⟩
  rcases h.sent d hd with ⟨kind, hencoded, hanswered⟩
  refine ⟨?_, ?_⟩
  · intro x hx
    simp only [he, next, Lan.deliver, ((m.beacons i).receive_eq _).1] at hx
    rcases List.mem_append.mp hx with hold | hnew
    · exact (h.sent x hold).next e
    · -- the answer to an announcement, which was heard just now
      rcases List.mem_map.mp hnew with ⟨answer, hanswer, rfl⟩
      rw [Option.mem_toList] at hanswer
      rcases Beacon.sent_of_recv hanswer with ⟨hasks, rfl⟩
      rcases Beacon.shows_of_asks hasks with ⟨s, hs, hkind, hsource⟩
      refine ⟨.answer, (hkept.bound i).answer, fun _ => ⟨s, ?_, hkind, hsource⟩⟩
      simp only [he, next, Lan.deliver, Function.update_self]
      exact List.mem_append_right _ (Option.mem_toList.mpr hs)
  · intro k s hs
    by_cases hk : k = i
    · subst hk
      simp only [he, next, Lan.deliver, Function.update_self] at hs
      rcases List.mem_append.mp hs with hs | hs
      · exact (h.heard k s hs).next e
      · rw [Option.mem_toList] at hs
        rcases showsBeacon_of_shows (hkept.bound k) hencoded haddr hs with
          ⟨hother, hshows, hkind, -⟩
        refine ⟨d.sender, hother, hshows, fun hanswer => ?_⟩
        exact ⟨d.dest, (hanswered (hkind.symm.trans hanswer)).next e⟩
    · simp only [he, next, Lan.deliver, Function.update_of_ne hk] at hs
      exact (h.heard k s hs).next e

/-- Announcements to anywhere. -/
lemma Truthful.send (h : Truthful config addrs m) (hkept : Kept config m) (e : LanEvent) (i : ℕ)
    {datagrams : List (SocketAddr × Bytes)} (he : m.next e = m.send i datagrams)
    (hannounce : ∀ x ∈ datagrams, x.2 = (m.beacons i).announce) :
    Truthful config addrs (m.next e) := by
  refine h.quiet e (fun k => by rw [he]; rfl) ?_
  intro d hd
  rw [he] at hd
  rcases List.mem_append.mp hd with hold | hnew
  · exact Or.inl hold
  · rcases List.mem_map.mp hnew with ⟨x, hx, rfl⟩
    rw [hannounce x hx]
    exact Or.inr (sent_announce hkept e i x.1)

/-- **One step**, of any beacon or of none. -/
theorem Truthful.next (h : Truthful config addrs m) (hkept : Kept config m) {e : LanEvent}
    (hgenuine : Genuine addrs m e) : Truthful config addrs (m.next e) := by
  cases e with
  | pass time => exact h.quiet _ (fun _ => rfl) fun d hd => Or.inl hd
  | announce i port dests sends =>
      exact h.send hkept _ i rfl Beacon.contents_of_announceTo
  | announceAt i dest sends =>
      cases sends with
      | ok => exact h.send hkept _ i rfl (by simp)
      | error e => exact h.quiet _ (fun _ => rfl) fun d hd => Or.inl hd
  | receive i got =>
      cases got with
      | ok d => exact h.deliver hkept i (hgenuine i d.1 d.2 rfl)
      | error e => exact h.quiet _ (fun _ => rfl) fun d hd => Or.inl hd

lemma truthful_of_run {beacons : ℕ → Beacon} (hbind : ∀ i, Beacon.bind (config i) = .ok (beacons i))
    (hrun : Run (Genuine addrs) (initial beacons) m) :
    Kept config m ∧ Truthful config addrs m := by
  induction hrun with
  | refl => exact ⟨kept_initial hbind, truthful_initial beacons⟩
  | tail _ hlast ih =>
      rcases hlast with ⟨e, hgenuine, rfl⟩
      exact ⟨ih.1.next e, ih.2.next ih.1 hgenuine⟩

/-- Whom a datagram shows is heard when it comes. -/
lemma heard_deliver {i : ℕ} {d : Arrival} {s : Sighted} (h : (m.beacons i).shows d = some s) :
    s ∈ (m.deliver i d).heard i := by
  simp only [Lan.deliver, Function.update_self]
  exact List.mem_append_right _ (Option.mem_toList.mpr h)

/-- A datagram of `i` that comes to another beacon from the local network. -/
lemma shows_of_encode {i j : ℕ} {kind : Kind} {d : Arrival} (hkept : Kept config m)
    (hother : (config i).nodeId ≠ (config j).nodeId) (hnear : onLocalNetwork d.source.ip = true)
    (hencoded : Beacon.encode kind (config i).hello = .ok d.contents) :
    ∃ s, (m.beacons j).shows d = some s ∧ s.kind = kind ∧
      ShowsBeacon (config i) (· = d.source.ip) s := by
  have hcarries : Beacon.decode (d.contents.take Beacon.maxDatagram) =
      .ok (kind, .nodeHello (config i).nodeId (config i).roles (config i).listenAddrs) := by
    rw [List.take_of_length_le (Beacon.encode_eq_ok.mp hencoded).2.2.2]
    exact Beacon.decode_encode hencoded
  refine ⟨Beacon.sighted d kind _ _ _, Beacon.shows_eq_some.mpr ⟨kind, _, _, _,
    ⟨hnear, hcarries, (hkept.bound j).self ▸ hother⟩, rfl⟩, rfl, ?_⟩
  exact ⟨rfl, rfl, rfl, Beacon.reached_sighted hnear _ _ _ _⟩

/-- An announcement of `i` that comes to another beacon from the local network asks it. -/
lemma asks_of_encode {i j : ℕ} {d : Arrival} (hkept : Kept config m)
    (hother : (config i).nodeId ≠ (config j).nodeId) (hnear : onLocalNetwork d.source.ip = true)
    (hencoded : Beacon.encode .announce (config i).hello = .ok d.contents) :
    Beacon.Asks (config j).nodeId d := by
  obtain ⟨s, hs, hkind, -⟩ := shows_of_encode hkept hother hnear hencoded
  rcases Beacon.shows_eq_some.mp hs with ⟨kind, nodeId, roles, listenAddrs, hcarried, rfl⟩
  obtain rfl : kind = .announce := hkind
  exact ⟨hnear, nodeId, roles, listenAddrs, hcarried.carries,
    (hkept.bound j).self ▸ hcarried.other⟩

/-- An announcement that comes to `j` is answered, unless `j` may not. -/
lemma answered_or_unanswerable {j : ℕ} {d : Arrival} (hkept : Kept config m)
    (hnow : d.time = m.clock) (hasks : Beacon.Asks (config j).nodeId d) :
    Beacon.Unanswerable (m.log j) d ∨
      ⟨j, d.source, (m.beacons j).answer⟩ ∈ (m.deliver j d).sent := by
  have hlast : (m.deliver j d).log j = m.log j ++ [⟨d, ((m.beacons j).recv d).2.1⟩] := by
    simp only [Lan.deliver, Function.update_self, ((m.beacons j).receive_eq d).1]
  cases hsent : ((m.beacons j).recv d).2.1 with
  | none =>
      have hguarded := (hkept.deliver j hnow).guarded j
      rw [hsent] at hlast
      have hunanswerable := hguarded.silences (m.log j).length ⟨d, none⟩
        (by rw [hlast, List.getElem?_append_right (le_refl _)]; simp) hasks rfl
      rw [hlast, List.take_left] at hunanswerable
      exact Or.inl hunanswerable
  | some sent =>
      rcases Beacon.sent_of_recv hsent with ⟨-, rfl⟩
      refine Or.inr ?_
      simp only [Lan.deliver, ((m.beacons j).receive_eq d).1, hsent]
      exact List.mem_append_right _ (by simp)

/-- Two nodes, of which the first is a wave. -/
def pairConfig (i : ℕ) : BeaconConfig :=
  if i = 0 then ⟨"node-a", ["wave"], [⟨"0.0.0.0:50800", "wave"⟩]⟩ else ⟨"node-b", [], []⟩

lemma exists_pairBeacons :
    ∃ beacons : ℕ → Beacon, ∀ i, Beacon.bind (pairConfig i) = .ok (beacons i) := by
  have hbound : ∀ i, ∃ b, Beacon.bind (pairConfig i) = .ok b := by
    intro i
    have hok : ((Beacon.bind (pairConfig 0)).isOk && (Beacon.bind (pairConfig 1)).isOk) = true := by
      decide
    rw [Bool.and_eq_true] at hok
    have hi : pairConfig i = pairConfig 0 ∨ pairConfig i = pairConfig 1 := by
      rcases Nat.eq_zero_or_pos i with rfl | hpos
      · exact Or.inl rfl
      · exact Or.inr (by rw [pairConfig, pairConfig, if_neg (by omega), if_neg (by omega)])
    have hisOk : (Beacon.bind (pairConfig i)).isOk = true := by
      rcases hi with hi | hi
      · rw [hi]
        exact hok.1
      · rw [hi]
        exact hok.2
    cases hb : Beacon.bind (pairConfig i) with
    | error e => simp [hb, Except.isOk, Except.toBool] at hisOk
    | ok b => exact ⟨b, rfl⟩
  choose beacons hbeacons using hbound
  exact ⟨beacons, hbeacons⟩

/-- **Who is heard is there.**  In every run in which what comes was sent by the beacons, whatever
is lost, repeated, held back or misdelivered, each sighting is of another beacon, with the roles it
was bound with and its listeners where it is reached; and a beacon answers only those it has heard
an announcement from. -/
theorem lan_sightings_true {beacons : ℕ → Beacon}
    (hbind : ∀ i, Beacon.bind (config i) = .ok (beacons i))
    (hrun : Run (Genuine addrs) (initial beacons) m) :
    (∀ d ∈ m.sent, Sent config m d) ∧
    ∀ i, ∀ s ∈ m.heard i, ∃ j, (config j).nodeId ≠ (config i).nodeId ∧
      ShowsBeacon (config j) (addrs j) s ∧
        (s.kind = .answer → ∃ source, HeardAnnounce m j source) :=
  ⟨(truthful_of_run hbind hrun).2.sent, (truthful_of_run hbind hrun).2.heard⟩

/-- Each of the two has one address. -/
def pairAddrs (i : ℕ) (ip : IpAddr) : Prop := ip = .v4 (0xc0a80000 + i)

/-- What one of them has sent may come from its address. -/
lemma genuine_of_sent {i j : ℕ} {source dest : SocketAddr} {contents : Bytes}
    (haddr : pairAddrs j source.ip) (hsent : ⟨j, dest, contents⟩ ∈ m.sent) :
    Genuine pairAddrs m (.receive i (.ok (source, contents))) := by
  intro i' source' contents' heq
  simp only [LanEvent.receive.injEq, Except.ok.injEq, Prod.mk.injEq] at heq
  rcases heq with ⟨-, rfl, rfl⟩
  exact ⟨_, hsent, rfl, haddr⟩

/-- Nobody has been answered yet. -/
lemma not_unanswerable_nil (d : Arrival) : ¬ Beacon.Unanswerable [] d := by
  rintro (hhost | ⟨-, hfull⟩)
  · simp [Beacon.answeredSince, Beacon.grants, Throttle.recent] at hhost
  · simp [Beacon.answeredSince, Beacon.grants, Throttle.recent, answeredCap] at hfull

/-- The first one's announcement comes to the second, and the second's answer to the first. -/
theorem lan_sightings_true_pair : ∃ (beacons : ℕ → Beacon) (m : Lan) (s : Sighted),
    Run (Genuine pairAddrs) (initial beacons) m ∧ s ∈ m.heard 0 ∧ s.kind = .answer ∧
      ∃ j, (pairConfig j).nodeId ≠ "node-a" ∧ ShowsBeacon (pairConfig j) (pairAddrs j) s ∧
        ∃ source, HeardAnnounce m j source := by
  obtain ⟨beacons, hbind⟩ := exists_pairBeacons
  set first : SocketAddr := .v4 0xc0a80000 7101 with hfirst
  set second : SocketAddr := .v4 0xc0a80001 7101 with hsecond
  have hnear : onLocalNetwork first.ip = true ∧ onLocalNetwork second.ip = true := by decide
  have haddrs : pairAddrs 0 first.ip ∧ pairAddrs 1 second.ip := ⟨rfl, rfl⟩
  -- the announcement is sent, comes and is answered
  set announced := (initial beacons).next (.announceAt 0 second (.ok ())) with hannounced
  have hrun₁ : Run (Genuine pairAddrs) (initial beacons) announced :=
    Relation.ReflTransGen.single ⟨_, fun _ _ _ heq => by simp at heq, hannounced⟩
  have hkept₁ := (kept_initial hbind).run hrun₁
  set heard := announced.next (.receive 1 (.ok (first, (beacons 0).announce))) with hheard
  have hrun₂ : Run (Genuine pairAddrs) (initial beacons) heard := by
    have hsent : ⟨0, second, (beacons 0).announce⟩ ∈ announced.sent := by
      simp [hannounced, next, Lan.send, initial]
    exact hrun₁.tail ⟨_, genuine_of_sent haddrs.1 hsent, hheard⟩
  have hkept₂ := (kept_initial hbind).run hrun₂
  have hasks := asks_of_encode (d := ⟨0, first, (beacons 0).announce⟩) (j := 1) hkept₁ (by decide)
    hnear.1 (boundTo_of_bind (hbind 0)).announce
  have hanswer : ⟨1, first, (beacons 1).answer⟩ ∈ heard.sent :=
    (answered_or_unanswerable hkept₁ rfl hasks).resolve_left (not_unanswerable_nil _)
  -- the answer comes
  set answered := heard.next (.receive 0 (.ok (second, (beacons 1).answer))) with hanswered
  have hrun₃ : Run (Genuine pairAddrs) (initial beacons) answered :=
    hrun₂.tail ⟨_, genuine_of_sent haddrs.2 hanswer, hanswered⟩
  obtain ⟨s, hs, hkind, -⟩ := shows_of_encode (d := ⟨0, second, (beacons 1).answer⟩) (j := 0)
    hkept₂ (by decide) hnear.2 (boundTo_of_bind (hbind 1)).answer
  have hsighted : s ∈ answered.heard 0 := heard_deliver (m := heard) hs
  rcases (lan_sightings_true hbind hrun₃).2 0 s hsighted with ⟨j, hother, hshows, hannounce⟩
  exact ⟨beacons, answered, s, hrun₃, hsighted, hkind, j, hother, hshows, hannounce hkind⟩

/-! ## Finding one another -/

/-- An answer is answered with nothing. -/
lemma sent_of_answer {i j : ℕ} {d : Arrival} (hkept : Kept config m)
    (hcontents : d.contents = (m.beacons j).answer) : (m.deliver i d).sent = m.sent := by
  have hnone : ((m.beacons i).recv d).2.1 = none := by
    cases hsent : ((m.beacons i).recv d).2.1 with
    | none => rfl
    | some sent =>
        rcases Beacon.sent_of_recv hsent with ⟨⟨-, other, roles, listenAddrs, hcarries, -⟩, -⟩
        have hencoded := (hkept.bound j).answer
        rw [hcontents, List.take_of_length_le (Beacon.encode_eq_ok.mp hencoded).2.2.2,
          Beacon.decode_encode hencoded] at hcarries
        simp at hcarries
  simp [Lan.deliver, ((m.beacons i).receive_eq d).1, hnone]

lemma heard_run (hrun : Run ok m m') (i : ℕ) : m.heard i ⊆ m'.heard i := by
  induction hrun with
  | refl => exact fun s hs => hs
  | tail _ hlast ih =>
      rcases hlast with ⟨e, -, rfl⟩
      exact fun s hs => heard_next _ e i (ih hs)

/-- **One announcement that gets through finds both ways.**  In every run, when an announcement of
`i` comes to another beacon `j` from the local network, `j` hears of `i`; and unless it answered
that host within the last second, or has answered as many as it may, an answer is on its way to
where the announcement came from.  Whenever and however often that comes to `i`, it hears of `j`,
and sends nothing for it. -/
theorem lan_found_both_ways {beacons : ℕ → Beacon}
    (hbind : ∀ i, Beacon.bind (config i) = .ok (beacons i))
    (hrun : Run ok (initial beacons) m) {i j : ℕ}
    (hother : (config i).nodeId ≠ (config j).nodeId) {source : SocketAddr}
    (hnear : onLocalNetwork source.ip = true) :
    let heard := m.next (.receive j (.ok (source, (m.beacons i).announce)))
    (∃ s ∈ heard.heard j, s.kind = .announce ∧ ShowsBeacon (config i) (· = source.ip) s) ∧
    (Beacon.Unanswerable (m.log j) ⟨m.clock, source, (m.beacons i).announce⟩ ∨
      ∃ answer, ⟨j, source, answer⟩ ∈ heard.sent ∧
        ∀ later source', Run ok heard later → onLocalNetwork source'.ip = true →
          let answered := later.next (.receive i (.ok (source', answer)))
          (∃ s ∈ answered.heard i, s.kind = .answer ∧
            ShowsBeacon (config j) (· = source'.ip) s) ∧
          (∃ s ∈ answered.heard j, s.kind = .announce ∧
            ShowsBeacon (config i) (· = source.ip) s) ∧
          answered.sent = later.sent) := by
  intro heard
  have hkept := (kept_initial hbind).run hrun
  have hannounce := (hkept.bound i).announce
  set d : Arrival := ⟨m.clock, source, (m.beacons i).announce⟩ with hd
  obtain ⟨s, hs, hkind, hshows⟩ := shows_of_encode (d := d) hkept hother hnear hannounce
  have hheard : s ∈ heard.heard j := heard_deliver hs
  refine ⟨⟨s, hheard, hkind, hshows⟩, ?_⟩
  have hasks : Beacon.Asks (config j).nodeId d := asks_of_encode hkept hother hnear hannounce
  rcases answered_or_unanswerable hkept rfl hasks with hunanswerable | hsent
  · exact Or.inl hunanswerable
  · refine Or.inr ⟨(m.beacons j).answer, hsent, ?_⟩
    intro later source' hlater hnear' answered
    have hkeptHeard : Kept config heard := hkept.next _
    have hkeptLater : Kept config later := hkeptHeard.run hlater
    set d' : Arrival := ⟨later.clock, source', (m.beacons j).answer⟩
    obtain ⟨s', hs', hkind', hshows'⟩ :=
      shows_of_encode (d := d') hkeptLater hother.symm hnear' (hkept.bound j).answer
    refine ⟨⟨s', heard_deliver hs', hkind', hshows'⟩, ⟨s, ?_, hkind, hshows⟩, ?_⟩
    · exact heard_next later _ j (heard_run hlater j hheard)
    · have hanswer : d'.contents = (later.beacons j).answer := by
        have h := (hkeptLater.bound j).answer
        rw [(hkept.bound j).answer, Except.ok.injEq] at h
        exact h
      exact sent_of_answer hkeptLater hanswer

/-- Two that have found one another. -/
theorem lan_found_both_ways_pair : ∃ (beacons : ℕ → Beacon) (m : Lan),
    Run (fun _ _ => True) (initial beacons) m ∧
    (∃ s ∈ m.heard 0, s.kind = .answer ∧ ShowsBeacon (pairConfig 1) (· = .v4 0xc0a80001) s) ∧
    (∃ s ∈ m.heard 1, s.kind = .announce ∧ ShowsBeacon (pairConfig 0) (· = .v4 0xc0a80000) s) := by
  obtain ⟨beacons, hbind⟩ := exists_pairBeacons
  have hrun : Run (fun _ _ => True) (initial beacons) (initial beacons) :=
    Relation.ReflTransGen.refl
  have hnear : onLocalNetwork (SocketAddr.v4 0xc0a80000 7101).ip = true := by decide
  rcases lan_found_both_ways hbind hrun (i := 0) (j := 1) (by decide) hnear with
    ⟨-, hunanswerable | ⟨answer, -, hanswered⟩⟩
  · exact absurd hunanswerable (not_unanswerable_nil _)
  · rcases hanswered _ (.v4 0xc0a80001 7101) Relation.ReflTransGen.refl (by decide) with
      ⟨hfirst, hsecond, -⟩
    exact ⟨beacons, _, (hrun.tail ⟨_, trivial, rfl⟩).tail ⟨_, trivial, rfl⟩, hfirst, hsecond⟩

end Lan

end Radii
