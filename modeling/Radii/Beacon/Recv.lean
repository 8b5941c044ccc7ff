import Radii.Beacon.Datagram
import Radii.Foundations.Throttle
import Radii.Proto.Address

/-!
# What a beacon answers

`on_local_network`, `Answered`, `Beacon::recv` and `Beacon::answer_to` of `crates/beacon/src/lib.rs`,
over any sequence of datagrams.  Times are in nanoseconds.  A source address is whatever the sender
wrote, so nothing is assumed of it.

* `recv_spec` — what one datagram does: it is asked about at the table, or changes nothing.
* `answers_limited` — what a whole sequence is answered with, and what goes unanswered.
* `answer_unanswered` — no beacon's answer is ever answered.
-/

namespace Radii

open Wire Net Collections

/-- Loopback, a private network, or link-local. -/
def onLocalNetwork : IpAddr → Bool
  | .v4 ip => isLoopback ip || isPrivate ip || isLinkLocal ip
  | .v6 ip =>
      match toIpv4Mapped ip with
      | some ip => isLoopback ip || isPrivate ip || isLinkLocal ip
      | none => false

/-- One second. -/
def answerGap : ℕ := 1000000000

def answeredCap : ℕ := 64

/-- Who a beacon says this node is. -/
structure BeaconConfig where
  nodeId : String
  roles : List String
  listenAddrs : List ListenAddr

structure Beacon where
  nodeId : String
  announce : Bytes
  answer : Bytes
  /-- Who has been answered lately, and when. -/
  answered : HashMap IpAddr ℕ

/-- A node heard on the network. -/
structure Sighting where
  nodeId : String
  roles : List String
  source : SocketAddr
  kind : Kind
  deriving DecidableEq, Repr

/-- A datagram that arrives at a time. -/
structure Arrival where
  time : ℕ
  source : SocketAddr
  contents : Bytes

namespace Beacon

/-- `Beacon::bind`, without the socket. -/
def bind (config : BeaconConfig) : Except DatagramError Beacon :=
  let hello := .nodeHello config.nodeId config.roles config.listenAddrs
  (encode .announce hello).bind fun announce =>
    (encode .answer hello).map fun answer => ⟨config.nodeId, announce, answer, ∅⟩

/-- Answers at `dest`, if its host may be answered; the second component is what is sent. -/
def answerTo (b : Beacon) (dest : SocketAddr) (now : ℕ) : Beacon × Option (SocketAddr × Bytes) :=
  let r := Throttle.allow answerGap answeredCap b.answered dest.ip now
  ({ b with answered := r.1 }, if r.2 then some (dest, b.answer) else none)

/-- `Beacon::recv`, on a datagram that has come: what is sent, and who was heard.  The buffer cuts
off what is beyond `maxDatagram`. -/
def recv (b : Beacon) (d : Arrival) : Beacon × Option (SocketAddr × Bytes) × Option Sighting :=
  if !onLocalNetwork d.source.ip then (b, none, none)
  else match decode (d.contents.take maxDatagram) with
    | .ok (kind, .nodeHello nodeId roles _) =>
        if nodeId = b.nodeId then (b, none, none)
        else
          let r := if kind = .announce then b.answerTo d.source d.time else (b, none)
          (r.1, r.2, some ⟨nodeId, roles, d.source, kind⟩)
    | _ => (b, none, none)

/-! ## One datagram -/

/-- The datagram asks the node for an answer: it comes from the local network and announces
another node. -/
def Asks (nodeId : String) (d : Arrival) : Prop :=
  onLocalNetwork d.source.ip = true ∧ ∃ other roles listenAddrs,
    decode (d.contents.take maxDatagram) = .ok (.announce, .nodeHello other roles listenAddrs) ∧
      other ≠ nodeId

/-- **What a datagram does**: the table is asked about its host, or nothing changes. -/
theorem recv_spec (b : Beacon) (d : Arrival) :
    (Asks b.nodeId d ∧ (b.recv d).1 = (b.answerTo d.source d.time).1 ∧
      (b.recv d).2.1 = (b.answerTo d.source d.time).2) ∨
    (¬ Asks b.nodeId d ∧ (b.recv d).1 = b ∧ (b.recv d).2.1 = none) := by
  rw [recv]
  cases hlocal : onLocalNetwork d.source.ip with
  | false => exact Or.inr ⟨fun hasks => by simp [hasks.1] at hlocal, rfl, rfl⟩
  | true =>
      simp only [Bool.not_true, Bool.false_eq_true, if_false]
      cases hdecode : decode (d.contents.take maxDatagram) with
      | error e =>
          refine Or.inr ⟨?_, rfl, rfl⟩
          rintro ⟨-, other, roles, listenAddrs, hok, -⟩
          simp [hdecode] at hok
      | ok read =>
          rcases read with ⟨kind, hello⟩
          cases hello with
          | nodeHello nodeId roles listenAddrs =>
              simp only
              by_cases hself : nodeId = b.nodeId
              · refine Or.inr ⟨?_, by rw [if_pos hself], by rw [if_pos hself]⟩
                rintro ⟨-, other, roles', listenAddrs', hok, hother⟩
                simp only [hdecode, Except.ok.injEq, Prod.mk.injEq,
                  RadiiMessage.nodeHello.injEq] at hok
                exact hother (hok.2.1 ▸ hself)
              · rw [if_neg hself]
                cases kind with
                | announce =>
                    exact Or.inl ⟨⟨hlocal, nodeId, roles, listenAddrs, hdecode, hself⟩, rfl, rfl⟩
                | answer =>
                    refine Or.inr ⟨?_, rfl, rfl⟩
                    rintro ⟨-, other, roles', listenAddrs', hok, -⟩
                    simp [hdecode] at hok
          | _ =>
              refine Or.inr ⟨?_, rfl, rfl⟩
              rintro ⟨-, other, roles', listenAddrs', hok, -⟩
              simp [hdecode] at hok

/-! ## Sequences of datagrams -/

/-- A datagram and what was sent for it. -/
structure Reception where
  arrival : Arrival
  sent : Option (SocketAddr × Bytes)

/-- One datagram's turn. -/
def hear (heard : Beacon × List Reception) (d : Arrival) : Beacon × List Reception :=
  ((heard.1.recv d).1, heard.2 ++ [⟨d, (heard.1.recv d).2.1⟩])

/-- The datagrams are handled one after the other. -/
def hearAll (b : Beacon) (arrivals : List Arrival) : Beacon × List Reception :=
  arrivals.foldl hear (b, [])

/-- The hosts that were answered, and when. -/
def grants (log : List Reception) : List (IpAddr × ℕ) :=
  log.filterMap fun x => x.sent.map fun sent => (sent.1.ip, x.arrival.time)

/-- The answers sent in the window of length `answerGap` that begins at `start`. -/
def answersDuring (start : ℕ) (log : List Reception) : List (IpAddr × ℕ) :=
  Throttle.during answerGap start (grants log)

/-- The hosts answered less than `answerGap` before `now`. -/
def answeredSince (now : ℕ) (log : List Reception) : List IpAddr :=
  (Throttle.recent answerGap now (grants log)).map Prod.fst

/-- Why an announcement may go unanswered, given what was handled before it. -/
def Unanswerable (before : List Reception) (d : Arrival) : Prop :=
  d.source.ip ∈ answeredSince d.time before ∨
    (answeredSince d.time before).Nodup ∧ answeredCap ≤ (answeredSince d.time before).length

/-- What holds after any datagrams. -/
structure Guarded (nodeId : String) (arrivals : List Arrival) (b : Beacon)
    (log : List Reception) : Prop where
  self : b.nodeId = nodeId
  handled : log.map Reception.arrival = arrivals
  /-- The table was last asked at some time before now. -/
  tracks : ∃ last, (∀ now, (∀ d ∈ arrivals, d.time ≤ now) → last ≤ now) ∧
    Throttle.Tracks answerGap b.answered (grants log) last
  spaced : Throttle.Spaced answerGap answeredCap (grants log)
  answers : ∀ x ∈ log, ∀ sent ∈ x.sent, sent.1 = x.arrival.source ∧ Asks nodeId x.arrival
  silences : ∀ i x, log[i]? = some x → Asks nodeId x.arrival → x.sent = none →
    Unanswerable (log.take i) x.arrival

lemma hearAll_concat (b : Beacon) (arrivals : List Arrival) (d : Arrival) :
    b.hearAll (arrivals ++ [d]) = hear (b.hearAll arrivals) d := by
  rw [hearAll, List.foldl_append]
  rfl

lemma grants_concat (log : List Reception) (x : Reception) :
    grants (log ++ [x]) =
      grants log ++ (x.sent.map fun sent => (sent.1.ip, x.arrival.time)).toList := by
  rw [grants, List.filterMap_append]
  cases hsent : x.sent <;> simp [hsent, grants]

/-- What holds of every prefix of a log and what comes after it, one more step on. -/
lemma forall_concat {α : Type} {P : List α → α → Prop} {log : List α} {last : α}
    (h : ∀ i x, log[i]? = some x → P (log.take i) x) (hlast : P log last) :
    ∀ i x, (log ++ [last])[i]? = some x → P ((log ++ [last]).take i) x := by
  intro i x hx
  rcases lt_trichotomy i log.length with hlt | rfl | hgt
  · rw [List.getElem?_append_left hlt] at hx
    rw [List.take_append_of_le_length hlt.le]
    exact h i x hx
  · rw [List.getElem?_append_right (le_refl _), Nat.sub_self] at hx
    rw [List.take_left]
    simp only [List.getElem?_cons_zero, Option.some.injEq] at hx
    exact hx ▸ hlast
  · rw [List.getElem?_eq_none (by simpa using hgt)] at hx
    simp at hx

lemma Guarded.concat {nodeId : String} {arrivals : List Arrival} {b b' : Beacon}
    {log : List Reception} (h : Guarded nodeId arrivals b log) {x : Reception}
    (hself : b'.nodeId = b.nodeId)
    (htracks : ∃ last, (∀ now, (∀ d ∈ arrivals ++ [x.arrival], d.time ≤ now) → last ≤ now) ∧
      Throttle.Tracks answerGap b'.answered (grants (log ++ [x])) last)
    (hspaced : Throttle.Spaced answerGap answeredCap (grants (log ++ [x])))
    (hanswer : ∀ sent ∈ x.sent, sent.1 = x.arrival.source ∧ Asks nodeId x.arrival)
    (hsilence : Asks nodeId x.arrival → x.sent = none → Unanswerable log x.arrival) :
    Guarded nodeId (arrivals ++ [x.arrival]) b' (log ++ [x]) := by
  refine ⟨hself.trans h.self, ?_, htracks, hspaced, ?_, ?_⟩
  · rw [List.map_append, h.handled]
    rfl
  · intro y hy
    rcases List.mem_append.mp hy with hy | hy
    · exact h.answers y hy
    · rw [List.mem_singleton.mp hy]
      exact hanswer
  · exact forall_concat (P := fun before y => Asks nodeId y.arrival → y.sent = none →
      Unanswerable before y.arrival) h.silences hsilence

/-- A datagram for which nothing is sent. -/
lemma Guarded.silent {nodeId : String} {arrivals : List Arrival} {b b' : Beacon}
    {log : List Reception} (h : Guarded nodeId arrivals b log) {d : Arrival}
    (hself : b'.nodeId = b.nodeId)
    (htracks : ∃ last, (∀ now, (∀ e ∈ arrivals ++ [d], e.time ≤ now) → last ≤ now) ∧
      Throttle.Tracks answerGap b'.answered (grants log) last)
    (hsilence : Asks nodeId d → Unanswerable log d) :
    Guarded nodeId (arrivals ++ [d]) b' (log ++ [⟨d, none⟩]) := by
  have hgrants : grants (log ++ [⟨d, none⟩]) = grants log := by
    rw [grants_concat, Option.map_none, Option.toList_none, List.append_nil]
  refine h.concat (x := ⟨d, none⟩) hself ?_ ?_ ?_ fun hasks _ => hsilence hasks
  · rw [hgrants]
    exact htracks
  · rw [hgrants]
    exact h.spaced
  · intro sent hmem
    exact absurd hmem (by simp)

/-- **One datagram more.** -/
theorem Guarded.hear {nodeId : String} {arrivals : List Arrival} {b : Beacon}
    {log : List Reception} (h : Guarded nodeId arrivals b log) {d : Arrival}
    (hlater : ∀ earlier ∈ arrivals, earlier.time ≤ d.time) :
    Guarded nodeId (arrivals ++ [d]) (Beacon.hear (b, log) d).1 (Beacon.hear (b, log) d).2 := by
  rcases h.tracks with ⟨last, hlast, htracks⟩
  have hd : ∀ now, (∀ e ∈ arrivals ++ [d], e.time ≤ now) → d.time ≤ now := fun now hnow =>
    hnow d (List.mem_append_right _ (List.mem_singleton_self d))
  rw [Beacon.hear]
  rcases h.self ▸ b.recv_spec d with ⟨hasks, hstate, hsent⟩ | ⟨hidle, hstate, hsent⟩
  · rw [hstate, hsent]
    rcases htracks.allow h.spaced (by decide) (hlast d.time hlater) d.source.ip with
      ⟨hallowed, htracks, hspaced⟩ | ⟨hrefused, htracks, hfull⟩
    · -- its host is answered
      have hanswer : (b.answerTo d.source d.time).2 = some (d.source, b.answer) := by
        rw [answerTo, hallowed]
        rfl
      rw [hanswer]
      have hgrants : grants (log ++ [⟨d, some (d.source, b.answer)⟩]) =
          grants log ++ [(d.source.ip, d.time)] := grants_concat _ _
      refine h.concat (x := ⟨d, some (d.source, b.answer)⟩) rfl ⟨d.time, hd, ?_⟩ ?_ ?_ ?_
      · rw [hgrants]
        exact htracks
      · rw [hgrants]
        exact hspaced
      · intro sent hmem
        exact ⟨(Option.mem_some_iff.mp hmem) ▸ rfl, hasks⟩
      · intro _ hnone
        exact absurd hnone (by simp)
    · have hanswer : (b.answerTo d.source d.time).2 = none := by
        rw [answerTo, hrefused]
        rfl
      rw [hanswer]
      refine h.silent rfl ⟨d.time, hd, htracks⟩ ?_
      intro _
      rcases hfull with hhost | hfull
      · exact Or.inl hhost
      · refine Or.inr ⟨htracks.nodup (le_refl _), ?_⟩
        rw [answeredSince, List.length_map]
        exact hfull
  · rw [hstate, hsent]
    refine h.silent rfl ⟨last, ?_, htracks⟩ fun hasks => absurd hasks hidle
    intro now hnow
    exact hlast now fun e he => hnow e (List.mem_append_left _ he)

/-- Any datagrams, one after the other. -/
theorem guarded_hearAll (b : Beacon) (hfresh : b.answered = ∅) {arrivals : List Arrival}
    (hsorted : arrivals.Pairwise fun earlier later => earlier.time ≤ later.time) :
    Guarded b.nodeId arrivals (b.hearAll arrivals).1 (b.hearAll arrivals).2 := by
  induction arrivals using List.reverseRecOn with
  | nil =>
      refine ⟨rfl, rfl, ⟨0, fun _ _ => Nat.zero_le _, ?_⟩, Throttle.spaced_nil, ?_, ?_⟩
      · show Throttle.Tracks answerGap b.answered [] 0
        rw [hfresh]
        exact Throttle.tracks_empty 0
      · exact fun x hx => absurd hx List.not_mem_nil
      · exact fun i x hx => absurd hx (by simp [hearAll])
  | append_singleton arrivals d ih =>
      rw [List.pairwise_append] at hsorted
      rw [hearAll_concat]
      exact (ih hsorted.1).hear fun earlier hearlier =>
        hsorted.2.2 earlier hearlier d (List.mem_singleton_self d)

/-! ## What a sequence is answered with -/

lemma answered_bind {config : BeaconConfig} {b : Beacon} (h : bind config = .ok b) :
    b.nodeId = config.nodeId ∧ b.answered = ∅ ∧
      encode .answer (.nodeHello config.nodeId config.roles config.listenAddrs) = .ok b.answer := by
  rw [bind] at h
  cases hannounce : encode .announce (.nodeHello config.nodeId config.roles config.listenAddrs) with
  | error e => simp [hannounce, Except.bind] at h
  | ok announce =>
      cases hanswer : encode .answer (.nodeHello config.nodeId config.roles config.listenAddrs) with
      | error e => simp [hannounce, hanswer, Except.bind, Except.map] at h
      | ok answer =>
          simp only [hannounce, hanswer, Except.bind, Except.map, Except.ok.injEq] at h
          subst h
          exact ⟨rfl, rfl, rfl⟩

/-- **A beacon neither reflects nor floods.**  Whatever arrives, an answer goes only to where an
announcement of another node came from, on the local network, one for each; no host is answered
twice and no more than `answeredCap` hosts are in any window of `answerGap`; and an announcement
goes unanswered only for that. -/
theorem answers_limited {config : BeaconConfig} {b : Beacon} (hbind : bind config = .ok b)
    (arrivals : List Arrival)
    (hsorted : arrivals.Pairwise fun earlier later => earlier.time ≤ later.time) :
    let log := (b.hearAll arrivals).2
    log.map Reception.arrival = arrivals ∧
    (∀ x ∈ log, ∀ sent ∈ x.sent, sent.1 = x.arrival.source ∧ Asks config.nodeId x.arrival) ∧
    (∀ start, ((answersDuring start log).map Prod.fst).Nodup ∧
      (answersDuring start log).length ≤ answeredCap) ∧
    (∀ i x, log[i]? = some x → Asks config.nodeId x.arrival → x.sent = none →
      Unanswerable (log.take i) x.arrival) := by
  rcases answered_bind hbind with ⟨hself, hfresh, -⟩
  have hguarded := b.guarded_hearAll hfresh hsorted
  rw [hself] at hguarded
  exact ⟨hguarded.handled, hguarded.answers,
    fun start => ⟨hguarded.spaced.single start, hguarded.spaced.few start⟩, hguarded.silences⟩

def lanConfig : BeaconConfig := ⟨"node-a", ["wave"], [⟨"0.0.0.0:50800", "wave"⟩]⟩

/-- Two announcements of one host within a second, from two of its ports. -/
def lanArrivals (announcement : Bytes) : List Arrival :=
  [⟨0, .v4 0xc0a80007 50800, announcement⟩, ⟨500000000, .v4 0xc0a80007 50801, announcement⟩]

/-- Of the two, only one is answered. -/
theorem answers_limited_lan : ∃ b announcement, bind lanConfig = .ok b ∧
    encode .announce (.nodeHello "node-b" [] []) = .ok announcement ∧
      ((answersDuring 0 (b.hearAll (lanArrivals announcement)).2).map Prod.fst).Nodup := by
  obtain ⟨b, hb⟩ : ∃ b, bind lanConfig = .ok b := by
    cases hb : bind lanConfig with
    | error e =>
        have hok : (bind lanConfig).isOk = true := by decide
        simp [hb, Except.isOk, Except.toBool] at hok
    | ok b => exact ⟨b, rfl⟩
  have hsorted : ∀ announcement, (lanArrivals announcement).Pairwise
      fun earlier later => earlier.time ≤ later.time := fun announcement =>
    List.pairwise_pair.mpr (Nat.zero_le 500000000)
  exact ⟨b, _, hb, encode_eq_ok.mpr ⟨rfl, by decide, rfl, by decide⟩,
    ((answers_limited hb _ (hsorted _)).2.2.1 0).1⟩

/-- **No loop.**  What a beacon answers with is never answered. -/
theorem answer_unanswered {config : BeaconConfig} {b : Beacon} (hbind : bind config = .ok b)
    (hearer : Beacon) (time : ℕ) (source : SocketAddr) :
    (hearer.recv ⟨time, source, b.answer⟩).2.1 = none := by
  rcases answered_bind hbind with ⟨-, -, hanswer⟩
  rcases hearer.recv_spec ⟨time, source, b.answer⟩ with ⟨hasks, -⟩ | ⟨-, -, hnone⟩
  · rcases hasks with ⟨-, other, roles, listenAddrs, hannounce, -⟩
    rw [List.take_of_length_le (encode_eq_ok.mp hanswer).2.2.2, decode_encode hanswer] at hannounce
    simp at hannounce
  · exact hnone

end Beacon

end Radii
