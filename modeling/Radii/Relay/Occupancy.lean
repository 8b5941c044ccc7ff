import Radii.Relay.Admission
import Radii.Relay.Idle

/-!
# Who holds a relay's slots

`run` and `handle` of `crates/fetch/src/relay.rs` with the time: a handshake that is not over when
its bound elapses is dropped, and a chain is spliced under its watchdog.  Times are in nanoseconds.

* `TimedStep.relaySteps` — with the time left out, these are the runs of the accounting.
* `slots_held_by_live` — a connection is refused only for others that are live.
-/

namespace Radii

open Collections Wire Splice

/-- The bounds of `[relay]`, in milliseconds. -/
structure RelayTimeouts where
  handshakeTimeoutMs : ℕ := 10000
  idleTimeoutMs : ℕ := 30000

namespace RelayTimeouts

def handshake (timeouts : RelayTimeouts) : ℕ := timeouts.handshakeTimeoutMs * 1000000

def idle (timeouts : RelayTimeouts) : ℕ := max timeouts.idleTimeoutMs 1 * 1000000

end RelayTimeouts

/-- Where a connection is: its handshake holds a permit once it was granted one, and has asked by
then. -/
inductive Stage (σ : Type) where
  | handshake (permit : Option String) (asked : Bool)
  | spliced (peer : String) (s : Splice σ)
  | ended (asked : Bool)

structure TimedConn (σ : Type) where
  addr : IpAddr
  acceptedAt : ℕ
  stage : Stage σ

structure TimedRelay (σ : Type) where
  now : ℕ
  live : Live
  conns : List (TimedConn σ)

namespace TimedConn

variable {σ : Type}

def isHandshake (c : TimedConn σ) : Bool :=
  match c.stage with
  | .handshake _ _ => true
  | _ => false

/-- The peer of the chain slot that the connection holds. -/
def permit (c : TimedConn σ) : Option String :=
  match c.stage with
  | .handshake permit _ => permit
  | .spliced peer _ => some peer
  | .ended _ => none

/-- The connection, as far as the accounting goes. -/
def toRelayConn (c : TimedConn σ) : RelayConn :=
  match c.stage with
  | .handshake permit asked => ⟨some c.addr, permit, asked⟩
  | .spliced peer _ => ⟨none, some peer, true⟩
  | .ended asked => ⟨none, none, asked⟩

/-- No bound of the connection elapses before `next`. -/
inductive Waits (timeouts : RelayTimeouts) (T : Side → Transport σ) (next : ℕ) :
    TimedConn σ → TimedConn σ → Prop where
  | handshake {addr acceptedAt permit asked} (hdue : next ≤ acceptedAt + timeouts.handshake) :
      Waits timeouts T next ⟨addr, acceptedAt, .handshake permit asked⟩
        ⟨addr, acceptedAt, .handshake permit asked⟩
  | spliced {addr acceptedAt peer s s'} (hpass : s.step T timeouts.idle (.pass next) = some s') :
      Waits timeouts T next ⟨addr, acceptedAt, .spliced peer s⟩ ⟨addr, acceptedAt, .spliced peer s'⟩
  | ended {addr acceptedAt asked} :
      Waits timeouts T next ⟨addr, acceptedAt, .ended asked⟩ ⟨addr, acceptedAt, .ended asked⟩

end TimedConn

namespace TimedRelay

variable {σ : Type}

def initial : TimedRelay σ := ⟨0, Live.default, []⟩

def toRelayState (s : TimedRelay σ) : RelayState := ⟨s.live, s.conns.map TimedConn.toRelayConn⟩

end TimedRelay

/-- What the end of a handshake gives back. -/
def dropHandshake (addr : IpAddr) (permit : Option String) (live : Live) : Live :=
  dropPendingPermit addr (permit.elim live fun peer => dropPermit peer live)

/-- One step of a relay.  Time does not pass a bound without what that brings, and nothing waits
after its chain has returned. -/
inductive TimedStep {σ : Type} (config : RelayConfig) (timeouts : RelayTimeouts)
    (T : Side → Transport σ) : TimedRelay σ → TimedRelay σ → Prop where
  | pass {now live conns conns'} (next : ℕ) (hlater : now ≤ next)
      (hwaits : List.Forall₂ (TimedConn.Waits timeouts T next) conns conns') :
      TimedStep config timeouts T ⟨now, live, conns⟩ ⟨next, live, conns'⟩
  | accept {now live conns} (addr : IpAddr) (hok : (acquirePending config addr live).2 = true) :
      TimedStep config timeouts T ⟨now, live, conns⟩
        ⟨now, (acquirePending config addr live).1, ⟨addr, now, .handshake none false⟩ :: conns⟩
  | close {now live conns} (addr : IpAddr) (hno : (acquirePending config addr live).2 = false) :
      TimedStep config timeouts T ⟨now, live, conns⟩
        ⟨now, (acquirePending config addr live).1, conns⟩
  | acquire {now live before after addr acceptedAt} (peer : String)
      (hadmits : admits config peer = true) (hok : (acquire config peer live).2 = true) :
      TimedStep config timeouts T
        ⟨now, live, before ++ ⟨addr, acceptedAt, .handshake none false⟩ :: after⟩
        ⟨now, (Radii.acquire config peer live).1,
          before ++ ⟨addr, acceptedAt, .handshake (some peer) true⟩ :: after⟩
  | busy {now live before after addr acceptedAt} (peer : String)
      (hadmits : admits config peer = true) (hno : (acquire config peer live).2 = false) :
      TimedStep config timeouts T
        ⟨now, live, before ++ ⟨addr, acceptedAt, .handshake none false⟩ :: after⟩
        ⟨now, (Radii.acquire config peer live).1,
          before ++ ⟨addr, acceptedAt, .handshake none true⟩ :: after⟩
  /-- The handshake is refused, fails or is dropped at its bound. -/
  | leave {now live before after addr acceptedAt permit asked} :
      TimedStep config timeouts T
        ⟨now, live, before ++ ⟨addr, acceptedAt, .handshake permit asked⟩ :: after⟩
        ⟨now, dropHandshake addr permit live, before ++ ⟨addr, acceptedAt, .ended asked⟩ :: after⟩
  /-- The chain is up. -/
  | splice {now live before after addr acceptedAt peer} (env : Side → σ) :
      TimedStep config timeouts T
        ⟨now, live, before ++ ⟨addr, acceptedAt, .handshake (some peer) true⟩ :: after⟩
        ⟨now, dropPendingPermit addr live,
          before ++ ⟨addr, acceptedAt, .spliced peer (.start timeouts.idle env now)⟩ :: after⟩
  | chain {now live before after addr acceptedAt peer s s'} (e : SpliceEvent σ)
      (he : ∀ next, e ≠ .pass next) (hstep : s.step T timeouts.idle e = some s') :
      TimedStep config timeouts T
        ⟨now, live, before ++ ⟨addr, acceptedAt, .spliced peer s⟩ :: after⟩
        ⟨now, live, before ++ ⟨addr, acceptedAt, .spliced peer s'⟩ :: after⟩
  /-- The chain has returned. -/
  | drop {now live before after addr acceptedAt peer s} (hreturned : s.outcome ≠ none) :
      TimedStep config timeouts T
        ⟨now, live, before ++ ⟨addr, acceptedAt, .spliced peer s⟩ :: after⟩
        ⟨now, Radii.dropPermit peer live, before ++ ⟨addr, acceptedAt, .ended true⟩ :: after⟩

/-- The states of a relay's timed runs. -/
def TimedReachable {σ : Type} (config : RelayConfig) (timeouts : RelayTimeouts)
    (T : Side → Transport σ) : TimedRelay σ → Prop :=
  Relation.ReflTransGen (TimedStep config timeouts T) .initial

/-! ## The accounting -/

section Accounting

variable {σ : Type} {config : RelayConfig} {timeouts : RelayTimeouts} {T : Side → Transport σ}
  {s s' : TimedRelay σ}

lemma toRelayConn_of_waits {next : ℕ} {conns conns' : List (TimedConn σ)}
    (h : List.Forall₂ (TimedConn.Waits timeouts T next) conns conns') :
    conns'.map TimedConn.toRelayConn = conns.map TimedConn.toRelayConn := by
  induction h with
  | nil => rfl
  | cons hwaits _ ih =>
      rw [List.map_cons, List.map_cons, ih]
      cases hwaits <;> rfl

/-- **With the time left out**, a step is none, one or two of the accounting's. -/
theorem TimedStep.relaySteps (hstep : TimedStep config timeouts T s s') :
    Relation.ReflTransGen (RelayStep config) s.toRelayState s'.toRelayState := by
  cases hstep with
  | pass next hlater hwaits =>
      rw [TimedRelay.toRelayState, TimedRelay.toRelayState, toRelayConn_of_waits hwaits]
  | accept addr hok => exact .single (.accept addr hok)
  | close addr hno => exact .single (.close addr hno)
  | acquire peer hadmits hok =>
      simp only [TimedRelay.toRelayState, List.map_append, List.map_cons]
      exact .single (.acquire peer hadmits hok)
  | busy peer hadmits hno =>
      simp only [TimedRelay.toRelayState, List.map_append, List.map_cons]
      exact .single (.busy peer hadmits hno)
  | @leave now live before after addr acceptedAt permit asked =>
      simp only [TimedRelay.toRelayState, List.map_append, List.map_cons]
      cases permit with
      | none => exact .single .dropPending
      | some peer => exact (Relation.ReflTransGen.single .dropPermit).tail .dropPending
  | splice env =>
      simp only [TimedRelay.toRelayState, List.map_append, List.map_cons]
      exact .single .dropPending
  | chain e he hstep =>
      simp only [TimedRelay.toRelayState, List.map_append, List.map_cons]
      exact .refl
  | drop hreturned =>
      simp only [TimedRelay.toRelayState, List.map_append, List.map_cons]
      exact .single .dropPermit

lemma reachable_of_timed (hreach : TimedReachable config timeouts T s) :
    RelayReachable config s.toRelayState := by
  induction hreach with
  | refl => exact Relation.ReflTransGen.refl
  | tail _ hstep ih => exact ih.trans hstep.relaySteps

end Accounting

/-! ## The time -/

namespace TimedConn

variable {σ : Type} {timeouts : RelayTimeouts} {T : Side → Transport σ} {now : ℕ}
  {c c' : TimedConn σ}

/-- A handshake within its bound, or a chain that has read a byte, or been spliced, within the idle
bound and a tick. -/
def Live (timeouts : RelayTimeouts) (now : ℕ) (c : TimedConn σ) : Prop :=
  match c.stage with
  | .handshake _ _ => now ≤ c.acceptedAt + timeouts.handshake
  | .spliced _ s => s.startedAt ≤ c.acceptedAt + timeouts.handshake ∧
      now ≤ s.reads.headD s.startedAt + timeouts.idle + tick timeouts.idle
  | .ended _ => False

/-- What holds of a connection at all times. -/
def OnTime (timeouts : RelayTimeouts) (now : ℕ) (c : TimedConn σ) : Prop :=
  c.acceptedAt ≤ now ∧
  match c.stage with
  | .handshake _ _ => now ≤ c.acceptedAt + timeouts.handshake
  | .spliced _ s => s.startedAt ≤ c.acceptedAt + timeouts.handshake ∧ s.now = now ∧
      s.Timed timeouts.idle
  | .ended _ => True

lemma OnTime.waits {next : ℕ} (h : c.OnTime timeouts now) (hlater : now ≤ next)
    (hwaits : Waits timeouts T next c c') : c'.OnTime timeouts next := by
  cases hwaits with
  | handshake hdue => exact ⟨h.1.trans hlater, hdue⟩
  | @spliced addr acceptedAt peer s s' hpass =>
      rcases h.2 with ⟨hstarted, -, htimed⟩
      refine ⟨h.1.trans hlater, (startedAt_of_step hpass).symm ▸ hstarted, ?_, htimed.step hpass⟩
      obtain ⟨-, ⟨at', he, -, -, rfl⟩ | ⟨he, -⟩ | ⟨he, -⟩ | ⟨_, _, _, he, -⟩⟩ := step_cases hpass
      · exact (SpliceEvent.pass.inj he).symm
      · simp at he
      · simp at he
      · simp at he
  | ended => exact ⟨h.1.trans hlater, trivial⟩

/-- Only time changes the clock of a chain. -/
lemma now_of_step {s s' : Splice σ} {idle : ℕ} {e : SpliceEvent σ} (he : ∀ next, e ≠ .pass next)
    (hstep : s.step T idle e = some s') : s'.now = s.now := by
  obtain ⟨-, ⟨next, hpass, -⟩ | ⟨-, -, -, rfl⟩ | ⟨-, -, -, rfl⟩ | ⟨side, ev, c, -, -, rfl⟩⟩ :=
    step_cases hstep
  · exact absurd hpass (he next)
  · rfl
  · rfl
  · cases ev with
    | write =>
        rw [stamp]
        split_ifs <;> cases side <;> rfl
    | _ => cases side <;> rfl

lemma OnTime.live (h : c.OnTime timeouts now) (hheld : c.isHandshake = true ∨ c.permit.isSome) :
    c.Live timeouts now := by
  rcases c with ⟨addr, acceptedAt, stage⟩
  cases stage with
  | handshake permit asked => exact h.2
  | spliced peer s =>
      rcases h.2 with ⟨hstarted, hnow, htimed⟩
      refine ⟨hstarted, ?_⟩
      show now ≤ _
      rw [← htimed.clock, ← hnow]
      exact htimed.now_le.trans htimed.wake_le
  | ended asked => simp [isHandshake, permit] at hheld

end TimedConn

section Time

variable {σ : Type} {config : RelayConfig} {timeouts : RelayTimeouts} {T : Side → Transport σ}
  {s s' : TimedRelay σ}

/-- No connection has outlived its bound. -/
def TimedRelay.OnTime (timeouts : RelayTimeouts) (s : TimedRelay σ) : Prop :=
  ∀ c ∈ s.conns, c.OnTime timeouts s.now

/-- What is passed on from each connection to what becomes of it. -/
lemma forall_of_forall₂ {α : Type} {R : α → α → Prop} {P Q : α → Prop} {l l' : List α}
    (himp : ∀ a b, R a b → P a → Q b) (h : List.Forall₂ R l l') (hl : ∀ a ∈ l, P a) :
    ∀ b ∈ l', Q b := by
  induction h with
  | nil => exact fun b hb => absurd hb List.not_mem_nil
  | cons hab _ ih =>
      intro b hb
      rcases List.mem_cons.mp hb with rfl | hb
      · exact himp _ _ hab (hl _ List.mem_cons_self)
      · exact ih (fun a ha => hl a (List.mem_cons_of_mem _ ha)) b hb

/-- One connection takes the place of another. -/
lemma forall_replace {P : TimedConn σ → Prop} {before after : List (TimedConn σ)}
    {old new : TimedConn σ} (h : ∀ c ∈ before ++ old :: after, P c) (hnew : P old → P new) :
    ∀ c ∈ before ++ new :: after, P c := by
  intro c hc
  rcases List.mem_append.mp hc with hc | hc
  · exact h c (List.mem_append_left _ hc)
  · rcases List.mem_cons.mp hc with rfl | hc
    · exact hnew (h old (by simp))
    · exact h c (by simp [hc])

theorem TimedRelay.OnTime.step (h : s.OnTime timeouts) (hstep : TimedStep config timeouts T s s') :
    s'.OnTime timeouts := by
  cases hstep with
  | pass next hlater hwaits =>
      exact forall_of_forall₂ (fun c c' hwait hold => hold.waits hlater hwait) hwaits h
  | accept addr hok =>
      intro c hc
      rcases List.mem_cons.mp hc with rfl | hc
      · exact ⟨le_rfl, Nat.le_add_right _ _⟩
      · exact h c hc
  | close addr hno => exact h
  | acquire peer hadmits hok => exact forall_replace h id
  | busy peer hadmits hno => exact forall_replace h id
  | leave => exact forall_replace h fun hold => ⟨hold.1, trivial⟩
  | splice env =>
      exact forall_replace h fun hold => ⟨hold.1, hold.2, rfl, timed_start _ _ _⟩
  | chain e he hstep =>
      refine forall_replace h ?_
      rintro ⟨haccepted, hstarted, hnow, htimed⟩
      exact ⟨haccepted, (startedAt_of_step hstep).symm ▸ hstarted,
        (TimedConn.now_of_step he hstep).trans hnow, htimed.step hstep⟩
  | drop hreturned => exact forall_replace h fun hold => ⟨hold.1, trivial⟩

lemma onTime_of_timed (hreach : TimedReachable config timeouts T s) : s.OnTime timeouts := by
  induction hreach with
  | refl => exact fun c hc => absurd hc List.not_mem_nil
  | tail _ hstep ih => exact ih.step hstep

/-! ## The slots -/

lemma pending_toRelayConn (c : TimedConn σ) :
    c.toRelayConn.pending = if c.isHandshake then some c.addr else none := by
  rcases c with ⟨addr, acceptedAt, stage⟩
  cases stage <;> rfl

lemma permit_toRelayConn (c : TimedConn σ) : c.toRelayConn.permit = c.permit := by
  rcases c with ⟨addr, acceptedAt, stage⟩
  cases stage <;> rfl

lemma pendings_toRelayState (s : TimedRelay σ) :
    s.toRelayState.pendings.length = s.conns.countP TimedConn.isHandshake ∧
    ∀ addr, s.toRelayState.pendings.count addr =
      s.conns.countP fun c => c.isHandshake && c.addr == addr := by
  rw [TimedRelay.toRelayState, RelayState.pendings]
  constructor
  · rw [List.length_filterMap_eq_countP, List.countP_map]
    refine List.countP_congr fun c _ => ?_
    cases hstage : c.isHandshake <;> simp [pending_toRelayConn, hstage]
  · intro addr
    rw [List.count_filterMap, List.countP_map]
    refine List.countP_congr fun c _ => ?_
    cases hstage : c.isHandshake <;> simp [pending_toRelayConn, hstage]

lemma permits_toRelayState (s : TimedRelay σ) :
    s.toRelayState.permits.length = s.conns.countP (fun c => c.permit.isSome) ∧
    ∀ peer, s.toRelayState.permits.count peer =
      s.conns.countP fun c => c.permit == some peer := by
  rw [TimedRelay.toRelayState, RelayState.permits]
  constructor
  · rw [List.length_filterMap_eq_countP, List.countP_map]
    exact List.countP_congr fun c _ => by simp [permit_toRelayConn]
  · intro peer
    rw [List.count_filterMap, List.countP_map]
    exact List.countP_congr fun c _ => by simp [permit_toRelayConn]

end Time

/-- **A relay refuses a connection only for others that are live.**  In every run, a connection is
closed before its handshake exactly when so many others are in theirs, in all or from its address,
and a chain is refused as busy exactly when so many others hold a slot, in all or for its peer; and
each of them is live: a handshake within its bound, or a chain that was spliced within it and has
read a byte, or been spliced, within the idle time and a tick of the watchdog. -/
theorem slots_held_by_live {σ : Type} (config : RelayConfig) (timeouts : RelayTimeouts)
    (T : Side → Transport σ) {s : TimedRelay σ} (hreach : TimedReachable config timeouts T s) :
    (∀ addr, (acquirePending config addr s.live).2 = false ↔
      config.maxPendingTotal ≤ s.conns.countP TimedConn.isHandshake ∨
      config.maxPendingPerAddr ≤ s.conns.countP fun c => c.isHandshake && c.addr == addr) ∧
    (∀ peer, (acquire config peer s.live).2 = false ↔
      config.maxConcurrentTotal ≤ s.conns.countP (fun c => c.permit.isSome) ∨
      config.maxConcurrentPerPeer ≤ s.conns.countP fun c => c.permit == some peer) ∧
    ∀ c ∈ s.conns, c.isHandshake = true ∨ c.permit.isSome → c.Live timeouts s.now := by
  have htallied := tallied_of_reachable (reachable_of_timed hreach)
  refine ⟨?_, ?_, fun c hc hheld => (onTime_of_timed hreach c hc).live hheld⟩
  · intro addr
    have hrefused := htallied.pending.refused addr
    rw [(pendings_toRelayState s).1, (pendings_toRelayState s).2 addr] at hrefused
    exact hrefused
  · intro peer
    have hrefused := htallied.chains.refused peer
    rw [(permits_toRelayState s).1, (permits_toRelayState s).2 peer] at hrefused
    exact hrefused

/-- A relay with one slot for handshakes and one for chains. -/
def oneSlot : RelayConfig := { nodeId := "n", maxPendingTotal := 1, maxConcurrentTotal := 1 }

/-- While one chain is spliced and another connection is in its handshake, a third is closed and
the second's chain is refused. -/
theorem slots_held_by_live_oneSlot : ∃ s : TimedRelay Unit,
    TimedReachable oneSlot {} (fun _ => trickle) s ∧
      s.conns.map TimedConn.permit = [none, some "p"] ∧
      (acquirePending oneSlot (.v4 7) s.live).2 = false ∧
      (acquire oneSlot "q" s.live).2 = false ∧
      ∀ c ∈ s.conns, c.isHandshake = true ∨ c.permit.isSome → c.Live {} s.now := by
  have haccepted : TimedReachable oneSlot {} (fun _ => trickle) _ :=
    Relation.ReflTransGen.single (.accept (.v4 5) (by decide))
  have hacquired := haccepted.tail
    (@TimedStep.acquire Unit oneSlot {} (fun _ => trickle) 0 _ [] [] (.v4 5) 0 "p" (by decide)
      (by decide))
  have hspliced := hacquired.tail
    (@TimedStep.splice Unit oneSlot {} (fun _ => trickle) 0 _ [] [] (.v4 5) 0 "p" fun _ => ())
  have hreach := hspliced.tail (TimedStep.accept (.v4 6) (by decide))
  rcases slots_held_by_live oneSlot {} (fun _ => trickle) hreach with ⟨hclosed, hbusy, hlive⟩
  exact ⟨_, hreach, rfl, (hclosed (.v4 7)).mpr (Or.inl (by decide)),
    (hbusy "q").mpr (Or.inl (by decide)), hlive⟩

end Radii
