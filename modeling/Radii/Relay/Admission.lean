import Radii.Foundations.Slots
import Radii.Proto.Address

/-!
# Admission to a relay

`crates/fetch/src/relay.rs`: `RelayRuntime`'s accounting of the connections that wait for their
handshake and of the chains that are carried, and the life of a connection as far as the accounting
goes.  Both tallies are `Slots`, one keyed by source address and one by authenticated peer.

`admission_exact_iff` says for which configurations the accounting is exact in every run: all but
those in which a request can reach a per-key cap of zero.
-/

namespace Radii

open Collections

/-- What `[relay]` configures, as far as admission and the handshake read it. -/
structure RelayConfig where
  nodeId : String
  maxHops : ℕ := 8
  maxConcurrentTotal : ℕ := 256
  maxConcurrentPerPeer : ℕ := 8
  maxPendingTotal : ℕ := 256
  maxPendingPerAddr : ℕ := 16
  /-- Empty: any peer holding a certificate of the configured CA. -/
  allowPeers : List String := []

/-- `Live`: chains (`total`, `per_peer`) and handshakes (`pending_total`, `pending_per_addr`). -/
structure Live where
  chains : Slots String
  pending : Slots IpAddr

def Live.default : Live := ⟨Slots.empty, Slots.empty⟩

def admits (config : RelayConfig) (peer : String) : Bool :=
  config.allowPeers.isEmpty || config.allowPeers.any fun id => id == peer

/-- Takes a handshake slot for a connection from `addr`, or refuses. -/
def acquirePending (config : RelayConfig) (addr : IpAddr) (live : Live) : Live × Bool :=
  let r := live.pending.acquire config.maxPendingTotal config.maxPendingPerAddr addr
  ({ live with pending := r.1 }, r.2)

/-- Takes a chain slot for `peer`, or refuses. -/
def acquire (config : RelayConfig) (peer : String) (live : Live) : Live × Bool :=
  let r := live.chains.acquire config.maxConcurrentTotal config.maxConcurrentPerPeer peer
  ({ live with chains := r.1 }, r.2)

/-- `Permit::drop`. -/
def dropPermit (peer : String) (live : Live) : Live :=
  { live with chains := live.chains.release peer }

/-- `PendingPermit::drop`. -/
def dropPendingPermit (addr : IpAddr) (live : Live) : Live :=
  { live with pending := live.pending.release addr }

/-! ## Connections -/

/-- A connection that was let into its handshake: the permits it holds, and whether it has asked
for a chain slot. -/
structure RelayConn where
  pending : Option IpAddr
  permit : Option String
  asked : Bool

structure RelayState where
  live : Live
  conns : List RelayConn

namespace RelayState

def initial : RelayState := ⟨Live.default, []⟩

/-- The peers of the permits that are live. -/
def permits (s : RelayState) : List String := s.conns.filterMap RelayConn.permit

/-- The addresses of the pending permits that are live. -/
def pendings (s : RelayState) : List IpAddr := s.conns.filterMap RelayConn.pending

end RelayState

/-- One step of a relay's connections, in any order.  A permit is dropped at whatever moment its
connection ends, or hands it back. -/
inductive RelayStep (config : RelayConfig) : RelayState → RelayState → Prop where
  | accept {live conns} (addr : IpAddr) (hok : (acquirePending config addr live).2 = true) :
      RelayStep config ⟨live, conns⟩
        ⟨(acquirePending config addr live).1, ⟨some addr, none, false⟩ :: conns⟩
  | close {live conns} (addr : IpAddr) (hno : (acquirePending config addr live).2 = false) :
      RelayStep config ⟨live, conns⟩ ⟨(acquirePending config addr live).1, conns⟩
  /-- The handshake has produced an admitted peer and there is room for its chain. -/
  | acquire {live before after addr} (peer : String) (hadmits : admits config peer = true)
      (hok : (acquire config peer live).2 = true) :
      RelayStep config ⟨live, before ++ ⟨some addr, none, false⟩ :: after⟩
        ⟨(Radii.acquire config peer live).1, before ++ ⟨some addr, some peer, true⟩ :: after⟩
  /-- The handshake has produced an admitted peer and there is no room for its chain. -/
  | busy {live before after addr} (peer : String) (hadmits : admits config peer = true)
      (hno : (acquire config peer live).2 = false) :
      RelayStep config ⟨live, before ++ ⟨some addr, none, false⟩ :: after⟩
        ⟨(Radii.acquire config peer live).1, before ++ ⟨some addr, none, true⟩ :: after⟩
  | dropPermit {live before after pending peer asked} :
      RelayStep config ⟨live, before ++ ⟨pending, some peer, asked⟩ :: after⟩
        ⟨Radii.dropPermit peer live, before ++ ⟨pending, none, asked⟩ :: after⟩
  | dropPending {live before after addr permit asked} :
      RelayStep config ⟨live, before ++ ⟨some addr, permit, asked⟩ :: after⟩
        ⟨dropPendingPermit addr live, before ++ ⟨none, permit, asked⟩ :: after⟩

/-- The states of a relay's runs. -/
def RelayReachable (config : RelayConfig) : RelayState → Prop :=
  Relation.ReflTransGen (RelayStep config) RelayState.initial

/-! ## Exact accounting -/

/-- Both tallies keep their promise. -/
structure Accounted (config : RelayConfig) (s : RelayState) : Prop where
  chains : s.live.chains.Exact config.maxConcurrentTotal config.maxConcurrentPerPeer s.permits
  pending : s.live.pending.Exact config.maxPendingTotal config.maxPendingPerAddr s.pendings

/-- No request can reach a per-key cap of zero: either its total cap refuses it first, or (for a
chain) no connection is ever let into its handshake. -/
def CapsReachable (config : RelayConfig) : Prop :=
  (config.maxPendingTotal = 0 ∨ 0 < config.maxPendingPerAddr) ∧
  (config.maxPendingTotal = 0 ∨ config.maxConcurrentTotal = 0 ∨ 0 < config.maxConcurrentPerPeer)

/-- Both tallies are right. -/
structure Tallied (config : RelayConfig) (s : RelayState) : Prop where
  chains : s.live.chains.Tallied config.maxConcurrentTotal config.maxConcurrentPerPeer s.permits
  pending : s.live.pending.Tallied config.maxPendingTotal config.maxPendingPerAddr s.pendings

/-- Neither has an entry of zero. -/
def Live.NoZeros (live : Live) : Prop := live.chains.NoZeros ∧ live.pending.NoZeros

lemma accounted_iff {config : RelayConfig} {s : RelayState} :
    Accounted config s ↔ Tallied config s ∧ s.live.NoZeros := by
  constructor
  · rintro ⟨hchains, hpending⟩
    rw [Slots.exact_iff] at hchains hpending
    exact ⟨⟨hchains.1, hpending.1⟩, hchains.2, hpending.2⟩
  · rintro ⟨⟨hchains, hpending⟩, hzeros⟩
    exact ⟨Slots.exact_iff.mpr ⟨hchains, hzeros.1⟩, Slots.exact_iff.mpr ⟨hpending, hzeros.2⟩⟩

/-- A connection in its handshake shows that the pending caps are not zero. -/
lemma pendingTotal_pos {config : RelayConfig} {s : RelayState} (h : Tallied config s)
    {addr : IpAddr} (hmem : addr ∈ s.pendings) : config.maxPendingTotal ≠ 0 :=
  ((List.length_pos_of_mem hmem).trans_le h.pending.total_le).ne'

/-- Where connections differ by one permit, so do the live permits. -/
lemma permits_replace {α : Type} (f : RelayConn → Option α) {a : α} (before after : List RelayConn)
    (old new : RelayConn) (hold : f old = some a) (hnew : f new = none) :
    ((before ++ old :: after).filterMap f).Perm (a :: (before ++ new :: after).filterMap f) := by
  simp only [List.filterMap_append, List.filterMap_cons, hold, hnew]
  exact List.perm_middle

/-- Where they do not, neither do the live permits. -/
lemma permits_same {α : Type} (f : RelayConn → Option α) (before after : List RelayConn)
    (old new : RelayConn) (h : f old = f new) :
    ((before ++ old :: after).filterMap f).Perm ((before ++ new :: after).filterMap f) := by
  simp only [List.filterMap_append, List.filterMap_cons, h]
  exact List.Perm.refl _

/-- A dropped permit is one of the live ones, and the rest stay. -/
lemma erase_of_perm {α : Type} [DecidableEq α] {xs ys : List α} {a : α} (h : xs.Perm (a :: ys)) :
    a ∈ xs ∧ (xs.erase a).Perm ys := by
  refine ⟨h.mem_iff.mpr List.mem_cons_self, ?_⟩
  have herase := h.erase a
  rwa [List.erase_cons_head] at herase

/-- **One step keeps the tallies right.** -/
theorem tallied_step {config : RelayConfig} {s s' : RelayState} (hstep : RelayStep config s s')
    (h : Tallied config s) : Tallied config s' := by
  cases hstep with
  | accept addr hok => exact ⟨h.chains, h.pending.acquired hok⟩
  | close addr hno => exact ⟨h.chains, h.pending.refusal hno⟩
  | @acquire live before after addr peer hadmits hok =>
      have hpermits := permits_replace RelayConn.permit before after
        ⟨some addr, some peer, true⟩ ⟨some addr, none, false⟩ rfl rfl
      have hpendings := permits_same RelayConn.pending before after
        ⟨some addr, none, false⟩ ⟨some addr, some peer, true⟩ rfl
      exact ⟨(h.chains.acquired hok).perm hpermits.symm, h.pending.perm hpendings⟩
  | @busy live before after addr peer hadmits hno =>
      have hpermits := permits_same RelayConn.permit before after
        ⟨some addr, none, false⟩ ⟨some addr, none, true⟩ rfl
      have hpendings := permits_same RelayConn.pending before after
        ⟨some addr, none, false⟩ ⟨some addr, none, true⟩ rfl
      exact ⟨(h.chains.refusal hno).perm hpermits, h.pending.perm hpendings⟩
  | @dropPermit live before after pending peer asked =>
      have hpermits := permits_replace RelayConn.permit before after
        ⟨pending, some peer, asked⟩ ⟨pending, none, asked⟩ rfl rfl
      have hpendings := permits_same RelayConn.pending before after
        ⟨pending, some peer, asked⟩ ⟨pending, none, asked⟩ rfl
      rcases erase_of_perm hpermits with ⟨hmem, herase⟩
      exact ⟨(h.chains.released hmem).perm herase, h.pending.perm hpendings⟩
  | @dropPending live before after addr permit asked =>
      have hpermits := permits_same RelayConn.permit before after
        ⟨some addr, permit, asked⟩ ⟨none, permit, asked⟩ rfl
      have hpendings := permits_replace RelayConn.pending before after
        ⟨some addr, permit, asked⟩ ⟨none, permit, asked⟩ rfl rfl
      rcases erase_of_perm hpendings with ⟨hmem, herase⟩
      exact ⟨h.chains.perm hpermits, (h.pending.released hmem).perm herase⟩

/-- **The tallies are right in every run.** -/
theorem tallied_of_reachable {config : RelayConfig} {s : RelayState}
    (hreach : RelayReachable config s) : Tallied config s := by
  induction hreach with
  | refl => exact ⟨Slots.tallied_empty, Slots.tallied_empty⟩
  | tail _ hstep ih => exact tallied_step hstep ih

/-- **One step leaves no zero**, if no request can reach a cap of zero. -/
theorem noZeros_step {config : RelayConfig} (hcaps : CapsReachable config) {s s' : RelayState}
    (hstep : RelayStep config s s') (htallied : Tallied config s) (h : s.live.NoZeros) :
    s'.live.NoZeros := by
  -- where a connection is in its handshake, the pending caps are not zero
  have hchains : ∀ addr, addr ∈ s.pendings →
      config.maxConcurrentTotal = 0 ∨ 0 < config.maxConcurrentPerPeer :=
    fun _ hmem => hcaps.2.resolve_left (pendingTotal_pos htallied hmem)
  cases hstep with
  | accept addr hok => exact ⟨h.1, h.2.acquire hcaps.1 addr⟩
  | close addr hno => exact ⟨h.1, h.2.acquire hcaps.1 addr⟩
  | @acquire live before after addr peer hadmits hok =>
      exact ⟨h.1.acquire (hchains addr (by simp [RelayState.pendings])) peer, h.2⟩
  | @busy live before after addr peer hadmits hno =>
      exact ⟨h.1.acquire (hchains addr (by simp [RelayState.pendings])) peer, h.2⟩
  | @dropPermit live before after pending peer asked => exact ⟨h.1.release peer, h.2⟩
  | @dropPending live before after addr permit asked => exact ⟨h.1, h.2.release addr⟩

/-- **The accounting stays exact**, if no request can reach a cap of zero. -/
theorem accounted_of_reachable {config : RelayConfig} (hcaps : CapsReachable config)
    {s : RelayState} (hreach : RelayReachable config s) : Accounted config s := by
  refine accounted_iff.mpr ⟨tallied_of_reachable hreach, ?_⟩
  induction hreach with
  | refl => exact ⟨Slots.noZeros_empty, Slots.noZeros_empty⟩
  | tail hreach hstep ih => exact noZeros_step hcaps hstep (tallied_of_reachable hreach) ih

/-- Some peer is always admitted. -/
lemma exists_admitted (config : RelayConfig) : ∃ peer, admits config peer = true := by
  cases hallow : config.allowPeers with
  | nil => exact ⟨"", by simp [admits, hallow]⟩
  | cons id others => exact ⟨id, by simp [admits, hallow]⟩

/-- **The accounting is exact in every run, for exactly these configurations.**  With a per-key
cap of zero that requests can reach, the first refused request leaves an entry of zero. -/
theorem admission_exact_iff (config : RelayConfig) :
    (∀ s, RelayReachable config s → Accounted config s) ↔ CapsReachable config := by
  constructor
  · intro hall
    have hpending : config.maxPendingTotal = 0 ∨ 0 < config.maxPendingPerAddr := by
      by_contra hcaps
      rw [not_or, Nat.not_lt, Nat.le_zero] at hcaps
      -- the first connection is refused and leaves its address behind
      obtain ⟨hno, hzero⟩ := Slots.acquire_zero Slots.empty (IpAddr.v4 0)
        (Nat.pos_of_ne_zero hcaps.1) hcaps.2 rfl
      exact Slots.not_exact_of_zero hzero
        (hall _ (Relation.ReflTransGen.single (.close (.v4 0) hno))).pending
    refine ⟨hpending, ?_⟩
    by_contra hcaps
    rw [not_or, not_or, Nat.not_lt, Nat.le_zero] at hcaps
    rcases exists_admitted config with ⟨peer, hadmits⟩
    -- the first connection is let in, its chain is refused and leaves the peer behind
    have hok : (acquirePending config (.v4 0) Live.default).2 = true :=
      Slots.acquire_empty (IpAddr.v4 0) (Nat.pos_of_ne_zero hcaps.1)
        (hpending.resolve_left hcaps.1)
    have hfirst : RelayReachable config _ :=
      Relation.ReflTransGen.single (.accept (.v4 0) hok)
    obtain ⟨hno, hzero⟩ := Slots.acquire_zero Slots.empty peer
      (Nat.pos_of_ne_zero hcaps.2.1) hcaps.2.2 rfl
    have hsecond := hfirst.tail (@RelayStep.busy config _ [] [] (.v4 0) peer hadmits hno)
    exact Slots.not_exact_of_zero hzero (hall _ hsecond).chains
  · exact fun hcaps s hreach => accounted_of_reachable hcaps hreach

/-- The default caps. -/
example : CapsReachable { nodeId := "n" } := by simp [CapsReachable]

/-- With room for handshakes but none for any address, an address that was refused, and so holds
nothing, stays in the map. -/
theorem zero_cap_leaves_entry :
    ∃ s, RelayReachable { nodeId := "n", maxPendingPerAddr := 0 } s ∧ s.pendings = [] ∧
      s.live.pending.perKey.lookup (.v4 0) = some 0 ∧
      ¬ Accounted { nodeId := "n", maxPendingPerAddr := 0 } s := by
  have hzero : (acquirePending { nodeId := "n", maxPendingPerAddr := 0 } (.v4 0)
      Live.default).1.pending.perKey.lookup (.v4 0) = some 0 := by decide
  exact ⟨_, Relation.ReflTransGen.single (.close (.v4 0) (by decide)), rfl, hzero,
    fun h => Slots.not_exact_of_zero hzero h.pending⟩

end Radii
