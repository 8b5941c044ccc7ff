import Mathlib

/-!
# Connections that share a state under a reader–writer lock

A server runs one task for each connection.  A task takes a frame, works on the shared state
between taking and releasing the lock, and writes replies; a reply can stay unwritten for as long
as the peer does not read.  `Prog` is the code of one frame's handling, `Config` a configuration
of the whole server and `Step` its steps, one task at a time in any order.

`Prog.Spec` states what the accesses and the replies of a handler do, read off its code;
`Run.meets` carries it to every configuration of every run, and `Config.Meets.effect` says what
that leaves each step to do to the state.
-/

namespace Sync

inductive LockMode where
  | read
  | write
  deriving DecidableEq, Repr

/-! ## The lock -/

/-- A fair lock: requests enter in the order they were made. -/
structure RwLock where
  holders : List (ℕ × LockMode)
  queue : List (ℕ × LockMode)

namespace RwLock

def free : RwLock := ⟨[], []⟩

/-- Whether a holder in this mode may join the present ones. -/
def Admits (l : RwLock) : LockMode → Prop
  | .read => ∀ h ∈ l.holders, h.2 = .read
  | .write => l.holders = []

/-- Whether task `i` holds the lock, in either mode. -/
def heldBy (l : RwLock) (i : ℕ) : Bool := l.holders.any fun h => h.1 == i

def request (l : RwLock) (i : ℕ) (mode : LockMode) : RwLock :=
  { l with queue := l.queue ++ [(i, mode)] }

def enter (l : RwLock) (i : ℕ) (mode : LockMode) (rest : List (ℕ × LockMode)) : RwLock :=
  ⟨(i, mode) :: l.holders, rest⟩

def release (l : RwLock) (i : ℕ) : RwLock :=
  { l with holders := l.holders.filter fun h => h.1 ≠ i }

lemma admits_of_holders_nil {l : RwLock} (h : l.holders = []) (mode : LockMode) :
    l.Admits mode := by
  cases mode with
  | read => rw [Admits, h]; simp
  | write => exact h

lemma heldBy_eq_true {l : RwLock} {i : ℕ} :
    l.heldBy i = true ↔ i ∈ l.holders.map Prod.fst := by
  simp [heldBy]

@[simp] lemma heldBy_enter_self (l : RwLock) (i : ℕ) (mode : LockMode)
    (rest : List (ℕ × LockMode)) : (l.enter i mode rest).heldBy i = true := by
  simp [heldBy, enter]

lemma heldBy_enter_of_ne (l : RwLock) {i j : ℕ} (mode : LockMode) (rest : List (ℕ × LockMode))
    (h : j ≠ i) : (l.enter i mode rest).heldBy j = l.heldBy j := by
  simp [heldBy, enter, h.symm]

@[simp] lemma heldBy_release_self (l : RwLock) (i : ℕ) : (l.release i).heldBy i = false := by
  simp [heldBy, release]

lemma heldBy_release_of_ne (l : RwLock) {i j : ℕ} (h : j ≠ i) :
    (l.release i).heldBy j = l.heldBy j := by
  rw [Bool.eq_iff_iff, heldBy_eq_true, heldBy_eq_true]
  simp [release, h]

/-- A release by a holder shortens the list of holders. -/
lemma length_release_lt {l : RwLock} {i : ℕ} (h : l.heldBy i = true) :
    (l.release i).holders.length < l.holders.length := by
  rw [heldBy_eq_true, List.mem_map] at h
  rcases h with ⟨holder, hmem, rfl⟩
  exact List.length_filter_lt_length_iff_exists.mpr ⟨holder, hmem, by simp⟩

/-- The tasks that hold the lock or wait for it. -/
def tasks (l : RwLock) : List ℕ := (l.holders ++ l.queue).map Prod.fst

end RwLock

/-! ## Programs, configurations, steps -/

/-- What a task has left to do for the frame it is handling.  `σ` is the shared state, `ε` what an
access sees besides it (a clock, an iteration order) and `ρ` the replies. -/
inductive Prog (σ ε ρ : Type) where
  | done
  | lock (mode : LockMode) (rest : Prog σ ε ρ)
  | access (update : ε → σ → σ) (rest : ε → σ → Prog σ ε ρ)
  | unlock (rest : Prog σ ε ρ)
  | reply (out : ρ) (rest : Prog σ ε ρ)

/-- A server: the code that handles a frame of a peer, and the frames a connection can deliver. -/
structure Server (π φ σ ε ρ : Type) where
  handle : π → φ → Prog σ ε ρ
  Reads : φ → Prop

/-- One connection: its peer, the last frame read and what is left to do for it. -/
structure Conn (π φ σ ε ρ : Type) where
  peer : π
  frame : Option φ
  prog : Prog σ ε ρ

structure Config (π φ σ ε ρ : Type) where
  state : σ
  lock : RwLock
  conns : ℕ → Option (Conn π φ σ ε ρ)

inductive Event (π φ ε : Type) where
  | accept (i : ℕ) (peer : π)
  | recv (i : ℕ) (frame : φ)
  | request (i : ℕ)
  | grant (i : ℕ)
  | access (i : ℕ) (env : ε)
  | release (i : ℕ)
  | drain (i : ℕ)
  | close (i : ℕ)

/-- The steps the server takes on its own, with nothing read from or written to any peer. -/
def Event.Quiet {π φ ε : Type} : Event π φ ε → Prop
  | .request _ => True
  | .grant _ => True
  | .access _ _ => True
  | .release _ => True
  | _ => False

variable {π φ σ ε ρ : Type}

namespace Config

def initial (s : σ) : Config π φ σ ε ρ := ⟨s, .free, fun _ => none⟩

/-- Replaces connection `i`. -/
def put (c : Config π φ σ ε ρ) (i : ℕ) (conn : Option (Conn π φ σ ε ρ)) : Config π φ σ ε ρ :=
  { c with conns := Function.update c.conns i conn }

def withLock (c : Config π φ σ ε ρ) (l : RwLock) : Config π φ σ ε ρ := { c with lock := l }

def withState (c : Config π φ σ ε ρ) (s : σ) : Config π φ σ ε ρ := { c with state := s }

@[simp] lemma put_lock (c : Config π φ σ ε ρ) (i : ℕ) (conn : Option (Conn π φ σ ε ρ)) :
    (c.put i conn).lock = c.lock := rfl

@[simp] lemma put_conns_self (c : Config π φ σ ε ρ) (i : ℕ) (conn : Option (Conn π φ σ ε ρ)) :
    (c.put i conn).conns i = conn := by simp [put]

lemma put_conns_of_ne (c : Config π φ σ ε ρ) {i j : ℕ} (conn : Option (Conn π φ σ ε ρ))
    (h : j ≠ i) : (c.put i conn).conns j = c.conns j := by simp [put, h]

@[simp] lemma withLock_lock (c : Config π φ σ ε ρ) (l : RwLock) : (c.withLock l).lock = l := rfl

@[simp] lemma withLock_conns (c : Config π φ σ ε ρ) (l : RwLock) :
    (c.withLock l).conns = c.conns := rfl

@[simp] lemma withState_lock (c : Config π φ σ ε ρ) (s : σ) :
    (c.withState s).lock = c.lock := rfl

@[simp] lemma withState_conns (c : Config π φ σ ε ρ) (s : σ) :
    (c.withState s).conns = c.conns := rfl

end Config

/-- Runs the connection's program on to `prog`. -/
def Conn.goto (conn : Conn π φ σ ε ρ) (prog : Prog σ ε ρ) : Conn π φ σ ε ρ :=
  { conn with prog := prog }

/-- One step of the server. -/
inductive Step (S : Server π φ σ ε ρ) :
    Config π φ σ ε ρ → Event π φ ε → Config π φ σ ε ρ → Prop where
  | accept {c i} (peer : π) (hfree : c.conns i = none) :
      Step S c (.accept i peer) (c.put i (some ⟨peer, none, .done⟩))
  /-- A frame is read only when the one before has been dealt with. -/
  | recv {c i} {conn : Conn π φ σ ε ρ} (frame : φ) (hconn : c.conns i = some conn)
      (hprog : conn.prog = .done) (hreads : S.Reads frame) :
      Step S c (.recv i frame)
        (c.put i (some ⟨conn.peer, some frame, S.handle conn.peer frame⟩))
  | request {c i} {conn : Conn π φ σ ε ρ} {mode rest} (hconn : c.conns i = some conn)
      (hprog : conn.prog = .lock mode rest) (hnew : ∀ m, (i, m) ∉ c.lock.queue) :
      Step S c (.request i) (c.withLock (c.lock.request i mode))
  | grant {c i} {conn : Conn π φ σ ε ρ} {mode rest waiting} (hconn : c.conns i = some conn)
      (hprog : conn.prog = .lock mode rest) (hqueue : c.lock.queue = (i, mode) :: waiting)
      (hadmits : c.lock.Admits mode) :
      Step S c (.grant i)
        ((c.withLock (c.lock.enter i mode waiting)).put i (some (conn.goto rest)))
  | access {c i} {conn : Conn π φ σ ε ρ} {update rest} (env : ε) (hconn : c.conns i = some conn)
      (hprog : conn.prog = .access update rest) :
      Step S c (.access i env)
        ((c.withState (update env c.state)).put i (some (conn.goto (rest env c.state))))
  | release {c i} {conn : Conn π φ σ ε ρ} {rest} (hconn : c.conns i = some conn)
      (hprog : conn.prog = .unlock rest) :
      Step S c (.release i)
        ((c.withLock (c.lock.release i)).put i (some (conn.goto rest)))
  /-- The peer has taken the whole reply. -/
  | drain {c i} {conn : Conn π φ σ ε ρ} {out rest} (hconn : c.conns i = some conn)
      (hprog : conn.prog = .reply out rest) :
      Step S c (.drain i) (c.put i (some (conn.goto rest)))
  /-- Reading or writing failed: the task ends, and with it any guard it holds. -/
  | close {c i} {conn : Conn π φ σ ε ρ} (hconn : c.conns i = some conn)
      (hprog : conn.prog = .done ∨ ∃ out rest, conn.prog = .reply out rest) :
      Step S c (.close i) ((c.withLock (c.lock.release i)).put i none)

/-- **Where a connection comes from.**  It was accepted in this step, or it was there before, with
the same peer, and read a frame in this step or still has the frame it had. -/
lemma Step.conn_cases {S : Server π φ σ ε ρ} {c c' : Config π φ σ ε ρ} {e : Event π φ ε}
    (hstep : Step S c e c') {j : ℕ} {conn : Conn π φ σ ε ρ} (hj : c'.conns j = some conn) :
    (e = .accept j conn.peer ∧ conn.frame = none) ∨
      ∃ old, c.conns j = some old ∧ conn.peer = old.peer ∧
        (conn.frame = old.frame ∨ ∃ m, e = .recv j m ∧ conn.frame = some m) := by
  have hgoto : ∀ (a : Config π φ σ ε ρ) (i : ℕ) (old : Conn π φ σ ε ρ) (prog : Prog σ ε ρ),
      a.conns = c.conns → c.conns i = some old →
      (a.put i (some (old.goto prog))).conns j = some conn →
      ∃ old, c.conns j = some old ∧ conn.peer = old.peer ∧ conn.frame = old.frame := by
    intro a i old prog ha hold hj
    by_cases hji : j = i
    · subst hji
      rw [Config.put_conns_self, Option.some.injEq] at hj
      subst hj
      exact ⟨old, hold, rfl, rfl⟩
    · rw [Config.put_conns_of_ne _ _ hji, ha] at hj
      exact ⟨conn, hj, rfl, rfl⟩
  have hkept : (∃ old, c.conns j = some old ∧ conn.peer = old.peer ∧ conn.frame = old.frame) →
      ∃ old, c.conns j = some old ∧ conn.peer = old.peer ∧
        (conn.frame = old.frame ∨ ∃ m, e = .recv j m ∧ conn.frame = some m) := by
    rintro ⟨old, hold, hpeer, hframe⟩
    exact ⟨old, hold, hpeer, Or.inl hframe⟩
  cases hstep with
  | @accept i peer hfree =>
      by_cases hji : j = i
      · subst hji
        rw [Config.put_conns_self, Option.some.injEq] at hj
        subst hj
        exact Or.inl ⟨rfl, rfl⟩
      · rw [Config.put_conns_of_ne _ _ hji] at hj
        exact Or.inr ⟨conn, hj, rfl, Or.inl rfl⟩
  | @recv i old frame hold hprog hreads =>
      by_cases hji : j = i
      · subst hji
        rw [Config.put_conns_self, Option.some.injEq] at hj
        subst hj
        exact Or.inr ⟨old, hold, rfl, Or.inr ⟨frame, rfl, rfl⟩⟩
      · rw [Config.put_conns_of_ne _ _ hji] at hj
        exact Or.inr ⟨conn, hj, rfl, Or.inl rfl⟩
  | request hold hprog hnew => exact Or.inr ⟨conn, hj, rfl, Or.inl rfl⟩
  | grant hold hprog hqueue hadmits =>
      exact Or.inr (hkept (hgoto (c.withLock _) _ _ _ rfl hold hj))
  | access env hold hprog => exact Or.inr (hkept (hgoto (c.withState _) _ _ _ rfl hold hj))
  | release hold hprog => exact Or.inr (hkept (hgoto (c.withLock _) _ _ _ rfl hold hj))
  | drain hold hprog => exact Or.inr (hkept (hgoto c _ _ _ rfl hold hj))
  | @close i old hold hprog =>
      by_cases hji : j = i
      · subst hji
        simp at hj
      · rw [Config.put_conns_of_ne _ _ hji] at hj
        exact Or.inr ⟨conn, hj, rfl, Or.inl rfl⟩

/-- A run all of whose steps satisfy `ok`. -/
def Run (S : Server π φ σ ε ρ) (ok : Config π φ σ ε ρ → Event π φ ε → Prop) :
    Config π φ σ ε ρ → Config π φ σ ε ρ → Prop :=
  Relation.ReflTransGen fun c c' => ∃ e, ok c e ∧ Step S c e c'

/-- Reachable by any run. -/
abbrev Reachable (S : Server π φ σ ε ρ) : Config π φ σ ε ρ → Config π φ σ ε ρ → Prop :=
  Run S fun _ _ => True

lemma Run.mono {S : Server π φ σ ε ρ} {ok ok' : Config π φ σ ε ρ → Event π φ ε → Prop}
    (h : ∀ c e, ok c e → ok' c e) {c c' : Config π φ σ ε ρ} (hrun : Run S ok c c') :
    Run S ok' c c' := by
  refine Relation.ReflTransGen.mono ?_ _ _ hrun
  rintro a b ⟨e, he, hstep⟩
  exact ⟨e, h a e he, hstep⟩

/-- The rule for invariants. -/
lemma Run.invariant {S : Server π φ σ ε ρ} {ok : Config π φ σ ε ρ → Event π φ ε → Prop}
    {I : Config π φ σ ε ρ → Prop}
    (hstep : ∀ c e c', ok c e → Step S c e c' → I c → I c')
    {c c' : Config π φ σ ε ρ} (hrun : Run S ok c c') (hc : I c) : I c' := by
  induction hrun with
  | refl => exact hc
  | tail _ h ih =>
      rcases h with ⟨e, hok, hs⟩
      exact hstep _ e _ hok hs ih

/-- On a free lock, the frame of a new connection gets into its first critical section. -/
lemma enters {S : Server π φ σ ε ρ} (ok : Config π φ σ ε ρ → Event π φ ε → Prop)
    (c : Config π φ σ ε ρ) (i : ℕ) (peer : π) {frame : φ} {mode : LockMode} {prog : Prog σ ε ρ}
    (hok : ∀ c e, e ∈ [.accept i peer, .recv i frame, .request i, .grant i] → ok c e)
    (hfree : c.conns i = none) (hlock : c.lock = .free) (hreads : S.Reads frame)
    (hprog : S.handle peer frame = .lock mode prog) :
    ∃ c', Run S ok c c' ∧ c'.state = c.state ∧ c'.lock = ⟨[(i, mode)], []⟩ ∧
      c'.conns i = some ⟨peer, some frame, prog⟩ ∧ ∀ j, j ≠ i → c'.conns j = c.conns j := by
  have h0 : Run S ok c _ :=
    Relation.ReflTransGen.single ⟨_, hok _ _ (by simp), .accept peer hfree⟩
  have h1 := h0.tail ⟨_, hok _ _ (by simp), .recv frame (Config.put_conns_self _ _ _) rfl hreads⟩
  have h2 := h1.tail ⟨_, hok _ _ (by simp), .request (Config.put_conns_self _ _ _) hprog
    fun _ => by simp [hlock, RwLock.free]⟩
  have h3 := h2.tail ⟨_, hok _ _ (by simp), .grant (Config.put_conns_self _ _ _) hprog
    (show _ = [(i, mode)] by simp [hlock, RwLock.free, RwLock.request])
    (RwLock.admits_of_holders_nil (by simp [hlock, RwLock.free, RwLock.request]) mode)⟩
  refine ⟨_, h3, rfl, ?_, Config.put_conns_self _ _ _, ?_⟩
  · simp [hlock, RwLock.free, RwLock.request, RwLock.enter]
  · intro j hj
    simp only [Config.put_conns_of_ne _ _ hj, Config.withLock_conns]

/-! ## What every access and every reply does -/

/-- Started in a state satisfying `pre`, every access of the program keeps `pre` and is one of
`act`, and every reply is one of `out`; the state may be changed by others between accesses, as
long as `pre` stays. -/
def Prog.Spec (pre : σ → Prop) (act : ε → σ → σ → Prop) (out : ρ → Prop) : Prog σ ε ρ → Prop
  | .done => True
  | .lock _ rest => rest.Spec pre act out
  | .access update rest => ∀ env s, pre s →
      pre (update env s) ∧ act env s (update env s) ∧ (rest env s).Spec pre act out
  | .unlock rest => rest.Spec pre act out
  | .reply m rest => out m ∧ rest.Spec pre act out

/-- Every program in progress meets the specification for its peer and its frame. -/
structure Config.Meets (c : Config π φ σ ε ρ) (pre : σ → Prop) (act : π → φ → ε → σ → σ → Prop)
    (out : π → φ → ρ → Prop) : Prop where
  state : pre c.state
  idle : ∀ i conn, c.conns i = some conn → conn.frame = none → conn.prog = .done
  busy : ∀ i conn m, c.conns i = some conn → conn.frame = some m →
    conn.prog.Spec pre (act conn.peer m) (out conn.peer m)

section Meets

variable {S : Server π φ σ ε ρ} {pre : σ → Prop} {act : π → φ → ε → σ → σ → Prop}
  {out : π → φ → ρ → Prop}

lemma meets_initial {s : σ} (h : pre s) :
    (Config.initial s : Config π φ σ ε ρ).Meets pre act out :=
  ⟨h, fun i conn hc => by simp [Config.initial] at hc,
    fun i conn m hc => by simp [Config.initial] at hc⟩

/-- Replacing one connection by one that meets the specification. -/
lemma Config.Meets.put {c : Config π φ σ ε ρ} (h : c.Meets pre act out) (i : ℕ)
    {new : Option (Conn π φ σ ε ρ)}
    (hidle : ∀ conn, new = some conn → conn.frame = none → conn.prog = .done)
    (hbusy : ∀ conn m, new = some conn → conn.frame = some m →
      conn.prog.Spec pre (act conn.peer m) (out conn.peer m)) :
    (c.put i new).Meets pre act out := by
  refine ⟨h.state, ?_, ?_⟩
  · intro j conn hj
    by_cases hji : j = i
    · subst hji
      exact hidle conn (by simpa using hj)
    · rw [Config.put_conns_of_ne _ _ hji] at hj
      exact h.idle j conn hj
  · intro j conn m hj
    by_cases hji : j = i
    · subst hji
      exact hbusy conn m (by simpa using hj)
    · rw [Config.put_conns_of_ne _ _ hji] at hj
      exact h.busy j conn m hj

/-- A connection runs on to a program that meets the specification whenever the present one
does.  An idle connection has nothing to run. -/
lemma Config.Meets.goto {c : Config π φ σ ε ρ} (h : c.Meets pre act out) {i : ℕ}
    {conn : Conn π φ σ ε ρ} (hconn : c.conns i = some conn) {prog : Prog σ ε ρ}
    (hne : conn.prog ≠ .done)
    (hspec : ∀ m, conn.prog.Spec pre (act conn.peer m) (out conn.peer m) →
      prog.Spec pre (act conn.peer m) (out conn.peer m)) :
    (c.put i (some (conn.goto prog))).Meets pre act out := by
  refine h.put i ?_ ?_
  · intro new hnew hframe
    simp only [Option.some.injEq] at hnew
    subst hnew
    exact absurd (h.idle i conn hconn hframe) hne
  · intro new m hnew hframe
    simp only [Option.some.injEq] at hnew
    subst hnew
    exact hspec m (h.busy i conn m hconn hframe)

lemma Config.Meets.withLock {c : Config π φ σ ε ρ} (h : c.Meets pre act out) (l : RwLock) :
    (c.withLock l).Meets pre act out := ⟨h.state, h.idle, h.busy⟩

lemma Config.Meets.withState {c : Config π φ σ ε ρ} (h : c.Meets pre act out) {s : σ}
    (hs : pre s) : (c.withState s).Meets pre act out := ⟨hs, h.idle, h.busy⟩

/-- The program of an access step, and what it meets. -/
lemma Config.Meets.access {c : Config π φ σ ε ρ} (h : c.Meets pre act out) {i : ℕ}
    {conn : Conn π φ σ ε ρ} (hconn : c.conns i = some conn) {update : ε → σ → σ}
    {rest : ε → σ → Prog σ ε ρ} (hprog : conn.prog = .access update rest) (env : ε) :
    ∃ m, conn.frame = some m ∧ pre (update env c.state) ∧
      act conn.peer m env c.state (update env c.state) ∧
      (rest env c.state).Spec pre (act conn.peer m) (out conn.peer m) := by
  cases hframe : conn.frame with
  | none =>
      have := h.idle i conn hconn hframe
      rw [hprog] at this
      simp at this
  | some m =>
      have hspec := h.busy i conn m hconn hframe
      rw [hprog, Prog.Spec] at hspec
      exact ⟨m, rfl, hspec env c.state h.state⟩

/-- **One step keeps the specification**, if every handler meets it. -/
theorem Config.Meets.step
    (hS : ∀ peer m, S.Reads m → (S.handle peer m).Spec pre (act peer m) (out peer m))
    {c c' : Config π φ σ ε ρ} {e : Event π φ ε} (hstep : Step S c e c')
    (h : c.Meets pre act out) : c'.Meets pre act out := by
  cases hstep with
  | accept peer hfree =>
      refine h.put _ ?_ ?_
      · rintro conn hconn -
        simp only [Option.some.injEq] at hconn
        subst hconn
        rfl
      · intro conn m hconn hframe
        simp only [Option.some.injEq] at hconn
        subst hconn
        simp at hframe
  | recv frame hconn hprog hreads =>
      refine h.put _ ?_ ?_
      · intro conn hconn hframe
        simp only [Option.some.injEq] at hconn
        subst hconn
        simp at hframe
      · intro conn m hconn hframe
        simp only [Option.some.injEq] at hconn
        subst hconn
        simp only [Option.some.injEq] at hframe
        subst hframe
        exact hS _ _ hreads
  | request hconn hprog hnew => exact h.withLock _
  | grant hconn hprog hqueue hadmits =>
      refine (h.withLock (c.lock.enter _ _ _)).goto hconn (by simp [hprog]) ?_
      intro m hm
      rwa [hprog] at hm
  | @access i conn update rest env hconn hprog =>
      obtain ⟨m, hframe, hpre, -, hrest⟩ := h.access hconn hprog env
      refine (h.withState hpre).put i ?_ ?_
      · intro new hnew hnone
        simp only [Option.some.injEq] at hnew
        subst hnew
        rw [Conn.goto, hframe] at hnone
        simp at hnone
      · intro new m' hnew hm'
        simp only [Option.some.injEq] at hnew
        subst hnew
        have : m' = m := by
          rw [Conn.goto, hframe] at hm'
          exact (Option.some.inj hm').symm
        exact this ▸ hrest
  | release hconn hprog =>
      refine (h.withLock (c.lock.release _)).goto hconn (by simp [hprog]) ?_
      intro m hm
      rwa [hprog] at hm
  | drain hconn hprog =>
      refine h.goto hconn (by simp [hprog]) ?_
      intro m hm
      rw [hprog] at hm
      exact hm.2
  | close hconn hprog => exact (h.withLock _).put _ (by simp) (by simp)

/-- **Every run keeps the specification.** -/
theorem Run.meets
    (hS : ∀ peer m, S.Reads m → (S.handle peer m).Spec pre (act peer m) (out peer m))
    {ok : Config π φ σ ε ρ → Event π φ ε → Prop} {s : σ} (hs : pre s) {c : Config π φ σ ε ρ}
    (hrun : Run S ok (Config.initial s) c) : c.Meets pre act out :=
  hrun.invariant (fun _ _ _ _ hstep h => Config.Meets.step hS hstep h) (meets_initial hs)

/-- **What one step does to the shared state**: nothing, unless it is an access, and then what the
frame's specification allows. -/
theorem Config.Meets.effect {c c' : Config π φ σ ε ρ} {e : Event π φ ε}
    (hstep : Step S c e c') (h : c.Meets pre act out) :
    c'.state = c.state ∨ ∃ i env conn m, e = .access i env ∧ c.conns i = some conn ∧
      conn.frame = some m ∧ act conn.peer m env c.state c'.state := by
  cases hstep with
  | @access i conn update rest env hconn hprog =>
      obtain ⟨m, hframe, -, hact, -⟩ := h.access hconn hprog env
      exact Or.inr ⟨i, env, conn, m, rfl, hconn, hframe, hact⟩
  | accept | recv | request | grant | release | drain | close => exact Or.inl rfl

end Meets

end Sync
