import Radii.Foundations.Alone
import Radii.Foundations.Progress

/-!
# One frame at a time

The server that serves each frame in one step, and what it takes for the locked server to look like
it.  `Visible` is what peers see of either: what they send, what they are answered, and when a
connection opens or closes.

* `Prog.Atomic` — a program takes effect in one access: what it reads before is the same in every
  state, and after it the program only answers.
* `Step.serial` — one step of the locked server is none, one or two of the serial server.
* `Observed.serial` — every history of the locked server is one of the serial server.
-/

namespace Sync

variable {π φ σ ε ρ : Type}

/-! ## What is seen of a server -/

inductive Visible (π φ ρ : Type) where
  | accept (i : ℕ) (peer : π)
  | recv (i : ℕ) (frame : φ)
  | reply (i : ℕ) (out : ρ)
  | close (i : ℕ)
  deriving DecidableEq, Repr

/-- The connection it is seen on. -/
def Visible.conn : Visible π φ ρ → ℕ
  | .accept i _ => i
  | .recv i _ => i
  | .reply i _ => i
  | .close i => i

/-- The reply that the program is about to write. -/
def Prog.next : Prog σ ε ρ → Option ρ
  | .reply out _ => some out
  | _ => none

/-- What is seen of a step from `c`. -/
def Config.seen (c : Config π φ σ ε ρ) : Event π φ ε → List (Visible π φ ρ)
  | .accept i peer => [.accept i peer]
  | .recv i frame => [.recv i frame]
  | .drain i => (((c.conns i).bind fun conn => conn.prog.next).map (Visible.reply i)).toList
  | .close i => [.close i]
  | _ => []

/-- A connection put where it is. -/
lemma Config.put_self {c : Config π φ σ ε ρ} {i : ℕ} {conn : Conn π φ σ ε ρ}
    (h : c.conns i = some conn) : c.put i (some conn) = c := by
  rw [put, ← h, Function.update_eq_self]

lemma Config.seen_drain {c : Config π φ σ ε ρ} {i : ℕ} {conn : Conn π φ σ ε ρ} {out : ρ}
    {rest : Prog σ ε ρ} (hconn : c.conns i = some conn) (hprog : conn.prog = .reply out rest) :
    c.seen (.drain i) = [.reply i out] := by
  simp [seen, hconn, hprog, Prog.next]

/-- A run, with all that is seen of it. -/
inductive Observed (S : Server π φ σ ε ρ) (c : Config π φ σ ε ρ) :
    List (Visible π φ ρ) → Config π φ σ ε ρ → Prop where
  | refl : Observed S c [] c
  | tail {history mid e c'} (h : Observed S c history mid) (hstep : Step S mid e c') :
      Observed S c (history ++ mid.seen e) c'

lemma Observed.reachable {S : Server π φ σ ε ρ} {c c' : Config π φ σ ε ρ}
    {history : List (Visible π φ ρ)} (h : Observed S c history c') : Reachable S c c' := by
  induction h with
  | refl => exact .refl
  | tail _ hstep ih => exact ih.tail ⟨_, trivial, hstep⟩

/-- Every run can be observed. -/
lemma Run.observed {S : Server π φ σ ε ρ} {ok : Config π φ σ ε ρ → Event π φ ε → Prop}
    {c c' : Config π φ σ ε ρ} (hrun : Run S ok c c') : ∃ history, Observed S c history c' := by
  induction hrun with
  | refl => exact ⟨[], .refl⟩
  | tail _ hlast ih =>
      rcases ih with ⟨history, h⟩
      rcases hlast with ⟨e, -, hstep⟩
      exact ⟨_, h.tail hstep⟩

/-! ## The serial server -/

/-- Where a connection of the serial server is with its last frame. -/
inductive Phase (φ ρ : Type) where
  | waiting (frame : φ)
  /-- It was served, and these replies are left to write. -/
  | answering (outs : List ρ)

structure Session (π φ ρ : Type) where
  peer : π
  phase : Phase φ ρ

structure Serial (π φ σ ρ : Type) where
  state : σ
  sessions : ℕ → Option (Session π φ ρ)

namespace Serial

def initial (s : σ) : Serial π φ σ ρ := ⟨s, fun _ => none⟩

/-- Replaces connection `i`. -/
def put (a : Serial π φ σ ρ) (i : ℕ) (session : Option (Session π φ ρ)) : Serial π φ σ ρ :=
  { a with sessions := Function.update a.sessions i session }

/-- Serves the frame `frame` of connection `i`, with `env` for what the handler sees besides. -/
def served (S : Server π φ σ ε ρ) (a : Serial π φ σ ρ) (i : ℕ) (peer : π) (frame : φ) (env : ε) :
    Serial π φ σ ρ :=
  { a.put i (some ⟨peer, .answering ((S.handle peer frame).replies env a.state)⟩) with
    state := (S.handle peer frame).exec env a.state }

@[simp] lemma put_state (a : Serial π φ σ ρ) (i : ℕ) (session : Option (Session π φ ρ)) :
    (a.put i session).state = a.state := rfl

@[simp] lemma put_sessions_self (a : Serial π φ σ ρ) (i : ℕ) (session : Option (Session π φ ρ)) :
    (a.put i session).sessions i = session := by simp [put]

lemma put_sessions_of_ne (a : Serial π φ σ ρ) {i j : ℕ} (session : Option (Session π φ ρ))
    (h : j ≠ i) : (a.put i session).sessions j = a.sessions j := by simp [put, h]

lemma put_self {a : Serial π φ σ ρ} {i : ℕ} {session : Session π φ ρ}
    (h : a.sessions i = some session) : a.put i (some session) = a := by
  rw [put, ← h, Function.update_eq_self]

/-- One step of the serial server, with what is seen of it. -/
inductive Step (S : Server π φ σ ε ρ) :
    Serial π φ σ ρ → List (Visible π φ ρ) → Serial π φ σ ρ → Prop where
  | accept {a i} (peer : π) (hfree : a.sessions i = none) :
      Step S a [.accept i peer] (a.put i (some ⟨peer, .answering []⟩))
  | recv {a i peer} (frame : φ) (hidle : a.sessions i = some ⟨peer, .answering []⟩)
      (hreads : S.Reads frame) : Step S a [.recv i frame] (a.put i (some ⟨peer, .waiting frame⟩))
  | serve {a i peer frame} (env : ε) (hwaits : a.sessions i = some ⟨peer, .waiting frame⟩) :
      Step S a [] (a.served S i peer frame env)
  | reply {a i peer out outs} (hleft : a.sessions i = some ⟨peer, .answering (out :: outs)⟩) :
      Step S a [.reply i out] (a.put i (some ⟨peer, .answering outs⟩))
  | close {a i peer outs} (hserved : a.sessions i = some ⟨peer, .answering outs⟩) :
      Step S a [.close i] (a.put i none)

/-- A run of the serial server, with all that is seen of it. -/
inductive Run (S : Server π φ σ ε ρ) (a : Serial π φ σ ρ) :
    List (Visible π φ ρ) → Serial π φ σ ρ → Prop where
  | refl : Run S a [] a
  | tail {history mid seen a'} (h : Run S a history mid) (hstep : Step S mid seen a') :
      Run S a (history ++ seen) a'

variable {S : Server π φ σ ε ρ} {a b d : Serial π φ σ ρ} {history history' : List (Visible π φ ρ)}

lemma Run.single (hstep : Step S a history b) : Run S a history b := by
  have h := (Run.refl (S := S) (a := a)).tail hstep
  rwa [List.nil_append] at h

lemma Run.trans (h : Run S a history b) (h' : Run S b history' d) :
    Run S a (history ++ history') d := by
  induction h' with
  | refl => rwa [List.append_nil]
  | tail _ hstep ih =>
      rw [← List.append_assoc]
      exact ih.tail hstep

/-- What is seen of a step is one thing, or nothing. -/
lemma Step.seen_cases (h : Step S a history b) : history = [] ∨ ∃ v, history = [v] := by
  cases h with
  | serve => exact Or.inl rfl
  | accept | recv | reply | close => exact Or.inr ⟨_, rfl⟩

/-- The rule for invariants, of steps of which no more is seen than of the run. -/
lemma Run.invariant {I : Serial π φ σ ρ → Prop}
    (hstep : ∀ a seen b, (∀ v ∈ seen, v ∈ history) → Step S a seen b → I a → I b)
    (hrun : Run S a history b) (ha : I a) : I b := by
  induction hrun with
  | refl => exact ha
  | tail _ hlast ih =>
      refine hstep _ _ _ (fun v hv => List.mem_append_right _ hv) hlast (ih ?_)
      intro a seen b hseen
      exact hstep a seen b fun v hv => List.mem_append_left _ (hseen v hv)

/-- A run can be cut wherever something was seen. -/
lemma Run.cut {v : Visible π φ ρ} {later : List (Visible π φ ρ)}
    (hrun : Run S a (history ++ v :: later) b) :
    ∃ mid mid', Run S a history mid ∧ Step S mid [v] mid' ∧ Run S mid' later b := by
  generalize hwhole : history ++ v :: later = whole at hrun
  induction hrun generalizing later with
  | refl => simp at hwhole
  | @tail earlier mid seen b h hlast ih =>
      rcases hlast.seen_cases with rfl | ⟨w, rfl⟩
      · rcases ih (by rw [hwhole, List.append_nil]) with ⟨m, m', hrun, hstep, hrest⟩
        have hrest := hrest.tail hlast
        exact ⟨m, m', hrun, hstep, by rwa [List.append_nil] at hrest⟩
      · rcases List.eq_nil_or_concat later with rfl | ⟨front, last, rfl⟩
        · rw [← List.concat_eq_append, ← List.concat_eq_append, List.concat_inj] at hwhole
          rcases hwhole with ⟨rfl, rfl⟩
          exact ⟨mid, b, h, hlast, .refl⟩
        · rw [List.concat_eq_append, ← List.cons_append, ← List.append_assoc,
            ← List.concat_eq_append, ← List.concat_eq_append, List.concat_inj] at hwhole
          rcases hwhole with ⟨hfront, rfl⟩
          rcases ih hfront with ⟨m, m', hrun, hstep, hrest⟩
          rw [List.concat_eq_append]
          exact ⟨m, m', hrun, hstep, hrest.tail hlast⟩

/-- A step on another connection leaves this one alone, and an unseen one can only serve it. -/
lemma Step.session_cases (h : Step S a history b) {i : ℕ} (hi : ∀ v ∈ history, v.conn ≠ i) :
    b.sessions i = a.sessions i ∨ ∃ peer frame env, history = [] ∧
      a.sessions i = some ⟨peer, .waiting frame⟩ ∧ b = a.served S i peer frame env := by
  cases h with
  | @serve k peer frame env hwaits =>
      by_cases hik : i = k
      · subst hik
        exact Or.inr ⟨peer, frame, env, rfl, hwaits, rfl⟩
      · exact Or.inl (put_sessions_of_ne _ _ hik)
  | accept | recv | reply | close =>
      exact Or.inl (put_sessions_of_ne _ _ (hi _ (List.mem_singleton_self _)).symm)

/-- A frame that waits after a step waited before, or was read in it. -/
lemma Step.waiting_cases (h : Step S a history b) {i : ℕ} {peer : π} {frame : φ}
    (hwaits : b.sessions i = some ⟨peer, .waiting frame⟩) :
    a.sessions i = some ⟨peer, .waiting frame⟩ ∨ Visible.recv i frame ∈ history := by
  cases h with
  | @recv k peer' frame' hidle hreads =>
      by_cases hik : i = k
      · subst hik
        simp only [put_sessions_self, Option.some.injEq, Session.mk.injEq,
          Phase.waiting.injEq] at hwaits
        exact Or.inr (hwaits.2 ▸ List.mem_singleton_self _)
      · exact Or.inl ((put_sessions_of_ne _ _ hik).symm.trans hwaits)
  | @serve k peer' frame' env hserved =>
      by_cases hik : i = k
      · subst hik
        simp [served] at hwaits
      · exact Or.inl ((put_sessions_of_ne _ _ hik).symm.trans hwaits)
  | @accept k | @reply k | @close k =>
      by_cases hik : i = k
      · subst hik
        simp at hwaits
      · exact Or.inl ((put_sessions_of_ne _ _ hik).symm.trans hwaits)

/-- What a step does to the state: nothing, unless it serves a frame. -/
lemma Step.state_cases (h : Step S a history b) : b.state = a.state ∨
    ∃ i peer frame env, a.sessions i = some ⟨peer, .waiting frame⟩ ∧
      b.state = (S.handle peer frame).exec env a.state := by
  cases h with
  | @serve i peer frame env hwaits => exact Or.inr ⟨i, peer, frame, env, hwaits, rfl⟩
  | accept | recv | reply | close => exact Or.inl rfl

/-- A frame that waits has been read. -/
lemma Run.read_of_waiting {s : σ} (hrun : Run S (initial s) history b) {i : ℕ} {peer : π}
    {frame : φ} (hwaits : b.sessions i = some ⟨peer, .waiting frame⟩) :
    Visible.recv i frame ∈ history := by
  refine hrun.invariant (I := fun b => ∀ i peer frame,
    b.sessions i = some ⟨peer, .waiting frame⟩ → Visible.recv i frame ∈ history) ?_
    (fun i peer frame h => by simp [initial] at h) i peer frame hwaits
  intro a seen b hseen hstep h k peer' frame' hk
  rcases hstep.waiting_cases hk with hold | hread
  · exact h k peer' frame' hold
  · exact hseen _ hread

end Serial

/-! ## Programs that take effect at once -/

/-- While the state satisfies `pre`, the program takes effect in one access.  An access before that
one changes nothing, and what follows it is the same in every state. -/
def Prog.Atomic (pre : σ → Prop) : Prog σ ε ρ → Prop
  | .done => True
  | .lock _ rest => rest.Atomic pre
  | .access update rest =>
      (∀ env s, pre s → pre (update env s)) ∧ (∀ env s, (rest env s).Applied) ∨
      (update = fun _ s => s) ∧ (∀ env s, pre s → (rest env s).Atomic pre) ∧
        ∀ env s env' s', pre s → pre s' → rest env s = rest env' s'
  | .unlock rest => rest.Atomic pre
  | .reply _ rest => rest.Applied

/-- What a program without accesses still writes. -/
def Prog.left : Prog σ ε ρ → List ρ
  | .done => []
  | .lock _ rest => rest.left
  | .access _ _ => []
  | .unlock rest => rest.left
  | .reply out rest => out :: rest.left

section Applied

variable {env : ε} {s : σ} {prog : Prog σ ε ρ}

lemma Prog.Applied.exec (h : prog.Applied) : prog.exec env s = s := by
  induction prog with
  | done => rfl
  | lock mode rest ih => exact ih h
  | access update rest ih => exact absurd h id
  | unlock rest ih => exact ih h
  | reply out rest ih => exact ih h

lemma Prog.Applied.replies (h : prog.Applied) : prog.replies env s = prog.left := by
  induction prog with
  | done => rfl
  | lock mode rest ih => exact ih h
  | access update rest ih => exact absurd h id
  | unlock rest ih => exact ih h
  | reply out rest ih => exact congrArg (out :: ·) (ih h)

end Applied

/-! ## The locked server as a serial one -/

/-- How a connection of the locked server appears in the serial one: its frame waits as long as the
program would still do all that the handler does, and then it is being answered. -/
inductive Mirrors (S : Server π φ σ ε ρ) (pre : σ → Prop) (conn : Conn π φ σ ε ρ) :
    Session π φ ρ → Prop where
  | waiting {frame} (hatomic : conn.prog.Atomic pre)
      (hexec : ∀ env s, pre s → conn.prog.exec env s = (S.handle conn.peer frame).exec env s)
      (hreplies : ∀ env s, pre s →
        conn.prog.replies env s = (S.handle conn.peer frame).replies env s) :
      Mirrors S pre conn ⟨conn.peer, .waiting frame⟩
  | answering (happlied : conn.prog.Applied) :
      Mirrors S pre conn ⟨conn.peer, .answering conn.prog.left⟩

/-- The two servers hold the same state, and each connection mirrors its session. -/
structure Simulates (S : Server π φ σ ε ρ) (pre : σ → Prop) (c : Config π φ σ ε ρ)
    (a : Serial π φ σ ρ) : Prop where
  holds : pre c.state
  state : a.state = c.state
  conns : ∀ i, Option.Rel (Mirrors S pre) (c.conns i) (a.sessions i)

section Simulates

variable {S : Server π φ σ ε ρ} {pre : σ → Prop} {c c' : Config π φ σ ε ρ} {a : Serial π φ σ ρ}
  {i : ℕ} {conn : Conn π φ σ ε ρ}

lemma simulates_initial {s : σ} (h : pre s) : Simulates S pre (.initial s) (.initial s) :=
  ⟨h, rfl, fun _ => .none⟩

/-- Two connections that mirror each other are put in the same place. -/
lemma Simulates.put (h : Simulates S pre c a) {new : Option (Conn π φ σ ε ρ)}
    {session : Option (Session π φ ρ)} (hnew : Option.Rel (Mirrors S pre) new session) :
    Simulates S pre (c.put i new) (a.put i session) := by
  refine ⟨h.holds, h.state, ?_⟩
  intro j
  by_cases hj : j = i
  · subst hj
    simpa using hnew
  · rw [Config.put_conns_of_ne _ _ hj, Serial.put_sessions_of_ne _ _ hj]
    exact h.conns j

lemma Simulates.withLock (h : Simulates S pre c a) (l : RwLock) :
    Simulates S pre (c.withLock l) a := ⟨h.holds, h.state, h.conns⟩

lemma Simulates.withState (h : Simulates S pre c a) {s : σ} (hs : pre s) :
    Simulates S pre (c.withState s) { a with state := s } := ⟨hs, rfl, h.conns⟩

lemma Simulates.session (h : Simulates S pre c a) (hconn : c.conns i = some conn) :
    ∃ session, a.sessions i = some session ∧ Mirrors S pre conn session := by
  have hrel := h.conns i
  rw [hconn] at hrel
  cases hsession : a.sessions i with
  | none => rw [hsession] at hrel; cases hrel
  | some session =>
      rw [hsession] at hrel
      cases hrel with
      | some hmirrors => exact ⟨session, rfl, hmirrors⟩

/-- A connection whose program has no access left can be taken to the point where it is being
answered, by a step that nobody sees. -/
lemma Simulates.settle [Inhabited ε] (h : Simulates S pre c a) (hconn : c.conns i = some conn)
    (happlied : conn.prog.Applied) :
    ∃ a', Serial.Run S a [] a' ∧ Simulates S pre c a' ∧
      a'.sessions i = some ⟨conn.peer, .answering conn.prog.left⟩ := by
  rcases h.session hconn with ⟨session, hsession, hmirrors⟩
  cases hmirrors with
  | answering => exact ⟨a, .refl, h, hsession⟩
  | @waiting frame hatomic hexec hreplies =>
      refine ⟨a.served S i conn.peer frame default, .single (.serve default hsession), ?_, ?_⟩
      · rw [Serial.served, h.state, ← hexec default _ h.holds, ← hreplies default _ h.holds,
          happlied.exec, happlied.replies, ← h.state]
        have hput := h.put (i := i) (.some (.answering happlied))
        rwa [Config.put_self hconn] at hput
      · rw [Serial.served, h.state, ← hreplies default _ h.holds, happlied.replies]
        exact Serial.put_sessions_self a i _

/-- The program of one connection goes on without an access. -/
lemma Simulates.goto (h : Simulates S pre c a) (hconn : c.conns i = some conn)
    {prog : Prog σ ε ρ} (l : RwLock) (hatomic : conn.prog.Atomic pre → prog.Atomic pre)
    (happlied : conn.prog.Applied → prog.Applied ∧ prog.left = conn.prog.left)
    (hexec : ∀ env s, prog.exec env s = conn.prog.exec env s)
    (hreplies : ∀ env s, prog.replies env s = conn.prog.replies env s) :
    Simulates S pre ((c.withLock l).put i (some (conn.goto prog))) a := by
  rcases h.session hconn with ⟨session, hsession, hmirrors⟩
  rw [← Serial.put_self hsession]
  refine (h.withLock l).put (.some ?_)
  cases hmirrors with
  | waiting hold hsameExec hsameReplies =>
      exact @Mirrors.waiting _ _ _ _ _ _ _ (conn.goto prog) _ (hatomic hold)
        (fun env s hs => (hexec env s).trans (hsameExec env s hs))
        (fun env s hs => (hreplies env s).trans (hsameReplies env s hs))
  | answering hold =>
      rw [← (happlied hold).2]
      exact @Mirrors.answering _ _ _ _ _ _ _ (conn.goto prog) (happlied hold).1

/-- An access that takes effect is the frame being served; one that does not changes nothing. -/
lemma Simulates.access (h : Simulates S pre c a) (hconn : c.conns i = some conn)
    {update : ε → σ → σ} {rest : ε → σ → Prog σ ε ρ} (hprog : conn.prog = .access update rest)
    (env : ε) : ∃ a', Serial.Run S a [] a' ∧ Simulates S pre
      ((c.withState (update env c.state)).put i (some (conn.goto (rest env c.state)))) a' := by
  rcases h.session hconn with ⟨session, hsession, hmirrors⟩
  cases hmirrors with
  | answering happlied =>
      rw [hprog] at happlied
      exact absurd happlied id
  | @waiting frame hatomic hexec hreplies =>
      rw [hprog] at hatomic hexec hreplies
      rcases hatomic with ⟨hkeeps, happlied⟩ | ⟨rfl, hnext, hsame⟩
      · refine ⟨a.served S i conn.peer frame env, .single (.serve env hsession), ?_⟩
        rw [Serial.served, h.state, ← hexec env _ h.holds, ← hreplies env _ h.holds]
        show Simulates S pre _ { a.put i (some ⟨conn.peer, .answering
          ((rest env c.state).replies env (update env c.state))⟩) with
            state := (rest env c.state).exec env (update env c.state) }
        rw [(happlied env c.state).exec, (happlied env c.state).replies]
        exact (h.withState (hkeeps env _ h.holds)).put
          (.some (@Mirrors.answering _ _ _ _ _ _ _ (conn.goto _) (happlied env c.state)))
      · refine ⟨a, .refl, ?_⟩
        rw [← Serial.put_self hsession]
        refine h.put (.some (@Mirrors.waiting _ _ _ _ _ _ _ (conn.goto _) _
          (hnext env _ h.holds) ?_ ?_))
        · intro env' s hs
          show (rest env c.state).exec env' s = (S.handle conn.peer frame).exec env' s
          rw [← hexec env' s hs, hsame env c.state env' s h.holds hs]
          rfl
        · intro env' s hs
          show (rest env c.state).replies env' s = (S.handle conn.peer frame).replies env' s
          rw [← hreplies env' s hs, hsame env c.state env' s h.holds hs]
          rfl

/-- **One step of the locked server**, as the serial one makes it. -/
theorem Step.serial [Inhabited ε]
    (hS : ∀ peer frame, S.Reads frame → (S.handle peer frame).Atomic pre)
    {e : Event π φ ε} (hstep : Step S c e c') (h : Simulates S pre c a) :
    ∃ a', Serial.Run S a (c.seen e) a' ∧ Simulates S pre c' a' := by
  cases hstep with
  | @accept i peer hfree =>
      have hnone : a.sessions i = none := by
        have hrel := h.conns i
        rw [hfree] at hrel
        cases hsession : a.sessions i with
        | none => rfl
        | some session => rw [hsession] at hrel; cases hrel
      exact ⟨_, .single (.accept peer hnone),
        h.put (.some (@Mirrors.answering _ _ _ _ _ _ _ ⟨peer, none, .done⟩ trivial))⟩
  | @recv i conn frame hconn hprog hreads =>
      -- the frame before may have had nothing to do or to answer, and is served here
      obtain ⟨a', hrun, h', hsession⟩ := h.settle hconn (by rw [hprog]; trivial)
      rw [hprog] at hsession
      refine ⟨_, hrun.trans (.single (.recv frame hsession hreads)), h'.put (.some ?_)⟩
      exact @Mirrors.waiting _ _ _ _ _ _ _ ⟨conn.peer, some frame, S.handle conn.peer frame⟩ _
        (hS _ _ hreads) (fun _ _ _ => rfl) fun _ _ _ => rfl
  | request hconn hprog hnew => exact ⟨a, .refl, h.withLock _⟩
  | @grant i conn mode rest waiting hconn hprog hqueue hadmits =>
      refine ⟨a, .refl, h.goto hconn _ ?_ ?_ ?_ ?_⟩
      all_goals rw [hprog]
      · exact id
      · exact fun happlied => ⟨happlied, rfl⟩
      · exact fun _ _ => rfl
      · exact fun _ _ => rfl
  | access env hconn hprog => exact h.access hconn hprog env
  | @release i conn rest hconn hprog =>
      refine ⟨a, .refl, h.goto hconn _ ?_ ?_ ?_ ?_⟩
      all_goals rw [hprog]
      · exact id
      · exact fun happlied => ⟨happlied, rfl⟩
      · exact fun _ _ => rfl
      · exact fun _ _ => rfl
  | @drain i conn out rest hconn hprog =>
      have happlied : conn.prog.Applied := by
        rcases h.session hconn with ⟨session, -, hmirrors⟩
        cases hmirrors with
        | waiting hatomic => rw [hprog] at hatomic ⊢; exact hatomic
        | answering happlied => exact happlied
      obtain ⟨a', hrun, h', hsession⟩ := h.settle hconn happlied
      rw [hprog] at hsession happlied
      rw [Config.seen_drain hconn hprog]
      exact ⟨_, hrun.trans (.single (.reply hsession)),
        h'.put (.some (@Mirrors.answering _ _ _ _ _ _ _ (conn.goto rest) happlied))⟩
  | @close i conn hconn hprog =>
      have happlied : conn.prog.Applied := by
        rcases hprog with hdone | ⟨out, rest, hreply⟩
        · rw [hdone]
          trivial
        · rcases h.session hconn with ⟨session, -, hmirrors⟩
          cases hmirrors with
          | waiting hatomic => rw [hreply] at hatomic ⊢; exact hatomic
          | answering happlied => exact happlied
      obtain ⟨a', hrun, h', hsession⟩ := h.settle hconn happlied
      exact ⟨_, hrun.trans (.single (.close hsession)), (h'.withLock _).put .none⟩

/-- **Every history of the locked server is one of the serial server**, which ends in the same
state. -/
theorem Observed.serial [Inhabited ε]
    (hS : ∀ peer frame, S.Reads frame → (S.handle peer frame).Atomic pre)
    {history : List (Visible π φ ρ)} (hobserved : Observed S c history c')
    (h : Simulates S pre c a) : ∃ a', Serial.Run S a history a' ∧ Simulates S pre c' a' := by
  induction hobserved with
  | refl => exact ⟨a, .refl, h⟩
  | tail _ hstep ih =>
      rcases ih with ⟨mid, hrun, hmid⟩
      rcases hstep.serial hS hmid with ⟨a', hlast, ha'⟩
      exact ⟨a', hrun.trans hlast, ha'⟩

end Simulates

end Sync
