import Radii.Foundations.LockedServer

/-!
# How far a task has come with its frame

`Step.advances` says what one step of a locked server does to one connection: nothing, or one
advance of its own program.  Two properties of programs follow their connection along these
advances: `RepliesLast` (the frame is answered once, and nothing comes after the answer) and
`Pending` / `Applied` (the frame's update is made once, before the answer).
-/

namespace Sync

variable {π φ σ ε ρ : Type}

/-! ## Advances -/

/-- The step labelled `e` takes the program of connection `i` one instruction further, and the
shared state from `s` to `s'`. -/
inductive Advance (i : ℕ) (s s' : σ) : Event π φ ε → Prog σ ε ρ → Prog σ ε ρ → Prop where
  | grant {mode rest} : Advance i s s' (.grant i) (.lock mode rest) rest
  | access {update rest} (env : ε) (hs : s' = update env s) :
      Advance i s s' (.access i env) (.access update rest) (rest env s)
  | release {rest} : Advance i s s' (.release i) (.unlock rest) rest
  | drain {out rest} : Advance i s s' (.drain i) (.reply out rest) rest

/-- What a step does to connection `j`, which is `conn` after it. -/
inductive ConnStep (S : Server π φ σ ε ρ) (c c' : Config π φ σ ε ρ) (j : ℕ)
    (conn : Conn π φ σ ε ρ) : Event π φ ε → Prop where
  | kept {e} (hold : c.conns j = some conn) : ConnStep S c c' j conn e
  | accepted (hframe : conn.frame = none) (hprog : conn.prog = .done) :
      ConnStep S c c' j conn (.accept j conn.peer)
  | received {old : Conn π φ σ ε ρ} {m} (hold : c.conns j = some old) (hdone : old.prog = .done)
      (hnew : conn = ⟨old.peer, some m, S.handle old.peer m⟩) : ConnStep S c c' j conn (.recv j m)
  | advanced {e} {old : Conn π φ σ ε ρ} {prog} (hold : c.conns j = some old)
      (hnew : conn = old.goto prog) (hadvance : Advance j c.state c'.state e old.prog prog) :
      ConnStep S c c' j conn e

/-- A step that replaces connection `i` only. -/
private lemma ConnStep.put {S : Server π φ σ ε ρ} {c c' a : Config π φ σ ε ρ} {e : Event π φ ε}
    {i j : ℕ} {new : Option (Conn π φ σ ε ρ)} {conn : Conn π φ σ ε ρ} (ha : a.conns = c.conns)
    (hself : ∀ conn, new = some conn → ConnStep S c c' i conn e)
    (hj : (a.put i new).conns j = some conn) : ConnStep S c c' j conn e := by
  by_cases hji : j = i
  · subst hji
    exact hself conn (by simpa using hj)
  · rw [Config.put_conns_of_ne _ _ hji, ha] at hj
    exact .kept hj

/-- **What one step does to one connection.** -/
theorem Step.advances {S : Server π φ σ ε ρ} {c c' : Config π φ σ ε ρ} {e : Event π φ ε}
    (hstep : Step S c e c') {j : ℕ} {conn : Conn π φ σ ε ρ} (hj : c'.conns j = some conn) :
    ConnStep S c c' j conn e := by
  cases hstep with
  | accept peer hfree =>
      refine .put rfl ?_ hj
      rintro _ ⟨rfl⟩
      exact .accepted rfl rfl
  | recv frame hconn hprog hreads =>
      refine .put rfl ?_ hj
      rintro _ ⟨rfl⟩
      exact .received hconn hprog rfl
  | request hconn hprog hnew => exact .kept hj
  | @grant i old mode rest waiting hconn hprog hqueue hadmits =>
      refine .put (by rw [Config.withLock_conns]) ?_ hj
      rintro _ ⟨rfl⟩
      exact .advanced hconn rfl (hprog ▸ .grant)
  | @access i old update rest env hconn hprog =>
      refine .put (by rw [Config.withState_conns]) ?_ hj
      rintro _ ⟨rfl⟩
      exact .advanced hconn rfl (hprog ▸ .access env rfl)
  | release hconn hprog =>
      refine .put (by rw [Config.withLock_conns]) ?_ hj
      rintro _ ⟨rfl⟩
      exact .advanced hconn rfl (hprog ▸ .release)
  | drain hconn hprog =>
      refine .put rfl ?_ hj
      rintro _ ⟨rfl⟩
      exact .advanced hconn rfl (hprog ▸ .drain)
  | close hconn hprog =>
      refine .put (by rw [Config.withLock_conns]) ?_ hj
      rintro _ ⟨⟩

/-- An opening adds one connection that waits for a frame. -/
lemma Step.accept_eq {S : Server π φ σ ε ρ} {c c' : Config π φ σ ε ρ} {i : ℕ} {peer : π}
    (hstep : Step S c (.accept i peer) c') :
    c.conns i = none ∧ c' = c.put i (some ⟨peer, none, .done⟩) := by
  cases hstep with
  | accept _ hfree => exact ⟨hfree, rfl⟩

/-- The update an access step makes is the one its connection's program is at. -/
lemma Step.access_state {S : Server π φ σ ε ρ} {c c' : Config π φ σ ε ρ} {i : ℕ} {env : ε}
    (hstep : Step S c (.access i env) c') {conn : Conn π φ σ ε ρ} {update : ε → σ → σ}
    {rest : ε → σ → Prog σ ε ρ} (hconn : c.conns i = some conn)
    (hprog : conn.prog = .access update rest) : c'.state = update env c.state := by
  cases hstep with
  | access _ hconn' hprog' =>
      rw [hconn, Option.some.injEq] at hconn'
      subst hconn'
      rw [hprog, Prog.access.injEq] at hprog'
      rw [hprog'.1]
      rfl

/-- A reply that has been taken leaves its connection with what follows it. -/
lemma Step.drain_eq {S : Server π φ σ ε ρ} {c c' : Config π φ σ ε ρ} {i : ℕ}
    (hstep : Step S c (.drain i) c') {conn : Conn π φ σ ε ρ} {out : ρ} {rest : Prog σ ε ρ}
    (hconn : c.conns i = some conn) (hprog : conn.prog = .reply out rest) :
    c' = c.put i (some (conn.goto rest)) := by
  cases hstep with
  | drain hconn' hprog' =>
      rw [hconn, Option.some.injEq] at hconn'
      subst hconn'
      rw [hprog, Prog.reply.injEq] at hprog'
      rw [hprog'.2]

/-! ## Answered once, at the end -/

/-- The program writes one reply, and that is the last thing it does. -/
def Prog.RepliesLast : Prog σ ε ρ → Prop
  | .done => False
  | .lock _ rest => rest.RepliesLast
  | .access _ rest => ∀ env s, (rest env s).RepliesLast
  | .unlock rest => rest.RepliesLast
  | .reply _ rest => rest = .done

/-- Before its reply a program keeps `RepliesLast`; with it, it is done. -/
lemma Prog.RepliesLast.advance {i : ℕ} {s s' : σ} {e : Event π φ ε} {prog prog' : Prog σ ε ρ}
    (h : prog.RepliesLast) (hadvance : Advance i s s' e prog prog') :
    prog'.RepliesLast ∨ e = .drain i ∧ prog' = .done := by
  cases hadvance with
  | grant => exact Or.inl h
  | access env hs => exact Or.inl (h env s)
  | release => exact Or.inl h
  | drain => exact Or.inr ⟨rfl, h⟩

/-! ## Updated once, before the answer -/

/-- No access is left. -/
def Prog.Applied : Prog σ ε ρ → Prop
  | .done => True
  | .lock _ rest => rest.Applied
  | .access _ _ => False
  | .unlock rest => rest.Applied
  | .reply _ rest => rest.Applied

/-- While the state satisfies `pre`, the program makes the update `u` before it replies, and
changes the state in no other way. -/
def Prog.Pending (pre : σ → Prop) (u : ε → σ → σ) : Prog σ ε ρ → Prop
  | .done => False
  | .lock _ rest => rest.Pending pre u
  | .access update rest => update = u ∧ (∀ env s, (rest env s).Applied) ∨
      (update = fun _ s => s) ∧ ∀ env s, pre s → (rest env s).Pending pre u
  | .unlock rest => rest.Pending pre u
  | .reply _ _ => False

lemma Prog.Applied.advance {i : ℕ} {s s' : σ} {e : Event π φ ε} {prog prog' : Prog σ ε ρ}
    (h : prog.Applied) (hadvance : Advance i s s' e prog prog') : prog'.Applied := by
  cases hadvance with
  | grant => exact h
  | access env hs => exact absurd h id
  | release => exact h
  | drain => exact h

/-- A pending program stays pending, or makes its update in this step. -/
lemma Prog.Pending.advance {pre : σ → Prop} {u : ε → σ → σ} {i : ℕ} {s s' : σ}
    {e : Event π φ ε} {prog prog' : Prog σ ε ρ} (h : prog.Pending pre u) (hs : pre s)
    (hadvance : Advance i s s' e prog prog') :
    prog'.Pending pre u ∨
      prog'.Applied ∧ ∃ env rest, e = .access i env ∧ prog = .access u rest := by
  cases hadvance with
  | grant => exact Or.inl h
  | access env hupdate =>
      rcases h with ⟨rfl, hrest⟩ | ⟨-, hrest⟩
      · exact Or.inr ⟨hrest env s, env, _, rfl, rfl⟩
      · exact Or.inl (hrest env s hs)
  | release => exact Or.inl h
  | drain => exact absurd h id

/-! ## What it answers -/

/-- As long as all that it sees satisfies `pre`, every reply is one of `out`. -/
def Prog.Tells (pre : ε → σ → Prop) (out : ρ → Prop) : Prog σ ε ρ → Prop
  | .done => True
  | .lock _ rest => rest.Tells pre out
  | .access _ rest => ∀ env s, pre env s → (rest env s).Tells pre out
  | .unlock rest => rest.Tells pre out
  | .reply m rest => out m ∧ rest.Tells pre out

lemma Prog.tells_of_forall {pre : ε → σ → Prop} {out : ρ → Prop} (h : ∀ m, out m)
    (prog : Prog σ ε ρ) : prog.Tells pre out := by
  induction prog with
  | done => trivial
  | lock mode rest ih => exact ih
  | access update rest ih => exact fun env s _ => ih env s
  | unlock rest ih => exact ih
  | reply m rest ih => exact ⟨h m, ih⟩

lemma Prog.Tells.advance {pre : ε → σ → Prop} {out : ρ → Prop} {i : ℕ} {s s' : σ}
    {e : Event π φ ε} {prog prog' : Prog σ ε ρ} (h : prog.Tells pre out)
    (hs : ∀ env, e = .access i env → pre env s) (hadvance : Advance i s s' e prog prog') :
    prog'.Tells pre out := by
  cases hadvance with
  | grant => exact h
  | access env hupdate => exact h env s (hs env rfl)
  | release => exact h
  | drain => exact h.2

end Sync
