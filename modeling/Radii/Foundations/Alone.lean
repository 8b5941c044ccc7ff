import Radii.Foundations.LockedServer

/-!
# A program with the state to itself

`Prog.exec` is what a program leaves of the shared state when nobody else steps in: the accesses,
one after the other, all seeing the same environment.  `Prog.replies` is what it writes to its peer
meanwhile.  `Run.exec` and `Run.replies` say that this is what every run of that connection alone
ends in and writes.
-/

namespace Sync

variable {π φ σ ε ρ : Type}

/-- The state after the program has run alone. -/
def Prog.exec (env : ε) : Prog σ ε ρ → σ → σ
  | .done, s => s
  | .lock _ rest, s => rest.exec env s
  | .access update rest, s => (rest env s).exec env (update env s)
  | .unlock rest, s => rest.exec env s
  | .reply _ rest, s => rest.exec env s

/-- What the program writes when it runs alone. -/
def Prog.replies (env : ε) : Prog σ ε ρ → σ → List ρ
  | .done, _ => []
  | .lock _ rest, s => rest.replies env s
  | .access update rest, s => (rest env s).replies env (update env s)
  | .unlock rest, s => rest.replies env s
  | .reply out rest, s => out :: rest.replies env s

/-- The steps of connection `i` in its program, with `env` for the environment. -/
inductive Event.Alone (i : ℕ) (env : ε) : Event π φ ε → Prop where
  | request : Event.Alone i env (.request i)
  | grant : Event.Alone i env (.grant i)
  | access : Event.Alone i env (.access i env)
  | release : Event.Alone i env (.release i)
  | drain : Event.Alone i env (.drain i)

variable {S : Server π φ σ ε ρ} {c c' : Config π φ σ ε ρ} {i : ℕ} {env : ε}

/-- The connection goes on with a program that ends in the same and writes no more. -/
lemma exec_of_put {old new conn : Conn π φ σ ε ρ} (hconn : c.conns i = some conn)
    (hold : c.conns i = some old) (hnew : c'.conns i = some new)
    (hexec : new.prog.exec env c'.state = old.prog.exec env c.state)
    (hreplies : new.prog.replies env c'.state <:+ old.prog.replies env c.state) :
    ∃ conn', c'.conns i = some conn' ∧
      conn'.prog.exec env c'.state = conn.prog.exec env c.state ∧
      conn'.prog.replies env c'.state <:+ conn.prog.replies env c.state := by
  obtain rfl : conn = old := Option.some.inj (hconn.symm.trans hold)
  exact ⟨new, hnew, hexec, hreplies⟩

/-- What a connection alone will end in stays the same with every step, and what it will write
comes out from the front. -/
lemma Step.exec {e : Event π φ ε} (he : e.Alone i env) (hstep : Step S c e c')
    {conn : Conn π φ σ ε ρ} (hconn : c.conns i = some conn) :
    ∃ conn', c'.conns i = some conn' ∧
      conn'.prog.exec env c'.state = conn.prog.exec env c.state ∧
      conn'.prog.replies env c'.state <:+ conn.prog.replies env c.state := by
  cases he with
  | request =>
      cases hstep with
      | request => exact ⟨conn, hconn, rfl, List.suffix_refl _⟩
  | grant =>
      cases hstep with
      | grant hold hprog =>
          refine exec_of_put hconn hold (Config.put_conns_self _ _ _) ?_ ?_
          · rw [hprog]
            rfl
          · rw [hprog]
            exact List.suffix_refl _
  | access =>
      cases hstep with
      | access _ hold hprog =>
          refine exec_of_put hconn hold (Config.put_conns_self _ _ _) ?_ ?_
          · rw [hprog]
            rfl
          · rw [hprog]
            exact List.suffix_refl _
  | release =>
      cases hstep with
      | release hold hprog =>
          refine exec_of_put hconn hold (Config.put_conns_self _ _ _) ?_ ?_
          · rw [hprog]
            rfl
          · rw [hprog]
            exact List.suffix_refl _
  | drain =>
      cases hstep with
      | drain hold hprog =>
          refine exec_of_put hconn hold (Config.put_conns_self _ _ _) ?_ ?_
          · rw [hprog]
            rfl
          · rw [hprog]
            exact List.suffix_cons _ _

lemma Run.exec_eq (hrun : Run S (fun _ e => e.Alone i env) c c') {conn : Conn π φ σ ε ρ}
    (hconn : c.conns i = some conn) :
    ∃ conn', c'.conns i = some conn' ∧
      conn'.prog.exec env c'.state = conn.prog.exec env c.state ∧
      conn'.prog.replies env c'.state <:+ conn.prog.replies env c.state := by
  induction hrun with
  | refl => exact ⟨conn, hconn, rfl, List.suffix_refl _⟩
  | tail _ hlast ih =>
      rcases ih with ⟨mid, hmid, hsame, hleft⟩
      rcases hlast with ⟨e, he, hstep⟩
      rcases hstep.exec he hmid with ⟨conn', hconn', heq, hrest⟩
      exact ⟨conn', hconn', heq.trans hsame, hrest.trans hleft⟩

/-- **A run alone** to the end of the program leaves what `exec` says. -/
theorem Run.exec (hrun : Run S (fun _ e => e.Alone i env) c c') {conn conn' : Conn π φ σ ε ρ}
    (hconn : c.conns i = some conn) (hconn' : c'.conns i = some conn')
    (hdone : conn'.prog = .done) : c'.state = conn.prog.exec env c.state := by
  rcases hrun.exec_eq hconn with ⟨last, hlast, heq, -⟩
  rw [hconn', Option.some.injEq] at hlast
  subst hlast
  rw [hdone] at heq
  exact heq

/-- **What a run alone writes** is among what `replies` says. -/
theorem Run.replies (hrun : Run S (fun _ e => e.Alone i env) c c') {conn conn' : Conn π φ σ ε ρ}
    (hconn : c.conns i = some conn) (hconn' : c'.conns i = some conn') {out : ρ}
    {rest : Prog σ ε ρ} (hprog : conn'.prog = .reply out rest) :
    out ∈ conn.prog.replies env c.state := by
  rcases hrun.exec_eq hconn with ⟨last, hlast, -, hleft⟩
  rw [hconn', Option.some.injEq] at hlast
  subst hlast
  rw [hprog] at hleft
  exact hleft.subset List.mem_cons_self

end Sync
