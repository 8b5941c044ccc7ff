import Radii.Foundations.LockedServer

/-!
# Who holds the lock, and who can go on

`Prog.Guarded` says of a handler's code that it pairs its locks and releases, and whether it writes
replies with the lock held.  `Run.disciplined` carries this to every configuration of every run.
`settles` is what the discipline is for: if no task replies under the lock, every task can be run
on to its reply by steps of the server alone, whatever the peers do.
-/

namespace Sync

variable {π φ σ ε ρ : Type}

/-! ## Pairing locks with releases -/

/-- The program, entered with the lock or without it, pairs its locks and releases; it writes a
reply with the lock held exactly if `late`. -/
def Prog.Guarded (late : Prop) : Bool → Prog σ ε ρ → Prop
  | held, .done => held = false
  | held, .lock _ rest => held = false ∧ rest.Guarded late true
  | held, .access _ rest => held = true ∧ ∀ env s, (rest env s).Guarded late true
  | held, .unlock rest => held = true ∧ rest.Guarded late false
  | held, .reply _ rest => (held = true ↔ late) ∧ rest.Guarded late held

/-- Whether the connection is handling a frame whose reply is written under the lock. -/
def Conn.Late (late : π → φ → Prop) (conn : Conn π φ σ ε ρ) : Prop :=
  ∃ m, conn.frame = some m ∧ late conn.peer m

/-- Every task holds the lock exactly where its program says so, and waits for it at most once. -/
structure Config.Disciplined (late : π → φ → Prop) (c : Config π φ σ ε ρ) : Prop where
  tasks : c.lock.tasks.Nodup
  owners : ∀ i, c.lock.heldBy i = true → ∃ conn, c.conns i = some conn
  queued : ∀ i mode, (i, mode) ∈ c.lock.queue →
    ∃ conn rest, c.conns i = some conn ∧ conn.prog = .lock mode rest
  guarded : ∀ i conn, c.conns i = some conn →
    conn.prog.Guarded (conn.Late late) (c.lock.heldBy i)

section Disciplined

variable {S : Server π φ σ ε ρ} {late : π → φ → Prop}

lemma disciplined_initial (s : σ) :
    (Config.initial s : Config π φ σ ε ρ).Disciplined late :=
  ⟨by simp [Config.initial, RwLock.free, RwLock.tasks],
    fun i h => by simp [Config.initial, RwLock.free, RwLock.heldBy] at h,
    fun i mode h => by simp [Config.initial, RwLock.free] at h,
    fun i conn h => by simp [Config.initial] at h⟩

/-- A task waits only where its program asks for the lock. -/
lemma Config.Disciplined.not_queued {c : Config π φ σ ε ρ} (h : c.Disciplined late) {i : ℕ}
    (hi : ∀ conn mode rest, c.conns i = some conn → conn.prog ≠ .lock mode rest) :
    ∀ mode, (i, mode) ∉ c.lock.queue := by
  intro mode hmem
  obtain ⟨conn, rest, hconn, hprog⟩ := h.queued i mode hmem
  exact hi conn mode rest hconn hprog

lemma Config.Disciplined.not_queued_at {c : Config π φ σ ε ρ} (h : c.Disciplined late) {i : ℕ}
    {conn : Conn π φ σ ε ρ} (hconn : c.conns i = some conn)
    (hprog : ∀ mode rest, conn.prog ≠ .lock mode rest) (mode : LockMode) :
    (i, mode) ∉ c.lock.queue := by
  refine h.not_queued ?_ mode
  intro other mode' rest hother
  rw [hconn] at hother
  rw [← Option.some.inj hother]
  exact hprog mode' rest

/-- A task that asks for the lock does not hold it. -/
lemma Config.Disciplined.not_held_at {c : Config π φ σ ε ρ} (h : c.Disciplined late) {i : ℕ}
    {conn : Conn π φ σ ε ρ} {mode : LockMode} {rest : Prog σ ε ρ} (hconn : c.conns i = some conn)
    (hprog : conn.prog = .lock mode rest) : c.lock.heldBy i = false := by
  have hg := h.guarded i conn hconn
  rw [hprog] at hg
  exact hg.1

/-- A task that holds the lock does not wait for it. -/
lemma Config.Disciplined.not_queued_of_held {c : Config π φ σ ε ρ} (h : c.Disciplined late)
    {i : ℕ} (hi : c.lock.heldBy i = true) (mode : LockMode) : (i, mode) ∉ c.lock.queue := by
  intro hmem
  rcases h.queued i mode hmem with ⟨conn, rest, hconn, hprog⟩
  rw [h.not_held_at hconn hprog] at hi
  simp at hi

/-- Those that wait go on waiting when a connection changes that does not. -/
lemma Config.Disciplined.queued_put {c : Config π φ σ ε ρ} (h : c.Disciplined late) {i : ℕ}
    (hi : ∀ mode, (i, mode) ∉ c.lock.queue) (new : Option (Conn π φ σ ε ρ)) {j : ℕ}
    {mode : LockMode} (hj : (j, mode) ∈ c.lock.queue) :
    ∃ conn rest, (c.put i new).conns j = some conn ∧ conn.prog = .lock mode rest := by
  have hji : j ≠ i := by
    rintro rfl
    exact hi mode hj
  rw [Config.put_conns_of_ne _ _ hji]
  exact h.queued j mode hj

/-- One connection changes, the lock does not. -/
lemma Config.Disciplined.put {c : Config π φ σ ε ρ} (h : c.Disciplined late) {i : ℕ}
    (hi : ∀ mode, (i, mode) ∉ c.lock.queue) {conn : Conn π φ σ ε ρ}
    (hg : conn.prog.Guarded (conn.Late late) (c.lock.heldBy i)) :
    (c.put i (some conn)).Disciplined late := by
  refine ⟨h.tasks, ?_, fun j mode hj => h.queued_put hi _ hj, ?_⟩
  · intro j hj
    by_cases hji : j = i
    · exact ⟨conn, by rw [hji, Config.put_conns_self]⟩
    · rw [Config.put_conns_of_ne _ _ hji]
      exact h.owners j hj
  · intro j other hj
    by_cases hji : j = i
    · subst hji
      rw [Config.put_conns_self] at hj
      exact Option.some.inj hj ▸ hg
    · rw [Config.put_conns_of_ne _ _ hji] at hj
      exact h.guarded j other hj

/-- A task gives the lock back and goes on, or ends. -/
lemma Config.Disciplined.release {c : Config π φ σ ε ρ} (h : c.Disciplined late) {i : ℕ}
    (hi : ∀ mode, (i, mode) ∉ c.lock.queue) {new : Option (Conn π φ σ ε ρ)}
    (hg : ∀ conn, new = some conn → conn.prog.Guarded (conn.Late late) false) :
    ((c.withLock (c.lock.release i)).put i new).Disciplined late := by
  refine ⟨?_, ?_, fun j mode hj => h.queued_put hi new hj, ?_⟩
  · exact h.tasks.sublist ((List.Sublist.append_right List.filter_sublist _).map _)
  · intro j hj
    by_cases hji : j = i
    · subst hji
      simp at hj
    · rw [Config.put_conns_of_ne _ _ hji]
      exact h.owners j (by simpa [RwLock.heldBy_release_of_ne _ hji] using hj)
  · intro j other hj
    by_cases hji : j = i
    · subst hji
      rw [Config.put_conns_self] at hj
      simpa using hg other hj
    · rw [Config.put_conns_of_ne _ _ hji] at hj
      simpa [RwLock.heldBy_release_of_ne _ hji] using h.guarded j other hj

/-- A task that neither holds the lock nor waits for it asks for it. -/
lemma Config.Disciplined.request {c : Config π φ σ ε ρ} (h : c.Disciplined late) {i : ℕ}
    {conn : Conn π φ σ ε ρ} {mode : LockMode} {rest : Prog σ ε ρ} (hconn : c.conns i = some conn)
    (hprog : conn.prog = .lock mode rest) (hnew : ∀ m, (i, m) ∉ c.lock.queue) :
    (c.withLock (c.lock.request i mode)).Disciplined late := by
  have hheld := h.not_held_at hconn hprog
  refine ⟨?_, h.owners, ?_, h.guarded⟩
  · have htasks : (c.lock.request i mode).tasks = c.lock.tasks ++ [i] := by
      simp [RwLock.tasks, RwLock.request]
    rw [Config.withLock_lock, htasks]
    refine List.Nodup.append h.tasks (List.nodup_singleton i) ?_
    rw [List.disjoint_singleton]
    intro hmem
    rw [RwLock.tasks, List.map_append, List.mem_append] at hmem
    rcases hmem with hmem | hmem
    · rw [← RwLock.heldBy_eq_true, hheld] at hmem
      simp at hmem
    · rw [List.mem_map] at hmem
      rcases hmem with ⟨⟨j, m⟩, hmem, rfl⟩
      exact hnew m hmem
  · intro j m hj
    simp only [Config.withLock_lock, RwLock.request, List.mem_append,
      List.mem_singleton, Prod.mk.injEq] at hj
    rcases hj with hj | ⟨rfl, rfl⟩
    · exact h.queued j m hj
    · exact ⟨conn, rest, hconn, hprog⟩

/-- The task at the head of the queue is let in and goes on. -/
lemma Config.Disciplined.grant {c : Config π φ σ ε ρ} (h : c.Disciplined late) {i : ℕ}
    {conn : Conn π φ σ ε ρ} {mode : LockMode} {rest : Prog σ ε ρ} {waiting : List (ℕ × LockMode)}
    (hconn : c.conns i = some conn) (hprog : conn.prog = .lock mode rest)
    (hqueue : c.lock.queue = (i, mode) :: waiting) :
    ((c.withLock (c.lock.enter i mode waiting)).put i (some (conn.goto rest))).Disciplined
      late := by
  have hperm : ((c.lock.enter i mode waiting).tasks).Perm c.lock.tasks := by
    simp only [RwLock.tasks, RwLock.enter, hqueue]
    exact List.Perm.map _ List.perm_middle.symm
  have hnodup := hperm.nodup_iff.mpr h.tasks
  have hrest : conn.prog.Guarded (conn.Late late) (c.lock.heldBy i) := h.guarded i conn hconn
  rw [hprog] at hrest
  refine ⟨hnodup, ?_, ?_, ?_⟩
  · intro j hj
    by_cases hji : j = i
    · exact ⟨conn.goto rest, by rw [hji, Config.put_conns_self]⟩
    · rw [Config.put_conns_of_ne _ _ hji]
      exact h.owners j (by simpa [RwLock.heldBy_enter_of_ne _ _ _ hji] using hj)
  · intro j m hj
    have hji : j ≠ i := by
      rintro rfl
      simp only [RwLock.tasks, RwLock.enter, List.cons_append, List.map_cons,
        List.nodup_cons] at hnodup
      exact hnodup.1 (List.mem_map.mpr ⟨(j, m), List.mem_append_right _ hj, rfl⟩)
    rw [Config.put_conns_of_ne _ _ hji]
    exact h.queued j m (by rw [hqueue]; exact List.mem_cons_of_mem _ hj)
  · intro j other hj
    by_cases hji : j = i
    · subst hji
      rw [Config.put_conns_self] at hj
      rw [← Option.some.inj hj, Config.put_lock, Config.withLock_lock,
        RwLock.heldBy_enter_self]
      exact hrest.2
    · rw [Config.put_conns_of_ne _ _ hji] at hj
      simpa [RwLock.heldBy_enter_of_ne _ _ _ hji] using h.guarded j other hj

/-- **One step keeps the discipline**, if every handler pairs its locks and releases. -/
theorem Config.Disciplined.step
    (hS : ∀ peer m, S.Reads m → (S.handle peer m).Guarded (late peer m) false)
    {c c' : Config π φ σ ε ρ} {e : Event π φ ε} (hstep : Step S c e c')
    (h : c.Disciplined late) : c'.Disciplined late := by
  cases hstep with
  | @accept i peer hfree =>
      have hheld : c.lock.heldBy i = false := by
        by_contra hheld
        obtain ⟨conn, hconn⟩ := h.owners i (by simpa using hheld)
        rw [hfree] at hconn
        simp at hconn
      refine h.put (h.not_queued ?_) hheld
      intro conn mode rest hconn
      rw [hfree] at hconn
      simp at hconn
  | @recv i conn frame hconn hprog hreads =>
      have hheld : c.lock.heldBy i = false := by
        have := h.guarded i conn hconn
        rwa [hprog] at this
      refine h.put (h.not_queued_at hconn ?_) ?_
      · rw [hprog]
        simp
      · have hlate : Conn.Late late (⟨conn.peer, some frame, S.handle conn.peer frame⟩ :
            Conn π φ σ ε ρ) = late conn.peer frame := by
          simp [Conn.Late]
        rw [hlate, hheld]
        exact hS _ _ hreads
  | request hconn hprog hnew => exact h.request hconn hprog hnew
  | grant hconn hprog hqueue hadmits => exact h.grant hconn hprog hqueue
  | @access i conn update rest env hconn hprog =>
      have hg := h.guarded i conn hconn
      rw [hprog] at hg
      have h' : (c.withState (update env c.state)).Disciplined late :=
        ⟨h.tasks, h.owners, h.queued, h.guarded⟩
      refine h'.put (h.not_queued_of_held hg.1) ?_
      rw [Config.withState_lock, hg.1]
      exact hg.2 env c.state
  | @release i conn rest hconn hprog =>
      have hg := h.guarded i conn hconn
      rw [hprog] at hg
      refine h.release (h.not_queued_of_held hg.1) ?_
      intro new hnew
      rw [← Option.some.inj hnew]
      exact hg.2
  | @drain i conn out rest hconn hprog =>
      have hg := h.guarded i conn hconn
      rw [hprog] at hg
      refine h.put (h.not_queued_at hconn ?_) hg.2
      rw [hprog]
      simp
  | @close i conn hconn hprog =>
      refine h.release (h.not_queued_at hconn ?_) (by simp)
      rcases hprog with hprog | ⟨out, rest, hprog⟩
      · rw [hprog]; simp
      · rw [hprog]; simp

/-- **Every run keeps the discipline.** -/
theorem Run.disciplined
    (hS : ∀ peer m, S.Reads m → (S.handle peer m).Guarded (late peer m) false)
    {ok : Config π φ σ ε ρ → Event π φ ε → Prop} {s : σ} {c : Config π φ σ ε ρ}
    (hrun : Run S ok (Config.initial s) c) : c.Disciplined late :=
  hrun.invariant (fun _ _ _ _ hstep h => Config.Disciplined.step hS hstep h)
    (disciplined_initial s)

/-- At a reply, the lock is held exactly by the tasks that reply late. -/
lemma Config.Disciplined.heldBy_reply {c : Config π φ σ ε ρ} (h : c.Disciplined late) {i : ℕ}
    {conn : Conn π φ σ ε ρ} (hconn : c.conns i = some conn) {out : ρ} {rest : Prog σ ε ρ}
    (hprog : conn.prog = .reply out rest) :
    c.lock.heldBy i = true ↔ conn.Late late := by
  have hg := h.guarded i conn hconn
  rw [hprog] at hg
  exact hg.1

/-! ## Every task can reach its reply -/

/-- No connection is handling a frame whose reply is written under the lock. -/
def Config.NoneLate (late : π → φ → Prop) (c : Config π φ σ ε ρ) : Prop :=
  ∀ i conn, c.conns i = some conn → ¬ conn.Late late

/-- Runs the server can make on its own. -/
abbrev QuietRun (S : Server π φ σ ε ρ) : Config π φ σ ε ρ → Config π φ σ ε ρ → Prop :=
  Run S fun _ e => e.Quiet

/-- The task is past its accesses: it reads its next frame or writes a reply. -/
def Conn.Settled (conn : Conn π φ σ ε ρ) : Prop :=
  conn.prog = .done ∨ ∃ out rest, conn.prog = .reply out rest

/-- A frame that was not late is not late after a step that reads none. -/
lemma Config.NoneLate.step {c c' : Config π φ σ ε ρ} {e : Event π φ ε} (h : c.NoneLate late)
    (hstep : Step S c e c')
    (he : ∀ i conn m, e = .recv i m → c.conns i = some conn → ¬ late conn.peer m) :
    c'.NoneLate late := by
  rintro j conn hj ⟨m, hframe, hlate⟩
  rcases hstep.conn_cases hj with ⟨-, hnone⟩ | ⟨old, hold, hpeer, hsame | ⟨m', rfl, hnew⟩⟩
  · rw [hnone] at hframe
    simp at hframe
  · exact h j old hold ⟨m, hsame ▸ hframe, hpeer ▸ hlate⟩
  · rw [hnew, Option.some.injEq] at hframe
    subst hframe
    exact he j old m' rfl hold (hpeer ▸ hlate)

lemma Config.NoneLate.quiet {c c' : Config π φ σ ε ρ} {e : Event π φ ε} (h : c.NoneLate late)
    (hstep : Step S c e c') (he : e.Quiet) : c'.NoneLate late :=
  h.step hstep (by rintro i conn m rfl; exact he.elim)

lemma Config.NoneLate.run {c c' : Config π φ σ ε ρ} (hrun : QuietRun S c c')
    (h : c.NoneLate late) : c'.NoneLate late :=
  hrun.invariant (fun _ _ _ he hstep h => Config.NoneLate.quiet h hstep he) h

lemma QuietRun.head {c mid c' : Config π φ σ ε ρ} {e : Event π φ ε} (hstep : Step S c e mid)
    (he : e.Quiet) (hrun : QuietRun S mid c') : QuietRun S c c' :=
  Relation.ReflTransGen.head ⟨e, he, hstep⟩ hrun

section Progress

variable (hS : ∀ peer m, S.Reads m → (S.handle peer m).Guarded (late peer m) false)

include hS in
lemma Config.Disciplined.run {c c' : Config π φ σ ε ρ}
    {ok : Config π φ σ ε ρ → Event π φ ε → Prop} (hrun : Run S ok c c')
    (h : c.Disciplined late) : c'.Disciplined late :=
  hrun.invariant (fun _ _ _ _ hstep h => Config.Disciplined.step hS hstep h) h

variable [Inhabited ε]

include hS in
/-- A task that holds the lock can run on to its release; no other task moves meanwhile. -/
lemma leaves (j : ℕ) (prog : Prog σ ε ρ) : ∀ (c : Config π φ σ ε ρ) (conn : Conn π φ σ ε ρ),
    c.Disciplined late → c.NoneLate late → c.conns j = some conn → conn.prog = prog →
    c.lock.heldBy j = true →
    ∃ c' rest, QuietRun S c c' ∧ c'.lock = c.lock.release j ∧
      c'.conns j = some (conn.goto rest) ∧ ∀ k, k ≠ j → c'.conns k = c.conns k := by
  induction prog with
  | done =>
      intro c conn h _ hconn hprog hheld
      have hg := h.guarded j conn hconn
      rw [hprog, hheld, Prog.Guarded] at hg
      simp at hg
  | lock mode rest _ =>
      intro c conn h _ hconn hprog hheld
      have hg := h.guarded j conn hconn
      rw [hprog, hheld, Prog.Guarded] at hg
      simp at hg
  | access update rest ih =>
      intro c conn h hno hconn hprog hheld
      have hstep := Step.access (S := S) default hconn hprog
      obtain ⟨c', rest', hrun, hlock, hj, hothers⟩ :=
        ih default c.state _ (conn.goto (rest default c.state)) (h.step hS hstep)
          (hno.quiet hstep trivial) (Config.put_conns_self _ _ _) rfl hheld
      refine ⟨c', rest', QuietRun.head hstep trivial hrun, hlock, hj, ?_⟩
      intro k hk
      rw [hothers k hk, Config.put_conns_of_ne _ _ hk, Config.withState_conns]
  | unlock rest _ =>
      intro c conn h hno hconn hprog hheld
      have hstep := Step.release (S := S) hconn hprog
      refine ⟨_, rest, QuietRun.head hstep trivial Relation.ReflTransGen.refl, rfl,
        Config.put_conns_self _ _ _, ?_⟩
      intro k hk
      rw [Config.put_conns_of_ne _ _ hk, Config.withLock_conns]
  | reply out rest _ =>
      intro c conn h hno hconn hprog hheld
      exact absurd ((h.heldBy_reply hconn hprog).mp hheld) (hno j conn hconn)

include hS in
/-- All the holders can leave; tasks that do not hold the lock do not move meanwhile. -/
lemma drains (n : ℕ) : ∀ c : Config π φ σ ε ρ, c.lock.holders.length ≤ n →
    c.Disciplined late → c.NoneLate late →
    ∃ c', QuietRun S c c' ∧ c'.lock.holders = [] ∧ c'.lock.queue = c.lock.queue ∧
      ∀ k, c.lock.heldBy k = false → c'.conns k = c.conns k := by
  induction n with
  | zero =>
      intro c hn _ _
      exact ⟨c, Relation.ReflTransGen.refl, List.eq_nil_of_length_eq_zero (by omega), rfl,
        fun _ _ => rfl⟩
  | succ n ih =>
      intro c hn h hno
      cases hholders : c.lock.holders with
      | nil => exact ⟨c, Relation.ReflTransGen.refl, hholders, rfl, fun _ _ => rfl⟩
      | cons holder others =>
          have hheld : c.lock.heldBy holder.1 = true := by simp [RwLock.heldBy, hholders]
          obtain ⟨conn, hconn⟩ := h.owners _ hheld
          obtain ⟨mid, rest, hrun, hlock, -, hothers⟩ :=
            leaves hS holder.1 conn.prog c conn h hno hconn rfl hheld
          have hlen := RwLock.length_release_lt hheld
          obtain ⟨c', hrun', hnil, hqueue, hrest⟩ := ih mid (by rw [hlock]; omega)
            (h.run hS hrun) (hno.run hrun)
          refine ⟨c', hrun.trans hrun', hnil, by rw [hqueue, hlock]; rfl, ?_⟩
          intro k hk
          have hne : k ≠ holder.1 := by rintro rfl; rw [hheld] at hk; simp at hk
          rw [hrest k (by rw [hlock, RwLock.heldBy_release_of_ne _ hne, hk]), hothers k hne]

include hS in
/-- A waiting task can get the lock: those before it in the queue enter and leave, one by one. -/
lemma granted (i : ℕ) (before : List (ℕ × LockMode)) :
    ∀ (c : Config π φ σ ε ρ) (conn : Conn π φ σ ε ρ) (mode : LockMode) (rest : Prog σ ε ρ)
      (after : List (ℕ × LockMode)),
    c.Disciplined late → c.NoneLate late → c.conns i = some conn →
    conn.prog = .lock mode rest → c.lock.queue = before ++ (i, mode) :: after →
    ∃ c', QuietRun S c c' ∧ c'.conns i = some (conn.goto rest) := by
  induction before with
  | nil =>
      intro c conn mode rest after h hno hconn hprog hqueue
      have hheld := h.not_held_at hconn hprog
      obtain ⟨mid, hrun, hnil, hmid, hsame⟩ := drains hS _ c (le_refl _) h hno
      have hstep := Step.grant (S := S) (by rw [hsame i hheld, hconn]) hprog
        (by rw [hmid, hqueue, List.nil_append]) (RwLock.admits_of_holders_nil hnil mode)
      exact ⟨_, hrun.trans (QuietRun.head hstep trivial
        Relation.ReflTransGen.refl), Config.put_conns_self _ _ _⟩
  | cons first before ih =>
      intro c conn mode rest after h hno hconn hprog hqueue
      have hheld := h.not_held_at hconn hprog
      obtain ⟨mid, hrun, hnil, hmid, hsame⟩ := drains hS _ c (le_refl _) h hno
      have h' := h.run hS hrun
      have hqueue' : mid.lock.queue = (first.1, first.2) :: (before ++ (i, mode) :: after) := by
        rw [hmid, hqueue, List.cons_append]
      obtain ⟨other, rest', hother, hprog'⟩ :=
        h'.queued first.1 first.2 (by rw [hqueue']; exact List.mem_cons_self)
      have hstep := Step.grant (S := S) hother hprog' hqueue'
        (RwLock.admits_of_holders_nil hnil first.2)
      have hne : i ≠ first.1 := by
        rintro rfl
        have htasks := h'.tasks
        rw [RwLock.tasks, hnil, hqueue'] at htasks
        simp at htasks
      obtain ⟨c', hrun', hc'⟩ := ih _ conn mode rest after (h'.step hS hstep)
        ((hno.run hrun).quiet hstep trivial)
        (by rw [Config.put_conns_of_ne _ _ hne, Config.withLock_conns, hsame i hheld, hconn])
        hprog rfl
      exact ⟨c', hrun.trans (QuietRun.head hstep trivial hrun'), hc'⟩

include hS in
/-- **Every task can finish its work on the state.**  If no task replies under the lock, then any
task can be run on, by steps that wait for no peer, until it reads or replies. -/
theorem settles (i : ℕ) (prog : Prog σ ε ρ) :
    ∀ (c : Config π φ σ ε ρ) (conn : Conn π φ σ ε ρ), c.Disciplined late → c.NoneLate late →
    c.conns i = some conn → conn.prog = prog →
    ∃ c' conn', QuietRun S c c' ∧ c'.conns i = some conn' ∧ conn'.peer = conn.peer ∧
      conn'.frame = conn.frame ∧ conn'.Settled := by
  induction prog with
  | done =>
      intro c conn _ _ hconn hprog
      exact ⟨c, conn, Relation.ReflTransGen.refl, hconn, rfl, rfl, Or.inl hprog⟩
  | reply out rest _ =>
      intro c conn _ _ hconn hprog
      exact ⟨c, conn, Relation.ReflTransGen.refl, hconn, rfl, rfl, Or.inr ⟨out, rest, hprog⟩⟩
  | lock mode rest ih =>
      intro c conn h hno hconn hprog
      have hgranted : ∃ c', QuietRun S c c' ∧ c'.conns i = some (conn.goto rest) := by
        by_cases hnew : ∀ m, (i, m) ∉ c.lock.queue
        · have hstep := Step.request (S := S) hconn hprog hnew
          obtain ⟨c', hrun, hc'⟩ := granted hS i c.lock.queue _ conn mode rest []
            (h.step hS hstep) (hno.quiet hstep trivial) hconn hprog rfl
          exact ⟨c', QuietRun.head hstep trivial hrun, hc'⟩
        · push Not at hnew
          rcases hnew with ⟨m, hmem⟩
          obtain ⟨conn', rest', hconn', hprog'⟩ := h.queued i m hmem
          rw [hconn, Option.some.injEq] at hconn'
          subst hconn'
          rw [hprog, Prog.lock.injEq] at hprog'
          rcases hprog' with ⟨rfl, rfl⟩
          rcases List.append_of_mem hmem with ⟨before, after, hqueue⟩
          exact granted hS i before c conn mode rest after h hno hconn hprog hqueue
      rcases hgranted with ⟨mid, hrun, hmid⟩
      obtain ⟨c', conn', hrun', hc', hpeer, hframe, hsettled⟩ :=
        ih mid (conn.goto rest) (h.run hS hrun) (hno.run hrun) hmid rfl
      exact ⟨c', conn', hrun.trans hrun', hc', hpeer, hframe, hsettled⟩
  | access update rest ih =>
      intro c conn h hno hconn hprog
      have hstep := Step.access (S := S) default hconn hprog
      obtain ⟨c', conn', hrun, hc', hpeer, hframe, hsettled⟩ :=
        ih default c.state _ (conn.goto (rest default c.state)) (h.step hS hstep)
          (hno.quiet hstep trivial) (Config.put_conns_self _ _ _) rfl
      exact ⟨c', conn', QuietRun.head hstep trivial hrun, hc', hpeer, hframe, hsettled⟩
  | unlock rest ih =>
      intro c conn h hno hconn hprog
      have hstep := Step.release (S := S) hconn hprog
      obtain ⟨c', conn', hrun, hc', hpeer, hframe, hsettled⟩ :=
        ih _ (conn.goto rest) (h.step hS hstep)
          (hno.quiet hstep trivial) (Config.put_conns_self _ _ _) rfl
      exact ⟨c', conn', QuietRun.head hstep trivial hrun, hc', hpeer, hframe, hsettled⟩

end Progress

/-- **A task that replies under the write lock stops all the others.**  No step of the server's
own moves any connection until that reply has been read. -/
theorem blocked {c c' : Config π φ σ ε ρ} (h : c.Disciplined late) {j : ℕ}
    (hholders : c.lock.holders = [(j, .write)]) {conn : Conn π φ σ ε ρ}
    (hconn : c.conns j = some conn) {out : ρ} {rest : Prog σ ε ρ}
    (hprog : conn.prog = .reply out rest) (hrun : QuietRun S c c') : c'.conns = c.conns := by
  -- only the holder could move, and it waits for its peer
  have hheld : ∀ i other, c.conns i = some other → c.lock.heldBy i = true →
      other.prog = .reply out rest := by
    intro i other hother hi
    rw [RwLock.heldBy_eq_true, hholders] at hi
    obtain rfl : i = j := by simpa using hi
    rw [hconn, Option.some.injEq] at hother
    rw [← hother, hprog]
  suffices c'.conns = c.conns ∧ c'.lock.holders = [(j, .write)] from this.1
  refine hrun.invariant (I := fun c' => c'.conns = c.conns ∧ c'.lock.holders = [(j, .write)])
    ?_ ⟨rfl, hholders⟩
  rintro a e a' he hstep ⟨hconns, hlock⟩
  cases hstep with
  | request => exact ⟨hconns, hlock⟩
  | @grant i other mode _ _ _ _ _ hadmits =>
      cases mode with
      | read => simp [RwLock.Admits, hlock] at hadmits
      | write => simp [RwLock.Admits, hlock] at hadmits
  | @access i other update rest' env hother hprog' =>
      rw [hconns] at hother
      have hg := h.guarded i other hother
      rw [hprog'] at hg
      rw [hheld i other hother hg.1] at hprog'
      simp at hprog'
  | @release i other rest' hother hprog' =>
      rw [hconns] at hother
      have hg := h.guarded i other hother
      rw [hprog'] at hg
      rw [hheld i other hother hg.1] at hprog'
      simp at hprog'
  | accept | recv | drain | close => exact he.elim

end Disciplined

end Sync
