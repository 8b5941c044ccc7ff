import Radii.Crawl.Server

/-!
# Which replies are written under the state lock

A reply can stay unwritten for as long as its peer does not read.  Every arm of
`handle_connection` gives the lock back before it replies, except one: the guard a direct hello
takes is still in scope when its acknowledgement is written.  `reply_holds_lock_iff` is the exact
statement for every configuration Crawl can reach, with what it means for the other connections;
`hello_reply_blocks` is the smallest configuration in which it goes wrong.
-/

namespace Radii

open Sync

/-- The frames answered under the lock: the direct hellos that pass the identity check. -/
def RepliesLate (peer : Option String) (m : RadiiMessage) : Prop :=
  ∃ nodeId roles listenAddrs, m = .nodeHello nodeId roles listenAddrs ∧
    authorized peer nodeId = true

/-! ## The arms -/

section Arms

variable {late : Prop}

lemma replyAck_guarded (h : ¬ late) (status : String) :
    (replyAck status .done).Guarded late false :=
  ⟨by simp [h], rfl⟩

lemma checked_guarded {check : Bool} (h : check = false → ¬ late) (status : String)
    {passed : CrawlProg} (hpassed : check = true → passed.Guarded late false) :
    (if !check then replyAck status .done else passed).Guarded late false := by
  cases check with
  | false => exact replyAck_guarded (h rfl) status
  | true => exact hpassed rfl

lemma applying_guarded (r : RelayedMessage) {rest : Bool → CrawlProg}
    (h : ∀ accepted, (rest accepted).Guarded late true) :
    (applying r rest).Guarded late false :=
  ⟨rfl, rfl, fun _ _ => h _⟩

lemma handleWrappedMessage_guarded (r : RelayedMessage) {rest : CrawlProg}
    (h : rest.Guarded late false) : (handleWrappedMessage r rest).Guarded late false := by
  cases r with
  | nodeHello =>
      show (applying _ fun _ => .unlock rest).Guarded late false
      exact applying_guarded _ fun _ => ⟨rfl, h⟩
  | reachabilityProbe => exact h
  | reachabilityReport =>
      show (applying _ fun _ => .unlock rest).Guarded late false
      exact applying_guarded _ fun _ => ⟨rfl, h⟩

lemma relayedClaimArm_guarded (h : ¬ late) (peer clientIdentity : Option String)
    (r : RelayedMessage) : (relayedClaimArm peer clientIdentity r).Guarded late false := by
  have hhandled := handleWrappedMessage_guarded r (replyAck_guarded h "head_message_received")
  rw [relayedClaimArm]
  cases r.claimedNodeId with
  | none => exact hhandled
  | some claimed => exact checked_guarded (fun _ => h) _ fun _ => hhandled

/-- **Every arm pairs its locks and releases**, and replies outside them unless it handles a
direct hello. -/
theorem arm_guarded (peer : Option String) (m : RadiiMessage) :
    (handleConnection peer m).Guarded (RepliesLate peer m) false := by
  cases m with
  | nodeHello nodeId roles listenAddrs =>
      have hlate : RepliesLate peer (.nodeHello nodeId roles listenAddrs) ↔
          authorized peer nodeId = true := by
        simp [RepliesLate]
      refine checked_guarded (fun h => by simp [hlate, h]) _ ?_
      intro hauth
      exact applying_guarded _ fun _ => ⟨by simp [hlate, hauth], rfl, rfl⟩
  | reachabilityProbe => exact replyAck_guarded (by simp [RepliesLate]) _
  | reachabilityReport =>
      have hlate {a b c d e f} : ¬ RepliesLate peer (.reachabilityReport a b c d e f) := by
        simp [RepliesLate]
      refine checked_guarded (fun _ => hlate) _ fun _ => applying_guarded _ ?_
      intro accepted
      exact ⟨rfl, checked_guarded (fun _ => hlate) _ fun _ => replyAck_guarded hlate _⟩
  | fromHead source clientIdentity message =>
      have hlate : ¬ RepliesLate peer (.fromHead source clientIdentity message) := by
        simp [RepliesLate]
      refine ⟨rfl, rfl, fun _ s => ⟨rfl, ?_⟩⟩
      exact checked_guarded (fun _ => hlate) _ fun _ => relayedClaimArm_guarded hlate _ _ _
  | graphQuery => exact ⟨rfl, rfl, fun _ _ => ⟨rfl, by simp [RepliesLate], rfl⟩⟩
  | graphSnapshot => rfl
  | ack => rfl
  | tunnelOpen => exact replyAck_guarded (by simp [RepliesLate]) _

end Arms

/-! ## Whole runs -/

/-- No frame is received whose reply is written under the lock. -/
def NoDirectHello (c : CrawlConfig) (e : CrawlEvent) : Prop :=
  ∀ i conn m, e = .recv i m → c.conns i = some conn → ¬ RepliesLate conn.peer m

/-- **A reply is written under the lock exactly if it answers a direct hello that passed.**  In
runs that receive none, no writer of a reply holds the lock, and every connection can be run on
to its reply, or back to its next frame, by steps that wait for no peer. -/
theorem reply_holds_lock_iff (nodeTtlMs : Option ℕ) (relayPeers : Finset String) :
    (∀ c, Reachable crawl (crawlInitial nodeTtlMs relayPeers) c →
      ∀ i conn out rest, c.conns i = some conn → conn.prog = .reply out rest →
        (c.lock.heldBy i = true ↔ ∃ m, conn.frame = some m ∧ RepliesLate conn.peer m)) ∧
    (∀ c, Run crawl NoDirectHello (crawlInitial nodeTtlMs relayPeers) c →
      (∀ i conn out rest, c.conns i = some conn → conn.prog = .reply out rest →
        c.lock.heldBy i = false) ∧
      ∀ i conn, c.conns i = some conn → ∃ c' conn', QuietRun crawl c c' ∧
        c'.conns i = some conn' ∧ conn'.peer = conn.peer ∧ conn'.frame = conn.frame ∧
          conn'.Settled) := by
  have hS : ∀ peer m, crawl.Reads m → (crawl.handle peer m).Guarded (RepliesLate peer m) false :=
    fun peer m _ => arm_guarded peer m
  constructor
  · intro c hreach i conn out rest hconn hprog
    exact (hreach.disciplined hS).heldBy_reply hconn hprog
  · intro c hrun
    have hdisciplined := hrun.disciplined hS
    have hnone : c.NoneLate RepliesLate :=
      hrun.invariant (fun _ _ _ hok hstep h => Config.NoneLate.step h hstep hok)
        fun i conn h => by simp [crawlInitial, Config.initial] at h
    refine ⟨?_, ?_⟩
    · intro i conn out rest hconn hprog
      rw [← Bool.not_eq_true, hdisciplined.heldBy_reply hconn hprog]
      exact hnone i conn hconn
    · intro i conn hconn
      exact settles hS i conn.prog c conn hdisciplined hnone hconn rfl

/-- A query that has taken the lock can be answered. -/
theorem reply_holds_lock_iff_query : ∃ c c' : CrawlConfig,
    c.lock.heldBy 0 = true ∧ QuietRun crawl c c' ∧
      ∃ conn, c'.conns 0 = some conn ∧ conn.Settled := by
  have hreads : crawl.Reads .graphQuery := ⟨[frame .graphQuery], [[]], by decide⟩
  obtain ⟨c, hrun, -, hlock, hconn, -⟩ := enters (S := crawl) NoDirectHello
    (crawlInitial none ∅) 0 none (fun c e he i conn m h _ => by
      subst h
      simp at he
      simp [he.2, RepliesLate]) rfl rfl hreads rfl
  obtain ⟨c', conn', hquiet, hconn', -, -, hsettled⟩ :=
    ((reply_holds_lock_iff none ∅).2 c hrun).2 0 _ hconn
  exact ⟨c, c', by rw [hlock]; rfl, hquiet, conn', hconn', hsettled⟩

/-- **A peer that does not read its hello's acknowledgement stops Crawl.**  Connection 0 is
writing the acknowledgement with the write guard held; the query on connection 1 can then not be
brought to its reply by any steps of the server's own. -/
theorem hello_reply_blocks : ∃ c : CrawlConfig,
    Reachable crawl (crawlInitial none ∅) c ∧
    (∃ conn out rest, c.conns 0 = some conn ∧ conn.prog = .reply out rest ∧
      c.lock.heldBy 0 = true) ∧
    (∃ conn, c.conns 1 = some conn ∧ conn.frame = some .graphQuery) ∧
    ∀ c', QuietRun crawl c c' → ∀ conn, c'.conns 1 = some conn → ¬ conn.Settled := by
  have hhello : crawl.Reads (.nodeHello "n" [] []) :=
    ⟨[frame (.nodeHello "n" [] [])], [[]], by decide⟩
  have hquery : crawl.Reads .graphQuery := ⟨[frame .graphQuery], [[]], by decide⟩
  obtain ⟨c, hrun, -, hlock, hconn, hothers⟩ := enters (S := crawl) (fun _ _ => True)
    (crawlInitial none ∅) 0 none (fun _ _ _ => trivial) rfl rfl hhello rfl
  -- the hello is applied, and its acknowledgement is not read
  have h1 := hrun.tail ⟨_, trivial, .access default hconn rfl⟩
  -- a second connection asks for the graph
  have h2 := h1.tail ⟨_, trivial, .accept (i := 1) none (by
    rw [Config.put_conns_of_ne _ _ (by decide), Config.withState_conns, hothers 1 (by decide)]
    rfl)⟩
  have h3 := h2.tail ⟨_, trivial, .recv _ (Config.put_conns_self _ _ _) rfl hquery⟩
  have hreply : ∀ a : CrawlConfig, ∀ new old : Option (Conn _ _ _ _ _),
      ((a.put 1 old).put 1 new).conns 0 = a.conns 0 := fun a new old => by
    rw [Config.put_conns_of_ne _ _ (by decide), Config.put_conns_of_ne _ _ (by decide)]
  refine ⟨_, h3, ⟨_, _, _, (hreply _ _ _).trans (Config.put_conns_self _ _ _), rfl, ?_⟩,
    ⟨_, Config.put_conns_self _ _ _, rfl⟩, ?_⟩
  · simp [hlock, RwLock.heldBy]
  · intro c' hquiet conn hconn'
    rw [blocked (Run.disciplined (fun peer m _ => arm_guarded peer m) h3) (j := 0)
      (by simp [hlock]) ((hreply _ _ _).trans (Config.put_conns_self _ _ _)) rfl hquiet,
      Config.put_conns_self, Option.some.injEq] at hconn'
    subst hconn'
    rintro (h | ⟨out, rest, h⟩)
    · simp [crawl, handleConnection, graphQueryArm] at h
    · simp [crawl, handleConnection, graphQueryArm] at h

end Radii
