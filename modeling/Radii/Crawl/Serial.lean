import Radii.Crawl.Alone
import Radii.Crawl.LiveGraph
import Radii.Crawl.Stored
import Radii.Foundations.Serial

/-!
# Crawl as if it served one frame at a time

The connections of Crawl take and give back the lock between each other's steps.  Each arm still
takes effect in one access: the relay check of `FromHead` reads what never changes, and gives the
lock back before the message is applied.

* `handleConnection_atomic` — the arms, one by one.
* `crawl_serial` — what peers can see of Crawl is what they could see if it served each frame whole.
* `acknowledged_hello_listed` — once a node's hello is acknowledged, no query is answered with an
  older one.
-/

namespace Radii

open Sync Collections

/-- The relay peers are those Crawl was started with. -/
def RelaysAre (relayPeers : Finset String) (s : CrawlState) : Prop := s.relayPeers = relayPeers

section Atomic

variable {relayPeers : Finset String} {peer : Option String} {r : RelayedMessage}

lemma applying_atomic {rest : Bool → CrawlProg} (hrest : ∀ accepted, (rest accepted).Applied) :
    (applying r rest).Atomic (RelaysAre relayPeers) := by
  refine Or.inl ⟨?_, fun env s => hrest _⟩
  intro env s hs
  exact (applyClaim_relayPeers env.now s r).trans hs

lemma checked_applied {check : Bool} {status status' : String} :
    (if !check then replyAck status .done else replyAck status' .done : CrawlProg).Applied := by
  cases check <;> trivial

lemma checked_atomic {check : Bool} {status : String} {passed : CrawlProg}
    (hpassed : passed.Atomic (RelaysAre relayPeers)) :
    (if !check then replyAck status .done else passed : CrawlProg).Atomic
      (RelaysAre relayPeers) := by
  cases check with
  | false => trivial
  | true => exact hpassed

lemma handleWrappedMessage_atomic {status : String} :
    (handleWrappedMessage r (replyAck status .done)).Atomic (RelaysAre relayPeers) := by
  cases r with
  | nodeHello =>
      rw [handleWrappedMessage]
      exact applying_atomic fun accepted => trivial
  | reachabilityProbe => trivial
  | reachabilityReport =>
      rw [handleWrappedMessage]
      exact applying_atomic fun accepted => trivial

lemma relayedClaimArm_atomic {clientIdentity : Option String} :
    (relayedClaimArm peer clientIdentity r).Atomic (RelaysAre relayPeers) := by
  rw [relayedClaimArm]
  cases r.claimedNodeId with
  | none => exact handleWrappedMessage_atomic
  | some claimed => exact checked_atomic handleWrappedMessage_atomic

/-- What the relay check lets through depends on the relay peers alone. -/
lemma fromHeadArm_atomic {clientIdentity : Option String} :
    (fromHeadArm peer clientIdentity r).Atomic (RelaysAre relayPeers) := by
  refine Or.inr ⟨rfl, fun env s _ => checked_atomic relayedClaimArm_atomic, ?_⟩
  intro env s env' s' hs hs'
  have hsame : s.relayPeers = s'.relayPeers := hs.trans hs'.symm
  simp only [hsame]

/-- **Every arm takes effect in one access.** -/
theorem handleConnection_atomic (m : RadiiMessage) :
    (handleConnection peer m).Atomic (RelaysAre relayPeers) := by
  cases m with
  | nodeHello =>
      refine checked_atomic (applying_atomic ?_)
      intro accepted
      trivial
  | reachabilityProbe => trivial
  | reachabilityReport => exact checked_atomic (applying_atomic fun _ => checked_applied)
  | fromHead => exact fromHeadArm_atomic
  | graphQuery => exact Or.inl ⟨fun _ _ hs => hs, fun _ _ => trivial⟩
  | graphSnapshot => trivial
  | ack => trivial
  | tunnelOpen => trivial

end Atomic

/-- Crawl when each frame is served whole. -/
abbrev CrawlSerial := Serial (Option String) RadiiMessage CrawlState RadiiMessage

/-- What the peers of Crawl see. -/
abbrev CrawlHistory := List (Visible (Option String) RadiiMessage RadiiMessage)

/-- Crawl as it starts, serving frames whole. -/
def crawlSerial (nodeTtlMs : Option ℕ) (relayPeers : Finset String) : CrawlSerial :=
  Serial.initial (CrawlState.initial nodeTtlMs relayPeers)

/-- **Crawl is linearizable.**  Whatever its peers see in any run, frame by frame and answer by
answer, they could have seen if each frame had been served in one step, at some moment after it
was read and before it was answered; and the state it ends in is the same. -/
theorem crawl_serial {nodeTtlMs : Option ℕ} {relayPeers : Finset String} {c : CrawlConfig}
    {history : CrawlHistory} (h : Observed crawl (crawlInitial nodeTtlMs relayPeers) history c) :
    ∃ a : CrawlSerial, Serial.Run crawl (crawlSerial nodeTtlMs relayPeers) history a ∧
      a.state = c.state := by
  obtain ⟨a, hrun, ha⟩ := h.serial (fun _ _ _ => handleConnection_atomic _)
    (simulates_initial (show RelaysAre relayPeers _ from rfl))
  exact ⟨a, hrun, ha.state⟩

/-- A hello over one connection, and a query over another. -/
def helloThenQuery : CrawlHistory :=
  [.accept 0 none] ++ .recv 0 (.nodeHello "n" ["head"] [⟨"a:1", "relay"⟩]) :: ([] ++
    .reply 0 (.ack "hello_received") :: ([.accept 1 none] ++ .recv 1 .graphQuery :: ([] ++
      [.reply 1 (.graphSnapshot [⟨"n", [⟨"a:1", "relay"⟩], ["head"]⟩] [])])))

/-- The query lists the hello. -/
lemma helloThenQuery_observed :
    ∃ c, Observed crawl (crawlInitial none ∅) helloThenQuery c := by
  have hhello : crawl.Reads (.nodeHello "n" ["head"] [⟨"a:1", "relay"⟩]) :=
    ⟨[frame (.nodeHello "n" ["head"] [⟨"a:1", "relay"⟩])], [[]], by decide⟩
  have hquery : crawl.Reads .graphQuery := ⟨[frame .graphQuery], [[]], by decide⟩
  have h0 := (Observed.refl (S := crawl) (c := crawlInitial none ∅)).tail
    (.accept (i := 0) none rfl)
  have h1 := h0.tail (.recv _ (Config.put_conns_self _ _ _) rfl hhello)
  have h2 := h1.tail (.request (Config.put_conns_self _ _ _) rfl (by simp [crawlInitial,
    Config.initial, RwLock.free]))
  have h3 := h2.tail (.grant (Config.put_conns_self _ _ _) rfl rfl rfl)
  have h4 := h3.tail (.access ⟨7, WalkOrder.default⟩ (Config.put_conns_self _ _ _) rfl)
  have h5 := h4.tail (.drain (Config.put_conns_self _ _ _) rfl)
  have h6 := h5.tail (.release (Config.put_conns_self _ _ _) rfl)
  have h7 := h6.tail (.accept (i := 1) none rfl)
  have h8 := h7.tail (.recv _ (Config.put_conns_self _ _ _) rfl hquery)
  have h9 := h8.tail (.request (Config.put_conns_self _ _ _) rfl (by simp [crawlInitial,
    Config.initial, RwLock.free, RwLock.request, RwLock.enter, RwLock.release]))
  have h10 := h9.tail (.grant (Config.put_conns_self _ _ _) rfl rfl (by
    intro holder hholder
    simp [crawlInitial, Config.initial, RwLock.free, RwLock.request, RwLock.enter,
      RwLock.release] at hholder))
  have h11 := h10.tail (.access ⟨8, WalkOrder.default⟩ (Config.put_conns_self _ _ _) rfl)
  have h12 := h11.tail (.release (Config.put_conns_self _ _ _) rfl)
  have h13 := h12.tail (.drain (Config.put_conns_self _ _ _) rfl)
  exact ⟨_, h13⟩

/-- Seen of Crawl serving the two frames whole. -/
theorem crawl_serial_query : ∃ a : CrawlSerial,
    Serial.Run crawl (crawlSerial none ∅) helloThenQuery a := by
  obtain ⟨c, h⟩ := helloThenQuery_observed
  obtain ⟨a, hrun, -⟩ := crawl_serial h
  exact ⟨a, hrun⟩

/-! ## What an acknowledged hello is worth -/

/-- The frame says hello for the node, directly or in an envelope. -/
def SaysHello (x : String) (m : RadiiMessage) : Prop :=
  ∃ r, m.claim = some r ∧ r.About (.node x)

section Hello

variable {peer : Option String} {env : Env} {s : CrawlState} {x : String} {m : RadiiMessage}

/-- Served alone, a frame changes nothing or applies its claim. -/
lemma exec_cases : (handleConnection peer m).exec env s = s ∨
    ∃ r, m.claim = some r ∧ (handleConnection peer m).exec env s = (applyClaim env.now s r).1 := by
  cases m with
  | nodeHello nodeId roles listenAddrs =>
      rw [direct_exec (r := .nodeHello nodeId roles listenAddrs) rfl]
      split_ifs
      · exact Or.inr ⟨_, rfl, rfl⟩
      · exact Or.inl rfl
  | reachabilityReport fromId target protocol reachable rttMs observedAddr =>
      rw [direct_exec (r := .reachabilityReport fromId target protocol reachable rttMs observedAddr)
        rfl]
      split_ifs
      · exact Or.inr ⟨_, rfl, rfl⟩
      · exact Or.inl rfl
  | fromHead source clientIdentity message =>
      rw [fromHead_exec]
      split_ifs
      · exact Or.inr ⟨_, rfl, rfl⟩
      · exact Or.inl rfl
  | reachabilityProbe => exact Or.inl rfl
  | graphQuery => exact Or.inl rfl
  | graphSnapshot => exact Or.inl rfl
  | ack => exact Or.inl rfl
  | tunnelOpen => exact Or.inl rfl

/-- What is stored about a node stays, unless a hello of it is served. -/
lemma stored_exec_of_not_saysHello (hm : ¬ SaysHello x m) :
    ((handleConnection peer m).exec env s).stored (.node x) = s.stored (.node x) := by
  rcases @exec_cases peer env s m with hsame | ⟨r, hr, hexec⟩
  · rw [hsame]
  · rw [hexec]
    cases r with
    | nodeHello nodeId roles listenAddrs =>
        have hne : x ≠ nodeId := by
          rintro rfl
          exact hm ⟨_, hr, _, rfl⟩
        rw [applyClaim, CrawlState.stored, CrawlState.insertNode,
          HashMap.lookup_insert_of_ne hne, CrawlState.stored]
    | reachabilityProbe => rfl
    | reachabilityReport =>
        rw [applyClaim, CrawlState.stored, (CrawlState.recordReport_upserted _ _ _).nodes,
          CrawlState.stored]

variable {roles : List String} {listenAddrs : List ListenAddr}

/-- A hello is refused, or stored and acknowledged. -/
lemma hello_served :
    (handleConnection peer (.nodeHello x roles listenAddrs)).replies env s =
        [.ack "unauthorized_node_id"] ∨
      (handleConnection peer (.nodeHello x roles listenAddrs)).replies env s =
        [.ack "hello_received"] ∧
      ((handleConnection peer (.nodeHello x roles listenAddrs)).exec env s).stored (.node x) =
        some (.node roles listenAddrs) := by
  rw [handleConnection, nodeHelloArm]
  cases authorized peer x with
  | false => exact Or.inl rfl
  | true =>
      refine Or.inr ⟨rfl, ?_⟩
      show ((s.insertNode x _).nodes.lookup x).map _ = _
      rw [CrawlState.insertNode, AList.lookup_insert]
      rfl

/-- A snapshot lists a node as it is stored. -/
lemma listed_as_stored (h : s.stored (.node x) = some (.node roles listenAddrs)) {order : WalkOrder}
    {now : ℕ} {node : NodeInfo} (hnode : node ∈ (graphSnapshot order s now).1)
    (hx : node.nodeId = x) : node = ⟨x, listenAddrs, roles⟩ := by
  rcases (mem_liveNodes order).mp ((fill_sublist _ _ _).subset hnode) with
    ⟨entry, hentry, -, haddrs, hroles⟩
  rw [CrawlState.stored, ← hx, hentry, Option.map_some, Option.some.injEq,
    StoredValue.node.injEq] at h
  rcases node with ⟨nodeId, nodeAddrs, nodeRoles⟩
  simp only at hx haddrs hroles
  rw [← h.1, ← h.2, hx, haddrs, hroles]

end Hello

section Stages

variable {x : String} {roles : List String} {listenAddrs : List ListenAddr} {i j : ℕ}
  {peer : Option String} {a b : CrawlSerial} {seen : CrawlHistory}

/-- Nothing of the frames waiting on these connections says hello for the node. -/
def Unspoken (x : String) (a : CrawlSerial) (among : ℕ → Prop) : Prop :=
  ∀ k peer frame, among k → a.sessions k = some ⟨peer, .waiting frame⟩ → ¬ SaysHello x frame

lemma Unspoken.step {among : ℕ → Prop} (h : Unspoken x a among)
    (hseen : ∀ k m, .recv k m ∈ seen → ¬ SaysHello x m) (hstep : Serial.Step crawl a seen b) :
    Unspoken x b among := by
  intro k peer frame hk hwaits
  rcases hstep.waiting_cases hwaits with hold | hread
  · exact h k peer frame hk hold
  · exact hseen k frame hread

/-- The node's hello is stored, and no other is on its way. -/
structure Stored (x : String) (roles : List String) (listenAddrs : List ListenAddr)
    (a : CrawlSerial) : Prop where
  stored : a.state.stored (.node x) = some (.node roles listenAddrs)
  unspoken : Unspoken x a fun _ => True

lemma Stored.step (h : Stored x roles listenAddrs a)
    (hseen : ∀ k m, .recv k m ∈ seen → ¬ SaysHello x m) (hstep : Serial.Step crawl a seen b) :
    Stored x roles listenAddrs b := by
  refine ⟨?_, h.unspoken.step hseen hstep⟩
  rcases hstep.state_cases with hsame | ⟨k, peer, frame, env, hwaits, hserved⟩
  · rw [hsame]
    exact h.stored
  · rw [hserved]
    exact (stored_exec_of_not_saysHello (h.unspoken k peer frame trivial hwaits)).trans h.stored

/-- Where the hello that was read on connection `i` is: it waits, it was refused, or it is stored
and about to be acknowledged. -/
structure Greeting (x : String) (roles : List String) (listenAddrs : List ListenAddr) (i : ℕ)
    (peer : Option String) (a : CrawlSerial) : Prop where
  others : Unspoken x a (· ≠ i)
  stage : a.sessions i = some ⟨peer, .waiting (.nodeHello x roles listenAddrs)⟩ ∨
    a.sessions i = some ⟨peer, .answering [.ack "unauthorized_node_id"]⟩ ∨
    a.sessions i = some ⟨peer, .answering [.ack "hello_received"]⟩ ∧
      a.state.stored (.node x) = some (.node roles listenAddrs)

lemma Greeting.step (h : Greeting x roles listenAddrs i peer a)
    (hseen : ∀ k m, .recv k m ∈ seen → ¬ SaysHello x m) (hi : ∀ v ∈ seen, v.conn ≠ i)
    (hstep : Serial.Step crawl a seen b) : Greeting x roles listenAddrs i peer b := by
  refine ⟨h.others.step hseen hstep, ?_⟩
  rcases hstep.session_cases hi with hsame | ⟨peer', frame, env, -, hwaits, rfl⟩
  · rw [hsame]
    rcases h.stage with hwaits | hrefused | ⟨hacked, hstored⟩
    · exact Or.inl hwaits
    · exact Or.inr (Or.inl hrefused)
    · refine Or.inr (Or.inr ⟨hacked, ?_⟩)
      rcases hstep.state_cases with hstate | ⟨k, peer', frame, env, hwaits, hserved⟩
      · rw [hstate]
        exact hstored
      · have hk : k ≠ i := by
          rintro rfl
          simp [hacked] at hwaits
        rw [hserved]
        exact (stored_exec_of_not_saysHello (h.others k peer' frame hk hwaits)).trans hstored
  · rcases h.stage with hold | hrefused | ⟨hacked, -⟩
    · rw [hold, Option.some.injEq, Session.mk.injEq, Phase.waiting.injEq] at hwaits
      rcases hwaits with ⟨rfl, rfl⟩
      rcases @hello_served peer env a.state x roles listenAddrs with
        hrefused | ⟨hacked, hstored⟩
      · refine Or.inr (Or.inl ?_)
        rw [Serial.served, ← hrefused]
        exact Serial.put_sessions_self a i _
      · refine Or.inr (Or.inr ⟨?_, hstored⟩)
        rw [Serial.served, ← hacked]
        exact Serial.put_sessions_self a i _
    · simp [hrefused] at hwaits
    · simp [hacked] at hwaits

/-- A query that was read on connection `j` while the hello is stored. -/
structure Asked (x : String) (roles : List String) (listenAddrs : List ListenAddr) (j : ℕ)
    (peer : Option String) (a : CrawlSerial) : Prop where
  held : Stored x roles listenAddrs a
  stage : a.sessions j = some ⟨peer, .waiting .graphQuery⟩ ∨
    ∃ s : CrawlState, ∃ env : Env, s.stored (.node x) = some (.node roles listenAddrs) ∧
      a.sessions j = some ⟨peer, .answering [.graphSnapshot (graphSnapshot env.order s env.now).1
        (graphSnapshot env.order s env.now).2.1]⟩

lemma Asked.step (h : Asked x roles listenAddrs j peer a)
    (hseen : ∀ k m, .recv k m ∈ seen → ¬ SaysHello x m) (hj : ∀ v ∈ seen, v.conn ≠ j)
    (hstep : Serial.Step crawl a seen b) : Asked x roles listenAddrs j peer b := by
  refine ⟨h.held.step hseen hstep, ?_⟩
  rcases hstep.session_cases hj with hsame | ⟨peer', frame, env, -, hwaits, rfl⟩
  · rw [hsame]
    exact h.stage
  · rcases h.stage with hold | ⟨_, _, _, hserved⟩
    · rw [hold, Option.some.injEq, Session.mk.injEq, Phase.waiting.injEq] at hwaits
      rcases hwaits with ⟨rfl, rfl⟩
      exact Or.inr ⟨a.state, env, h.held.stored, Serial.put_sessions_self a j _⟩
    · simp [hserved] at hwaits

end Stages

/-- **An acknowledged hello is what is listed.**  Once a hello of the node, read on connection `i`,
has been acknowledged, every query read afterwards is answered with a snapshot that lists the node,
if at all, as that hello says, until another hello for the node is read. -/
theorem acknowledged_hello_listed {nodeTtlMs : Option ℕ} {relayPeers : Finset String}
    {c : CrawlConfig} {before acking quiet asking : CrawlHistory} {i j : ℕ} {x : String}
    {roles : List String} {listenAddrs : List ListenAddr} {nodes : List NodeInfo}
    {reports : List GraphReport}
    (h : Observed crawl (crawlInitial nodeTtlMs relayPeers)
      (before ++ .recv i (.nodeHello x roles listenAddrs) :: (acking ++
        .reply i (.ack "hello_received") :: (quiet ++ .recv j .graphQuery :: (asking ++
          [.reply j (.graphSnapshot nodes reports)])))) c)
    (hone : ∀ k m, .recv k m ∈ before → SaysHello x m → k = i)
    (hlast : ∀ k m, .recv k m ∈ acking ++ quiet ++ asking → ¬ SaysHello x m)
    (hi : ∀ v ∈ acking, v.conn ≠ i) (hj : ∀ v ∈ asking, v.conn ≠ j) :
    ∀ node ∈ nodes, node.nodeId = x → node = ⟨x, listenAddrs, roles⟩ := by
  have hlast' : ∀ {part : CrawlHistory}, part ⊆ acking ++ quiet ++ asking →
      ∀ seen : CrawlHistory, (∀ v ∈ seen, v ∈ part) → ∀ k m, .recv k m ∈ seen → ¬ SaysHello x m :=
    fun hpart seen hseen k m hm => hlast k m (hpart (hseen _ hm))
  obtain ⟨a, hrun, -⟩ := h.serial (fun _ _ _ => handleConnection_atomic _)
    (simulates_initial (show RelaysAre relayPeers _ from rfl))
  -- the hello is read: no other for the node is waiting
  obtain ⟨a₀, a₁, hbefore, hread, hrun⟩ := hrun.cut
  have hunspoken : Unspoken x a₀ (· ≠ i) := by
    intro k peer frame hk hwaits hsays
    exact hk (hone k frame (hbefore.read_of_waiting hwaits) hsays)
  obtain ⟨peer, hidle, rfl⟩ : ∃ peer, a₀.sessions i = some ⟨peer, .answering []⟩ ∧
      a₁ = a₀.put i (some ⟨peer, .waiting (.nodeHello x roles listenAddrs)⟩) := by
    cases hread with
    | recv frame hidle hreads => exact ⟨_, hidle, rfl⟩
  have hgreeting : Greeting x roles listenAddrs i peer
      (a₀.put i (some ⟨peer, .waiting (.nodeHello x roles listenAddrs)⟩)) := by
    refine ⟨?_, Or.inl (Serial.put_sessions_self a₀ i _)⟩
    intro k peer' frame hk hwaits
    rw [Serial.put_sessions_of_ne _ _ hk] at hwaits
    exact hunspoken k peer' frame hk hwaits
  -- it is acknowledged: it is stored
  obtain ⟨a₂, a₃, hacking, hacked, hrun⟩ := hrun.cut
  have hgreeting : Greeting x roles listenAddrs i peer a₂ :=
    hacking.invariant (fun a seen b hseen hstep hg => hg.step
      (hlast' (by simp) seen hseen) (fun v hv => hi v (hseen v hv)) hstep) hgreeting
  have hstored : Stored x roles listenAddrs a₃ := by
    cases hacked with
    | reply hleft =>
        rcases hgreeting.stage with hold | hold | ⟨hold, hstored⟩
        · simp [hold] at hleft
        · simp [hold] at hleft
        · refine ⟨hstored, ?_⟩
          intro k peer'' frame _ hwaits
          by_cases hk : k = i
          · subst hk
            simp at hwaits
          · rw [Serial.put_sessions_of_ne _ _ hk] at hwaits
            exact hgreeting.others k peer'' frame hk hwaits
  -- the query is read
  obtain ⟨a₄, a₅, hquiet, hquery, hrun⟩ := hrun.cut
  have hstored : Stored x roles listenAddrs a₄ :=
    hquiet.invariant (fun a seen b hseen hstep hs => hs.step (hlast' (by simp) seen hseen) hstep)
      hstored
  have hasked : ∃ peer, Asked x roles listenAddrs j peer a₅ := by
    cases hquery with
    | recv frame hidle hreads =>
        refine ⟨_, ⟨hstored.stored, ?_⟩, Or.inl (Serial.put_sessions_self a₄ j _)⟩
        intro k peer'' frame' _ hwaits
        by_cases hk : k = j
        · subst hk
          simp only [Serial.put_sessions_self, Option.some.injEq, Session.mk.injEq,
            Phase.waiting.injEq] at hwaits
          rw [← hwaits.2]
          rintro ⟨r, hr, -⟩
          simp [RadiiMessage.claim] at hr
        · rw [Serial.put_sessions_of_ne _ _ hk] at hwaits
          exact hstored.unspoken k peer'' frame' trivial hwaits
  -- it is answered
  obtain ⟨peer', hasked⟩ := hasked
  obtain ⟨a₆, a₇, hasking, hanswered, -⟩ := hrun.cut
  have hasked : Asked x roles listenAddrs j peer' a₆ :=
    hasking.invariant (fun a seen b hseen hstep hs => hs.step
      (hlast' (by simp) seen hseen) (fun v hv => hj v (hseen v hv)) hstep) hasked
  cases hanswered with
  | reply hleft =>
      rcases hasked.stage with hold | ⟨s, env, hheld, hold⟩
      · simp [hold] at hleft
      · simp only [hold, Option.some.injEq, Session.mk.injEq, Phase.answering.injEq,
          List.cons.injEq, RadiiMessage.graphSnapshot.injEq] at hleft
        intro node hnode
        exact listed_as_stored hheld (hleft.2.1.1 ▸ hnode)

/-- The hello, the acknowledgement and the query that lists it. -/
theorem acknowledged_hello_listed_query : ∃ c,
    Observed crawl (crawlInitial none ∅) helloThenQuery c ∧
      ∀ node ∈ [(⟨"n", [⟨"a:1", "relay"⟩], ["head"]⟩ : NodeInfo)], node.nodeId = "n" →
        node = ⟨"n", [⟨"a:1", "relay"⟩], ["head"]⟩ := by
  obtain ⟨c, h⟩ := helloThenQuery_observed
  exact ⟨c, h, acknowledged_hello_listed h (by simp) (by simp) (by simp) (by simp)⟩

end Radii
