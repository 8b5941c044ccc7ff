import Radii.Head.Invariant

/-!
# Acknowledged updates stay

`bridge_keeps_latest`: as long as Crawl applies no left-over frame after a later message about the
same key, an acknowledged update is never undone by an older one.  `late_frame_overwrites` is a run
that needs that proviso; both it and the witness of the theorem are put together from exchanges of
one hello each.
-/

namespace Radii

open Sync Collections

/-! ## The result -/

section Result

variable {via : Via} {key : StoreKey} {nodeTtlMs : Option ℕ} {relayPeers : Finset String}
  {b : Bridge}

/-- **An acknowledged update is not undone by an older one.**  In every orderly run: once the
client has its acknowledgement for message `j`, what Crawl holds under the message's key is the
value of `j` or of a later message of the client's. -/
theorem bridge_keeps_latest (hrun : BridgeRun via key (Orderly key)
    (.initial (crawlInitial nodeTtlMs relayPeers)) b) {j : ℕ} {r : RelayedMessage}
    {v : StoredValue} (hj : j < b.acked) (hr : b.sent[j]? = some r) (habout : r.About key)
    (hstored : b.crawl.state.stored key = some v) :
    ∃ n r', j ≤ n ∧ b.sent[n]? = some r' ∧ r'.subject = some (key, v) := by
  have h := hrun.inv.sound
  have hgrants : Grants relayPeers via.peer (via.wrap r) r := by
    by_contra hnot
    have hnone := h.ungranted fun r' habout' hg => hnot (grants_of_same_key habout' habout hg)
    simp [hnone] at hstored
  obtain ⟨n, r', -, hr', hsubject, hmax⟩ := h.latest v hstored
  exact ⟨n, r', hmax j (h.answered j hj r hr habout hgrants) ⟨r, hr, habout⟩, hr', hsubject⟩

end Result

/-! ## Two hellos -/

/-- A bridge without TLS. -/
def plainVia : Via := ⟨none, none, "10.0.0.9:4000"⟩

/-- A hello that advertises one listener. -/
def helloAt (addr : String) : RelayedMessage := .nodeHello "n" [] [⟨addr, "relay"⟩]

/-- What a hello of `helloAt` leaves in the registry. -/
def helloValue (addr : String) : StoredValue := .node [] [⟨addr, "relay"⟩]

/-- While Head is in the state `head`, `ok` admits every step but the accesses of other
connections than `i`. -/
def Focused (ok : Bridge → BridgeEvent → Prop) (head : HeadState) (i : ℕ) : Prop :=
  ∀ b e, b.head = head → (∀ j env, e = .crawl (.access j env) → j = i) → ok b e

lemma orderly_focused (key : StoreKey) (retried : Bool) (i : ℕ) :
    Focused (Orderly key) (.relaying retried i) i := by
  rintro b e hhead he j env n r rfl - - hnot
  rw [he j env rfl] at hnot
  exact absurd hhead (hnot retried)

section Serves

variable {ok : Bridge → BridgeEvent → Prop} {head : HeadState} {i : ℕ}

/-- A step of Crawl's that is no access. -/
lemma Focused.other (hok : Focused ok head i) {b : Bridge} (hhead : b.head = head)
    {e : CrawlEvent} {c : CrawlConfig} (he : b.Other e) (hne : ∀ j env, e ≠ .access j env)
    (hstep : Step crawl b.crawl e c) : BridgeRun plainVia (.node "n") ok b (b.withCrawl c) := by
  refine .single ⟨.crawl e, hok b _ hhead ?_, .other he hstep⟩
  intro j env h
  rw [BridgeEvent.crawl.injEq] at h
  exact absurd h (hne j env)

/-- `c'` is `c`, but for the state, the lock and connection `i`. -/
structure Moved (i : ℕ) (c c' : CrawlConfig) (s : CrawlState) (l : RwLock)
    (conn : Conn (Option String) RadiiMessage CrawlState Env RadiiMessage) : Prop where
  state : c'.state = s
  lock : c'.lock = l
  conn : c'.conns i = some conn
  others : ∀ j, j ≠ i → c'.conns j = c.conns j

lemma moved_put (i : ℕ) (c : CrawlConfig) (s : CrawlState) (l : RwLock)
    (conn : Conn (Option String) RadiiMessage CrawlState Env RadiiMessage) :
    Moved i c (((c.withState s).withLock l).put i (some conn)) s l conn :=
  ⟨rfl, rfl, Config.put_conns_self _ _ _, fun _ hj => Config.put_conns_of_ne _ _ hj⟩

lemma Moved.trans {c c' c'' : CrawlConfig} {s s' : CrawlState} {l l' : RwLock}
    {conn conn' : Conn (Option String) RadiiMessage CrawlState Env RadiiMessage}
    (h : Moved i c c' s l conn) (h' : Moved i c' c'' s' l' conn') : Moved i c c'' s' l' conn' :=
  ⟨h'.state, h'.lock, h'.conn, fun j hj => (h'.others j hj).trans (h.others j hj)⟩

/-- A task takes the free lock. -/
lemma Focused.enters (hok : Focused ok head i) {b : Bridge} (hhead : b.head = head)
    {conn : Conn (Option String) RadiiMessage CrawlState Env RadiiMessage} {mode : LockMode}
    {rest : CrawlProg} (hconn : b.crawl.conns i = some conn) (hprog : conn.prog = .lock mode rest)
    (hlock : b.crawl.lock = .free) :
    ∃ c, BridgeRun plainVia (.node "n") ok b (b.withCrawl c) ∧
      Moved i b.crawl c b.crawl.state ⟨[(i, mode)], []⟩ (conn.goto rest) := by
  have hrequest := Step.request (S := crawl) hconn hprog fun m => by simp [hlock, RwLock.free]
  have hqueue : b.crawl.lock.request i mode = ⟨[], [(i, mode)]⟩ := by
    rw [hlock]
    rfl
  rw [hqueue] at hrequest
  have h1 : BridgeRun plainVia (.node "n") ok b _ :=
    hok.other (e := .request i) hhead trivial (by simp) hrequest
  have hgrant := Step.grant (S := crawl) (c := b.crawl.withLock ⟨[], [(i, mode)]⟩) hconn hprog rfl
    (RwLock.admits_of_holders_nil rfl mode)
  have h2 := hok.other (b := b.withCrawl (b.crawl.withLock ⟨[], [(i, mode)]⟩))
    (e := .grant i) hhead trivial (by simp) hgrant
  exact ⟨_, h1.trans h2, moved_put i b.crawl b.crawl.state _ _⟩

/-- A task gives the lock back. -/
lemma Focused.leaves (hok : Focused ok head i) {b : Bridge} (hhead : b.head = head)
    {conn : Conn (Option String) RadiiMessage CrawlState Env RadiiMessage} {mode : LockMode}
    {rest : CrawlProg} (hconn : b.crawl.conns i = some conn) (hprog : conn.prog = .unlock rest)
    (hlock : b.crawl.lock = ⟨[(i, mode)], []⟩) :
    ∃ c, BridgeRun plainVia (.node "n") ok b (b.withCrawl c) ∧
      Moved i b.crawl c b.crawl.state .free (conn.goto rest) := by
  have hrelease := Step.release (S := crawl) hconn hprog
  have hfree : b.crawl.lock.release i = .free := by
    simp [hlock, RwLock.release, RwLock.free]
  rw [hfree] at hrelease
  exact ⟨_, hok.other (e := .release i) hhead trivial (by simp) hrelease,
    moved_put i b.crawl b.crawl.state _ _⟩

lemma accessed {i j : ℕ} {env env' : Env}
    (h : BridgeEvent.crawl (.access i env) = .crawl (.access j env')) : j = i := by
  rw [BridgeEvent.crawl.injEq, Event.access.injEq] at h
  exact h.1.symm

/-- A task at an access that applies none of Head's frames. -/
lemma Focused.looks (hok : Focused ok head i) {b : Bridge} (hhead : b.head = head)
    {conn : Conn (Option String) RadiiMessage CrawlState Env RadiiMessage}
    {rest : Env → CrawlState → CrawlProg} (hconn : b.crawl.conns i = some conn)
    (hprog : conn.prog = .access (fun _ s => s) rest) {n : ℕ} {r : RelayedMessage}
    (hreading : (b.sessions i).reading = some n) (hr : b.sent[n]? = some r)
    (hne : applyUpdate r ≠ fun _ s => s) :
    ∃ c, BridgeRun plainVia (.node "n") ok b (b.withCrawl c) ∧
      Moved i b.crawl c b.crawl.state b.crawl.lock (conn.goto (rest default b.crawl.state)) := by
  refine ⟨_, .single ⟨_, hok _ _ hhead fun _ _ => accessed, .other ?_
    (.access default hconn hprog)⟩, moved_put i b.crawl b.crawl.state b.crawl.lock _⟩
  intro n' r' happ
  rcases happ with ⟨-, hreading', hr', conn', rest', hconn', hprog'⟩
  rw [hreading, Option.some.injEq] at hreading'
  subst hreading'
  rw [hr, Option.some.injEq] at hr'
  subst hr'
  rw [hconn, Option.some.injEq] at hconn'
  subst hconn'
  rw [hprog, Prog.access.injEq] at hprog'
  exact hne hprog'.1.symm

/-- A task at the access that applies its message. -/
lemma Focused.applies (hok : Focused ok head i) {b : Bridge} (hhead : b.head = head)
    {conn : Conn (Option String) RadiiMessage CrawlState Env RadiiMessage} {n : ℕ}
    {r : RelayedMessage} {rest : Env → CrawlState → CrawlProg} (hi : i ∈ b.dialled)
    (hreading : (b.sessions i).reading = some n) (hr : b.sent[n]? = some r)
    (hconn : b.crawl.conns i = some conn) (hprog : conn.prog = .access (applyUpdate r) rest) :
    ∃ c, BridgeRun plainVia (.node "n") ok b ((b.withCrawl c).record n) ∧
      Moved i b.crawl c (applyUpdate r default b.crawl.state) b.crawl.lock
        (conn.goto (rest default b.crawl.state)) :=
  ⟨_, .single ⟨_, hok _ _ hhead fun _ _ => accessed, .apply ⟨hi, hreading, hr, _, _, hconn, hprog⟩
    (.access default hconn hprog)⟩, moved_put i b.crawl _ b.crawl.lock _⟩

lemma applyUpdate_helloAt (addr : String) (env : Env) (s : CrawlState) :
    (applyUpdate (helloAt addr) env s).stored (.node "n") = some (helloValue addr) := by
  rw [applyUpdate, helloAt, applyClaim, CrawlState.stored, CrawlState.insertNode,
    AList.lookup_insert]
  rfl

lemma applyUpdate_helloAt_ne (addr : String) : applyUpdate (helloAt addr) ≠ fun _ s => s := by
  intro h
  have hstored := applyUpdate_helloAt addr default (CrawlState.initial none ∅)
  rw [h] at hstored
  simp [CrawlState.stored, CrawlState.initial] at hstored

/-- A task that has read a hello of the bridge serves it. -/
lemma Focused.answers (hok : Focused ok head i) {b : Bridge} (hhead : b.head = head)
    {conn : Conn (Option String) RadiiMessage CrawlState Env RadiiMessage} {n : ℕ} {addr : String}
    (hi : i ∈ b.dialled) (hreading : (b.sessions i).reading = some n)
    (hr : b.sent[n]? = some (helloAt addr)) (hconn : b.crawl.conns i = some conn)
    (hprog : conn.prog = fromHeadArm none none (helloAt addr)) (hlock : b.crawl.lock = .free) :
    ∃ c out, BridgeRun plainVia (.node "n") ok b (((b.record n).withCrawl c).putSession i
        { b.sessions i with toHead := (b.sessions i).toHead ++ [out] }) ∧
      Moved i b.crawl c (applyUpdate (helloAt addr) default b.crawl.state) .free
        (conn.goto .done) := by
  -- the check of the relay peer, under the read lock
  obtain ⟨c1, hrun1, hmoved1⟩ := hok.enters hhead hconn hprog hlock
  obtain ⟨c2, hrun2, hmoved2⟩ := hok.looks (b := b.withCrawl c1) hhead hmoved1.conn
    rfl hreading hr (applyUpdate_helloAt_ne addr)
  obtain ⟨c3, hrun3, hmoved3⟩ := hok.leaves (b := b.withCrawl c2) hhead hmoved2.conn
    rfl (hmoved2.lock.trans hmoved1.lock)
  -- the hello itself, under the write lock
  obtain ⟨c4, hrun4, hmoved4⟩ := hok.enters (b := b.withCrawl c3) hhead hmoved3.conn
    rfl hmoved3.lock
  obtain ⟨c5, hrun5, hmoved5⟩ := hok.applies (b := b.withCrawl c4) hhead hi hreading
    hr hmoved4.conn rfl
  obtain ⟨c6, hrun6, hmoved6⟩ := hok.leaves (b := (b.record n).withCrawl c5) hhead
    hmoved5.conn rfl (hmoved5.lock.trans hmoved4.lock)
  have hdrain := Step.drain (S := crawl) hmoved6.conn rfl
  have hrun7 := hrun1.trans (hrun2.trans (hrun3.trans (hrun4.trans (hrun5.trans hrun6))))
  have hmoved7 := moved_put i c6 c6.state c6.lock (conn.goto .done)
  have hmoved := (((((hmoved1.trans hmoved2).trans hmoved3).trans hmoved4).trans hmoved5).trans
    hmoved6).trans hmoved7
  have hstate : c6.state = applyUpdate (helloAt addr) default b.crawl.state := by
    rw [hmoved6.state]
    show c5.state = _
    rw [hmoved5.state]
    show applyUpdate _ _ c4.state = _
    rw [hmoved4.state]
    show applyUpdate _ _ c3.state = _
    rw [hmoved3.state]
    show applyUpdate _ _ c2.state = _
    rw [hmoved2.state]
    show applyUpdate _ _ c1.state = _
    rw [hmoved1.state]
  refine ⟨_, _, hrun7.tail ⟨_, hok _ _ hhead (by simp), .reply hi hmoved6.conn rfl hdrain⟩, ?_⟩
  rw [← hstate, ← hmoved6.lock]
  exact hmoved

/-- What serving the frame that waits on session `i` leaves. -/
structure Served (b b' : Bridge) (i : ℕ) (addr : String) : Prop where
  sent : b'.sent = b.sent
  acked : b'.acked = b.acked
  head : b'.head = b.head
  dialled : b'.dialled = b.dialled
  toCrawl : (b'.sessions i).toCrawl = []
  toHead : ∃ out, (b'.sessions i).toHead = (b.sessions i).toHead ++ [out]
  session : ∀ j, j ≠ i → b'.sessions j = b.sessions j
  stored : b'.crawl.state.stored (.node "n") = some (helloValue addr)
  lock : b'.crawl.lock = .free
  conn : ∃ new, b'.crawl.conns i = some new ∧ new.peer = none ∧ new.prog = .done
  conns : ∀ j, j ≠ i → b'.crawl.conns j = b.crawl.conns j

/-- Crawl serves the frame that waits on session `i`, with nothing else going on. -/
lemma Focused.serves (hok : Focused ok head i) {b : Bridge} (hhead : b.head = head)
    {conn : Conn (Option String) RadiiMessage CrawlState Env RadiiMessage} {n : ℕ} {addr : String}
    (hi : i ∈ b.dialled) (hconn : b.crawl.conns i = some conn) (hpeer : conn.peer = none)
    (hdone : conn.prog = .done) (hlock : b.crawl.lock = .free)
    (hqueue : (b.sessions i).toCrawl = [n]) (hr : b.sent[n]? = some (helloAt addr))
    (hreads : crawl.Reads (plainVia.wrap (helloAt addr))) :
    ∃ b', BridgeRun plainVia (.node "n") ok b b' ∧ Served b b' i addr := by
  have hrecv := Step.recv (S := crawl) _ hconn hdone hreads
  rw [hpeer] at hrecv
  have h1 : BridgeRun plainVia (.node "n") ok b _ := .single ⟨_, hok _ _ hhead (by simp),
    .recv hi hqueue hr hrecv⟩
  obtain ⟨c, out, h2, hmoved⟩ := hok.answers
    (b := (b.withCrawl (b.crawl.put i (some ⟨none, some (plainVia.wrap (helloAt addr)),
      fromHeadArm none none (helloAt addr)⟩))).putSession i ⟨[], (b.sessions i).toHead, some n⟩)
    hhead hi (by simp [Bridge.putSession]) hr (Config.put_conns_self _ _ _) rfl hlock
  refine ⟨_, h1.trans h2, ?_, ?_, ?_, ?_, ?_, ⟨out, ?_⟩, ?_, ?_, hmoved.lock, ?_, ?_⟩
  · simp only [Bridge.putSession, Bridge.withCrawl, Bridge.record]
  · simp only [Bridge.putSession, Bridge.withCrawl, Bridge.record]
  · simp only [Bridge.putSession, Bridge.withCrawl, Bridge.record]
  · simp only [Bridge.putSession, Bridge.withCrawl, Bridge.record]
  · simp [Bridge.putSession]
  · simp [Bridge.putSession]
  · intro j hj
    simp [Bridge.putSession, Bridge.record, Bridge.withCrawl, hj]
  · show c.state.stored (.node "n") = _
    rw [hmoved.state, applyUpdate_helloAt]
  · exact ⟨_, hmoved.conn, rfl, rfl⟩
  · intro j hj
    exact (hmoved.others j hj).trans (Config.put_conns_of_ne _ _ hj)

end Serves

section Exchanges

variable {ok : Bridge → BridgeEvent → Prop} {i : ℕ}

/-- Head waits on session `i`, on which the client's last message, a hello, is under way. -/
structure UnderWay (b : Bridge) (i : ℕ) (earlier : List RelayedMessage) (addr : String) : Prop where
  head : ∃ retried, b.head = .relaying retried i
  sent : b.sent = earlier ++ [helloAt addr]
  acked : b.acked = earlier.length
  dialled : i ∈ b.dialled
  toCrawl : (b.sessions i).toCrawl = [earlier.length]
  toHead : (b.sessions i).toHead = []
  lock : b.crawl.lock = .free
  conn : ∃ conn, b.crawl.conns i = some conn ∧ conn.peer = none ∧ conn.prog = .done

/-- Every message has been acknowledged, and Head keeps session `i`. -/
structure AtRest (b : Bridge) (i : ℕ) (all : List RelayedMessage) (addr : String) : Prop where
  head : b.head = .idle (some i)
  sent : b.sent = all
  acked : b.acked = all.length
  dialled : i ∈ b.dialled
  toCrawl : (b.sessions i).toCrawl = []
  toHead : (b.sessions i).toHead = []
  lock : b.crawl.lock = .free
  conn : ∃ conn, b.crawl.conns i = some conn ∧ conn.peer = none ∧ conn.prog = .done
  stored : b.crawl.state.stored (.node "n") = some (helloValue addr)

/-- Nothing has happened but on session `i`. -/
def OnlyOn (i : ℕ) (b b' : Bridge) : Prop :=
  b'.dialled = b.dialled ∧ ∀ j, j ≠ i → b'.sessions j = b.sessions j ∧
    b'.crawl.conns j = b.crawl.conns j

/-- The hello is served, and the client gets its acknowledgement. -/
lemma exchange (hok : ∀ retried, Focused ok (.relaying retried i) i) (hhead : ∀ b, ok b .head)
    {b : Bridge} {earlier : List RelayedMessage} {addr : String}
    (hreads : crawl.Reads (plainVia.wrap (helloAt addr))) (h : UnderWay b i earlier addr) :
    ∃ b', BridgeRun plainVia (.node "n") ok b b' ∧ AtRest b' i (earlier ++ [helloAt addr]) addr ∧
      OnlyOn i b b' := by
  rcases h.head with ⟨retried, hretried⟩
  rcases h.conn with ⟨conn, hconn, hpeer, hdone⟩
  obtain ⟨b', hrun, hserved⟩ := (hok retried).serves hretried h.dialled hconn hpeer hdone h.lock
    h.toCrawl (by simp [h.sent]) hreads
  rcases hserved.toHead with ⟨out, htoHead⟩
  rw [h.toHead, List.nil_append] at htoHead
  refine ⟨_, hrun.tail ⟨_, hhead _, .ack (hserved.head.trans hretried) htoHead⟩,
    ⟨rfl, hserved.sent.trans h.sent, ?_, hserved.dialled ▸ h.dialled, ?_, ?_, hserved.lock,
      hserved.conn, hserved.stored⟩, hserved.dialled, fun j hj => ⟨?_, hserved.conns j hj⟩⟩
  · show b'.acked + 1 = _
    rw [hserved.acked, h.acked, List.length_append]
    rfl
  · simpa [Bridge.acknowledge] using hserved.toCrawl
  · simp [Bridge.acknowledge]
  · simpa [Bridge.acknowledge, hj] using hserved.session j hj

/-- The client's next hello, over the session Head has kept. -/
lemma AtRest.next (hok : ∀ retried, Focused ok (.relaying retried i) i) (hhead : ∀ b, ok b .head)
    {b : Bridge} {all : List RelayedMessage} {old addr : String}
    (hreads : crawl.Reads (plainVia.wrap (helloAt addr))) (h : AtRest b i all old) :
    ∃ b', BridgeRun plainVia (.node "n") ok b b' ∧ AtRest b' i (all ++ [helloAt addr]) addr ∧
      OnlyOn i b b' := by
  have hm : RelayedMessage.tryFrom (.nodeHello "n" [] [⟨addr, "relay"⟩]) = .ok (helloAt addr) := rfl
  have hsend : BridgeRun plainVia (.node "n") ok b _ :=
    .single ⟨_, hhead _, .send true h.head hm⟩
  have hunderWay : UnderWay ((b.submit (helloAt addr)).relay false i true) i all addr := by
    refine ⟨⟨false, rfl⟩, ?_, h.acked, h.dialled, ?_, ?_, h.lock, h.conn⟩
    · show b.sent ++ _ = _
      rw [h.sent]
    · simp [Bridge.relay, Bridge.submit, h.toCrawl, h.sent]
    · simp [Bridge.relay, Bridge.submit, h.toHead]
  obtain ⟨b', hrun, hrest, hdialled, honly⟩ := exchange hok hhead hreads hunderWay
  refine ⟨b', hsend.trans hrun, hrest, hdialled, ?_⟩
  intro j hj
  obtain ⟨hsession, hconns⟩ := honly j hj
  exact ⟨hsession.trans (by simp [Bridge.relay, Bridge.submit, hj]), hconns⟩

/-- The client's first hello, written on session 0. -/
lemma first_hello (hhead : ∀ b, ok b .head) (addr : String) :
    ∃ b, BridgeRun plainVia (.node "n") ok (.initial (crawlInitial none ∅)) b ∧
      UnderWay b 0 [] addr ∧ b.head = .relaying false 0 ∧ b.dialled = {0} ∧
      ∀ j, j ≠ 0 → b.sessions j = .blank ∧ b.crawl.conns j = none := by
  have hm : RelayedMessage.tryFrom (.nodeHello "n" [] [⟨addr, "relay"⟩]) = .ok (helloAt addr) := rfl
  refine ⟨_, .single ⟨_, hhead _, .sendFirst true rfl hm (Finset.notMem_empty 0)
    (.accept none rfl)⟩, ⟨⟨false, rfl⟩, rfl, rfl, Finset.mem_insert_self _ _, ?_, ?_, rfl,
      ⟨_, Config.put_conns_self _ _ _, rfl, rfl⟩⟩, rfl, rfl, fun j hj => ⟨?_, ?_⟩⟩
  · simp [Bridge.relay, Bridge.dial, Bridge.submit, Bridge.initial, Session.blank]
  · simp [Bridge.relay, Bridge.dial, Bridge.submit, Bridge.initial, Session.blank]
  · simp [Bridge.relay, Bridge.dial, Bridge.submit, Bridge.initial, hj]
  · exact Config.put_conns_of_ne _ _ hj

end Exchanges

lemma reads_hello : crawl.Reads (plainVia.wrap (helloAt "a:1")) ∧
    crawl.Reads (plainVia.wrap (helloAt "a:2")) :=
  ⟨⟨[frame (plainVia.wrap (helloAt "a:1"))], [[]], by decide⟩,
    [frame (plainVia.wrap (helloAt "a:2"))], [[]], by decide⟩

/-- What a session that failed leaves: its frame, and Crawl's task, which has not read it. -/
structure LeftOver (b : Bridge) (i : ℕ) : Prop where
  dialled : i ∈ b.dialled
  toCrawl : (b.sessions i).toCrawl = [0]
  conn : ∃ conn, b.crawl.conns i = some conn ∧ conn.peer = none ∧ conn.prog = .done

/-- The first session fails with the first hello on it; that is sent again on another session, and
both it and a second hello are acknowledged there. -/
lemma exists_resent {ok : Bridge → BridgeEvent → Prop} (hhead : ∀ b, ok b .head)
    (hok : ∀ retried, Focused ok (.relaying retried 1) 1) :
    ∃ b, BridgeRun plainVia (.node "n") ok (.initial (crawlInitial none ∅)) b ∧
      AtRest b 1 [helloAt "a:1", helloAt "a:2"] "a:2" ∧ LeftOver b 0 := by
  obtain ⟨b0, h0, hfirst, hhead0, hdialled0, hothers0⟩ := @first_hello ok hhead "a:1"
  -- the session fails, and the hello is sent again
  obtain ⟨hsession1, hfree1⟩ := hothers0 1 (by decide)
  have h1 := h0.tail ⟨_, hhead _, .resend true hhead0 (by simp [hdialled0]) (.accept none hfree1)⟩
  have hagain : UnderWay ((b0.dial 1 (b0.crawl.put 1 (some ⟨none, none, .done⟩))).relay true 1 true)
      1 [] "a:1" := by
    refine ⟨⟨true, rfl⟩, hfirst.sent, hfirst.acked, Finset.mem_insert_self _ _, ?_, ?_, hfirst.lock,
      ⟨_, Config.put_conns_self _ _ _, rfl, rfl⟩⟩
    · simp [Bridge.relay, Bridge.dial, hsession1, Session.blank, hfirst.sent]
    · simp [Bridge.relay, Bridge.dial, hsession1, Session.blank]
  obtain ⟨b2, h2, hrest2, hdialled2, honly2⟩ := exchange hok hhead reads_hello.1 hagain
  obtain ⟨b3, h3, hrest3, hdialled3, honly3⟩ := hrest2.next hok hhead reads_hello.2
  -- all of that leaves session 0 as it was
  obtain ⟨hsession2, hconns2⟩ := honly2 0 (by decide)
  obtain ⟨hsession3, hconns3⟩ := honly3 0 (by decide)
  rcases hfirst.conn with ⟨conn, hconn, hpeer, hdone⟩
  refine ⟨b3, h1.trans (h2.trans h3), hrest3, ?_, ?_, conn, ?_, hpeer, hdone⟩
  · rw [hdialled3, hdialled2]
    exact Finset.mem_insert_of_mem hfirst.dialled
  · rw [hsession3, hsession2]
    simpa [Bridge.relay, Bridge.dial] using hfirst.toCrawl
  · rw [hconns3, hconns2, ← hconn]
    exact Config.put_conns_of_ne _ _ (by decide)

/-- As long as Crawl does not come to the frame that the failed session has left. -/
theorem bridge_keeps_latest_resent : ∃ b : Bridge,
    BridgeRun plainVia (.node "n") (Orderly (.node "n")) (.initial (crawlInitial none ∅)) b ∧
    LeftOver b 0 ∧ b.acked = 2 ∧
    b.crawl.state.stored (.node "n") = some (helloValue "a:2") ∧
    ∃ n r, 1 ≤ n ∧ b.sent[n]? = some r ∧ r.subject = some (.node "n", helloValue "a:2") := by
  obtain ⟨b, hrun, hrest, hleft⟩ := exists_resent (fun _ => nofun)
    fun retried => orderly_focused (.node "n") retried 1
  exact ⟨b, hrun, hleft, hrest.acked, hrest.stored,
    bridge_keeps_latest hrun (by rw [hrest.acked]; decide) (by rw [hrest.sent]; rfl) ⟨_, rfl⟩
      hrest.stored⟩

/-- **A left-over frame undoes an acknowledged update.**  Head writes the first hello on session
0, loses the session and sends it again on session 1; both it and a second hello are acknowledged
there.  Only then does Crawl come to the frame on session 0: what it holds for the node is the
first hello again. -/
theorem late_frame_overwrites : ∃ b : Bridge,
    BridgeRun plainVia (.node "n") (fun _ _ => True) (.initial (crawlInitial none ∅)) b ∧
    b.sent = [helloAt "a:1", helloAt "a:2"] ∧ b.acked = 2 ∧
    b.crawl.state.stored (.node "n") = some (helloValue "a:1") ∧
    helloValue "a:1" ≠ helloValue "a:2" := by
  have hok : ∀ head i, Focused (fun _ _ => True) head i := fun _ _ _ _ _ _ => trivial
  obtain ⟨b, hrun, hrest, hleft⟩ := exists_resent (fun _ => trivial) fun _ => hok _ _
  rcases hleft.conn with ⟨conn, hconn, hpeer, hdone⟩
  obtain ⟨b', hrun', hserved⟩ := (hok (.idle (some 1)) 0).serves hrest.head hleft.dialled hconn
    hpeer hdone hrest.lock hleft.toCrawl (by rw [hrest.sent]; rfl) reads_hello.1
  exact ⟨b', hrun.trans hrun', hserved.sent.trans hrest.sent, hserved.acked.trans hrest.acked,
    hserved.stored, by decide⟩

end Radii
