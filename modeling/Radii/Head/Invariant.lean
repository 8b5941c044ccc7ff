import Radii.Head.Bridge

/-!
# The bridge's invariant

What every orderly run of the bridge keeps (`Bridge.Inv`): where Head and the session it waits on
stand (`HeadOk`), how far Crawl is with each frame of the bridge (`OwnConn`), and that the entry
under the client's key is the value of a message no applied one is later than (`Sound.latest`).
`Bridge.Inv.step` is assembled from one lemma for each kind of step.
-/

namespace Radii

open Sync Collections

/-! ## The invariant -/

section Invariant

variable (via : Via) (key : StoreKey) (nodeTtlMs : Option ℕ) (relayPeers : Finset String)

/-- How far Crawl is with message `n`, which is `r`: it has answered it, or will with its last
instruction, and if the message counts for the key it is applied before. -/
def Serving (handled : List ℕ) (n : ℕ) (r : RelayedMessage) (prog : CrawlProg) : Prop :=
  prog = .done ∨ prog.RepliesLast ∧
    (r.About key → Grants relayPeers via.peer (via.wrap r) r →
      prog.Pending (fun s => s.relayPeers = relayPeers) (applyUpdate r) ∨
        prog.Applied ∧ n ∈ handled)

/-- A connection of Head's: idle, or serving the frame read last. -/
def OwnConn (sent : List RelayedMessage) (handled : List ℕ) (reading : Option ℕ)
    (conn : Conn (Option String) RadiiMessage CrawlState Env RadiiMessage) : Prop :=
  conn.peer = via.peer ∧ (conn.frame = none ∧ conn.prog = .done ∨ ∃ n r, reading = some n ∧
    sent[n]? = some r ∧ conn.frame = some (via.wrap r) ∧
    Serving via key relayPeers handled n r conn.prog)

namespace Bridge

/-- Crawl's connection `i` is closed or waits for a frame. -/
def IdleAt (b : Bridge) (i : ℕ) : Prop :=
  ∀ conn, b.crawl.conns i = some conn → conn.prog = .done

/-- Message `n` has been applied, if it counts for the key. -/
def Answered (b : Bridge) (n : ℕ) : Prop :=
  ∀ r, b.sent[n]? = some r → r.About key → Grants relayPeers via.peer (via.wrap r) r →
    n ∈ b.handled

/-- How far the client's last message has come on session `i`. -/
inductive Awaiting (b : Bridge) (i : ℕ) : Prop where
  | unread (htoHead : (b.sessions i).toHead = [])
      (htoCrawl : (b.sessions i).toCrawl = [] ∨ (b.sessions i).toCrawl = [b.acked])
      (hidle : b.IdleAt i)
  | reading (htoHead : (b.sessions i).toHead = []) (htoCrawl : (b.sessions i).toCrawl = [])
      (hreading : (b.sessions i).reading = some b.acked)
  | replied {out : RadiiMessage} (htoHead : (b.sessions i).toHead = [out])
      (htoCrawl : (b.sessions i).toCrawl = []) (hidle : b.IdleAt i)
      (hanswered : b.Answered via key relayPeers b.acked)

/-- Head's loop, and the session it uses. -/
structure HeadOk (b : Bridge) : Prop where
  acked_le : b.acked ≤ b.sent.length
  idle : ∀ upstream, b.head = .idle upstream → b.acked = b.sent.length
  relaying : ∀ retried i, b.head = .relaying retried i → b.acked + 1 = b.sent.length
  resting : ∀ i, b.head = .idle (some i) → i ∈ b.dialled ∧ (b.sessions i).toCrawl = [] ∧
    (b.sessions i).toHead = [] ∧ b.IdleAt i
  awaiting : ∀ retried i, b.head = .relaying retried i → i ∈ b.dialled ∧
    b.Awaiting via key relayPeers i

/-- Crawl, its connections, and what they have done for the key. -/
structure Sound (b : Bridge) : Prop where
  reachable : Reachable Radii.crawl (crawlInitial nodeTtlMs relayPeers) b.crawl
  blank : ∀ i, i ∉ b.dialled → b.sessions i = .blank
  own : ∀ i conn, i ∈ b.dialled → b.crawl.conns i = some conn →
    OwnConn via key relayPeers b.sent b.handled (b.sessions i).reading conn
  foreign : ∀ i conn m r, i ∉ b.dialled → b.crawl.conns i = some conn → conn.frame = some m →
    m.claim = some r → ¬ r.About key
  numbered : ∀ n ∈ b.handled, n < b.sent.length
  answered : ∀ n < b.acked, b.Answered via key relayPeers n
  ungranted : (∀ r, r.About key → ¬ Grants relayPeers via.peer (via.wrap r) r) →
    b.crawl.state.stored key = none
  latest : ∀ v, b.crawl.state.stored key = some v → ∃ n r, n ∈ b.handled ∧
    b.sent[n]? = some r ∧ r.subject = some (key, v) ∧ ∀ m ∈ b.handled, b.Concerns key m → m ≤ n

/-- The invariant of the system. -/
structure Inv (b : Bridge) : Prop where
  sound : b.Sound via key nodeTtlMs relayPeers
  head : b.HeadOk via key relayPeers

end Bridge

variable {via key nodeTtlMs relayPeers} {b : Bridge}

lemma getElem?_of_append {α : Type} {xs : List α} {n : ℕ} {x y : α} (h : xs[n]? = some x) :
    (xs ++ [y])[n]? = some x := by
  rw [List.getElem?_append_left (List.getElem?_eq_some_iff.mp h).1, h]

lemma Serving.mono {handled handled' : List ℕ} {n : ℕ} {r : RelayedMessage} {prog : CrawlProg}
    (hsub : handled ⊆ handled') (h : Serving via key relayPeers handled n r prog) :
    Serving via key relayPeers handled' n r prog := by
  rcases h with hdone | ⟨hlast, hprog⟩
  · exact Or.inl hdone
  · refine Or.inr ⟨hlast, ?_⟩
    intro habout hg
    rcases hprog habout hg with hpending | ⟨happlied, hn⟩
    · exact Or.inl hpending
    · exact Or.inr ⟨happlied, hsub hn⟩

/-- An advance of a connection that serves message `n`. -/
lemma Serving.advance {handled handled' : List ℕ} {n : ℕ} {r : RelayedMessage}
    {prog prog' : CrawlProg} {i : ℕ} {s s' : CrawlState} {e : CrawlEvent}
    (hs : s.relayPeers = relayPeers) (hsub : handled ⊆ handled')
    (happ : ∀ env rest, e = .access i env → prog = .access (applyUpdate r) rest → n ∈ handled')
    (hadvance : Advance i s s' e prog prog')
    (h : Serving via key relayPeers handled n r prog) :
    Serving via key relayPeers handled' n r prog' := by
  rcases h with rfl | ⟨hlast, hprog⟩
  · cases hadvance
  · rcases hlast.advance hadvance with hlast' | ⟨-, hdone⟩
    · refine Or.inr ⟨hlast', ?_⟩
      intro habout hg
      rcases hprog habout hg with hpending | ⟨happlied, hn⟩
      · rcases hpending.advance hs hadvance with hpending' | ⟨happlied, env, rest, he, hp⟩
        · exact Or.inl hpending'
        · exact Or.inr ⟨happlied, happ env rest he hp⟩
      · exact Or.inr ⟨happlied.advance hadvance, hsub hn⟩
    · exact Or.inl hdone

lemma OwnConn.mono {sent sent' : List RelayedMessage} {handled handled' : List ℕ}
    {reading : Option ℕ} {conn : Conn (Option String) RadiiMessage CrawlState Env RadiiMessage}
    (hsent : ∀ (n : ℕ) (r : RelayedMessage), sent[n]? = some r → sent'[n]? = some r)
    (hsub : handled ⊆ handled')
    (h : OwnConn via key relayPeers sent handled reading conn) :
    OwnConn via key relayPeers sent' handled' reading conn := by
  rcases h with ⟨hpeer, hidle | ⟨n, r, hreading, hr, hframe, hserving⟩⟩
  · exact ⟨hpeer, Or.inl hidle⟩
  · exact ⟨hpeer, Or.inr ⟨n, r, hreading, hsent n r hr, hframe, hserving.mono hsub⟩⟩

namespace Bridge

/-! ### What a step of Crawl does -/

/-- An idle connection stays idle until it reads a frame. -/
lemma IdleAt.step {i : ℕ} {e : CrawlEvent} {c : CrawlConfig} (h : b.IdleAt i)
    (hstep : Step Radii.crawl b.crawl e c) (hrecv : ∀ m, e ≠ .recv i m) :
    (b.withCrawl c).IdleAt i := by
  intro conn hconn
  rcases hstep.advances hconn with hold | ⟨-, hdone⟩ | ⟨hold, -, -⟩ | ⟨hold, -, hadvance⟩
  · exact h conn hold
  · exact hdone
  · exact absurd rfl (hrecv _)
  · rw [h _ hold] at hadvance
    cases hadvance

/-- A connection of Head's, under any step but an opening or a reading. -/
lemma Sound.own_step (h : b.Sound via key nodeTtlMs relayPeers) {i : ℕ} {e : CrawlEvent}
    {c : CrawlConfig} {handled' : List ℕ} (hstep : Step Radii.crawl b.crawl e c)
    (hi : i ∈ b.dialled) (haccept : ∀ peer, e ≠ .accept i peer) (hrecv : ∀ m, e ≠ .recv i m)
    (hsub : b.handled ⊆ handled')
    (happ : ∀ env n r, e = .access i env → b.Applying i n r → n ∈ handled')
    {conn : Conn (Option String) RadiiMessage CrawlState Env RadiiMessage}
    (hconn : c.conns i = some conn) :
    OwnConn via key relayPeers b.sent handled' (b.sessions i).reading conn := by
  rcases hstep.advances hconn with hold | ⟨-, -⟩ | ⟨hold, -, -⟩ | ⟨hold, rfl, hadvance⟩
  · exact (h.own i conn hi hold).mono (fun _ _ hr => hr) hsub
  · exact absurd rfl (haccept _)
  · exact absurd rfl (hrecv _)
  · obtain ⟨hpeer, ⟨-, hdone⟩ | ⟨n, r, hreading, hr, hframe, hserving⟩⟩ := h.own i _ hi hold
    · rw [hdone] at hadvance
      cases hadvance
    · refine ⟨hpeer, Or.inr ⟨n, r, hreading, hr, hframe, ?_⟩⟩
      refine hserving.advance (crawl_meets h.reachable).state.relays hsub ?_ hadvance
      intro env rest he hprog
      exact happ env n r he ⟨hi, hreading, hr, _, rest, hold, hprog⟩

/-- Somebody else's connection, under any step but the reading of a frame about the key. -/
lemma Sound.foreign_step (h : b.Sound via key nodeTtlMs relayPeers) {i : ℕ} {e : CrawlEvent}
    {c : CrawlConfig} (hstep : Step Radii.crawl b.crawl e c) (hi : i ∉ b.dialled)
    (hrecv : ∀ m r, e = .recv i m → m.claim = some r → ¬ r.About key)
    {conn : Conn (Option String) RadiiMessage CrawlState Env RadiiMessage} {m : RadiiMessage}
    {r : RelayedMessage} (hconn : c.conns i = some conn) (hframe : conn.frame = some m)
    (hclaim : m.claim = some r) : ¬ r.About key := by
  rcases hstep.advances hconn with hold | ⟨hnone, -⟩ | ⟨hold, -, rfl⟩ | ⟨hold, rfl, -⟩
  · exact h.foreign i conn m r hi hold hframe hclaim
  · rw [hnone] at hframe
    simp at hframe
  · simp only [Option.some.injEq] at hframe
    subst hframe
    exact hrecv _ r rfl hclaim
  · exact h.foreign i _ m r hi hold hframe hclaim

/-- **What a step of Crawl does to the entry**: it leaves it, drops it, or applies a message of
the client's about the key. -/
lemma Sound.stored_step (h : b.Sound via key nodeTtlMs relayPeers) {e : CrawlEvent}
    {c : CrawlConfig} (hstep : Step Radii.crawl b.crawl e c) :
    c.state.stored key = b.crawl.state.stored key ∨ c.state.stored key = none ∨
      ∃ i env n r, e = .access i env ∧ b.Applying i n r ∧ r.About key ∧
        Grants relayPeers via.peer (via.wrap r) r := by
  have hmeets := crawl_meets h.reachable
  rcases Config.Meets.effect hstep hmeets with
    hsame | ⟨i, env, conn, m, rfl, hconn, hframe, hsame | ⟨r, hgrants, hstate⟩⟩
  · exact Or.inl (by rw [hsame])
  · exact Or.inl (by rw [hsame])
  · by_cases habout : r.About key
    · by_cases hi : i ∈ b.dialled
      · obtain ⟨hpeer, ⟨hnone, -⟩ | ⟨n, r', hreading, hr, hframe', hserving⟩⟩ :=
          h.own i conn hi hconn
        · rw [hnone] at hframe
          simp at hframe
        · rw [hframe, Option.some.injEq] at hframe'
          subst hframe'
          have hr' : r' = r := by simpa [Via.wrap, RadiiMessage.claim] using claim_of_grants hgrants
          subst hr'
          rw [hpeer] at hgrants
          obtain ⟨conn', update, rest, hconn', hprog⟩ : ∃ conn' update rest,
              b.crawl.conns i = some conn' ∧ conn'.prog = .access update rest := by
            cases hstep with
            | access _ hconn' hprog => exact ⟨_, _, _, hconn', hprog⟩
          rw [hconn, Option.some.injEq] at hconn'
          subst hconn'
          rw [hprog] at hserving
          rcases hserving with hdone | ⟨-, hserving⟩
          · simp at hdone
          · rcases hserving habout hgrants with (⟨rfl, -⟩ | ⟨hid, -⟩) | ⟨happlied, -⟩
            · exact Or.inr (Or.inr ⟨i, env, n, r', rfl, ⟨hi, hreading, hr, conn, rest, hconn,
                hprog⟩, habout, hgrants⟩)
            · rw [hid] at hprog
              exact Or.inl (by rw [hstep.access_state hconn hprog])
            · exact absurd happlied id
      · exact absurd habout (h.foreign i conn m r hi hconn hframe (claim_of_grants hgrants))
    · rcases stored_applyClaim_of_ne env.now b.crawl.state habout with hsame | hnone
      · exact Or.inl (by rw [hstate, hsame])
      · exact Or.inr (Or.inl (by rw [hstate, hnone]))

/-! ### Crawl's part of the invariant -/

lemma Sound.ungranted_step (h : b.Sound via key nodeTtlMs relayPeers) {e : CrawlEvent}
    {c : CrawlConfig} (hstep : Step Radii.crawl b.crawl e c)
    (hnone : ∀ r, r.About key → ¬ Grants relayPeers via.peer (via.wrap r) r) :
    c.state.stored key = none := by
  rcases h.stored_step hstep with hsame | hgone | ⟨i, env, n, r, -, -, habout, hgrants⟩
  · rw [hsame, h.ungranted hnone]
  · exact hgone
  · exact absurd hgrants (hnone r habout)

/-- A step that applies none of Head's frames. -/
lemma Sound.withCrawl (h : b.Sound via key nodeTtlMs relayPeers) {e : CrawlEvent}
    {c : CrawlConfig} (hstep : Step Radii.crawl b.crawl e c)
    (haccept : ∀ i peer, e = .accept i peer → i ∉ b.dialled)
    (hrecv : ∀ i m, e = .recv i m → i ∉ b.dialled ∧ ∀ r, m.claim = some r → ¬ r.About key)
    (happ : ∀ i env n r, e = .access i env → ¬ b.Applying i n r) :
    (b.withCrawl c).Sound via key nodeTtlMs relayPeers where
  reachable := h.reachable.tail ⟨e, trivial, hstep⟩
  blank := h.blank
  own i conn hi hconn := h.own_step hstep hi (fun peer he => haccept i peer he hi)
    (fun m he => (hrecv i m he).1 hi) (List.Subset.refl _)
    (fun env n r he hr => absurd hr (happ i env n r he)) hconn
  foreign i conn m r hi hconn := h.foreign_step hstep hi
    (fun m r he => (hrecv i m he).2 r) hconn
  numbered := h.numbered
  answered := h.answered
  ungranted := h.ungranted_step hstep
  latest v hv := by
    rcases h.stored_step hstep with hsame | hgone | ⟨i, env, n, r, he, hr, -, -⟩
    · exact h.latest v (by rw [← hsame]; exact hv)
    · simp [Bridge.withCrawl, hgone] at hv
    · exact absurd hr (happ i env n r he)

/-- Replacing a session of Head's, the frame read last apart. -/
lemma Sound.putSession (h : b.Sound via key nodeTtlMs relayPeers) {i : ℕ} (hi : i ∈ b.dialled)
    {s : Session} (hs : s.reading = (b.sessions i).reading) :
    (b.putSession i s).Sound via key nodeTtlMs relayPeers where
  reachable := h.reachable
  blank j hj := by
    have hne : j ≠ i := by
      rintro rfl
      exact hj hi
    simpa [Bridge.putSession, hne] using h.blank j hj
  own j conn hj hconn := by
    have hreading : ((b.putSession i s).sessions j).reading = (b.sessions j).reading := by
      by_cases hji : j = i
      · subst hji
        simpa [Bridge.putSession] using hs
      · simp [Bridge.putSession, hji]
    rw [hreading]
    exact h.own j conn hj hconn
  foreign := h.foreign
  numbered := h.numbered
  answered := h.answered
  ungranted := h.ungranted
  latest := h.latest

/-- Crawl reads a frame from a session of Head's. -/
lemma Sound.recv (h : b.Sound via key nodeTtlMs relayPeers) {i n : ℕ} {r : RelayedMessage}
    {c : CrawlConfig} {rest : List ℕ} {replies : List RadiiMessage} (hi : i ∈ b.dialled)
    (hr : b.sent[n]? = some r) (hstep : Step Radii.crawl b.crawl (.recv i (via.wrap r)) c) :
    ((b.withCrawl c).putSession i ⟨rest, replies, some n⟩).Sound via key nodeTtlMs relayPeers
    where
  reachable := h.reachable.tail ⟨_, trivial, hstep⟩
  blank j hj := by
    have hne : j ≠ i := by
      rintro rfl
      exact hj hi
    simpa [Bridge.putSession, Bridge.withCrawl, hne] using h.blank j hj
  own j conn hj hconn := by
    by_cases hji : j = i
    · subst hji
      have hreading : ((b.withCrawl c).putSession j ⟨rest, replies, some n⟩).sessions j =
          ⟨rest, replies, some n⟩ := by
        simp [Bridge.putSession]
      rw [hreading]
      have hconn : c.conns j = some conn := hconn
      cases hstep with
      | @recv _ old _ hold hdone hreads =>
          rw [Config.put_conns_self, Option.some.injEq] at hconn
          subst hconn
          obtain ⟨hpeer, -⟩ := h.own j old hj hold
          refine ⟨hpeer, Or.inr ⟨n, r, rfl, hr, rfl, Or.inr ⟨?_, fun habout hg => Or.inl ?_⟩⟩⟩
          · exact fromHeadArm_repliesLast _ _ r
          · rw [hpeer]
            exact fromHeadArm_pending habout hg
    · have hsession : ((b.withCrawl c).putSession i ⟨rest, replies, some n⟩).sessions j =
          b.sessions j := by
        simp [Bridge.putSession, Bridge.withCrawl, hji]
      rw [hsession]
      refine h.own_step hstep hj nofun (fun m he => hji ?_) (List.Subset.refl _) nofun hconn
      rw [Event.recv.injEq] at he
      exact he.1.symm
  foreign j conn m r' hj hconn := by
    refine h.foreign_step hstep hj (fun m' r'' he => absurd hi ?_) hconn
    rw [Event.recv.injEq] at he
    exact he.1 ▸ hj
  numbered := h.numbered
  answered := h.answered
  ungranted := h.ungranted_step hstep
  latest v hv := by
    rcases h.stored_step hstep with hsame | hgone | ⟨j, env, m, r', he, -⟩
    · exact h.latest v (by rw [← hsame]; exact hv)
    · simp [Bridge.putSession, Bridge.withCrawl, hgone] at hv
    · simp at he

/-- Crawl applies a frame of Head's, not after a later one about the key. -/
lemma Sound.apply (h : b.Sound via key nodeTtlMs relayPeers) {i n : ℕ} {r : RelayedMessage}
    {env : Env} {c : CrawlConfig} (happ : b.Applying i n r)
    (hlast : r.About key → ∀ m ∈ b.handled, b.Concerns key m → m ≤ n)
    (hstep : Step Radii.crawl b.crawl (.access i env) c) :
    ((b.withCrawl c).record n).Sound via key nodeTtlMs relayPeers where
  reachable := h.reachable.tail ⟨_, trivial, hstep⟩
  blank := h.blank
  own j conn hj hconn := by
    refine h.own_step hstep hj nofun nofun (List.subset_append_left _ _) ?_ hconn
    intro env' n' r' he happ'
    rw [Event.access.injEq] at he
    rcases he with ⟨rfl, rfl⟩
    rcases happ' with ⟨-, hreading, -⟩
    rw [happ.2.1, Option.some.injEq] at hreading
    simp [hreading]
  foreign j conn m r' hj hconn := by
    refine h.foreign_step hstep hj ?_ hconn
    intro m r he
    cases he
  numbered m hm := by
    simp only [Bridge.record, List.mem_append, List.mem_singleton] at hm
    rcases hm with hm | rfl
    · exact h.numbered m hm
    · exact (List.getElem?_eq_some_iff.mp happ.2.2.1).1
  answered m hm r' hr' habout hg := List.mem_append_left _ (h.answered m hm r' hr' habout hg)
  ungranted := h.ungranted_step hstep
  latest v hv := by
    rcases happ with ⟨hi, hreading, hr, conn, rest, hconn, hprog⟩
    have hstate := hstep.access_state hconn hprog
    have hv : c.state.stored key = some v := hv
    rw [hstate, applyUpdate] at hv
    by_cases habout : r.About key
    · rcases habout with ⟨w, hw⟩
      rcases stored_applyClaim_self env.now b.crawl.state hw with hself | hnone
      · rw [hself, Option.some.injEq] at hv
        subst hv
        refine ⟨n, r, by simp [Bridge.record], hr, hw, ?_⟩
        intro m hm hc
        simp only [Bridge.record, List.mem_append, List.mem_singleton] at hm
        rcases hm with hm | rfl
        · exact hlast ⟨w, hw⟩ m hm hc
        · exact le_refl _
      · simp [hnone] at hv
    · rcases stored_applyClaim_of_ne env.now b.crawl.state habout with hsame | hnone
      · rw [hsame] at hv
        obtain ⟨k, r', hk, hr', hsubject, hmax⟩ := h.latest v hv
        refine ⟨k, r', List.mem_append_left _ hk, hr', hsubject, ?_⟩
        intro m hm hc
        simp only [Bridge.record, List.mem_append, List.mem_singleton] at hm
        rcases hm with hm | rfl
        · exact hmax m hm hc
        · rcases hc with ⟨r'', hr'', habout'⟩
          have hr'' : b.sent[m]? = some r'' := hr''
          rw [hr, Option.some.injEq] at hr''
          exact absurd (hr'' ▸ habout') habout
      · simp [hnone] at hv

/-! ### Head's part of the invariant -/

/-- The client's next message leaves the earlier ones as they are. -/
lemma Sound.submit (h : b.Sound via key nodeTtlMs relayPeers) (hacked : b.acked ≤ b.sent.length)
    (r : RelayedMessage) : (b.submit r).Sound via key nodeTtlMs relayPeers where
  reachable := h.reachable
  blank := h.blank
  own i conn hi hconn :=
    (h.own i conn hi hconn).mono (fun _ _ => getElem?_of_append) (List.Subset.refl _)
  foreign := h.foreign
  numbered n hn := by
    rw [Bridge.submit, List.length_append]
    exact Nat.lt_add_right _ (h.numbered n hn)
  answered n hn r' hr' := by
    rw [Bridge.submit, List.getElem?_append_left (lt_of_lt_of_le hn hacked)] at hr'
    exact h.answered n hn r' hr'
  ungranted := h.ungranted
  latest v hv := by
    obtain ⟨n, r', hn, hr', hsubject, hmax⟩ := h.latest v hv
    refine ⟨n, r', hn, getElem?_of_append hr', hsubject, fun m hm hc => hmax m hm ?_⟩
    rcases hc with ⟨r'', hr'', habout⟩
    rw [Bridge.submit, List.getElem?_append_left (h.numbered m hm)] at hr''
    exact ⟨r'', hr'', habout⟩

/-- Head dials a session. -/
lemma Sound.dial (h : b.Sound via key nodeTtlMs relayPeers) {i : ℕ} {c : CrawlConfig}
    (hnew : i ∉ b.dialled) (hstep : Step Radii.crawl b.crawl (.accept i via.peer) c) :
    (b.dial i c).Sound via key nodeTtlMs relayPeers := by
  have hcrawl := h.withCrawl hstep (fun j peer he => by
    rw [Event.accept.injEq] at he
    exact he.1 ▸ hnew) nofun nofun
  refine ⟨hcrawl.reachable, fun j hj => h.blank j fun hmem => hj (Finset.mem_insert_of_mem hmem),
    ?_,
    fun j conn m r hj => hcrawl.foreign j conn m r fun hmem => hj (Finset.mem_insert_of_mem hmem),
    hcrawl.numbered, hcrawl.answered, hcrawl.ungranted, hcrawl.latest⟩
  intro j conn hj hconn
  rcases Finset.mem_insert.mp hj with rfl | hj
  · rcases hstep.accept_eq with ⟨-, rfl⟩
    have hconn : (b.crawl.put j _).conns j = some conn := hconn
    rw [Config.put_conns_self, Option.some.injEq] at hconn
    subst hconn
    exact ⟨rfl, Or.inl ⟨rfl, rfl⟩⟩
  · exact hcrawl.own j conn hj hconn

lemma Sound.relay (h : b.Sound via key nodeTtlMs relayPeers) {i : ℕ} (hi : i ∈ b.dialled)
    (retried written : Bool) : (b.relay retried i written).Sound via key nodeTtlMs relayPeers :=
  let h' := h.putSession hi (s := { b.sessions i with
    toCrawl := (b.sessions i).toCrawl ++ if written then [b.sent.length - 1] else [] }) rfl
  ⟨h'.reachable, h'.blank, h'.own, h'.foreign, h'.numbered, h'.answered, h'.ungranted, h'.latest⟩

/-- Head writes the client's last message on an unused session. -/
lemma HeadOk.relay {i : ℕ} (hi : i ∈ b.dialled) (hacked : b.acked + 1 = b.sent.length)
    (htoCrawl : (b.sessions i).toCrawl = []) (htoHead : (b.sessions i).toHead = [])
    (hidle : b.IdleAt i) (retried written : Bool) :
    (b.relay retried i written).HeadOk via key relayPeers where
  acked_le := by
    show b.acked ≤ b.sent.length
    omega
  idle := nofun
  relaying _ _ _ := hacked
  resting := nofun
  awaiting retried' j hj := by
    rw [Bridge.relay, HeadState.relaying.injEq] at hj
    rcases hj with ⟨-, rfl⟩
    refine ⟨hi, .unread ?_ ?_ hidle⟩
    · simp [Bridge.relay, htoHead]
    · cases written with
      | false => exact Or.inl (by simp [Bridge.relay, htoCrawl])
      | true => exact Or.inr (by simp [Bridge.relay, htoCrawl, ← hacked])

/-- A step that leaves Head's own state alone. -/
lemma HeadOk.step (h : b.HeadOk via key relayPeers) {b' : Bridge} (hhead : b'.head = b.head)
    (hacked : b'.acked = b.acked) (hsent : b'.sent = b.sent) (hdialled : b'.dialled = b.dialled)
    (hresting : ∀ i ∈ b.dialled, (b.sessions i).toCrawl = [] → (b.sessions i).toHead = [] →
      b.IdleAt i → (b'.sessions i).toCrawl = [] ∧ (b'.sessions i).toHead = [] ∧ b'.IdleAt i)
    (hawaiting : ∀ i ∈ b.dialled, b.Awaiting via key relayPeers i →
      b'.Awaiting via key relayPeers i) : b'.HeadOk via key relayPeers where
  acked_le := by
    rw [hacked, hsent]
    exact h.acked_le
  idle upstream hidle := by
    rw [hacked, hsent]
    exact h.idle upstream (hhead ▸ hidle)
  relaying retried i hrelaying := by
    rw [hacked, hsent]
    exact h.relaying retried i (hhead ▸ hrelaying)
  resting i hidle := by
    obtain ⟨hi, htoCrawl, htoHead, hconn⟩ := h.resting i (hhead ▸ hidle)
    exact ⟨hdialled ▸ hi, hresting i hi htoCrawl htoHead hconn⟩
  awaiting retried i hrelaying := by
    obtain ⟨hi, hawait⟩ := h.awaiting retried i (hhead ▸ hrelaying)
    exact ⟨hdialled ▸ hi, hawaiting i hi hawait⟩

/-- A session that neither Head nor Crawl has touched. -/
lemma Awaiting.keep {i : ℕ} (h : b.Awaiting via key relayPeers i) {b' : Bridge}
    (hacked : b'.acked = b.acked) (hsent : b'.sent = b.sent) (hsub : b.handled ⊆ b'.handled)
    (hsession : b'.sessions i = b.sessions i) (hidle : b.IdleAt i → b'.IdleAt i) :
    b'.Awaiting via key relayPeers i := by
  cases h with
  | unread htoHead htoCrawl hconn =>
      exact .unread (by rw [hsession, htoHead]) (by rw [hsession, hacked]; exact htoCrawl)
        (hidle hconn)
  | reading htoHead htoCrawl hreading =>
      exact .reading (by rw [hsession, htoHead]) (by rw [hsession, htoCrawl])
        (by rw [hsession, hacked, hreading])
  | replied htoHead htoCrawl hconn hanswered =>
      refine .replied (by rw [hsession, htoHead]) (by rw [hsession, htoCrawl]) (hidle hconn) ?_
      intro r hr habout hg
      rw [hacked, hsent] at hr
      rw [hacked]
      exact hsub (hanswered r hr habout hg)

/-- A step of Crawl that reads and answers no frame of Head's. -/
lemma HeadOk.withCrawl (h : b.HeadOk via key relayPeers) {e : CrawlEvent} {c : CrawlConfig}
    (hstep : Step Radii.crawl b.crawl e c) (hrecv : ∀ i m, e = .recv i m → i ∉ b.dialled) :
    (b.withCrawl c).HeadOk via key relayPeers := by
  have hidle : ∀ i ∈ b.dialled, b.IdleAt i → (b.withCrawl c).IdleAt i := fun i hi hconn =>
    hconn.step hstep fun m he => hrecv i m he hi
  refine h.step rfl rfl rfl rfl ?_ ?_
  · intro i hi htoCrawl htoHead hconn
    exact ⟨htoCrawl, htoHead, hidle i hi hconn⟩
  · intro i hi hawait
    exact hawait.keep rfl rfl (List.Subset.refl _) rfl (hidle i hi)

lemma HeadOk.record (h : b.HeadOk via key relayPeers) (n : ℕ) :
    (b.record n).HeadOk via key relayPeers :=
  h.step rfl rfl rfl rfl (fun _ _ htoCrawl htoHead hconn => ⟨htoCrawl, htoHead, hconn⟩)
    fun _ _ hawait => hawait.keep rfl rfl (List.subset_append_left _ _) rfl id

/-- Crawl reads the frame of session `i`. -/
lemma HeadOk.recv (h : b.HeadOk via key relayPeers) {i n : ℕ} {rest : List ℕ} {m : RadiiMessage}
    {c : CrawlConfig} (hqueue : (b.sessions i).toCrawl = n :: rest)
    (hstep : Step Radii.crawl b.crawl (.recv i m) c) :
    ((b.withCrawl c).putSession i ⟨rest, (b.sessions i).toHead, some n⟩).HeadOk via key
      relayPeers := by
  have hidle : ∀ j, j ≠ i → b.IdleAt j → (b.withCrawl c).IdleAt j := fun j hji hconn =>
    hconn.step hstep fun m' he => by
      rw [Event.recv.injEq] at he
      exact hji he.1.symm
  refine h.step rfl rfl rfl rfl ?_ ?_
  · intro j hj htoCrawl htoHead hconn
    have hji : j ≠ i := by
      rintro rfl
      simp [hqueue] at htoCrawl
    have hsession : ((b.withCrawl c).putSession i ⟨rest, (b.sessions i).toHead, some n⟩).sessions
        j = b.sessions j := by
      simp [Bridge.putSession, Bridge.withCrawl, hji]
    rw [hsession]
    exact ⟨htoCrawl, htoHead, hidle j hji hconn⟩
  · intro j hj hawait
    by_cases hji : j = i
    · subst hji
      cases hawait with
      | unread htoHead htoCrawl hconn =>
          rw [hqueue] at htoCrawl
          simp only [reduceCtorEq, List.cons.injEq, false_or] at htoCrawl
          rcases htoCrawl with ⟨rfl, rfl⟩
          exact .reading (by simpa [Bridge.putSession] using htoHead)
            (by simp [Bridge.putSession]) (by simp [Bridge.putSession, Bridge.withCrawl])
      | reading htoHead htoCrawl hreading => simp [hqueue] at htoCrawl
      | replied htoHead htoCrawl hconn hanswered => simp [hqueue] at htoCrawl
    · exact hawait.keep rfl rfl (List.Subset.refl _)
        (by simp [Bridge.putSession, Bridge.withCrawl, hji]) (hidle j hji)

/-- A connection of Head's that is writing its reply has applied its message. -/
lemma Sound.replying (h : b.Sound via key nodeTtlMs relayPeers) {i n : ℕ}
    {conn : Conn (Option String) RadiiMessage CrawlState Env RadiiMessage} {out : RadiiMessage}
    {rest : CrawlProg} (hi : i ∈ b.dialled) (hconn : b.crawl.conns i = some conn)
    (hprog : conn.prog = .reply out rest) (hreading : (b.sessions i).reading = some n) :
    rest = .done ∧ b.Answered via key relayPeers n := by
  obtain ⟨hpeer, ⟨-, hdone⟩ | ⟨n', r, hreading', hr, hframe, hserving⟩⟩ := h.own i conn hi hconn
  · simp [hprog] at hdone
  · rw [hreading, Option.some.injEq] at hreading'
    subst hreading'
    rw [hprog] at hserving
    rcases hserving with hdone | ⟨hlast, hserving⟩
    · simp at hdone
    · refine ⟨hlast, ?_⟩
      intro r' hr' habout hg
      rw [hr, Option.some.injEq] at hr'
      subst hr'
      rcases hserving habout hg with hpending | ⟨-, hn⟩
      · exact absurd hpending id
      · exact hn

/-- Crawl writes the reply on session `i`. -/
lemma Inv.reply (h : b.Inv via key nodeTtlMs relayPeers) {i : ℕ} {c : CrawlConfig}
    {conn : Conn (Option String) RadiiMessage CrawlState Env RadiiMessage} {out : RadiiMessage}
    {rest : CrawlProg} (hi : i ∈ b.dialled) (hconn : b.crawl.conns i = some conn)
    (hprog : conn.prog = .reply out rest) (hstep : Step Radii.crawl b.crawl (.drain i) c) :
    ((b.withCrawl c).putSession i
      { b.sessions i with toHead := (b.sessions i).toHead ++ [out] }).HeadOk via key
        relayPeers := by
  have hbusy : ¬ b.IdleAt i := fun hidle => by simp [hidle conn hconn] at hprog
  have hidle : ∀ j, b.IdleAt j → (b.withCrawl c).IdleAt j := fun j hquiet => hquiet.step hstep nofun
  refine h.head.step rfl rfl rfl rfl ?_ ?_
  · intro j hj htoCrawl htoHead hquiet
    have hji : j ≠ i := by
      rintro rfl
      exact hbusy hquiet
    have hsession : ((b.withCrawl c).putSession i
        { b.sessions i with toHead := (b.sessions i).toHead ++ [out] }).sessions j =
          b.sessions j := by
      simp [Bridge.putSession, Bridge.withCrawl, hji]
    rw [hsession]
    exact ⟨htoCrawl, htoHead, hidle j hquiet⟩
  · intro j hj hawait
    by_cases hji : j = i
    · subst hji
      cases hawait with
      | unread htoHead htoCrawl hquiet => exact absurd hquiet hbusy
      | reading htoHead htoCrawl hreading =>
          obtain ⟨rfl, hanswered⟩ := h.sound.replying hi hconn hprog hreading
          have hreplies : (((b.withCrawl c).putSession j { b.sessions j with
              toHead := (b.sessions j).toHead ++ [out] }).sessions j).toHead = [out] := by
            simp [Bridge.putSession, htoHead]
          refine .replied hreplies ?_ ?_ hanswered
          · simp [Bridge.putSession, htoCrawl]
          · intro conn' hconn'
            have hconn' : c.conns j = some conn' := hconn'
            rw [hstep.drain_eq hconn hprog, Config.put_conns_self, Option.some.injEq] at hconn'
            subst hconn'
            rfl
      | replied htoHead htoCrawl hquiet hanswered => exact absurd hquiet hbusy
    · exact hawait.keep rfl rfl (List.Subset.refl _)
        (by simp [Bridge.putSession, Bridge.withCrawl, hji]) (hidle j)

/-- Crawl applies no message but the last on the session Head waits on. -/
lemma HeadOk.applying_last (h : b.HeadOk via key relayPeers) {retried : Bool} {i n : ℕ}
    {r : RelayedMessage} (hhead : b.head = .relaying retried i) (happ : b.Applying i n r) :
    n + 1 = b.sent.length := by
  rcases happ with ⟨hi, hreading, hr, conn, rest, hconn, hprog⟩
  have hbusy : ¬ b.IdleAt i := fun hquiet => by simp [hquiet conn hconn] at hprog
  obtain ⟨-, hawait⟩ := h.awaiting retried i hhead
  cases hawait with
  | unread htoHead htoCrawl hquiet => exact absurd hquiet hbusy
  | reading htoHead htoCrawl hlast =>
      rw [hreading, Option.some.injEq] at hlast
      rw [hlast]
      exact h.relaying retried i hhead
  | replied htoHead htoCrawl hquiet hanswered => exact absurd hquiet hbusy

lemma Sound.acknowledge (h : b.Sound via key nodeTtlMs relayPeers) {i : ℕ} (hi : i ∈ b.dialled)
    (hlast : b.Answered via key relayPeers b.acked) (rest : List RadiiMessage) :
    (b.acknowledge i rest).Sound via key nodeTtlMs relayPeers := by
  have h' := h.putSession hi (s := { b.sessions i with toHead := rest }) rfl
  refine ⟨h'.reachable, h'.blank, h'.own, h'.foreign, h'.numbered, ?_, h'.ungranted, h'.latest⟩
  intro n hn
  rcases Nat.lt_succ_iff_lt_or_eq.mp hn with hn | rfl
  · exact h.answered n hn
  · exact hlast

/-- The client gets its acknowledgement. -/
lemma Inv.acknowledge (h : b.Inv via key nodeTtlMs relayPeers) {retried : Bool} {i : ℕ}
    {out : RadiiMessage} {rest : List RadiiMessage} (hhead : b.head = .relaying retried i)
    (hreply : (b.sessions i).toHead = out :: rest) :
    (b.acknowledge i rest).Inv via key nodeTtlMs relayPeers := by
  obtain ⟨hi, hawait⟩ := h.head.awaiting retried i hhead
  have hacked := h.head.relaying retried i hhead
  cases hawait with
  | unread htoHead htoCrawl hquiet => simp [hreply] at htoHead
  | reading htoHead htoCrawl hreading => simp [hreply] at htoHead
  | replied htoHead htoCrawl hquiet hanswered =>
      rw [hreply, List.cons.injEq] at htoHead
      rcases htoHead with ⟨rfl, rfl⟩
      refine ⟨h.sound.acknowledge hi hanswered [], hacked.le, fun _ _ => hacked, nofun, ?_, nofun⟩
      intro j hj
      rw [Bridge.acknowledge, HeadState.idle.injEq, Option.some.injEq] at hj
      subst hj
      exact ⟨hi, by simpa [Bridge.acknowledge] using htoCrawl, by simp [Bridge.acknowledge], hquiet⟩

lemma inv_initial :
    (Bridge.initial (crawlInitial nodeTtlMs relayPeers)).Inv via key nodeTtlMs relayPeers := by
  have hstored : (crawlInitial nodeTtlMs relayPeers).state.stored key = none := by
    cases key <;> rfl
  refine ⟨⟨.refl, fun _ _ => rfl, fun i conn hi => absurd hi (Finset.notMem_empty i),
    ?_, ?_, fun n hn => absurd hn (Nat.not_lt_zero n),
    fun _ => hstored, ?_⟩, ⟨le_refl _, fun _ _ => rfl, nofun, nofun, nofun⟩⟩
  · intro i conn m r _ hconn
    simp [Bridge.initial, crawlInitial, Config.initial] at hconn
  · intro n hn
    simp [Bridge.initial] at hn
  · intro v hv
    rw [Bridge.initial, hstored] at hv
    simp at hv

/-- **One step keeps the invariant**, if it is orderly. -/
theorem Inv.step (h : b.Inv via key nodeTtlMs relayPeers) {b' : Bridge} {e : BridgeEvent}
    (hok : Orderly key b e) (hstep : BridgeStep via key b e b') :
    b'.Inv via key nodeTtlMs relayPeers := by
  have hlength : ∀ r upstream, b.head = .idle upstream →
      b.acked + 1 = (b.sent ++ [r]).length := fun r upstream hhead => by
    simp [h.head.idle upstream hhead]
  have hfresh : ∀ (a : Bridge) (i : ℕ) (c : CrawlConfig), a.crawl = b.crawl →
      Step Radii.crawl b.crawl (.accept i via.peer) c → (a.dial i c).IdleAt i := by
    rintro a i c - hc conn hconn
    rcases hc.accept_eq with ⟨-, rfl⟩
    have hconn : (b.crawl.put i _).conns i = some conn := hconn
    rw [Config.put_conns_self, Option.some.injEq] at hconn
    subst hconn
    rfl
  cases hstep with
  | refuse => exact h
  | @send m r i written hhead hm =>
      obtain ⟨hi, htoCrawl, htoHead, hquiet⟩ := h.head.resting i hhead
      exact ⟨(h.sound.submit h.head.acked_le r).relay hi false written,
        HeadOk.relay (b := b.submit r) hi (hlength r _ hhead) htoCrawl htoHead hquiet false written⟩
  | @sendFirst m r i c written hhead hm hnew hstep =>
      have hblank := h.sound.blank i hnew
      exact ⟨((h.sound.submit h.head.acked_le r).dial hnew hstep).relay
          (Finset.mem_insert_self i _) false written,
        HeadOk.relay (b := (b.submit r).dial i c) (Finset.mem_insert_self i _)
          (hlength r _ hhead) (congrArg Session.toCrawl hblank) (congrArg Session.toHead hblank)
          (hfresh _ i c rfl hstep) false written⟩
  | @resend i j c written hhead hnew hstep =>
      have hblank := h.sound.blank j hnew
      exact ⟨(h.sound.dial hnew hstep).relay (Finset.mem_insert_self j _) true written,
        HeadOk.relay (b := b.dial j c) (Finset.mem_insert_self j _)
          (h.head.relaying false i hhead) (congrArg Session.toCrawl hblank)
          (congrArg Session.toHead hblank) (hfresh _ j c rfl hstep) true written⟩
  | ack hhead hreply => exact h.acknowledge hhead hreply
  | close =>
      have hs := h.sound
      exact ⟨⟨hs.reachable, hs.blank, hs.own, hs.foreign, hs.numbered, hs.answered,
        hs.ungranted, hs.latest⟩, h.head.acked_le, nofun, nofun, nofun, nofun⟩
  | @accept i peer c hi hstep =>
      refine ⟨h.sound.withCrawl hstep ?_ nofun nofun, h.head.withCrawl hstep nofun⟩
      intro j peer' he
      rw [Event.accept.injEq] at he
      exact he.1 ▸ hi
  | recv hi hqueue hr hstep =>
      exact ⟨h.sound.recv hi hr hstep, h.head.recv hqueue hstep⟩
  | @recvOther i m c hi hm hstep =>
      refine ⟨h.sound.withCrawl hstep nofun ?_ nofun, h.head.withCrawl hstep ?_⟩
      · intro j m' he
        rw [Event.recv.injEq] at he
        exact ⟨he.1 ▸ hi, he.2 ▸ hm⟩
      · intro j m' he
        rw [Event.recv.injEq] at he
        exact he.1 ▸ hi
  | reply hi hconn hprog hstep =>
      exact ⟨(h.sound.withCrawl hstep nofun nofun nofun).putSession hi rfl,
        h.reply hi hconn hprog hstep⟩
  | @apply i n r env c happ hstep =>
      refine ⟨h.sound.apply happ ?_ hstep, (h.head.withCrawl hstep nofun).record n⟩
      intro habout
      by_cases hcurrent : ∃ retried, b.head = .relaying retried i
      · -- Head waits on this session, so the message is the client's last
        rcases hcurrent with ⟨retried, hhead⟩
        have hlast := h.head.applying_last hhead happ
        exact fun m hm _ => by have := h.sound.numbered m hm; omega
      · exact hok i env n r rfl happ habout fun retried hhead => hcurrent ⟨retried, hhead⟩
  | @other e c he hstep =>
      have haccept : ∀ i peer, e ≠ .accept i peer := by
        rintro i peer rfl
        exact he
      have hrecv : ∀ i m, e ≠ .recv i m := by
        rintro i m rfl
        exact he
      refine ⟨h.sound.withCrawl hstep (fun i peer hi => absurd hi (haccept i peer))
        (fun i m hi => absurd hi (hrecv i m)) ?_,
        h.head.withCrawl hstep fun i m hi => absurd hi (hrecv i m)⟩
      intro i env n r hi
      subst hi
      exact he n r

end Bridge

/-! ## Whole runs -/

/-- **Every orderly run keeps the invariant.** -/
lemma BridgeRun.inv (hrun : BridgeRun via key (Orderly key)
    (.initial (crawlInitial nodeTtlMs relayPeers)) b) : b.Inv via key nodeTtlMs relayPeers := by
  induction hrun with
  | refl => exact Bridge.inv_initial
  | tail _ h ih =>
      rcases h with ⟨e, hok, hstep⟩
      exact ih.step hok hstep

end Invariant

end Radii
