import Radii.Crawl.Server

/-!
# Identity isolation

On a listener whose every connection is authenticated, what Crawl stores about a node is changed
only on that node's word, given directly or vouched for by a relay peer; entries disappear only
from the reachability table and only when they are stale (`identity_isolation`).
-/

namespace Radii

open Sync Collections

/-! ## What applying a claim changes -/

lemma applyClaim_nodes (now : ℕ) (s : CrawlState) (r : RelayedMessage) (x : String) :
    (applyClaim now s r).1.nodes.lookup x = s.nodes.lookup x ∨
      r.claimedNodeId = some x ∧ ∃ entry, (applyClaim now s r).1.nodes.lookup x = some entry := by
  cases r with
  | nodeHello nodeId roles listenAddrs =>
      by_cases hx : x = nodeId
      · subst hx
        exact Or.inr ⟨rfl, _, AList.lookup_insert s.nodes⟩
      · exact Or.inl (HashMap.lookup_insert_of_ne hx)
  | reachabilityProbe => exact Or.inl rfl
  | reachabilityReport =>
      exact Or.inl (by rw [applyClaim, (CrawlState.recordReport_upserted _ _ _).nodes])

lemma applyClaim_reachability (now : ℕ) (s : CrawlState) (r : RelayedMessage)
    (k : ReachabilityKey) :
    (applyClaim now s r).1.reachability.lookup k = s.reachability.lookup k ∨
      (r.claimedNodeId = some k.fromId ∧
        ∃ entry, (applyClaim now s r).1.reachability.lookup k = some entry) ∨
      ((applyClaim now s r).1.reachability.lookup k = none ∧
        ∃ e, s.reachability.lookup k = some e ∧ s.stale now e.lastSeenUnixMs = true) := by
  cases r with
  | nodeHello => exact Or.inl rfl
  | reachabilityProbe => exact Or.inl rfl
  | reachabilityReport fromId target protocol reachable rttMs observedAddr =>
      have h := CrawlState.recordReport_upserted s ⟨fromId, target, protocol⟩
        ⟨reachable, rttMs, observedAddr, now⟩
      by_cases hk : k = ⟨fromId, target, protocol⟩
      · subst hk
        cases haccepted : (s.recordReport ⟨fromId, target, protocol⟩
            ⟨reachable, rttMs, observedAddr, now⟩).2 with
        | true => exact Or.inr (Or.inl ⟨rfl, _, h.stored haccepted⟩)
        | false =>
            rcases h.refused haccepted with ⟨hold, hnew⟩
            exact Or.inl (hnew.trans hold.symm)
      · rcases h.other k hk with hsame | hgone
        · exact Or.inl hsame
        · exact Or.inr (Or.inr hgone)

/-! ## Whose word a frame is -/

/-- Whether the frame `m` of the peer authenticated as `p` may change what is stored about `x`. -/
inductive Entitled (relayPeers : Finset String) (p : String) : RadiiMessage → String → Prop where
  | hello {roles listenAddrs} : Entitled relayPeers p (.nodeHello p roles listenAddrs) p
  | report {target protocol reachable rttMs observedAddr} :
      Entitled relayPeers p (.reachabilityReport p target protocol reachable rttMs observedAddr) p
  | relayed {source x inner} (hrelay : p ∈ relayPeers)
      (hinner : RelayedMessage.claimedNodeId inner = some x) :
      Entitled relayPeers p (.fromHead source (some x) inner) x

lemma entitled_of_grants {relayPeers : Finset String} {p x : String} {m : RadiiMessage}
    {r : RelayedMessage} (h : Grants relayPeers (some p) m r) (hr : r.claimedNodeId = some x) :
    Entitled relayPeers p m x := by
  cases h with
  | nodeHello hauth =>
      simp only [authorized, beq_iff_eq] at hauth
      rw [RelayedMessage.claimedNodeId, Option.some.injEq] at hr
      subst hauth hr
      exact .hello
  | reachabilityReport hauth =>
      simp only [authorized, beq_iff_eq] at hauth
      rw [RelayedMessage.claimedNodeId, Option.some.injEq] at hr
      subst hauth hr
      exact .report
  | fromHead hrelay hclaim =>
      have hclaimed := hclaim x hr
      simp only [authorizedRelayedClaim, beq_iff_eq] at hclaimed
      subst hclaimed
      exact .relayed (by simpa [authorizedRelayPeer] using hrelay) hr

/-! ## Authenticated runs -/

/-- Only authenticated connections are accepted. -/
def Authenticated (_ : CrawlConfig) (e : CrawlEvent) : Prop :=
  ∀ i peer, e = .accept i peer → peer ≠ none

/-- A connection keeps the identity it was accepted with. -/
lemma authenticated_run {nodeTtlMs : Option ℕ} {relayPeers : Finset String} {c : CrawlConfig}
    (hrun : Run crawl Authenticated (crawlInitial nodeTtlMs relayPeers) c) :
    ∀ i conn, c.conns i = some conn → conn.peer ≠ none := by
  refine hrun.invariant (I := fun c => ∀ i conn, c.conns i = some conn → conn.peer ≠ none)
    ?_
    fun i conn h => by simp [crawlInitial, Config.initial] at h
  intro c e c' hok hstep h i conn hconn
  rcases hstep.conn_cases hconn with ⟨he, -⟩ | ⟨old, hold, hpeer, -⟩
  · exact hok i conn.peer he
  · exact hpeer ▸ h i old hold

/-- The step is the handling of a frame that is entitled to speak for `x`. -/
def StepFor (relayPeers : Finset String) (c : CrawlConfig) (e : CrawlEvent) (x : String) : Prop :=
  ∃ i env conn p m, e = .access i env ∧ c.conns i = some conn ∧ conn.peer = some p ∧
    conn.frame = some m ∧ Entitled relayPeers p m x

/-- What a step of an authenticated run does to the state: nothing, or a claim is applied for
whose node the step speaks. -/
lemma authenticated_effect {nodeTtlMs : Option ℕ} {relayPeers : Finset String}
    {c c' : CrawlConfig} {e : CrawlEvent}
    (hrun : Run crawl Authenticated (crawlInitial nodeTtlMs relayPeers) c)
    (hstep : Step crawl c e c') :
    c'.state = c.state ∨ ∃ i env r, e = .access i env ∧
      c'.state = (applyClaim env.now c.state r).1 ∧
      ∀ x, r.claimedNodeId = some x → StepFor relayPeers c e x := by
  rcases Config.Meets.effect hstep (crawl_meets hrun) with
    hsame | ⟨i, env, conn, m, rfl, hconn, hframe, hsame | ⟨r, hgrants, hstate⟩⟩
  · exact Or.inl hsame
  · exact Or.inl hsame
  · obtain ⟨p, hpeer⟩ := Option.ne_none_iff_exists'.mp (authenticated_run hrun i conn hconn)
    rw [hpeer] at hgrants
    exact Or.inr ⟨i, env, r, rfl, hstate, fun x hx =>
      ⟨i, env, conn, p, m, rfl, hconn, hpeer, hframe, entitled_of_grants hgrants hx⟩⟩

/-- **Identity isolation.**  In every run of authenticated connections, a step changes what is
stored about a node only if it handles that node's own hello or report, or one a relay peer
vouches for with the node's identity in the envelope.  No step removes a node; an observation a
step removes was stale; every other entry stays as it was. -/
theorem identity_isolation {nodeTtlMs : Option ℕ} {relayPeers : Finset String}
    {c c' : CrawlConfig} {e : CrawlEvent}
    (hrun : Run crawl Authenticated (crawlInitial nodeTtlMs relayPeers) c)
    (hstep : Step crawl c e c') :
    (∀ x, c'.state.nodes.lookup x ≠ c.state.nodes.lookup x → StepFor relayPeers c e x) ∧
    (∀ x entry, c.state.nodes.lookup x = some entry →
      ∃ entry', c'.state.nodes.lookup x = some entry') ∧
    (∀ k entry, c'.state.reachability.lookup k = some entry →
      c'.state.reachability.lookup k ≠ c.state.reachability.lookup k →
      StepFor relayPeers c e k.fromId) ∧
    (∀ k entry, c.state.reachability.lookup k = some entry →
      c'.state.reachability.lookup k = none →
      ∃ i env ttl, e = .access i env ∧ nodeTtlMs = some ttl ∧
        env.now - entry.lastSeenUnixMs > ttl) := by
  rcases authenticated_effect hrun hstep with hsame | ⟨i, env, r, he, hstate, hfor⟩
  · rw [hsame]
    exact ⟨fun x hx => absurd rfl hx, fun x entry hx => ⟨entry, hx⟩,
      fun k entry _ hk => absurd rfl hk, fun k entry hk hnone => by rw [hk] at hnone; simp at hnone⟩
  · rw [hstate]
    refine ⟨?_, ?_, ?_, ?_⟩
    · intro x hx
      rcases applyClaim_nodes env.now c.state r x with hsame | ⟨hclaim, -⟩
      · exact absurd hsame hx
      · exact hfor x hclaim
    · intro x entry hx
      rcases applyClaim_nodes env.now c.state r x with hsame | ⟨-, entry', hx'⟩
      · exact ⟨entry, hsame.trans hx⟩
      · exact ⟨entry', hx'⟩
    · intro k entry hk hne
      rcases applyClaim_reachability env.now c.state r k with
        hsame | ⟨hclaim, -⟩ | ⟨hnone, -⟩
      · exact absurd hsame hne
      · exact hfor _ hclaim
      · rw [hnone] at hk
        simp at hk
    · intro k entry hk hnone
      rcases applyClaim_reachability env.now c.state r k with
        hsame | ⟨-, entry', hk'⟩ | ⟨-, e', hold, hstale⟩
      · rw [hsame, hk] at hnone
        simp at hnone
      · rw [hk'] at hnone
        simp at hnone
      · rw [hk, Option.some.injEq] at hold
        subst hold
        rw [CrawlState.stale, (crawl_meets hrun).state.ttl] at hstale
        cases nodeTtlMs with
        | none => simp at hstale
        | some ttl => exact ⟨i, env, ttl, he, rfl, by simpa using hstale⟩

/-- A hello of the node `n` over its own connection. -/
theorem identity_isolation_hello : ∃ (c c' : CrawlConfig) (e : CrawlEvent),
    Step crawl c e c' ∧ c'.state.nodes.lookup "n" ≠ c.state.nodes.lookup "n" ∧
      StepFor ∅ c e "n" := by
  have hreads : crawl.Reads (.nodeHello "n" [] []) :=
    ⟨[frame (.nodeHello "n" [] [])], [[]], by decide⟩
  obtain ⟨c, hrun, hstate, -, hconn, -⟩ := enters (S := crawl) Authenticated
    (crawlInitial none ∅) 0 (some "n") (fun c e he i peer h => by
      subst h
      simp at he
      simp [he.2]) rfl rfl hreads rfl
  have hstep := Step.access (S := crawl) ⟨7, WalkOrder.default⟩ hconn rfl
  have hne : ∀ s : CrawlState, c.state = s → s.nodes.lookup "n" = none →
      (s.insertNode "n" ⟨[], [], 7⟩).nodes.lookup "n" ≠ c.state.nodes.lookup "n" := by
    rintro s rfl hnone
    rw [hnone, CrawlState.insertNode, AList.lookup_insert]
    simp
  have hchanged := hne _ rfl (by rw [hstate]; rfl)
  exact ⟨_, _, _, hstep, hchanged, (identity_isolation hrun hstep).1 "n" hchanged⟩

end Radii
