import Radii.Mesh.Provenance

/-!
# How old a route may be

Crawl lists what it heard within its ttl, an answer takes a while to land, and Head goes on with
what it has while polls fail.  `/health` bounds the last of these, so together they bound the age of
every address and every link that a healthy Head routes by.

* `healthy_routes_fresh` — how old they may be.
-/

namespace Radii

open Sync Collections Graphs Wire Decision

namespace Mesh

section Timely

variable {said : RelayedMessage → ℕ → Prop} {nodeTtlMs : Option ℕ} {relayPeers : Finset String}
  {bound : ℕ} {configs : ℕ → PlanConfig}

/-- What a right clock says once a frame has been read. -/
def handledLater (readAt now : ℕ) : Prop := readAt / 1000000 ≤ now

/-- A poll that was prompt. -/
def tookAtMost (bound asked landed : ℕ) : Prop := landed ≤ asked + bound

/-- No frame was read in the future. -/
lemma readAfter_le {clock : ℕ} {readAt : ℕ → ℕ} (h : ∀ i, readAt i ≤ clock) (e : CrawlEvent)
    (i : ℕ) :
    readAfter clock readAt e i ≤ clock := by
  cases e with
  | recv j m =>
      rw [readAfter]
      by_cases hij : i = j
      · subst hij
        rw [Function.update_self]
      · rw [Function.update_of_ne hij]
        exact h i
  | _ => exact h i

lemma timed_of_right {m : System} {e : Event} (hread : ∀ i, m.readAt i ≤ m.clock)
    (hright : RightClock m e) (hprompt : Prompt bound e) :
    Timed handledLater (tookAtMost bound) m e := by
  cases e with
  | crawl e =>
      intro i env he
      rw [hright i env he]
      exact Nat.div_le_div_right (hread i)
  | head k p asked => exact hprompt
  | _ => trivial

lemma readAt_le_of_step {m m' : System} {e : Event} (h : ∀ i, m.readAt i ≤ m.clock)
    (hstep : Mesh.Step configs m e m') : ∀ i, m'.readAt i ≤ m'.clock := by
  cases hstep with
  | pass hlater => exact fun i => (h i).trans hlater
  | crawl hstep => exact readAfter_le h _
  | head | fetch => exact h

/-- A run with a right clock and prompt polls. -/
lemma told_of_timely {m : System}
    (hrun : Run configs (fun m e => Speaks said relayPeers m e ∧ RightClock m e ∧ Prompt bound e)
      (initial nodeTtlMs relayPeers) m) :
    Told said nodeTtlMs relayPeers handledLater (tookAtMost bound) configs m ∧
      ∀ i, m.readAt i ≤ m.clock := by
  induction hrun with
  | refl => exact ⟨told_initial, fun _ => le_refl 0⟩
  | tail _ hlast ih =>
      rcases hlast with ⟨e, ⟨hspeaks, hright, hprompt⟩, hstep⟩
      exact ⟨ih.1.step hspeaks (timed_of_right ih.2 hright hprompt) hstep,
        readAt_le_of_step ih.2 hstep⟩

end Timely

/-- **A healthy Head routes by fresh news.**  In every run in which Crawl's clock is right and no
poll takes longer than `bound`, while `/health` answers 200 every hop and every link of every route
that Head plans was said within Crawl's ttl, `bound` and three poll intervals, and a millisecond for
Crawl's rounding. -/
theorem healthy_routes_fresh {said : RelayedMessage → ℕ → Prop} {ttl : ℕ}
    {relayPeers : Finset String} {bound : ℕ} {configs : ℕ → PlanConfig} {m : System}
    (hrun : Run configs (fun m e => Speaks said relayPeers m e ∧ RightClock m e ∧ Prompt bound e)
      (initial (some ttl) relayPeers) m)
    (k : ℕ) (poisoned : Bool) (pollIntervalMs : ℕ)
    (hhealthy : (health (.fromGraphConfig ⟨m.heads k, poisoned⟩ pollIntervalMs) m.clock).1 = 200)
    (orders : ℕ → ℕ → ℕ → IterOrder NodeId (Cell Arc ℕ)) (source : NodeId) (targets : List NodeId)
    (allowed : List ProtocolId) (maxHops limit : ℕ) :
    ∀ route ∈ planBackends orders ⟨(m.heads k).graph, poisoned⟩ source targets allowed maxHops
      limit, RouteSaid (fun r => ∃ heard, said r heard ∧
        m.clock < (heard + ttl + 1) * 1000000 + bound + 3 * pollInterval pollIntervalMs)
        source allowed route := by
  intro route hroute
  rcases ((told_of_timely hrun).1.heads k).planned hroute with
    ⟨asked, readAt, now, landed, hlast, htook, hasked, hhandled, hsaid⟩
  refine hsaid.imp ?_
  rintro r ⟨heard, hr, hrecent⟩
  refine ⟨heard, hr, ?_⟩
  -- the clock, back over the last answer and its question to when it was heard
  obtain ⟨-, refreshed, hrefreshed, hhealth⟩ :=
    (health_ok_iff_lastRefresh _ pollIntervalMs m.clock).mp hhealthy
  rw [hlast, Option.some.injEq] at hrefreshed
  have hlanded : landed ≤ asked + bound := htook
  have hnow : readAt / 1000000 ≤ now := hhandled
  have hheard : now ≤ heard + ttl := hrecent ttl rfl
  generalize 3 * pollInterval pollIntervalMs = intervals at hhealth ⊢
  omega

/-- It holds of the route of the run in which everything happens at once. -/
theorem healthy_routes_fresh_told : ∃ m : System, ToldRun m ∧
    (health (.fromGraphConfig ⟨m.heads 0, false⟩ 1000) m.clock).1 = 200 ∧
    toldRoute ∈ planBackends (fun _ _ _ => .default) ⟨(m.heads 0).graph, false⟩ "s" ["t"] [] 4 4 ∧
    RouteSaid (fun r => ∃ heard, toldSaid r heard ∧
      m.clock < (heard + 5 + 1) * 1000000 + 0 + 3 * pollInterval 1000) "s" [] toldRoute := by
  obtain ⟨m, hrun, hclock, hlast, hroute⟩ := exists_toldRun
  have hhealthy : (health (.fromGraphConfig ⟨m.heads 0, false⟩ 1000) m.clock).1 = 200 := by
    rw [health_ok_iff_lastRefresh, hclock]
    exact ⟨rfl, 0, hlast, Nat.zero_le _⟩
  exact ⟨m, hrun, hhealthy, hroute,
    healthy_routes_fresh hrun 0 false 1000 hhealthy _ _ _ _ _ _ _ hroute⟩

end Mesh

end Radii
