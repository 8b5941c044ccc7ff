import Radii.Relay.Splice

/-!
# When the watchdog drops a chain

The watchdog of `splice_with_idle` in `crates/fetch/src/relay.rs` sleeps for a tick, looks at the
clock and sleeps again, so it looks at the multiples of its tick after the start.  The clock holds
the time of the last read: a write is not stamped.

* `idle_drop` — a dropped chain was idle in its reads, exactly when it was idle in its writes too,
  and how long a chain without reads lasts.
* `busy_chain_dropped` — a chain dropped within the bound after a byte was accepted.
-/

namespace Radii

open Wire

/-- The first time the watchdog looks that is not before `due`. -/
def firstCheck (startedAt tick due : ℕ) : ℕ := startedAt + tick * max 1 ((due - startedAt) ⌈/⌉ tick)

lemma tick_pos (idle : ℕ) : 0 < tick idle := lt_max_of_lt_right (by norm_num)

lemma le_firstCheck {tick : ℕ} (htick : 0 < tick) (startedAt due : ℕ) :
    due ≤ firstCheck startedAt tick due := by
  have hceil : due - startedAt ≤ tick * ((due - startedAt) ⌈/⌉ tick) :=
    (ceilDiv_le_iff_le_mul htick).mp le_rfl
  have hmax := Nat.mul_le_mul_left tick (le_max_right 1 ((due - startedAt) ⌈/⌉ tick))
  rw [firstCheck]
  omega

lemma firstCheck_mono {tick : ℕ} (htick : 0 < tick) (startedAt : ℕ) {due due' : ℕ}
    (h : due ≤ due') : firstCheck startedAt tick due ≤ firstCheck startedAt tick due' := by
  have hceil : (due - startedAt) ⌈/⌉ tick ≤ (due' - startedAt) ⌈/⌉ tick :=
    (gc_mul_ceilDiv htick).monotone_l (Nat.sub_le_sub_right h startedAt)
  exact Nat.add_le_add_left (Nat.mul_le_mul_left tick (max_le_max_left 1 hceil)) startedAt

/-- It is the look that is not before, and the one before it is. -/
lemma firstCheck_eq {tick startedAt due k : ℕ} (htick : 0 < tick)
    (hdue : due ≤ startedAt + (k + 1) * tick) (hprev : k = 0 ∨ startedAt + k * tick < due) :
    firstCheck startedAt tick due = startedAt + (k + 1) * tick := by
  have hle : (due - startedAt) ⌈/⌉ tick ≤ k + 1 := by
    rw [ceilDiv_le_iff_le_mul htick, Nat.mul_comm]
    omega
  have hmax : max 1 ((due - startedAt) ⌈/⌉ tick) = k + 1 := by
    rcases hprev with rfl | hprev
    · exact max_eq_left hle
    · have hlt : ¬ (due - startedAt) ⌈/⌉ tick ≤ k := by
        rw [ceilDiv_le_iff_le_mul htick, Nat.mul_comm]
        omega
      rw [le_antisymm hle (not_le.mp hlt)]
      exact max_eq_right (Nat.le_add_left 1 k)
  rw [firstCheck, hmax, Nat.mul_comm]

namespace Splice

variable {σ : Type}

/-- What holds of the clock and the watchdog at all times. -/
structure Timed (idle : ℕ) (s : Splice σ) : Prop where
  clock : s.last = s.reads.headD s.startedAt
  reads : ∀ r ∈ s.reads, r ≤ s.last
  started : s.startedAt ≤ s.last
  last_le : s.last ≤ s.now
  now_le : s.now ≤ s.wake
  /-- The next look is a tick after the start, or a tick after one that found the chain alive. -/
  checks : ∃ k, s.wake = s.startedAt + (k + 1) * tick idle ∧
    (k = 0 ∨ s.startedAt + k * tick idle < s.last + idle)
  dropped : s.outcome = some .idle → s.now = s.wake ∧ s.last + idle ≤ s.now

variable {T : Side → Transport σ} {idle : ℕ} {s s' : Splice σ}

lemma timed_start (idle : ℕ) (env : Side → σ) (now : ℕ) : (start idle env now).Timed idle where
  clock := rfl
  reads := by simp [start]
  started := le_rfl
  last_le := le_rfl
  now_le := Nat.le_add_right _ _
  checks := ⟨0, by simp [start], Or.inl rfl⟩
  dropped := by simp [start]

lemma joined_ne_idle (ab ba : Copy σ) : joined ab ba ≠ some .idle := by
  rw [joined]
  split_ifs <;> simp

lemma Timed.put (h : s.Timed idle) (c : Copy σ) (side : Side) : (s.put c side).Timed idle := by
  cases side <;>
    exact ⟨h.clock, h.reads, h.started, h.last_le, h.now_le, h.checks,
      fun hidle => absurd hidle (joined_ne_idle _ _)⟩

lemma Timed.stamp (h : s.Timed idle) (hrunning : s.outcome = none) (c : Copy σ) (e : CopyEvent σ) :
    (s.stamp c e).Timed idle := by
  cases e with
  | read n =>
      rcases h.checks with ⟨k, hwake, hprev⟩
      refine ⟨rfl, ?_, h.started.trans h.last_le, le_rfl, h.now_le,
        ⟨k, hwake, hprev.imp_right ?_⟩, by simp [Splice.stamp, hrunning]⟩
      · intro r hr
        rcases List.mem_cons.mp hr with rfl | hr
        · exact le_rfl
        · exact (h.reads r hr).trans h.last_le
      · intro hlt
        exact hlt.trans_le (Nat.add_le_add_right h.last_le idle)
  | write =>
      rw [Splice.stamp]
      split_ifs
      · exact h
      · exact ⟨h.clock, h.reads, h.started, h.last_le, h.now_le, h.checks, h.dropped⟩
  | _ => exact h

/-- **Every event keeps it.** -/
theorem Timed.step (h : s.Timed idle) {e : SpliceEvent σ} (hstep : s.step T idle e = some s') :
    s'.Timed idle := by
  rcases h.checks with ⟨k, hwake, hprev⟩
  obtain ⟨hrunning, ⟨now, -, hle, hwakes, rfl⟩ | ⟨-, hdue, halive, rfl⟩ | ⟨-, hdue, hidle, rfl⟩ |
    ⟨side, ev, c, -, hc, rfl⟩⟩ := step_cases hstep
  · exact ⟨h.clock, h.reads, h.started, h.last_le.trans hle, hwakes, ⟨k, hwake, hprev⟩,
      by simp [hrunning]⟩
  · refine ⟨h.clock, h.reads, h.started, h.last_le, Nat.le_add_right _ _, ⟨k + 1, ?_, Or.inr ?_⟩,
      by simp [hrunning]⟩
    · show s.now + tick idle = s.startedAt + (k + 1 + 1) * tick idle
      rw [hdue, hwake, Nat.succ_mul (k + 1), Nat.add_assoc]
    · show s.startedAt + (k + 1) * tick idle < s.last + idle
      have := h.last_le
      omega
  · refine ⟨h.clock, h.reads, h.started, h.last_le, h.now_le, ⟨k, hwake, hprev⟩,
      fun _ => ⟨hdue, ?_⟩⟩
    show s.last + idle ≤ s.now
    have := h.last_le
    omega
  · exact (h.stamp hrunning c ev).put c side

lemma startedAt_of_step {e : SpliceEvent σ} (hstep : s.step T idle e = some s') :
    s'.startedAt = s.startedAt := by
  obtain ⟨-, ⟨_, -, -, -, rfl⟩ | ⟨-, -, -, rfl⟩ | ⟨-, -, -, rfl⟩ | ⟨side, ev, c, -, -, rfl⟩⟩ :=
    step_cases hstep
  · rfl
  · rfl
  · rfl
  · cases ev with
    | write =>
        rw [stamp]
        split_ifs <;> cases side <;> rfl
    | _ => cases side <;> rfl

lemma timed_of_run {env : Side → σ} {now : ℕ} {events : List (SpliceEvent σ)}
    (hrun : Machine.run (step T idle) (start idle env now) events = some s) :
    s.startedAt = now ∧ s.Timed idle :=
  Machine.run_keeps (P := fun s => s.startedAt = now ∧ s.Timed idle)
    (fun _ _ _ hstep h => ⟨(startedAt_of_step hstep).trans h.1, h.2.step hstep⟩) hrun
    ⟨rfl, timed_start idle env now⟩

/-- The watchdog drops a chain at the first look that is the bound or more after the last read. -/
lemma Timed.now_eq (h : s.Timed idle) (hidle : s.outcome = some .idle) :
    s.now = firstCheck s.startedAt (tick idle) (s.last + idle) := by
  rcases h.checks with ⟨k, hwake, hprev⟩
  rcases h.dropped hidle with ⟨hnow, hdue⟩
  rw [firstCheck_eq (tick_pos idle) (by omega) hprev, hnow, hwake]

/-- Nothing was read within the bound. -/
lemma Timed.reads_le (h : s.Timed idle) (hidle : s.outcome = some .idle) :
    ∀ r ∈ s.reads, r + idle ≤ s.now := by
  intro r hr
  rw [h.now_eq hidle]
  exact (Nat.add_le_add_right (h.reads r hr) idle).trans
    (le_firstCheck (tick_pos idle) s.startedAt (s.last + idle))

/-- Only what was accepted after the last read can have been accepted within the bound. -/
lemma Timed.accepts_iff (h : s.Timed idle) (hidle : s.outcome = some .idle) :
    (∀ w ∈ s.accepts, w + idle ≤ s.now) ↔ ∀ w ∈ s.accepts, s.last ≤ w →
      w + idle ≤ firstCheck s.startedAt (tick idle) (s.last + idle) := by
  rw [h.now_eq hidle]
  constructor
  · intro hall w hw _
    exact hall w hw
  · intro hlate w hw
    rcases le_total s.last w with hle | hle
    · exact hlate w hw hle
    · exact (Nat.add_le_add_right hle idle).trans
        (le_firstCheck (tick_pos idle) s.startedAt (s.last + idle))

/-- The watchdog looks no later than a tick after the bound. -/
lemma Timed.wake_le (h : s.Timed idle) : s.wake ≤ s.last + idle + tick idle := by
  rcases h.checks with ⟨k, hwake, rfl | hprev⟩
  · have := h.started
    omega
  · rw [Nat.succ_mul] at hwake
    omega

/-! ## The end of a chain without reads -/

/-- Only the clock and the watchdog. -/
def clockwork : SpliceEvent σ → Prop
  | .pump _ _ => False
  | _ => True

/-- Time passes until the watchdog looks. -/
lemma look (T : Side → Transport σ) (h : s.Timed idle) (hrunning : s.outcome = none) :
    Machine.run (step T idle) s [.pass s.wake, .watch] =
      some (if s.wake - s.last ≥ idle then { s with now := s.wake, outcome := some .idle }
        else { s with now := s.wake, wake := s.wake + tick idle }) := by
  have hpass : s.step T idle (.pass s.wake) = some { s with now := s.wake } := by
    rw [step, if_pos ⟨hrunning, h.now_le, le_rfl⟩]
  have hwatch : step T idle { s with now := s.wake } .watch =
      some (if s.wake - s.last ≥ idle then { s with now := s.wake, outcome := some .idle }
        else { s with now := s.wake, wake := s.wake + tick idle }) := by
    rw [step, if_pos ⟨hrunning, rfl⟩]
  simp only [Machine.run, hpass, hwatch, Option.bind_some]

/-- Left to the clock and the watchdog, a chain is dropped. -/
lemma Timed.ends (T : Side → Transport σ) (n : ℕ) : ∀ {s : Splice σ}, s.Timed idle →
    s.outcome = none → s.last + idle ≤ s.wake + n * tick idle → ∃ events s',
      (∀ e ∈ events, clockwork e) ∧ Machine.run (Splice.step T idle) s events = some s' ∧
        s'.outcome = some .idle ∧ s'.last = s.last := by
  induction n with
  | zero =>
      intro s h hrunning hdue
      refine ⟨[.pass s.wake, .watch], _, by simp [clockwork], look T h hrunning, ?_⟩
      rw [if_pos (by omega)]
      exact ⟨rfl, rfl⟩
  | succ n ih =>
      intro s h hrunning hdue
      have hlook := look T h hrunning
      by_cases hidle : s.wake - s.last ≥ idle
      · rw [if_pos hidle] at hlook
        exact ⟨_, _, by simp [clockwork], hlook, rfl, rfl⟩
      · rw [if_neg hidle] at hlook
        have hnext := Machine.run_keeps (fun _ _ _ hstep h => Timed.step h hstep) hlook h
        have hdue' : s.last + idle ≤ s.wake + tick idle + n * tick idle := by
          rw [Nat.succ_mul] at hdue
          omega
        rcases ih hnext hrunning hdue' with ⟨events, s', hclock, hrun, hdropped, hlast⟩
        refine ⟨[.pass s.wake, .watch] ++ events, s', ?_, ?_, hdropped, hlast⟩
        · simpa [clockwork] using hclock
        · rw [Machine.run_append, hlook]
          exact hrun

/-! ## Writes -/

/-- Bytes are accepted so early that the watchdog, should nothing more be read, does not drop the
chain within the bound after it. -/
def WritesInTime (idle : ℕ) (s : Splice σ) : SpliceEvent σ → Prop
  | .pump _ .write => s.now + idle ≤ firstCheck s.startedAt (tick idle) (s.last + idle)
  | _ => True

instance (idle : ℕ) (s : Splice σ) (e : SpliceEvent σ) : Decidable (s.WritesInTime idle e) :=
  match e with
  | .pump _ .write => Nat.decLe _ _
  | .pass _ | .watch | .pump _ (.arrive _) | .pump _ .finish | .pump _ (.drift _)
  | .pump _ (.read _) | .pump _ .eof | .pump _ (.close _) | .pump _ .readError => isTrue trivial

/-- All bytes were accepted in time. -/
def InTime (idle : ℕ) (s : Splice σ) : Prop :=
  ∀ w ∈ s.accepts, w + idle ≤ firstCheck s.startedAt (tick idle) (s.last + idle)

lemma InTime.put (h : s.InTime idle) (c : Copy σ) (side : Side) : (s.put c side).InTime idle := by
  cases side <;> exact h

lemma InTime.step (h : s.InTime idle) (htimed : s.Timed idle) {e : SpliceEvent σ}
    (hok : s.WritesInTime idle e) (hstep : s.step T idle e = some s') : s'.InTime idle := by
  obtain ⟨-, ⟨_, -, -, -, rfl⟩ | ⟨-, -, -, rfl⟩ | ⟨-, -, -, rfl⟩ | ⟨side, ev, c, rfl, -, rfl⟩⟩ :=
    step_cases hstep
  · exact h
  · exact h
  · exact h
  · refine InTime.put ?_ c side
    cases ev with
    | read n =>
        intro w hw
        exact (h w hw).trans (firstCheck_mono (tick_pos idle) _
          (Nat.add_le_add_right htimed.last_le idle))
    | write =>
        rw [stamp]
        split_ifs
        · exact h
        · intro w hw
          rcases List.mem_cons.mp hw with rfl | hw
          · exact hok
          · exact h w hw
    | _ => exact h

end Splice

open Splice in
/-- **The watchdog and idle chains.**  It drops a chain at its first look that is the bound or more
after the last read, so nothing was read within the bound; that nothing was accepted within it
either holds exactly when what was accepted after the last read was accepted so long before that
look, and in every run whose writes are in time.  No chain lasts longer than the bound and a tick
after its last read, and one that is left alone is dropped. -/
theorem idle_drop {σ : Type} (T : Side → Transport σ) (idle : ℕ) (env : Side → σ) (now : ℕ)
    (events : List (SpliceEvent σ)) {s : Splice σ}
    (hrun : Machine.run (step T idle) (start idle env now) events = some s) :
    (s.outcome = some .idle →
      s.now = firstCheck now (tick idle) (s.reads.headD now + idle) ∧
      (∀ r ∈ s.reads, r + idle ≤ s.now) ∧
      ((∀ w ∈ s.accepts, w + idle ≤ s.now) ↔ ∀ w ∈ s.accepts, s.reads.headD now ≤ w →
        w + idle ≤ firstCheck now (tick idle) (s.reads.headD now + idle))) ∧
    (Machine.Meets (step T idle) (WritesInTime idle) (start idle env now) events →
      s.outcome = some .idle → ∀ w ∈ s.accepts, w + idle ≤ s.now) ∧
    s.now ≤ s.reads.headD now + idle + tick idle ∧
    (s.outcome = none → ∃ more s', (∀ e ∈ more, clockwork e) ∧
      Machine.run (step T idle) s more = some s' ∧ s'.outcome = some .idle ∧
        s'.now ≤ s.reads.headD now + idle + tick idle) := by
  rcases timed_of_run hrun with ⟨rfl, h⟩
  rw [← h.clock]
  refine ⟨?_, ?_, h.now_le.trans h.wake_le, ?_⟩
  · intro hidle
    exact ⟨h.now_eq hidle, h.reads_le hidle, h.accepts_iff hidle⟩
  · intro hok hidle
    have hintime : s.Timed idle ∧ s.InTime idle :=
      Machine.run_invariant (P := fun t => t.Timed idle ∧ t.InTime idle)
        (fun _ _ _ hw hstep ht => ⟨ht.1.step hstep, ht.2.step ht.1 hw hstep⟩) hok hrun
        ⟨timed_start idle env s.startedAt, by simp [InTime, start]⟩
    rw [h.now_eq hidle]
    exact hintime.2
  · intro hrunning
    have hdue : s.last + idle ≤ s.wake + idle * tick idle := by
      have := h.last_le
      have := h.now_le
      have := Nat.le_mul_of_pos_right idle (tick_pos idle)
      omega
    rcases h.ends T idle hrunning hdue with ⟨more, s', hclock, hmore, hdropped, hlast⟩
    have h' := Machine.run_keeps (fun _ _ _ hstep h => Timed.step h hstep) hmore h
    refine ⟨more, s', hclock, hmore, hdropped, ?_⟩
    rw [← hlast]
    exact h'.now_le.trans h'.wake_le

/-- Two bytes arrive together and the endpoint takes the second 5 ms later; then the watchdog looks
at the given times. -/
def slowWrite (arrival : ℕ) (looks : List ℕ) : List (SpliceEvent Unit) :=
  [.pass arrival, .pump .ab (.arrive [1, 2]), .pump .ab (.read 2), .pump .ab .write,
    .pass (arrival + 5000000), .pump .ab .write] ++ looks.flatMap fun look => [.pass look, .watch]

/-- With a bound of 40 ms and an arrival at 2 ms, the look at 50 ms drops the chain, 43 ms after the
second byte was taken. -/
theorem idle_drop_slowWrite : ∃ s, Machine.run (Splice.step (fun _ => trickle) 40000000)
    (Splice.start 40000000 (fun _ => ()) 0)
    (slowWrite 2000000 [10000000, 20000000, 30000000, 40000000, 50000000]) = some s ∧
      s.outcome = some .idle ∧ ∀ w ∈ s.accepts, w + 40000000 ≤ s.now := by
  have hrun : ∃ s, Machine.run (Splice.step (fun _ => trickle) 40000000)
      (Splice.start 40000000 (fun _ => ()) 0)
      (slowWrite 2000000 [10000000, 20000000, 30000000, 40000000, 50000000]) = some s ∧
        s.outcome = some .idle := ⟨_, rfl, rfl⟩
  rcases hrun with ⟨s, hs, hidle⟩
  exact ⟨s, hs, hidle, (idle_drop _ 40000000 _ 0 _ hs).2.1 (by decide) hidle⟩

/-- **A busy chain is dropped**: with an arrival at the start, by the look at 40 ms, 35 ms after the
second byte was taken. -/
theorem busy_chain_dropped : ∃ s, Machine.run (Splice.step (fun _ => trickle) 40000000)
    (Splice.start 40000000 (fun _ => ()) 0)
    (slowWrite 0 [10000000, 20000000, 30000000, 40000000]) = some s ∧
      s.outcome = some .idle ∧ s.now = 40000000 ∧ 5000000 ∈ s.accepts ∧
      ¬ ∀ w ∈ s.accepts, w + 40000000 ≤ s.now := by
  have hrun : ∃ s, Machine.run (Splice.step (fun _ => trickle) 40000000)
      (Splice.start 40000000 (fun _ => ()) 0)
      (slowWrite 0 [10000000, 20000000, 30000000, 40000000]) = some s ∧
        s.outcome = some .idle ∧ s.now = 40000000 ∧ s.accepts = [5000000, 0] :=
    ⟨_, rfl, rfl, rfl, rfl⟩
  rcases hrun with ⟨s, hs, hidle, hnow, haccepts⟩
  refine ⟨s, hs, hidle, hnow, ?_, ?_⟩
  · rw [haccepts]
    decide
  · rw [haccepts, hnow]
    decide

end Radii
