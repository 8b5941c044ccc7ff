import Radii.Foundations.CopyLoop
import Radii.Foundations.Machine

/-!
# Splicing a chain

`splice_with_idle` and `pump` of `crates/fetch/src/relay.rs`: one copy loop for each direction, a
clock that both stamp on every read, and a watchdog that looks at it from time to time.  Times are in
nanoseconds; the watchdog's timer goes off when it is due, and everything else happens whenever it
happens.

* `step_cases` — what one event does to the splice.
* `splice_faithful` — nothing is lost, invented or reordered, and a half-close is honoured.
-/

namespace Radii

open Wire

/-- What one read of `pump` takes at most. -/
def bufLen : ℕ := 8192

/-- How often the watchdog looks. -/
def tick (idle : ℕ) : ℕ := max (idle / 4) 10000000

/-- The direction of a copy loop. -/
inductive Side where
  | ab
  | ba
  deriving DecidableEq, Repr

def Side.other : Side → Side
  | ab => ba
  | ba => ab

/-- How `splice_with_idle` returns. -/
inductive Outcome where
  | finished
  | failed
  /-- The watchdog dropped an idle chain. -/
  | idle
  deriving DecidableEq, Repr

structure Splice (σ : Type) where
  startedAt : ℕ
  now : ℕ
  /-- The shared clock. -/
  last : ℕ
  /-- When the watchdog looks next. -/
  wake : ℕ
  ab : Copy σ
  ba : Copy σ
  /-- `none`: it has not returned. -/
  outcome : Option Outcome
  /-- When bytes were read, from either endpoint, the latest first. -/
  reads : List ℕ
  /-- When bytes were accepted. -/
  accepts : List ℕ
  deriving DecidableEq

inductive SpliceEvent (σ : Type) where
  /-- Time passes. -/
  | pass (now : ℕ)
  /-- The watchdog looks. -/
  | watch
  /-- Something happens in one direction. -/
  | pump (side : Side) (e : CopyEvent σ)

/-- What `try_join!` makes of the two loops. -/
def joined {σ : Type} (ab ba : Copy σ) : Option Outcome :=
  if ab.phase = .failed ∨ ba.phase = .failed then some .failed
  else if ab.phase = .done ∧ ba.phase = .done then some .finished
  else none

namespace Splice

variable {σ : Type}

def start (idle : ℕ) (env : Side → σ) (now : ℕ) : Splice σ where
  startedAt := now
  now := now
  last := now
  wake := now + tick idle
  ab := .start (env .ab)
  ba := .start (env .ba)
  outcome := none
  reads := []
  accepts := []

def copy (s : Splice σ) : Side → Copy σ
  | .ab => s.ab
  | .ba => s.ba

def put (s : Splice σ) (c : Copy σ) : Side → Splice σ
  | .ab => { s with ab := c, outcome := joined c s.ba }
  | .ba => { s with ba := c, outcome := joined s.ab c }

/-- A read stamps the clock; a write does not. -/
def stamp (s : Splice σ) (c : Copy σ) : CopyEvent σ → Splice σ
  | .read _ => { s with last := s.now, reads := s.now :: s.reads }
  | .write => if c.phase = .failed then s else { s with accepts := s.now :: s.accepts }
  | _ => s

def step (T : Side → Transport σ) (idle : ℕ) (s : Splice σ) : SpliceEvent σ → Option (Splice σ)
  | .pass now =>
      if s.outcome = none ∧ s.now ≤ now ∧ now ≤ s.wake then some { s with now := now } else none
  | .watch =>
      if s.outcome = none ∧ s.now = s.wake then
        some (if s.now - s.last ≥ idle then { s with outcome := some .idle }
          else { s with wake := s.now + tick idle })
      else none
  | .pump side e =>
      if s.outcome = none then
        ((s.copy side).step (T side) bufLen e).map fun c => (s.stamp c e).put c side
      else none

/-! ## What one event does -/

@[simp] lemma copy_put_self (s : Splice σ) (c : Copy σ) (side : Side) :
    (s.put c side).copy side = c := by
  cases side <;> rfl

@[simp] lemma copy_put_other (s : Splice σ) (c : Copy σ) (side : Side) :
    (s.put c side).copy side.other = s.copy side.other := by
  cases side <;> rfl

@[simp] lemma copy_stamp (s : Splice σ) (c : Copy σ) (e : CopyEvent σ) (side : Side) :
    (s.stamp c e).copy side = s.copy side := by
  cases e with
  | write =>
      rw [stamp]
      split_ifs <;> cases side <;> rfl
  | _ => cases side <;> rfl

lemma outcome_put (s : Splice σ) (c : Copy σ) (side : Side) :
    (s.put c side).outcome = joined ((s.put c side).copy .ab) ((s.put c side).copy .ba) := by
  cases side <;> rfl

lemma forall_side {P : Side → Prop} (side : Side) (h : P side) (hother : P side.other) :
    ∀ side, P side := by
  intro side'
  cases side <;> cases side' <;> assumption

variable {T : Side → Transport σ} {idle : ℕ} {s s' : Splice σ}

/-- **What one event does**: time passes, the watchdog looks and goes on or ends the splice, or one
direction steps. -/
theorem step_cases {e : SpliceEvent σ} (h : s.step T idle e = some s') :
    s.outcome = none ∧
    ((∃ now, e = .pass now ∧ s.now ≤ now ∧ now ≤ s.wake ∧ s' = { s with now := now }) ∨
    (e = .watch ∧ s.now = s.wake ∧ s.now - s.last < idle ∧
      s' = { s with wake := s.now + tick idle }) ∨
    (e = .watch ∧ s.now = s.wake ∧ idle ≤ s.now - s.last ∧ s' = { s with outcome := some .idle }) ∨
    ∃ side ev c, e = .pump side ev ∧ Copy.Stepped (T side) bufLen (s.copy side) ev c ∧
      s' = (s.stamp c ev).put c side) := by
  cases e with
  | pass now =>
      rw [step] at h
      split_ifs at h with hpass
      rw [Option.some.injEq] at h
      exact ⟨hpass.1, Or.inl ⟨now, rfl, hpass.2.1, hpass.2.2, h.symm⟩⟩
  | watch =>
      rw [step] at h
      by_cases hdue : s.outcome = none ∧ s.now = s.wake
      · rw [if_pos hdue, Option.some.injEq] at h
        by_cases hidle : s.now - s.last ≥ idle
        · rw [if_pos hidle] at h
          exact ⟨hdue.1, Or.inr (Or.inr (Or.inl ⟨rfl, hdue.2, hidle, h.symm⟩))⟩
        · rw [if_neg hidle] at h
          exact ⟨hdue.1, Or.inr (Or.inl ⟨rfl, hdue.2, not_le.mp hidle, h.symm⟩)⟩
      · simp [hdue] at h
  | pump side ev =>
      rw [step] at h
      split_ifs at h with hrunning
      rcases Option.map_eq_some_iff.mp h with ⟨c, hc, heq⟩
      exact ⟨hrunning, Or.inr (Or.inr (Or.inr
        ⟨side, ev, c, rfl, Copy.stepped_of_step hc, heq.symm⟩))⟩

/-! ## Both directions -/

/-- What holds at all times of the two directions. -/
structure Faithful (s : Splice σ) : Prop where
  sound : ∀ side, (s.copy side).Sound
  /-- It returns when both directions are done, when one fails, or through the watchdog. -/
  returned : s.outcome = some .idle ∨ s.outcome = joined s.ab s.ba

lemma faithful_start (idle : ℕ) (env : Side → σ) (now : ℕ) : (start idle env now).Faithful :=
  ⟨fun side => by cases side <;> exact Copy.sound_start _, Or.inr rfl⟩

theorem Faithful.step (h : s.Faithful) {e : SpliceEvent σ} (hstep : s.step T idle e = some s') :
    s'.Faithful := by
  obtain ⟨-, ⟨now, -, -, -, rfl⟩ | ⟨-, -, -, rfl⟩ | ⟨-, -, -, rfl⟩ | ⟨side, ev, c, -, hc, rfl⟩⟩ :=
    step_cases hstep
  · exact ⟨forall_side .ab (h.sound .ab) (h.sound .ba), h.returned⟩
  · exact ⟨forall_side .ab (h.sound .ab) (h.sound .ba), h.returned⟩
  · exact ⟨forall_side .ab (h.sound .ab) (h.sound .ba), Or.inl rfl⟩
  · refine ⟨forall_side side ?_ ?_, Or.inr (outcome_put _ _ _)⟩
    · rw [copy_put_self]
      exact (h.sound side).step hc
    · rw [copy_put_other, copy_stamp]
      exact h.sound side.other

lemma faithful_of_run {env : Side → σ} {now : ℕ} {events : List (SpliceEvent σ)}
    (hrun : Machine.run (step T idle) (start idle env now) events = some s) : s.Faithful :=
  Machine.run_keeps (fun _ _ _ hstep h => Faithful.step h hstep) hrun (faithful_start idle env now)

lemma joined_eq_finished {ab ba : Copy σ} (h : joined ab ba = some .finished) :
    ab.phase = .done ∧ ba.phase = .done := by
  rw [joined] at h
  split_ifs at h with hfailed hdone
  · simp at h
  · exact hdone

lemma joined_eq_failed {ab ba : Copy σ} (h : joined ab ba = some .failed) :
    ab.phase = .failed ∨ ba.phase = .failed := by
  rw [joined] at h
  split_ifs at h with hfailed hdone
  · exact hfailed
  · simp at h

end Splice

open Splice in
/-- **A splice is faithful.**  At every moment what each side was given is a prefix of what was read
from the other; a side is shut down only when it was given all that the other sent before it ended;
each direction goes on meanwhile, whatever the other does: what has come can be read, what was read
can be written, and at its end the side can be shut down; nothing but an error, the watchdog or the
end of both directions ends the splice; and when both have ended, each side was given everything and
shut down. -/
theorem splice_faithful {σ : Type} (T : Side → Transport σ) (idle : ℕ) (env : Side → σ) (now : ℕ)
    (events : List (SpliceEvent σ)) {s : Splice σ}
    (hrun : Machine.run (step T idle) (start idle env now) events = some s) :
    (∀ side, (s.copy side).out.taken <+: (s.copy side).read ∧
      (s.copy side).read <+: (s.copy side).sent) ∧
    (∀ side, (s.copy side).shut = true → (s.copy side).ended = true ∧
      (s.copy side).read = (s.copy side).sent ∧ (s.copy side).out.taken = (s.copy side).read) ∧
    (∀ side, s.outcome = none → ∀ e c, (s.copy side).step (T side) bufLen e = some c →
      ∃ s', s.step T idle (.pump side e) = some s' ∧ s'.copy side = c ∧
        s'.copy side.other = s.copy side.other) ∧
    (∀ side, (s.copy side).Progress (T side) bufLen) ∧
    (s.outcome ≠ none → s.outcome = some .idle ∨ (∃ side, (s.copy side).phase = .failed) ∨
      ∀ side, (s.copy side).phase = .done) ∧
    (s.outcome = some .finished → ∀ side, (s.copy side).ended = true ∧
      (s.copy side).out.taken = (s.copy side).sent ∧ (s.copy side).shut = true) := by
  have h := faithful_of_run hrun
  have hdone : s.outcome = some .finished → ∀ side, (s.copy side).phase = .done := by
    intro hfinished
    rcases h.returned with hidle | hjoined
    · rw [hfinished] at hidle
      simp at hidle
    · rcases joined_eq_finished (hjoined.symm.trans hfinished) with ⟨hab, hba⟩
      exact forall_side .ab hab hba
  refine ⟨fun side => ⟨(h.sound side).taken_begins, (h.sound side).read⟩, ?_, ?_,
    fun side => Copy.progress _ _ _, ?_, ?_⟩
  · intro side hshut
    rcases (h.sound side).of_shut hshut with ⟨hended, hall, htaken⟩
    exact ⟨hended, hall, htaken.trans hall.symm⟩
  · intro side hrunning e c hc
    refine ⟨(s.stamp c e).put c side, ?_, copy_put_self _ _ _, ?_⟩
    · rw [Splice.step, if_pos hrunning, hc]
      rfl
    · rw [copy_put_other, copy_stamp]
  · intro hreturned
    rcases h.returned with hidle | hjoined
    · exact Or.inl hidle
    · cases houtcome : s.outcome with
      | none => exact absurd houtcome hreturned
      | some outcome =>
          cases outcome with
          | finished => exact Or.inr (Or.inr (hdone houtcome))
          | failed =>
              rcases joined_eq_failed (hjoined.symm.trans houtcome) with hab | hba
              · exact Or.inr (Or.inl ⟨.ab, hab⟩)
              · exact Or.inr (Or.inl ⟨.ba, hba⟩)
          | idle => exact Or.inl rfl
  · intro hfinished side
    have hshut : (s.copy side).shut = true :=
      (h.sound side).closed.mpr (Or.inr (hdone hfinished side))
    rcases (h.sound side).of_shut hshut with ⟨hended, -, htaken⟩
    exact ⟨hended, htaken, hshut⟩

/-- A stream that takes a byte at a time and hands it on. -/
def trickle : Transport Unit where
  write _ buffered offered :=
    some (min 1 offered.length, buffered.length + min 1 offered.length, ())
  accepted_le := by
    rintro _ _ buffered offered n h heq
    simp only [Option.some.injEq, Prod.mk.injEq] at heq
    omega
  handed_le := by
    rintro _ _ buffered offered n h heq
    simp only [Option.some.injEq, Prod.mk.injEq] at heq
    omega

/-- A client that half-closes after its request, and the response it still gets. -/
def halfClosed : List (SpliceEvent Unit) :=
  [.pump .ab (.arrive [1, 2]), .pump .ab .finish, .pump .ab (.read 2), .pump .ab .write,
    .pump .ab .write, .pump .ab .eof, .pump .ab (.close true), .pump .ba (.arrive [3]),
    .pump .ba (.read 1), .pump .ba .write, .pump .ba .finish, .pump .ba .eof,
    .pump .ba (.close true)]

/-- Both sides are given everything. -/
theorem splice_faithful_halfClosed : ∃ s, Machine.run (Splice.step (fun _ => trickle) 1000)
    (Splice.start 1000 (fun _ => ()) 0) halfClosed = some s ∧ s.outcome = some .finished ∧
      (s.copy .ab).sent = [1, 2] ∧ (s.copy .ba).sent = [3] ∧
      ∀ side, (s.copy side).ended = true ∧ (s.copy side).out.taken = (s.copy side).sent ∧
        (s.copy side).shut = true := by
  have hrun : (Machine.run (Splice.step (fun _ => trickle) 1000)
      (Splice.start 1000 (fun _ => ()) 0) halfClosed).map
        (fun s => (s.outcome, (s.copy .ab).sent, (s.copy .ba).sent)) =
      some (some .finished, [1, 2], [3]) := by decide
  rcases Option.map_eq_some_iff.mp hrun with ⟨s, hs, heq⟩
  simp only [Prod.mk.injEq] at heq
  rcases heq with ⟨hfinished, hab, hba⟩
  exact ⟨s, hs, hfinished, hab, hba, (splice_faithful _ 1000 _ 0 halfClosed hs).2.2.2.2.2 hfinished⟩

end Radii
