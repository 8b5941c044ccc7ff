import Radii.Proto.Delivery
import Radii.Relay.Splice

/-!
# What a splice holds back

`pump` of `crates/fetch/src/relay.rs` writes what it has read and reads again; it never flushes.  A
stream that takes bytes without handing them on, as a TLS stream does while the socket below it is
full, then keeps them while the loop waits for more.

* `splice_flushed` — a waiting direction has delivered everything as long as every write after which
  it waits hands on all that the stream holds, and only then.
* `tail_held` — the end of an answer that stays with the relay until the watchdog drops the chain.
-/

namespace Radii

open Wire

namespace Splice

variable {σ : Type}

/-- Each direction that waits for more input has read all that was sent, and all of it was handed on
to the other endpoint. -/
def Delivered (s : Splice σ) : Prop :=
  ∀ side, (s.copy side).Waiting → (s.copy side).read = (s.copy side).sent ∧
    (s.copy side).out.below = (s.copy side).read

/-- A write of a direction that waits after it hands on all that the stream then holds. -/
def WritesThrough (T : Side → Transport σ) (s : Splice σ) : SpliceEvent σ → Prop
  | .pump side e => (s.copy side).WritesThrough (T side) e
  | _ => True

variable {T : Side → Transport σ} {idle : ℕ} {s s' : Splice σ}

lemma Faithful.delivered_iff (h : s.Faithful) :
    s.Delivered ↔ ∀ side, (s.copy side).Flushed :=
  forall_congr' fun side => (h.sound side).flushed_iff.symm

/-- What one direction does, and that the other is left as it is. -/
lemma step_pump {side : Side} {e : CopyEvent σ} (h : s.step T idle (.pump side e) = some s') :
    (s.copy side).step (T side) bufLen e = some (s'.copy side) ∧
      s'.copy side.other = s.copy side.other := by
  rw [step] at h
  split_ifs at h with hrunning
  rcases Option.map_eq_some_iff.mp h with ⟨c, hc, rfl⟩
  rw [copy_put_self, copy_put_other, copy_stamp]
  exact ⟨hc, rfl⟩

/-- Time and the watchdog leave both directions as they are. -/
lemma copy_of_step {e : SpliceEvent σ} (h : s.step T idle e = some s')
    (he : ∀ side ev, e ≠ .pump side ev) (side : Side) : s'.copy side = s.copy side := by
  obtain ⟨-, ⟨_, -, -, -, rfl⟩ | ⟨-, -, -, rfl⟩ | ⟨-, -, -, rfl⟩ | ⟨side', ev, c, rfl, -, -⟩⟩ :=
    step_cases h
  · cases side <;> rfl
  · cases side <;> rfl
  · cases side <;> rfl
  · exact absurd rfl (he side' ev)

/-- **One event** keeps everything delivered exactly when it writes through. -/
theorem delivered_step_iff (hfaithful : s.Faithful) (h : s.Delivered) {e : SpliceEvent σ}
    (hstep : s.step T idle e = some s') : s'.Delivered ↔ s.WritesThrough T e := by
  have hflushed := hfaithful.delivered_iff.mp h
  have hframe : (∀ side ev, e ≠ .pump side ev) → s'.Delivered := by
    intro he side
    rw [copy_of_step hstep he side]
    exact h side
  rw [(hfaithful.step hstep).delivered_iff]
  cases e with
  | pump side ev =>
      rcases step_pump hstep with ⟨hc, hother⟩
      have hiff := Copy.flushed_step_iff (hflushed side) (hfaithful.sound side) hc
      constructor
      · intro h'
        exact hiff.mp (h' side)
      · intro hok
        refine forall_side side (hiff.mpr hok) ?_
        rw [hother]
        exact hflushed side.other
  | pass | watch =>
      refine ⟨fun _ => trivial, ?_⟩
      intro _
      exact (hfaithful.step hstep).delivered_iff.mp (hframe (by simp))

lemma delivered_start (idle : ℕ) (env : Side → σ) (now : ℕ) : (start idle env now).Delivered := by
  rw [(faithful_start idle env now).delivered_iff]
  exact fun side => by cases side <;> exact Copy.flushed_start _

end Splice

open Splice in
/-- **When a splice sits on nothing.**  In a run in which every write after which a direction waits
for more hands on all that the stream then holds, a direction that waits has delivered all that was
sent.  After any other such write it waits with bytes that were not delivered. -/
theorem splice_flushed {σ : Type} (T : Side → Transport σ) (idle : ℕ) (env : Side → σ) (now : ℕ)
    (events : List (SpliceEvent σ)) {s : Splice σ}
    (hrun : Machine.run (step T idle) (start idle env now) events = some s) :
    (Machine.Meets (step T idle) (WritesThrough T) (start idle env now) events → s.Delivered) ∧
    (s.Delivered → ∀ e s', s.step T idle e = some s' → (s'.Delivered ↔ s.WritesThrough T e)) := by
  refine ⟨?_, fun h e s' => delivered_step_iff (faithful_of_run hrun) h⟩
  intro hok
  have hkeeps : ∀ t e t', WritesThrough T t e → t.step T idle e = some t' →
      t.Faithful ∧ t.Delivered → t'.Faithful ∧ t'.Delivered := by
    rintro t e t' hthrough hstep ⟨hfaithful, h⟩
    exact ⟨hfaithful.step hstep, (delivered_step_iff hfaithful h hstep).mpr hthrough⟩
  exact (Machine.run_invariant hkeeps hok hrun
    ⟨faithful_start idle env now, delivered_start idle env now⟩).2

/-- Whatever is written to `trickle` is handed on. -/
lemma trickle_writesThrough (s : Splice Unit) (e : SpliceEvent Unit) :
    s.WritesThrough (fun _ => trickle) e := by
  cases e with
  | pump side ev =>
      cases ev with
      | write =>
          rintro pending n out - - - - - - m h env heq
          simp only [trickle, Option.some.injEq, Prod.mk.injEq] at heq
          omega
      | _ => trivial
  | _ => trivial

/-- An answer of three bytes, written a byte at a time. -/
def trickled : List (SpliceEvent Unit) :=
  [.pump .ba (.arrive [1, 2, 3]), .pump .ba (.read 3), .pump .ba .write, .pump .ba .write,
    .pump .ba .write]

/-- While the backend waits for the next request, the client has all of it. -/
theorem splice_flushed_trickled : ∃ s, Machine.run (Splice.step (fun _ => trickle) 1000)
    (Splice.start 1000 (fun _ => ()) 0) trickled = some s ∧ (s.copy .ba).Waiting ∧
      (s.copy .ba).out.below = [1, 2, 3] ∧ s.Delivered := by
  have hrun : Machine.run (Splice.step (fun _ => trickle) 1000)
      (Splice.start 1000 (fun _ => ()) 0) trickled = some _ := rfl
  have hdelivered := (splice_flushed _ 1000 _ 0 trickled hrun).1
    (Machine.meets_of_forall trickle_writesThrough _ _)
  exact ⟨_, hrun, ⟨rfl, rfl, rfl⟩, rfl, hdelivered⟩

/-- An answer of three bytes, written to a stream over a socket with room for two; the socket is
drained at once. -/
def answered : List (SpliceEvent ℕ) :=
  [.pump .ba (.arrive [1, 2, 3]), .pump .ba (.read 3), .pump .ba .write, .pump .ba (.drift 100)]

/-- **The end of the answer stays with the relay**: the backend waits for the next request and the
client for the rest of the answer, until the watchdog drops the chain. -/
theorem tail_held :
    (∃ s, Machine.run (Splice.step (fun _ => socketWithRoom) 10000000)
        (Splice.start 10000000 (fun _ => 2) 0) answered = some s ∧
      s.outcome = none ∧ (s.copy .ba).Waiting ∧ (s.copy .ba).read = [1, 2, 3] ∧
      (s.copy .ba).out.below = [1, 2] ∧ ¬ s.Delivered) ∧
    (∃ s, Machine.run (Splice.step (fun _ => socketWithRoom) 10000000)
        (Splice.start 10000000 (fun _ => 2) 0) (answered ++ [.pass 10000000, .watch]) = some s ∧
      s.outcome = some .idle ∧ (s.copy .ba).out.below = [1, 2]) := by
  refine ⟨⟨_, rfl, rfl, ⟨rfl, rfl, rfl⟩, rfl, rfl, ?_⟩, ⟨_, rfl, rfl, rfl⟩⟩
  intro h
  exact absurd (h .ba ⟨rfl, rfl, rfl⟩).2 (by decide)

end Radii
