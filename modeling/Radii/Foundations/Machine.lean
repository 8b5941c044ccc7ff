import Mathlib

/-!
# Runs of a machine

A machine is a partial step function: `none` where an event cannot happen.  A run is a list of
events, and what holds at the start and is kept by every step holds at its end (`run_invariant`),
also when only the steps that meet a condition keep it.
-/

namespace Machine

variable {σ ε : Type} (step : σ → ε → Option σ)

/-- Where the events lead, if they can happen. -/
def run : σ → List ε → Option σ
  | s, [] => some s
  | s, e :: es => (step s e).bind fun s' => run s' es

/-- Every step of the run meets the condition on the event and the state before it. -/
def Meets (ok : σ → ε → Prop) : σ → List ε → Prop
  | _, [] => True
  | s, e :: es => ok s e ∧ ∀ s', step s e = some s' → Meets ok s' es

instance decidableMeets (ok : σ → ε → Prop) [∀ s e, Decidable (ok s e)] :
    ∀ s es, Decidable (Meets step ok s es)
  | _, [] => isTrue trivial
  | s, e :: es =>
      haveI := decidableMeets ok
      match h : step s e with
      | none => decidable_of_iff (ok s e) (by simp [Meets, h])
      | some s' => decidable_of_iff (ok s e ∧ Meets step ok s' es) (by simp [Meets, h])

variable {step} {ok : σ → ε → Prop} {P : σ → Prop} {s s' : σ} {es : List ε}

/-- **The rule for invariants.** -/
theorem run_invariant (hstep : ∀ s e s', ok s e → step s e = some s' → P s → P s')
    (hok : Meets step ok s es) (hrun : run step s es = some s') (h : P s) : P s' := by
  induction es generalizing s with
  | nil =>
      rw [run, Option.some.injEq] at hrun
      exact hrun ▸ h
  | cons e es ih =>
      rcases Option.bind_eq_some_iff.mp hrun with ⟨mid, hmid, hrest⟩
      exact ih (hok.2 mid hmid) hrest (hstep s e mid hok.1 hmid h)

lemma run_append (s : σ) (es es' : List ε) :
    run step s (es ++ es') = (run step s es).bind fun s' => run step s' es' := by
  induction es generalizing s with
  | nil => rfl
  | cons e es ih =>
      simp only [List.cons_append, run, ih, Option.bind_assoc]

lemma meets_of_forall (h : ∀ s e, ok s e) (s : σ) (es : List ε) : Meets step ok s es := by
  induction es generalizing s with
  | nil => trivial
  | cons e es ih => exact ⟨h s e, fun s' _ => ih s'⟩

/-- Where every step keeps it. -/
lemma run_keeps (hstep : ∀ s e s', step s e = some s' → P s → P s')
    (hrun : run step s es = some s') (h : P s) : P s' :=
  run_invariant (fun s e s' _ => hstep s e s')
    (meets_of_forall (fun _ _ => trivial) s es) hrun h

end Machine
