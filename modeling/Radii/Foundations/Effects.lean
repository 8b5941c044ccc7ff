import Mathlib

/-!
# Computations and what they do

A computation performs actions, one after another, each with an answer from the world, until it ends
or an answer makes it fail.  `Traced` is what there is to see of it: its actions and its result.

`tryInOrder` tries computations one after another until one succeeds.  `tryInOrder_of_firstOk` and
`tryInOrder_of_allFail` say what that does; a loop that is equal to it does the same.
`SucceedAt.firstOk_iff` says which one that is, where it is known which of them work.
-/

namespace Effects

variable {ι ε ε' α β : Type}

/-- The actions of a computation, in order, and how it ended. -/
structure Traced (ι ε α : Type) where
  actions : List ι
  result : Except ε α

namespace Traced

/-- One action and its answer. -/
def perform (action : ι) (answer : Except ε α) : Traced ι ε α := ⟨[action], answer⟩

def fail (e : ε) : Traced ι ε α := ⟨[], .error e⟩

def andThen (x : Traced ι ε α) (f : α → Traced ι ε β) : Traced ι ε β :=
  match x.result with
  | .ok a => ⟨x.actions ++ (f a).actions, (f a).result⟩
  | .error e => ⟨x.actions, .error e⟩

instance : Monad (Traced ι ε) where
  pure a := ⟨[], .ok a⟩
  bind := andThen

/-- Goes on after a failure. -/
def attempt (x : Traced ι ε α) : Traced ι ε' (Except ε α) := ⟨x.actions, .ok x.result⟩

variable {x : Traced ι ε α} {f : α → Traced ι ε β} {a : α} {b : β} {e : ε}

@[simp] lemma actions_pure (a : α) : (pure a : Traced ι ε α).actions = [] := rfl

@[simp] lemma result_pure (a : α) : (pure a : Traced ι ε α).result = .ok a := rfl

lemma bind_of_ok (h : x.result = .ok a) :
    x >>= f = ⟨x.actions ++ (f a).actions, (f a).result⟩ := by
  show andThen x f = _
  rw [andThen, h]

lemma bind_of_error (h : x.result = .error e) : x >>= f = ⟨x.actions, .error e⟩ := by
  show andThen x f = _
  rw [andThen, h]

/-- A computation in two parts succeeds when both do. -/
lemma result_bind_eq_ok :
    (x >>= f).result = .ok b ↔ ∃ a, x.result = .ok a ∧ (f a).result = .ok b := by
  cases h : x.result with
  | ok a => simp [bind_of_ok h]
  | error e => simp [bind_of_error h]

/-- What each action of either part is, each action of the whole is. -/
lemma forall_actions_bind {P : ι → Prop} (hx : ∀ i ∈ x.actions, P i)
    (hf : ∀ a, x.result = .ok a → ∀ i ∈ (f a).actions, P i) : ∀ i ∈ (x >>= f).actions, P i := by
  cases h : x.result with
  | ok a =>
      rw [bind_of_ok h]
      intro i hi
      rcases List.mem_append.mp hi with hi | hi
      · exact hx i hi
      · exact hf a h i hi
  | error e =>
      rw [bind_of_error h]
      exact hx

lemma attempt_bind (x : Traced ι ε α) (f : Except ε α → Traced ι ε' β) :
    x.attempt >>= f = ⟨x.actions ++ (f x.result).actions, (f x.result).result⟩ :=
  bind_of_ok rfl

end Traced

/-! ## Trying one after another -/

/-- The actions of the computations, one after another. -/
def actionsOf (xs : List (Traced ι ε α)) : List ι := xs.flatMap Traced.actions

/-- The first that succeeds is the one at `k`, with this result. -/
structure FirstOk (xs : List (Traced ι ε α)) (k : ℕ) (a : α) : Prop where
  succeeds : xs[k]?.map Traced.result = some (.ok a)
  before : ∀ x ∈ xs.take k, ∃ e, x.result = .error e

def AllFail (xs : List (Traced ι ε α)) : Prop := ∀ x ∈ xs, ∃ e, x.result = .error e

/-- Tries one after another until one succeeds; `last` is what to fail with otherwise, when it is
not replaced by a later failure. -/
def tryInOrder (last : ε) : List (Traced ι ε α) → Traced ι ε α
  | [] => .fail last
  | x :: xs =>
      match x.result with
      | .ok a => ⟨x.actions, .ok a⟩
      | .error e => ⟨x.actions ++ (tryInOrder e xs).actions, (tryInOrder e xs).result⟩

lemma firstOk_zero {x : Traced ι ε α} {xs : List (Traced ι ε α)} {a : α} (h : x.result = .ok a) :
    FirstOk (x :: xs) 0 a := ⟨by simp [h], by simp⟩

lemma FirstOk.succ {x : Traced ι ε α} {xs : List (Traced ι ε α)} {k : ℕ} {a : α} {e : ε}
    (h : FirstOk xs k a) (hx : x.result = .error e) : FirstOk (x :: xs) (k + 1) a := by
  refine ⟨by simpa using h.succeeds, ?_⟩
  intro y hy
  rw [List.take_succ_cons] at hy
  rcases List.mem_cons.mp hy with rfl | hy
  · exact ⟨e, hx⟩
  · exact h.before y hy

/-- A single one. -/
lemma tryInOrder_singleton (x : Traced ι ε α) (last : ε) : tryInOrder last [x] = x := by
  rcases x with ⟨actions, result⟩
  cases result with
  | ok a => rfl
  | error e =>
      simp only [tryInOrder, Traced.fail, List.append_nil]

/-- **Trying in order**: some first one succeeds, and no more is done than up to it, or all fail. -/
theorem tryInOrder_spec (xs : List (Traced ι ε α)) : ∀ last : ε,
    (∃ k a, FirstOk xs k a ∧ tryInOrder last xs = ⟨actionsOf (xs.take (k + 1)), .ok a⟩) ∨
    (AllFail xs ∧ ∃ e, tryInOrder last xs = ⟨actionsOf xs, .error e⟩) := by
  induction xs with
  | nil => exact fun last => Or.inr ⟨by simp [AllFail], last, rfl⟩
  | cons x xs ih =>
      intro last
      cases hx : x.result with
      | ok a =>
          refine Or.inl ⟨0, a, firstOk_zero hx, ?_⟩
          rw [tryInOrder, hx]
          simp [actionsOf]
      | error e =>
          rcases ih e with ⟨k, a, hfirst, htry⟩ | ⟨hall, e', htry⟩
          · refine Or.inl ⟨k + 1, a, hfirst.succ hx, ?_⟩
            rw [tryInOrder, hx]
            simp [htry, actionsOf]
          · refine Or.inr ⟨?_, e', ?_⟩
            · intro y hy
              rcases List.mem_cons.mp hy with rfl | hy
              · exact ⟨e, hx⟩
              · exact hall y hy
            · rw [tryInOrder, hx]
              simp [htry, actionsOf]

/-- There is only one first. -/
lemma FirstOk.unique {xs : List (Traced ι ε α)} {k k' : ℕ} {a a' : α} (h : FirstOk xs k a)
    (h' : FirstOk xs k' a') : k = k' ∧ a = a' := by
  have hle : ∀ {k k' a a'}, FirstOk xs k a → FirstOk xs k' a' → k' ≤ k := by
    intro k k' a a' h h'
    by_contra hlt
    rcases Option.map_eq_some_iff.mp h.succeeds with ⟨x, hx, hok⟩
    have hmem : x ∈ xs.take k' := by
      refine List.mem_of_getElem? (i := k) ?_
      rw [List.getElem?_take_of_lt (not_le.mp hlt)]
      exact hx
    rcases h'.before x hmem with ⟨e, herror⟩
    rw [hok] at herror
    exact absurd herror (by simp)
  obtain rfl : k = k' := le_antisymm (hle h' h) (hle h h')
  refine ⟨rfl, ?_⟩
  have heq := h.succeeds.symm.trans h'.succeeds
  simpa using heq

lemma FirstOk.not_allFail {xs : List (Traced ι ε α)} {k : ℕ} {a : α} (h : FirstOk xs k a) :
    ¬ AllFail xs := by
  intro hall
  rcases Option.map_eq_some_iff.mp h.succeeds with ⟨x, hx, hok⟩
  rcases hall x (List.mem_of_getElem? hx) with ⟨e, herror⟩
  rw [hok] at herror
  exact absurd herror (by simp)

/-- The ones that succeed are those at which `works` holds. -/
def SucceedAt (xs : List (Traced ι ε α)) (works : ℕ → Prop) : Prop :=
  ∀ k, (∃ a, xs[k]?.map Traced.result = some (.ok a)) ↔ works k

/-- Some one fails that does not succeed. -/
lemma SucceedAt.fails {xs : List (Traced ι ε α)} {works : ℕ → Prop} (h : SucceedAt xs works)
    {k : ℕ} {x : Traced ι ε α} (hx : xs[k]? = some x) (hk : ¬ works k) :
    ∃ e, x.result = .error e := by
  cases hresult : x.result with
  | error e => exact ⟨e, rfl⟩
  | ok a => exact absurd ((h k).mp ⟨a, by rw [hx, Option.map_some, hresult]⟩) hk

/-- **Which is the first**: the one that works and has none before it that does. -/
lemma SucceedAt.firstOk_iff {xs : List (Traced ι ε α)} {works : ℕ → Prop} (h : SucceedAt xs works)
    {k : ℕ} : (∃ a, FirstOk xs k a) ↔ works k ∧ ∀ j < k, ¬ works j := by
  constructor
  · rintro ⟨a, hfirst⟩
    refine ⟨(h k).mp ⟨a, hfirst.succeeds⟩, fun j hj hworks => ?_⟩
    rcases (h j).mpr hworks with ⟨b, hb⟩
    rcases Option.map_eq_some_iff.mp hb with ⟨x, hx, hok⟩
    have hmem : x ∈ xs.take k :=
      List.mem_of_getElem? (i := j) (by rw [List.getElem?_take_of_lt hj, hx])
    rcases hfirst.before x hmem with ⟨e, herror⟩
    rw [hok] at herror
    exact absurd herror (by simp)
  · rintro ⟨hworks, hbefore⟩
    rcases (h k).mpr hworks with ⟨a, ha⟩
    refine ⟨a, ha, fun x hx => ?_⟩
    rcases List.mem_iff_getElem?.mp hx with ⟨j, hj⟩
    rw [List.getElem?_take] at hj
    split_ifs at hj with hlt
    exact h.fails hj (hbefore j hlt)

/-- They all fail where none works. -/
lemma SucceedAt.allFail_iff {xs : List (Traced ι ε α)} {works : ℕ → Prop} (h : SucceedAt xs works) :
    AllFail xs ↔ ∀ k, ¬ works k := by
  constructor
  · intro hall k hworks
    rcases (h k).mpr hworks with ⟨a, ha⟩
    rcases Option.map_eq_some_iff.mp ha with ⟨x, hx, hok⟩
    rcases hall x (List.mem_of_getElem? hx) with ⟨e, herror⟩
    rw [hok] at herror
    exact absurd herror (by simp)
  · intro hnone x hx
    rcases List.mem_iff_getElem?.mp hx with ⟨k, hk⟩
    exact h.fails hk (hnone k)

lemma tryInOrder_of_firstOk {xs : List (Traced ι ε α)} {k : ℕ} {a : α} (h : FirstOk xs k a)
    (last : ε) : tryInOrder last xs = ⟨actionsOf (xs.take (k + 1)), .ok a⟩ := by
  rcases tryInOrder_spec xs last with ⟨k', a', hfirst, htry⟩ | ⟨hall, -⟩
  · rcases h.unique hfirst with ⟨rfl, rfl⟩
    exact htry
  · exact absurd hall h.not_allFail

lemma tryInOrder_of_allFail {xs : List (Traced ι ε α)} (h : AllFail xs) (last : ε) :
    ∃ e, tryInOrder last xs = ⟨actionsOf xs, .error e⟩ := by
  rcases tryInOrder_spec xs last with ⟨k, a, hfirst, -⟩ | ⟨-, htry⟩
  · exact absurd h hfirst.not_allFail
  · exact htry

end Effects
