import Mathlib

/-!
# Programs that may panic

A program over machine words and vectors returns, or it panics: at an unsigned sum or difference out
of range, at an index or the end of a slice beyond the vector, at an `expect` of nothing.  A loop
that is given fuel may use it up.

* `Returns` — the program returns, and what it returns is as it should be.
* `Yields` — whatever it returns is as it should be.  `Returns.eq_ok` puts the two together.

Either has a rule for a step and one for a loop, and a lemma for each operation.
-/

namespace Panics

inductive Panic
  /-- A sum or a difference that is not a word. -/
  | overflow
  /-- An index or the end of a slice that the vector does not have. -/
  | outOfRange
  | expected (message : String)
  /-- A loop that took more turns than it was given. -/
  | endless
  deriving DecidableEq, Repr

abbrev MayPanic (α : Type) := Except Panic α

variable {α β σ : Type}

/-! ## Operations -/

/-- `a + b` for words of 64 bits. -/
def add (a b : ℕ) : MayPanic ℕ := if a + b < 2 ^ 64 then pure (a + b) else throw .overflow

/-- `a - b` -/
def sub (a b : ℕ) : MayPanic ℕ := if b ≤ a then pure (a - b) else throw .overflow

/-- `xs[i]` -/
def index (xs : List α) (i : ℕ) : MayPanic α :=
  match xs[i]? with
  | some x => pure x
  | none => throw .outOfRange

/-- `xs[..n]` -/
def upTo (xs : List α) (n : ℕ) : MayPanic (List α) :=
  if n ≤ xs.length then pure (xs.take n) else throw .outOfRange

/-- `xs[..=i]` -/
def through (xs : List α) (i : ℕ) : MayPanic (List α) :=
  if i < xs.length then pure (xs.take (i + 1)) else throw .outOfRange

/-- `xs.remove(i)`: the element, and the vector without it. -/
def remove (xs : List α) (i : ℕ) : MayPanic (α × List α) :=
  match xs[i]? with
  | some x => pure (x, xs.eraseIdx i)
  | none => throw .outOfRange

def expect (o : Option α) (message : String) : MayPanic α :=
  match o with
  | some a => pure a
  | none => throw (.expected message)

/-! ## What returns -/

/-- The program returns, with a result that satisfies `post`. -/
def Returns (m : MayPanic α) (post : α → Prop) : Prop := ∃ a, m = .ok a ∧ post a

section Returns

variable {m : MayPanic α} {f : α → MayPanic β} {p : α → Prop} {q : β → Prop} {a : α} {xs : List α}
  {i n : ℕ}

lemma returns_pure (h : p a) : Returns (pure a) p := ⟨a, rfl, h⟩

lemma Returns.mono {p' : α → Prop} (h : Returns m p) (hp : ∀ a, p a → p' a) : Returns m p' := by
  rcases h with ⟨a, rfl, ha⟩
  exact ⟨a, rfl, hp a ha⟩

/-- **The rule for a step.** -/
lemma Returns.bind (h : Returns m p) (hf : ∀ a, p a → Returns (f a) q) : Returns (m >>= f) q := by
  rcases h with ⟨a, rfl, ha⟩
  exact hf a ha

/-- A step with a result that is known. -/
lemma Returns.bind_eq (h : Returns m (· = a)) (hf : Returns (f a) q) : Returns (m >>= f) q := by
  refine h.bind ?_
  rintro _ rfl
  exact hf

lemma returns_ite {c : Prop} [Decidable c] {m' : MayPanic α} (ht : c → Returns m p)
    (he : ¬ c → Returns m' p) : Returns (if c then m else m') p := by
  split_ifs with h
  · exact ht h
  · exact he h

lemma returns_add {a b : ℕ} (h : a + b < 2 ^ 64) : Returns (add a b) (· = a + b) :=
  ⟨a + b, if_pos h, rfl⟩

lemma returns_sub {a b : ℕ} (h : b ≤ a) : Returns (sub a b) (· = a - b) :=
  ⟨a - b, if_pos h, rfl⟩

lemma returns_index (h : i < xs.length) : Returns (index xs i) fun x => xs[i]? = some x := by
  have hget := List.getElem?_eq_getElem h
  refine ⟨xs[i], ?_, hget⟩
  rw [index, hget]
  rfl

lemma returns_upTo (h : n ≤ xs.length) : Returns (upTo xs n) (· = xs.take n) :=
  ⟨xs.take n, if_pos h, rfl⟩

lemma returns_through (h : i < xs.length) : Returns (through xs i) (· = xs.take (i + 1)) :=
  ⟨xs.take (i + 1), if_pos h, rfl⟩

lemma returns_remove (h : i < xs.length) :
    Returns (remove xs i) fun r => xs[i]? = some r.1 ∧ r.2 = xs.eraseIdx i := by
  have hget := List.getElem?_eq_getElem h
  refine ⟨(xs[i], xs.eraseIdx i), ?_, hget, rfl⟩
  rw [remove, hget]
  rfl

lemma returns_expect (a : α) (message : String) : Returns (expect (some a) message) (· = a) :=
  ⟨a, rfl, rfl⟩

/-- **The rule for a loop** with an invariant of what it has gone over and of its state. -/
lemma foldlM_returns_done {f : σ → α → MayPanic σ} (inv : List α → σ → Prop) {s : σ}
    (hstart : inv [] s) (hstep : ∀ done x rest, xs = done ++ x :: rest → ∀ s, inv done s →
      Returns (f s x) (inv (done ++ [x]))) :
    Returns (xs.foldlM f s) (inv xs) := by
  have hrest : ∀ rest done, xs = done ++ rest → ∀ s, inv done s →
      Returns (rest.foldlM f s) (inv xs) := by
    intro rest
    induction rest with
    | nil =>
        intro done hxs s hs
        rw [List.append_nil] at hxs
        exact returns_pure (hxs ▸ hs)
    | cons x rest ih =>
        intro done hxs s hs
        rw [List.foldlM_cons]
        refine (hstep done x rest hxs s hs).bind ?_
        intro s' hs'
        exact ih (done ++ [x]) (by rw [hxs, List.append_assoc]; rfl) s' hs'
  exact hrest xs [] rfl s hstart

/-- **The rule for a loop** with an invariant of its state. -/
lemma foldlM_returns {f : σ → α → MayPanic σ} (inv : σ → Prop) {s : σ} (hstart : inv s)
    (hstep : ∀ x ∈ xs, ∀ s, inv s → Returns (f s x) inv) : Returns (xs.foldlM f s) inv := by
  refine foldlM_returns_done (fun _ => inv) hstart ?_
  intro done x rest hxs s hs
  have hx : x ∈ xs := by
    rw [hxs]
    exact List.mem_append_right _ List.mem_cons_self
  exact hstep x hx s hs

end Returns

/-! ## What is returned -/

/-- Whatever the program returns satisfies `post`. -/
def Yields (m : MayPanic α) (post : α → Prop) : Prop := ∀ a, m = .ok a → post a

section Yields

variable {m : MayPanic α} {f : α → MayPanic β} {p : α → Prop} {q : β → Prop} {a : α} {xs : List α}
  {i n : ℕ}

lemma yields_pure (h : p a) : Yields (pure a) p := by
  rintro _ ⟨⟩
  exact h

lemma yields_throw (panic : Panic) : Yields (throw panic) p := by
  rintro _ ⟨⟩

/-- **The rule for a step.** -/
lemma Yields.bind (h : Yields m p) (hf : ∀ a, p a → Yields (f a) q) : Yields (m >>= f) q := by
  cases m with
  | error panic => exact yields_throw panic
  | ok a => exact hf a (h a rfl)

lemma Yields.bind_eq (h : Yields m (· = a)) (hf : Yields (f a) q) : Yields (m >>= f) q := by
  refine h.bind ?_
  rintro _ rfl
  exact hf

lemma yields_ite {c : Prop} [Decidable c] {m' : MayPanic α} (ht : c → Yields m p)
    (he : ¬ c → Yields m' p) : Yields (if c then m else m') p := by
  split_ifs with h
  · exact ht h
  · exact he h

lemma yields_add (a b : ℕ) : Yields (add a b) (· = a + b) :=
  yields_ite (fun _ => yields_pure rfl) fun _ => yields_throw _

lemma yields_sub (a b : ℕ) : Yields (sub a b) (· = a - b) :=
  yields_ite (fun _ => yields_pure rfl) fun _ => yields_throw _

lemma yields_index (xs : List α) (i : ℕ) : Yields (index xs i) fun x => xs[i]? = some x := by
  rw [index]
  cases xs[i]? with
  | none => exact yields_throw _
  | some x => exact yields_pure rfl

lemma yields_upTo (xs : List α) (n : ℕ) : Yields (upTo xs n) (· = xs.take n) :=
  yields_ite (fun _ => yields_pure rfl) fun _ => yields_throw _

lemma yields_through (xs : List α) (i : ℕ) : Yields (through xs i) (· = xs.take (i + 1)) :=
  yields_ite (fun _ => yields_pure rfl) fun _ => yields_throw _

lemma yields_remove (xs : List α) (i : ℕ) :
    Yields (remove xs i) fun r => xs[i]? = some r.1 ∧ r.2 = xs.eraseIdx i := by
  rw [remove]
  cases xs[i]? with
  | none => exact yields_throw _
  | some x => exact yields_pure ⟨rfl, rfl⟩

/-- **The rule for a loop**: it returns what the loop does whose steps are without panic. -/
lemma foldlM_yields {f : σ → α → MayPanic σ} {g : σ → α → σ} (h : ∀ x ∈ xs, ∀ s,
    Yields (f s x) (· = g s x)) (s : σ) : Yields (xs.foldlM f s) (· = xs.foldl g s) := by
  induction xs generalizing s with
  | nil => exact yields_pure rfl
  | cons x xs ih =>
      rw [List.foldlM_cons, List.foldl_cons]
      refine (h x List.mem_cons_self s).bind_eq ?_
      exact ih (fun y hy => h y (List.mem_cons_of_mem x hy)) (g s x)

/-- A program that returns, and can return but one value. -/
lemma Returns.eq_ok (h : Returns m p) (ha : Yields m (· = a)) : m = .ok a := by
  rcases h with ⟨b, rfl, -⟩
  rw [ha b rfl]

end Yields

end Panics
