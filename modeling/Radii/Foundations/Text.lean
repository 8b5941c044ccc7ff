import Radii.Foundations.Net

/-!
# Texts

Texts are lists of characters.  `splitOnce` and `rsplitOnce` cut one at the first and at the last
occurrence of a character; `splitOnce_eq_some` and `rsplitOnce_eq_some` say where that is.

What a program prints is a list of pieces: texts, ends of lines, and changes of style.  It is `Clean`
if there are no control characters in the texts; then those that are printed are of the ends of lines
and the changes of style (`Clean.printed`).  `escaped_noControl` says how to show any text.
-/

namespace Text

/-! ## Cutting -/

/-- `str::split_once`: what is before the first `c`, and what is after it. -/
def splitOnce (c : Char) : List Char → Option (List Char × List Char)
  | [] => none
  | x :: xs => if x = c then some ([], xs) else (splitOnce c xs).map fun (a, b) => (x :: a, b)

/-- `str::rsplit_once`: the same at the last `c`. -/
def rsplitOnce (c : Char) (text : List Char) : Option (List Char × List Char) :=
  (splitOnce c text.reverse).map fun (a, b) => (b.reverse, a.reverse)

variable {c : Char} {text a b : List Char}

lemma splitOnce_eq_none : splitOnce c text = none ↔ c ∉ text := by
  induction text with
  | nil => simp [splitOnce]
  | cons x xs ih =>
      rw [splitOnce, List.mem_cons]
      split_ifs with hx
      · simp [hx]
      · rw [Option.map_eq_none_iff, ih]
        simp [Ne.symm hx]

lemma splitOnce_append (ha : c ∉ a) (b : List Char) : splitOnce c (a ++ c :: b) = some (a, b) := by
  induction a with
  | nil => rw [List.nil_append, splitOnce, if_pos rfl]
  | cons x a ih =>
      rw [List.mem_cons, not_or] at ha
      rw [List.cons_append, splitOnce, if_neg (Ne.symm ha.1), ih ha.2]
      rfl

/-- The first occurrence: there is none before it. -/
lemma splitOnce_eq_some : splitOnce c text = some (a, b) ↔ text = a ++ c :: b ∧ c ∉ a := by
  constructor
  · intro h
    induction text generalizing a with
    | nil => simp [splitOnce] at h
    | cons x xs ih =>
        rw [splitOnce] at h
        split_ifs at h with hx
        · simp only [Option.some.injEq, Prod.mk.injEq] at h
          rcases h with ⟨rfl, rfl⟩
          exact ⟨by rw [hx, List.nil_append], List.not_mem_nil⟩
        · rcases Option.map_eq_some_iff.mp h with ⟨⟨a', b'⟩, hsplit, heq⟩
          simp only [Prod.mk.injEq] at heq
          rcases heq with ⟨rfl, rfl⟩
          rcases ih hsplit with ⟨rfl, hfirst⟩
          refine ⟨rfl, ?_⟩
          rw [List.mem_cons, not_or]
          exact ⟨Ne.symm hx, hfirst⟩
  · rintro ⟨rfl, ha⟩
    exact splitOnce_append ha b

lemma rsplitOnce_eq_none : rsplitOnce c text = none ↔ c ∉ text := by
  rw [rsplitOnce, Option.map_eq_none_iff, splitOnce_eq_none, List.mem_reverse]

/-- The last occurrence: there is none after it. -/
lemma rsplitOnce_eq_some : rsplitOnce c text = some (a, b) ↔ text = a ++ c :: b ∧ c ∉ b := by
  rw [rsplitOnce, Option.map_eq_some_iff]
  constructor
  · rintro ⟨⟨a', b'⟩, hsplit, heq⟩
    simp only [Prod.mk.injEq] at heq
    rcases heq with ⟨rfl, rfl⟩
    rcases splitOnce_eq_some.mp hsplit with ⟨htext, hlast⟩
    refine ⟨?_, by rwa [List.mem_reverse]⟩
    rw [← text.reverse_reverse, htext]
    simp
  · rintro ⟨rfl, hb⟩
    refine ⟨(b.reverse, a.reverse), splitOnce_eq_some.mpr ⟨by simp, by rwa [List.mem_reverse]⟩, ?_⟩
    simp

/-! ## Control characters -/

/-- `char::is_control`. -/
def isControl (c : Char) : Bool := c.toNat < 0x20 || (0x7f ≤ c.toNat && c.toNat ≤ 0x9f)

def NoControl (text : List Char) : Prop := ∀ c ∈ text, isControl c = false

instance (text : List Char) : Decidable (NoControl text) := List.decidableBAll _ _

@[simp] lemma noControl_nil : NoControl [] := fun _ h => absurd h List.not_mem_nil

@[simp] lemma noControl_append : NoControl (a ++ b) ↔ NoControl a ∧ NoControl b :=
  List.forall_mem_append

@[simp] lemma noControl_flatMap {α : Type} {l : List α} {f : α → List Char} :
    NoControl (l.flatMap f) ↔ ∀ x ∈ l, NoControl (f x) := by
  simp only [NoControl, List.mem_flatMap]
  exact ⟨fun h x hx c hc => h c ⟨x, hx, hc⟩, fun h c ⟨x, hx, hc⟩ => h x hx c hc⟩

lemma noControl_replicate (n : ℕ) (hc : isControl c = false) :
    NoControl (List.replicate n c) := by
  intro c' hc'
  rw [List.eq_of_mem_replicate hc']
  exact hc

lemma noControl_toDigits {base : ℕ} (hbase : 1 < base) (hle : base ≤ 16) (n : ℕ) :
    NoControl (Nat.toDigits base n) := by
  have hdigit : ∀ d < 16, isControl (Nat.digitChar d) = false := by decide
  exact Net.forall_mem_toDigits hbase (fun d hd => hdigit d (hd.trans_le hle)) n

/-- `char::escape_default`, of a control character. -/
def escapeControl (c : Char) : List Char :=
  if c = '\t' then "\\t".toList
  else if c = '\r' then "\\r".toList
  else if c = '\n' then "\\n".toList
  else "\\u\x7b".toList ++ Nat.toDigits 16 c.toNat ++ "\x7d".toList

/-- Control characters are shown by their names. -/
def escaped (text : List Char) : List Char :=
  text.flatMap fun c => if isControl c then escapeControl c else [c]

lemma noControl_escapeControl (c : Char) : NoControl (escapeControl c) := by
  rw [escapeControl]
  split_ifs
  · decide
  · decide
  · decide
  · rw [noControl_append, noControl_append]
    exact ⟨⟨by decide, noControl_toDigits (by decide) (by decide) _⟩, by decide⟩

/-- **Nothing that is escaped is a control character.** -/
theorem escaped_noControl (text : List Char) : NoControl (escaped text) := by
  rw [escaped, noControl_flatMap]
  intro c _
  split_ifs with hc
  · exact noControl_escapeControl c
  · intro c' hc'
    rw [List.mem_singleton.mp hc']
    exact Bool.not_eq_true _ ▸ hc

/-! ## Printing -/

/-- A piece of what is printed. -/
inductive Piece (σ : Type) where
  | text (text : List Char)
  | newline
  | style (style : σ)

variable {σ : Type}

/-- What comes out, with the sequences that change the style. -/
def printed (sequence : σ → List Char) (out : List (Piece σ)) : List Char :=
  out.flatMap fun piece =>
    match piece with
    | .text text => text
    | .newline => ['\n']
    | .style style => sequence style

/-- No text has a control character in it. -/
def Clean (out : List (Piece σ)) : Prop := ∀ text, Piece.text text ∈ out → NoControl text

@[simp] lemma clean_nil : Clean ([] : List (Piece σ)) := fun _ h => absurd h List.not_mem_nil

@[simp] lemma clean_text {out : List (Piece σ)} :
    Clean (.text text :: out) ↔ NoControl text ∧ Clean out := by
  constructor
  · intro h
    exact ⟨h text List.mem_cons_self, fun t ht => h t (List.mem_cons_of_mem _ ht)⟩
  · rintro ⟨htext, hout⟩ t ht
    rcases List.mem_cons.mp ht with heq | ht
    · rw [Piece.text.inj heq]
      exact htext
    · exact hout t ht

@[simp] lemma clean_newline {out : List (Piece σ)} : Clean (.newline :: out) ↔ Clean out := by
  simp [Clean]

@[simp] lemma clean_style {style : σ} {out : List (Piece σ)} :
    Clean (.style style :: out) ↔ Clean out := by
  simp [Clean]

@[simp] lemma clean_append {out out' : List (Piece σ)} :
    Clean (out ++ out') ↔ Clean out ∧ Clean out' := by
  simp only [Clean, List.mem_append]
  exact ⟨fun h => ⟨fun t ht => h t (Or.inl ht), fun t ht => h t (Or.inr ht)⟩,
    fun h t ht => ht.elim (h.1 t) (h.2 t)⟩

@[simp] lemma clean_flatMap {α : Type} {l : List α} {f : α → List (Piece σ)} :
    Clean (l.flatMap f) ↔ ∀ x ∈ l, Clean (f x) := by
  simp only [Clean, List.mem_flatMap]
  exact ⟨fun h x hx t ht => h t ⟨x, hx, ht⟩, fun h t ⟨x, hx, ht⟩ => h x hx t ht⟩

/-- **The control characters printed** are of ends of lines and of changes of style. -/
theorem Clean.printed {out : List (Piece σ)} (h : Clean out) (sequence : σ → List Char) {c : Char}
    (hc : c ∈ printed sequence out) (hcontrol : isControl c = true) :
    c = '\n' ∨ ∃ style, Piece.style style ∈ out ∧ c ∈ sequence style := by
  rcases List.mem_flatMap.mp hc with ⟨piece, hpiece, hc⟩
  cases piece with
  | text text =>
      rw [h text hpiece c hc] at hcontrol
      exact absurd hcontrol (by simp)
  | newline => exact Or.inl (List.mem_singleton.mp hc)
  | style style => exact Or.inr ⟨style, hpiece, hc⟩

end Text
