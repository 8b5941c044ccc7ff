import Radii.Foundations.Text

/-!
# How the CLI writes

`crates/cli/src/brand.rs`: which terminals get colour, the colours, and how text that a peer wrote is
made safe to show (`untrusted_noControl`).  Formatted text is a list of pieces, of which only the
ends of lines and the changes of style have control characters.
-/

namespace Radii

namespace Cli

open Text

/-- The part of the environment that decides about colour. -/
structure Term where
  stdoutIsTty : Bool
  noColor : Bool
  term : Option String

namespace Term

def termIsDumb (t : Term) : Bool := t.term == some "dumb" || t.term == some ""

def color (t : Term) : Bool := t.stdoutIsTty && !t.noColor && !t.termIsDumb

end Term

/-! ## Colours -/

inductive Color where
  | reach
  | severed
  | unknown
  deriving DecidableEq, Repr

/-- A change of style; which sequence the terminal obeys for it is a matter of rendering. -/
inductive Style where
  | fg (color : Color)
  | bold
  | boldFg (color : Color)
  | reset
  deriving DecidableEq, Repr

/-- What the CLI prints. -/
abbrev Output := List (Piece Style)

/-- Text of the CLI's own. -/
def lit (text : String) : Piece Style := .text text.toList

def styled (style : Style) (on : Bool) (text : List Char) : Output :=
  if on then [.style style, .text text, .style .reset] else [.text text]

def tinted (text : List Char) (color : Color) (term : Term) : Output :=
  styled (.fg color) term.color text

/-- Dim text. -/
def dim (text : List Char) (term : Term) : Output := tinted text .unknown term

def heading (text : List Char) (term : Term) : Output := styled (.boldFg .unknown) term.color text

def literal (text : List Char) (term : Term) : Output := styled .bold term.color text

/-- The glyph for a reachability state; `none` is unprobed. -/
def reachGlyph (reachable : Option Bool) (term : Term) : Output :=
  match reachable with
  | some true => tinted [Char.ofNat 0x25cf] .reach term
  | some false => tinted [Char.ofNat 0x25d0] .severed term
  | none => tinted [Char.ofNat 0x25cb] .unknown term

/-- Text a peer wrote, made safe to put on a terminal. -/
def untrusted (text : List Char) : List Char :=
  if !text.any isControl then text else escaped text

/-! ## Padding -/

/-- `{:<width}`. -/
def padRight (width : ℕ) (text : List Char) : List Char :=
  text ++ List.replicate (width - text.length) ' '

/-- `{:>width}`. -/
def padLeft (width : ℕ) (text : List Char) : List Char :=
  List.replicate (width - text.length) ' ' ++ text

/-- `Vec::join`. -/
def join (separator : String) (texts : List (List Char)) : List Char :=
  separator.toList.intercalate texts

/-! ## What is clean -/

variable {text : List Char} {color : Color} {term : Term} {out : Output}

@[simp] lemma clean_lit (text : String) :
    Clean (lit text :: out) ↔ NoControl text.toList ∧ Clean out := clean_text

@[simp] lemma clean_styled {style : Style} {on : Bool} :
    Clean (styled style on text) ↔ NoControl text := by
  rw [styled]
  cases on with
  | false => simp
  | true => simp

@[simp] lemma clean_tinted : Clean (tinted text color term) ↔ NoControl text := clean_styled

@[simp] lemma clean_dim : Clean (dim text term) ↔ NoControl text := clean_styled

@[simp] lemma clean_heading : Clean (heading text term) ↔ NoControl text := clean_styled

@[simp] lemma clean_literal : Clean (literal text term) ↔ NoControl text := clean_styled

@[simp] lemma clean_reachGlyph (reachable : Option Bool) : Clean (reachGlyph reachable term) := by
  match reachable with
  | some true => exact clean_tinted.mpr (by decide)
  | some false => exact clean_tinted.mpr (by decide)
  | none => exact clean_tinted.mpr (by decide)

/-- **What a peer wrote is shown without control characters.** -/
@[simp] theorem untrusted_noControl (text : List Char) : NoControl (untrusted text) := by
  rw [untrusted]
  split_ifs with hclean
  · intro c hc
    simp only [Bool.not_eq_true', List.any_eq_false, Bool.not_eq_true] at hclean
    exact hclean c hc
  · exact escaped_noControl text

@[simp] lemma noControl_padRight {width : ℕ} : NoControl (padRight width text) ↔ NoControl text := by
  rw [padRight, noControl_append]
  exact and_iff_left (noControl_replicate _ (by decide))

@[simp] lemma noControl_padLeft {width : ℕ} : NoControl (padLeft width text) ↔ NoControl text := by
  rw [padLeft, noControl_append]
  exact and_iff_right (noControl_replicate _ (by decide))

/-- Joined texts are free of control characters exactly if each of them is. -/
lemma noControl_join {separator : String} (hseparator : NoControl separator.toList)
    {texts : List (List Char)} :
    NoControl (join separator texts) ↔ ∀ text ∈ texts, NoControl text := by
  rw [join]
  induction texts with
  | nil => simp
  | cons first texts ih =>
      match texts, ih with
      | [], _ => simp
      | second :: texts, ih =>
          rw [List.intercalate_cons_cons, noControl_append, noControl_append, ih,
            List.forall_mem_cons (a := first), and_assoc]
          exact and_congr_right fun _ => and_iff_right hseparator

@[simp] lemma noControl_number (n : ℕ) : NoControl (Nat.toDigits 10 n) :=
  noControl_toDigits (by decide) (by decide) n

end Cli

end Radii
