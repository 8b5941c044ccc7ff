import Radii.Foundations.Codec

/-!
# HTTP header fields

A header map is a multimap from field names to values: a name may stand on any number of lines.
`HeaderMap` is what is known of an implementation: what each operation does to the lines of each
name, how names and values are read from text, and which values are text.

`elements` reads a value as a comma-separated list.
-/

namespace Http

open Wire (Bytes)

/-! ## Comma-separated lists -/

section Lists

variable {α : Type} {blank comma : α → Bool}

/-- `char::is_whitespace`. -/
def isWhitespace (c : Char) : Bool :=
  let n := c.toNat
  (9 ≤ n && n ≤ 13) || n == 0x20 || n == 0x85 || n == 0xa0 || n == 0x1680 ||
    (0x2000 ≤ n && n ≤ 0x200a) || n == 0x2028 || n == 0x2029 || n == 0x202f || n == 0x205f ||
    n == 0x3000

/-- Without the blanks at both ends. -/
def trim (blank : α → Bool) (l : List α) : List α := (l.dropWhile blank).rdropWhile blank

lemma trim_eq_nil {l : List α} : trim blank l = [] ↔ ∀ a ∈ l, blank a = true := by
  rw [trim, List.rdropWhile_eq_nil_iff]
  constructor
  · intro h
    have hnil : l.dropWhile blank = [] := by
      by_contra hne
      have hhead := List.head_dropWhile_not blank hne
      rw [h _ (List.head_mem hne)] at hhead
      exact absurd hhead (by simp)
    exact List.dropWhile_eq_nil_iff.mp hnil
  · intro h a ha
    exact h a ((List.dropWhile_sublist _).subset ha)

lemma trim_eq_self {l : List α} (h : ∀ a ∈ l, blank a = false) : trim blank l = l := by
  cases l with
  | nil => rfl
  | cons a l =>
      rw [trim, List.dropWhile_cons_of_neg (by simp [h a List.mem_cons_self]),
        List.rdropWhile_eq_self_iff]
      intro hne
      simpa using h _ (List.getLast_mem hne)

/-- What stands between the commas, less the blanks around it and less what is empty then. -/
def elementsBy (comma blank : α → Bool) (line : List α) : List (List α) :=
  ((line.splitOnP comma).map (trim blank)).filter fun element => !element.isEmpty

lemma elementsBy_append_cons {c : α} (hc : comma c = true) (xs ys : List α) :
    elementsBy comma blank (xs ++ c :: ys) =
      elementsBy comma blank xs ++ elementsBy comma blank ys := by
  rw [elementsBy, List.splitOnP_append_cons xs ys hc, List.map_append, List.filter_append]
  rfl

/-- A word after blanks. -/
lemma elementsBy_word {blanks word : List α}
    (hblanks : ∀ a ∈ blanks, blank a = true ∧ comma a = false)
    (hword : ∀ a ∈ word, blank a = false ∧ comma a = false) (hne : word ≠ []) :
    elementsBy comma blank (blanks ++ word) = [word] := by
  have hcomma : ∀ a ∈ blanks ++ word, comma a = false := by
    intro a ha
    rcases List.mem_append.mp ha with ha | ha
    · exact (hblanks a ha).2
    · exact (hword a ha).2
  have htrim : trim blank (blanks ++ word) = word := by
    rw [trim, List.dropWhile_append_of_pos fun a ha => (hblanks a ha).1]
    exact trim_eq_self fun a ha => (hword a ha).1
  rw [elementsBy, List.splitOnP_eq_singleton hcomma, List.map_singleton, htrim]
  simpa using hne

lemma mem_splitOnP {a : α} {line : List α} (h : a ∈ line) (hcomma : comma a = false) :
    ∃ piece ∈ line.splitOnP comma, a ∈ piece := by
  induction line with
  | nil => exact absurd h List.not_mem_nil
  | cons b line ih =>
      rcases List.exists_cons_of_ne_nil (List.splitOnP_ne_nil comma line) with
        ⟨piece, pieces, hsplit⟩
      rw [List.splitOnP_cons_eq_if_modifyHead]
      rcases List.mem_cons.mp h with rfl | h
      · rw [hcomma, hsplit]
        exact ⟨a :: piece, by simp, by simp⟩
      · rcases ih h with ⟨found, hfound, ha⟩
        split_ifs
        · exact ⟨found, List.mem_cons_of_mem _ hfound, ha⟩
        · rw [hsplit] at hfound ⊢
          rcases List.mem_cons.mp hfound with rfl | hfound
          · exact ⟨b :: found, by simp, List.mem_cons_of_mem _ ha⟩
          · exact ⟨found, List.mem_cons_of_mem _ hfound, ha⟩

/-- A list with anything but commas and blanks in it is not empty. -/
lemma elementsBy_ne_nil {a : α} {line : List α} (h : a ∈ line) (hblank : blank a = false)
    (hcomma : comma a = false) : elementsBy comma blank line ≠ [] := by
  rcases mem_splitOnP h hcomma with ⟨piece, hpiece, ha⟩
  have hne : trim blank piece ≠ [] := by
    intro hnil
    rw [trim_eq_nil.mp hnil a ha] at hblank
    exact absurd hblank (by simp)
  refine List.ne_nil_of_mem (List.mem_filter.mpr ⟨List.mem_map_of_mem hpiece, ?_⟩)
  simpa using hne

/-- The pieces are of the list. -/
lemma subset_of_mem_splitOnP {piece line : List α} (h : piece ∈ line.splitOnP comma) :
    piece ⊆ line := by
  induction line generalizing piece with
  | nil =>
      rw [List.splitOnP_nil, List.mem_singleton] at h
      rw [h]
      exact List.Subset.refl _
  | cons b line ih =>
      rw [List.splitOnP_cons_eq_if_modifyHead] at h
      split_ifs at h
      · rcases List.mem_cons.mp h with rfl | h
        · exact List.nil_subset _
        · exact List.subset_cons_of_subset b (ih h)
      · rcases List.exists_cons_of_ne_nil (List.splitOnP_ne_nil comma line) with
          ⟨first, pieces, hsplit⟩
        rw [hsplit] at h ih
        rcases List.mem_cons.mp h with rfl | h
        · exact List.cons_subset_cons b (ih List.mem_cons_self)
        · exact List.subset_cons_of_subset b (ih (List.mem_cons_of_mem _ h))

variable {β : Type} {blank' comma' : β → Bool} {f : α → β}

/-- Splitting what is spelled in other letters. -/
lemma splitOnP_map {line : List α} (h : ∀ a ∈ line, comma' (f a) = comma a) :
    (line.map f).splitOnP comma' = (line.splitOnP comma).map (List.map f) := by
  induction line with
  | nil => simp
  | cons b line ih =>
      rw [List.map_cons, List.splitOnP_cons_eq_if_modifyHead, List.splitOnP_cons_eq_if_modifyHead,
        h b List.mem_cons_self, ih fun a ha => h a (List.mem_cons_of_mem _ ha)]
      split_ifs
      · rfl
      · cases line.splitOnP comma with
        | nil => rfl
        | cons piece pieces => rfl

lemma trim_map {line : List α} (h : ∀ a ∈ line, blank' (f a) = blank a) :
    trim blank' (line.map f) = (trim blank line).map f := by
  have hdrop : ∀ l : List α, (∀ a ∈ l, blank' (f a) = blank a) →
      (l.map f).dropWhile blank' = (l.dropWhile blank).map f := by
    intro l hl
    induction l with
    | nil => rfl
    | cons a l ih =>
        rw [List.map_cons, List.dropWhile_cons, List.dropWhile_cons, hl a List.mem_cons_self,
          ih fun b hb => hl b (List.mem_cons_of_mem _ hb)]
        split_ifs
        · rfl
        · rfl
  rw [trim, trim, List.rdropWhile, List.rdropWhile, hdrop line h, ← List.map_reverse, hdrop,
    List.map_reverse]
  intro a ha
  exact h a ((List.dropWhile_sublist _).subset (List.mem_reverse.mp ha))

end Lists

/-! ## Values -/

/-- Visible ASCII, or a tab. -/
def visible (b : UInt8) : Bool := (32 ≤ b && b < 127) || b == 9

/-- A text in ASCII, as bytes. -/
def ascii (text : List Char) : Bytes := text.map fun c => UInt8.ofNat c.toNat

/-- Visible bytes as a text. -/
def chars (bytes : Bytes) : List Char := bytes.map fun b => Char.ofNat b.toNat

/-- A text that can stand in a value. -/
def VisibleText (text : List Char) : Prop :=
  ∀ c ∈ text, c.toNat < 128 ∧ visible (UInt8.ofNat c.toNat) = true

lemma toNat_lt_of_visible {b : UInt8} (h : visible b = true) : b.toNat < 128 := by
  simp only [visible, Bool.or_eq_true, Bool.and_eq_true, decide_eq_true_eq, beq_iff_eq] at h
  rcases h with ⟨-, hlt⟩ | rfl
  · have : b.toNat < 127 := UInt8.lt_iff_toNat_lt.mp hlt
    omega
  · decide

lemma toNat_charOfNat {n : ℕ} (h : n < 128) : (Char.ofNat n).toNat = n := by
  have hvalid : n.isValidChar := Or.inl (by omega)
  simp [Char.ofNat, hvalid, Char.toNat, Char.ofNatAux]

lemma ascii_append (text text' : List Char) : ascii (text ++ text') = ascii text ++ ascii text' :=
  List.map_append

lemma ascii_chars {bytes : Bytes} (h : ∀ b ∈ bytes, visible b = true) :
    ascii (chars bytes) = bytes := by
  rw [ascii, chars, List.map_map]
  refine (List.map_congr_left ?_).trans (List.map_id bytes)
  intro b hb
  rw [Function.comp_apply, toNat_charOfNat (toNat_lt_of_visible (h b hb)), UInt8.ofNat_toNat, id]

lemma visibleText_chars {bytes : Bytes} (h : ∀ b ∈ bytes, visible b = true) :
    VisibleText (chars bytes) := by
  intro c hc
  rcases List.mem_map.mp hc with ⟨b, hb, rfl⟩
  have hlt := toNat_lt_of_visible (h b hb)
  rw [toNat_charOfNat hlt, UInt8.ofNat_toNat]
  exact ⟨hlt, h b hb⟩

lemma VisibleText.append {text text' : List Char} (h : VisibleText text) (h' : VisibleText text') :
    VisibleText (text ++ text') := by
  intro c hc
  rcases List.mem_append.mp hc with hc | hc
  · exact h c hc
  · exact h' c hc

def blankByte (b : UInt8) : Bool := b == 32 || b == 9

def commaByte (b : UInt8) : Bool := b == 44

/-- The elements of a value that is a list. -/
def elements (value : Bytes) : List Bytes := elementsBy commaByte blankByte value

lemma elements_append_comma (xs ys : Bytes) :
    elements (xs ++ 44 :: ys) = elements xs ++ elements ys := elementsBy_append_cons rfl xs ys

/-- A value that is no text has an element. -/
lemma elements_ne_nil_of_not_visible {value : Bytes} (h : ¬ ∀ b ∈ value, visible b = true) :
    elements value ≠ [] := by
  push Not at h
  rcases h with ⟨b, hb, hvisible⟩
  refine elementsBy_ne_nil hb ?_ ?_
  · rw [← Bool.not_eq_true]
    intro hblank
    have hcases : b = 32 ∨ b = 9 := by simpa [blankByte] using hblank
    rcases hcases with rfl | rfl <;> simp [visible] at hvisible
  · rw [← Bool.not_eq_true]
    intro hcomma
    obtain rfl : b = 44 := by simpa [commaByte] using hcomma
    simp [visible] at hvisible

/-! ## Names -/

/-- The characters of a field name, other than letters and digits. -/
def nameMarks : List Char :=
  ['!', '#', '$', '%', '&', Char.ofNat 39, '*', '+', '-', '.', '^', '_', Char.ofNat 96, '|', '~']

/-- The characters of a field name in lower case. -/
def nameChar (c : Char) : Bool := c.isLower || c.isDigit || nameMarks.contains c

/-- A field name, in lower case. -/
structure HeaderName where
  text : List Char
  chars : text.all nameChar = true
  nonempty : text ≠ []
  length_lt : text.length < 65536
  deriving DecidableEq

/-- Without regard to case. -/
def lowerCase (text : List Char) : List Char := text.map Char.toLower

lemma toLower_toLower (c : Char) : c.toLower.toLower = c.toLower := by
  simp only [Char.toLower]
  split_ifs with hupper htwice
  · simp only [ge_iff_le, UInt32.le_iff_toNat_le, UInt32.toNat_add] at hupper htwice
    simp at hupper htwice
    omega
  · rfl
  · rfl

lemma lowerCase_lowerCase (text : List Char) : lowerCase (lowerCase text) = lowerCase text := by
  rw [lowerCase, lowerCase, List.map_map]
  exact List.map_congr_left fun c _ => toLower_toLower c

/-! ## Header maps -/

/-- An implementation of header maps, as it is documented. -/
structure HeaderMap where
  Map : Type
  Value : Type
  bytes : Value → Bytes
  /-- The values on the lines of a name, in order. -/
  getAll : Map → HeaderName → List Value
  /-- Replaces the lines of a name by one. -/
  insert : Map → HeaderName → Value → Map
  /-- Removes all lines of a name. -/
  remove : Map → HeaderName → Map
  /-- A value made of a text. -/
  parse : List Char → Option Value
  /-- A name made of a text in any case. -/
  tryName : List Char → Option HeaderName
  getAll_insert : ∀ m name value name', getAll (insert m name value) name' =
    if name' = name then [value] else getAll m name'
  getAll_remove : ∀ m name name', getAll (remove m name) name' =
    if name' = name then [] else getAll m name'
  parse_visible : ∀ text, VisibleText text → ∃ value, parse text = some value ∧
    bytes value = ascii text
  tryName_text : ∀ text name, tryName text = some name → name.text = lowerCase text
  tryName_self : ∀ name : HeaderName, tryName name.text = some name

namespace HeaderMap

variable (H : HeaderMap)

/-- The value on the first line of a name. -/
def get (headers : H.Map) (name : HeaderName) : Option H.Value := (H.getAll headers name).head?

def Visible (value : H.Value) : Prop := ∀ b ∈ H.bytes value, visible b = true

instance (value : H.Value) : Decidable (H.Visible value) := List.decidableBAll _ _

/-- A value as a text, if it is one. -/
def toStr (value : H.Value) : Option (List Char) :=
  if H.Visible value then some (chars (H.bytes value)) else none

/-- The elements of all lines of a name, in order. -/
def allElements (headers : H.Map) (name : HeaderName) : List Bytes :=
  (H.getAll headers name).flatMap fun value => elements (H.bytes value)

variable {H}

lemma toStr_eq_some {value : H.Value} {text : List Char} :
    H.toStr value = some text ↔ H.Visible value ∧ text = chars (H.bytes value) := by
  rw [toStr]
  split_ifs with h
  · simp [h, eq_comm]
  · simp [h]

/-- Removing names one after another. -/
lemma getAll_foldl_remove (names : List HeaderName) (headers : H.Map) (name : HeaderName) :
    H.getAll (names.foldl H.remove headers) name =
      if name ∈ names then [] else H.getAll headers name := by
  induction names generalizing headers with
  | nil => simp
  | cons first names ih =>
      rw [List.foldl_cons, ih, H.getAll_remove]
      by_cases hname : name ∈ names
      · rw [if_pos hname, if_pos (List.mem_cons_of_mem _ hname)]
      · simp [hname]

end HeaderMap

/-! ### A list of lines -/

lemma toLower_of_nameChar {c : Char} (h : nameChar c = true) : c.toLower = c := by
  have hupper : c.isUpper = false := by
    simp only [nameChar, Bool.or_eq_true, List.contains_eq_mem, decide_eq_true_eq] at h
    rcases h with (h | h) | h
    · simp only [Char.isLower, Char.isUpper, Bool.and_eq_true, decide_eq_true_eq,
        decide_eq_false_iff_not, ge_iff_le, UInt32.le_iff_toNat_le] at h ⊢
      simp at h ⊢
      omega
    · simp only [Char.isDigit, Char.isUpper, Bool.and_eq_true, decide_eq_true_eq,
        decide_eq_false_iff_not, ge_iff_le, UInt32.le_iff_toNat_le] at h ⊢
      simp at h ⊢
      omega
    · fin_cases h <;> rfl
  rw [Char.toLower]
  split_ifs with h
  · exact absurd h (of_decide_eq_false hupper)
  · rfl

/-- What a value may consist of. -/
def validByte (b : UInt8) : Bool := (32 ≤ b && b != 127) || b == 9

lemma utf8EncodeChar_of_lt {c : Char} (h : c.toNat < 128) :
    String.utf8EncodeChar c = [UInt8.ofNat c.toNat] :=
  if_pos (Nat.le_of_lt_succ h)

lemma validByte_of_visible {b : UInt8} (h : visible b = true) : validByte b = true := by
  simp only [visible, validByte, Bool.or_eq_true, Bool.and_eq_true, decide_eq_true_eq, beq_iff_eq,
    bne_iff_ne] at h ⊢
  rcases h with ⟨hle, hlt⟩ | h
  · exact Or.inl ⟨hle, UInt8.ne_of_lt hlt⟩
  · exact Or.inr h

/-- The lines as they stand. -/
def fieldLines : HeaderMap where
  Map := List (HeaderName × Bytes)
  Value := Bytes
  bytes := id
  getAll headers name := (headers.filter fun line => line.1 = name).map Prod.snd
  insert headers name value := headers.filter (fun line => line.1 ≠ name) ++ [(name, value)]
  remove headers name := headers.filter fun line => line.1 ≠ name
  parse text :=
    let bytes := text.flatMap String.utf8EncodeChar
    if bytes.all validByte then some bytes else none
  tryName text :=
    let name := lowerCase text
    if h : name.all nameChar ∧ name ≠ [] ∧ name.length < 65536 then
      some ⟨name, h.1, h.2.1, h.2.2⟩
    else none
  getAll_insert := by
    intro headers name value name'
    rw [List.filter_append, List.filter_filter, List.map_append]
    by_cases h : name' = name
    · subst h
      simp
    · have hkept : (headers.filter fun line => decide (line.1 = name') && decide (line.1 ≠ name)) =
          headers.filter fun line => line.1 = name' := by
        refine List.filter_congr ?_
        intro line _
        by_cases hline : line.1 = name'
        · simp [hline, h]
        · simp [hline]
      rw [hkept, if_neg h]
      simp [Ne.symm h]
  getAll_remove := by
    intro headers name name'
    rw [List.filter_filter]
    by_cases h : name' = name
    · subst h
      simp
    · rw [if_neg h]
      refine congrArg _ (List.filter_congr ?_)
      intro line _
      by_cases hline : line.1 = name'
      · simp [hline, h]
      · simp [hline]
  parse_visible := by
    intro text htext
    have hbytes : text.flatMap String.utf8EncodeChar = ascii text := by
      rw [ascii, List.map_eq_flatMap]
      exact List.flatMap_congr fun c hc => utf8EncodeChar_of_lt (htext c hc).1
    have hvalid : (ascii text).all validByte = true := by
      rw [List.all_eq_true]
      intro b hb
      rcases List.mem_map.mp hb with ⟨c, hc, rfl⟩
      exact validByte_of_visible (htext c hc).2
    exact ⟨ascii text, by simp only [hbytes, hvalid, if_true], rfl⟩
  tryName_text := by
    intro text name h
    simp only at h
    split_ifs at h
    rw [← Option.some.inj h]
  tryName_self := by
    intro name
    have hlower : lowerCase name.text = name.text := by
      refine (List.map_congr_left ?_).trans (List.map_id _)
      intro c hc
      exact toLower_of_nameChar (List.all_eq_true.mp name.chars c hc)
    simp only [hlower]
    rw [dif_pos ⟨name.chars, name.nonempty, name.length_lt⟩]

end Http
