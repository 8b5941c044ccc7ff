import Radii.Head.Forwarded

/-!
# What a hop keeps to itself

A header is for one hop only if it is in the fixed list or if `Connection` names it, on any of its
lines.  `strip_hop_by_hop` reads the first of these lines, and only if all of it is text.

* `stripped_iff` — exactly which headers are stripped of all that is for one hop.
* `second_line_forwarded` — two that are not.
-/

namespace Radii

open Wire Http

/-! ## What is named -/

/-- The name is an element of the value, in any case. -/
def Lists (value : Bytes) (name : HeaderName) : Prop :=
  ∃ element ∈ elements value, lowerCase (chars element) = name.text

instance (value : Bytes) (name : HeaderName) : Decidable (Lists value name) := List.decidableBEx _ _

section Named

variable {H : HeaderMap}

/-- A `Connection` line names it. -/
def NamedByConnection (headers : H.Map) (name : HeaderName) : Prop :=
  ∃ value ∈ H.getAll headers connection, Lists (H.bytes value) name

instance (headers : H.Map) (name : HeaderName) : Decidable (NamedByConnection headers name) :=
  List.decidableBEx _ _

/-- It is for this hop only. -/
def ForOneHop (headers : H.Map) (name : HeaderName) : Prop :=
  name ∈ hopByHop ∨ NamedByConnection headers name

/-- Nothing that is for one hop is left, all lines of any other name are, and to strip the rest once
more changes nothing. -/
structure Stripped (headers out : H.Map) : Prop where
  gone : ∀ name, ForOneHop headers name → H.getAll out name = []
  kept : ∀ name, ¬ ForOneHop headers name → H.getAll out name = H.getAll headers name
  again : ∀ name, H.getAll (stripHopByHop H out) name = H.getAll out name

/-! ## What the code reads of it -/

/-- On visible bytes the blanks of a text are those of a list. -/
lemma isWhitespace_of_visible {b : UInt8} (h : visible b = true) :
    isWhitespace (Char.ofNat b.toNat) = blankByte b := by
  have hlt := toNat_lt_of_visible h
  simp only [visible, Bool.or_eq_true, Bool.and_eq_true, decide_eq_true_eq, beq_iff_eq,
    UInt8.le_iff_toNat_le, UInt8.lt_iff_toNat_lt, ← UInt8.toNat_inj] at h
  simp at h
  rw [isWhitespace, blankByte, toNat_charOfNat hlt, Bool.eq_iff_iff]
  simp only [Bool.or_eq_true, Bool.and_eq_true, decide_eq_true_eq, beq_iff_eq, ← UInt8.toNat_inj]
  simp
  omega

lemma comma_of_visible {b : UInt8} (h : visible b = true) :
    (Char.ofNat b.toNat == ',') = commaByte b := by
  have hlt := toNat_lt_of_visible h
  rw [commaByte, Bool.eq_iff_iff, beq_iff_eq, beq_iff_eq, ← UInt8.toNat_inj, ← Char.toNat_inj,
    toNat_charOfNat hlt]
  rfl

/-- In a text the tokens are the elements. -/
lemma mem_connectionTokens {value : Bytes} (hvisible : ∀ b ∈ value, visible b = true)
    (name : HeaderName) : name.text ∈ connectionTokens (chars value) ↔ Lists value name := by
  have hpieces : ∀ piece ∈ value.splitOnP commaByte,
      trim isWhitespace (chars piece) = chars (trim blankByte piece) := by
    intro piece hpiece
    exact trim_map fun b hb =>
      isWhitespace_of_visible (hvisible b (subset_of_mem_splitOnP hpiece hb))
  have hsplit : (chars value).splitOnP (· == ',') = (value.splitOnP commaByte).map chars :=
    splitOnP_map fun b hb => comma_of_visible (hvisible b hb)
  rw [connectionTokens, hsplit, List.map_map, List.mem_map, Lists]
  simp only [elements, elementsBy, List.mem_filter, List.mem_map, Bool.not_eq_true',
    List.isEmpty_eq_false_iff]
  constructor
  · rintro ⟨piece, hpiece, htext⟩
    rw [Function.comp_apply, hpieces piece hpiece] at htext
    refine ⟨trim blankByte piece, ⟨⟨piece, hpiece, rfl⟩, ?_⟩, htext⟩
    intro hnil
    rw [hnil] at htext
    exact name.nonempty htext.symm
  · rintro ⟨_, ⟨⟨piece, hpiece, rfl⟩, -⟩, htext⟩
    refine ⟨piece, hpiece, ?_⟩
    rw [Function.comp_apply, hpieces piece hpiece, htext]

variable {headers : H.Map} {name : HeaderName}

/-- What the code takes to be named: by the first line, if that is text. -/
lemma clientNames_iff : ClientNames headers name ↔
    ∃ first, H.get headers connection = some first ∧ H.Visible first ∧ Lists (H.bytes first) name := by
  rw [ClientNames]
  constructor
  · rintro ⟨text, htext, hmem⟩
    rcases Option.bind_eq_some_iff.mp htext with ⟨first, hfirst, hstr⟩
    rcases HeaderMap.toStr_eq_some.mp hstr with ⟨hvisible, rfl⟩
    exact ⟨first, hfirst, hvisible, (mem_connectionTokens hvisible name).mp hmem⟩
  · rintro ⟨first, hfirst, hvisible, hlists⟩
    refine ⟨chars (H.bytes first), ?_, (mem_connectionTokens hvisible name).mpr hlists⟩
    rw [hfirst, Option.bind_some]
    exact HeaderMap.toStr_eq_some.mpr ⟨hvisible, rfl⟩

lemma namedByConnection_of_clientNames (h : ClientNames headers name) :
    NamedByConnection headers name := by
  rcases clientNames_iff.mp h with ⟨first, hfirst, -, hlists⟩
  exact ⟨first, List.mem_of_head? hfirst, hlists⟩

lemma getAll_strip (headers : H.Map) (name : HeaderName) : H.getAll (stripHopByHop H headers) name =
    if name ∈ hopByHop ∨ ClientNames headers name then [] else H.getAll headers name := by
  rw [getAll_stripHopByHop]
  simp only [mem_connectionNamed]

/-- Once stripped, there is no `Connection` left to name anything. -/
lemma getAll_strip_strip (headers : H.Map) (name : HeaderName) :
    H.getAll (stripHopByHop H (stripHopByHop H headers)) name =
      H.getAll (stripHopByHop H headers) name := by
  have hnone : ¬ ClientNames (stripHopByHop H headers) name := by
    rw [clientNames_iff]
    rintro ⟨first, hfirst, -⟩
    have hgone : H.getAll (stripHopByHop H headers) connection = [] := by
      rw [getAll_strip, if_pos (Or.inl (by decide))]
    rw [HeaderMap.get, hgone] at hfirst
    exact absurd hfirst (by simp)
  rw [getAll_strip (stripHopByHop H headers)]
  by_cases hfixed : name ∈ hopByHop
  · rw [if_pos (Or.inl hfixed), getAll_strip, if_pos (Or.inl hfixed)]
  · rw [if_neg (not_or.mpr ⟨hfixed, hnone⟩)]

end Named

/-! ## When nothing is left -/

/-- **All that is for one hop is stripped** exactly if each header there is that some `Connection`
line names is in the fixed list, or is named by the first line and that is text. -/
theorem stripped_iff (H : HeaderMap) (headers : H.Map) :
    Stripped headers (stripHopByHop H headers) ↔
      ∀ name, NamedByConnection headers name → H.getAll headers name ≠ [] → name ∈ hopByHop ∨
        ∃ first, H.get headers connection = some first ∧ H.Visible first ∧
          Lists (H.bytes first) name := by
  simp only [← clientNames_iff]
  constructor
  · intro h name hnamed hpresent
    by_contra hleft
    have hgone := h.gone name (Or.inr hnamed)
    rw [getAll_strip, if_neg hleft] at hgone
    exact hpresent hgone
  · intro h
    refine ⟨?_, ?_, fun name => getAll_strip_strip headers name⟩
    · intro name hname
      rw [getAll_strip]
      split_ifs with hleft
      · rfl
      · rcases hname with hfixed | hnamed
        · exact absurd (Or.inl hfixed) hleft
        · by_contra hpresent
          exact hleft (h name hnamed hpresent)
    · intro name hname
      rw [getAll_strip, if_neg]
      rintro (hfixed | hnamed)
      · exact hname (Or.inl hfixed)
      · exact hname (Or.inr (namedByConnection_of_clientNames hnamed))

def xInternal : HeaderName := headerName "x-internal" (by decide)

/-- A request that names `X-Internal` on its second `Connection` line. -/
def secondLine : fieldLines.Map :=
  [(connection, ascii "close".toList), (connection, ascii "X-Internal".toList),
    (xInternal, ascii "1".toList)]

/-- One that names it on a line that is not all text. -/
def untextLine : fieldLines.Map :=
  [(connection, ascii "x-internal, ".toList ++ [0xe9]), (xInternal, ascii "1".toList)]

/-- What is named and not gone. -/
lemma not_stripped_of_left {H : HeaderMap} {headers out : H.Map} {name : HeaderName}
    (hnamed : NamedByConnection headers name) (hleft : H.getAll out name ≠ []) :
    ¬ Stripped headers out := by
  intro h
  exact hleft (h.gone name (Or.inr hnamed))

/-- **What is for one hop goes on to the next**: of both of these. -/
theorem second_line_forwarded :
    (NamedByConnection secondLine xInternal ∧
      (fieldLines.getAll (stripHopByHop fieldLines secondLine) xInternal).map fieldLines.bytes =
        [ascii "1".toList] ∧
      ¬ Stripped secondLine (stripHopByHop fieldLines secondLine)) ∧
    (NamedByConnection untextLine xInternal ∧
      (fieldLines.getAll (stripHopByHop fieldLines untextLine) xInternal).map fieldLines.bytes =
        [ascii "1".toList] ∧
      ¬ Stripped untextLine (stripHopByHop fieldLines untextLine)) := by
  have hsecond : NamedByConnection secondLine xInternal := by decide
  have huntext : NamedByConnection untextLine xInternal := by decide
  constructor
  · refine ⟨hsecond, by decide, ?_⟩
    exact not_stripped_of_left hsecond (by decide)
  · refine ⟨huntext, by decide, ?_⟩
    exact not_stripped_of_left huntext (by decide)

end Radii
