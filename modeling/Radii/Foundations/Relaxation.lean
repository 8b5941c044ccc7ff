import Radii.Foundations.HashMap
import Radii.Foundations.Walks

/-!
# Shortest walks by layers

A table for each number of hops holds, for every vertex reached, the least cost of a walk of at
most that many edges and the edge it ended with.  `Layers` says how each table comes from the one
before, whatever order it is made in; `Layers.shortest` that the walks its parent links give are
shortest and visit no vertex twice, for costs that may be zero.
-/

namespace Collections.HashMap

variable {K V W : Type} [DecidableEq K] [LinearOrder W]

/-- Puts `v` under `k`, if there is nothing or something heavier. -/
def improve (weight : V → W) (m : HashMap K V) (k : K) (v : V) : HashMap K V :=
  match m.lookup k with
  | some old => if weight v < weight old then m.insert k v else m
  | none => m.insert k v

/-- Improves the map with every pair of the list. -/
def improveAll (weight : V → W) (m : HashMap K V) (ps : List (K × V)) : HashMap K V :=
  ps.foldl (fun m p => m.improve weight p.1 p.2) m

variable {weight : V → W} {m : HashMap K V} {k k' : K} {v v' : V}

@[simp] lemma improveAll_append (ps qs : List (K × V)) :
    m.improveAll weight (ps ++ qs) = (m.improveAll weight ps).improveAll weight qs :=
  List.foldl_append

lemma lookup_improve_of_ne (h : k' ≠ k) : (m.improve weight k v).lookup k' = m.lookup k' := by
  rw [improve]
  cases m.lookup k with
  | none => exact lookup_insert_of_ne h
  | some old =>
      simp only
      split_ifs
      · exact lookup_insert_of_ne h
      · rfl

/-- Under its own key an improvement leaves the old value, which is no heavier, or puts the new
one, which is lighter. -/
lemma lookup_improve_self (weight : V → W) (m : HashMap K V) (k : K) (v : V) :
    (∃ old, m.lookup k = some old ∧ (m.improve weight k v).lookup k = some old ∧
      weight old ≤ weight v) ∨
    (m.improve weight k v).lookup k = some v ∧ ∀ old, m.lookup k = some old →
      weight v < weight old := by
  rw [improve]
  cases hold : m.lookup k with
  | none => exact Or.inr ⟨AList.lookup_insert _, by simp⟩
  | some old =>
      simp only
      split_ifs with hlt
      · exact Or.inr ⟨AList.lookup_insert _, by simpa using hlt⟩
      · exact Or.inl ⟨old, rfl, hold, not_lt.mp hlt⟩

lemma improve_le (weight : V → W) (k : K) (v : V) (h : m.lookup k' = some v') :
    ∃ w, (m.improve weight k v).lookup k' = some w ∧ weight w ≤ weight v' := by
  by_cases hk : k' = k
  · subst hk
    rcases lookup_improve_self weight m k' v with
      ⟨old, hold, hnew, -⟩ | ⟨hnew, hlt⟩
    · rw [h, Option.some.injEq] at hold
      exact ⟨old, hnew, by rw [hold]⟩
    · exact ⟨v, hnew, (hlt v' h).le⟩
  · exact ⟨v', by rw [lookup_improve_of_ne hk, h], le_refl _⟩

/-- What an improved map holds under a key: what was there, or a lighter value of the list. -/
lemma lookup_improveAll {ps : List (K × V)} (h : (m.improveAll weight ps).lookup k = some v) :
    m.lookup k = some v ∨
      (k, v) ∈ ps ∧ ∀ old, m.lookup k = some old → weight v < weight old := by
  induction ps generalizing m with
  | nil => exact Or.inl h
  | cons p ps ih =>
      rcases p with ⟨k', v'⟩
      by_cases hk : k = k'
      · subst hk
        have hself := lookup_improve_self weight m k v'
        rcases ih h with hnow | ⟨hmem, hlt⟩
        · rcases hself with ⟨old, hold, hkept, -⟩ | ⟨hput, hlighter⟩
          · exact Or.inl (hold.trans (hkept.symm.trans hnow))
          · rw [hput, Option.some.injEq] at hnow
            subst hnow
            exact Or.inr ⟨List.mem_cons_self, hlighter⟩
        · refine Or.inr ⟨List.mem_cons_of_mem _ hmem, ?_⟩
          intro old hold
          obtain ⟨w, hw, hle⟩ := improve_le weight k v' hold
          exact (hlt w hw).trans_le hle
      · have hsame : (m.improve weight k' v').lookup k = m.lookup k := lookup_improve_of_ne hk
        rcases ih h with hnow | ⟨hmem, hlt⟩
        · exact Or.inl (hsame ▸ hnow)
        · exact Or.inr ⟨List.mem_cons_of_mem _ hmem, hsame ▸ hlt⟩

/-- Nothing under the key gets heavier, and it is no heavier than what the list has for it. -/
lemma improveAll_le (weight : V → W) {ps : List (K × V)}
    (h : m.lookup k = some v ∨ (k, v) ∈ ps) :
    ∃ w, (m.improveAll weight ps).lookup k = some w ∧ weight w ≤ weight v := by
  induction ps generalizing m v with
  | nil =>
      rcases h with h | h
      · exact ⟨v, h, le_refl _⟩
      · simp at h
  | cons p ps ih =>
      rcases p with ⟨k', v'⟩
      have hstep : (∃ w, (m.improve weight k' v').lookup k = some w ∧ weight w ≤ weight v) ∨
          (k, v) ∈ ps := by
        rcases h with h | h
        · exact Or.inl (improve_le weight k' v' h)
        · rcases List.mem_cons.mp h with heq | h
          · rw [Prod.mk.injEq] at heq
            rcases heq with ⟨rfl, rfl⟩
            rcases lookup_improve_self weight m k v with
              ⟨old, -, hkept, hle⟩ | ⟨hput, -⟩
            · exact Or.inl ⟨old, hkept, hle⟩
            · exact Or.inl ⟨v, hput, le_refl _⟩
          · exact Or.inr h
      rcases hstep with ⟨w, hw, hle⟩ | h
      · obtain ⟨w', hw', hle'⟩ := ih (Or.inl hw)
        exact ⟨w', hw', hle'.trans hle⟩
      · exact ih (Or.inr h)

end Collections.HashMap

namespace Graphs

open Collections

/-- The least cost found for a vertex; and, but for the vertex the search starts at, the edge it was
reached by and the layer in which the vertex before stands. -/
structure Cell (E C : Type) where
  cost : C
  parent : Option (E × ℕ)

variable {V E C : Type} [DecidableEq V] [AddCommMonoid C] [LinearOrder C]

/-- The tables of a search from `s`, one for each number of hops. -/
structure Layers (G : CostGraph V E C) (s : V) (T : ℕ → HashMap V (Cell E C)) : Prop where
  first : ∀ v cell, (T 0).lookup v = some cell ↔ v = s ∧ cell = ⟨0, none⟩
  next : ∀ h, ∃ ps, T (h + 1) = (T h).improveAll Cell.cost ps ∧ ∀ v cell, (v, cell) ∈ ps ↔
    ∃ e old, G.Has e ∧ (T h).lookup (G.src e) = some old ∧ v = G.dst e ∧
      cell = ⟨old.cost + G.cost e, some (e, h)⟩

/-- The walk `es` is the one the parent links give for `v` in layer `h`. -/
inductive Traced (G : CostGraph V E C) (s : V) (T : ℕ → HashMap V (Cell E C)) :
    ℕ → V → List E → Prop where
  | source {h cell} (hcell : (T h).lookup s = some cell) (hparent : cell.parent = none) :
      Traced G s T h s []
  | step {h v cell e l es} (hcell : (T h).lookup v = some cell)
      (hparent : cell.parent = some (e, l)) (hl : l < h) (hes : Traced G s T l (G.src e) es) :
      Traced G s T h v (es ++ [e])

variable {G : CostGraph V E C} {s : V} {T : ℕ → HashMap V (Cell E C)}

/-- A table lists every walk of its length, or a cheaper one. -/
lemma Layers.complete [IsOrderedCancelAddMonoid C] (hT : Layers G s T) {h : ℕ} {v : V}
    {es : List E} (hes : G.IsWalk s es v) (hlength : es.length ≤ h) :
    ∃ cell, (T h).lookup v = some cell ∧ cell.cost ≤ G.walkCost es := by
  induction h generalizing v es with
  | zero =>
      have hnil : es = [] := List.eq_nil_of_length_eq_zero (Nat.le_zero.mp hlength)
      subst hnil
      exact ⟨⟨0, none⟩, (hT.first v _).mpr ⟨hes.symm, rfl⟩, le_refl _⟩
  | succ h ih =>
      rcases hT.next h with ⟨ps, hnext, hps⟩
      rw [hnext]
      rcases es.eq_nil_or_concat with rfl | ⟨fs, e, rfl⟩
      · obtain ⟨cell, hcell, hle⟩ := ih hes (Nat.zero_le h)
        obtain ⟨w, hw, hle'⟩ := HashMap.improveAll_le Cell.cost (Or.inl hcell)
        exact ⟨w, hw, hle'.trans hle⟩
      · rw [List.concat_eq_append] at hes hlength ⊢
        rcases CostGraph.isWalk_concat.mp hes with ⟨hfs, he, rfl⟩
        rw [List.length_append, List.length_singleton] at hlength
        obtain ⟨old, hold, hle⟩ := ih hfs (Nat.le_of_succ_le_succ hlength)
        have hmem := (hps (G.dst e) _).mpr ⟨e, old, he, hold, rfl, rfl⟩
        obtain ⟨w, hw, hle'⟩ := HashMap.improveAll_le Cell.cost (m := T h) (Or.inr hmem)
        refine ⟨w, hw, hle'.trans ?_⟩
        rw [CostGraph.walkCost_append, CostGraph.walkCost_cons, CostGraph.walkCost_nil, add_zero]
        show old.cost + G.cost e ≤ _
        gcongr

/-- Every cell is the start's, or was put by an edge in some layer, where it was an improvement. -/
lemma Layers.origin (hT : Layers G s T) {h : ℕ} {v : V} {cell : Cell E C}
    (hcell : (T h).lookup v = some cell) :
    v = s ∧ cell = ⟨0, none⟩ ∨ ∃ l e old, l < h ∧ G.Has e ∧ v = G.dst e ∧
      (T l).lookup (G.src e) = some old ∧ cell = ⟨old.cost + G.cost e, some (e, l)⟩ ∧
      ∀ before, (T l).lookup v = some before → cell.cost < before.cost := by
  induction h with
  | zero => exact Or.inl ((hT.first v cell).mp hcell)
  | succ h ih =>
      rcases hT.next h with ⟨ps, hnext, hps⟩
      rw [hnext] at hcell
      rcases HashMap.lookup_improveAll hcell with hcell | ⟨hmem, hlt⟩
      · rcases ih hcell with hstart | ⟨l, e, old, hl, hrest⟩
        · exact Or.inl hstart
        · exact Or.inr ⟨l, e, old, Nat.lt_succ_of_lt hl, hrest⟩
      · obtain ⟨e, old, he, hold, hv, heq⟩ := (hps v cell).mp hmem
        exact Or.inr ⟨h, e, old, Nat.lt_succ_self h, he, hv, hold, heq, hlt⟩

section Simple

variable [IsOrderedCancelAddMonoid C] (hcost : ∀ e, 0 ≤ G.cost e)
include hcost

/-- **The walks the tables give.**  Every cell has one, of its cost and within its layer, that
visits no vertex twice. -/
theorem Layers.traced (hT : Layers G s T) {h : ℕ} {v : V} {cell : Cell E C}
    (hcell : (T h).lookup v = some cell) :
    ∃ es, Traced G s T h v es ∧ G.IsWalk s es v ∧ es.length ≤ h ∧ G.walkCost es = cell.cost ∧
      (G.vertices s es).Nodup := by
  induction h using Nat.strong_induction_on generalizing v cell with
  | _ h ih =>
      rcases hT.origin hcell with ⟨rfl, rfl⟩ | ⟨l, e, old, hl, he, rfl, hold, rfl, hbetter⟩
      · exact ⟨[], .source hcell rfl, rfl, Nat.zero_le h, rfl, List.nodup_singleton _⟩
      · obtain ⟨es, htraced, hwalk, hlength, hes, hnodup⟩ := ih l hl hold
        have hcost_eq : G.walkCost (es ++ [e]) = old.cost + G.cost e := by
          rw [CostGraph.walkCost_append, CostGraph.walkCost_cons, CostGraph.walkCost_nil, add_zero,
            hes]
        refine ⟨es ++ [e], .step hcell rfl hl htraced,
          CostGraph.isWalk_concat.mpr ⟨hwalk, he, rfl⟩, ?_, hcost_eq, ?_⟩
        · rw [List.length_append, List.length_singleton]
          omega
        · -- a walk that came by the vertex before would have been as good, one layer earlier
          have hnew : G.dst e ∉ G.vertices s es := fun hmem => by
            obtain ⟨fs, hfs, hfslength, hle⟩ := hwalk.upto hcost hmem
            obtain ⟨before, hbefore, hle'⟩ := hT.complete hfs (hfslength.trans hlength)
            refine absurd (hbetter before hbefore) (not_lt.mpr (hle'.trans (hle.trans ?_)))
            rw [hes]
            exact le_add_of_nonneg_right (hcost e)
          have hvertices : G.vertices s (es ++ [e]) = G.vertices s es ++ [G.dst e] := by
            simp [CostGraph.vertices]
          rw [hvertices]
          exact List.nodup_append.mpr ⟨hnodup, List.nodup_singleton _, by
            rintro a ha b hb rfl
            exact hnew (List.mem_singleton.mp hb ▸ ha)⟩

/-- **They are shortest.** -/
theorem Layers.shortest (hT : Layers G s T) {h : ℕ} {v : V} {cell : Cell E C}
    (hcell : (T h).lookup v = some cell) :
    ∃ es, Traced G s T h v es ∧ G.Shortest s v h es ∧ G.walkCost es = cell.cost ∧
      (G.vertices s es).Nodup := by
  obtain ⟨es, htraced, hwalk, hlength, hes, hnodup⟩ := hT.traced hcost hcell
  refine ⟨es, htraced, ⟨hwalk, hlength, ?_⟩, hes, hnodup⟩
  intro fs hfs hfslength
  obtain ⟨cell', hcell', hle⟩ := hT.complete hfs hfslength
  rw [hcell, Option.some.injEq] at hcell'
  rw [hes, hcell']
  exact hle

end Simple

end Graphs
