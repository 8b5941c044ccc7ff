import Radii.Foundations.Selection

/-!
# The cheapest paths, one after the other

A set of paths is ranked by accepting the cheapest first and then, again and again, the cheapest of
some candidates, each of which leaves the accepted paths somewhere.  This module says when the
candidates are enough, for paths over any vertices and with any costs.

`Known` is what holds of the accepted paths and the candidates at all times; `Covered r` says that
no path that leaves the accepted ones at the root `r` is cheaper than all candidates from there.  A
search at a root covers it (`Known.search`, `Known.exhausted`), accepting a candidate uncovers no
root but those it begins with (`Known.accept`, `Covered.accept`), and once all roots are covered the
cheapest candidate is a cheapest path (`covered_cheapest`).
-/

namespace Graphs

variable {α W : Type} [Preorder W]

/-- Paths that all begin at `s`, and none of which begins another. -/
structure Rooted (N : Set (List α)) (s : α) : Prop where
  head : ∀ p ∈ N, [s] <+: p
  prefixFree : ∀ p ∈ N, ∀ q ∈ N, p <+: q → p = q

/-- Some path of the list begins with `r`. -/
def Begun (ps : List (List α)) (r : List α) : Prop := ∃ p ∈ ps, r <+: p

/-- The path `q` leaves the paths `A` after the root `r`. -/
def Leaves (A : List (List α)) (q r : List α) : Prop :=
  r <+: q ∧ Begun A r ∧ ∀ y, r ++ [y] <+: q → ¬ Begun A (r ++ [y])

/-- Paths from `s` to `t` that visit no vertex twice. -/
lemma rooted_of_ends {N : Set (List α)} {s t : α}
    (h : ∀ p ∈ N, p.head? = some s ∧ p.getLast? = some t ∧ p.Nodup) : Rooted N s := by
  refine ⟨?_, ?_⟩
  · intro p hp
    obtain ⟨rest, rfl⟩ := List.head?_eq_some_iff.mp (h p hp).1
    exact ⟨rest, rfl⟩
  · intro p hp q hq hpq
    rcases hpq with ⟨rest, rfl⟩
    cases rest with
    | nil => rw [List.append_nil]
    | cons y rest =>
        -- the end of `p` would come again at the end of the longer path
        obtain ⟨-, hlast, hnodup⟩ := h _ hq
        rw [List.getLast?_append_of_ne_nil _ (List.cons_ne_nil y rest)] at hlast
        have hp : t ∈ p := List.mem_of_getLast? (h p hp).2.1
        exact absurd rfl ((List.nodup_append.mp hnodup).2.2 t hp t (List.mem_of_getLast? hlast))

lemma Begun.mono {ps ps' : List (List α)} {r : List α} (hsub : ps ⊆ ps') (h : Begun ps r) :
    Begun ps' r := by
  rcases h with ⟨p, hp, hr⟩
  exact ⟨p, hsub hp, hr⟩

lemma Begun.within {ps : List (List α)} {r r' : List α} (h : Begun ps r) (hr : r' <+: r) :
    Begun ps r' := by
  rcases h with ⟨p, hp, hrp⟩
  exact ⟨p, hp, hr.trans hrp⟩

/-- Two roots of one path, each with its next vertex: one is within the other. -/
lemma prefix_cases {r r' p : List α} {y y' : α} (h : r ++ [y] <+: p) (h' : r' ++ [y'] <+: p) :
    r' ++ [y'] <+: r ∨ r ++ [y] <+: r' ++ [y'] := by
  rcases List.prefix_or_prefix_of_prefix h' h with hle | hle
  · rcases List.prefix_concat_iff.mp hle with heq | hle
    · exact Or.inr (heq ▸ List.prefix_refl _)
    · exact Or.inl hle
  · exact Or.inr hle

section Known

variable (N : Set (List α)) (cost : List α → W)

/-- The candidate `c` leaves the accepted paths `A` at `r`, for `y`: it alone goes there, and no
path is cheaper that does. -/
structure Spur (A C : List (List α)) (c r : List α) (y : α) : Prop where
  begins : r ++ [y] <+: c
  root : Begun A r
  alone : ∀ p ∈ A ++ C, r ++ [y] <+: p → p = c
  least : ∀ q ∈ N, r ++ [y] <+: q → cost c ≤ cost q

/-- Accepted paths and candidates. -/
structure Known (A C : List (List α)) : Prop where
  nodup : (A ++ C).Nodup
  mem : ∀ p ∈ A ++ C, p ∈ N
  spur : ∀ c ∈ C, ∃ r y, Spur N cost A C c r y

/-- No path that leaves the accepted ones at `r` is cheaper than all candidates from there. -/
def Covered (A C : List (List α)) (r : List α) : Prop :=
  ∀ q ∈ N, q ∉ A → Leaves A q r → ∃ c ∈ C, r <+: c ∧ cost c ≤ cost q

end Known

variable {N : Set (List α)} {cost : List α → W} {s : α} {A C C' : List (List α)}
  {c p q r : List α} {y : α}

lemma Covered.mono (hsub : C ⊆ C') (h : Covered N cost A C r) : Covered N cost A C' r := by
  intro q hq hA hleaves
  obtain ⟨c, hc, hr, hcost⟩ := h q hq hA hleaves
  exact ⟨c, hsub hc, hr, hcost⟩

/-- A path outside `A` goes on after the root it leaves `A` at. -/
lemma Leaves.next (hN : Rooted N s) (hmem : ∀ p ∈ A, p ∈ N) (hq : q ∈ N) (hA : q ∉ A)
    (h : Leaves A q r) : ∃ y, r ++ [y] <+: q := by
  rcases h with ⟨⟨rest, rfl⟩, ⟨a, ha, hra⟩, -⟩
  cases rest with
  | nil =>
      rw [List.append_nil] at hq hA
      exact absurd (hN.prefixFree r hq a (hmem a ha) hra ▸ ha) hA
  | cons y rest => exact ⟨y, rest, by simp⟩

/-- Every path leaves the accepted ones somewhere. -/
lemma exists_leaves (hne : A ≠ []) (q : List α) : ∃ r, Leaves A q r := by
  classical
  let k := Nat.findGreatest (fun k => Begun A (q.take k)) q.length
  obtain ⟨a, ha⟩ := List.exists_mem_of_ne_nil A hne
  have hk : Begun A (q.take k) := by
    refine Nat.findGreatest_spec (P := fun k => Begun A (q.take k)) (Nat.zero_le _) ?_
    exact ⟨a, ha, by simp⟩
  refine ⟨q.take k, List.take_prefix _ _, hk, ?_⟩
  intro y hy hbegun
  have hlength : (q.take k ++ [y]).length = k + 1 := by
    have hle : k ≤ q.length := Nat.findGreatest_le _
    simp [hle]
  have htake : q.take k ++ [y] = q.take (k + 1) := by
    rw [← hlength]
    exact List.prefix_iff_eq_take.mp hy
  have hle : k + 1 ≤ q.length := by
    rw [← hlength]
    exact hy.length_le
  have hgreatest : k + 1 ≤ k :=
    Nat.le_findGreatest (P := fun k => Begun A (q.take k)) hle (htake ▸ hbegun)
  omega

/-! ## A search at a root -/

/-- Where a known path goes on from the root, a candidate covers what goes there. -/
lemma Known.candidate (h : Known N cost A C) (hroot : Begun A r) {z : α} (hqz : r ++ [z] <+: q)
    (hq : q ∈ N) (hnew : ¬ Begun A (r ++ [z])) (hbegun : Begun (A ++ C) (r ++ [z])) :
    ∃ c ∈ C, r <+: c ∧ cost c ≤ cost q := by
  rcases hbegun with ⟨k, hk, hkz⟩
  rcases List.mem_append.mp hk with hkA | hkC
  · exact absurd ⟨k, hkA, hkz⟩ hnew
  · obtain ⟨r', y', hspur⟩ := h.spur k hkC
    refine ⟨k, hkC, (List.prefix_append r [z]).trans hkz, ?_⟩
    rcases prefix_cases hkz hspur.begins with hle | hle
    · -- an accepted path would go where `k` alone goes
      rcases hroot with ⟨a, ha, hra⟩
      have hak : a = k := hspur.alone a (List.mem_append_left _ ha) (hle.trans hra)
      exact absurd (hak ▸ ha) (fun hA => (List.disjoint_of_nodup_append h.nodup) hA hkC)
    · rcases List.prefix_concat_iff.mp hle with heq | hle
      · exact hspur.least q hq (heq ▸ hqz)
      · exact absurd (hspur.root.within hle) hnew

/-- **A search that finds a path.**  The path leaves the root for a vertex no known path goes to,
and none of those that do is cheaper. -/
theorem Known.search (hN : Rooted N s) (h : Known N cost A C) (hroot : Begun A r) (hp : p ∈ N)
    (hpy : r ++ [y] <+: p) (hnew : ¬ Begun (A ++ C) (r ++ [y]))
    (hleast : ∀ q ∈ N, ∀ z, r ++ [z] <+: q → ¬ Begun (A ++ C) (r ++ [z]) → cost p ≤ cost q) :
    Known N cost A (C ++ [p]) ∧ Covered N cost A (C ++ [p]) r := by
  have hp_new : p ∉ A ++ C := fun hmem => hnew ⟨p, hmem, hpy⟩
  refine ⟨⟨?_, ?_, ?_⟩, fun q hq hA hleaves => ?_⟩
  · rw [← List.append_assoc]
    exact List.nodup_append.mpr ⟨h.nodup, List.nodup_singleton p, by
      rintro a ha b hb rfl
      exact hp_new (List.mem_singleton.mp hb ▸ ha)⟩
  · intro q hq
    rw [← List.append_assoc, List.mem_append, List.mem_singleton] at hq
    rcases hq with hq | rfl
    · exact h.mem q hq
    · exact hp
  · intro c hc
    rcases List.mem_append.mp hc with hold | hc
    · obtain ⟨r', y', hspur⟩ := h.spur c hold
      refine ⟨r', y', hspur.begins, hspur.root, ?_, hspur.least⟩
      intro k hk hky
      rw [← List.append_assoc, List.mem_append, List.mem_singleton] at hk
      rcases hk with hk | rfl
      · exact hspur.alone k hk hky
      · exfalso
        rcases prefix_cases hpy hky with hle | hle
        · rcases hroot with ⟨a, ha, hra⟩
          have hac : a = c := hspur.alone a (List.mem_append_left _ ha) (hle.trans hra)
          exact (List.disjoint_of_nodup_append h.nodup) ha (hac ▸ hold)
        · exact hnew ⟨c, List.mem_append_right _ hold, hle.trans hspur.begins⟩
    · rw [List.mem_singleton] at hc
      subst hc
      refine ⟨r, y, hpy, hroot, ?_, fun q hq hqy => hleast q hq y hqy hnew⟩
      intro k hk hky
      rw [← List.append_assoc, List.mem_append, List.mem_singleton] at hk
      rcases hk with hk | rfl
      · exact absurd ⟨k, hk, hky⟩ hnew
      · rfl
  · obtain ⟨z, hqz⟩ := hleaves.next hN (fun a ha => h.mem a (List.mem_append_left _ ha)) hq hA
    by_cases hbegun : Begun (A ++ C) (r ++ [z])
    · obtain ⟨c, hc, hrc, hcost⟩ := h.candidate hroot hqz hq (hleaves.2.2 z hqz) hbegun
      exact ⟨c, List.mem_append_left _ hc, hrc, hcost⟩
    · exact ⟨p, by simp, (List.prefix_append r [y]).trans hpy, hleast q hq z hqz hbegun⟩

/-- **A search that finds nothing.** -/
theorem Known.exhausted (hN : Rooted N s) (h : Known N cost A C) (hroot : Begun A r)
    (hnone : ∀ q ∈ N, ∀ z, r ++ [z] <+: q → Begun (A ++ C) (r ++ [z])) :
    Covered N cost A C r := by
  intro q hq hA hleaves
  obtain ⟨z, hqz⟩ := hleaves.next hN (fun a ha => h.mem a (List.mem_append_left _ ha)) hq hA
  exact h.candidate hroot hqz hq (hleaves.2.2 z hqz) (hnone q hq z hqz)

/-! ## Accepting a candidate -/

lemma Known.accept (h : Known N cost A C) (hperm : C.Perm (c :: C')) :
    Known N cost (A ++ [c]) C' := by
  have hall : (A ++ C).Perm (A ++ [c] ++ C') := by
    rw [List.append_assoc]
    exact hperm.append_left A
  refine ⟨hall.nodup_iff.mp h.nodup, fun p hp => h.mem p (hall.mem_iff.mpr hp), ?_⟩
  intro d hd
  obtain ⟨r, y, hspur⟩ := h.spur d (hperm.mem_iff.mpr (List.mem_cons_of_mem c hd))
  exact ⟨r, y, hspur.begins, hspur.root.mono (List.subset_append_left _ _),
    fun p hp => hspur.alone p (hall.mem_iff.mpr hp), hspur.least⟩

lemma Covered.accept (h : Covered N cost A C r) (hperm : C.Perm (c :: C')) (hr : ¬ r <+: c) :
    Covered N cost (A ++ [c]) C' r := by
  intro q hq hA hleaves
  rw [List.mem_append, List.mem_singleton, not_or] at hA
  rcases hleaves with ⟨hrq, ⟨a, ha, hra⟩, hlast⟩
  have hbegun : Begun A r := by
    rw [List.mem_append, List.mem_singleton] at ha
    rcases ha with ha | rfl
    · exact ⟨a, ha, hra⟩
    · exact absurd hra hr
  obtain ⟨d, hd, hrd, hcost⟩ := h q hq hA.1 ⟨hrq, hbegun, fun y hy hb =>
    hlast y hy (hb.mono (List.subset_append_left _ _))⟩
  rcases List.mem_cons.mp (hperm.mem_iff.mp hd) with rfl | hd
  · exact absurd hrd hr
  · exact ⟨d, hd, hrd, hcost⟩

/-- No path leaves the accepted ones at an accepted path, nor before its first vertex. -/
lemma covered_self (hN : Rooted N s) (hmem : ∀ p ∈ A, p ∈ N) (hp : p ∈ A) :
    Covered N cost A C p := by
  rintro q hq hA ⟨hpq, -⟩
  exact absurd (hN.prefixFree p (hmem p hp) q hq hpq ▸ hp) hA

lemma covered_nil (hN : Rooted N s) (hmem : ∀ p ∈ A, p ∈ N) (hne : A ≠ []) :
    Covered N cost A C [] := by
  rintro q hq - ⟨-, -, hlast⟩
  obtain ⟨a, ha⟩ := List.exists_mem_of_ne_nil A hne
  exact absurd ⟨a, ha, hN.head a (hmem a ha)⟩ (hlast s (hN.head q hq))

/-- **The cheapest candidate is a cheapest path**, once every root is covered. -/
theorem covered_cheapest (hne : A ≠ []) (hcovered : ∀ r, Covered N cost A C r) (hq : q ∈ N)
    (hA : q ∉ A) : ∃ c ∈ C, cost c ≤ cost q := by
  obtain ⟨r, hr⟩ := exists_leaves hne q
  obtain ⟨c, hc, -, hcost⟩ := hcovered r q hq hA hr
  exact ⟨c, hc, hcost⟩

/-! ## The ranking -/

/-- The list holds distinct paths of `N`, and no path left out is cheaper than one of them. -/
structure Ranked (N : Set (List α)) (cost : List α → W) (A : List (List α)) : Prop where
  nodup : A.Nodup
  mem : ∀ p ∈ A, p ∈ N
  least : ∀ p ∈ A, ∀ q ∈ N, q ∉ A → cost p ≤ cost q

lemma Ranked.concat (h : Ranked N cost A) (hp : p ∈ N) (hA : p ∉ A)
    (hleast : ∀ q ∈ N, q ∉ A → cost p ≤ cost q) : Ranked N cost (A ++ [p]) := by
  refine ⟨?_, ?_, ?_⟩
  · exact List.nodup_append.mpr ⟨h.nodup, List.nodup_singleton p, by
      rintro a ha b hb rfl
      exact hA (List.mem_singleton.mp hb ▸ ha)⟩
  · intro q hq
    rcases List.mem_append.mp hq with hq | hq
    · exact h.mem q hq
    · rwa [List.mem_singleton.mp hq]
  · intro a ha q hq hout
    have hqA : q ∉ A := fun hmem => hout (List.mem_append_left _ hmem)
    rcases List.mem_append.mp ha with ha | ha
    · exact h.least a ha q hq hqA
    · rw [List.mem_singleton.mp ha]
      exact hleast q hq hqA

/-- The `n` cheapest paths of `N`, in order; or all there are, if they are fewer. -/
structure Top (N : Set (List α)) (cost : List α → W) (n : ℕ) (A : List (List α)) : Prop
    extends Ranked N cost A where
  sorted : A.Pairwise fun p q => cost p ≤ cost q
  length : A.length ≤ n
  full : A.length < n → ∀ q ∈ N, q ∈ A

/-- The list holds `n` paths, or all there are. -/
lemma Top.count {n : ℕ} (h : Top N cost n A) : (A.length : ℕ∞) = min (n : ℕ∞) N.encard := by
  have hcard : {p | p ∈ A}.encard = A.length := Collections.encard_mem h.nodup
  rcases h.length.lt_or_eq with hlt | heq
  · have hall : N = {p | p ∈ A} := Set.Subset.antisymm (h.full hlt) h.mem
    rw [hall, hcard, min_eq_right (by exact_mod_cast h.length)]
  · have hle : {p | p ∈ A}.encard ≤ N.encard := Set.encard_le_encard h.mem
    rw [← heq, ← hcard, min_eq_left hle]

/-! ### There is one ranking by cost -/

/-- How many paths cost no more than the one at `i`: more than `i`. -/
lemma Top.cost_le_iff {n i : ℕ} (h : Top N cost n A) (hp : A[i]? = some p) (c : W) :
    cost p ≤ c ↔ (i : ℕ∞) < {q | q ∈ N ∧ cost q ≤ c}.encard := by
  obtain ⟨hi, rfl⟩ := List.getElem?_eq_some_iff.mp hp
  have hsorted := List.pairwise_iff_getElem.mp h.sorted
  constructor
  · intro hle
    have hsub : {q | q ∈ A.take (i + 1)} ⊆ {q | q ∈ N ∧ cost q ≤ c} := by
      intro q hq
      rcases List.getElem_of_mem hq with ⟨j, hj, rfl⟩
      rw [List.length_take] at hj
      rw [List.getElem_take]
      refine ⟨h.mem _ (List.getElem_mem _), ?_⟩
      rcases Nat.lt_or_ge j i with hlt | hge
      · exact (hsorted j i (by omega) hi hlt).trans hle
      · obtain rfl : j = i := by omega
        exact hle
    have hcard := Set.encard_le_encard hsub
    rw [Collections.encard_mem (h.nodup.sublist (List.take_sublist _ _)), List.length_take,
      min_eq_left (by omega)] at hcard
    exact lt_of_lt_of_le (by exact_mod_cast Nat.lt_succ_self i) hcard
  · intro hmany
    by_contra hgt
    -- what costs no more comes before the one at `i`
    have hsub : {q | q ∈ N ∧ cost q ≤ c} ⊆ {q | q ∈ A.take i} := by
      rintro q ⟨hq, hle⟩
      have hmem : q ∈ A := by
        by_contra hout
        exact hgt ((h.least _ (List.getElem_mem hi) q hq hout).trans hle)
      rcases List.getElem_of_mem hmem with ⟨j, hj, rfl⟩
      have hji : j < i := by
        by_contra hge
        rcases (not_lt.mp hge).lt_or_eq with hlt | rfl
        · exact hgt ((hsorted i j hi hj hlt).trans hle)
        · exact hgt hle
      exact List.mem_take_iff_getElem.mpr ⟨j, by omega, rfl⟩
    have hcard := Set.encard_le_encard hsub
    rw [Collections.encard_mem (h.nodup.sublist (List.take_sublist _ _)), List.length_take,
      min_eq_left hi.le] at hcard
    exact absurd (hmany.trans_le hcard) (lt_irrefl _)

lemma Top.length_eq {k n : ℕ} {B : List (List α)} (hA : Top N cost k A) (hB : Top N cost n B)
    (hle : k ≤ n) : A.length = min k B.length := by
  have heq : (A.length : ℕ∞) = min (k : ℕ∞) (B.length : ℕ∞) := by
    rw [hA.count, hB.count, ← min_assoc, min_eq_left (by exact_mod_cast hle : (k : ℕ∞) ≤ n)]
  rcases le_total k B.length with h | h
  · rw [min_eq_left (by exact_mod_cast h)] at heq
    rw [min_eq_left h]
    exact_mod_cast heq
  · rw [min_eq_right (by exact_mod_cast h)] at heq
    rw [min_eq_right h]
    exact_mod_cast heq

section Unique

variable {V : Type} [PartialOrder V] {N : Set (List α)} {cost : List α → V} {A B : List (List α)}
  {k n : ℕ}

lemma Top.cost_getElem (hA : Top N cost k A) (hB : Top N cost n B) {i : ℕ} (hi : i < A.length)
    (hi' : i < B.length) : cost A[i] = cost B[i] := by
  have hat : A[i]? = some A[i] := List.getElem?_eq_getElem hi
  have hbt : B[i]? = some B[i] := List.getElem?_eq_getElem hi'
  exact le_antisymm ((hA.cost_le_iff hat _).mpr ((hB.cost_le_iff hbt _).mp (le_refl _)))
    ((hB.cost_le_iff hbt _).mpr ((hA.cost_le_iff hat _).mp (le_refl _)))

/-- **The cheapest `k` cost what the first `k` of the cheapest `n` do.** -/
theorem Top.costs_eq_take (hA : Top N cost k A) (hB : Top N cost n B) (hle : k ≤ n) :
    A.map cost = (B.map cost).take k := by
  have hlength := hA.length_eq hB hle
  refine List.ext_getElem (by simp [hlength]) ?_
  intro i hi hi'
  rw [List.length_map] at hi
  rw [List.getElem_map, List.getElem_take, List.getElem_map]
  exact hA.cost_getElem hB hi (by omega)

/-- **Where no two paths cost the same, they are the same.** -/
theorem Top.eq_take (hA : Top N cost k A) (hB : Top N cost n B) (hle : k ≤ n)
    (hinj : Set.InjOn cost N) : A = B.take k := by
  have hlength := hA.length_eq hB hle
  refine List.ext_getElem (by simp [hlength]) ?_
  intro i hi hi'
  rw [List.getElem_take]
  have hi'' : i < B.length := by omega
  exact hinj (hA.mem _ (List.getElem_mem hi)) (hB.mem _ (List.getElem_mem hi''))
    (hA.cost_getElem hB hi hi'')

end Unique

end Graphs
