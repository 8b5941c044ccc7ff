import Mathlib

/-!
# Selecting the cheapest by key

To have the `n` cheapest of a list, but only one for each key: sort, keep the first of each key,
and cut off after `n`.  `selected_sort` says what is left, and `full_of_crowd` when all places
are taken.
-/

namespace Collections

variable {α κ W : Type} {key : α → κ} {score : α → W} {l A : List α} {n : ℕ}

section Distinct

variable [DecidableEq κ] {seen : List κ}

/-- Keeps the first element of each key that has not been seen. -/
def distinctBy (key : α → κ) : List κ → List α → List α
  | _, [] => []
  | seen, a :: l =>
      if key a ∈ seen then distinctBy key seen l else a :: distinctBy key (key a :: seen) l

lemma distinctBy_sublist : (distinctBy key seen l).Sublist l := by
  induction l generalizing seen with
  | nil => exact List.Sublist.slnil
  | cons a l ih =>
      rw [distinctBy]
      split_ifs
      · exact ih.cons a
      · exact ih.cons_cons a

/-- It does not matter what else the elements hold. -/
lemma map_distinctBy {β : Type} {key' : β → κ} {f : α → β} (hkey : ∀ a, key' (f a) = key a) :
    (distinctBy key seen l).map f = distinctBy key' seen (l.map f) := by
  induction l generalizing seen with
  | nil => rfl
  | cons a l ih =>
      rw [List.map_cons, distinctBy, distinctBy, hkey]
      split_ifs
      · exact ih
      · rw [List.map_cons, ih]

lemma distinctBy_unseen {a : α} (h : a ∈ distinctBy key seen l) : key a ∉ seen := by
  induction l generalizing seen with
  | nil => simp [distinctBy] at h
  | cons b l ih =>
      rw [distinctBy] at h
      split_ifs at h with hseen
      · exact ih h
      · rcases List.mem_cons.mp h with rfl | h
        · exact hseen
        · exact fun hmem => ih h (List.mem_cons_of_mem _ hmem)

lemma distinctBy_nodup : ((distinctBy key seen l).map key).Nodup := by
  induction l generalizing seen with
  | nil => exact List.nodup_nil
  | cons a l ih =>
      rw [distinctBy]
      split_ifs
      · exact ih
      · rw [List.map_cons, List.nodup_cons]
        refine ⟨?_, ih⟩
        intro hmem
        rcases List.mem_map.mp hmem with ⟨b, hb, heq⟩
        exact distinctBy_unseen hb (heq ▸ List.mem_cons_self)

variable [Preorder W]

/-- Of a sorted list the first of each key is the cheapest. -/
lemma exists_mem_distinctBy (hsorted : l.Pairwise fun a b => score a ≤ score b) {a : α}
    (ha : a ∈ l) (hseen : key a ∉ seen) :
    ∃ b ∈ distinctBy key seen l, key b = key a ∧ score b ≤ score a := by
  induction l generalizing seen with
  | nil => simp at ha
  | cons c l ih =>
      rw [List.pairwise_cons] at hsorted
      rw [distinctBy]
      rcases List.mem_cons.mp ha with rfl | ha
      · rw [if_neg hseen]
        exact ⟨a, List.mem_cons_self, rfl, le_refl _⟩
      split_ifs with hc
      · exact ih hsorted.2 ha hseen
      by_cases hkey : key c = key a
      · exact ⟨c, List.mem_cons_self, hkey, hsorted.1 a ha⟩
      · have hunseen : key a ∉ key c :: seen := by
          rw [List.mem_cons, not_or]
          exact ⟨Ne.symm hkey, hseen⟩
        obtain ⟨b, hb, hba, hle⟩ := ih hsorted.2 ha hunseen
        exact ⟨b, List.mem_cons_of_mem c hb, hba, hle⟩

end Distinct

/-- Something selected has the key and costs at most `c`; or all `n` places are taken by what costs
at most `c`. -/
def Placed [LE W] (score : α → W) (key : α → κ) (n : ℕ) (A : List α) (k : κ) (c : W) : Prop :=
  (∃ b ∈ A, key b = k ∧ score b ≤ c) ∨ A.length = n ∧ ∀ b ∈ A, score b ≤ c

lemma Placed.mono [Preorder W] {k : κ} {c c' : W} (hle : c ≤ c') (h : Placed score key n A k c) :
    Placed score key n A k c' := by
  rcases h with ⟨b, hb, hkey, hb_le⟩ | ⟨hfull, hall⟩
  · exact Or.inl ⟨b, hb, hkey, hb_le.trans hle⟩
  · exact Or.inr ⟨hfull, fun b hb => (hall b hb).trans hle⟩

/-- What is selected of `l`: at most `n`, each key once, and nothing left out that would have been
cheaper. -/
structure Selected [LE W] (score : α → W) (key : α → κ) (n : ℕ) (l A : List α) : Prop where
  mem : ∀ a ∈ A, a ∈ l
  nodup : (A.map key).Nodup
  length : A.length ≤ n
  placed : ∀ a ∈ l, Placed score key n A (key a) (score a)

lemma pairwise_insertionSort_score [LinearOrder W] (score : α → W) (l : List α) :
    (l.insertionSort fun a b => score a ≤ score b).Pairwise fun a b => score a ≤ score b := by
  have : Std.Total fun a b => score a ≤ score b := ⟨fun a b => le_total _ _⟩
  have : IsTrans α fun a b => score a ≤ score b := ⟨fun a b c => le_trans⟩
  exact List.pairwise_insertionSort _ l

/-- What is selected is in order. -/
lemma pairwise_selection [DecidableEq κ] [LinearOrder W] (score : α → W) (key : α → κ) (n : ℕ)
    (l : List α) :
    ((distinctBy key [] (l.insertionSort fun a b => score a ≤ score b)).take n).Pairwise
      fun a b => score a ≤ score b :=
  (pairwise_insertionSort_score score l).sublist ((List.take_sublist _ _).trans distinctBy_sublist)

/-- **Sort, keep the first of each key, cut off.** -/
theorem selected_sort [DecidableEq κ] [LinearOrder W] (score : α → W) (key : α → κ) (n : ℕ)
    (l : List α) :
    Selected score key n l
      ((distinctBy key [] (l.insertionSort fun a b => score a ≤ score b)).take n) := by
  have hsorted := pairwise_insertionSort_score score l
  have hdistinct : (distinctBy key [] (l.insertionSort fun a b => score a ≤ score b)).Pairwise
      fun a b => score a ≤ score b := hsorted.sublist distinctBy_sublist
  refine ⟨?_, ?_, List.length_take_le _ _, ?_⟩
  · intro a ha
    exact (List.mem_insertionSort _).mp (distinctBy_sublist.mem (List.mem_of_mem_take ha))
  · rw [List.map_take]
    exact distinctBy_nodup.sublist (List.take_sublist _ _)
  · intro a ha
    obtain ⟨b, hb, hkey, hle⟩ := exists_mem_distinctBy hsorted
      ((List.mem_insertionSort fun a b => score a ≤ score b).mpr ha) (List.not_mem_nil (a := key a))
    rw [← List.take_append_drop n (distinctBy key [] _)] at hb hdistinct
    rcases List.mem_append.mp hb with htaken | hdropped
    · exact Or.inl ⟨b, htaken, hkey, hle⟩
    · refine Or.inr ⟨?_, ?_⟩
      · have := List.length_pos_of_mem hdropped
        rw [List.length_drop] at this
        rw [List.length_take]
        omega
      · intro c hc
        exact ((List.pairwise_append.mp hdistinct).2.2 c hc b hdropped).trans hle

lemma encard_mem {l : List κ} (h : l.Nodup) : {k | k ∈ l}.encard = l.length := by
  classical
  have hset : {k | k ∈ l} = (l.toFinset : Set κ) := by
    ext k
    simp
  rw [hset, Set.encard_coe_eq_coe_finsetCard, List.toFinset_card_of_nodup h]

/-- **A crowd of keys.**  If as many keys as there are places are placed at `c`, then all places are
taken by what costs at most `c`. -/
theorem full_of_crowd [LE W] {K : Set κ} {c : W} (hnodup : (A.map key).Nodup)
    (hlength : A.length ≤ n) (hcrowd : n ≤ K.encard)
    (h : ∀ k ∈ K, Placed score key n A k c) : A.length = n ∧ ∀ b ∈ A, score b ≤ c := by
  by_contra hnot
  have hown : ∀ k ∈ K, ∃ b ∈ A, key b = k ∧ score b ≤ c :=
    fun k hk => (h k hk).resolve_right hnot
  have hsub : K ⊆ {k | k ∈ A.map key} := fun k hk => by
    obtain ⟨b, hb, rfl, -⟩ := hown k hk
    exact List.mem_map_of_mem hb
  have hcard : {k | k ∈ A.map key}.encard = A.length := by
    rw [encard_mem hnodup, List.length_map]
  have hfull : A.length = n := by
    have hle := hcrowd.trans (Set.encard_le_encard hsub)
    rw [hcard, Nat.cast_le] at hle
    omega
  -- every key selected is one of the crowd
  have hkeys : K = {k | k ∈ A.map key} :=
    (A.map key).finite_toSet.eq_of_subset_of_encard_le' hsub (by rw [hcard, hfull]; exact hcrowd)
  refine hnot ⟨hfull, ?_⟩
  intro b hb
  obtain ⟨b', hb', heq, hle⟩ := hown (key b) (hkeys ▸ List.mem_map_of_mem hb)
  rwa [List.inj_on_of_nodup_map hnodup hb' hb heq] at hle

end Collections
