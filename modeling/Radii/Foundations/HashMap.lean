import Mathlib

/-!
# Hash maps

A hash map is an association list with distinct keys (`AList`), used through `lookup`, `insert`,
`erase` and the operations added here: its length, `retain`, and counting keys.  The order of the
list means nothing: a program that walks a hash map walks it in an order of its own, which
`IterOrder` makes a parameter, so that a result about a walk holds for every order.
-/

namespace Collections

/-- A map from `K` to `V` with finitely many entries, at most one for each key. -/
abbrev HashMap (K V : Type) := AList fun _ : K => V

namespace HashMap

variable {K V : Type}

/-- The entries, as pairs. -/
def pairs (m : HashMap K V) : List (K × V) := m.entries.map fun e => (e.1, e.2)

/-- How many entries the map holds. -/
def len (m : HashMap K V) : ℕ := m.entries.length

/-- Keeps the entries `keep` accepts. -/
def retain (keep : K → V → Bool) (m : HashMap K V) : HashMap K V :=
  ⟨m.entries.filter fun e => keep e.1 e.2, m.nodupKeys.sublist List.filter_sublist⟩

/-- How many keys satisfy `p`. -/
def countKeys (p : K → Bool) (m : HashMap K V) : ℕ := m.keys.countP p

/-- How many entries satisfy `p`. -/
def countEntries (p : K → V → Bool) (m : HashMap K V) : ℕ := m.entries.countP fun e => p e.1 e.2

lemma len_retain (keep : K → V → Bool) (m : HashMap K V) :
    (m.retain keep).len = m.countEntries keep :=
  (List.countP_eq_length_filter ..).symm

lemma countKeys_eq (p : K → Bool) (m : HashMap K V) :
    m.countKeys p = m.countEntries fun k _ => p k := by
  rw [countKeys, AList.keys, List.keys, List.countP_map]
  rfl

lemma countKeys_retain (p : K → Bool) (keep : K → V → Bool) (m : HashMap K V) :
    (m.retain keep).countKeys p = m.countEntries fun k v => p k && keep k v := by
  rw [countKeys_eq, countEntries, retain, List.countP_filter]
  rfl

lemma countEntries_le_len (p : K → V → Bool) (m : HashMap K V) : m.countEntries p ≤ m.len :=
  List.countP_le_length

lemma countEntries_mono {p q : K → V → Bool} (m : HashMap K V)
    (h : ∀ k v, p k v = true → q k v = true) : m.countEntries p ≤ m.countEntries q :=
  List.countP_mono_left fun e _ => h e.1 e.2

lemma pairs_keys (m : HashMap K V) : m.pairs.map Prod.fst = m.keys := by
  simp [pairs, AList.keys, List.keys, Function.comp_def]

lemma pairs_retain (keep : K → V → Bool) (m : HashMap K V) :
    (m.retain keep).pairs = m.pairs.filter fun p => keep p.1 p.2 := by
  rw [pairs, pairs, retain, List.filter_map]
  rfl

lemma pairs_nodup (m : HashMap K V) : m.pairs.Nodup :=
  List.Nodup.of_map Prod.fst (by rw [pairs_keys]; exact m.keys_nodup)

lemma len_eq (m : HashMap K V) : m.len = m.keys.length := by
  rw [len, AList.keys, List.keys, List.length_map]

variable [DecidableEq K]

@[simp] lemma mem_pairs {m : HashMap K V} {k : K} {v : V} :
    (k, v) ∈ m.pairs ↔ m.lookup k = some v := by
  rw [pairs, List.mem_map]
  constructor
  · rintro ⟨⟨k', v'⟩, hmem, he⟩
    simp only [Prod.mk.injEq] at he
    rcases he with ⟨rfl, rfl⟩
    exact AList.mem_lookup_iff.mpr hmem
  · intro h
    exact ⟨⟨k, v⟩, AList.mem_lookup_iff.mp h, rfl⟩

lemma lookup_retain (keep : K → V → Bool) (m : HashMap K V) (k : K) :
    (m.retain keep).lookup k = (m.lookup k).filter (keep k) := by
  ext v
  rw [← Option.mem_def, AList.mem_lookup_iff]
  simp only [retain, List.mem_filter, Option.filter_eq_some_iff]
  rw [← AList.mem_lookup_iff, Option.mem_def]

/-- A new key is added in front. -/
lemma pairs_insert_of_lookup_eq_none {m : HashMap K V} {k : K} (v : V) (h : m.lookup k = none) :
    pairs (m.insert k v) = (k, v) :: m.pairs := by
  rw [pairs, AList.entries_insert_of_notMem (AList.lookup_eq_none.mp h)]
  rfl

/-- A key that is there keeps its place among the keys. -/
lemma keys_insert_perm {m : HashMap K V} {k : K} (v : V) (h : m.lookup k ≠ none) :
    (AList.insert k v m).keys.Perm m.keys := by
  rw [AList.keys_insert]
  refine (List.perm_cons_erase ?_).symm
  rw [← AList.mem_keys]
  by_contra hmem
  exact h (AList.lookup_eq_none.mpr hmem)

lemma keys_insert_of_lookup_eq_none {m : HashMap K V} {k : K} (v : V) (h : m.lookup k = none) :
    (AList.insert k v m).keys = k :: m.keys := by
  rw [AList.keys_insert, List.erase_of_not_mem fun hmem => AList.lookup_eq_none.mp h hmem]

/-- An insertion leaves the other keys alone. -/
lemma lookup_insert_of_ne {m : HashMap K V} {k k' : K} {v : V} (h : k' ≠ k) :
    (m.insert k v).lookup k' = m.lookup k' :=
  AList.lookup_insert_ne h

end HashMap

/-- The order in which a program walks a hash map. -/
structure IterOrder (K V : Type) where
  list : HashMap K V → List (K × V)
  perm : ∀ m, (list m).Perm m.pairs

namespace IterOrder

variable {K V : Type}

/-- The order of the list itself. -/
def default : IterOrder K V := ⟨HashMap.pairs, fun _ => List.Perm.refl _⟩

lemma nodup (o : IterOrder K V) (m : HashMap K V) : (o.list m).Nodup :=
  (o.perm m).nodup_iff.mpr m.pairs_nodup

lemma keys_nodup (o : IterOrder K V) (m : HashMap K V) : ((o.list m).map Prod.fst).Nodup := by
  rw [((o.perm m).map Prod.fst).nodup_iff, HashMap.pairs_keys]
  exact m.keys_nodup

lemma mem [DecidableEq K] (o : IterOrder K V) {m : HashMap K V} {k : K} {v : V} :
    (k, v) ∈ o.list m ↔ m.lookup k = some v := by
  rw [(o.perm m).mem_iff, HashMap.mem_pairs]

end IterOrder

end Collections
