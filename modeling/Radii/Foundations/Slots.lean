import Radii.Foundations.HashMap

/-!
# Slots with a total cap and a cap for each key

A pool hands out slots to keys.  It keeps two tallies, one of all the slots that are out and one
for each key, and refuses a slot when either has reached its cap.  `Exact` is what such a pool
promises about the slots that are out: that its tallies are right (`Tallied`), which its operations
always keep, and that no key without a slot has an entry (`NoZeros`).

Acquiring creates the entry of its key before it looks at the key's cap.  An entry of zero is left
behind exactly when that cap is zero, and this is the one case the promise does not survive.
-/

namespace Collections

/-- The slots that are out, in total and for each key. -/
structure Slots (κ : Type) where
  total : ℕ
  perKey : HashMap κ ℕ

namespace Slots

variable {κ : Type} [DecidableEq κ]

def empty : Slots κ := ⟨0, ∅⟩

/-- Takes a slot for `key`, or refuses. -/
def acquire (maxTotal maxPerKey : ℕ) (key : κ) (s : Slots κ) : Slots κ × Bool :=
  if s.total ≥ maxTotal then (s, false)
  else
    let count := (s.perKey.lookup key).getD 0
    if count ≥ maxPerKey then ({ s with perKey := s.perKey.insert key count }, false)
    else (⟨s.total + 1, s.perKey.insert key (count + 1)⟩, true)

/-- Gives a slot of `key` back, and forgets the key with its last slot.  Both subtractions
saturate. -/
def release (key : κ) (s : Slots κ) : Slots κ where
  total := s.total - 1
  perKey :=
    match s.perKey.lookup key with
    | none => s.perKey
    | some count =>
        if count - 1 = 0 then s.perKey.erase key else s.perKey.insert key (count - 1)

/-- **What a pool promises** when the slots of `live` are out: both tallies are right, no key
without a slot has an entry, no cap is exceeded, giving a slot back never saturates, and a request
is refused exactly when a cap is met. -/
structure Exact (maxTotal maxPerKey : ℕ) (s : Slots κ) (live : List κ) : Prop where
  total : s.total = live.length
  perKey : ∀ k, s.perKey.lookup k = if live.count k = 0 then none else some (live.count k)
  total_le : s.total ≤ maxTotal
  perKey_le : ∀ k, live.count k ≤ maxPerKey
  released : ∀ k ∈ live, 1 ≤ s.total ∧ ∃ n, s.perKey.lookup k = some n ∧ 1 ≤ n
  refused : ∀ k, (s.acquire maxTotal maxPerKey k).2 = false ↔
    maxTotal ≤ live.length ∨ maxPerKey ≤ live.count k

/-- The tallies are right and no cap is exceeded, whatever entries there are besides. -/
structure Tallied (maxTotal maxPerKey : ℕ) (s : Slots κ) (live : List κ) : Prop where
  total : s.total = live.length
  count : ∀ k, (s.perKey.lookup k).getD 0 = live.count k
  total_le : live.length ≤ maxTotal
  perKey_le : ∀ k, live.count k ≤ maxPerKey

/-- No key has an entry of zero. -/
def NoZeros (s : Slots κ) : Prop := ∀ k, s.perKey.lookup k ≠ some 0

variable {maxTotal maxPerKey : ℕ} {s : Slots κ} {live : List κ}

/-! ## The tallies -/

lemma tallied_empty : (empty : Slots κ).Tallied maxTotal maxPerKey [] :=
  ⟨rfl, fun k => by simp [empty], by simp, by simp⟩

/-- Only how many slots each key has out matters. -/
lemma Tallied.perm (h : s.Tallied maxTotal maxPerKey live) {live' : List κ}
    (hp : live.Perm live') : s.Tallied maxTotal maxPerKey live' :=
  ⟨h.total.trans hp.length_eq, fun k => (h.count k).trans (hp.count_eq k),
    hp.length_eq ▸ h.total_le, fun k => hp.count_eq k ▸ h.perKey_le k⟩

/-- A request is refused exactly when a cap is met. -/
lemma Tallied.refused (h : s.Tallied maxTotal maxPerKey live) (key : κ) :
    (s.acquire maxTotal maxPerKey key).2 = false ↔
      maxTotal ≤ live.length ∨ maxPerKey ≤ live.count key := by
  rw [acquire, h.count, h.total]
  dsimp only
  split_ifs with htotal hkey
  · simp [htotal]
  · simp [hkey]
  · simp only [false_iff, not_or, not_le]
    exact ⟨by omega, by omega⟩

/-- A slot taken. -/
lemma Tallied.acquired (h : s.Tallied maxTotal maxPerKey live) {key : κ}
    (hok : (s.acquire maxTotal maxPerKey key).2 = true) :
    (s.acquire maxTotal maxPerKey key).1.Tallied maxTotal maxPerKey (key :: live) := by
  have hroom : live.length < maxTotal ∧ live.count key < maxPerKey := by
    have := (h.refused key).not
    rw [hok] at this
    simpa using this
  have hstep : s.acquire maxTotal maxPerKey key
      = (⟨s.total + 1, s.perKey.insert key (live.count key + 1)⟩, true) := by
    rw [acquire, h.count, if_neg (by rw [h.total]; omega), if_neg (by omega)]
  rw [hstep]
  refine ⟨by simp [h.total], ?_, by simpa using hroom.1, ?_⟩
  · intro k
    by_cases hk : k = key
    · subst hk
      simp
    · rw [HashMap.lookup_insert_of_ne hk, h.count k, List.count_cons_of_ne (Ne.symm hk)]
  · intro k
    by_cases hk : k = key
    · subst hk
      simpa using hroom.2
    · rw [List.count_cons_of_ne (Ne.symm hk)]
      exact h.perKey_le k

/-- A refusal. -/
lemma Tallied.refusal (h : s.Tallied maxTotal maxPerKey live) {key : κ}
    (hno : (s.acquire maxTotal maxPerKey key).2 = false) :
    (s.acquire maxTotal maxPerKey key).1.Tallied maxTotal maxPerKey live := by
  rw [acquire] at hno ⊢
  dsimp only at hno ⊢
  split_ifs at hno ⊢ with htotal hkey
  · exact h
  · refine ⟨h.total, fun k => ?_, h.total_le, h.perKey_le⟩
    by_cases hk : k = key
    · subst hk
      rw [AList.lookup_insert, Option.getD_some, h.count]
    · rw [HashMap.lookup_insert_of_ne hk, h.count]

/-- The entry of a key that has a slot. -/
lemma Tallied.lookup (h : s.Tallied maxTotal maxPerKey live) {key : κ} (hkey : key ∈ live) :
    s.perKey.lookup key = some (live.count key) := by
  have hcount := List.count_pos_iff.mpr hkey
  have hget := h.count key
  cases hentry : s.perKey.lookup key with
  | none =>
      rw [hentry, Option.getD_none] at hget
      omega
  | some count =>
      rw [hentry, Option.getD_some] at hget
      rw [hget]

/-- A slot given back. -/
lemma Tallied.released (h : s.Tallied maxTotal maxPerKey live) {key : κ} (hkey : key ∈ live) :
    (s.release key).Tallied maxTotal maxPerKey (live.erase key) := by
  have hlookup := h.lookup hkey
  have hlen := List.length_erase_of_mem hkey
  have hle := h.total_le
  refine ⟨?_, ?_, by omega, fun k => (List.erase_sublist.count_le k).trans (h.perKey_le k)⟩
  · show s.total - 1 = _
    rw [h.total, hlen]
  · intro k
    simp only [release, hlookup]
    by_cases hk : k = key
    · subst hk
      rw [List.count_erase_self]
      split_ifs with hlast
      · rw [AList.lookup_erase, hlast, Option.getD_none]
      · rw [AList.lookup_insert, Option.getD_some]
    · rw [List.count_erase_of_ne hk, ← h.count k]
      split_ifs with hlast
      · rw [AList.lookup_erase_ne hk]
      · rw [HashMap.lookup_insert_of_ne hk]

/-! ## The entries of zero -/

lemma noZeros_empty : (empty : Slots κ).NoZeros := fun k => by simp [empty]

/-- A request leaves none, if a refused key cannot be one without a slot. -/
lemma NoZeros.acquire (h : s.NoZeros) (hcap : maxTotal = 0 ∨ 0 < maxPerKey) (key : κ) :
    (s.acquire maxTotal maxPerKey key).1.NoZeros := by
  intro k
  rw [Slots.acquire]
  dsimp only
  split_ifs with htotal hkey
  · exact h k
  · by_cases hk : k = key
    · subst hk
      rw [AList.lookup_insert, ne_eq, Option.some.injEq]
      omega
    · rw [HashMap.lookup_insert_of_ne hk]
      exact h k
  · by_cases hk : k = key
    · subst hk
      simp
    · rw [HashMap.lookup_insert_of_ne hk]
      exact h k

/-- Nor does a slot that is given back. -/
lemma NoZeros.release (h : s.NoZeros) (key : κ) : (s.release key).NoZeros := by
  intro k
  rw [Slots.release]
  dsimp only
  cases hentry : s.perKey.lookup key with
  | none => exact h k
  | some count =>
      dsimp only
      by_cases hk : k = key
      · subst hk
        split_ifs with hlast
        · simp
        · simpa using hlast
      · split_ifs with hlast
        · rw [AList.lookup_erase_ne hk]
          exact h k
        · rw [HashMap.lookup_insert_of_ne hk]
          exact h k

/-! ## The promise -/

/-- **The tallies and no zeros** are the whole of the promise. -/
theorem exact_iff : s.Exact maxTotal maxPerKey live ↔
    s.Tallied maxTotal maxPerKey live ∧ s.NoZeros := by
  constructor
  · intro h
    refine ⟨⟨h.total, fun k => ?_, h.total ▸ h.total_le, h.perKey_le⟩, fun k => ?_⟩
    · rw [h.perKey k]
      split_ifs with hcount
      · exact hcount.symm
      · rfl
    · rw [h.perKey k]
      split_ifs with hcount
      · simp
      · simpa using hcount
  · rintro ⟨h, hzeros⟩
    refine ⟨h.total, fun k => ?_, h.total ▸ h.total_le, h.perKey_le, fun k hk => ?_, h.refused⟩
    · have hget := h.count k
      have hzero := hzeros k
      cases hentry : s.perKey.lookup k with
      | none => simp [← hget, hentry]
      | some count =>
          rw [hentry, Option.getD_some] at hget
          rw [hentry, ne_eq, Option.some.injEq] at hzero
          rw [← hget, if_neg hzero]
    · have hpos := List.count_pos_iff.mpr hk
      exact ⟨h.total ▸ List.length_pos_of_mem hk, live.count k, h.lookup hk, hpos⟩

/-- With a cap of zero for each key, a request is refused and leaves an entry of zero behind. -/
lemma acquire_zero (s : Slots κ) (key : κ) (htotal : s.total < maxTotal) (hcap : maxPerKey = 0)
    (hkey : s.perKey.lookup key = none) :
    (s.acquire maxTotal maxPerKey key).2 = false ∧
      (s.acquire maxTotal maxPerKey key).1.perKey.lookup key = some 0 := by
  subst hcap
  rw [acquire, if_neg (by omega), hkey]
  simp

/-- The first request is granted if both caps leave room for it. -/
lemma acquire_empty (key : κ) (htotal : 0 < maxTotal) (hkey : 0 < maxPerKey) :
    ((empty : Slots κ).acquire maxTotal maxPerKey key).2 = true := by
  rw [← Bool.not_eq_false, tallied_empty.refused key]
  simp
  omega

/-- An entry of zero breaks the promise, whatever slots are out. -/
lemma not_exact_of_zero {key : κ} (h : s.perKey.lookup key = some 0) :
    ¬ s.Exact maxTotal maxPerKey live := by
  intro hexact
  have hkey := hexact.perKey key
  rw [h] at hkey
  split_ifs at hkey with hcount
  exact hcount (Option.some.inj hkey).symm

end Slots

end Collections
