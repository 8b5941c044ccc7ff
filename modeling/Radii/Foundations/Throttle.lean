import Radii.Foundations.HashMap

/-!
# A table that limits how often something is granted

Something is granted to a key at most once in a gap of time, and to a bounded number of keys in that
gap.  The table holds the keys and the times of the latest grants; whoever is refused is not
recorded, and a full table forgets nobody early.

`Tracks` relates the table to all grants there have been: after each request it holds exactly those
less than a gap old.  `Spaced` is what that buys over every window of time, wherever it begins, and
`Tracks.allow` says all that one request can do.
-/

namespace Throttle

open Collections

variable {κ : Type}

/-- Whether `key` is granted something at `now`, recording it if so. -/
def allow [DecidableEq κ] (gap cap : ℕ) (table : HashMap κ ℕ) (key : κ) (now : ℕ) :
    HashMap κ ℕ × Bool :=
  let kept := table.retain fun _ time => decide (now - time < gap)
  if (kept.lookup key).isSome ∨ kept.len ≥ cap then (kept, false)
  else (kept.insert key now, true)

/-- The grants less than `gap` old. -/
def recent (gap now : ℕ) (grants : List (κ × ℕ)) : List (κ × ℕ) :=
  grants.filter fun grant => decide (now - grant.2 < gap)

/-- The grants of a window that begins at `start`. -/
def during (gap start : ℕ) (grants : List (κ × ℕ)) : List (κ × ℕ) :=
  grants.filter fun grant => decide (start ≤ grant.2 ∧ grant.2 < start + gap)

/-- The table, last asked at `now`, holds the recent ones of all grants. -/
structure Tracks (gap : ℕ) (table : HashMap κ ℕ) (grants : List (κ × ℕ)) (now : ℕ) : Prop where
  held : table.pairs.Perm (recent gap now grants)
  past : ∀ grant ∈ grants, grant.2 ≤ now

/-- Every window has at most one grant for each key, and at most `cap` in all. -/
structure Spaced (gap cap : ℕ) (grants : List (κ × ℕ)) : Prop where
  single : ∀ start, ((during gap start grants).map Prod.fst).Nodup
  few : ∀ start, (during gap start grants).length ≤ cap

variable {gap cap now before : ℕ} {table : HashMap κ ℕ} {grants : List (κ × ℕ)}

lemma tracks_empty (now : ℕ) : Tracks gap (∅ : HashMap κ ℕ) [] now :=
  ⟨List.Perm.refl _, by simp⟩

lemma spaced_nil : Spaced gap cap ([] : List (κ × ℕ)) :=
  ⟨fun _ => List.nodup_nil, fun _ => Nat.zero_le cap⟩

lemma during_append (start : ℕ) (grant : κ × ℕ) :
    during gap start (grants ++ [grant]) =
      during gap start grants ++ during gap start [grant] := List.filter_append _ _

lemma during_singleton (start : ℕ) (grant : κ × ℕ) :
    during gap start [grant] =
      if start ≤ grant.2 ∧ grant.2 < start + gap then [grant] else [] := by
  rw [during, List.filter_singleton]
  simp

/-- What a window that reaches to `now` has is recent. -/
lemma during_sublist (grants : List (κ × ℕ)) {start : ℕ} (hnow : now < start + gap) :
    (during gap start grants).Sublist (recent gap now grants) := by
  refine List.monotone_filter_right grants ?_
  intro grant h
  simp only [decide_eq_true_eq] at h ⊢
  omega

/-- A grant to a key that has none that is recent, while there are fewer than `cap`, keeps every
window within its bounds. -/
lemma Spaced.grant (h : Spaced gap cap grants) {key : κ}
    (hkey : key ∉ (recent gap now grants).map Prod.fst)
    (hfew : (recent gap now grants).length < cap) : Spaced gap cap (grants ++ [(key, now)]) := by
  constructor
  · intro start
    rw [during_append, during_singleton]
    split_ifs with hwindow
    · have hsub := during_sublist grants hwindow.2
      rw [List.map_append, List.map_singleton]
      refine List.nodup_append.mpr ⟨h.single start, List.nodup_singleton key, ?_⟩
      rintro earlier hearlier _ hlast rfl
      rw [List.mem_singleton.mp hlast] at hearlier
      exact hkey ((hsub.map Prod.fst).subset hearlier)
    · rw [List.append_nil]
      exact h.single start
  · intro start
    rw [during_append, during_singleton]
    split_ifs with hwindow
    · have hle := (during_sublist grants hwindow.2).length_le
      rw [List.length_append, List.length_singleton]
      exact hle.trans_lt hfew
    · rw [List.append_nil]
      exact h.few start

/-- The sweep at the beginning of a request leaves what is recent by then. -/
lemma Tracks.swept (h : Tracks gap table grants before) (hle : before ≤ now) :
    (table.retain fun _ time => decide (now - time < gap)).pairs.Perm
      (recent gap now grants) := by
  have hsame : recent gap now grants =
      (recent gap before grants).filter fun grant => decide (now - grant.2 < gap) := by
    rw [recent, recent, List.filter_filter]
    refine List.filter_congr ?_
    intro grant _
    rw [Bool.eq_iff_iff]
    simp only [Bool.and_eq_true, decide_eq_true_eq]
    omega
  rw [HashMap.pairs_retain, hsame]
  exact h.held.filter _

/-- The recent grants are to different keys. -/
lemma Tracks.nodup (h : Tracks gap table grants before) (hle : before ≤ now) :
    ((recent gap now grants).map Prod.fst).Nodup := by
  rw [← ((h.swept hle).map Prod.fst).nodup_iff, HashMap.pairs_keys]
  exact AList.keys_nodup _

/-- **What a request can do.**  It is granted and the grants stay spaced; or it is refused, because
its key was granted or `cap` keys were, less than a gap ago. -/
theorem Tracks.allow [DecidableEq κ] (h : Tracks gap table grants before)
    (hspaced : Spaced gap cap grants)
    (hgap : 0 < gap) (hle : before ≤ now) (key : κ) :
    ((Throttle.allow gap cap table key now).2 = true ∧
      Tracks gap (Throttle.allow gap cap table key now).1 (grants ++ [(key, now)]) now ∧
      Spaced gap cap (grants ++ [(key, now)])) ∨
    ((Throttle.allow gap cap table key now).2 = false ∧
      Tracks gap (Throttle.allow gap cap table key now).1 grants now ∧
      (key ∈ (recent gap now grants).map Prod.fst ∨ cap ≤ (recent gap now grants).length)) := by
  have hswept := h.swept hle
  have hpast : ∀ grant ∈ grants, grant.2 ≤ now :=
    fun grant hgrant => (h.past grant hgrant).trans hle
  set kept := table.retain fun _ time => decide (now - time < gap) with hkept
  have hheld : (kept.lookup key).isSome = true ↔ key ∈ (recent gap now grants).map Prod.fst := by
    rw [AList.lookup_isSome, AList.mem_keys, ← HashMap.pairs_keys,
      (hswept.map Prod.fst).mem_iff]
  have hlen : kept.len = (recent gap now grants).length := by
    rw [← hswept.length_eq, HashMap.pairs, List.length_map, HashMap.len]
  by_cases hrefused : (kept.lookup key).isSome ∨ kept.len ≥ cap
  · have hallow : Throttle.allow gap cap table key now = (kept, false) := if_pos hrefused
    rw [hallow]
    refine Or.inr ⟨rfl, ⟨hswept, hpast⟩, ?_⟩
    rwa [hheld, hlen] at hrefused
  · have hallow : Throttle.allow gap cap table key now = (kept.insert key now, true) :=
      if_neg hrefused
    rw [hallow]
    rw [hheld, hlen, not_or, not_le] at hrefused
    refine Or.inl ⟨rfl, ⟨?_, ?_⟩, hspaced.grant hrefused.1 hrefused.2⟩
    · have hnew : kept.lookup key = none := by
        rw [← Option.not_isSome_iff_eq_none, hheld]
        exact hrefused.1
      have hlast : recent gap now [(key, now)] = [(key, now)] := by simp [recent, hgap]
      rw [HashMap.pairs_insert_of_lookup_eq_none now hnew, recent, List.filter_append]
      rw [recent] at hlast hswept
      rw [hlast]
      exact (hswept.cons (key, now)).trans (List.perm_append_singleton _ _).symm
    · intro grant hgrant
      rcases List.mem_append.mp hgrant with hgrant | hgrant
      · exact hpast grant hgrant
      · rw [List.mem_singleton.mp hgrant]

end Throttle
