import Radii.Crawl.State

/-!
# The reachability table over a run

Any reports, one after the other, whoever they are from and whatever their clocks say, into a table
that starts empty.  `Capped` holds of every table reached: `record_report` refuses what would take it
over a ceiling, and an update does not make it larger.

* `reachability_table_capped` — the ceilings, and what one more report does to a table reached.
-/

namespace Radii

open Collections

namespace CrawlState

/-- A report, as it is recorded. -/
abbrev Call := ReachabilityKey × ReachabilityEntry

/-- The reports recorded one after the other. -/
def recordReports (s : CrawlState) (calls : List Call) : CrawlState :=
  calls.foldl (fun s call => (s.recordReport call.1 call.2).1) s

/-- The table is within both ceilings. -/
structure Capped (s : CrawlState) : Prop where
  len : s.reachability.len ≤ maxReachabilityEntries
  peer : ∀ fromId, s.peerEntries fromId ≤ maxReachabilityEntriesPerPeer

variable {s : CrawlState}

lemma capped_initial (nodeTtlMs : Option ℕ) (relayPeers : Finset String) :
    (initial nodeTtlMs relayPeers).Capped :=
  ⟨Nat.zero_le _, fun _ => Nat.zero_le _⟩

/-- A sweep only makes the table smaller. -/
lemma Capped.makeRoom (h : s.Capped) (now : ℕ) : (s.makeRoom now).Capped := by
  rw [CrawlState.makeRoom]
  split_ifs
  · refine ⟨?_, ?_⟩
    · rw [expireReports, HashMap.len_retain]
      exact (HashMap.countEntries_le_len _ _).trans h.len
    · intro fromId
      refine le_trans ?_ (h.peer fromId)
      rw [peerEntries, peerEntries, expireReports, HashMap.countKeys_retain, HashMap.countKeys_eq]
      exact HashMap.countEntries_mono _ fun _ _ hkept => (Bool.and_eq_true_iff.mp hkept).1
  · exact h

/-- An update leaves the keys as they were. -/
lemma Capped.update (h : s.Capped) {key : ReachabilityKey} (entry : ReachabilityEntry)
    (hkey : s.reachability.lookup key ≠ none) :
    ({ s with reachability := s.reachability.insert key entry } : CrawlState).Capped := by
  have hperm := HashMap.keys_insert_perm entry hkey
  refine ⟨?_, ?_⟩
  · rw [HashMap.len_eq, hperm.length_eq, ← HashMap.len_eq]
    exact h.len
  · intro fromId
    rw [peerEntries, HashMap.countKeys, hperm.countP_eq]
    exact h.peer fromId

/-- A new key has room. -/
lemma Capped.admit (h : s.Capped) {key : ReachabilityKey} (entry : ReachabilityEntry)
    (hkey : s.reachability.lookup key = none)
    (hlen : s.reachability.len < maxReachabilityEntries)
    (hpeer : s.peerEntries key.fromId < maxReachabilityEntriesPerPeer) :
    ({ s with reachability := s.reachability.insert key entry } : CrawlState).Capped := by
  have hkeys := HashMap.keys_insert_of_lookup_eq_none entry hkey
  refine ⟨?_, ?_⟩
  · rw [HashMap.len_eq, hkeys, List.length_cons, ← HashMap.len_eq]
    exact hlen
  · intro fromId
    rw [peerEntries, HashMap.countKeys, hkeys, List.countP_cons]
    by_cases hfrom : key.fromId = fromId
    · subst hfrom
      rw [if_pos (by simp)]
      exact hpeer
    · rw [if_neg (by simpa using hfrom)]
      exact h.peer fromId

/-- **One report keeps the ceilings.** -/
theorem Capped.recordReport (h : s.Capped) (key : ReachabilityKey) (entry : ReachabilityEntry) :
    (s.recordReport key entry).1.Capped := by
  rw [CrawlState.recordReport]
  cases hkey : s.reachability.lookup key with
  | some old => exact h.update entry (by simp [hkey])
  | none =>
      have hroom := h.makeRoom entry.lastSeenUnixMs
      have hnone : (s.makeRoom entry.lastSeenUnixMs).reachability.lookup key = none := by
        rcases lookup_makeRoom s entry.lastSeenUnixMs key with hsame | ⟨hnone, -⟩
        · rw [hsame, hkey]
        · exact hnone
      simp only
      split_ifs with htable hpeer
      · exact hroom
      · exact hroom
      · exact hroom.admit entry hnone (not_le.mp htable) (not_le.mp hpeer)

/-- **Every run does.** -/
theorem Capped.recordReports (h : s.Capped) (calls : List Call) : (s.recordReports calls).Capped := by
  induction calls generalizing s with
  | nil => exact h
  | cons call calls ih => exact ih (h.recordReport call.1 call.2)

lemma recordReports_nodeTtlMs (s : CrawlState) (calls : List Call) :
    (s.recordReports calls).nodeTtlMs = s.nodeTtlMs := by
  induction calls generalizing s with
  | nil => rfl
  | cons call calls ih => exact (ih _).trans (recordReport_upserted s call.1 call.2).nodeTtlMs

/-- What the ttl allows to be dropped. -/
lemma stale_iff {now lastSeen : ℕ} :
    s.stale now lastSeen = true ↔ ∃ ttl, s.nodeTtlMs = some ttl ∧ ttl < now - lastSeen := by
  rw [stale]
  cases s.nodeTtlMs with
  | none => simp
  | some ttl => simp

/-- A report under a key that is there replaces its entry and nothing else. -/
lemma recordReport_update (s : CrawlState) {key : ReachabilityKey} (entry : ReachabilityEntry)
    (hkey : s.reachability.lookup key ≠ none) :
    s.recordReport key entry = ({ s with reachability := s.reachability.insert key entry }, true) := by
  rcases Option.ne_none_iff_exists'.mp hkey with ⟨old, hold⟩
  rw [CrawlState.recordReport, hold]

/-- **The reachability table is a capped map.**  After any reports, each with a clock of its own, the
table is within both ceilings; and one report more replaces the entry of a key that is there, or
binds a new key if it is accepted, and of all else drops only what is older than the ttl. -/
theorem reachability_table_capped (nodeTtlMs : Option ℕ) (relayPeers : Finset String)
    (calls : List Call) :
    let s := (initial nodeTtlMs relayPeers).recordReports calls
    (s.reachability.len ≤ maxReachabilityEntries ∧
      ∀ fromId, s.peerEntries fromId ≤ maxReachabilityEntriesPerPeer) ∧
    ∀ (key : ReachabilityKey) (entry : ReachabilityEntry),
      let r := s.recordReport key entry
      (s.reachability.lookup key ≠ none → r.2 = true ∧
        ∀ k, k ≠ key → r.1.reachability.lookup k = s.reachability.lookup k) ∧
      (r.2 = true → r.1.reachability.lookup key = some entry) ∧
      (r.2 = false → r.1.reachability.lookup key = none) ∧
      ∀ k, k ≠ key → r.1.reachability.lookup k = s.reachability.lookup k ∨
        r.1.reachability.lookup k = none ∧ ∃ e ttl, s.reachability.lookup k = some e ∧
          nodeTtlMs = some ttl ∧ ttl < entry.lastSeenUnixMs - e.lastSeenUnixMs := by
  intro s
  have hcapped : s.Capped := (capped_initial nodeTtlMs relayPeers).recordReports calls
  have httl : s.nodeTtlMs = nodeTtlMs := recordReports_nodeTtlMs _ calls
  refine ⟨⟨hcapped.len, hcapped.peer⟩, ?_⟩
  intro key entry
  have hupserted := recordReport_upserted s key entry
  refine ⟨?_, hupserted.stored, fun h => (hupserted.refused h).2, ?_⟩
  · intro hkey
    rw [recordReport_update s entry hkey]
    exact ⟨rfl, fun k hk => HashMap.lookup_insert_of_ne hk⟩
  · intro k hk
    rcases hupserted.other k hk with hsame | ⟨hnone, e, he, hstale⟩
    · exact Or.inl hsame
    · rcases stale_iff.mp hstale with ⟨ttl, hsome, hold⟩
      exact Or.inr ⟨hnone, e, ttl, he, httl ▸ hsome, hold⟩

/-- A report and, with an earlier clock, another under its key. -/
theorem reachability_table_capped_update :
    let s := (initial (some 5) ∅).recordReports [(⟨"a", "b", "http"⟩, ⟨true, none, none, 7⟩)]
    s.reachability.lookup ⟨"a", "b", "http"⟩ = some ⟨true, none, none, 7⟩ ∧
    (s.recordReport ⟨"a", "b", "http"⟩ ⟨false, none, none, 3⟩).2 = true :=
  ⟨by decide, (((reachability_table_capped (some 5) ∅
    [(⟨"a", "b", "http"⟩, ⟨true, none, none, 7⟩)]).2 ⟨"a", "b", "http"⟩
      ⟨false, none, none, 3⟩).1 (by decide)).1⟩

end CrawlState

end Radii
