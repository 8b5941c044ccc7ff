import Radii.Crawl.State

/-!
# Which reports are refused

`record_report` sweeps stale observations out of a full table before it refuses a report, but counts
a peer's share of the table without a sweep.  So the refusal of a new key is not always the word of
what is still fresh:

* `recordReport_accepts` — when a report is stored.
* `recordReport_live_quota` — exactly when only fresh observations can have it refused.
* `expired_reports_lock_out` — observations that have expired lock their peer out.
-/

namespace Radii

open Collections

namespace CrawlState

/-! ## Counting what is fresh -/

/-- Whether something last seen at `lastSeen` is within the ttl at time `now`. -/
def fresh (ttl now lastSeen : ℕ) : Bool := decide (now - lastSeen ≤ ttl)

/-- How many stored observations are fresh. -/
def freshEntries (s : CrawlState) (ttl now : ℕ) : ℕ :=
  s.reachability.countEntries fun _ entry => fresh ttl now entry.lastSeenUnixMs

/-- How many of them come from `fromId`. -/
def freshPeerEntries (s : CrawlState) (ttl now : ℕ) (fromId : String) : ℕ :=
  s.reachability.countEntries fun key entry =>
    key.fromId == fromId && fresh ttl now entry.lastSeenUnixMs

variable {s : CrawlState} {ttl now : ℕ}

lemma not_stale (httl : s.nodeTtlMs = some ttl) (now lastSeen : ℕ) :
    (!s.stale now lastSeen) = fresh ttl now lastSeen := by
  rw [stale, httl, fresh, ← decide_not, decide_eq_decide]
  exact not_lt

lemma freshPeerEntries_le (s : CrawlState) (ttl now : ℕ) (fromId : String) :
    s.freshPeerEntries ttl now fromId ≤ s.freshEntries ttl now :=
  HashMap.countEntries_mono _ fun _ _ h => (Bool.and_eq_true_iff.mp h).2

/-- A sweep leaves what is fresh. -/
lemma len_expireReports (httl : s.nodeTtlMs = some ttl) (now : ℕ) :
    (s.expireReports now).reachability.len = s.freshEntries ttl now := by
  rw [expireReports, HashMap.len_retain, freshEntries]
  simp only [not_stale httl]

lemma peerEntries_expireReports (httl : s.nodeTtlMs = some ttl) (now : ℕ) (fromId : String) :
    (s.expireReports now).peerEntries fromId = s.freshPeerEntries ttl now fromId := by
  rw [peerEntries, expireReports, HashMap.countKeys_retain, freshPeerEntries]
  simp only [not_stale httl]

/-! ## Refusals -/

/-- **When a report is stored**: it is an update, or there is room for it after the sweep. -/
lemma recordReport_accepts (s : CrawlState) (key : ReachabilityKey) (entry : ReachabilityEntry) :
    (s.recordReport key entry).2 = true ↔ s.reachability.lookup key ≠ none ∨
      (s.makeRoom entry.lastSeenUnixMs).reachability.len < maxReachabilityEntries ∧
      (s.makeRoom entry.lastSeenUnixMs).peerEntries key.fromId < maxReachabilityEntriesPerPeer := by
  rw [recordReport]
  cases s.reachability.lookup key with
  | some old => simp
  | none =>
      simp only [ne_eq, not_true_eq_false, false_or]
      split_ifs with htable hpeer
      · simp only [false_iff, not_and]
        exact fun hlt => absurd hlt (not_lt.mpr htable)
      · simp only [false_iff, not_and]
        exact fun _ => not_lt.mpr hpeer
      · simp only [true_iff]
        exact ⟨not_le.mp htable, not_le.mp hpeer⟩

/-- A full table is swept before a new key is refused, and then only what is fresh counts. -/
lemma refused_of_full (httl : s.nodeTtlMs = some ttl)
    (hfull : maxReachabilityEntries ≤ s.reachability.len) {key : ReachabilityKey}
    {entry : ReachabilityEntry} (h : (s.recordReport key entry).2 = false) :
    maxReachabilityEntries ≤ s.freshEntries ttl entry.lastSeenUnixMs ∨
      maxReachabilityEntriesPerPeer ≤
        s.freshPeerEntries ttl entry.lastSeenUnixMs key.fromId := by
  have hroom : s.makeRoom entry.lastSeenUnixMs = s.expireReports entry.lastSeenUnixMs :=
    if_pos hfull
  rw [← Bool.not_eq_true, recordReport_accepts, hroom, len_expireReports httl,
    peerEntries_expireReports httl, not_or, not_and_or, not_lt, not_lt] at h
  exact h.2

/-- In a table with room a new key is refused for the peer's share alone. -/
lemma refused_of_room (hroom : s.reachability.len < maxReachabilityEntries) (key : ReachabilityKey)
    (entry : ReachabilityEntry) :
    (s.recordReport key entry).2 = false ↔ s.reachability.lookup key = none ∧
      maxReachabilityEntriesPerPeer ≤ s.peerEntries key.fromId := by
  have hsame : s.makeRoom entry.lastSeenUnixMs = s := if_neg (not_le.mpr hroom)
  rw [← Bool.not_eq_true, recordReport_accepts, hsame, not_or, not_not, not_and_or, not_lt, not_lt]
  constructor
  · rintro ⟨hkey, hfull | hpeer⟩
    · exact absurd hroom (not_lt.mpr hfull)
    · exact ⟨hkey, hpeer⟩
  · rintro ⟨hkey, hpeer⟩
    exact ⟨hkey, Or.inr hpeer⟩

/-- **Only fresh observations have a report refused**, exactly when it is an update, the table is
full (and so is swept), or the peer's share is not used up by observations of which some have
expired. -/
theorem recordReport_live_quota (s : CrawlState) (ttl : ℕ) (httl : s.nodeTtlMs = some ttl)
    (key : ReachabilityKey) (entry : ReachabilityEntry) :
    ((s.recordReport key entry).2 = false →
      maxReachabilityEntries ≤ s.freshEntries ttl entry.lastSeenUnixMs ∨
      maxReachabilityEntriesPerPeer ≤ s.freshPeerEntries ttl entry.lastSeenUnixMs key.fromId) ↔
    (s.reachability.lookup key ≠ none ∨ maxReachabilityEntries ≤ s.reachability.len ∨
      s.peerEntries key.fromId < maxReachabilityEntriesPerPeer ∨
      maxReachabilityEntriesPerPeer ≤ s.freshPeerEntries ttl entry.lastSeenUnixMs key.fromId) := by
  rcases le_or_gt maxReachabilityEntries s.reachability.len with hfull | hroom
  · exact iff_of_true (refused_of_full httl hfull) (Or.inr (Or.inl hfull))
  · have htable : s.freshEntries ttl entry.lastSeenUnixMs < maxReachabilityEntries :=
      (HashMap.countEntries_le_len _ _).trans_lt hroom
    rw [refused_of_room hroom key entry]
    constructor
    · intro h
      by_contra hnot
      simp only [not_or, not_not, not_lt, not_le] at hnot
      rcases hnot with ⟨hkey, -, hpeer, hfresh⟩
      rcases h ⟨hkey, hpeer⟩ with h | h
      · exact absurd htable (not_lt.mpr h)
      · exact absurd hfresh (not_lt.mpr h)
    · rintro (hkey | hfull | hpeer | hfresh) ⟨hnone, hshare⟩
      · exact absurd hnone hkey
      · exact absurd hroom (not_lt.mpr hfull)
      · exact absurd hpeer (not_lt.mpr hshare)
      · exact Or.inr hfresh

/-! ## A peer locked out -/

/-- One peer's reports about the keys, all seen at one time. -/
def reportAll (entry : ReachabilityEntry) (s : CrawlState) (keys : List ReachabilityKey) :
    CrawlState :=
  keys.foldl (fun s key => (s.recordReport key entry).1) s

/-- Reports under different keys are all stored while there is room for them. -/
lemma reportAll_entries (entry : ReachabilityEntry) (s : CrawlState) (hs : s.reachability = ∅)
    {keys : List ReachabilityKey} (hnodup : keys.Nodup)
    (hlength : keys.length ≤ maxReachabilityEntriesPerPeer) :
    (reportAll entry s keys).reachability.entries = (keys.map fun key => ⟨key, entry⟩).reverse ∧
      (reportAll entry s keys).nodeTtlMs = s.nodeTtlMs := by
  induction keys using List.reverseRecOn with
  | nil => exact ⟨by simp [reportAll, hs], rfl⟩
  | append_singleton keys key ih =>
      rw [List.length_append, List.length_singleton] at hlength
      rw [List.nodup_append] at hnodup
      obtain ⟨hentries, httl⟩ := ih hnodup.1 (by omega)
      have hstep : reportAll entry s (keys ++ [key]) =
          ((reportAll entry s keys).recordReport key entry).1 := by
        rw [reportAll, List.foldl_append]
        rfl
      have hnew : key ∉ (reportAll entry s keys).reachability := by
        rw [AList.mem_keys, AList.keys, hentries, List.keys]
        simpa using fun h => hnodup.2.2 key h key (List.mem_singleton_self key) rfl
      have hlen : (reportAll entry s keys).reachability.len = keys.length := by
        rw [HashMap.len, hentries]
        simp
      have hpeer : (reportAll entry s keys).peerEntries key.fromId ≤ keys.length := by
        rw [← hlen, peerEntries, HashMap.countKeys_eq]
        exact HashMap.countEntries_le_len _ _
      have hroom : (reportAll entry s keys).reachability.len < maxReachabilityEntries := by
        rw [hlen]
        exact (Nat.lt_of_succ_le hlength).trans (by decide)
      have hsame : (reportAll entry s keys).makeRoom entry.lastSeenUnixMs =
          reportAll entry s keys := if_neg (not_le.mpr hroom)
      have hstored : ((reportAll entry s keys).recordReport key entry).1 =
          { reportAll entry s keys with
            reachability := (reportAll entry s keys).reachability.insert key entry } := by
        rw [recordReport, AList.lookup_eq_none.mpr hnew]
        simp only [hsame]
        rw [if_neg (not_le.mpr hroom), if_neg (not_le.mpr (by omega))]
      rw [hstep, hstored]
      refine ⟨?_, httl⟩
      rw [AList.insert_of_notMem hnew]
      simp [hentries]

/-- As many targets as a peer may report about. -/
def inventedKeys : List ReachabilityKey :=
  (List.range maxReachabilityEntriesPerPeer).map fun i => ⟨"noisy", "t" ++ i.repr, "http"⟩

/-- What Crawl holds after they were reported at time 0, with a ttl of 5 s. -/
def crowdedState : CrawlState :=
  reportAll ⟨true, none, none, 0⟩ (initial (some 5000) ∅) inventedKeys

lemma inventedKeys_nodup : inventedKeys.Nodup := by
  refine List.Nodup.map ?_ List.nodup_range
  intro i j h
  simp only [ReachabilityKey.mk.injEq, true_and, and_true] at h
  exact Nat.repr_injective (by simpa using h)

lemma crowdedState_entries :
    crowdedState.reachability.entries = (inventedKeys.map fun key =>
      (⟨key, ⟨true, none, none, 0⟩⟩ : Sigma fun _ : ReachabilityKey => ReachabilityEntry)).reverse ∧
    crowdedState.nodeTtlMs = some 5000 := by
  rw [crowdedState]
  exact reportAll_entries _ _ rfl inventedKeys_nodup (by simp [inventedKeys])

/-- The peer cannot report a new target, though the table is nearly empty. -/
lemma crowdedState_refuses (now : ℕ) :
    crowdedState.reachability.lookup ⟨"noisy", "b", "radii"⟩ = none ∧
    (crowdedState.recordReport ⟨"noisy", "b", "radii"⟩ ⟨true, none, none, now⟩).2 = false := by
  have hentries := crowdedState_entries.1
  have hlen : crowdedState.reachability.len = maxReachabilityEntriesPerPeer := by
    rw [HashMap.len, hentries]
    simp [inventedKeys]
  have hpeer : crowdedState.peerEntries "noisy" = maxReachabilityEntriesPerPeer := by
    rw [peerEntries, HashMap.countKeys_eq, HashMap.countEntries, hentries]
    simp [inventedKeys, Function.comp_def]
  have hroom : crowdedState.reachability.len < maxReachabilityEntries := by
    rw [hlen]
    decide
  have hnew : crowdedState.reachability.lookup ⟨"noisy", "b", "radii"⟩ = none := by
    rw [AList.lookup_eq_none, AList.mem_keys, AList.keys, hentries, List.keys]
    simp [inventedKeys]
  exact ⟨hnew, (refused_of_room hroom _ _).mpr ⟨hnew, hpeer.ge⟩⟩

/-- A second after its reports they are fresh, and use up the peer's share. -/
theorem recordReport_live_quota_crowded :
    (crowdedState.recordReport ⟨"noisy", "b", "radii"⟩ ⟨true, none, none, 1000⟩).2 = false ∧
    (maxReachabilityEntries ≤ crowdedState.freshEntries 5000 1000 ∨
      maxReachabilityEntriesPerPeer ≤ crowdedState.freshPeerEntries 5000 1000 "noisy") := by
  obtain ⟨hentries, httl⟩ := crowdedState_entries
  have hrefused := (crowdedState_refuses 1000).2
  have hfresh : crowdedState.freshPeerEntries 5000 1000 "noisy" =
      maxReachabilityEntriesPerPeer := by
    rw [freshPeerEntries, HashMap.countEntries, hentries]
    simp [fresh, inventedKeys, Function.comp_def]
  exact ⟨hrefused, (recordReport_live_quota crowdedState 5000 httl ⟨"noisy", "b", "radii"⟩
    ⟨true, none, none, 1000⟩).mpr (Or.inr (Or.inr (Or.inr hfresh.ge))) hrefused⟩

/-- **Expired reports lock their peer out.**  A minute after its reports, all of them expired, the
peer cannot report a new target, though the table is nearly empty. -/
theorem expired_reports_lock_out :
    ¬ ∀ (s : CrawlState) (ttl : ℕ), s.nodeTtlMs = some ttl →
      ∀ (key : ReachabilityKey) (entry : ReachabilityEntry), (s.recordReport key entry).2 = false →
        maxReachabilityEntries ≤ s.freshEntries ttl entry.lastSeenUnixMs ∨
        maxReachabilityEntriesPerPeer ≤
          s.freshPeerEntries ttl entry.lastSeenUnixMs key.fromId := by
  intro h
  obtain ⟨hentries, httl⟩ := crowdedState_entries
  have hfresh : crowdedState.freshEntries 5000 60000 = 0 := by
    rw [freshEntries, HashMap.countEntries, hentries]
    simp [fresh]
  rcases h crowdedState 5000 httl _ _ (crowdedState_refuses 60000).2 with hmany | hmany
  · rw [hfresh] at hmany
    exact absurd hmany (by decide)
  · have hle := hmany.trans (freshPeerEntries_le crowdedState 5000 60000 "noisy")
    rw [hfresh] at hle
    exact absurd hle (by decide)

end CrawlState

end Radii
