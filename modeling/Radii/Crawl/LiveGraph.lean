import Radii.Crawl.Snapshot

/-!
# What a snapshot shows

The live graph, said without the walks: the nodes heard from within the ttl (`LiveNodes`), and the
fresh observations neither of whose ends is a node that has gone quiet (`LiveReports`).  The two
walks of `graph_snapshot` list it, each item once; what does not fit the budget is counted.

* `graphSnapshot_live` — the snapshot is the live graph less what was counted as dropped, and nothing
  is where all of it fits.
-/

namespace Radii

open Collections

/-! ## The live graph -/

namespace CrawlState

/-- Within the ttl, if there is one. -/
def Fresh (s : CrawlState) (now lastSeen : ℕ) : Prop :=
  ∀ ttl, s.nodeTtlMs = some ttl → now - lastSeen ≤ ttl

/-- A registered node that has not been heard from within the ttl. -/
def Quiet (s : CrawlState) (now : ℕ) (nodeId : String) : Prop :=
  ∃ entry, s.nodes.lookup nodeId = some entry ∧ ¬ s.Fresh now entry.lastSeenUnixMs

def LiveNodes (s : CrawlState) (now : ℕ) : Set NodeInfo :=
  {node | ∃ entry, s.nodes.lookup node.nodeId = some entry ∧ s.Fresh now entry.lastSeenUnixMs ∧
    node.listenAddrs = entry.listenAddrs ∧ node.roles = entry.roles}

def LiveReports (s : CrawlState) (now : ℕ) : Set GraphReport :=
  {report | ∃ entry, s.reachability.lookup ⟨report.fromId, report.target, report.protocol⟩ =
      some entry ∧ s.Fresh now entry.lastSeenUnixMs ∧
    ¬ s.Quiet now report.fromId ∧ ¬ s.Quiet now report.target ∧
    report.reachable = entry.reachable ∧ report.rttMs = entry.rttMs}

end CrawlState

open CrawlState

variable {s : CrawlState} {now : ℕ} {order : WalkOrder}

/-! ## The walks list it -/

lemma stale_eq_false_iff {lastSeen : ℕ} :
    s.stale now lastSeen = false ↔ s.Fresh now lastSeen := by
  rw [stale, Fresh]
  cases s.nodeTtlMs with
  | none => simp
  | some ttl => simp

lemma mem_expiredNodeIds {nodeId : String} : nodeId ∈ expiredNodeIds s now ↔ s.Quiet now nodeId := by
  rw [expiredNodeIds, List.mem_toFinset, List.mem_map, Quiet]
  constructor
  · rintro ⟨⟨id, entry⟩, hmem, rfl⟩
    rw [List.mem_filter, HashMap.mem_pairs] at hmem
    refine ⟨entry, hmem.1, ?_⟩
    rw [← stale_eq_false_iff, Bool.not_eq_false]
    exact hmem.2
  · rintro ⟨entry, hentry, hquiet⟩
    refine ⟨(nodeId, entry), List.mem_filter.mpr ⟨HashMap.mem_pairs.mpr hentry, ?_⟩, rfl⟩
    rwa [← stale_eq_false_iff, Bool.not_eq_false] at hquiet

lemma quiet_iff_of_lookup {nodeId : String} {entry : NodeEntry}
    (h : s.nodes.lookup nodeId = some entry) :
    s.Quiet now nodeId ↔ ¬ s.Fresh now entry.lastSeenUnixMs := by
  constructor
  · rintro ⟨other, hother, hquiet⟩
    rw [h, Option.some.injEq] at hother
    exact hother ▸ hquiet
  · exact fun hquiet => ⟨entry, h, hquiet⟩

variable (order) in
lemma mem_liveNodes {node : NodeInfo} : node ∈ liveNodes order s now ↔ node ∈ s.LiveNodes now := by
  simp only [liveNodes, List.mem_map, List.mem_filter, decide_eq_true_eq, mem_expiredNodeIds]
  constructor
  · rintro ⟨⟨id, entry⟩, ⟨hmem, hlive⟩, rfl⟩
    have hentry := order.nodes.mem.mp hmem
    exact ⟨entry, hentry, not_not.mp (mt (quiet_iff_of_lookup hentry).mpr hlive), rfl, rfl⟩
  · rintro ⟨entry, hentry, hfresh, haddrs, hroles⟩
    refine ⟨(node.nodeId, entry), ⟨order.nodes.mem.mpr hentry, ?_⟩, ?_⟩
    · exact fun hquiet => (quiet_iff_of_lookup hentry).mp hquiet hfresh
    · rw [nodeInfoOf, ← haddrs, ← hroles]

variable (order) in
lemma mem_liveReports {report : GraphReport} :
    report ∈ liveReports order s now ↔ report ∈ s.LiveReports now := by
  simp only [liveReports, List.mem_map, List.mem_filter, Bool.and_eq_true, decide_eq_true_eq,
    Bool.not_eq_true', mem_expiredNodeIds, stale_eq_false_iff]
  constructor
  · rintro ⟨⟨key, entry⟩, ⟨hmem, hends, hfresh⟩, rfl⟩
    exact ⟨entry, order.reachability.mem.mp hmem, hfresh, hends.1, hends.2, rfl, rfl⟩
  · rintro ⟨entry, hentry, hfresh, hfrom, htarget, hreachable, hrtt⟩
    refine ⟨(⟨report.fromId, report.target, report.protocol⟩, entry),
      ⟨order.reachability.mem.mpr hentry, ⟨hfrom, htarget⟩, hfresh⟩, ?_⟩
    rw [graphReportOf, ← hreachable, ← hrtt]

/-- What a report is about, and whose it is. -/
def reportKey (report : GraphReport) : ReachabilityKey :=
  ⟨report.fromId, report.target, report.protocol⟩

/-- No node is listed twice. -/
lemma liveNodes_nodup (order : WalkOrder) (s : CrawlState) (now : ℕ) :
    ((liveNodes order s now).map NodeInfo.nodeId).Nodup := by
  rw [liveNodes, List.map_map]
  exact (order.nodes.keys_nodup s.nodes).sublist (List.filter_sublist.map _)

lemma liveReports_nodup (order : WalkOrder) (s : CrawlState) (now : ℕ) :
    ((liveReports order s now).map reportKey).Nodup := by
  rw [liveReports, List.map_map]
  exact (order.reachability.keys_nodup s.reachability).sublist (List.filter_sublist.map _)

/-! ## What the budget leaves of it -/

/-- Everything is kept or counted. -/
lemma fill_count {α : Type} (cost : α → ℕ) (xs : List α) (budget : ℕ) :
    (fill cost xs budget).1.length + (fill cost xs budget).2.2 = xs.length := by
  induction xs generalizing budget with
  | nil => rfl
  | cons x xs ih =>
      rw [fill]
      split_ifs
      · have hrest := ih budget
        simp only [List.length_cons]
        omega
      · have hrest := ih (budget - cost x)
        simp only [List.length_cons]
        omega

/-- Where everything fits, nothing is counted and the rest of the budget is left. -/
lemma fill_fits {α : Type} (cost : α → ℕ) (xs : List α) (budget : ℕ)
    (hfits : (xs.map cost).sum ≤ budget) :
    (fill cost xs budget).2.2 = 0 ∧ (fill cost xs budget).2.1 = budget - (xs.map cost).sum := by
  induction xs generalizing budget with
  | nil => exact ⟨rfl, rfl⟩
  | cons x xs ih =>
      rw [List.map_cons, List.sum_cons] at hfits
      rw [fill, if_neg (by omega)]
      rcases ih (budget - cost x) (by omega) with ⟨hdropped, hleft⟩
      refine ⟨hdropped, ?_⟩
      rw [hleft, List.map_cons, List.sum_cons]
      omega

/-- A set that a list enumerates. -/
lemma eq_coe_toFinset {α : Type} [DecidableEq α] {A : Set α} {l : List α}
    (hl : ∀ a, a ∈ l ↔ a ∈ A) : A = (l.toFinset : Set α) := by
  ext a
  rw [List.coe_toFinset, Set.mem_ofPred_eq, hl]

lemma finsum_mem_of_nodup {α : Type} (f : α → ℕ) {A : Set α} {l : List α} (hnodup : l.Nodup)
    (hl : ∀ a, a ∈ l ↔ a ∈ A) : ∑ᶠ a ∈ A, f a = (l.map f).sum := by
  classical
  rw [eq_coe_toFinset hl, finsum_mem_coe_finset, List.sum_toFinset f hnodup]

lemma ncard_of_nodup {α : Type} {A : Set α} {l : List α} (hnodup : l.Nodup)
    (hl : ∀ a, a ∈ l ↔ a ∈ A) : A.ncard = l.length := by
  classical
  rw [eq_coe_toFinset hl, Set.ncard_coe_finset, List.toFinset_card_of_nodup hnodup]

/-- **A snapshot is the live graph, less what it counts as dropped.**  It lists live nodes and live
observations only, each once and as they are stored; with what was dropped they are all there are;
and nothing is dropped where the size bounds of all of them fit the budget. -/
theorem graphSnapshot_live (order : WalkOrder) (s : CrawlState) (now : ℕ) :
    let r := graphSnapshot order s now
    ((∀ node ∈ r.1, node ∈ s.LiveNodes now) ∧ (r.1.map NodeInfo.nodeId).Nodup) ∧
    ((∀ report ∈ r.2.1, report ∈ s.LiveReports now) ∧ (r.2.1.map reportKey).Nodup) ∧
    r.2.2 + r.1.length + r.2.1.length = (s.LiveNodes now).ncard + (s.LiveReports now).ncard ∧
    (∑ᶠ node ∈ s.LiveNodes now, nodeInfoEncodedBound node +
        ∑ᶠ report ∈ s.LiveReports now, graphReportEncodedBound report ≤ snapshotBudget →
      r.2.2 = 0) := by
  have hnodes := liveNodes_nodup order s now
  have hreports := liveReports_nodup order s now
  refine ⟨⟨?_, ?_⟩, ⟨?_, ?_⟩, ?_, ?_⟩
  · intro node hnode
    exact (mem_liveNodes order).mp ((fill_sublist _ _ _).subset hnode)
  · exact hnodes.sublist ((fill_sublist _ _ _).map _)
  · intro report hreport
    exact (mem_liveReports order).mp ((fill_sublist _ _ _).subset hreport)
  · exact hreports.sublist ((fill_sublist _ _ _).map _)
  · rw [ncard_of_nodup hnodes.of_map fun _ => mem_liveNodes order,
      ncard_of_nodup hreports.of_map fun _ => mem_liveReports order]
    have hkept := fill_count nodeInfoEncodedBound (liveNodes order s now) snapshotBudget
    have hkept' := fill_count graphReportEncodedBound (liveReports order s now)
      (fill nodeInfoEncodedBound (liveNodes order s now) snapshotBudget).2.1
    simp only [graphSnapshot]
    omega
  · rw [finsum_mem_of_nodup _ hnodes.of_map fun _ => mem_liveNodes order,
      finsum_mem_of_nodup _ hreports.of_map fun _ => mem_liveReports order]
    intro hfits
    rcases fill_fits nodeInfoEncodedBound (liveNodes order s now) snapshotBudget (by omega) with
      ⟨hdropped, hleft⟩
    have hfits' := fill_fits graphReportEncodedBound (liveReports order s now)
      (fill nodeInfoEncodedBound (liveNodes order s now) snapshotBudget).2.1 (by omega)
    simp only [graphSnapshot]
    rw [hdropped, hfits'.1]

/-- A node that is live, and an observation it made of one that is not registered. -/
def oneNode : CrawlState :=
  ((CrawlState.initial (some 5) ∅).insertNode "n" ⟨[⟨"a:1", "relay"⟩], ["head"], 7⟩).recordReport
    ⟨"n", "m", "radii"⟩ ⟨true, some 10, none, 8⟩ |>.1

/-- They fit. -/
theorem graphSnapshot_live_one :
    ∑ᶠ node ∈ oneNode.LiveNodes 9, nodeInfoEncodedBound node +
      ∑ᶠ report ∈ oneNode.LiveReports 9, graphReportEncodedBound report ≤ snapshotBudget ∧
    graphSnapshot .default oneNode 9 =
      ([⟨"n", [⟨"a:1", "relay"⟩], ["head"]⟩], [⟨"n", "m", "radii", true, some 10⟩], 0) ∧
    (graphSnapshot .default oneNode 9).2.2 = 0 := by
  have hfits : ∑ᶠ node ∈ oneNode.LiveNodes 9, nodeInfoEncodedBound node +
      ∑ᶠ report ∈ oneNode.LiveReports 9, graphReportEncodedBound report ≤ snapshotBudget := by
    rw [finsum_mem_of_nodup _ (liveNodes_nodup .default oneNode 9).of_map fun _ => mem_liveNodes _,
      finsum_mem_of_nodup _ (liveReports_nodup .default oneNode 9).of_map fun _ => mem_liveReports _]
    decide
  exact ⟨hfits, by decide, (graphSnapshot_live .default oneNode 9).2.2.2 hfits⟩

end Radii
