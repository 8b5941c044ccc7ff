import Radii.Crawl.State
import Radii.Proto.Framing

/-!
# The snapshot Crawl answers a query with

`graph_snapshot` walks the two tables, leaves out what has expired, and fills a byte budget with
upper bounds of the encoded sizes.  This file proves what the budget is for: the reply always fits
a frame, and the poller's own bounds accept it, provided every stored string and list is within
the wire bounds (`StateBounds`).  That proviso is an invariant of every run; it is established
where the runs are (`Radii.Crawl.Server`).
-/

namespace Radii

open Wire Collections

/-! ## Size bounds -/

/-- Upper bound on the encoding of a string. -/
def encodedStrBound (value : String) : ℕ := value.utf8ByteSize + 5

def nodeInfoEncodedBound (node : NodeInfo) : ℕ :=
  encodedStrBound node.nodeId + 5
    + (node.listenAddrs.map fun e => encodedStrBound e.addr + encodedStrBound e.role).sum + 5
    + (node.roles.map encodedStrBound).sum

def graphReportEncodedBound (report : GraphReport) : ℕ :=
  encodedStrBound report.fromId + encodedStrBound report.target + encodedStrBound report.protocol
    + 1 + 6

lemma listenAddr_encode_le {e : ListenAddr} (ha : e.addr.utf8ByteSize < 2 ^ 35)
    (hr : e.role.utf8ByteSize < 2 ^ 35) :
    (listenAddrCodec.encode e).length ≤ encodedStrBound e.addr + encodedStrBound e.role := by
  have h1 := Codec.str_length_le ha
  have h2 := Codec.str_length_le hr
  simp only [listenAddrCodec, Codec.imap, Codec.prod, List.length_append, encodedStrBound]
  omega

/-- The node bound never under-estimates. -/
lemma nodeInfo_encode_le {n : NodeInfo} (h : ValidHello n.nodeId n.roles n.listenAddrs) :
    (nodeInfoCodec.encode n).length ≤ nodeInfoEncodedBound n := by
  have hlen : ∀ {a b : ℕ}, a ≤ b → b ≤ 256 → a < 2 ^ 35 := by intro a b h1 h2; omega
  have hid := Codec.str_length_le (hlen h.nodeId_le (le_refl _))
  have haddrs := listenAddrCodec.seq_length_le
    (fun e => encodedStrBound e.addr + encodedStrBound e.role)
    (hlen h.addrs_le (by decide))
    (fun e he => listenAddr_encode_le (hlen (h.addr_le e he).1 (le_refl _))
      (hlen (h.addr_le e he).2 (by decide)))
  have hroles := Codec.str.seq_length_le encodedStrBound (hlen h.roles_le (by decide))
    (fun r hr => Codec.str_length_le (hlen (h.role_le r hr) (by decide)))
  simp only [nodeInfoCodec, Codec.imap, Codec.prod, List.length_append, nodeInfoEncodedBound]
  have : encodedStrBound n.nodeId = n.nodeId.utf8ByteSize + 5 := rfl
  omega

lemma bool_encode_length (b : Bool) : (Codec.bool.encode b).length = 1 := rfl

lemma optionUint32_encode_le (o : Option UInt32) :
    (Codec.uint32.option.encode o).length ≤ 6 := by
  cases o with
  | none => simp [Codec.option]
  | some n =>
      have := putVarint_length_le_five u32 (n := n.toNat) (by have := n.toNat_lt; omega)
      simp only [Codec.option, Codec.uint32, List.length_cons]
      omega

/-- The report bound never under-estimates. -/
lemma graphReport_encode_le {r : GraphReport}
    (h : ValidReport r.fromId r.target r.protocol none) :
    (graphReportCodec.encode r).length ≤ graphReportEncodedBound r := by
  have h1 := Codec.str_length_le (s := r.fromId)
    (by have : _ ≤ 256 := h.from_le; omega)
  have h2 := Codec.str_length_le (s := r.target)
    (by have : _ ≤ 256 := h.target_le; omega)
  have h3 := Codec.str_length_le (s := r.protocol)
    (by have : _ ≤ 64 := h.protocol_le; omega)
  have h4 := optionUint32_encode_le r.rttMs
  have h5 := bool_encode_length r.reachable
  simp only [graphReportCodec, Codec.imap, Codec.prod, List.length_append,
    graphReportEncodedBound, encodedStrBound]
  omega

/-! ## Filling a budget -/

/-- The loop both halves of the snapshot run: keep an item if its cost still fits, else count it
as dropped and go on.  Returns what was kept, the budget left and the count. -/
def fill {α : Type} (cost : α → ℕ) : List α → ℕ → List α × ℕ × ℕ
  | [], budget => ([], budget, 0)
  | x :: xs, budget =>
      if cost x > budget then
        let r := fill cost xs budget
        (r.1, r.2.1, r.2.2 + 1)
      else
        let r := fill cost xs (budget - cost x)
        (x :: r.1, r.2.1, r.2.2)

lemma fill_sublist {α : Type} (cost : α → ℕ) :
    ∀ (xs : List α) (budget : ℕ), (fill cost xs budget).1.Sublist xs := by
  intro xs
  induction xs with
  | nil => intro _; exact List.Sublist.refl _
  | cons x xs ih =>
      intro budget
      rw [fill]
      split
      · exact (ih budget).cons x
      · exact (ih (budget - cost x)).cons_cons x

/-- What was spent and what is left add up to the budget. -/
lemma fill_cost {α : Type} (cost : α → ℕ) : ∀ (xs : List α) (budget : ℕ),
    ((fill cost xs budget).1.map cost).sum + (fill cost xs budget).2.1 = budget := by
  intro xs
  induction xs with
  | nil => intro budget; simp [fill]
  | cons x xs ih =>
      intro budget
      rw [fill]
      split
      · exact ih budget
      · have := ih (budget - cost x)
        simp only [List.map_cons, List.sum_cons]
        omega

lemma length_le_sum_map {α : Type} (cost : α → ℕ) (h : ∀ x, 0 < cost x) (xs : List α) :
    xs.length ≤ (xs.map cost).sum := by
  induction xs with
  | nil => simp
  | cons x xs ih =>
      have := h x
      simp only [List.length_cons, List.map_cons, List.sum_cons]
      omega

/-! ## The snapshot -/

/-- The order in which one walk visits the two tables. -/
structure WalkOrder where
  nodes : IterOrder String NodeEntry
  reachability : IterOrder ReachabilityKey ReachabilityEntry

def WalkOrder.default : WalkOrder := ⟨IterOrder.default, IterOrder.default⟩

/-- Registered nodes not heard from within the ttl. -/
def expiredNodeIds (s : CrawlState) (now : ℕ) : Finset String :=
  ((s.nodes.pairs.filter fun p => s.stale now p.2.lastSeenUnixMs).map Prod.fst).toFinset

def nodeInfoOf (p : String × NodeEntry) : NodeInfo := ⟨p.1, p.2.listenAddrs, p.2.roles⟩

def graphReportOf (p : ReachabilityKey × ReachabilityEntry) : GraphReport :=
  ⟨p.1.fromId, p.1.target, p.1.protocol, p.2.reachable, p.2.rttMs⟩

/-- The registered nodes that have not expired, in the order of the walk. -/
def liveNodes (order : WalkOrder) (s : CrawlState) (now : ℕ) : List NodeInfo :=
  ((order.nodes.list s.nodes).filter fun p => decide (p.1 ∉ expiredNodeIds s now)).map nodeInfoOf

/-- The observations that are fresh and name no expired node, in the order of the walk. -/
def liveReports (order : WalkOrder) (s : CrawlState) (now : ℕ) : List GraphReport :=
  ((order.reachability.list s.reachability).filter fun p =>
    decide (p.1.fromId ∉ expiredNodeIds s now ∧ p.1.target ∉ expiredNodeIds s now) &&
      !s.stale now p.2.lastSeenUnixMs).map graphReportOf

/-- `graph_snapshot`: the nodes, then the reports, within one byte budget; and how many live
items were left out. -/
def graphSnapshot (order : WalkOrder) (s : CrawlState) (now : ℕ) :
    List NodeInfo × List GraphReport × ℕ :=
  let nodes := fill nodeInfoEncodedBound (liveNodes order s now) snapshotBudget
  let reports := fill graphReportEncodedBound (liveReports order s now) nodes.2.1
  (nodes.1, reports.1, nodes.2.2 + reports.2.2)

/-! ## The reply fits and is accepted -/

/-- Every stored string and list is within the bounds of the wire. -/
structure StateBounds (s : CrawlState) : Prop where
  nodes : ∀ id e, s.nodes.lookup id = some e → ValidHello id e.roles e.listenAddrs
  reports : ∀ k e, s.reachability.lookup k = some e →
    ValidReport k.fromId k.target k.protocol none

lemma validHello_of_mem_snapshot {order : WalkOrder} {s : CrawlState} {now : ℕ}
    (hs : StateBounds s) {n : NodeInfo} (hn : n ∈ (graphSnapshot order s now).1) :
    ValidHello n.nodeId n.roles n.listenAddrs := by
  have hmem := (fill_sublist _ _ _).subset hn
  simp only [liveNodes, List.mem_map, List.mem_filter] at hmem
  rcases hmem with ⟨⟨id, e⟩, ⟨hid, -⟩, rfl⟩
  exact hs.nodes id e (order.nodes.mem.mp hid)

lemma validReport_of_mem_snapshot {order : WalkOrder} {s : CrawlState} {now : ℕ}
    (hs : StateBounds s) {r : GraphReport} (hr : r ∈ (graphSnapshot order s now).2.1) :
    ValidReport r.fromId r.target r.protocol none := by
  have hmem := (fill_sublist _ _ _).subset hr
  simp only [liveReports, List.mem_map, List.mem_filter] at hmem
  rcases hmem with ⟨⟨k, e⟩, ⟨hk, -⟩, rfl⟩
  exact hs.reports k e (order.reachability.mem.mp hk)

/-- The two halves together stay within the budget. -/
lemma snapshot_cost_le (order : WalkOrder) (s : CrawlState) (now : ℕ) :
    ((graphSnapshot order s now).1.map nodeInfoEncodedBound).sum
      + ((graphSnapshot order s now).2.1.map graphReportEncodedBound).sum ≤ snapshotBudget := by
  have h1 := fill_cost nodeInfoEncodedBound (liveNodes order s now) snapshotBudget
  have h2 := fill_cost graphReportEncodedBound (liveReports order s now)
    (fill nodeInfoEncodedBound (liveNodes order s now) snapshotBudget).2.1
  simp only [graphSnapshot]
  omega

/-- **The reply fits a frame.** -/
theorem snapshot_encode_le (order : WalkOrder) {s : CrawlState} (now : ℕ) (hs : StateBounds s) :
    (encodeMessage (.graphSnapshot (graphSnapshot order s now).1
      (graphSnapshot order s now).2.1)).length ≤ maxFrameLen := by
  set nodes := (graphSnapshot order s now).1 with hnodes
  set reports := (graphSnapshot order s now).2.1 with hreports
  have hcost := snapshot_cost_le order s now
  rw [← hnodes, ← hreports] at hcost
  have hbudget : snapshotBudget + 1024 = maxFrameLen := rfl
  have hmax : maxFrameLen = 1048576 := rfl
  have hcount := length_le_sum_map nodeInfoEncodedBound
    (fun n => by rw [nodeInfoEncodedBound]; omega) nodes
  have hcount' := length_le_sum_map graphReportEncodedBound
    (fun r => by rw [graphReportEncodedBound]; omega) reports
  have h1 := nodeInfoCodec.seq_length_le nodeInfoEncodedBound (show nodes.length < _ by omega)
    fun n hn => nodeInfo_encode_le (validHello_of_mem_snapshot hs (hnodes ▸ hn))
  have h2 := graphReportCodec.seq_length_le graphReportEncodedBound
    (show reports.length < _ by omega)
    fun r hr => graphReport_encode_le (validReport_of_mem_snapshot hs (hreports ▸ hr))
  have h3 := putVarint_length_le_five u32 (n := 5) (by decide)
  simp only [encodeMessage, Codec.putVariant, snapshotCodec, Codec.prod, List.length_append]
  omega

/-- The poller's bounds hold of the reply. -/
lemma snapshot_readable {order : WalkOrder} {s : CrawlState} {now : ℕ} (hs : StateBounds s) :
    Readable (.graphSnapshot (graphSnapshot order s now).1 (graphSnapshot order s now).2.1) := by
  refine ⟨rfl, ?_⟩
  simp only [validateMessage, andThen_eq_ok, forAll_eq_ok]
  exact ⟨fun n hn => validateHello_eq_ok.mpr (validHello_of_mem_snapshot hs hn),
    fun r hr => validateReport_eq_ok.mpr (validReport_of_mem_snapshot hs hr)⟩

/-! ## Applying a claim keeps the bounds -/

lemma stateBounds_initial (nodeTtlMs : Option ℕ) (relayPeers : Finset String) :
    StateBounds (CrawlState.initial nodeTtlMs relayPeers) :=
  ⟨fun id e h => by simp [CrawlState.initial] at h, fun k e h => by simp [CrawlState.initial] at h⟩

lemma stateBounds_recordReport {s : CrawlState} (hs : StateBounds s) {key : ReachabilityKey}
    {entry : ReachabilityEntry} (hk : ValidReport key.fromId key.target key.protocol none) :
    StateBounds (s.recordReport key entry).1 := by
  have h := CrawlState.recordReport_upserted s key entry
  refine ⟨fun id e he => hs.nodes id e (by rwa [h.nodes] at he), ?_⟩
  intro k e he
  by_cases hkey : k = key
  · exact hkey ▸ hk
  · rcases h.other k hkey with hsame | ⟨hnone, -⟩
    · exact hs.reports k e (by rwa [hsame] at he)
    · rw [hnone] at he
      simp at he

/-- A claim within the wire bounds leaves the state within them. -/
lemma stateBounds_applyClaim {s : CrawlState} (hs : StateBounds s) {now : ℕ} {r : RelayedMessage}
    (hr : validateRelayed r = .ok ()) : StateBounds (applyClaim now s r).1 := by
  cases r with
  | nodeHello nodeId roles listenAddrs =>
      have hv := validateHello_eq_ok.mp hr
      refine ⟨?_, hs.reports⟩
      intro id e he
      simp only [applyClaim, CrawlState.insertNode] at he
      by_cases hid : id = nodeId
      · subst hid
        rw [AList.lookup_insert] at he
        simp only [Option.some.injEq] at he
        subst he
        exact hv
      · rw [HashMap.lookup_insert_of_ne hid] at he
        exact hs.nodes id e he
  | reachabilityProbe => exact hs
  | reachabilityReport fromId target protocol reachable rttMs observedAddr =>
      have hv := validateReport_eq_ok.mp hr
      exact stateBounds_recordReport hs ⟨hv.from_le, hv.target_le, hv.protocol_le, by simp⟩

end Radii
