import Radii.Crawl.Alone
import Radii.Crawl.Quota

/-!
# What a report is answered with

A report comes directly or in an envelope, and each arm has replies of its own.  The direct arm looks
at what `record_report` returns; `handle_wrapped_message` only logs it, so what is refused for lack
of space is acknowledged as received.

* `replies_of_run` — what is written in a run is what `Prog.replies` says.
* `ack_truthful_iff` — exactly when the ack says what became of the report.
* `crowded_relayed_ack` — a report that is refused and acknowledged as received.
-/

namespace Radii

open Sync Collections

/-! ## Reports -/

/-- What a peer says it has observed. -/
structure Report where
  fromId : String
  target : String
  protocol : String
  reachable : Bool
  rttMs : Option UInt32
  observedAddr : Option String

/-- The two ways to Crawl. -/
inductive Delivery where
  | direct
  | fromHead (source : String) (clientIdentity : Option String)

namespace Report

def key (r : Report) : ReachabilityKey := ⟨r.fromId, r.target, r.protocol⟩

def entry (r : Report) (now : ℕ) : ReachabilityEntry := ⟨r.reachable, r.rttMs, r.observedAddr, now⟩

/-- As it is relayed. -/
def message (r : Report) : RelayedMessage :=
  .reachabilityReport r.fromId r.target r.protocol r.reachable r.rttMs r.observedAddr

/-- The frame that carries it. -/
def frame (r : Report) : Delivery → RadiiMessage
  | .direct => .reachabilityReport r.fromId r.target r.protocol r.reachable r.rttMs r.observedAddr
  | .fromHead source clientIdentity => .fromHead source clientIdentity r.message

/-- Whether the checks made for this way let the peer report it. -/
def entitled (r : Report) (relayPeers : Finset String) (peer : Option String) : Delivery → Bool
  | .direct => authorized peer r.fromId
  | .fromHead _ clientIdentity =>
      authorizedRelayPeer peer relayPeers && authorizedRelayedClaim peer clientIdentity r.fromId

end Report

def successStatuses : List String := ["report_received", "head_message_received"]

def refusalStatuses : List String :=
  ["unauthorized_node_id", "unauthorized_relay_peer", "reachability_table_full"]

/-- Whether there is room for a report under this key: it is an update, or neither the table nor the
peer's share of it is full. -/
def CrawlState.HasRoom (s : CrawlState) (key : ReachabilityKey) (now : ℕ) : Prop :=
  s.reachability.lookup key ≠ none ∨
    (s.makeRoom now).reachability.len < maxReachabilityEntries ∧
    (s.makeRoom now).peerEntries key.fromId < maxReachabilityEntriesPerPeer

/-- **The ack tells the truth**: there is one, it is a success exactly if the table then holds this
report under its key, and it is a refusal if the peer may not report it or there is no room. -/
def AckTruthful (env : Env) (s : CrawlState) (peer : Option String) (way : Delivery) (r : Report) :
    Prop :=
  ∃ status, (handleConnection peer (r.frame way)).replies env s = [.ack status] ∧
    (status ∈ successStatuses ↔ ((handleConnection peer (r.frame way)).exec env s).reachability.lookup
      r.key = some (r.entry env.now)) ∧
    (r.entitled s.relayPeers peer way = false ∨ ¬ s.HasRoom r.key env.now → status ∈ refusalStatuses)

/-! ## What each arm does -/

section Arms

variable {env : Env} {s : CrawlState} {peer : Option String} {way : Delivery} {r : Report}

/-- What the connection alone writes is what `replies` says. -/
lemma replies_of_run {c c' : CrawlConfig} {i : ℕ} {m : RadiiMessage} {out : RadiiMessage}
    {rest : CrawlProg} (hrun : Run crawl (fun _ e => e.Alone i env) c c')
    (hconn : c.conns i = some ⟨peer, some m, handleConnection peer m⟩)
    (hwrites : c'.conns i = some ⟨peer, some m, .reply out rest⟩) :
    out ∈ (handleConnection peer m).replies env c.state :=
  hrun.replies hconn hwrites rfl

/-- The state afterwards: recorded, if the peer may report it. -/
lemma frame_exec : (handleConnection peer (r.frame way)).exec env s =
    if r.entitled s.relayPeers peer way then (s.recordReport r.key (r.entry env.now)).1 else s := by
  cases way with
  | direct =>
      rw [direct_exec (r := r.message) rfl]
      rfl
  | fromHead source clientIdentity =>
      rw [Report.frame, fromHead_exec]
      simp only [Report.message, RelayedMessage.claimedNodeId, Option.some.injEq, forall_eq',
        Report.entitled, Bool.and_eq_true]
      rfl

/-- The direct arm answers with what `record_report` returned. -/
lemma direct_replies : (handleConnection peer (r.frame .direct)).replies env s =
    [.ack (if r.entitled s.relayPeers peer .direct then
      (if (s.recordReport r.key (r.entry env.now)).2 then "report_received"
      else "reachability_table_full") else "unauthorized_node_id")] := by
  rw [Report.frame, handleConnection, reachabilityReportArm]
  show Prog.replies env (if !r.entitled s.relayPeers peer .direct then _ else _) s = _
  cases r.entitled s.relayPeers peer .direct with
  | false => rfl
  | true =>
      show Prog.replies env (if !(s.recordReport r.key (r.entry env.now)).2 then _ else _) _ = _
      cases (s.recordReport r.key (r.entry env.now)).2 with
      | false => rfl
      | true => rfl

/-- The relaying arm has no answer for a report without room. -/
lemma fromHead_replies {source : String} {clientIdentity : Option String} :
    (handleConnection peer (r.frame (.fromHead source clientIdentity))).replies env s =
      [.ack (if r.entitled s.relayPeers peer (.fromHead source clientIdentity) then
        "head_message_received" else if authorizedRelayPeer peer s.relayPeers then
        "unauthorized_node_id" else "unauthorized_relay_peer")] := by
  rw [Report.frame, handleConnection, fromHeadArm, Report.entitled]
  show Prog.replies env (if !authorizedRelayPeer peer s.relayPeers then _ else _) s = _
  cases authorizedRelayPeer peer s.relayPeers with
  | false => rfl
  | true =>
      show Prog.replies env (if !authorizedRelayedClaim peer clientIdentity r.fromId then _ else _) s
        = _
      cases authorizedRelayedClaim peer clientIdentity r.fromId with
      | false => rfl
      | true => rfl

lemma hasRoom_iff {now : ℕ} : s.HasRoom r.key now ↔ (s.recordReport r.key (r.entry now)).2 = true :=
  (s.recordReport_accepts r.key (r.entry now)).symm

/-- A report without room is not in the table afterwards. -/
lemma lookup_exec_of_refused (hentitled : r.entitled s.relayPeers peer way = true)
    (hrefused : (s.recordReport r.key (r.entry env.now)).2 = false) :
    ((handleConnection peer (r.frame way)).exec env s).reachability.lookup r.key = none := by
  rw [frame_exec, if_pos hentitled]
  exact ((s.recordReport_upserted r.key (r.entry env.now)).refused hrefused).2

/-- Refused for want of authority: said so, and the table is as it was. -/
lemma ack_unauthorized (hentitled : r.entitled s.relayPeers peer way = false) :
    AckTruthful env s peer way r ↔ s.reachability.lookup r.key ≠ some (r.entry env.now) := by
  have hstate : (handleConnection peer (r.frame way)).exec env s = s := by
    rw [frame_exec, hentitled]
    rfl
  have hreplies : ∃ status, (handleConnection peer (r.frame way)).replies env s = [.ack status] ∧
      status ∉ successStatuses ∧ status ∈ refusalStatuses := by
    cases way with
    | direct =>
        refine ⟨_, direct_replies, ?_⟩
        simp [hentitled, successStatuses, refusalStatuses]
    | fromHead source clientIdentity =>
        refine ⟨_, fromHead_replies, ?_⟩
        cases authorizedRelayPeer peer s.relayPeers with
        | false => simp [hentitled, successStatuses, refusalStatuses]
        | true => simp [hentitled, successStatuses, refusalStatuses]
  rcases hreplies with ⟨status, hack, hfailure, hrefusal⟩
  rw [AckTruthful, hstate, hack]
  constructor
  · rintro ⟨_, hsame, hiff, -⟩ hheld
    simp only [List.cons.injEq, and_true, RadiiMessage.ack.injEq] at hsame
    subst hsame
    exact hfailure (hiff.mpr hheld)
  · intro hnew
    exact ⟨status, rfl, iff_of_false hfailure hnew, fun _ => hrefusal⟩

/-- Recorded: said so. -/
lemma ack_stored (hentitled : r.entitled s.relayPeers peer way = true)
    (hroom : s.HasRoom r.key env.now) : AckTruthful env s peer way r := by
  have haccepted := hasRoom_iff.mp hroom
  have hheld : ((handleConnection peer (r.frame way)).exec env s).reachability.lookup r.key =
      some (r.entry env.now) := by
    rw [frame_exec, hentitled]
    exact (s.recordReport_upserted r.key (r.entry env.now)).stored haccepted
  have hno : ¬ (r.entitled s.relayPeers peer way = false ∨ ¬ s.HasRoom r.key env.now) := by
    rw [hentitled]
    simpa using hroom
  cases way with
  | direct =>
      refine ⟨_, direct_replies, ?_, fun h => absurd h hno⟩
      exact iff_of_true (by simp [hentitled, haccepted, successStatuses]) hheld
  | fromHead source clientIdentity =>
      refine ⟨_, fromHead_replies, ?_, fun h => absurd h hno⟩
      exact iff_of_true (by simp [hentitled, successStatuses]) hheld

/-- Without room: said so directly, and not through a Head. -/
lemma ack_refused (hentitled : r.entitled s.relayPeers peer way = true)
    (hroom : ¬ s.HasRoom r.key env.now) : AckTruthful env s peer way r ↔ way = .direct := by
  have hrefused : (s.recordReport r.key (r.entry env.now)).2 = false := by
    rw [← Bool.not_eq_true, ← hasRoom_iff]
    exact hroom
  have hmissing := lookup_exec_of_refused hentitled hrefused
  cases way with
  | direct =>
      refine iff_of_true ⟨_, direct_replies, ?_, ?_⟩ rfl
      · simp [hmissing, hentitled, hrefused, successStatuses]
      · simp [hentitled, hrefused, refusalStatuses]
  | fromHead source clientIdentity =>
      refine iff_of_false ?_ (by simp)
      rintro ⟨status, hack, hiff, -⟩
      rw [fromHead_replies, if_pos hentitled, List.cons.injEq, RadiiMessage.ack.injEq] at hack
      rw [hmissing, ← hack.1] at hiff
      exact absurd (hiff.mp (by decide)) (by simp)

/-- What a relayed report without room is told, and what became of it. -/
lemma relayed_refused {source : String} {clientIdentity : Option String}
    (hentitled : r.entitled s.relayPeers peer (.fromHead source clientIdentity) = true)
    (hrefused : (s.recordReport r.key (r.entry env.now)).2 = false) :
    let served := handleConnection peer (r.frame (.fromHead source clientIdentity))
    served.replies env s = [.ack "head_message_received"] ∧
      (served.exec env s).reachability.lookup r.key = none ∧
      ¬ AckTruthful env s peer (.fromHead source clientIdentity) r := by
  have hroom : ¬ s.HasRoom r.key env.now := by
    rw [hasRoom_iff, hrefused]
    decide
  refine ⟨?_, lookup_exec_of_refused hentitled hrefused, ?_⟩
  · rw [fromHead_replies, if_pos hentitled]
  · rw [ack_refused hentitled hroom]
    simp

end Arms

/-! ## When the ack tells the truth -/

/-- **The ack tells the truth exactly** if a report the peer may make came directly or there is room
for it; and, of one it may not make, unless the table held the very same before. -/
theorem ack_truthful_iff (env : Env) (s : CrawlState) (peer : Option String) (way : Delivery)
    (r : Report) :
    AckTruthful env s peer way r ↔
      (r.entitled s.relayPeers peer way = true → way = .direct ∨ s.HasRoom r.key env.now) ∧
      (r.entitled s.relayPeers peer way = false →
        s.reachability.lookup r.key ≠ some (r.entry env.now)) := by
  cases hentitled : r.entitled s.relayPeers peer way with
  | false =>
      rw [ack_unauthorized hentitled]
      simp
  | true =>
      simp only [true_imp_iff, Bool.true_eq_false, false_imp_iff, and_true]
      by_cases hroom : s.HasRoom r.key env.now
      · exact iff_of_true (ack_stored hentitled hroom) (Or.inr hroom)
      · rw [ack_refused hentitled hroom]
        simp [hroom]

/-- A peer that has used up its share reports a new target through a Head: nothing is stored, and it
is told that the message was received. -/
theorem crowded_relayed_ack :
    let r : Report := ⟨"noisy", "b", "radii", true, none, none⟩
    let env : Env := ⟨60000, WalkOrder.default⟩
    let served := handleConnection none (r.frame (.fromHead "h" none))
    served.replies env CrawlState.crowdedState = [.ack "head_message_received"] ∧
    (served.exec env CrawlState.crowdedState).reachability.lookup r.key = none ∧
    ¬ AckTruthful env CrawlState.crowdedState none (.fromHead "h" none) r := by
  intro r env served
  exact relayed_refused rfl (CrawlState.crowdedState_refuses 60000).2

end Radii
