import Radii.Cli.Brand
import Radii.Head.Reported
import Radii.Proto.Validate

/-!
# What the CLI prints

The plain and the pretty formats of `crates/cli/src/graph.rs`, `head.rs` and `main.rs`.  What is
shown of Crawl's registry goes through `untrusted`; what a Head or a Crawl answers with does not.

* `clean_iff` — exactly for which documents no control character of theirs reaches the terminal.
* `backend_reaches_terminal` — some of which one does.
-/

namespace Radii

namespace Cli

open Text

variable (term : Term)

/-! ## The graph -/

/-- What the graph has observed about a node: one reachable observation is enough. -/
def nodeState (nodeId : String) (reports : List GraphReport) : Option Bool :=
  go false reports
where
  go (observed : Bool) : List GraphReport → Option Bool
    | [] => if observed then some false else none
    | report :: rest =>
        if report.fromId == nodeId || report.target == nodeId then
          if report.reachable then some true else go true rest
        else go observed rest

def stateLabel : Option Bool → String
  | some true => "reachable"
  | some false => "severed"
  | none => "unprobed"

def boolText (b : Bool) : String := if b then "true" else "false"

/-- A node's line in `print_plain`. -/
def plainNode (reports : List GraphReport) (node : NodeInfo) : Output :=
  let addrs := node.listenAddrs.map fun a => a.role.toList ++ '=' :: a.addr.toList
  [lit "node id=", .text (untrusted node.nodeId.toList),
    lit " state=", lit (stateLabel (nodeState node.nodeId reports)),
    lit " roles=", .text (untrusted (join "," (node.roles.map String.toList))),
    lit " addrs=", .text (untrusted (join "," addrs)), .newline]

def plainLink (report : GraphReport) : Output :=
  [lit "link from=", .text (untrusted report.fromId.toList),
    lit " target=", .text (untrusted report.target.toList),
    lit " protocol=", .text (untrusted report.protocol.toList),
    lit " reachable=", lit (boolText report.reachable),
    lit " rtt_ms=", .text ((report.rttMs.map fun ms => Nat.toDigits 10 ms.toNat).getD ['-']),
    .newline]

def printPlain (nodes : List NodeInfo) (reports : List GraphReport) : Output :=
  nodes.flatMap (plainNode reports) ++ reports.flatMap plainLink

/-- A listen address in `print_pretty`, under its node. -/
def prettyAddr (width : ℕ) (entry : ListenAddr) : Output :=
  lit "    " :: .text (List.replicate width ' ') :: lit "  " ::
    dim (untrusted entry.role.toList ++ [':']) term ++
    [lit " ", .text (untrusted entry.addr.toList), .newline]

def prettyNode (reports : List GraphReport) (width : ℕ) (node : NodeInfo) : Output :=
  let roles : Output := if node.roles.isEmpty then dim "no roles".toList term
    else [.text (untrusted (join ", " (node.roles.map String.toList)))]
  lit "  " :: reachGlyph (nodeState node.nodeId reports) term ++ lit " " ::
    literal (untrusted node.nodeId.toList) term ++
    .text (List.replicate (width - (untrusted node.nodeId.toList).length) ' ') :: lit "  " ::
    roles ++ .newline :: node.listenAddrs.flatMap (prettyAddr term width)

/-- The two ends of a link. -/
def pathText (report : GraphReport) : List Char :=
  untrusted report.fromId.toList ++ [' ', Char.ofNat 0x2192, ' '] ++ untrusted report.target.toList

def prettyLink (width : ℕ) (report : GraphReport) : Output :=
  let rtt : Output := match report.rttMs with
    | some ms => [.text (Nat.toDigits 10 ms.toNat), lit " ms"]
    | none => dim [Char.ofNat 0x2014] term
  lit "  " :: reachGlyph (some report.reachable) term ++ lit " " :: .text (pathText report) ::
    .text (List.replicate (width - (pathText report).length) ' ') :: lit "  " ::
    .text (padRight 8 (untrusted report.protocol.toList)) :: lit "  " :: rtt ++ [.newline]

/-- The most that `f` is of any of them. -/
def widest {α : Type} (f : α → ℕ) (xs : List α) : ℕ := xs.foldl (fun width x => max width (f x)) 0

def printPretty (nodes : List NodeInfo) (reports : List GraphReport) : Output :=
  if nodes.isEmpty && reports.isEmpty then
    dim "crawl holds no nodes and no links".toList term ++ [.newline]
  else
    (if nodes.isEmpty then []
    else heading "Nodes".toList term ++ .newline ::
      nodes.flatMap (prettyNode term reports
        (widest (fun node => (untrusted node.nodeId.toList).length) nodes))) ++
    (if reports.isEmpty then []
    else (if nodes.isEmpty then [] else [.newline]) ++ heading "Links".toList term ++ .newline ::
      reports.flatMap (prettyLink term (widest (fun report =>
        (untrusted report.fromId.toList).length + (untrusted report.target.toList).length)
          reports + 3)))

/-! ## Routes -/

/-- `{:.1}` of a score, which is a whole number. -/
def scoreText (score : ℕ) : List Char := Nat.toDigits 10 score ++ ".0".toList

def routeNames (route : RouteCandidate ℕ) : List (List Char) :=
  route.hops.map fun node => untrusted node.toList

def plainRoute (route : RouteCandidate ℕ) : Output :=
  [lit "score=", .text (scoreText route.score),
    lit " protocol=", .text (untrusted route.protocol.toList),
    lit " path=", .text (join " -> " (routeNames route)), .newline]

def prettyRoute (ranked : RouteCandidate ℕ × ℕ) : Output :=
  let (route, rank) := ranked
  reachGlyph (some true) term ++ lit " " :: .text (padLeft 2 (Nat.toDigits 10 (rank + 1))) ::
    lit "  " :: .text (padLeft 6 (scoreText route.score)) :: lit "  " ::
    .text (padRight 8 (untrusted route.protocol.toList)) :: lit "  " ::
    .text (join " → " (routeNames route)) :: [.newline]

def plainRoutes (routes : List (RouteCandidate ℕ)) : Output := routes.flatMap plainRoute

def prettyRoutes (routes : List (RouteCandidate ℕ)) : Output :=
  (if routes.isEmpty then dim "no route".toList term ++ [.newline] else []) ++
    routes.zipIdx.flatMap (prettyRoute term)

/-! ## Head's answers -/

/-- `/health`. -/
structure Health where
  status : String
  graph : String

def plainHealth (httpStatus : ℕ) (health : Health) : Output :=
  [lit "health http_status=", .text (Nat.toDigits 10 httpStatus),
    lit " status=", .text health.status.toList, lit " graph=", .text health.graph.toList, .newline]

/-- Head's graph freshness, coloured by what it means for routing. -/
def graphState (state : String) : Output :=
  if state = "fresh" then tinted state.toList .reach term
  else if state = "not_configured" then dim state.toList term
  else tinted state.toList .severed term

def prettyHealth (httpStatus : ℕ) (health : Health) : Output :=
  reachGlyph (some (health.status == "ok")) term ++ lit " " :: literal health.status.toList term ++
    lit "  " :: dim ("http ".toList ++ Nat.toDigits 10 httpStatus) term ++ .newline ::
    lit "  " :: dim "graph".toList term ++ lit " " :: graphState term health.graph ++ [.newline]

/-- `/_radii/decision`. -/
structure Decision where
  sourceIp : String
  host : Option String
  backend : String
  candidates : List String
  decisionReason : String

def plainDecision (decision : Decision) : Output :=
  [lit "decision host=", .text (decision.host.getD "-").toList,
    lit " backend=", .text decision.backend.toList,
    lit " reason=", .text decision.decisionReason.toList,
    lit " candidates=", .text (if decision.candidates.isEmpty then "-".toList
      else join "," (decision.candidates.map String.toList)), .newline]

/-- A candidate that would be tried after the first. -/
def failover (ranked : String × ℕ) : Output :=
  let (candidate, rank) := ranked
  lit "    " :: dim (Nat.toDigits 10 (rank + 2) ++ ['.']) term ++
    [lit "  ", .text candidate.toList, .newline]

def prettyDecision (decision : Decision) : Output :=
  reachGlyph (some true) term ++ lit " " :: literal decision.backend.toList term ++ .newline ::
    lit "  " :: dim "host   ".toList term ++
    [lit " ", .text (decision.host.getD "(none)").toList, .newline, lit "  "] ++
    dim "reason ".toList term ++
    [lit " ", .text decision.decisionReason.toList, .newline, lit "  "] ++
    dim "source ".toList term ++ [lit " ", .text decision.sourceIp.toList, .newline] ++
    if decision.candidates.length > 1 then
      lit "  " :: dim "failover".toList term ++ .newline ::
        (decision.candidates.drop 1).zipIdx.flatMap (failover term)
    else []

/-! ## Crawl's answers -/

/-- `print_reply`, of an ack. -/
def printAck (status : String) : Output := [lit "ack=", .text status.toList, .newline]

/-! ## All of it -/

/-- What the CLI is asked to show. -/
inductive Document where
  | graphSnapshot (nodes : List NodeInfo) (reports : List GraphReport)
  | routes (routes : List (RouteCandidate ℕ))
  | health (httpStatus : ℕ) (health : Health)
  | decision (decision : Decision)
  | ack (status : String)

/-- The formats that are for people. -/
inductive Format where
  | plain
  | pretty

def Document.print : Format → Document → Output
  | .plain, .graphSnapshot nodes reports => printPlain nodes reports
  | .pretty, .graphSnapshot nodes reports => printPretty term nodes reports
  | .plain, .routes found => plainRoutes found
  | .pretty, .routes found => prettyRoutes term found
  | .plain, .health httpStatus h => plainHealth httpStatus h
  | .pretty, .health httpStatus h => prettyHealth term httpStatus h
  | .plain, .decision d => plainDecision d
  | .pretty, .decision d => prettyDecision term d
  | _, .ack status => printAck status

/-- What the code shows as it is has no control characters. -/
def Document.Safe : Format → Document → Prop
  | _, .graphSnapshot _ _ => True
  | _, .routes _ => True
  | _, .health _ h => NoControl h.status.toList ∧ NoControl h.graph.toList
  | .plain, .decision d =>
      (∀ host, d.host = some host → NoControl host.toList) ∧ NoControl d.backend.toList ∧
      NoControl d.decisionReason.toList ∧ ∀ candidate ∈ d.candidates, NoControl candidate.toList
  | .pretty, .decision d =>
      (∀ host, d.host = some host → NoControl host.toList) ∧ NoControl d.backend.toList ∧
      NoControl d.decisionReason.toList ∧ NoControl d.sourceIp.toList ∧
      ∀ candidate ∈ d.candidates.drop 1, NoControl candidate.toList
  | _, .ack status => NoControl status.toList

variable {term}

/-! ## What is clean of it -/

lemma noControl_stateLabel (state : Option Bool) : NoControl (stateLabel state).toList := by
  match state with
  | some true => decide
  | some false => decide
  | none => decide

lemma noControl_boolText (b : Bool) : NoControl (boolText b).toList := by
  cases b with
  | false => decide
  | true => decide

/-- The registry is shown escaped. -/
lemma clean_printPlain (nodes : List NodeInfo) (reports : List GraphReport) :
    Clean (printPlain nodes reports) := by
  rw [printPlain, clean_append, clean_flatMap, clean_flatMap]
  refine ⟨?_, ?_⟩
  · intro node _
    simp +decide [plainNode, noControl_stateLabel]
  · intro report _
    have hrtt : NoControl ((report.rttMs.map fun ms => Nat.toDigits 10 ms.toNat).getD ['-']) := by
      cases report.rttMs with
      | none => decide
      | some ms => exact noControl_number _
    simp +decide [plainLink, noControl_boolText, hrtt]

lemma noControl_spaces (n : ℕ) : NoControl (List.replicate n ' ') :=
  noControl_replicate n (by decide)

lemma clean_prettyNode (reports : List GraphReport) (width : ℕ) (node : NodeInfo) :
    Clean (prettyNode term reports width node) := by
  have haddrs : Clean (node.listenAddrs.flatMap (prettyAddr term width)) := by
    rw [clean_flatMap]
    intro entry _
    simp +decide [prettyAddr, noControl_spaces]
  have hroles : Clean (if node.roles.isEmpty then dim "no roles".toList term
      else [.text (untrusted (join ", " (node.roles.map String.toList)))]) := by
    split_ifs
    · exact clean_dim.mpr (by decide)
    · simp
  simp only [prettyNode, clean_append, clean_lit, clean_text, clean_newline, haddrs, hroles,
    clean_reachGlyph, clean_literal, untrusted_noControl, noControl_spaces]
  decide

lemma clean_prettyLink (width : ℕ) (report : GraphReport) :
    Clean (prettyLink term width report) := by
  have hpath : NoControl (pathText report) := by
    rw [pathText, noControl_append, noControl_append]
    exact ⟨⟨untrusted_noControl _, by decide⟩, untrusted_noControl _⟩
  have hrtt : Clean (match report.rttMs with
      | some ms => [.text (Nat.toDigits 10 ms.toNat), lit " ms"]
      | none => dim [Char.ofNat 0x2014] term : Output) := by
    cases report.rttMs with
    | none => exact clean_dim.mpr (by decide)
    | some ms => simp +decide
  simp only [prettyLink, clean_append, clean_lit, clean_text, clean_newline, hpath, hrtt,
    clean_reachGlyph, untrusted_noControl, noControl_spaces, noControl_padRight, clean_nil]
  decide

lemma clean_printPretty (nodes : List NodeInfo) (reports : List GraphReport) :
    Clean (printPretty term nodes reports) := by
  rw [printPretty]
  have hnodes : ∀ width, Clean (nodes.flatMap (prettyNode term reports width)) := by
    intro width
    rw [clean_flatMap]
    exact fun node _ => clean_prettyNode reports width node
  have hlinks : ∀ width, Clean (reports.flatMap (prettyLink term width)) := by
    intro width
    rw [clean_flatMap]
    exact fun report _ => clean_prettyLink width report
  split_ifs
  all_goals
    simp +decide [hnodes, hlinks]

lemma noControl_scoreText (score : ℕ) : NoControl (scoreText score) :=
  noControl_append.mpr ⟨noControl_number score, by decide⟩

lemma noControl_routeNames {separator : String} (hseparator : NoControl separator.toList)
    (route : RouteCandidate ℕ) : NoControl (join separator (routeNames route)) := by
  rw [noControl_join hseparator]
  intro name hname
  rcases List.mem_map.mp hname with ⟨node, -, rfl⟩
  exact untrusted_noControl _

lemma clean_plainRoutes (routes : List (RouteCandidate ℕ)) : Clean (plainRoutes routes) := by
  rw [plainRoutes, clean_flatMap]
  intro route _
  simp +decide [plainRoute, noControl_scoreText, noControl_routeNames]

lemma clean_prettyRoutes (routes : List (RouteCandidate ℕ)) : Clean (prettyRoutes term routes) := by
  rw [prettyRoutes, clean_append, clean_flatMap]
  refine ⟨?_, ?_⟩
  · split_ifs
    · simp +decide
    · exact clean_nil
  · intro ranked _
    have hnames := noControl_routeNames (show NoControl " → ".toList by decide) ranked.1
    simp +decide [prettyRoute, noControl_scoreText, hnames]

/-! ## What is shown as it is -/

lemma noControl_getD {text : Option String} {absent : String} (habsent : NoControl absent.toList) :
    NoControl (text.getD absent).toList ↔ ∀ t, text = some t → NoControl t.toList := by
  cases text with
  | none => simpa using habsent
  | some t => simp

lemma clean_graphState (state : String) :
    Clean (graphState term state) ↔ NoControl state.toList := by
  rw [graphState]
  split_ifs
  · exact clean_tinted
  · exact clean_dim
  · exact clean_tinted

lemma clean_plainHealth (httpStatus : ℕ) (health : Health) : Clean (plainHealth httpStatus health) ↔
    NoControl health.status.toList ∧ NoControl health.graph.toList := by
  simp +decide [plainHealth]

lemma clean_prettyHealth (httpStatus : ℕ) (health : Health) :
    Clean (prettyHealth term httpStatus health) ↔
      NoControl health.status.toList ∧ NoControl health.graph.toList := by
  have hhttp : NoControl ("http ".toList ++ Nat.toDigits 10 httpStatus) :=
    noControl_append.mpr ⟨by decide, noControl_number httpStatus⟩
  simp only [prettyHealth, clean_append, clean_lit, clean_newline, clean_nil, clean_dim,
    clean_literal, clean_reachGlyph, clean_graphState, hhttp]
  simp +decide

lemma clean_plainDecision (decision : Decision) : Clean (plainDecision decision) ↔
    (∀ host, decision.host = some host → NoControl host.toList) ∧
    NoControl decision.backend.toList ∧ NoControl decision.decisionReason.toList ∧
    ∀ candidate ∈ decision.candidates, NoControl candidate.toList := by
  have hcandidates : NoControl (if decision.candidates.isEmpty then "-".toList
      else join "," (decision.candidates.map String.toList)) ↔
      ∀ candidate ∈ decision.candidates, NoControl candidate.toList := by
    split_ifs with hempty
    · rw [List.isEmpty_iff.mp hempty]
      simp +decide
    · rw [noControl_join (by decide), List.forall_mem_map]
  simp only [plainDecision, clean_lit, clean_text, clean_newline, clean_nil, and_true, hcandidates,
    noControl_getD (show NoControl "-".toList by decide)]
  simp +decide

/-- With one candidate there is nothing to fail over to. -/
lemma clean_failover (decision : Decision) :
    Clean (if decision.candidates.length > 1 then
      lit "  " :: dim "failover".toList term ++ .newline ::
        (decision.candidates.drop 1).zipIdx.flatMap (failover term)
    else []) ↔ ∀ candidate ∈ decision.candidates.drop 1, NoControl candidate.toList := by
  split_ifs with hmany
  · have heach : ∀ ranked, Clean (failover term ranked) ↔ NoControl ranked.1.toList := by
      rintro ⟨candidate, rank⟩
      simp +decide [failover]
    simp only [clean_lit, clean_append, clean_dim, clean_newline, clean_flatMap, heach]
    constructor
    · rintro ⟨-, h⟩ candidate hcandidate
      rcases List.getElem?_of_mem hcandidate with ⟨rank, hrank⟩
      exact h (candidate, rank) (List.mem_zipIdx_iff_getElem?.mpr hrank)
    · intro h
      refine ⟨by decide, ?_⟩
      intro ranked hranked
      exact h ranked.1 (List.mem_of_getElem? (List.mem_zipIdx_iff_getElem?.mp hranked))
  · rw [List.drop_eq_nil_of_le (not_lt.mp hmany)]
    simp

lemma clean_prettyDecision (decision : Decision) : Clean (prettyDecision term decision) ↔
    (∀ host, decision.host = some host → NoControl host.toList) ∧
    NoControl decision.backend.toList ∧ NoControl decision.decisionReason.toList ∧
    NoControl decision.sourceIp.toList ∧
    ∀ candidate ∈ decision.candidates.drop 1, NoControl candidate.toList := by
  rw [prettyDecision, clean_append, clean_failover]
  simp only [clean_append, clean_lit, clean_text, clean_newline, clean_nil, clean_dim,
    clean_literal, clean_reachGlyph, noControl_getD (show NoControl "(none)".toList by decide)]
  simp +decide
  tauto

/-- **Exactly which documents are shown without control characters of theirs**: every graph and every
list of routes; an ack whose status has none; a health document of whose two texts neither has; and a
decision of whose texts that are shown none has, which in the pretty format are not the first
candidate, and the source too. -/
theorem clean_iff (term : Term) (format : Format) (document : Document) :
    Clean (document.print term format) ↔ document.Safe format := by
  cases document with
  | graphSnapshot nodes reports =>
      cases format with
      | plain => exact iff_of_true (clean_printPlain nodes reports) trivial
      | pretty => exact iff_of_true (clean_printPretty nodes reports) trivial
  | routes found =>
      cases format with
      | plain => exact iff_of_true (clean_plainRoutes found) trivial
      | pretty => exact iff_of_true (clean_prettyRoutes found) trivial
  | health httpStatus health =>
      cases format with
      | plain => exact clean_plainHealth httpStatus health
      | pretty => exact clean_prettyHealth httpStatus health
  | decision decision =>
      cases format with
      | plain => exact clean_plainDecision decision
      | pretty => exact clean_prettyDecision decision
  | ack status =>
      have hack : Clean (printAck status) ↔ NoControl status.toList := by
        simp +decide [printAck]
      cases format with
      | plain => exact hack
      | pretty => exact hack

/-! ## What is not -/

/-- As Head writes it and the CLI reads it. -/
def Decision.ofResponse (response : Radii.Decision.HeadResponse) : Decision where
  sourceIp := response.sourceIp
  host := response.host
  backend := response.backend
  candidates := response.candidates
  decisionReason := response.decisionReason

/-- An address that gives the terminal a title. -/
def titleAddr : String := "10.0.0.5:9000\x1b]0;pwned\x07"

/-- A Head whose graph has a node with that address. -/
def titledPolicy : Radii.Decision.GraphRoutePolicy where
  nodeMap := AList.insert "a.example" ["node-b"] ∅
  source := "head"
  allowedProtocols := []
  maxHops := 4
  maxCandidates := 3
  state :=
    { state := ⟨.fromReports [⟨"head", "node-b", "http", true, some 15⟩],
        AList.insert "node-b" [(titleAddr, "relay")] ∅⟩
      poisoned := false }

/-- What it answers about `a.example`. -/
def titledResponse : Radii.Decision.HeadResponse :=
  Radii.Decision.decisionJson Http.fieldLines
    (.fromConfigWithGraph (fun _ _ _ => .default) Radii.Decision.twoHosts (some titledPolicy))
    (fun _ => none) localhost ⟨[(hostName, Http.ascii "a.example".toList)], none⟩

/-- **A peer writes to the operator's terminal.**  Crawl accepts its hello, Head plans to the address
in it, and the CLI shows Head's decision as it is; and so it does an ack's status. -/
theorem backend_reaches_terminal :
    let term : Term := ⟨false, false, none⟩
    let decision := Document.decision (.ofResponse titledResponse)
    validateMessage (.nodeHello "node-b" [] [⟨titleAddr, "relay"⟩]) = .ok () ∧
    (∀ sequence, printed sequence (decision.print term .plain) =
      ("decision host=a.example backend=10.0.0.5:9000\x1b]0;pwned\x07 reason=graph_route " ++
        "candidates=10.0.0.5:9000\x1b]0;pwned\x07\n").toList) ∧
    ¬ Clean (decision.print term .plain) ∧ ¬ Clean (decision.print term .pretty) ∧
    ¬ Clean ((Document.ack "\x1b[2J").print term .plain) := by
  intro term decision
  have hbackend : ¬ NoControl titledResponse.backend.toList := by decide
  refine ⟨by decide, fun sequence => rfl, ?_, ?_, ?_⟩
  · exact fun h => hbackend ((clean_plainDecision _).mp h).2.1
  · exact fun h => hbackend ((clean_prettyDecision _).mp h).2.1
  · exact fun h => absurd (clean_text.mp (clean_lit _ |>.mp h).2).1 (by decide)

end Cli

end Radii
