import Radii.Routing.Graph

/-!
# What a snapshot leaves out

`add_link` of `crates/core/src/routing.rs` over any calls, one after the other.  It counts the nodes
that a link would add by looking for either end among those there are, and so counts a node twice
that is linked to itself.

* `truncated_iff` — exactly for which calls it leaves out no link that would have fitted.
* `fitting_loop_dropped` — calls for which it leaves one out.
-/

namespace Radii

namespace GraphSnapshot

/-- The calls, one after the other. -/
def addLinks (s : GraphSnapshot) (calls : List Link) : GraphSnapshot :=
  calls.foldl (fun s link => (s.addLink link).1) s

lemma addLinks_concat (s : GraphSnapshot) (calls : List Link) (link : Link) :
    s.addLinks (calls ++ [link]) = ((s.addLinks calls).addLink link).1 := by
  rw [addLinks, List.foldl_append]
  rfl

/-- The links of the calls that returned `true`. -/
def accepted : GraphSnapshot → List Link → List Link
  | _, [] => []
  | s, link :: calls =>
      if (s.addLink link).2 then link :: accepted (s.addLink link).1 calls
      else accepted (s.addLink link).1 calls

/-- A snapshot of reports is one of calls. -/
lemma fromReports_eq (reports : List ReachabilityReport) :
    fromReports reports = new.addLinks (reports.map fun report =>
      ⟨report.fromId, report.target, report.protocol, report.reachable, report.rttMs⟩) := by
  rw [addLinks, List.foldl_map]
  rfl

/-! ## What fits -/

/-- The nodes that the links have for ends. -/
def endpoints (links : List Link) : Finset NodeId :=
  (links.flatMap fun link => [link.fromId, link.toId]).toFinset

/-- The links, or their ends, are more than the ceilings allow. -/
def TooMany (links : List Link) : Prop :=
  maxGraphLinks < links.length ∨ maxGraphNodes < (endpoints links).card

/-- The nodes are the ends of the links, and neither are too many. -/
structure Consistent (s : GraphSnapshot) : Prop where
  nodes : s.nodes = endpoints s.links
  fit : ¬ TooMany s.links

/-- The link is from a new node to itself, for which alone there is room. -/
structure BrimLoop (s : GraphSnapshot) (link : Link) : Prop where
  loop : link.fromId = link.toId
  unknown : link.fromId ∉ s.nodes
  nodes : s.nodes.card + 1 = maxGraphNodes
  links : s.links.length < maxGraphLinks

/-- **Links are left out only where they must be.**  The snapshot holds the links that were
accepted, in their order, and their ends; the others are counted; and one is refused exactly if with
it the links or their ends would be more than the ceilings allow, and then changes neither. -/
structure Truncated (calls : List Link) : Prop where
  nodes : (new.addLinks calls).nodes = endpoints (new.addLinks calls).links
  links : (new.addLinks calls).links = accepted new calls
  counted : (new.addLinks calls).links.length + (new.addLinks calls).droppedLinks = calls.length
  linkCap : (new.addLinks calls).links.length ≤ maxGraphLinks
  nodeCap : (new.addLinks calls).nodes.card ≤ maxGraphNodes
  refused : ∀ before link, before ++ [link] <+: calls →
    (((new.addLinks before).addLink link).2 = false ↔
      TooMany ((new.addLinks before).links ++ [link]))
  unchanged : ∀ before link, before ++ [link] <+: calls →
    ((new.addLinks before).addLink link).2 = false →
      ((new.addLinks before).addLink link).1.links = (new.addLinks before).links ∧
      ((new.addLinks before).addLink link).1.nodes = (new.addLinks before).nodes

/-! ## One call -/

variable {s : GraphSnapshot} {link : Link}

lemma Consistent.linkCap (h : Consistent s) : s.links.length ≤ maxGraphLinks :=
  not_lt.mp fun hlinks => h.fit (Or.inl hlinks)

lemma Consistent.nodeCap (h : Consistent s) : s.nodes.card ≤ maxGraphNodes := by
  rw [h.nodes]
  exact not_lt.mp fun hnodes => h.fit (Or.inr hnodes)

lemma endpoints_concat (links : List Link) (link : Link) :
    endpoints (links ++ [link]) = insert link.toId (insert link.fromId (endpoints links)) := by
  ext node
  simp only [endpoints, List.flatMap_append, List.mem_toFinset, List.mem_append, List.flatMap_cons,
    List.flatMap_nil, List.append_nil, Finset.mem_insert, List.mem_cons, List.not_mem_nil, or_false]
  tauto

/-- The code's test: the links are at their ceiling, or would bring too many nodes as it counts
them. -/
def Full (s : GraphSnapshot) (link : Link) : Prop :=
  s.links.length ≥ maxGraphLinks ∨
    s.nodes.card + ((if link.fromId ∈ s.nodes then 0 else 1) +
      (if link.toId ∈ s.nodes then 0 else 1)) > maxGraphNodes

/-- **What a call does**: it refuses the link and counts it, or takes it and its ends. -/
lemma addLink_cases (s : GraphSnapshot) (link : Link) :
    (Full s link ∧ s.addLink link = ({ s with droppedLinks := s.droppedLinks + 1 }, false)) ∨
    (¬ Full s link ∧ s.addLink link =
      (⟨insert link.toId (insert link.fromId s.nodes), s.links ++ [link], s.droppedLinks⟩,
        true)) := by
  by_cases hfull : Full s link
  · exact Or.inl ⟨hfull, if_pos hfull⟩
  · exact Or.inr ⟨hfull, if_neg hfull⟩

lemma addLink_refuses : (s.addLink link).2 = false ↔ Full s link := by
  rcases addLink_cases s link with ⟨hfull, heq⟩ | ⟨hroom, heq⟩
  · simp [heq, hfull]
  · simp [heq, hroom]

/-- How many nodes there are with the link. -/
lemma Consistent.card_endpoints (h : Consistent s) (link : Link) :
    (endpoints (s.links ++ [link])).card = s.nodes.card + (if link.fromId ∈ s.nodes then 0 else 1) +
      (if link.toId = link.fromId ∨ link.toId ∈ s.nodes then 0 else 1) := by
  have hfrom : (insert link.fromId s.nodes).card =
      s.nodes.card + (if link.fromId ∈ s.nodes then 0 else 1) := by
    rw [Finset.card_insert_eq_ite]
    split_ifs
    · rfl
    · rfl
  rw [endpoints_concat, ← h.nodes, ← hfrom, Finset.card_insert_eq_ite]
  simp only [Finset.mem_insert]
  split_ifs
  · rfl
  · rfl

/-- What is refused is too many, but for a new node that is linked to itself. -/
lemma Consistent.full_iff (h : Consistent s) :
    Full s link ↔ TooMany (s.links ++ [link]) ∨ BrimLoop s link := by
  have hlinks := h.linkCap
  have hnodes := h.nodeCap
  rw [TooMany, h.card_endpoints, List.length_append, List.length_singleton, Full]
  by_cases hloop : link.toId = link.fromId
  · -- the code counts the node twice if it is new
    have hbrim : BrimLoop s link ↔ link.fromId ∉ s.nodes ∧
        s.nodes.card + 1 = maxGraphNodes ∧ s.links.length < maxGraphLinks :=
      ⟨fun hbrim => ⟨hbrim.unknown, hbrim.nodes, hbrim.links⟩,
        fun ⟨hnew, hcard, hlength⟩ => ⟨hloop.symm, hnew, hcard, hlength⟩⟩
    rw [hbrim, hloop]
    by_cases hfrom : link.fromId ∈ s.nodes
    · simp only [hfrom, if_true, true_or, not_true_eq_false, false_and, or_false]
      omega
    · simp only [hfrom, if_true, if_false, true_or, not_false_eq_true, true_and]
      omega
  · have hbrim : ¬ BrimLoop s link := fun hbrim => hloop hbrim.loop.symm
    simp only [hloop, hbrim, false_or, or_false]
    omega

/-- Of a new node linked to itself there is one to come. -/
lemma Consistent.fits_of_brimLoop (h : Consistent s) (hbrim : BrimLoop s link) :
    ¬ TooMany (s.links ++ [link]) := by
  have hlinks := hbrim.links
  have hnodes := hbrim.nodes
  rw [TooMany, h.card_endpoints, if_neg hbrim.unknown, if_pos (Or.inl hbrim.loop.symm),
    List.length_append, List.length_singleton]
  omega

lemma Consistent.refuses_brimLoop (h : Consistent s) (hbrim : BrimLoop s link) :
    (s.addLink link).2 = false :=
  addLink_refuses.mpr (h.full_iff.mpr (Or.inr hbrim))

/-- A call keeps the nodes and the ceilings. -/
lemma Consistent.addLink (h : Consistent s) (link : Link) : Consistent (s.addLink link).1 := by
  rcases addLink_cases s link with ⟨-, heq⟩ | ⟨hroom, heq⟩
  · rw [heq]
    exact ⟨h.nodes, h.fit⟩
  · rw [h.full_iff, not_or] at hroom
    rw [heq]
    refine ⟨?_, hroom.1⟩
    rw [endpoints_concat, h.nodes]

/-! ## All calls -/

lemma consistent_new : Consistent new := by
  refine ⟨rfl, ?_⟩
  rintro (hlinks | hnodes)
  · exact absurd hlinks (Nat.not_lt_zero _)
  · exact absurd hnodes (Nat.not_lt_zero _)

lemma Consistent.addLinks (h : Consistent s) (calls : List Link) :
    Consistent (s.addLinks calls) := by
  induction calls generalizing s with
  | nil => exact h
  | cons link calls ih => exact ih (h.addLink link)

/-- The links there are afterwards. -/
lemma links_addLinks (s : GraphSnapshot) (calls : List Link) :
    (s.addLinks calls).links = s.links ++ accepted s calls := by
  induction calls generalizing s with
  | nil => exact (List.append_nil _).symm
  | cons link calls ih =>
      refine (ih (s.addLink link).1).trans ?_
      rw [accepted]
      rcases addLink_cases s link with ⟨-, heq⟩ | ⟨-, heq⟩
      · simp [heq]
      · simp [heq]

/-- Every call is counted, among the links or those that were dropped. -/
lemma counted_addLinks (s : GraphSnapshot) (calls : List Link) :
    (s.addLinks calls).links.length + (s.addLinks calls).droppedLinks =
      s.links.length + s.droppedLinks + calls.length := by
  induction calls generalizing s with
  | nil => rfl
  | cons link calls ih =>
      refine (ih (s.addLink link).1).trans ?_
      rw [List.length_cons]
      rcases addLink_cases s link with ⟨-, heq⟩ | ⟨-, heq⟩
      · simp only [heq]
        omega
      · simp only [heq, List.length_append, List.length_singleton]
        omega

/-- **Exactly for which calls nothing is left out that fits**: those of which none is for a new node
linked to itself where there is room for one node, and only one. -/
theorem truncated_iff (calls : List Link) : Truncated calls ↔
    ∀ before link, before ++ [link] <+: calls → ¬ BrimLoop (new.addLinks before) link := by
  have hconsistent : ∀ before, Consistent (new.addLinks before) := consistent_new.addLinks
  constructor
  · intro h before link hcall hbrim
    have hrefused := (hconsistent before).refuses_brimLoop hbrim
    exact (hconsistent before).fits_of_brimLoop hbrim ((h.refused before link hcall).mp hrefused)
  · intro h
    refine ⟨(hconsistent calls).nodes, ?_, ?_, (hconsistent calls).linkCap,
      (hconsistent calls).nodeCap, ?_, ?_⟩
    · rw [links_addLinks]
      rfl
    · rw [counted_addLinks]
      exact Nat.zero_add _
    · intro before link hcall
      rw [addLink_refuses, (hconsistent before).full_iff]
      exact or_iff_left (h before link hcall)
    · intro before link _ hrefused
      rcases addLink_cases (new.addLinks before) link with ⟨-, heq⟩ | ⟨-, heq⟩
      · rw [heq]
        exact ⟨rfl, rfl⟩
      · rw [heq] at hrefused
        exact absurd hrefused (by simp)

/-! ## Calls that leave one out -/

def nodeName (i : ℕ) : NodeId := String.ofList ('n' :: Nat.toDigits 10 i)

lemma nodeName_injective : Function.Injective nodeName := by
  intro i j h
  have hdigits : Nat.toDigits 10 i = Nat.toDigits 10 j := by
    simpa [nodeName] using congrArg String.toList h
  rw [← Nat.ofDigitChars_ten_toDigits (n := i), hdigits, Nat.ofDigitChars_ten_toDigits]

/-- Links from `a` to so many nodes. -/
def star (n : ℕ) : List Link :=
  (List.range n).map fun i => ⟨"a", nodeName i, "radii", true, some 1⟩

lemma length_star (n : ℕ) : (star n).length = n := by
  rw [star, List.length_map, List.length_range]

lemma endpoints_star (n : ℕ) :
    endpoints (star (n + 1)) = insert "a" ((Finset.range (n + 1)).image nodeName) := by
  ext node
  simp only [endpoints, star, List.mem_toFinset, List.mem_flatMap, List.mem_map, List.mem_range,
    List.mem_cons, List.not_mem_nil, or_false, Finset.mem_insert, Finset.mem_image,
    Finset.mem_range]
  constructor
  · rintro ⟨_, ⟨i, hi, rfl⟩, rfl | rfl⟩
    · exact Or.inl rfl
    · exact Or.inr ⟨i, hi, rfl⟩
  · rintro (rfl | ⟨i, hi, rfl⟩)
    · exact ⟨_, ⟨0, Nat.succ_pos n, rfl⟩, Or.inl rfl⟩
    · exact ⟨_, ⟨i, hi, rfl⟩, Or.inr rfl⟩

lemma card_endpoints_star (n : ℕ) : (endpoints (star (n + 1))).card = n + 2 := by
  have ha : "a" ∉ (Finset.range (n + 1)).image nodeName := by
    rw [Finset.mem_image]
    rintro ⟨i, -, hi⟩
    have hhead := congrArg (fun name : String => name.toList.head?) hi
    simp [nodeName] at hhead
  rw [endpoints_star, Finset.card_insert_of_notMem ha,
    Finset.card_image_of_injective _ nodeName_injective, Finset.card_range]

lemma card_endpoints_star_le (n : ℕ) : (endpoints (star n)).card ≤ n + 1 := by
  cases n with
  | zero => exact Nat.zero_le _
  | succ n => rw [card_endpoints_star]

/-- All of them fit. -/
lemma links_star {n : ℕ} (hn : n + 1 < maxGraphNodes) : (new.addLinks (star n)).links = star n := by
  induction n with
  | zero => rfl
  | succ n ih =>
      have ih := ih (Nat.lt_of_succ_lt hn)
      have hnodes := (consistent_new.addLinks (star n)).nodes
      have hcard := card_endpoints_star_le n
      have hsucc : star (n + 1) = star n ++ [⟨"a", nodeName n, "radii", true, some 1⟩] := by
        rw [star, List.range_succ, List.map_append]
        rfl
      rw [ih] at hnodes
      rw [hsucc, addLinks_concat]
      rcases addLink_cases (new.addLinks (star n)) ⟨"a", nodeName n, "radii", true, some 1⟩ with
        ⟨hfull, -⟩ | ⟨-, heq⟩
      · rw [Full, ih, hnodes, length_star, maxGraphLinks] at hfull
        rw [maxGraphNodes] at hfull hn
        rcases hfull with hlinks | hcount
        · omega
        · split_ifs at hcount
          all_goals
            omega
      · rw [heq, ih]

/-- With them there is room for one more node. -/
lemma brimLoop_star {n : ℕ} (hn : n + 3 = maxGraphNodes) :
    BrimLoop (new.addLinks (star (n + 1))) ⟨"b", "b", "radii", true, some 1⟩ := by
  have hlinks := links_star (n := n + 1) (by omega)
  have hnodes := (consistent_new.addLinks (star (n + 1))).nodes
  rw [hlinks] at hnodes
  refine ⟨rfl, ?_, ?_, ?_⟩
  · rw [hnodes, endpoints_star, Finset.mem_insert, Finset.mem_image, not_or]
    refine ⟨by decide, ?_⟩
    rintro ⟨i, -, hi⟩
    have hhead := congrArg (fun name : String => name.toList.head?) hi
    simp [nodeName] at hhead
  · rw [hnodes, card_endpoints_star, hn]
  · rw [hlinks, length_star]
    rw [maxGraphNodes] at hn
    rw [maxGraphLinks]
    omega

/-- **A link is dropped that would have fitted**: with 4095 nodes, one from another node to
itself. -/
theorem fitting_loop_dropped :
    (new.addLinks (star 4094)).links = star 4094 ∧
    (new.addLinks (star 4094)).nodes.card = 4095 ∧
    ((new.addLinks (star 4094)).addLink ⟨"b", "b", "radii", true, some 1⟩).2 = false ∧
    ¬ TooMany ((new.addLinks (star 4094)).links ++ [⟨"b", "b", "radii", true, some 1⟩]) ∧
    ¬ Truncated (star 4094 ++ [⟨"b", "b", "radii", true, some 1⟩]) := by
  have hconsistent := consistent_new.addLinks (star 4094)
  have hlinks : (new.addLinks (star 4094)).links = star 4094 := by
    refine links_star ?_
    rw [maxGraphNodes]
    omega
  have hbrim : BrimLoop (new.addLinks (star 4094)) _ := brimLoop_star (n := 4093) rfl
  have hnodes : (new.addLinks (star 4094)).nodes.card = 4095 := by
    have hcard : _ + 1 = 4096 := hbrim.nodes
    omega
  have hrefused := hconsistent.refuses_brimLoop hbrim
  have hfits := hconsistent.fits_of_brimLoop hbrim
  refine ⟨hlinks, hnodes, hrefused, hfits, ?_⟩
  intro h
  exact hfits ((h.refused _ _ (List.prefix_refl _)).mp hrefused)

end GraphSnapshot

end Radii
