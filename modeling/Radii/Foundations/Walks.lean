import Mathlib

/-!
# Walks and paths in a network

A network has vertices and edges with a cost each; two vertices may be joined by several edges.  A
walk is a list of edges, a path a list of vertices in which none comes twice.  What a path costs is
the sum over its hops of the cheapest edge for the hop, and `Along` says of a list of edges that it
takes a cheapest edge at every hop.

A shortest walk runs along its vertices (`Shortest.along`), so a shortest walk past a given root,
if it visits no vertex twice, makes a cheapest path of those that begin with the root
(`Shortest.cheapest_after`).
-/

namespace Graphs

/-- Edges between vertices, which of them are there, and what each costs.  Where two vertices are
joined, some edge is a cheapest one. -/
structure CostGraph (V E C : Type) [LE C] where
  src : E → V
  dst : E → V
  cost : E → C
  Has : E → Prop
  attains : ∀ a b, (∃ e, Has e ∧ src e = a ∧ dst e = b) → ∃ e, (Has e ∧ src e = a ∧ dst e = b) ∧
    ∀ d, Has d → src d = a → dst d = b → cost e ≤ cost d

namespace CostGraph

variable {V E C : Type}

/-! ## Walks -/

section Walks

variable [LE C] (G : CostGraph V E C)

/-- The edges `es` lead from `s` to `t`. -/
def IsWalk : V → List E → V → Prop
  | s, [], t => s = t
  | s, e :: es, t => G.Has e ∧ G.src e = s ∧ IsWalk (G.dst e) es t

/-- The vertices of a walk that starts at `s`. -/
def vertices (s : V) (es : List E) : List V := s :: es.map G.dst

@[simp] lemma vertices_nil (s : V) : G.vertices s [] = [s] := rfl

@[simp] lemma vertices_cons (s : V) (e : E) (es : List E) :
    G.vertices s (e :: es) = s :: G.vertices (G.dst e) es := rfl

@[simp] lemma vertices_length (s : V) (es : List E) :
    (G.vertices s es).length = es.length + 1 := by
  simp [vertices]

/-- Whether some edge leads from `a` to `b`. -/
def Joined (a b : V) : Prop := ∃ e, G.Has e ∧ G.src e = a ∧ G.dst e = b

/-- The edge is a cheapest one from `a` to `b`. -/
def Cheapest (a b : V) (e : E) : Prop :=
  (G.Has e ∧ G.src e = a ∧ G.dst e = b) ∧
    ∀ d, G.Has d → G.src d = a → G.dst d = b → G.cost e ≤ G.cost d

/-- A path from `s` to `t` of at most `h` hops. -/
structure IsPath (s t : V) (h : ℕ) (p : List V) : Prop where
  head : p.head? = some s
  last : p.getLast? = some t
  nodup : p.Nodup
  joined : p.IsChain G.Joined
  length : p.length ≤ h + 1

/-- The paths from `s` to `t` of at most `h` hops. -/
def paths (s t : V) (h : ℕ) : Set (List V) := {p | G.IsPath s t h p}

/-- The edges take a cheapest edge for every hop of the path. -/
def Along : List V → List E → Prop
  | [_], [] => True
  | a :: b :: rest, e :: es => G.Cheapest a b e ∧ Along (b :: rest) es
  | _, _ => False

variable {G}

/-- Every vertex of a chain but the first is one that some vertex goes to. -/
lemma exists_joined {a : V} {l : List V} (h : (a :: l).IsChain G.Joined) {x : V} (hx : x ∈ l) :
    ∃ b, G.Joined b x := by
  induction l generalizing a with
  | nil => exact absurd hx List.not_mem_nil
  | cons b l ih =>
      rw [List.isChain_cons_cons] at h
      rcases List.mem_cons.mp hx with rfl | hx
      · exact ⟨a, h.1⟩
      · exact ih h.2 hx

/-- A simple path back to where it starts goes nowhere. -/
lemma paths_self (s : V) (h : ℕ) : G.paths s s h = {[s]} := by
  ext p
  constructor
  · intro hp
    obtain ⟨rest, rfl⟩ := List.head?_eq_some_iff.mp hp.head
    cases rest with
    | nil => rfl
    | cons a rest =>
        have hlast : (a :: rest).getLast? = some s := by
          rw [← hp.last, List.getLast?_cons_cons]
        exact absurd (List.mem_of_getLast? hlast) (List.nodup_cons.mp hp.nodup).1
  · rintro rfl
    exact ⟨rfl, rfl, List.nodup_singleton s, List.isChain_singleton s, Nat.le_add_left 1 h⟩

/-- A walk with one more edge at its end. -/
lemma isWalk_concat {s t : V} {es : List E} {e : E} :
    G.IsWalk s (es ++ [e]) t ↔ G.IsWalk s es (G.src e) ∧ G.Has e ∧ G.dst e = t := by
  induction es generalizing s with
  | nil =>
      simp only [List.nil_append, IsWalk]
      exact ⟨fun ⟨he, hs, ht⟩ => ⟨hs.symm, he, ht⟩, fun ⟨hs, he, ht⟩ => ⟨he, hs.symm, ht⟩⟩
  | cons d es ih =>
      simp only [List.cons_append, IsWalk, ih]
      exact ⟨fun ⟨hd, hs, hw⟩ => ⟨⟨hd, hs, hw.1⟩, hw.2⟩, fun ⟨⟨hd, hs, hw⟩, he⟩ => ⟨hd, hs, hw, he⟩⟩

lemma IsWalk.last {s t : V} {es : List E} (h : G.IsWalk s es t) :
    (G.vertices s es).getLast? = some t := by
  induction es generalizing s with
  | nil =>
      rw [IsWalk] at h
      simp [h]
  | cons e es ih =>
      rw [vertices_cons, vertices, List.getLast?_cons_cons]
      exact ih h.2.2

/-- The hops of a walk are those of its edges. -/
lemma IsWalk.zip_vertices {s t : V} {es : List E} (h : G.IsWalk s es t) :
    (G.vertices s es).zip (es.map G.dst) = es.map fun e => (G.src e, G.dst e) := by
  induction es generalizing s with
  | nil => rfl
  | cons e es ih =>
      rcases h with ⟨-, rfl, hwalk⟩
      rw [vertices_cons, List.map_cons, List.zip_cons_cons, ih hwalk, List.map_cons]

/-- An edge of a walk starts at a vertex of it. -/
lemma IsWalk.src_mem {s t : V} {es : List E} (h : G.IsWalk s es t) {e : E} (he : e ∈ es) :
    G.src e ∈ G.vertices s es := by
  induction es generalizing s with
  | nil => simp at he
  | cons d es ih =>
      rcases List.mem_cons.mp he with rfl | he
      · rw [h.2.1]
        exact List.mem_cons_self
      · exact List.mem_cons_of_mem _ (ih h.2.2 he)

lemma Joined.cheapest {a b : V} (h : G.Joined a b) : ∃ e, G.Cheapest a b e := G.attains a b h

lemma Cheapest.joined {a b : V} {e : E} (h : G.Cheapest a b e) : G.Joined a b := ⟨e, h.1⟩

/-! ## Edges along a path -/

lemma Along.length {p : List V} {es : List E} (h : G.Along p es) : p.length = es.length + 1 := by
  induction p generalizing es with
  | nil => exact absurd h id
  | cons a p ih =>
      match p, es, h with
      | [], [], _ => rfl
      | b :: rest, e :: es, h => rw [List.length_cons, ih h.2, List.length_cons]

lemma Along.isWalk {a t : V} {p : List V} {es : List E} (h : G.Along (a :: p) es)
    (ht : (a :: p).getLast? = some t) : G.IsWalk a es t ∧ G.vertices a es = a :: p := by
  induction p generalizing a es with
  | nil =>
      match es, h with
      | [], _ =>
          rw [List.getLast?_singleton, Option.some.injEq] at ht
          exact ⟨ht, rfl⟩
  | cons b rest ih =>
      match es, h with
      | e :: es, h =>
          rcases h with ⟨⟨⟨he, hs, hd⟩, -⟩, hrest⟩
          rw [List.getLast?_cons_cons] at ht
          obtain ⟨hwalk, hvertices⟩ := ih hrest ht
          exact ⟨⟨he, hs, hd ▸ hwalk⟩, by rw [vertices_cons, hd, hvertices]⟩

lemma Along.joined {a : V} {p : List V} {es : List E} (h : G.Along (a :: p) es) :
    (a :: p).IsChain G.Joined := by
  induction p generalizing a es with
  | nil => exact List.isChain_singleton a
  | cons b rest ih =>
      match es, h with
      | e :: es, h => exact List.isChain_cons_cons.mpr ⟨h.1.joined, ih h.2⟩

/-- Every path has cheapest edges to take. -/
lemma exists_along {a : V} {p : List V} (h : (a :: p).IsChain G.Joined) :
    ∃ es, G.Along (a :: p) es := by
  induction p generalizing a with
  | nil => exact ⟨[], trivial⟩
  | cons b rest ih =>
      rw [List.isChain_cons_cons] at h
      rcases h.1.cheapest with ⟨e, he⟩
      rcases ih h.2 with ⟨es, hes⟩
      exact ⟨e :: es, he, hes⟩

/-- The edges along a path, up to a vertex of it. -/
lemma Along.take {pre : List V} {v : V} {rest : List V} {es : List E}
    (h : G.Along (pre ++ v :: rest) es) : G.Along (pre ++ [v]) (es.take pre.length) := by
  induction pre generalizing es with
  | nil => exact trivial
  | cons a pre ih =>
      match pre, es, h with
      | [], e :: es, h => exact ⟨h.1, trivial⟩
      | b :: pre, e :: es, h => exact ⟨h.1, ih h.2⟩

lemma Along.append {pre : List V} {v : V} {rest : List V} {es fs : List E}
    (h : G.Along (pre ++ [v]) es) (h' : G.Along (v :: rest) fs) :
    G.Along (pre ++ v :: rest) (es ++ fs) := by
  induction pre generalizing es with
  | nil =>
      match es, h with
      | [], _ => exact h'
  | cons a pre ih =>
      match pre, es, h with
      | [], e :: es, h =>
          have hes : es = [] := List.eq_nil_of_length_eq_zero (by simpa using h.2.length)
          subst hes
          exact ⟨h.1, h'⟩
      | b :: pre, e :: es, h => exact ⟨h.1, ih h.2⟩

/-! ## Leaving hops out -/

variable (G) in
/-- The network without the hops that are not allowed. -/
def restrict (allowed : V → V → Prop) : CostGraph V E C where
  src := G.src
  dst := G.dst
  cost := G.cost
  Has e := G.Has e ∧ allowed (G.src e) (G.dst e)
  attains := by
    rintro a b ⟨e, ⟨he, hallowed⟩, rfl, rfl⟩
    obtain ⟨d, ⟨hd, hs, ht⟩, hleast⟩ := G.attains _ _ ⟨e, he, rfl, rfl⟩
    exact ⟨d, ⟨⟨hd, by rwa [hs, ht]⟩, hs, ht⟩, fun f hf => hleast f hf.1⟩

variable {allowed : V → V → Prop}

lemma restrict_of_all (h : ∀ a b, allowed a b) : G.restrict allowed = G := by
  rcases G with ⟨src, dst, cost, Has, attains⟩
  rw [restrict, mk.injEq]
  refine ⟨rfl, rfl, rfl, funext ?_⟩
  intro e
  simp [h]

lemma isWalk_restrict {s t : V} {es : List E} :
    (G.restrict allowed).IsWalk s es t ↔
      G.IsWalk s es t ∧ ∀ e ∈ es, allowed (G.src e) (G.dst e) := by
  induction es generalizing s with
  | nil => simp [IsWalk]
  | cons e es ih =>
      simp only [IsWalk, List.forall_mem_cons]
      rw [show (G.restrict allowed).dst e = G.dst e from rfl, ih]
      exact ⟨fun ⟨⟨he, ha⟩, hs, hw, hall⟩ => ⟨⟨he, hs, hw⟩, ha, hall⟩,
        fun ⟨⟨he, hs, hw⟩, ha, hall⟩ => ⟨⟨he, ha⟩, hs, hw, hall⟩⟩

lemma along_restrict {p : List V} {es : List E} (h : (G.restrict allowed).Along p es) :
    G.Along p es := by
  induction p generalizing es with
  | nil => exact absurd h id
  | cons a p ih =>
      match p, es, h with
      | [], [], _ => trivial
      | b :: rest, e :: es, h =>
          rcases h with ⟨⟨⟨⟨he, hallowed⟩, hs, hd⟩, hleast⟩, hrest⟩
          have hs : G.src e = a := hs
          have hd : G.dst e = b := hd
          rw [hs, hd] at hallowed
          refine ⟨⟨⟨he, hs, hd⟩, fun f hf hfs hfd => hleast f ⟨hf, ?_⟩ hfs hfd⟩, ih hrest⟩
          rwa [hfs, hfd]

end Walks

/-! ## Costs -/

section Costs

variable [AddCommMonoid C] [LinearOrder C] (G : CostGraph V E C)

def walkCost (es : List E) : C := (es.map G.cost).sum

@[simp] lemma walkCost_nil : G.walkCost [] = 0 := rfl

@[simp] lemma walkCost_cons (e : E) (es : List E) :
    G.walkCost (e :: es) = G.cost e + G.walkCost es := by
  simp [walkCost]

@[simp] lemma walkCost_append (es fs : List E) :
    G.walkCost (es ++ fs) = G.walkCost es + G.walkCost fs := by
  simp [walkCost]

open Classical in
/-- What the hop from `a` to `b` costs. -/
noncomputable def hopCost (a b : V) : C :=
  if h : ∃ e, G.Cheapest a b e then G.cost h.choose else 0

noncomputable def pathCost : List V → C
  | a :: b :: rest => G.hopCost a b + pathCost (b :: rest)
  | _ => 0

/-- A cheapest walk of at most `h` edges. -/
structure Shortest (s t : V) (h : ℕ) (es : List E) : Prop where
  isWalk : G.IsWalk s es t
  length : es.length ≤ h
  least : ∀ fs, G.IsWalk s fs t → fs.length ≤ h → G.walkCost es ≤ G.walkCost fs

variable {G}

lemma Cheapest.cost {a b : V} {e : E} (h : G.Cheapest a b e) : G.cost e = G.hopCost a b := by
  have hex : ∃ e, G.Cheapest a b e := ⟨e, h⟩
  rcases hex.choose_spec with ⟨⟨hhas, hs, hd⟩, hle⟩
  rw [hopCost, dif_pos hex]
  exact le_antisymm (h.2 _ hhas hs hd) (hle e h.1.1 h.1.2.1 h.1.2.2)

lemma hopCost_le {a b : V} {e : E} (he : G.Has e) (hs : G.src e = a) (hd : G.dst e = b) :
    G.hopCost a b ≤ G.cost e := by
  obtain ⟨d, hcheapest⟩ := G.attains a b ⟨e, he, hs, hd⟩
  rw [← Cheapest.cost hcheapest]
  exact hcheapest.2 e he hs hd

/-- A hop costs the least that an edge does. -/
lemma hopCost_eq_sInf (G : CostGraph V E ℕ) (a b : V) :
    G.hopCost a b = sInf {c | ∃ e, G.Has e ∧ G.src e = a ∧ G.dst e = b ∧ G.cost e = c} := by
  by_cases hjoined : G.Joined a b
  · obtain ⟨e, he⟩ := hjoined.cheapest
    rw [← he.cost]
    refine le_antisymm (le_csInf ⟨_, e, he.1.1, he.1.2.1, he.1.2.2, rfl⟩ ?_)
      (Nat.sInf_le ⟨e, he.1.1, he.1.2.1, he.1.2.2, rfl⟩)
    rintro _ ⟨d, hd, hs, ht, rfl⟩
    exact he.2 d hd hs ht
  · have hempty : {c | ∃ e, G.Has e ∧ G.src e = a ∧ G.dst e = b ∧ G.cost e = c} = ∅ := by
      refine Set.eq_empty_of_forall_notMem ?_
      rintro _ ⟨e, he, hs, ht, rfl⟩
      exact hjoined ⟨e, he, hs, ht⟩
    rw [hempty, Nat.sInf_empty, hopCost, dif_neg fun ⟨e, he⟩ => hjoined he.joined]

/-- The cost of a path through `v` is that of its two parts. -/
lemma pathCost_split (pre : List V) (v : V) (rest : List V) :
    G.pathCost (pre ++ v :: rest) = G.pathCost (pre ++ [v]) + G.pathCost (v :: rest) := by
  induction pre with
  | nil => simp [pathCost]
  | cons a pre ih =>
      cases pre with
      | nil => simp [pathCost]
      | cons b pre =>
          simp only [List.cons_append, pathCost] at ih ⊢
          rw [ih, add_assoc]

lemma Along.cost {p : List V} {es : List E} (h : G.Along p es) :
    G.walkCost es = G.pathCost p := by
  induction p generalizing es with
  | nil => exact absurd h id
  | cons a p ih =>
      match p, es, h with
      | [], [], _ => rfl
      | b :: rest, e :: es, h =>
          rw [walkCost_cons, pathCost, ih h.2, h.1.cost]

variable [IsOrderedCancelAddMonoid C]

/-- A walk runs along its vertices at no smaller cost than theirs, and at the same cost only if it
takes a cheapest edge everywhere. -/
lemma IsWalk.along {s t : V} {es : List E} (h : G.IsWalk s es t) :
    G.pathCost (G.vertices s es) ≤ G.walkCost es ∧
      (G.walkCost es ≤ G.pathCost (G.vertices s es) → G.Along (G.vertices s es) es) ∧
      (G.vertices s es).IsChain G.Joined := by
  induction es generalizing s with
  | nil => exact ⟨le_refl _, fun _ => trivial, List.isChain_singleton s⟩
  | cons e es ih =>
      rcases h with ⟨he, hs, hwalk⟩
      rcases ih hwalk with ⟨hle, halong, hjoined⟩
      have hhop := hopCost_le he hs rfl
      have hcost : G.pathCost (G.vertices s (e :: es)) =
          G.hopCost s (G.dst e) + G.pathCost (G.vertices (G.dst e) es) := rfl
      rw [hcost, walkCost_cons]
      refine ⟨add_le_add hhop hle, fun hge => ⟨⟨⟨he, hs, rfl⟩, ?_⟩, ?_⟩, ?_⟩
      · intro d hd hds hdd
        refine le_trans ?_ (hopCost_le hd hds hdd)
        exact le_of_add_le_add_right (hge.trans (by gcongr))
      · exact halong (le_of_add_le_add_left (hge.trans (by gcongr)))
      · exact List.isChain_cons_cons.mpr ⟨⟨e, he, hs, rfl⟩, hjoined⟩

lemma walkCost_nonneg (hcost : ∀ e, 0 ≤ G.cost e) (es : List E) : 0 ≤ G.walkCost es := by
  induction es with
  | nil => exact le_refl _
  | cons e es ih =>
      rw [walkCost_cons]
      exact add_nonneg (hcost e) ih

/-- The part of a walk up to a vertex it visits. -/
lemma IsWalk.upto (hcost : ∀ e, 0 ≤ G.cost e) {s t v : V} {es : List E}
    (hes : G.IsWalk s es t) (hv : v ∈ G.vertices s es) :
    ∃ fs, G.IsWalk s fs v ∧ fs.length ≤ es.length ∧ G.walkCost fs ≤ G.walkCost es := by
  induction es generalizing s with
  | nil =>
      rw [vertices_nil, List.mem_singleton] at hv
      exact ⟨[], hv.symm, le_refl _, le_refl _⟩
  | cons e es ih =>
      rcases List.mem_cons.mp hv with rfl | hv
      · exact ⟨[], rfl, Nat.zero_le _, walkCost_nonneg hcost _⟩
      · obtain ⟨fs, hfs, hlength, hle⟩ := ih hes.2.2 hv
        refine ⟨e :: fs, ⟨hes.1, hes.2.1, hfs⟩, Nat.succ_le_succ hlength, ?_⟩
        rw [walkCost_cons, walkCost_cons]
        gcongr

/-- A shortest walk takes a cheapest edge at every hop. -/
lemma Shortest.along {s t : V} {h : ℕ} {es : List E} (hes : G.Shortest s t h es) :
    G.Along (G.vertices s es) es := by
  rcases hes.isWalk.along with ⟨-, halong, hjoined⟩
  rcases exists_along hjoined with ⟨fs, hfs⟩
  rcases hfs.isWalk hes.isWalk.last with ⟨hwalk, -⟩
  have hlength : fs.length = es.length := by
    have := hfs.length
    rw [List.length_cons, List.length_map] at this
    omega
  exact halong (hfs.cost ▸ hes.least fs hwalk (hlength.trans_le hes.length))

omit [IsOrderedCancelAddMonoid C] in
/-- A path gives a walk of what it costs. -/
lemma IsPath.walk {s t : V} {h : ℕ} {p : List V} (hp : G.IsPath s t h p) :
    ∃ es, G.IsWalk s es t ∧ es.length ≤ h ∧ G.walkCost es = G.pathCost p := by
  obtain ⟨rest, rfl⟩ := List.head?_eq_some_iff.mp hp.head
  rcases exists_along hp.joined with ⟨es, hes⟩
  refine ⟨es, (hes.isWalk hp.last).1, ?_, hes.cost⟩
  have hlength := hes.length ▸ hp.length
  exact Nat.le_of_succ_le_succ hlength

/-- A shortest walk that visits no vertex twice makes a cheapest path. -/
lemma Shortest.isPath {s t : V} {h : ℕ} {es : List E} (hes : G.Shortest s t h es)
    (hsimple : (G.vertices s es).Nodup) :
    G.IsPath s t h (G.vertices s es) ∧
      ∀ q ∈ G.paths s t h, G.pathCost (G.vertices s es) ≤ G.pathCost q := by
  refine ⟨⟨rfl, hes.isWalk.last, hsimple, hes.along.joined, ?_⟩, ?_⟩
  · rw [vertices_length]
    exact Nat.succ_le_succ hes.length
  · intro q hq
    rcases IsPath.walk hq with ⟨fs, hfs, hlength, hcost⟩
    rw [← hes.along.cost, ← hcost]
    exact hes.least fs hfs hlength

end Costs

/-! ## The cheapest path after a root -/

section Root

/-- Hops that do not go back into the root `pre ++ [v]`, nor from `v` to a banned vertex. -/
def Beyond (pre : List V) (v : V) (banned : V → Prop) (a b : V) : Prop :=
  b ∉ pre ∧ ¬ (a = v ∧ banned b)

/-- The path begins with the root `pre ++ [v]` and goes on to a vertex that is not banned. -/
def Continues (pre : List V) (v : V) (banned : V → Prop) (p : List V) : Prop :=
  ∃ y rest, p = pre ++ v :: y :: rest ∧ ¬ banned y

variable [AddCommMonoid C] [LinearOrder C] {G : CostGraph V E C} {s t v : V} {h : ℕ} {pre : List V}
  {banned : V → Prop}

/-- What a path does after the root is a walk of the hops that are left. -/
lemma IsPath.walk_after {p : List V} (hp : G.IsPath s t h p)
    (hcontinues : Continues pre v banned p) :
    ∃ es, (G.restrict (Beyond pre v banned)).IsWalk v es t ∧ es.length ≤ h - pre.length ∧
      G.pathCost p = G.pathCost (pre ++ [v]) + G.walkCost es := by
  rcases hcontinues with ⟨y, rest, rfl, hy⟩
  rcases hp with ⟨-, hlast, hnodup, hjoined, hlength⟩
  rw [List.isChain_split] at hjoined
  rcases exists_along hjoined.2 with ⟨es, hes⟩
  have hlast : (v :: y :: rest).getLast? = some t := by
    rwa [List.getLast?_append_of_ne_nil _ (by simp)] at hlast
  rcases hes.isWalk hlast with ⟨hwalk, hvertices⟩
  rw [List.nodup_append] at hnodup
  rcases hnodup with ⟨-, hnodup, hdisjoint⟩
  refine ⟨es, isWalk_restrict.mpr ⟨hwalk, ?_⟩, ?_, ?_⟩
  · intro e he
    have hdst : es.map G.dst = y :: rest := (List.cons.inj hvertices).2
    have hmem : G.dst e ∈ y :: rest := hdst ▸ List.mem_map_of_mem he
    refine ⟨fun hpre => hdisjoint _ hpre _ (List.mem_cons_of_mem _ hmem) rfl, ?_⟩
    rintro ⟨hsrc, hbanned⟩
    -- a hop from `v` is the first one, and that goes to `y`
    match es, hwalk, hdst, he with
    | d :: es, hwalk, hdst, he =>
        rw [List.map_cons, List.cons.injEq] at hdst
        rcases List.mem_cons.mp he with rfl | he
        · exact hy (hdst.1 ▸ hbanned)
        · have hv := hwalk.2.2.src_mem he
          rw [hsrc, vertices, hdst.1, hdst.2] at hv
          exact (List.nodup_cons.mp hnodup).1 hv
  · have hes := hes.length
    simp only [List.length_append, List.length_cons] at hlength hes
    omega
  · rw [hes.cost, pathCost_split pre v (y :: rest)]

/-- No walk over the hops that are left: every path that begins with the root goes on to a banned
vertex. -/
lemma no_continuation (hnone : ∀ es, (G.restrict (Beyond pre v banned)).IsWalk v es t →
      h - pre.length < es.length) {q : List V} (hq : G.IsPath s t h q) :
    ¬ Continues pre v banned q := by
  intro hcontinues
  rcases hq.walk_after hcontinues with ⟨es, hes, hlength, -⟩
  exact absurd (hnone es hes) (not_lt.mpr hlength)

variable [IsOrderedCancelAddMonoid C]

/-- **The cheapest path after a root.**  A shortest walk from the root's last vertex, over the hops
that are left, makes a cheapest path of those that continue the root. -/
theorem Shortest.cheapest_after {es : List E}
    (hes : (G.restrict (Beyond pre v banned)).Shortest v t (h - pre.length) es)
    (hsimple : (G.vertices v es).Nodup) (hvt : v ≠ t)
    (hhead : (pre ++ [v]).head? = some s) (hnodup : (pre ++ [v]).Nodup)
    (hjoined : (pre ++ [v]).IsChain G.Joined) (hlength : pre.length ≤ h) :
    G.IsPath s t h (pre ++ G.vertices v es) ∧
      Continues pre v banned (pre ++ G.vertices v es) ∧
      G.Along (G.vertices v es) es ∧
      ∀ q, G.IsPath s t h q → Continues pre v banned q →
        G.pathCost (pre ++ G.vertices v es) ≤ G.pathCost q := by
  have halong : G.Along (G.vertices v es) es := along_restrict hes.along
  rcases isWalk_restrict.mp hes.isWalk with ⟨hwalk, hallowed⟩
  refine ⟨⟨?_, ?_, ?_, ?_, ?_⟩, ?_, halong, fun q hq hcontinues => ?_⟩
  · cases pre with
    | nil => exact hhead
    | cons a pre => exact hhead
  · rw [List.getLast?_append_of_ne_nil _ (by simp [vertices]), hwalk.last]
  · rw [List.nodup_append]
    rw [List.nodup_append] at hnodup
    refine ⟨hnodup.1, hsimple, ?_⟩
    intro a ha b hb
    rintro rfl
    rw [vertices, List.mem_cons] at hb
    rcases hb with rfl | hb
    · exact hnodup.2.2 _ ha _ (List.mem_singleton_self _) rfl
    · rcases List.mem_map.mp hb with ⟨e, he, rfl⟩
      exact (hallowed e he).1 ha
  · exact List.isChain_split.mpr ⟨hjoined, halong.joined⟩
  · have := hes.length
    rw [List.length_append, vertices_length]
    omega
  · match es, hwalk, hallowed with
    | [], hwalk, _ => exact absurd hwalk hvt
    | e :: es, hwalk, hallowed =>
        refine ⟨G.dst e, es.map G.dst, rfl, ?_⟩
        intro hbanned
        exact (hallowed e List.mem_cons_self).2 ⟨hwalk.2.1, hbanned⟩
  · rcases hq.walk_after hcontinues with ⟨fs, hfs, hfslength, hfscost⟩
    have hsplit : G.pathCost (pre ++ G.vertices v es) =
        G.pathCost (pre ++ [v]) + G.walkCost es := by
      rw [halong.cost]
      exact pathCost_split pre v _
    have hleast : G.walkCost es ≤ G.walkCost fs := hes.least fs hfs hfslength
    rw [hsplit, hfscost]
    gcongr

end Root

end CostGraph

end Graphs
