import Radii.Foundations.Text

/-!
# Which certificate an address is checked against

`host_of` and `server_name_for_addr` of `crates/proto/src/tls.rs`: the host of an address that a peer
advertises.  `Spells` lists the shapes an address can have.  Of what has none of them the code cuts
something off all the same, where there is a closing bracket or a single colon to cut at.

* `hostOf_spells` — of an address in one of the shapes the host is found.
* `hostFound_iff` — exactly which strings are read as the shapes say.
* `malformed_repaired` — some that are not.
-/

namespace Radii

open Text

/-! ## The code -/

def hostOf (addr : List Char) : List Char :=
  match addr with
  | '[' :: rest =>
      match splitOnce ']' rest with
      | some (host, _) => host
      | none => addr
  | _ =>
      if addr.count ':' > 1 then addr
      else match rsplitOnce ':' addr with
        | some (host, _) => host
        | none => addr

/-- `server_name_for_addr`.  Which texts are server names is up to rustls. -/
def serverNameForAddr (accepts : List Char → Bool) (addr : List Char) : Option (List Char) :=
  if accepts (hostOf addr) then some (hostOf addr) else none

/-! ## The shapes of an address -/

/-- A host name, or an IPv4 address. -/
structure PlainHost (host : List Char) : Prop where
  nonempty : host ≠ []
  colon : ':' ∉ host
  opening : '[' ∉ host
  closing : ']' ∉ host

/-- An IPv6 address. -/
structure Ipv6Host (host : List Char) : Prop where
  colons : 2 ≤ host.count ':'
  opening : '[' ∉ host
  closing : ']' ∉ host

structure Port (port : List Char) : Prop where
  nonempty : port ≠ []
  digits : ∀ c ∈ port, c.isDigit = true

/-- The address is one of the host, in one of the shapes there are. -/
inductive Spells : List Char → List Char → Prop where
  | host {h} (hh : PlainHost h) : Spells h h
  | hostPort {h p} (hh : PlainHost h) (hp : Port p) : Spells (h ++ ':' :: p) h
  | ipv6 {v} (hv : Ipv6Host v) : Spells v v
  | bracketed {v} (hv : Ipv6Host v) : Spells ('[' :: v ++ [']']) v
  | bracketedPort {v p} (hv : Ipv6Host v) (hp : Port p) : Spells ('[' :: v ++ ']' :: ':' :: p) v

/-- The host of an address in one of the shapes is found; anything else is left as it is, and is no
server name. -/
structure HostFound (accepts : List Char → Bool) (addr : List Char) : Prop where
  found : ∀ host, Spells addr host → hostOf addr = host
  unchanged : (¬ ∃ host, Spells addr host) → hostOf addr = addr
  rejected : (¬ ∃ host, Spells addr host) → serverNameForAddr accepts addr = none

/-! ## What the code makes of them -/

lemma hostOf_bracketed {host rest : List Char} (hhost : ']' ∉ host) :
    hostOf ('[' :: (host ++ ']' :: rest)) = host := by
  simp only [hostOf, splitOnce_append hhost]

lemma hostOf_unclosed {rest : List Char} (hrest : ']' ∉ rest) :
    hostOf ('[' :: rest) = '[' :: rest := by
  simp only [hostOf, splitOnce_eq_none.mpr hrest]

lemma hostOf_unbracketed {addr : List Char} (haddr : addr.head? ≠ some '[') :
    hostOf addr = if addr.count ':' > 1 then addr
      else match rsplitOnce ':' addr with
        | some (host, _) => host
        | none => addr := by
  rw [hostOf]
  rintro rest rfl
  exact haddr rfl

/-- Without a bracket in front, all but a single colon leaves the address as it is. -/
lemma hostOf_eq_self {addr : List Char} (haddr : addr.head? ≠ some '[')
    (hcolons : addr.count ':' ≠ 1) : hostOf addr = addr := by
  rw [hostOf_unbracketed haddr]
  split_ifs with hmany
  · rfl
  · have hnone : ':' ∉ addr := by
      rw [← List.count_eq_zero]
      omega
    rw [rsplitOnce_eq_none.mpr hnone]

/-- A single colon is cut at. -/
lemma hostOf_single {host rest : List Char} (haddr : (host ++ ':' :: rest).head? ≠ some '[')
    (hhost : ':' ∉ host) (hrest : ':' ∉ rest) : hostOf (host ++ ':' :: rest) = host := by
  have hcount : (host ++ ':' :: rest).count ':' = 1 := by
    rw [List.count_append, List.count_cons_self, List.count_eq_zero.mpr hhost,
      List.count_eq_zero.mpr hrest]
  rw [hostOf_unbracketed haddr, if_neg (by omega), rsplitOnce_eq_some.mpr ⟨rfl, hrest⟩]

lemma head_ne_of_notMem {c : Char} {text : List Char} (h : c ∉ text) : text.head? ≠ some c :=
  fun hhead => h (List.mem_of_head? hhead)

lemma Port.colon {port : List Char} (h : Port port) : ':' ∉ port := by
  intro hcolon
  exact absurd (h.digits ':' hcolon) (by decide)

/-- **The host of an address in one of the shapes.** -/
theorem hostOf_spells {addr host : List Char} (h : Spells addr host) : hostOf addr = host := by
  cases h with
  | host hh =>
      refine hostOf_eq_self (head_ne_of_notMem hh.opening) ?_
      rw [List.count_eq_zero.mpr hh.colon]
      decide
  | hostPort hh hp =>
      refine hostOf_single ?_ hh.colon hp.colon
      rw [List.head?_append_of_ne_nil _ hh.nonempty]
      exact head_ne_of_notMem hh.opening
  | ipv6 hv =>
      have hcolons := hv.colons
      exact hostOf_eq_self (head_ne_of_notMem hv.opening) (by omega)
  | bracketed hv => exact hostOf_bracketed hv.closing
  | bracketedPort hv hp => exact hostOf_bracketed hv.closing

/-! ## When the shapes are all there is -/

/-- What is left as it is and has no shape is empty or has a bracket in it. -/
lemma bracket_of_unchanged {addr : List Char} (hshape : ¬ ∃ host, Spells addr host)
    (hcolons : addr.count ':' ≠ 1) : addr = [] ∨ '[' ∈ addr ∨ ']' ∈ addr := by
  by_contra hplain
  simp only [not_or] at hplain
  rcases hplain with ⟨hne, hopening, hclosing⟩
  rcases Nat.lt_or_ge (addr.count ':') 2 with hfew | hmany
  · have hcolon : ':' ∉ addr := by
      rw [← List.count_eq_zero]
      omega
    exact hshape ⟨addr, .host ⟨hne, hcolon, hopening, hclosing⟩⟩
  · exact hshape ⟨addr, .ipv6 ⟨hmany, hopening, hclosing⟩⟩

variable {accepts : List Char → Bool}

/-- Without a shape, a string that is left as it is must be no server name, and no more. -/
lemma hostFound_of_unchanged
    (haccepts : ∀ name, accepts name = true → name ≠ [] ∧ '[' ∉ name ∧ ']' ∉ name)
    {addr : List Char} (hshape : ¬ ∃ host, Spells addr host) (hsame : hostOf addr = addr)
    (hbracket : addr = [] ∨ '[' ∈ addr ∨ ']' ∈ addr) : HostFound accepts addr := by
  refine ⟨fun host h => absurd ⟨host, h⟩ hshape, fun _ => hsame, fun _ => ?_⟩
  rw [serverNameForAddr, hsame, if_neg]
  intro haccepted
  rcases haccepts addr haccepted with ⟨hne, hopening, hclosing⟩
  rcases hbracket with hnil | hmem | hmem
  · exact hne hnil
  · exact hopening hmem
  · exact hclosing hmem

/-- What the code cuts something off of is not left as it is. -/
lemma uncut_of_unchanged {addr : List Char} (hsame : hostOf addr = addr) :
    (∃ rest, addr = '[' :: rest ∧ ']' ∉ rest) ∨ (addr.head? ≠ some '[' ∧ addr.count ':' ≠ 1) := by
  by_cases hhead : addr.head? = some '['
  · rcases List.head?_eq_some_iff.mp hhead with ⟨rest, rfl⟩
    refine Or.inl ⟨rest, rfl, ?_⟩
    intro hmem
    rcases List.eq_append_cons_of_mem hmem with ⟨host, tail, rfl, hhost⟩
    rw [hostOf_bracketed hhost] at hsame
    have hlength := congrArg List.length hsame
    simp only [List.length_cons, List.length_append] at hlength
    omega
  · refine Or.inr ⟨hhead, ?_⟩
    intro hone
    have hmem : ':' ∈ addr := List.count_pos_iff.mp (by omega)
    rcases List.eq_append_cons_of_mem hmem with ⟨host, tail, rfl, hhost⟩
    have htail : ':' ∉ tail := by
      rw [List.count_append, List.count_cons_self, List.count_eq_zero.mpr hhost] at hone
      exact List.count_eq_zero.mp (by omega)
    rw [hostOf_single hhead hhost htail] at hsame
    have hlength := congrArg List.length hsame
    simp only [List.length_cons, List.length_append] at hlength
    omega

/-- **Exactly which strings are read as the shapes say**: the addresses in one of them, and of the
others those with a bracket that is not closed in front, or with no bracket in front and no colon or
several.  `accepts` is what rustls takes for a server name; it takes nothing empty or with brackets. -/
theorem hostFound_iff (accepts : List Char → Bool)
    (haccepts : ∀ name, accepts name = true → name ≠ [] ∧ '[' ∉ name ∧ ']' ∉ name)
    (addr : List Char) :
    HostFound accepts addr ↔ (∃ host, Spells addr host) ∨
      (∃ rest, addr = '[' :: rest ∧ ']' ∉ rest) ∨
      (addr.head? ≠ some '[' ∧ addr.count ':' ≠ 1) := by
  by_cases hshape : ∃ host, Spells addr host
  · refine iff_of_true ⟨fun host h => hostOf_spells h, ?_, ?_⟩ (Or.inl hshape)
    · exact fun hnone => absurd hshape hnone
    · exact fun hnone => absurd hshape hnone
  constructor
  · intro h
    exact Or.inr (uncut_of_unchanged (h.unchanged hshape))
  · rintro (h | ⟨rest, rfl, hrest⟩ | ⟨hhead, hcolons⟩)
    · exact absurd h hshape
    · exact hostFound_of_unchanged haccepts hshape (hostOf_unclosed hrest)
        (Or.inr (Or.inl List.mem_cons_self))
    · exact hostFound_of_unchanged haccepts hshape (hostOf_eq_self hhead hcolons)
        (bracket_of_unchanged hshape hcolons)

/-- The characters of names and addresses. -/
def nameOrAddress (name : List Char) : Bool :=
  !name.isEmpty && name.all fun c => c.isAlphanum || c == '-' || c == '.' || c == ':'

/-- A bracket that is not closed. -/
theorem hostFound_iff_unclosed : HostFound nameOrAddress "[::1".toList ∧
    serverNameForAddr nameOrAddress "[::1".toList = none := by
  refine ⟨(hostFound_iff nameOrAddress ?_ "[::1".toList).mpr
    (Or.inr (Or.inl ⟨"::1".toList, rfl, by decide⟩)), by decide⟩
  intro name haccepted
  simp only [nameOrAddress, Bool.and_eq_true, Bool.not_eq_true', List.isEmpty_eq_false_iff,
    List.all_eq_true] at haccepted
  refine ⟨haccepted.1, ?_, ?_⟩
  · exact fun hmem => absurd (haccepted.2 '[' hmem) (by decide)
  · exact fun hmem => absurd (haccepted.2 ']' hmem) (by decide)

/-- What an address and its host have to do with each other. -/
lemma Spells.shape {addr host : List Char} (h : Spells addr host) :
    (addr = host ∧ (PlainHost host ∨ Ipv6Host host)) ∨
    (∃ port, Port port ∧ PlainHost host ∧ addr = host ++ ':' :: port) ∨
    (Ipv6Host host ∧ (addr = '[' :: host ++ [']'] ∨
      ∃ port, Port port ∧ addr = '[' :: host ++ ']' :: ':' :: port)) := by
  cases h with
  | host hh => exact Or.inl ⟨rfl, Or.inl hh⟩
  | hostPort hh hp => exact Or.inr (Or.inl ⟨_, hp, hh, rfl⟩)
  | ipv6 hv => exact Or.inl ⟨rfl, Or.inr hv⟩
  | bracketed hv => exact Or.inr (Or.inr ⟨hv, Or.inl rfl⟩)
  | bracketedPort hv hp => exact Or.inr (Or.inr ⟨hv, Or.inr ⟨_, hp, rfl⟩⟩)

/-- An address that has none of the shapes and is cut all the same. -/
lemma not_hostFound_of_cut {addr : List Char} (hcut : hostOf addr ≠ addr)
    (hshape : ¬ ∃ host, Spells addr host) (accepts : List Char → Bool) :
    ¬ HostFound accepts addr := by
  intro h
  exact hcut (h.unchanged hshape)

/-- Something after the bracket that is no port. -/
lemma trailing_unspelled : ¬ ∃ host, Spells "[::1]x".toList host := by
  rintro ⟨host, h⟩
  obtain rfl : host = "::1".toList := (hostOf_spells h).symm.trans (by decide)
  rcases h.shape with ⟨hsame, -⟩ | ⟨port, -, hplain, -⟩ | ⟨-, haddr⟩
  · exact absurd hsame (by decide)
  · exact absurd hplain.colon (by decide)
  · rcases haddr with haddr | ⟨port, -, haddr⟩
    · exact absurd haddr (by decide)
    · simp at haddr

/-- A host in brackets that is no IPv6 address. -/
lemma bracketed_name_unspelled : ¬ ∃ host, Spells "[example.com]:443".toList host := by
  rintro ⟨host, h⟩
  obtain rfl : host = "example.com".toList := (hostOf_spells h).symm.trans (by decide)
  rcases h.shape with ⟨hsame, -⟩ | ⟨port, -, -, haddr⟩ | ⟨hipv6, -⟩
  · exact absurd hsame (by decide)
  · simp at haddr
  · exact absurd hipv6.colons (by decide)

/-- A port that is no number. -/
lemma worded_port_unspelled : ¬ ∃ host, Spells "host:abc".toList host := by
  rintro ⟨host, h⟩
  obtain rfl : host = "host".toList := (hostOf_spells h).symm.trans (by decide)
  rcases h.shape with ⟨hsame, -⟩ | ⟨port, hport, -, haddr⟩ | ⟨hipv6, -⟩
  · exact absurd hsame (by decide)
  · obtain rfl : "abc".toList = port := by simpa using haddr
    exact absurd (hport.digits 'a' (by decide)) (by decide)
  · exact absurd hipv6.colons (by decide)

/-- No host at all. -/
lemma hostless_unspelled : ¬ ∃ host, Spells ":80".toList host := by
  rintro ⟨host, h⟩
  obtain rfl : host = "".toList := (hostOf_spells h).symm.trans (by decide)
  rcases h.shape with ⟨hsame, -⟩ | ⟨port, -, hplain, -⟩ | ⟨hipv6, -⟩
  · exact absurd hsame (by decide)
  · exact hplain.nonempty rfl
  · exact absurd hipv6.colons (by decide)

/-- **Malformed addresses are repaired**: of each of these four the code finds a host. -/
theorem malformed_repaired :
    (hostOf "[::1]x".toList = "::1".toList ∧
      (¬ ∃ host, Spells "[::1]x".toList host) ∧
      ∀ accepts, ¬ HostFound accepts "[::1]x".toList) ∧
    (hostOf "[example.com]:443".toList = "example.com".toList ∧
      (¬ ∃ host, Spells "[example.com]:443".toList host) ∧
      ∀ accepts, ¬ HostFound accepts "[example.com]:443".toList) ∧
    (hostOf "host:abc".toList = "host".toList ∧
      (¬ ∃ host, Spells "host:abc".toList host) ∧
      ∀ accepts, ¬ HostFound accepts "host:abc".toList) ∧
    (hostOf ":80".toList = "".toList ∧
      (¬ ∃ host, Spells ":80".toList host) ∧
      ∀ accepts, ¬ HostFound accepts ":80".toList) := by
  refine ⟨⟨by decide, trailing_unspelled, ?_⟩, ⟨by decide, bracketed_name_unspelled, ?_⟩,
    ⟨by decide, worded_port_unspelled, ?_⟩, ⟨by decide, hostless_unspelled, ?_⟩⟩
  · exact not_hostFound_of_cut (by decide) trailing_unspelled
  · exact not_hostFound_of_cut (by decide) bracketed_name_unspelled
  · exact not_hostFound_of_cut (by decide) worded_port_unspelled
  · exact not_hostFound_of_cut (by decide) hostless_unspelled

end Radii
