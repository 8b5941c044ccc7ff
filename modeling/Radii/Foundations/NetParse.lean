import Radii.Foundations.Net

/-!
# Reading internet addresses

Rust's standard library reads an address from the front of a text and leaves the rest; what cannot
be read consumes nothing.  Each reader here is one of its `core::net::parser`, on the characters
that are left, and answers with those left after it.

Every reader undoes the writer of the same thing, whatever text follows that does not continue it
(`Closed`): `readIpv4Addr_text`, `readIpv6Addr_text`.
-/

namespace Net

/-! ## The readers -/

/-- `char::to_digit`, up to base 36. -/
def toDigit (radix : ℕ) (c : Char) : Option ℕ :=
  let digit :=
    if c.isDigit then c.toNat - 48
    else if c.isLower then c.toNat - 87
    else if c.isUpper then c.toNat - 55
    else radix
  if digit < radix then some digit else none

/-- The digits a text begins with, and what is left. -/
def spanDigits (radix : ℕ) : List Char → List ℕ × List Char
  | [] => ([], [])
  | c :: text =>
      match toDigit radix c with
      | some digit => (digit :: (spanDigits radix text).1, (spanDigits radix text).2)
      | none => ([], c :: text)

/-- The number that the digits stand for. -/
def ofDigits (radix : ℕ) (digits : List ℕ) : ℕ := digits.foldl (fun n d => n * radix + d) 0

/-- `read_number`, of a type of numbers below `bound`.  What is read only grows, so that it is
enough to look at its bounds in the end. -/
def readNumber (radix bound : ℕ) (maxDigits : Option ℕ) (allowZeroPrefix : Bool)
    (text : List Char) : Option (ℕ × List Char) :=
  let (digits, rest) := spanDigits radix text
  if digits.length = 0 ∨ (∃ most ∈ maxDigits, most < digits.length) ∨
      (allowZeroPrefix = false ∧ text.head? = some '0' ∧ 1 < digits.length) ∨
      bound ≤ ofDigits radix digits then none
  else some (ofDigits radix digits, rest)

def readGivenChar (target : Char) : List Char → Option (List Char)
  | [] => none
  | c :: text => if c = target then some text else none

/-- `read_separator`: the separator goes before everything but the first. -/
def readSeparator {α : Type} (sep : Char) (index : ℕ) (inner : List Char → Option (α × List Char))
    (text : List Char) : Option (α × List Char) :=
  if index > 0 then (readGivenChar sep text).bind inner else inner text

/-- The octets from this one on. -/
def readOctets (index : ℕ) : ℕ → List Char → Option (List ℕ × List Char)
  | 0, text => some ([], text)
  | left + 1, text => do
      let (octet, text) ← readSeparator '.' index (readNumber 10 256 (some 3) false) text
      let (octets, text) ← readOctets (index + 1) left text
      some (octet :: octets, text)

def ofOctets (octets : List ℕ) : Ipv4Addr := BitVec.ofNat 32 (ofDigits 256 octets)

def readIpv4Addr (text : List Char) : Option (Ipv4Addr × List Char) :=
  (readOctets 0 4 text).map fun (octets, rest) => (ofOctets octets, rest)

/-- `read_groups`, from this group on: the groups, and whether the last two are an IPv4 address. -/
def readGroups (index : ℕ) : ℕ → List Char → List ℕ × Bool × List Char
  | 0, text => ([], false, text)
  | left + 1, text =>
      match if 0 < left then readSeparator ':' index readIpv4Addr text else none with
      | some (ipv4, text) => ([ipv4.toNat / 2 ^ 16, ipv4.toNat % 2 ^ 16], true, text)
      | none =>
          match readSeparator ':' index (readNumber 16 65536 (some 4) true) text with
          | some (group, text) =>
              let (groups, embedded, text) := readGroups (index + 1) left text
              (group :: groups, embedded, text)
          | none => ([], false, text)

def ofSegments (segments : List ℕ) : Ipv6Addr := BitVec.ofNat 128 (ofDigits 65536 segments)

def readIpv6Addr (text : List Char) : Option (Ipv6Addr × List Char) :=
  let (head, embedded, rest) := readGroups 0 8 text
  if head.length = 8 then some (ofSegments head, rest)
  else if embedded then none
  else do
    let rest ← readGivenChar ':' rest
    let rest ← readGivenChar ':' rest
    let (tail, _, rest) := readGroups 0 (8 - (head.length + 1)) rest
    some (ofSegments (head ++ List.replicate (8 - head.length - tail.length) 0 ++ tail), rest)

def readPort (text : List Char) : Option (ℕ × List Char) :=
  (readGivenChar ':' text).bind (readNumber 10 65536 none true)

def readScopeId (text : List Char) : Option (ℕ × List Char) :=
  (readGivenChar '%' text).bind (readNumber 10 (2 ^ 32) none true)

def readSocketAddrV4 (text : List Char) : Option ((Ipv4Addr × ℕ) × List Char) := do
  let (ip, text) ← readIpv4Addr text
  let (port, text) ← readPort text
  some ((ip, port), text)

/-- The address, its port and its scope. -/
def readSocketAddrV6 (text : List Char) : Option ((Ipv6Addr × ℕ × ℕ) × List Char) := do
  let text ← readGivenChar '[' text
  let (ip, text) ← readIpv6Addr text
  let (scopeId, text) := (readScopeId text).getD (0, text)
  let text ← readGivenChar ']' text
  let (port, text) ← readPort text
  some ((ip, port, scopeId), text)

/-! ## Numbers -/

/-- No digit comes next. -/
def Stops (radix : ℕ) (text : List Char) : Prop := ∀ c ∈ text.head?, toDigit radix c = none

lemma stops_nil (radix : ℕ) : Stops radix [] := fun _ h => absurd h (by simp)

lemma toDigit_digitChar {radix d : ℕ} (hd : d < radix) (hradix : radix ≤ 16) :
    toDigit radix (Nat.digitChar d) = some d := by
  have hvalue : ∀ d < 16, (if (Nat.digitChar d).isDigit then (Nat.digitChar d).toNat - 48
      else if (Nat.digitChar d).isLower then (Nat.digitChar d).toNat - 87
      else if (Nat.digitChar d).isUpper then (Nat.digitChar d).toNat - 55 else 16) = d := by
    decide
  have hchar : ∀ d < 16, (Nat.digitChar d).isDigit ∨ (Nat.digitChar d).isLower := by decide
  have heq : toDigit radix (Nat.digitChar d) = if d < radix then some d else none := by
    have hv := hvalue d (hd.trans_le hradix)
    rw [toDigit]
    rcases hchar d (hd.trans_le hradix) with hc | hc
    · simp only [hc, if_true] at hv ⊢
      rw [hv]
    · simp only [hc, if_true] at hv ⊢
      split_ifs at hv ⊢ <;> simp_all
  rw [heq, if_pos hd]

lemma spanDigits_of_stops {radix : ℕ} {text : List Char} (h : Stops radix text) :
    spanDigits radix text = ([], text) := by
  cases text with
  | nil => rfl
  | cons c text => rw [spanDigits, h c (by simp)]

lemma spanDigits_append {radix : ℕ} {chars rest : List Char} {digits : List ℕ}
    (h : chars.map (toDigit radix) = digits.map some) (hrest : Stops radix rest) :
    spanDigits radix (chars ++ rest) = (digits, rest) := by
  induction chars generalizing digits with
  | nil =>
      obtain rfl : digits = [] := by simpa using h.symm
      exact spanDigits_of_stops hrest
  | cons c chars ih =>
      cases digits with
      | nil => simp at h
      | cons d digits =>
          simp only [List.map_cons, List.cons.injEq] at h
          rw [List.cons_append, spanDigits, h.1, ih h.2]

lemma ofDigits_concat (radix : ℕ) (digits : List ℕ) (d : ℕ) :
    ofDigits radix (digits ++ [d]) = ofDigits radix digits * radix + d := by
  rw [ofDigits, List.foldl_append]
  rfl

/-- The digits that a number is written with stand for it. -/
lemma exists_digits {radix : ℕ} (hone : 1 < radix) (hradix : radix ≤ 16) (n : ℕ) :
    ∃ digits, (Nat.toDigits radix n).map (toDigit radix) = digits.map some ∧
      ofDigits radix digits = n := by
  induction n using Nat.strong_induction_on with
  | _ n ih =>
      rw [Nat.toDigits_eq_if hone]
      split_ifs with hlt
      · exact ⟨[n], by simp [toDigit_digitChar hlt hradix], by simp [ofDigits]⟩
      · rcases ih (n / radix) (Nat.div_lt_self (by omega) hone) with ⟨digits, hdigits, hvalue⟩
        refine ⟨digits ++ [n % radix], ?_, ?_⟩
        · have hlast := toDigit_digitChar (Nat.mod_lt n (by omega)) hradix
          simp [hdigits, hlast]
        · rw [ofDigits_concat, hvalue, Nat.div_add_mod']

/-- A leading zero is all of the number. -/
lemma toDigits_head_ne_zero {radix n : ℕ} (hone : 1 < radix)
    (hlong : 1 < (Nat.toDigits radix n).length) : (Nat.toDigits radix n).head? ≠ some '0' := by
  induction n using Nat.strong_induction_on with
  | _ n ih =>
      rw [Nat.toDigits_eq_if hone] at hlong ⊢
      split_ifs at hlong ⊢ with hlt
      · simp at hlong
      · have hne : n / radix ≠ 0 := by
          rw [Nat.ne_zero_iff_zero_lt]
          exact Nat.div_pos (by omega) (by omega)
        rw [List.head?_append_of_ne_nil _ Nat.toDigits_ne_nil]
        rcases Nat.lt_or_ge 1 (Nat.toDigits radix (n / radix)).length with h | h
        · exact ih _ (Nat.div_lt_self (by omega) hone) h
        · have hsingle : n / radix < radix := by
            have hle := (Nat.length_toDigits_le_iff hone (by decide : 0 < 1)).mp h
            rwa [pow_one] at hle
          rw [Nat.toDigits_of_lt_base hsingle]
          simpa using hne

/-- **A number is read as it is written.** -/
theorem readNumber_toDigits (maxDigits : Option ℕ) (allowZeroPrefix : Bool) {radix bound n : ℕ}
    {rest : List Char} (hone : 1 < radix) (hradix : radix ≤ 16) (hn : n < bound)
    (hmost : ∀ most ∈ maxDigits, 0 < most ∧ n < radix ^ most) (hrest : Stops radix rest) :
    readNumber radix bound maxDigits allowZeroPrefix (Nat.toDigits radix n ++ rest) =
      some (n, rest) := by
  rcases exists_digits hone hradix n with ⟨digits, hdigits, hvalue⟩
  have hlength : digits.length = (Nat.toDigits radix n).length := by
    have h := congrArg List.length hdigits
    rw [List.length_map, List.length_map] at h
    exact h.symm
  have hne : (Nat.toDigits radix n) ≠ [] := Nat.toDigits_ne_nil
  rw [readNumber, spanDigits_append hdigits hrest]
  simp only [hvalue, hlength]
  refine if_neg ?_
  rintro (hnone | ⟨most, hmem, hlong⟩ | ⟨-, hzero, hlong⟩ | hbig)
  · exact hne (List.length_eq_zero_iff.mp hnone)
  · have hle := (Nat.length_toDigits_le_iff hone (hmost most hmem).1).mpr (hmost most hmem).2
    omega
  · rw [List.head?_append_of_ne_nil _ hne] at hzero
    exact toDigits_head_ne_zero hone hlong hzero
  · omega

/-- Without a digit there is no number. -/
lemma readNumber_of_stops {radix bound : ℕ} {maxDigits : Option ℕ} {allowZeroPrefix : Bool}
    {text : List Char} (h : Stops radix text) :
    readNumber radix bound maxDigits allowZeroPrefix text = none := by
  rw [readNumber, spanDigits_of_stops h]
  simp

/-- What is left after a number is what is left after its digits. -/
lemma rest_of_readNumber {radix bound n : ℕ} {maxDigits : Option ℕ} {allowZeroPrefix : Bool}
    {text rest : List Char}
    (h : readNumber radix bound maxDigits allowZeroPrefix text = some (n, rest)) :
    rest = (spanDigits radix text).2 := by
  rw [readNumber] at h
  simp only at h
  split_ifs at h
  simp only [Option.some.injEq, Prod.mk.injEq] at h
  exact h.2.symm

/-! ## IPv4 addresses -/

/-- The numbers, each after the separator. -/
def continued (base : ℕ) (sep : Char) (ns : List ℕ) : List Char :=
  ns.flatMap fun n => sep :: Nat.toDigits base n

lemma separated_cons (base : ℕ) (sep : Char) (n : ℕ) (ns : List ℕ) :
    separated base sep (n :: ns) = Nat.toDigits base n ++ continued base sep ns := by
  induction ns generalizing n with
  | nil => simp [separated, continued]
  | cons m ns ih => simp only [separated, ih m, continued, List.flatMap_cons, List.cons_append]

lemma stops_cons {radix : ℕ} {c : Char} (h : toDigit radix c = none) (text : List Char) :
    Stops radix (c :: text) := by
  intro c' hc'
  rw [List.head?_cons, Option.mem_some_iff] at hc'
  rw [← hc', h]

lemma stops_continued {radix : ℕ} (base : ℕ) {sep : Char} {rest : List Char}
    (hsep : toDigit radix sep = none) (hrest : Stops radix rest) (ns : List ℕ) :
    Stops radix (continued base sep ns ++ rest) := by
  cases ns with
  | nil => exact hrest
  | cons n ns => exact stops_cons hsep _

@[simp] lemma readGivenChar_cons (c : Char) (text : List Char) :
    readGivenChar c (c :: text) = some text := if_pos rfl

lemma readGivenChar_eq_none {c : Char} {text : List Char} (h : text.head? ≠ some c) :
    readGivenChar c text = none := by
  cases text with
  | nil => rfl
  | cons c' text => exact if_neg fun hc => h (by rw [List.head?_cons, hc])

@[simp] lemma readSeparator_zero {α : Type} (sep : Char)
    (inner : List Char → Option (α × List Char)) (text : List Char) :
    readSeparator sep 0 inner text = inner text := rfl

@[simp] lemma readSeparator_succ {α : Type} (sep : Char) (index : ℕ)
    (inner : List Char → Option (α × List Char)) (text : List Char) :
    readSeparator sep (index + 1) inner text = (readGivenChar sep text).bind inner := rfl

lemma readOctet_toDigits {octet : ℕ} {rest : List Char} (hoctet : octet < 256)
    (hrest : Stops 10 rest) :
    readNumber 10 256 (some 3) false (Nat.toDigits 10 octet ++ rest) = some (octet, rest) := by
  refine readNumber_toDigits _ _ (by decide) (by decide) hoctet ?_ hrest
  rintro most ⟨⟩
  exact ⟨by decide, hoctet.trans (by decide)⟩

lemma readOctets_continued {rest : List Char} (hrest : Stops 10 rest) (octets : List ℕ) :
    ∀ index, (∀ octet ∈ octets, octet < 256) →
      readOctets (index + 1) octets.length (continued 10 '.' octets ++ rest) =
        some (octets, rest) := by
  induction octets with
  | nil => exact fun _ _ => rfl
  | cons octet octets ih =>
      intro index hsmall
      have hread := readOctet_toDigits (hsmall octet List.mem_cons_self)
        (stops_continued 10 (by decide : toDigit 10 '.' = none) hrest octets)
      have htail := ih (index + 1) fun o ho => hsmall o (List.mem_cons_of_mem _ ho)
      rw [continued, List.flatMap_cons, ← continued, List.length_cons, readOctets,
        readSeparator_succ, List.cons_append, List.cons_append, readGivenChar_cons,
        Option.bind_some, List.append_assoc, hread]
      simp [htail]

lemma readOctets_separated {rest : List Char} (hrest : Stops 10 rest) {octets : List ℕ}
    (hne : octets ≠ []) (hsmall : ∀ octet ∈ octets, octet < 256) :
    readOctets 0 octets.length (separated 10 '.' octets ++ rest) = some (octets, rest) := by
  cases octets with
  | nil => exact absurd rfl hne
  | cons octet octets =>
      have hread := readOctet_toDigits (hsmall octet List.mem_cons_self)
        (stops_continued 10 (by decide : toDigit 10 '.' = none) hrest octets)
      have htail := readOctets_continued hrest octets 0
        fun o ho => hsmall o (List.mem_cons_of_mem _ ho)
      rw [separated_cons, List.length_cons, readOctets, readSeparator_zero, List.append_assoc,
        hread]
      simp [htail]

lemma ofOctets_octets (ip : Ipv4Addr) : ofOctets (octets ip) = ip := by
  have hlt := ip.isLt
  refine BitVec.eq_of_toNat_eq ?_
  simp only [ofOctets, ofDigits, octets, List.map_cons, List.map_nil, List.foldl_cons,
    List.foldl_nil, BitVec.toNat_ofNat]
  omega

/-- **An IPv4 address is read as it is written.** -/
theorem readIpv4Addr_text (ip : Ipv4Addr) {rest : List Char} (hrest : Stops 10 rest) :
    readIpv4Addr (ipv4Text ip ++ rest) = some (ip, rest) := by
  have hsmall : ∀ octet ∈ octets ip, octet < 256 := by
    intro octet hmem
    rcases List.mem_map.mp hmem with ⟨i, -, rfl⟩
    exact Nat.mod_lt _ (by decide)
  have hread := readOctets_separated hrest (by simp [octets]) hsmall
  rw [readIpv4Addr, ipv4Text]
  rw [show (octets ip).length = 4 from rfl] at hread
  simp only [hread, Option.map_some, ofOctets_octets]

/-- Where the first number is not followed by a dot there is no IPv4 address. -/
lemma readIpv4Addr_eq_none {text : List Char} (h : (spanDigits 10 text).2.head? ≠ some '.') :
    readIpv4Addr text = none := by
  have hnone : readOctets 0 4 text = none := by
    rw [readOctets, readSeparator_zero]
    cases hread : readNumber 10 256 (some 3) false text with
    | none => rfl
    | some read =>
        rcases read with ⟨octet, rest⟩
        obtain rfl := rest_of_readNumber hread
        simp [readOctets, readGivenChar_eq_none h]
  rw [readIpv4Addr, hnone, Option.map_none]

/-! ## IPv6 addresses -/

/-- What follows does not continue an address. -/
def Closed (text : List Char) : Prop :=
  ∀ c ∈ text.head?, c ≠ ':' ∧ c ≠ '.' ∧ toDigit 16 c = none

lemma toDigit_mono {radix radix' : ℕ} (h : radix ≤ radix') {c : Char}
    (hc : toDigit radix' c = none) : toDigit radix c = none := by
  rw [toDigit] at hc ⊢
  split_ifs at hc ⊢ <;> simp_all <;> omega

lemma Stops.mono {radix radix' : ℕ} (h : radix ≤ radix') {text : List Char}
    (hstops : Stops radix' text) : Stops radix text := fun c hc => toDigit_mono h (hstops c hc)

lemma Closed.stops {text : List Char} (h : Closed text) : Stops 16 text := fun c hc => (h c hc).2.2

lemma Closed.ne_colon {text : List Char} (h : Closed text) : text.head? ≠ some ':' :=
  fun hc => (h ':' hc).1 rfl

lemma Closed.ne_dot {text : List Char} (h : Closed text) : text.head? ≠ some '.' :=
  fun hc => (h '.' hc).2.1 rfl

/-- The decimal digits in front of a text without dots are not followed by one. -/
lemma spanDigits_ne_dot {chars rest : List Char} (hchars : '.' ∉ chars)
    (hrest : rest.head? ≠ some '.') (hstops : Stops 10 rest) :
    (spanDigits 10 (chars ++ rest)).2.head? ≠ some '.' := by
  induction chars with
  | nil =>
      rw [List.nil_append, spanDigits_of_stops hstops]
      exact hrest
  | cons c chars ih =>
      rw [List.mem_cons, not_or] at hchars
      rw [List.cons_append, spanDigits]
      cases toDigit 10 c with
      | some d => exact ih hchars.2
      | none => simpa using Ne.symm hchars.1

lemma dot_notMem_toDigits (n : ℕ) : '.' ∉ Nat.toDigits 16 n := fun h =>
  forall_mem_toDigits (P := fun c => c ≠ '.') (by decide) (by decide) n '.' h rfl

/-- A group is not taken for an IPv4 address. -/
lemma readIpv4Addr_group (group : ℕ) {rest : List Char} (hstops : Stops 16 rest)
    (hdot : rest.head? ≠ some '.') : readIpv4Addr (Nat.toDigits 16 group ++ rest) = none :=
  readIpv4Addr_eq_none (spanDigits_ne_dot (dot_notMem_toDigits group) hdot
    (hstops.mono (by decide)))

lemma readGroup_toDigits {group : ℕ} {rest : List Char} (hgroup : group < 65536)
    (hrest : Stops 16 rest) :
    readNumber 16 65536 (some 4) true (Nat.toDigits 16 group ++ rest) = some (group, rest) := by
  refine readNumber_toDigits _ _ (by decide) (by decide) hgroup ?_ hrest
  rintro most ⟨⟩
  exact ⟨by decide, hgroup.trans_eq (by decide)⟩

/-- No group comes next, and no separator and a group. -/
def NoGroup (text : List Char) : Prop :=
  ∀ index left, readGroups index left text = ([], false, text)

lemma readGroups_of_none {index : ℕ} {text : List Char}
    (hipv4 : readSeparator ':' index readIpv4Addr text = none)
    (hgroup : readSeparator ':' index (readNumber 16 65536 (some 4) true) text = none) (left : ℕ) :
    readGroups index left text = ([], false, text) := by
  cases left with
  | zero => rfl
  | succ left =>
      rw [readGroups, hipv4, ite_self]
      simp only [hgroup]

lemma readIpv4Addr_of_stops {text : List Char} (hstops : Stops 10 text)
    (hdot : text.head? ≠ some '.') : readIpv4Addr text = none := by
  refine readIpv4Addr_eq_none ?_
  rw [spanDigits_of_stops hstops]
  exact hdot

lemma Closed.noGroup {text : List Char} (h : Closed text) : NoGroup text := by
  intro index left
  cases index with
  | zero =>
      refine readGroups_of_none ?_ ?_ left
      · exact readIpv4Addr_of_stops (h.stops.mono (by decide)) h.ne_dot
      · exact readNumber_of_stops h.stops
  | succ index =>
      refine readGroups_of_none ?_ ?_ left <;>
        rw [readSeparator_succ, readGivenChar_eq_none h.ne_colon, Option.bind_none]

/-- Two colons end the groups before them. -/
lemma noGroup_colons (text : List Char) : NoGroup (':' :: ':' :: text) := by
  have hstops : ∀ radix ≤ 16, ∀ text, Stops radix (':' :: text) := fun radix hradix text =>
    stops_cons (toDigit_mono hradix (by decide)) text
  have hdot : ∀ text : List Char, (':' :: text).head? ≠ some '.' := fun text => by simp
  intro index left
  cases index with
  | zero =>
      refine readGroups_of_none ?_ ?_ left
      · rw [readSeparator_zero]
        exact readIpv4Addr_of_stops (hstops 10 (by decide) _) (hdot _)
      · rw [readSeparator_zero]
        exact readNumber_of_stops (hstops 16 (le_refl 16) _)
  | succ index =>
      refine readGroups_of_none ?_ ?_ left
      · rw [readSeparator_succ, readGivenChar_cons, Option.bind_some]
        exact readIpv4Addr_of_stops (hstops 10 (by decide) _) (hdot _)
      · rw [readSeparator_succ, readGivenChar_cons, Option.bind_some]
        exact readNumber_of_stops (hstops 16 (le_refl 16) _)

lemma ne_dot_continued {rest : List Char} (hrest : rest.head? ≠ some '.') (groups : List ℕ) :
    (continued 16 ':' groups ++ rest).head? ≠ some '.' := by
  cases groups with
  | nil => exact hrest
  | cons group groups => simp [continued]

lemma readGroups_continued {rest : List Char} (hstops : Stops 16 rest)
    (hdot : rest.head? ≠ some '.') (hend : NoGroup rest) (groups : List ℕ) :
    ∀ index left, groups.length ≤ left → (∀ group ∈ groups, group < 65536) →
      readGroups (index + 1) left (continued 16 ':' groups ++ rest) = (groups, false, rest) := by
  induction groups with
  | nil => exact fun index left _ _ => hend _ _
  | cons group groups ih =>
      intro index left hroom hsmall
      obtain ⟨left, rfl⟩ : ∃ l, left = l + 1 := ⟨left - 1, by simp at hroom; omega⟩
      have hstops' := stops_continued 16 (by decide : toDigit 16 ':' = none) hstops groups
      have hgroup := readGroup_toDigits (hsmall group List.mem_cons_self) hstops'
      have hipv4 := readIpv4Addr_group group hstops' (ne_dot_continued hdot groups)
      have htail := ih (index + 1) left (by simpa using hroom)
        fun g hg => hsmall g (List.mem_cons_of_mem _ hg)
      rw [continued, List.flatMap_cons, ← continued, readGroups, readSeparator_succ,
        readSeparator_succ, List.cons_append, List.cons_append, readGivenChar_cons,
        Option.bind_some, Option.bind_some, List.append_assoc, hipv4, ite_self]
      simp only [hgroup, htail]

/-- Groups are read as they are written, before something that is no group. -/
lemma readGroups_separated {rest : List Char} (hstops : Stops 16 rest)
    (hdot : rest.head? ≠ some '.') (hend : NoGroup rest) {groups : List ℕ} (left : ℕ)
    (hroom : groups.length ≤ left) (hsmall : ∀ group ∈ groups, group < 65536) :
    readGroups 0 left (separated 16 ':' groups ++ rest) = (groups, false, rest) := by
  cases groups with
  | nil => exact hend 0 left
  | cons group groups =>
      obtain ⟨left, rfl⟩ : ∃ l, left = l + 1 := ⟨left - 1, by simp at hroom; omega⟩
      have hstops' := stops_continued 16 (by decide : toDigit 16 ':' = none) hstops groups
      have hgroup := readGroup_toDigits (hsmall group List.mem_cons_self) hstops'
      have hipv4 := readIpv4Addr_group group hstops' (ne_dot_continued hdot groups)
      have htail := readGroups_continued hstops hdot hend groups 0 left (by simpa using hroom)
        fun g hg => hsmall g (List.mem_cons_of_mem _ hg)
      rw [separated_cons, readGroups, readSeparator_zero, readSeparator_zero, List.append_assoc,
        hipv4, ite_self]
      simp only [hgroup, htail]

/-! ### The zeros that are left out -/

/-- A span of zeros. -/
def Zeros (groups : List ℕ) (span : Span) : Prop :=
  ∀ i, span.start ≤ i → i < span.start + span.len → groups[i]? = some 0

lemma Zeros.concat {groups : List ℕ} {span : Span} (h : Zeros groups span) (group : ℕ) :
    Zeros (groups ++ [group]) span := by
  intro i hstart hend
  have hget := h i hstart hend
  rw [List.getElem?_append_left (List.getElem?_eq_some_iff.mp hget).1]
  exact hget

/-- What the search for zeros knows: the longest run so far, and the present one, ending here. -/
structure Searched (groups : List ℕ) (spans : Span × Span) : Prop where
  longest : Zeros groups spans.1
  current : Zeros groups spans.2
  here : spans.2.len ≠ 0 → spans.2.start + spans.2.len = groups.length

/-- One zero more, of a run that ends here. -/
lemma Searched.zero {groups : List ℕ} {spans : Span × Span} (h : Searched groups spans) :
    let current : Span :=
      ⟨if spans.2.len = 0 then groups.length else spans.2.start, spans.2.len + 1⟩
    Zeros (groups ++ [0]) current ∧ current.start + current.len = groups.length + 1 := by
  intro current
  have hend : current.start + current.len = groups.length + 1 := by
    simp only [current]
    split_ifs with hnone
    · omega
    · have hhere := h.here hnone
      omega
  refine ⟨?_, hend⟩
  intro i hstart hlt
  rcases Nat.lt_or_ge i groups.length with hi | hi
  · -- it was in the run before
    have hrun : spans.2.len ≠ 0 := by
      intro hnone
      simp only [current, hnone, if_true] at hstart
      omega
    rw [List.getElem?_append_left hi]
    simp only [current, if_neg hrun] at hstart
    have hhere := h.here hrun
    exact h.current i hstart (by omega)
  · obtain rfl : i = groups.length := by omega
    simp

lemma Searched.step {groups : List ℕ} {spans : Span × Span} (h : Searched groups spans)
    (group : ℕ) : Searched (groups ++ [group]) (stepSpan spans (group, groups.length)) := by
  by_cases hzero : group = 0
  · subst hzero
    rcases h.zero with ⟨hcurrent, hend⟩
    set current : Span :=
      ⟨if spans.2.len = 0 then groups.length else spans.2.start, spans.2.len + 1⟩
    have hstep : stepSpan spans (0, groups.length) =
        (if current.len > spans.1.len then current else spans.1, current) := rfl
    rw [hstep]
    refine ⟨?_, hcurrent, ?_⟩
    · by_cases hlong : current.len > spans.1.len
      · rw [if_pos hlong]
        exact hcurrent
      · rw [if_neg hlong]
        exact h.longest.concat 0
    · intro _
      rw [List.length_append, List.length_singleton]
      exact hend
  · rw [stepSpan, if_neg hzero]
    exact ⟨h.longest.concat group, fun i _ hlt => absurd hlt (by simp), fun hne => absurd rfl hne⟩

lemma searched_foldl (groups : List ℕ) :
    Searched groups (groups.zipIdx.foldl stepSpan (⟨0, 0⟩, ⟨0, 0⟩)) := by
  induction groups using List.reverseRecOn with
  | nil => exact ⟨fun i _ h => absurd h (by simp), fun i _ h => absurd h (by simp),
      fun h => absurd rfl h⟩
  | append_singleton groups group ih =>
      rw [List.zipIdx_append, List.foldl_append]
      simpa using ih.step group

/-- The run that is found is of zeros. -/
lemma zeros_zeroRun (groups : List ℕ) : Zeros groups (zeroRun groups) :=
  (searched_foldl groups).longest

/-- The groups before the run, zeros, and the groups after it. -/
lemma zeroRun_split (groups : List ℕ) (hrun : 0 < (zeroRun groups).len) :
    (zeroRun groups).start + (zeroRun groups).len ≤ groups.length ∧
    groups.take (zeroRun groups).start ++ List.replicate (zeroRun groups).len 0 ++
      groups.drop ((zeroRun groups).start + (zeroRun groups).len) = groups := by
  have hzeros := zeros_zeroRun groups
  generalize zeroRun groups = span at hrun hzeros ⊢
  have hle : span.start + span.len ≤ groups.length := by
    have hlast := hzeros (span.start + span.len - 1) (by omega) (by omega)
    have := (List.getElem?_eq_some_iff.mp hlast).1
    omega
  have hmiddle : (groups.drop span.start).take span.len = List.replicate span.len 0 := by
    refine List.eq_replicate_iff.mpr ⟨?_, ?_⟩
    · rw [List.length_take, List.length_drop]
      omega
    · intro group hmem
      rcases List.mem_iff_getElem?.mp hmem with ⟨i, hi⟩
      have hlt : i < span.len := by
        by_contra hge
        rw [List.getElem?_take_eq_none (not_lt.mp hge)] at hi
        simp at hi
      rw [List.getElem?_take_of_lt hlt, List.getElem?_drop, hzeros _ (by omega) (by omega),
        Option.some.injEq] at hi
      exact hi.symm
  refine ⟨hle, ?_⟩
  rw [← hmiddle, ← List.drop_drop, List.append_assoc, List.take_append_drop,
    List.take_append_drop]

/-! ### Whole addresses -/

lemma ofSegments_segments (ip : Ipv6Addr) : ofSegments (segments ip) = ip := by
  have hlt := ip.isLt
  refine BitVec.eq_of_toNat_eq ?_
  simp only [ofSegments, ofDigits, segments, List.map_cons, List.map_nil, List.foldl_cons,
    List.foldl_nil, BitVec.toNat_ofNat]
  omega

lemma ofSegments_mapped {ip : Ipv6Addr} {ipv4 : Ipv4Addr} (h : toIpv4Mapped ip = some ipv4) :
    ofSegments [0, 0, 0, 0, 0, 65535, ipv4.toNat / 2 ^ 16, ipv4.toNat % 2 ^ 16] = ip := by
  have hlt := ip.isLt
  rw [toIpv4Mapped] at h
  split_ifs at h with hprefix
  obtain rfl := Option.some.inj h
  refine BitVec.eq_of_toNat_eq ?_
  simp only [ofSegments, ofDigits, List.foldl_cons, List.foldl_nil, BitVec.toNat_ofNat,
    BitVec.toNat_setWidth]
  omega

/-- An address that is written with an IPv4 address in it. -/
lemma readIpv6Addr_mapped {ip : Ipv6Addr} {ipv4 : Ipv4Addr} (h : toIpv4Mapped ip = some ipv4)
    {rest : List Char} (hrest : Closed rest) :
    readIpv6Addr ("::ffff:".toList ++ ipv4Text ipv4 ++ rest) = some (ip, rest) := by
  have hhead := noGroup_colons ("ffff:".toList ++ ipv4Text ipv4 ++ rest) 0 8
  have hembedded : readSeparator ':' 1 readIpv4Addr (':' :: (ipv4Text ipv4 ++ rest)) =
      some (ipv4, rest) := by
    rw [readSeparator_succ, readGivenChar_cons, Option.bind_some]
    exact readIpv4Addr_text ipv4 (hrest.stops.mono (by decide))
  have hstops : Stops 16 (':' :: (ipv4Text ipv4 ++ rest)) := stops_cons (by decide) _
  have hffff := readGroup_toDigits (by decide : 65535 < 65536) hstops
  have hgroup := readIpv4Addr_group 65535 hstops (by simp)
  have htail : readGroups 0 7 (Nat.toDigits 16 65535 ++ ':' :: (ipv4Text ipv4 ++ rest)) =
      ([65535, ipv4.toNat / 2 ^ 16, ipv4.toNat % 2 ^ 16], true, rest) := by
    rw [readGroups, readSeparator_zero, readSeparator_zero, hgroup, ite_self]
    simp only [hffff]
    rw [readGroups, if_pos (by decide)]
    simp only [hembedded]
  have hdigits : Nat.toDigits 16 65535 = "ffff".toList := by decide
  have htext : "::ffff:".toList ++ ipv4Text ipv4 ++ rest =
      ':' :: ':' :: (Nat.toDigits 16 65535 ++ ':' :: (ipv4Text ipv4 ++ rest)) := by
    rw [hdigits]
    simp
  rw [htext, readIpv6Addr, noGroup_colons]
  simp only [List.length_nil, readGivenChar_cons, Option.bind_eq_bind, Option.bind_some, htail]
  rw [← ofSegments_mapped h]
  rfl

/-- An address that is written in groups. -/
lemma readIpv6Addr_groups {ip : Ipv6Addr} (h : toIpv4Mapped ip = none) {rest : List Char}
    (hrest : Closed rest) : readIpv6Addr (ipv6Text ip ++ rest) = some (ip, rest) := by
  have hsmall : ∀ group ∈ segments ip, group < 65536 := by
    intro group hmem
    rcases List.mem_map.mp hmem with ⟨i, -, rfl⟩
    exact Nat.mod_lt _ (by decide)
  have height : (segments ip).length = 8 := rfl
  rw [ipv6Text, h]
  simp only
  split_ifs with hrun
  · rcases zeroRun_split (segments ip) (by omega) with ⟨hle, hsplit⟩
    have hbefore : ∀ group ∈ (segments ip).take (zeroRun (segments ip)).start, group < 65536 :=
      fun group hmem => hsmall group (List.mem_of_mem_take hmem)
    have hafter : ∀ group ∈ (segments ip).drop ((zeroRun (segments ip)).start +
        (zeroRun (segments ip)).len), group < 65536 :=
      fun group hmem => hsmall group (List.mem_of_mem_drop hmem)
    generalize hspan : zeroRun (segments ip) = span at *
    have hlength : ((segments ip).take span.start).length = span.start := by
      rw [List.length_take]
      omega
    have hlengthAfter : ((segments ip).drop (span.start + span.len)).length =
        8 - (span.start + span.len) := by rw [List.length_drop, height]
    have htail := readGroups_separated hrest.stops hrest.ne_dot hrest.noGroup
      (8 - (span.start + 1)) (by omega) hafter
    have hhead := readGroups_separated (stops_cons (by decide : toDigit 16 ':' = none) _)
      (by simp) (noGroup_colons (separated 16 ':' ((segments ip).drop (span.start + span.len)) ++
        rest)) 8 (by omega) hbefore
    have htext : separated 16 ':' ((segments ip).take span.start) ++ "::".toList ++
        separated 16 ':' ((segments ip).drop (span.start + span.len)) ++ rest =
        separated 16 ':' ((segments ip).take span.start) ++ ':' :: ':' ::
          (separated 16 ':' ((segments ip).drop (span.start + span.len)) ++ rest) := by simp
    have hzeros : 8 - span.start - (8 - (span.start + span.len)) = span.len := by omega
    rw [htext, readIpv6Addr, hhead]
    simp only [hlength, Option.bind_eq_bind, readGivenChar_cons, Option.bind_some, htail,
      hlengthAfter, hzeros, hsplit, ofSegments_segments, Bool.false_eq_true, if_false]
    rw [if_neg (by omega)]
  · have hread := readGroups_separated hrest.stops hrest.ne_dot hrest.noGroup 8
      (by omega) hsmall
    rw [readIpv6Addr, hread]
    simp only [height, if_true, ofSegments_segments]

/-- **An IPv6 address is read as it is written.** -/
theorem readIpv6Addr_text (ip : Ipv6Addr) {rest : List Char} (hrest : Closed rest) :
    readIpv6Addr (ipv6Text ip ++ rest) = some (ip, rest) := by
  cases h : toIpv4Mapped ip with
  | some ipv4 =>
      rw [ipv6Text, h]
      exact readIpv6Addr_mapped h hrest
  | none => exact readIpv6Addr_groups h hrest

/-! ## Ports and scopes -/

lemma readPort_text {port : ℕ} (hport : port < 65536) :
    readPort (':' :: Nat.toDigits 10 port) = some (port, []) := by
  have hread := readNumber_toDigits none true (by decide)
    (by decide) hport (by simp) (stops_nil 10)
  rw [List.append_nil] at hread
  rw [readPort, readGivenChar_cons, Option.bind_some, hread]

lemma readScopeId_text {scopeId : ℕ} (hscope : scopeId < 2 ^ 32) {rest : List Char}
    (hrest : Stops 10 rest) :
    readScopeId ('%' :: (Nat.toDigits 10 scopeId ++ rest)) = some (scopeId, rest) := by
  have hread := readNumber_toDigits none true (by decide)
    (by decide) hscope (by simp) hrest
  rw [readScopeId, readGivenChar_cons, Option.bind_some, hread]

theorem readSocketAddrV4_text (ip : Ipv4Addr) {port : ℕ} (hport : port < 65536) :
    readSocketAddrV4 (ipv4Text ip ++ ':' :: Nat.toDigits 10 port) = some ((ip, port), []) := by
  have hip := readIpv4Addr_text ip
    (stops_cons (by decide : toDigit 10 ':' = none) (Nat.toDigits 10 port))
  rw [readSocketAddrV4, hip]
  simp [readPort_text hport]

lemma closed_cons {c : Char} (hcolon : c ≠ ':') (hdot : c ≠ '.') (hdigit : toDigit 16 c = none)
    (text : List Char) : Closed (c :: text) := by
  intro c' hc'
  rw [List.head?_cons, Option.mem_some_iff] at hc'
  rw [← hc']
  exact ⟨hcolon, hdot, hdigit⟩

/-- With a scope, which is left out if it is zero. -/
theorem readSocketAddrV6_text (ip : Ipv6Addr) {port scopeId : ℕ} (hport : port < 65536)
    (hscope : scopeId < 2 ^ 32) :
    readSocketAddrV6 ('[' :: (ipv6Text ip ++ ((if scopeId = 0 then [] else
      '%' :: Nat.toDigits 10 scopeId) ++ ']' :: ':' :: Nat.toDigits 10 port))) =
      some ((ip, port, scopeId), []) := by
  have hclosing := closed_cons (by decide : ']' ≠ ':') (by decide) (by decide)
    (':' :: Nat.toDigits 10 port)
  by_cases hzero : scopeId = 0
  · have hnone : readScopeId (']' :: ':' :: Nat.toDigits 10 port) = none := by
      rw [readScopeId, readGivenChar_eq_none (by simp), Option.bind_none]
    rw [if_pos hzero, List.nil_append, readSocketAddrV6]
    simp [readIpv6Addr_text ip hclosing, hnone, readPort_text hport, hzero]
  · have hscoped := closed_cons (by decide : '%' ≠ ':') (by decide) (by decide)
      (Nat.toDigits 10 scopeId ++ ']' :: ':' :: Nat.toDigits 10 port)
    have hread := readScopeId_text hscope (hclosing.stops.mono (by decide : 10 ≤ 16))
    rw [if_neg hzero, List.cons_append, readSocketAddrV6]
    simp [readIpv6Addr_text ip hscoped, hread, readPort_text hport]

end Net
