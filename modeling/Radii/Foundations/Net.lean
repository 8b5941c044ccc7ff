import Mathlib

/-!
# Internet addresses

IPv4 and IPv6 addresses as bit vectors, what kind of address each is, and how Rust's standard
library writes them: dotted decimals, and hexadecimal groups of which the first longest run of two
or more zeros is left out.  `ipv4Text_length_le` and `ipv6Text_length_le` bound the texts,
and `WrittenWith` says which characters are in them.
-/

namespace Net

abbrev Ipv4Addr := BitVec 32
abbrev Ipv6Addr := BitVec 128

def octets (ip : Ipv4Addr) : List ℕ := [3, 2, 1, 0].map fun i => ip.toNat / 2 ^ (8 * i) % 2 ^ 8

def segments (ip : Ipv6Addr) : List ℕ :=
  [7, 6, 5, 4, 3, 2, 1, 0].map fun i => ip.toNat / 2 ^ (16 * i) % 2 ^ 16

/-! ## Kinds of addresses -/

/-- `127.0.0.0/8`. -/
def isLoopback (ip : Ipv4Addr) : Bool :=
  match octets ip with
  | a :: _ => a == 127
  | _ => false

/-- `10.0.0.0/8`, `172.16.0.0/12` and `192.168.0.0/16`. -/
def isPrivate (ip : Ipv4Addr) : Bool :=
  match octets ip with
  | a :: b :: _ => a == 10 || (a == 172 && 16 ≤ b && b ≤ 31) || (a == 192 && b == 168)
  | _ => false

/-- `169.254.0.0/16`. -/
def isLinkLocal (ip : Ipv4Addr) : Bool :=
  match octets ip with
  | a :: b :: _ => a == 169 && b == 254
  | _ => false

/-- The IPv4 address that `::ffff:a.b.c.d` stands for. -/
def toIpv4Mapped (ip : Ipv6Addr) : Option Ipv4Addr :=
  if ip.toNat / 2 ^ 32 = 0xffff then some (ip.setWidth 32) else none

/-! ## Texts -/

/-- The numbers, in the base, with the separator between them. -/
def separated (base : ℕ) (sep : Char) : List ℕ → List Char
  | [] => []
  | [n] => Nat.toDigits base n
  | n :: ns => Nat.toDigits base n ++ sep :: separated base sep ns

def ipv4Text (ip : Ipv4Addr) : List Char := separated 10 '.' (octets ip)

/-- Consecutive groups of an address. -/
structure Span where
  start : ℕ
  len : ℕ
  deriving DecidableEq, Repr

/-- One group's turn in the search for zeros: the longest run so far, and the present one. -/
def stepSpan (spans : Span × Span) (group : ℕ × ℕ) : Span × Span :=
  if group.1 = 0 then
    let current : Span := ⟨if spans.2.len = 0 then group.2 else spans.2.start, spans.2.len + 1⟩
    (if current.len > spans.1.len then current else spans.1, current)
  else (spans.1, ⟨0, 0⟩)

/-- The first longest run of zero groups. -/
def zeroRun (groups : List ℕ) : Span := (groups.zipIdx.foldl stepSpan (⟨0, 0⟩, ⟨0, 0⟩)).1

def ipv6Text (ip : Ipv6Addr) : List Char :=
  match toIpv4Mapped ip with
  | some ipv4 => "::ffff:".toList ++ ipv4Text ipv4
  | none =>
      let groups := segments ip
      let zeroes := zeroRun groups
      if zeroes.len > 1 then
        separated 16 ':' (groups.take zeroes.start) ++ "::".toList ++
          separated 16 ':' (groups.drop (zeroes.start + zeroes.len))
      else separated 16 ':' groups

/-! ### How long they are -/

lemma separated_length_le {base width : ℕ} (hbase : 1 < base) (hwidth : 0 < width) (sep : Char)
    {ns : List ℕ} (h : ∀ n ∈ ns, n < base ^ width) :
    (separated base sep ns).length ≤ (width + 1) * ns.length := by
  induction ns with
  | nil => exact le_refl _
  | cons n ns ih =>
      have hdigits : (Nat.toDigits base n).length ≤ width :=
        (Nat.length_toDigits_le_iff hbase hwidth).mpr (h n List.mem_cons_self)
      have ih := ih fun m hm => h m (List.mem_cons_of_mem _ hm)
      cases ns with
      | nil =>
          rw [separated, List.length_singleton]
          omega
      | cons m ns =>
          simp only [separated, List.length_append, List.length_cons, Nat.mul_add] at ih ⊢
          omega

lemma octets_lt {ip : Ipv4Addr} {n : ℕ} (h : n ∈ octets ip) : n < 10 ^ 3 := by
  rcases List.mem_map.mp h with ⟨i, -, rfl⟩
  exact (Nat.mod_lt _ (by decide)).trans (by decide)

lemma segments_lt {ip : Ipv6Addr} {n : ℕ} (h : n ∈ segments ip) : n < 16 ^ 4 := by
  rcases List.mem_map.mp h with ⟨i, -, rfl⟩
  exact (Nat.mod_lt _ (by decide)).trans_eq (by decide)

lemma ipv4Text_length_le (ip : Ipv4Addr) : (ipv4Text ip).length ≤ 16 :=
  separated_length_le (by decide) (by decide) '.' fun _ => octets_lt

lemma groups_length_le {ns : List ℕ} (h : ∀ n ∈ ns, n < 16 ^ 4) :
    (separated 16 ':' ns).length ≤ 5 * ns.length :=
  separated_length_le (by decide) (by decide) ':' h

lemma ipv6Text_length_le (ip : Ipv6Addr) : (ipv6Text ip).length ≤ 42 := by
  rw [ipv6Text]
  cases toIpv4Mapped ip with
  | some ipv4 =>
      have hipv4 := ipv4Text_length_le ipv4
      have hmapped : "::ffff:".toList.length = 7 := rfl
      rw [List.length_append]
      omega
  | none =>
      have hgroups : (segments ip).length = 8 := rfl
      simp only
      split_ifs
      · have hbefore :
            (separated 16 ':' ((segments ip).take (zeroRun (segments ip)).start)).length ≤
              5 * ((segments ip).take (zeroRun (segments ip)).start).length :=
          groups_length_le fun n hn => segments_lt (List.mem_of_mem_take hn)
        have hafter : (separated 16 ':' ((segments ip).drop
            ((zeroRun (segments ip)).start + (zeroRun (segments ip)).len))).length ≤
            5 * ((segments ip).drop ((zeroRun (segments ip)).start +
              (zeroRun (segments ip)).len)).length :=
          groups_length_le fun n hn => segments_lt (List.mem_of_mem_drop hn)
        have hcolons : "::".toList.length = 2 := rfl
        rw [List.length_take] at hbefore
        rw [List.length_drop] at hafter
        simp only [List.length_append]
        omega
      · have hall := groups_length_le fun n (hn : n ∈ segments ip) => segments_lt hn
        omega

lemma separated_ne_nil (base : ℕ) (sep : Char) {ns : List ℕ} (h : ns ≠ []) :
    separated base sep ns ≠ [] := by
  match ns with
  | [] => exact absurd rfl h
  | [n] => exact Nat.toDigits_ne_nil
  | n :: m :: ns => simp [separated]

lemma ipv4Text_ne_nil (ip : Ipv4Addr) : ipv4Text ip ≠ [] :=
  separated_ne_nil 10 '.' (by simp [octets])

lemma ipv6Text_ne_nil (ip : Ipv6Addr) : ipv6Text ip ≠ [] := by
  rw [ipv6Text]
  cases toIpv4Mapped ip with
  | some ipv4 => simp
  | none =>
      simp only
      split_ifs
      · simp
      · exact separated_ne_nil 16 ':' (by simp [segments])

/-! ### What is in them -/

lemma forall_mem_toDigits {P : Char → Prop} {base : ℕ} (hbase : 1 < base)
    (h : ∀ d < base, P (Nat.digitChar d)) (n : ℕ) : ∀ c ∈ Nat.toDigits base n, P c := by
  induction n using Nat.strong_induction_on with
  | _ n ih =>
      intro c hc
      rw [Nat.toDigits_eq_if hbase] at hc
      split_ifs at hc with hlt
      · rw [List.mem_singleton.mp hc]
        exact h n hlt
      · rcases List.mem_append.mp hc with hc | hc
        · exact ih (n / base) (Nat.div_lt_self (by omega) hbase) c hc
        · rw [List.mem_singleton.mp hc]
          exact h _ (Nat.mod_lt n (by omega))

lemma forall_mem_separated {P : Char → Prop} {base : ℕ} (hbase : 1 < base)
    (h : ∀ d < base, P (Nat.digitChar d)) {sep : Char} (hsep : P sep) (ns : List ℕ) :
    ∀ c ∈ separated base sep ns, P c := by
  induction ns with
  | nil => exact fun c hc => absurd hc List.not_mem_nil
  | cons n ns ih =>
      have hdigits := forall_mem_toDigits hbase h n
      cases ns with
      | nil => exact hdigits
      | cons m ns =>
          intro c hc
          rcases List.mem_append.mp hc with hc | hc
          · exact hdigits c hc
          · rcases List.mem_cons.mp hc with rfl | hc
            · exact hsep
            · exact ih c hc

/-- An address is written with hexadecimal digits, dots and colons. -/
structure WrittenWith (P : Char → Prop) : Prop where
  digit : ∀ d < 16, P (Nat.digitChar d)
  dot : P '.'
  colon : P ':'

lemma WrittenWith.ipv4Text {P : Char → Prop} (h : WrittenWith P) (ip : Ipv4Addr) :
    ∀ c ∈ ipv4Text ip, P c :=
  forall_mem_separated (by decide) (fun d hd => h.digit d (hd.trans (by decide))) h.dot _

lemma WrittenWith.ipv6Text {P : Char → Prop} (h : WrittenWith P) (ip : Ipv6Addr) :
    ∀ c ∈ ipv6Text ip, P c := by
  have hgroups : ∀ ns, ∀ c ∈ separated 16 ':' ns, P c :=
    forall_mem_separated (by decide) h.digit h.colon
  intro c hc
  rw [Net.ipv6Text] at hc
  cases hmapped : toIpv4Mapped ip with
  | some ipv4 =>
      rw [hmapped] at hc
      rcases List.mem_append.mp hc with hc | hc
      · have hchars : ∀ c ∈ "::ffff:".toList, c = ':' ∨ c = 'f' := by simp
        rcases hchars c hc with rfl | rfl
        · exact h.colon
        · exact h.digit 15 (by decide)
      · exact h.ipv4Text ipv4 c hc
  | none =>
      rw [hmapped] at hc
      simp only at hc
      split_ifs at hc
      · rcases List.mem_append.mp hc with hc | hc
        · rcases List.mem_append.mp hc with hc | hc
          · exact hgroups _ c hc
          · have hchars : ∀ c ∈ "::".toList, c = ':' := by simp
            rw [hchars c hc]
            exact h.colon
        · exact hgroups _ c hc
      · exact hgroups _ c hc

end Net
