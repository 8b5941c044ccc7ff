import Radii.Foundations.Net
import Radii.Proto.Message

/-!
# Addresses of peers

`std::net::IpAddr` and `SocketAddr`, as far as Radii uses them, and their texts.  A peer's address is
sent on as text, in an envelope or in a header; it is always within the bounds of the wire
(`SocketAddr.text_le`).
-/

namespace Radii

open Net

inductive IpAddr where
  | v4 (octets : BitVec 32)
  | v6 (octets : BitVec 128)
  deriving DecidableEq, Repr

def IpAddr.chars : IpAddr → List Char
  | .v4 octets => ipv4Text octets
  | .v6 octets => ipv6Text octets

/-- `IpAddr::to_string`. -/
def IpAddr.text (ip : IpAddr) : String := String.ofList ip.chars

lemma IpAddr.chars_ne_nil (ip : IpAddr) : ip.chars ≠ [] := by
  cases ip with
  | v4 octets => exact ipv4Text_ne_nil octets
  | v6 octets => exact ipv6Text_ne_nil octets

lemma IpAddr.writtenWith {P : Char → Prop} (h : WrittenWith P) (ip : IpAddr) :
    ∀ c ∈ ip.chars, P c := by
  cases ip with
  | v4 octets => exact h.ipv4Text octets
  | v6 octets => exact h.ipv6Text octets

inductive SocketAddr where
  | v4 (ip : Ipv4Addr) (port : UInt16)
  | v6 (ip : Ipv6Addr) (port : UInt16) (flowinfo scopeId : UInt32)
  deriving DecidableEq, Repr

namespace SocketAddr

def ip : SocketAddr → IpAddr
  | v4 ip _ => .v4 ip
  | v6 ip _ _ _ => .v6 ip

/-- The scope of an IPv6 address, if it has one. -/
def scope (scopeId : UInt32) : List Char :=
  if scopeId = 0 then [] else '%' :: Nat.toDigits 10 scopeId.toNat

def chars : SocketAddr → List Char
  | v4 ip port => ipv4Text ip ++ ':' :: Nat.toDigits 10 port.toNat
  | v6 ip port _ scopeId =>
      '[' :: ipv6Text ip ++ scope scopeId ++ ']' :: ':' :: Nat.toDigits 10 port.toNat

/-- `SocketAddr::to_string`. -/
def text (addr : SocketAddr) : String := String.ofList addr.chars

end SocketAddr

lemma utf8ByteSize_ofList_le (chars : List Char) :
    (String.ofList chars).utf8ByteSize ≤ 4 * chars.length := by
  induction chars using List.reverseRecOn with
  | nil => exact le_refl _
  | append_singleton chars c ih =>
      have hc := c.utf8Size_le_four
      rw [String.ofList_append, ← String.singleton_eq_ofList, String.append_singleton,
        String.utf8ByteSize_push, List.length_append, List.length_singleton]
      omega

lemma digits_length_le {n width : ℕ} (hwidth : 0 < width) (h : n < 10 ^ width) :
    (Nat.toDigits 10 n).length ≤ width :=
  (Nat.length_toDigits_le_iff (by decide) hwidth).mpr h

/-- A socket address is within the bounds of the wire. -/
lemma SocketAddr.text_le (addr : SocketAddr) : addr.text.utf8ByteSize ≤ maxListenAddrLen := by
  have hbytes := utf8ByteSize_ofList_le addr.chars
  have hmax : maxListenAddrLen = 256 := rfl
  cases addr with
  | v4 ip port =>
      have hip := ipv4Text_length_le ip
      have hport := digits_length_le (n := port.toNat) (by decide : 0 < 5)
        (by have := port.toNat_lt; omega)
      simp only [text, chars, List.length_append, List.length_cons] at hbytes ⊢
      omega
  | v6 ip port flowinfo scopeId =>
      have hip := ipv6Text_length_le ip
      have hport := digits_length_le (n := port.toNat) (by decide : 0 < 5)
        (by have := port.toNat_lt; omega)
      have hscope : (scope scopeId).length ≤ 11 := by
        rw [scope]
        split_ifs
        · exact Nat.zero_le _
        · have := digits_length_le (n := scopeId.toNat) (by decide : 0 < 10)
            (by have := scopeId.toNat_lt; omega)
          rw [List.length_cons]
          omega
      simp only [text, chars, List.length_append, List.length_cons, List.cons_append] at hbytes ⊢
      omega

end Radii
