import Radii.Proto.Validate

/-!
# Beacon datagrams

`encode` and `decode` of `crates/beacon/src/lib.rs`: one hello in one datagram, after four bytes that
say whose it is and one that says whether it wants an answer.

* `decode_encode` — what is encoded is decoded again.
* `datagrams_round_trip` — what is encoded, what is decoded, and what becomes of that.
-/

namespace Radii

open Wire

/-- Whether a beacon was sent unasked or in answer to one. -/
inductive Kind where
  | announce
  | answer
  deriving DecidableEq, Repr

def Kind.byte : Kind → UInt8
  | announce => 0
  | answer => 1

def Kind.ofByte : UInt8 → Option Kind
  | 0 => some announce
  | 1 => some answer
  | _ => none

@[simp] lemma Kind.ofByte_byte (kind : Kind) : Kind.ofByte kind.byte = some kind := by
  cases kind <;> rfl

def RadiiMessage.isHello : RadiiMessage → Bool
  | .nodeHello _ _ _ => true
  | _ => false

/-- Why a datagram is not written or not read. -/
inductive DatagramError where
  | invalid (text : String)
  /-- The text is postcard's. -/
  | postcard
  deriving DecidableEq, Repr

namespace Beacon

def maxDatagram : ℕ := 1200

/-- "RDB1". -/
def magic : Bytes := [82, 68, 66, 49]

def encode (kind : Kind) (hello : RadiiMessage) : Except DatagramError Bytes :=
  if !hello.isHello then .error (.invalid "a beacon carries only a NodeHello")
  else match validateMessage hello with
    | .error text => .error (.invalid text)
    | .ok () =>
        let out := magic ++ kind.byte :: encodeMessage hello
        if out.length > maxDatagram then
          .error (.invalid s!"beacon of {out.length} bytes exceeds {maxDatagram}")
        else .ok out

/-- What is read of a datagram; what follows the message is ignored. -/
def decode (bytes : Bytes) : Except DatagramError (Kind × RadiiMessage) :=
  if bytes.take 4 ≠ magic then .error (.invalid "not a Radii beacon")
  else match bytes.drop 4 with
    | [] => .error (.invalid "beacon has no body")
    | tag :: body =>
        match Kind.ofByte tag with
        | none => .error (.invalid s!"unknown beacon kind {tag.toNat}")
        | some kind =>
            match decodeMessage body with
            | none => .error .postcard
            | some (hello, _) =>
                if !hello.isHello then .error (.invalid "a beacon carries only a NodeHello")
                else match validateMessage hello with
                  | .error text => .error (.invalid text)
                  | .ok () => .ok (kind, hello)

/-- When there is a datagram for a message, and which. -/
lemma encode_eq_ok {kind : Kind} {hello : RadiiMessage} {bytes : Bytes} :
    encode kind hello = .ok bytes ↔ hello.isHello = true ∧ validateMessage hello = .ok () ∧
      bytes = magic ++ kind.byte :: encodeMessage hello ∧ bytes.length ≤ maxDatagram := by
  rw [encode]
  cases hello.isHello with
  | false => simp
  | true =>
      cases validateMessage hello with
      | error text => simp
      | ok =>
          simp only [Bool.not_true, Bool.false_eq_true, if_false, true_and]
          split_ifs with hlong
          · simp only [false_iff, not_and, not_le]
            rintro rfl
            exact hlong
          · rw [Except.ok.injEq]
            constructor
            · rintro rfl
              exact ⟨rfl, not_lt.mp hlong⟩
            · rintro ⟨rfl, -⟩
              rfl

lemma decode_eq_ok {bytes : Bytes} {kind : Kind} {hello : RadiiMessage} :
    decode bytes = .ok (kind, hello) ↔ ∃ tag body rest, bytes = magic ++ tag :: body ∧
      Kind.ofByte tag = some kind ∧ decodeMessage body = some (hello, rest) ∧
      hello.isHello = true ∧ validateMessage hello = .ok () := by
  constructor
  · intro h
    rw [decode] at h
    split_ifs at h with hmagic
    have hsplit : bytes = magic ++ bytes.drop 4 := by
      rw [← not_not.mp hmagic, List.take_append_drop]
    cases hdrop : bytes.drop 4 with
    | nil => simp [hdrop] at h
    | cons tag body =>
        rw [hdrop] at h hsplit
        cases hkind : Kind.ofByte tag with
        | none => simp [hkind] at h
        | some found =>
            cases hdecoded : decodeMessage body with
            | none => simp [hkind, hdecoded] at h
            | some read =>
                cases hhello : read.1.isHello with
                | false => simp [hkind, hdecoded, hhello] at h
                | true =>
                    cases hvalid : validateMessage read.1 with
                    | error text => simp [hkind, hdecoded, hhello, hvalid] at h
                    | ok =>
                        simp only [hkind, hdecoded, hhello, hvalid, Bool.not_true,
                          Bool.false_eq_true, if_false, Except.ok.injEq, Prod.mk.injEq] at h
                        rcases h with ⟨rfl, rfl⟩
                        exact ⟨tag, body, read.2, hsplit, hkind, hdecoded, hhello, hvalid⟩
  · rintro ⟨tag, body, rest, rfl, hkind, hdecoded, hhello, hvalid⟩
    have htake : (magic ++ tag :: body).take 4 = magic := rfl
    have hdrop : (magic ++ tag :: body).drop 4 = tag :: body := rfl
    rw [decode, if_neg (not_not.mpr htake), hdrop]
    simp [hkind, hdecoded, hhello, hvalid]

/-- **What is encoded is decoded.** -/
theorem decode_encode {kind : Kind} {hello : RadiiMessage} {bytes : Bytes}
    (h : encode kind hello = .ok bytes) : decode bytes = .ok (kind, hello) := by
  rcases encode_eq_ok.mp h with ⟨hhello, hvalid, rfl, hlength⟩
  have hdecoded := messageCodec.decode_encode hello [] (by
    rw [List.length_append, List.length_cons, maxDatagram] at hlength
    show (encodeMessage hello).length < 2 ^ 64
    omega)
  rw [List.append_nil] at hdecoded
  exact decode_eq_ok.mpr ⟨kind.byte, encodeMessage hello, [], rfl, Kind.ofByte_byte kind, hdecoded,
    hhello, hvalid⟩

/-! ## What datagrams carry -/

/-- A hello within the protocol's bounds. -/
def WithinBounds (hello : RadiiMessage) : Prop :=
  ∃ nodeId roles listenAddrs, hello = .nodeHello nodeId roles listenAddrs ∧
    ValidHello nodeId roles listenAddrs

lemma withinBounds_iff {hello : RadiiMessage} :
    WithinBounds hello ↔ hello.isHello = true ∧ validateMessage hello = .ok () := by
  constructor
  · rintro ⟨nodeId, roles, listenAddrs, rfl, hvalid⟩
    exact ⟨rfl, validateHello_eq_ok.mpr hvalid⟩
  · rintro ⟨hhello, hvalid⟩
    cases hello with
    | nodeHello nodeId roles listenAddrs =>
        exact ⟨nodeId, roles, listenAddrs, rfl, validateHello_eq_ok.mp hvalid⟩
    | _ => simp [RadiiMessage.isHello] at hhello

/-- The one datagram there could be for a message. -/
def datagram (kind : Kind) (hello : RadiiMessage) : Bytes :=
  magic ++ kind.byte :: encodeMessage hello

/-- When there is one. -/
lemma exists_encode_iff {kind : Kind} {hello : RadiiMessage} :
    (∃ bytes, encode kind hello = .ok bytes) ↔
      WithinBounds hello ∧ (datagram kind hello).length ≤ maxDatagram := by
  rw [withinBounds_iff]
  constructor
  · rintro ⟨bytes, h⟩
    rcases encode_eq_ok.mp h with ⟨hhello, hvalid, rfl, hlength⟩
    exact ⟨⟨hhello, hvalid⟩, hlength⟩
  · rintro ⟨⟨hhello, hvalid⟩, hlength⟩
    exact ⟨datagram kind hello, encode_eq_ok.mpr ⟨hhello, hvalid, rfl, hlength⟩⟩

/-- What is decoded is no longer to write than it was to read: of its numbers, lengths and names
each has no shorter encoding than the one that is written. -/
lemma datagram_le {bytes : Bytes} {kind : Kind} {hello : RadiiMessage}
    (h : decode bytes = .ok (kind, hello)) : (datagram kind hello).length ≤ bytes.length := by
  rcases decode_eq_ok.mp h with ⟨tag, body, rest, rfl, -, hdecoded, -⟩
  rcases messageCodec.encode_le _ _ _ hdecoded with ⟨used, rfl, hle⟩
  have hle' : (encodeMessage hello).length ≤ used.length := hle
  rw [datagram, List.length_append, List.length_append, List.length_cons, List.length_cons,
    List.length_append]
  omega

/-- **Datagrams go round and admit nothing out of bounds.**  What is encoded fits and is decoded to
the same; exactly the hellos within the bounds whose datagram fits are encoded; and what is decoded,
of whatever bytes, is one within the bounds, which if they fit is encoded in no more of them. -/
theorem datagrams_round_trip :
    (∀ kind hello bytes, encode kind hello = .ok bytes →
      bytes.length ≤ maxDatagram ∧ decode bytes = .ok (kind, hello)) ∧
    (∀ kind hello, (∃ bytes, encode kind hello = .ok bytes) ↔
      WithinBounds hello ∧ (datagram kind hello).length ≤ maxDatagram) ∧
    (∀ bytes kind hello, decode bytes = .ok (kind, hello) → WithinBounds hello ∧
      (bytes.length ≤ maxDatagram → ∃ out, encode kind hello = .ok out ∧
        out.length ≤ bytes.length ∧ decode out = .ok (kind, hello))) := by
  refine ⟨?_, fun _ _ => exists_encode_iff, ?_⟩
  · intro kind hello bytes h
    exact ⟨(encode_eq_ok.mp h).2.2.2, decode_encode h⟩
  · intro bytes kind hello h
    rcases decode_eq_ok.mp h with ⟨-, -, -, -, -, -, hhello, hvalid⟩
    refine ⟨withinBounds_iff.mpr ⟨hhello, hvalid⟩, ?_⟩
    intro hfits
    have hle := datagram_le h
    have hencoded : encode kind hello = .ok (datagram kind hello) :=
      encode_eq_ok.mpr ⟨hhello, hvalid, rfl, hle.trans hfits⟩
    exact ⟨datagram kind hello, hencoded, hle, decode_encode hencoded⟩

/-- A hello in a datagram that spells the length of its name in two bytes and is padded. -/
theorem datagrams_round_trip_padded :
    let bytes := magic ++ [0, 0, 129, 0, 97, 0, 0, 7, 7]
    decode bytes = .ok (.announce, .nodeHello "a" [] []) ∧
    WithinBounds (.nodeHello "a" [] []) ∧
    ∃ out, encode .announce (.nodeHello "a" [] []) = .ok out ∧ out.length ≤ bytes.length := by
  intro bytes
  have hdecoded : decode bytes = .ok (.announce, .nodeHello "a" [] []) := by decide
  rcases datagrams_round_trip.2.2 bytes _ _ hdecoded with ⟨hbounds, hagain⟩
  rcases hagain (by decide) with ⟨out, hencoded, hle, -⟩
  exact ⟨hdecoded, hbounds, out, hencoded, hle⟩

end Beacon

end Radii
