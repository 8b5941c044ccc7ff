import Mathlib

/-!
# A postcard-shaped wire format

The wire format the rest of the development is written in: LEB128 varints with a byte budget,
length-prefixed strings and sequences, one-byte option tags and booleans, fields one after
another, variants led by their index.  Nothing here knows which messages are sent.

A `Codec` carries its own laws, so a format assembled from the combinators below is correct by
construction:

* **round trip** (`decode_encode`): what was written is read back, whatever follows it;
* **no growth** (`encode_le`): what is read back is never longer to write than it was to read.
  The reader accepts non-canonical varints, so the second law is not a consequence of the first.
-/

namespace Wire

/-- A string of bytes as it crosses the wire. -/
abbrev Bytes := List UInt8

/-! ## Varints -/

/-- The longest varint of a `w`-bit integer, in bytes. -/
def varintMax (w : ℕ) : ℕ := (w + 6) / 7

/-- The largest value the last byte of a full-length varint of a `w`-bit integer may hold. -/
def maxOfLastByte (w : ℕ) : ℕ := 2 ^ (w % 7) - 1

/-- At most `k` groups of seven bits of `n`, lowest first, all but the last with the high bit
set. -/
def varintBytes : ℕ → ℕ → Bytes
  | 0, _ => []
  | k + 1, n =>
      if n < 128 then [UInt8.ofNat n]
      else UInt8.ofNat (n % 128 + 128) :: varintBytes k (n / 128)

/-- Reads at most `k` bytes of a varint whose `k`-th byte may not exceed `last`. -/
def takeGroups (last : ℕ) : ℕ → Bytes → Option (ℕ × Bytes)
  | 0, _ => none
  | _ + 1, [] => none
  | k + 1, b :: rest =>
      if b.toNat < 128 then
        if k = 0 ∧ last < b.toNat then none else some (b.toNat, rest)
      else
        (takeGroups last k rest).map fun r => (b.toNat - 128 + 128 * r.1, r.2)

lemma toNat_ofNat_of_lt {n : ℕ} (h : n < 256) : (UInt8.ofNat n).toNat = n := by
  simp [UInt8.toNat_ofNat', Nat.mod_eq_of_lt h]

/-- A budget of `k + 1` groups whose last one holds at most `last` is enough for every number
below `128 ^ k * (last + 1)`. -/
lemma takeGroups_varintBytes {last : ℕ} (hlast : last < 128) (rest : Bytes) :
    ∀ (k n : ℕ), n < 128 ^ k * (last + 1) →
      takeGroups last (k + 1) (varintBytes (k + 1) n ++ rest) = some (n, rest) := by
  intro k
  induction k with
  | zero =>
      intro n hn
      have hn' : n < 128 := by omega
      have hb : (UInt8.ofNat n).toNat = n := toNat_ofNat_of_lt (by omega)
      simp only [varintBytes, if_pos hn', List.singleton_append, takeGroups, hb]
      rw [if_neg (by omega)]
  | succ k ih =>
      intro n hn
      by_cases hsmall : n < 128
      · have hb : (UInt8.ofNat n).toNat = n := toNat_ofNat_of_lt (by omega)
        rw [varintBytes, if_pos hsmall, List.singleton_append, takeGroups, hb, if_pos hsmall,
          if_neg (by omega)]
      · have hb : (UInt8.ofNat (n % 128 + 128)).toNat = n % 128 + 128 :=
          toNat_ofNat_of_lt (by omega)
        have hdiv : n / 128 < 128 ^ k * (last + 1) := by
          rw [Nat.div_lt_iff_lt_mul (by norm_num)]
          calc n < 128 ^ (k + 1) * (last + 1) := hn
            _ = 128 ^ k * (last + 1) * 128 := by ring
        rw [varintBytes, if_neg hsmall, List.cons_append, takeGroups, hb, if_neg (by omega),
          ih (n / 128) hdiv]
        simp only [Option.map_some, Option.some.injEq, Prod.mk.injEq, and_true]
        omega

/-- What `takeGroups` read is below the bound, and writing it again takes no more bytes than
were read. -/
lemma takeGroups_sound {last : ℕ} (hlast : last < 128) :
    ∀ (k : ℕ) (bytes : Bytes) (n : ℕ) (rest : Bytes),
      takeGroups last (k + 1) bytes = some (n, rest) →
        n < 128 ^ k * (last + 1) ∧
          ∃ used, bytes = used ++ rest ∧ (varintBytes (k + 1) n).length ≤ used.length := by
  intro k
  induction k with
  | zero =>
      intro bytes n rest h
      cases bytes with
      | nil => simp [takeGroups] at h
      | cons b tail =>
          simp only [takeGroups, true_and, Option.map_none] at h
          split at h
          · split at h
            · simp at h
            · simp only [Option.some.injEq, Prod.mk.injEq] at h
              rcases h with ⟨rfl, rfl⟩
              refine ⟨by omega, [b], rfl, ?_⟩
              rw [varintBytes, if_pos (by omega)]
              simp
          · simp at h
  | succ k ih =>
      intro bytes n rest h
      cases bytes with
      | nil => simp [takeGroups] at h
      | cons b tail =>
          rw [takeGroups] at h
          split at h
          · rename_i hb
            rw [if_neg (by omega)] at h
            simp only [Option.some.injEq, Prod.mk.injEq] at h
            rcases h with ⟨rfl, rfl⟩
            refine ⟨?_, [b], rfl, ?_⟩
            · calc b.toNat < 128 := hb
                _ ≤ 128 ^ (k + 1) := by
                    simpa using Nat.pow_le_pow_right (n := 128) (by norm_num) (Nat.le_add_left 1 k)
                _ ≤ 128 ^ (k + 1) * (last + 1) := Nat.le_mul_of_pos_right _ (by omega)
            · rw [varintBytes, if_pos hb]
              simp
          · rename_i hb
            have hlt : b.toNat < 256 := b.toNat_lt
            cases hr : takeGroups last (k + 1) tail with
            | none => simp [hr] at h
            | some r =>
                rcases r with ⟨m, rest'⟩
                simp only [hr, Option.map_some, Option.some.injEq, Prod.mk.injEq] at h
                rcases h with ⟨rfl, rfl⟩
                obtain ⟨hm, used, hused, hlen⟩ := ih tail m rest' hr
                refine ⟨?_, b :: used, by rw [hused]; rfl, ?_⟩
                · have hpow : 128 ^ (k + 1) * (last + 1) = 128 ^ k * (last + 1) * 128 := by ring
                  rw [hpow]
                  omega
                · rw [varintBytes]
                  split
                  · simp
                  · have hq : (b.toNat - 128 + 128 * m) / 128 = m := by omega
                    rw [hq]
                    simpa using hlen

lemma varintBytes_length_pos (k n : ℕ) : 0 < (varintBytes (k + 1) n).length := by
  rw [varintBytes]
  split <;> simp

/-- A number below `128 ^ j` needs at most `j` bytes. -/
lemma varintBytes_length_le (k : ℕ) : ∀ (j n : ℕ), n < 128 ^ (j + 1) →
    (varintBytes k n).length ≤ j + 1 := by
  induction k with
  | zero => intro j n _; simp [varintBytes]
  | succ k ih =>
      intro j n hn
      rw [varintBytes]
      split
      · simp
      · rename_i hbig
        cases j with
        | zero => omega
        | succ j =>
            have hdiv : n / 128 < 128 ^ (j + 1) := by
              rw [Nat.div_lt_iff_lt_mul (by norm_num)]
              calc n < 128 ^ (j + 1 + 1) := hn
                _ = 128 ^ (j + 1) * 128 := by ring
            simpa using ih j (n / 128) hdiv

/-- A width whose varints are exactly what the byte budget can hold.  `u32`, `u64` and the
`usize` of a 64-bit target are the widths in use. -/
structure Width where
  bits : ℕ
  groups : ℕ
  varintMax_eq : varintMax bits = groups + 1
  last_lt : maxOfLastByte bits < 128
  bound_eq : 128 ^ groups * (maxOfLastByte bits + 1) = 2 ^ bits

def u32 : Width := ⟨32, 4, rfl, by decide, by norm_num [maxOfLastByte]⟩
def u64 : Width := ⟨64, 9, rfl, by decide, by norm_num [maxOfLastByte]⟩

/-- The varint of an integer of width `w`. -/
def putVarint (w : Width) (n : ℕ) : Bytes := varintBytes (varintMax w.bits) n

/-- Reads the varint of an integer of width `w` off the front. -/
def takeVarint (w : Width) (bytes : Bytes) : Option (ℕ × Bytes) :=
  takeGroups (maxOfLastByte w.bits) (varintMax w.bits) bytes

lemma takeVarint_put (w : Width) {n : ℕ} (h : n < 2 ^ w.bits) (rest : Bytes) :
    takeVarint w (putVarint w n ++ rest) = some (n, rest) := by
  rw [takeVarint, putVarint, w.varintMax_eq]
  exact takeGroups_varintBytes w.last_lt rest w.groups n (by rwa [w.bound_eq])

lemma takeVarint_sound (w : Width) {bytes rest : Bytes} {n : ℕ}
    (h : takeVarint w bytes = some (n, rest)) :
    n < 2 ^ w.bits ∧ ∃ used, bytes = used ++ rest ∧ (putVarint w n).length ≤ used.length := by
  rw [takeVarint, w.varintMax_eq] at h
  have hs := takeGroups_sound w.last_lt w.groups bytes n rest h
  rwa [w.bound_eq, ← w.varintMax_eq, ← putVarint] at hs

lemma putVarint_length_pos (w : Width) (n : ℕ) : 0 < (putVarint w n).length := by
  rw [putVarint, w.varintMax_eq]
  exact varintBytes_length_pos _ _

/-- Five bytes hold every varint of a number below `2 ^ 35`, whatever its type. -/
lemma putVarint_length_le_five (w : Width) {n : ℕ} (h : n < 2 ^ 35) :
    (putVarint w n).length ≤ 5 :=
  varintBytes_length_le _ 4 n (by norm_num at h ⊢; exact h)

/-! ## Codecs -/

/-- A wire format for `α`, with the laws a stream of values needs.  `decode` returns the value
at the front and what follows it.  The length side condition of the round trip only excludes
values that no 64-bit process could hold. -/
structure Codec (α : Type) where
  encode : α → Bytes
  decode : Bytes → Option (α × Bytes)
  encode_pos : ∀ a, 0 < (encode a).length
  decode_encode : ∀ a rest, (encode a).length < 2 ^ 64 →
    decode (encode a ++ rest) = some (a, rest)
  encode_le : ∀ bytes a rest, decode bytes = some (a, rest) →
    ∃ used, bytes = used ++ rest ∧ (encode a).length ≤ used.length

namespace Codec

variable {α β : Type}

/-- A value made of what was read, and what follows it. -/
lemma map_read_eq_some {read : Option (α × Bytes)} {f : α × Bytes → β} {b : β} {rest : Bytes} :
    (read.map fun r => (f r, r.2)) = some (b, rest) ↔ ∃ a, read = some (a, rest) ∧ f (a, rest) = b := by
  simp only [Option.map_eq_some_iff, Prod.mk.injEq, Prod.exists]
  constructor
  · rintro ⟨a, rest', hread, hb, rfl⟩
    exact ⟨a, hread, hb⟩
  · rintro ⟨a, hread, hb⟩
    exact ⟨a, rest, hread, hb, rfl⟩

/-- The same format under another name for the values. -/
def imap (c : Codec α) (f : α → β) (g : β → α) (hfg : ∀ b, f (g b) = b)
    (hgf : ∀ a, g (f a) = a) : Codec β where
  encode b := c.encode (g b)
  decode bytes := (c.decode bytes).map fun r => (f r.1, r.2)
  encode_pos b := c.encode_pos _
  decode_encode b rest h := by rw [c.decode_encode _ _ h, Option.map_some, hfg]
  encode_le bytes b rest h := by
    rcases map_read_eq_some.mp h with ⟨a, ha, rfl⟩
    rw [hgf]
    exact c.encode_le _ _ _ ha

/-- Two fields, one after the other. -/
def prod (c : Codec α) (d : Codec β) : Codec (α × β) where
  encode p := c.encode p.1 ++ d.encode p.2
  decode bytes := (c.decode bytes).bind fun r =>
    (d.decode r.2).map fun s => ((r.1, s.1), s.2)
  encode_pos p := by
    have := c.encode_pos p.1
    simp only [List.length_append]
    omega
  decode_encode p rest h := by
    simp only [List.length_append] at h
    rw [List.append_assoc, c.decode_encode _ _ (by omega), Option.bind_some,
      d.decode_encode _ _ (by omega), Option.map_some]
  encode_le bytes p rest h := by
    rw [Option.bind_eq_some_iff] at h
    rcases h with ⟨⟨a, mid⟩, ha, h⟩
    rcases map_read_eq_some.mp h with ⟨b, hb, rfl⟩
    obtain ⟨u, hu, hul⟩ := c.encode_le _ _ _ ha
    obtain ⟨v, hv, hvl⟩ := d.encode_le _ _ _ hb
    simp only at hv
    refine ⟨u ++ v, by rw [hu, hv, List.append_assoc], ?_⟩
    simp only [List.length_append]
    omega

/-- A 32-bit integer. -/
def uint32 : Codec UInt32 where
  encode n := putVarint u32 n.toNat
  decode bytes := (takeVarint u32 bytes).map fun r => (UInt32.ofNat r.1, r.2)
  encode_pos n := putVarint_length_pos u32 _
  decode_encode n rest _ := by
    have h := takeVarint_put u32 (n := n.toNat) n.toNat_lt rest
    rw [h, Option.map_some, UInt32.ofNat_toNat]
  encode_le bytes n rest h := by
    rcases map_read_eq_some.mp h with ⟨m, hm, rfl⟩
    obtain ⟨hlt, hused⟩ := takeVarint_sound u32 hm
    rwa [UInt32.toNat_ofNat_of_lt' hlt]

/-- A 64-bit integer. -/
def uint64 : Codec UInt64 where
  encode n := putVarint u64 n.toNat
  decode bytes := (takeVarint u64 bytes).map fun r => (UInt64.ofNat r.1, r.2)
  encode_pos n := putVarint_length_pos u64 _
  decode_encode n rest _ := by
    have h := takeVarint_put u64 (n := n.toNat) n.toNat_lt rest
    rw [h, Option.map_some, UInt64.ofNat_toNat]
  encode_le bytes n rest h := by
    rcases map_read_eq_some.mp h with ⟨m, hm, rfl⟩
    obtain ⟨hlt, hused⟩ := takeVarint_sound u64 hm
    rwa [UInt64.toNat_ofNat_of_lt' hlt]

/-- One byte, `0` or `1`. -/
def bool : Codec Bool where
  encode b := [if b then 1 else 0]
  decode
    | [] => none
    | b :: rest => if b = 0 then some (false, rest) else if b = 1 then some (true, rest) else none
  encode_pos b := by simp
  decode_encode b rest _ := by cases b <;> simp
  encode_le bytes b rest h := by
    cases bytes with
    | nil => simp at h
    | cons x tail =>
        refine ⟨[x], ?_, by simp⟩
        simp only at h
        split_ifs at h <;> simp_all

/-- A one-byte tag, then the value if there is one. -/
def option (c : Codec α) : Codec (Option α) where
  encode
    | none => [0]
    | some a => 1 :: c.encode a
  decode
    | [] => none
    | b :: rest =>
        if b = 0 then some (none, rest)
        else if b = 1 then (c.decode rest).map fun r => (some r.1, r.2)
        else none
  encode_pos o := by cases o <;> simp
  decode_encode o rest h := by
    cases o with
    | none => simp
    | some a =>
        simp only [List.length_cons] at h
        simp [c.decode_encode a rest (by omega)]
  encode_le bytes o rest h := by
    cases bytes with
    | nil => simp at h
    | cons x tail =>
        simp only at h
        split_ifs at h
        · simp only [Option.some.injEq, Prod.mk.injEq] at h
          rcases h with ⟨rfl, rfl⟩
          exact ⟨[x], rfl, by simp⟩
        · rcases map_read_eq_some.mp h with ⟨a, ha, rfl⟩
          obtain ⟨used, hused, hlen⟩ := c.encode_le _ _ _ ha
          exact ⟨x :: used, by rw [hused]; rfl, by simpa using hlen⟩

/-! ### Strings

A string is its length in bytes and then its UTF-8 bytes; the reader refuses bytes that are not
UTF-8. -/

/-- The UTF-8 bytes of a string. -/
def strBytes (s : String) : Bytes := s.toByteArray.data.toList

@[simp] lemma strBytes_length (s : String) : (strBytes s).length = s.utf8ByteSize := by
  rfl

lemma fromUTF8_strBytes (s : String) : String.fromUTF8? ⟨(strBytes s).toArray⟩ = some s := by
  have hb : (⟨(strBytes s).toArray⟩ : ByteArray) = s.toByteArray := by
    simp [strBytes]
  rw [hb, String.fromUTF8?, dif_pos s.isValidUTF8]
  rfl

lemma strBytes_of_fromUTF8 {bytes : Bytes} {s : String}
    (h : String.fromUTF8? ⟨bytes.toArray⟩ = some s) : strBytes s = bytes := by
  rw [String.fromUTF8?] at h
  split at h
  · simp only [Option.some.injEq] at h
    subst h
    simp [strBytes, String.fromUTF8]
  · simp at h

def str : Codec String where
  encode s := putVarint u64 s.utf8ByteSize ++ strBytes s
  decode bytes := (takeVarint u64 bytes).bind fun r =>
    if r.1 ≤ r.2.length then
      (String.fromUTF8? ⟨(r.2.take r.1).toArray⟩).map fun s => (s, r.2.drop r.1)
    else none
  encode_pos s := by
    have := putVarint_length_pos u64 s.utf8ByteSize
    simp only [List.length_append]
    omega
  decode_encode s rest h := by
    simp only [List.length_append, strBytes_length] at h
    have ht := takeVarint_put u64 (n := s.utf8ByteSize) (by show _ < 2 ^ 64; omega)
      (strBytes s ++ rest)
    rw [List.append_assoc, ht, Option.bind_some, if_pos (by simp),
      List.take_left' (strBytes_length s), List.drop_left' (strBytes_length s),
      fromUTF8_strBytes, Option.map_some]
  encode_le bytes s rest h := by
    rw [Option.bind_eq_some_iff] at h
    rcases h with ⟨⟨n, mid⟩, hn, h⟩
    simp only at h
    split_ifs at h with hle
    rw [Option.map_eq_some_iff] at h
    rcases h with ⟨s', hs, he⟩
    simp only [Prod.mk.injEq] at he
    rcases he with ⟨rfl, rfl⟩
    have hbytes := strBytes_of_fromUTF8 hs
    have hsize : s'.utf8ByteSize = n := by
      rw [← strBytes_length, hbytes, List.length_take, Nat.min_eq_left hle]
    obtain ⟨-, used, hused, hlen⟩ := takeVarint_sound u64 hn
    refine ⟨used ++ mid.take n, by rw [hused, List.append_assoc, List.take_append_drop], ?_⟩
    simp only [List.length_append, strBytes_length, hsize, List.length_take]
    omega

/-! ### Sequences -/

/-- Reads `n` values. -/
def decodeN (c : Codec α) : ℕ → Bytes → Option (List α × Bytes)
  | 0, bytes => some ([], bytes)
  | n + 1, bytes => (c.decode bytes).bind fun r =>
      (c.decodeN n r.2).map fun s => (r.1 :: s.1, s.2)

lemma decodeN_flatMap (c : Codec α) (rest : Bytes) :
    ∀ xs : List α, (xs.flatMap c.encode).length < 2 ^ 64 →
      c.decodeN xs.length (xs.flatMap c.encode ++ rest) = some (xs, rest) := by
  intro xs
  induction xs with
  | nil => intro _; rfl
  | cons x xs ih =>
      intro h
      simp only [List.flatMap_cons, List.length_append] at h
      rw [List.flatMap_cons, List.append_assoc, List.length_cons, decodeN,
        c.decode_encode _ _ (by omega), Option.bind_some, ih (by omega), Option.map_some]

lemma decodeN_sound (c : Codec α) : ∀ (n : ℕ) (bytes : Bytes) (xs : List α) (rest : Bytes),
    c.decodeN n bytes = some (xs, rest) →
      xs.length = n ∧
        ∃ used, bytes = used ++ rest ∧ (xs.flatMap c.encode).length ≤ used.length := by
  intro n
  induction n with
  | zero =>
      intro bytes xs rest h
      simp only [decodeN, Option.some.injEq, Prod.mk.injEq] at h
      rcases h with ⟨rfl, rfl⟩
      exact ⟨rfl, [], rfl, by simp⟩
  | succ n ih =>
      intro bytes xs rest h
      rw [decodeN, Option.bind_eq_some_iff] at h
      rcases h with ⟨⟨a, mid⟩, ha, h⟩
      rcases map_read_eq_some.mp h with ⟨as, has, rfl⟩
      obtain ⟨u, hu, hul⟩ := c.encode_le _ _ _ ha
      obtain ⟨hn, v, hv, hvl⟩ := ih _ _ _ has
      simp only at hv
      refine ⟨by rw [List.length_cons, hn], u ++ v, by rw [hu, hv, List.append_assoc], ?_⟩
      simp only [List.flatMap_cons, List.length_append]
      omega

/-- Every value takes at least one byte. -/
lemma length_le_flatMap (c : Codec α) (xs : List α) :
    xs.length ≤ (xs.flatMap c.encode).length := by
  induction xs with
  | nil => simp
  | cons x xs ih =>
      have := c.encode_pos x
      simp only [List.flatMap_cons, List.length_append, List.length_cons]
      omega

/-- The number of values, then the values. -/
def seq (c : Codec α) : Codec (List α) where
  encode xs := putVarint u64 xs.length ++ xs.flatMap c.encode
  decode bytes := (takeVarint u64 bytes).bind fun r => c.decodeN r.1 r.2
  encode_pos xs := by
    have := putVarint_length_pos u64 xs.length
    simp only [List.length_append]
    omega
  decode_encode xs rest h := by
    simp only [List.length_append] at h
    have hxs := c.length_le_flatMap xs
    have ht := takeVarint_put u64 (n := xs.length) (by show _ < 2 ^ 64; omega)
      (xs.flatMap c.encode ++ rest)
    rw [List.append_assoc, ht, Option.bind_some]
    exact c.decodeN_flatMap rest xs (by omega)
  encode_le bytes xs rest h := by
    rw [Option.bind_eq_some_iff] at h
    rcases h with ⟨⟨n, mid⟩, hn, h⟩
    obtain ⟨hlen, v, hv, hvl⟩ := c.decodeN_sound _ _ _ _ h
    obtain ⟨-, used, hused, hul⟩ := takeVarint_sound u64 hn
    simp only at hv
    refine ⟨used ++ v, by rw [hused, hv, List.append_assoc], ?_⟩
    simp only [List.length_append, hlen]
    omega

/-! ### Sizes -/

lemma str_length_le {s : String} (h : s.utf8ByteSize < 2 ^ 35) :
    (str.encode s).length ≤ s.utf8ByteSize + 5 := by
  have := putVarint_length_le_five u64 h
  simp only [str, List.length_append, strBytes_length]
  omega

/-- A sequence is at most five bytes longer than its elements, each within its own bound. -/
lemma seq_length_le (c : Codec α) (bound : α → ℕ) {xs : List α} (hxs : xs.length < 2 ^ 35)
    (h : ∀ x ∈ xs, (c.encode x).length ≤ bound x) :
    (c.seq.encode xs).length ≤ 5 + (xs.map bound).sum := by
  have hcount := putVarint_length_le_five u64 hxs
  have hsum : (xs.flatMap c.encode).length ≤ (xs.map bound).sum := by
    rw [List.length_flatMap]
    exact List.sum_le_sum h
  simp only [seq, List.length_append]
  omega

/-! ### Variants

A variant is its index and then its fields.  The index is a 32-bit varint. -/

/-- What a variant's index and fields look like on the wire. -/
def putVariant (index : ℕ) (fields : Bytes) : Bytes := putVarint u32 index ++ fields

lemma putVariant_pos (index : ℕ) (fields : Bytes) : 0 < (putVariant index fields).length := by
  have := putVarint_length_pos u32 index
  simp only [putVariant, List.length_append]
  omega

/-- A variant whose fields were read by `c` is no longer to write than it was to read. -/
lemma putVariant_le (c : Codec α) {bytes fields rest : Bytes} {index : ℕ} {a : α}
    (htag : takeVarint u32 bytes = some (index, fields))
    (h : c.decode fields = some (a, rest)) :
    ∃ used, bytes = used ++ rest ∧ (putVariant index (c.encode a)).length ≤ used.length := by
  obtain ⟨-, u, hu, hul⟩ := takeVarint_sound u32 htag
  obtain ⟨v, hv, hvl⟩ := c.encode_le _ _ _ h
  refine ⟨u ++ v, by rw [hu, hv, List.append_assoc], ?_⟩
  simp only [putVariant, List.length_append]
  omega

end Codec

end Wire
