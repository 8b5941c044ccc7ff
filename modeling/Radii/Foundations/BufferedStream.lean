import Radii.Foundations.ByteStream

/-!
# Writing to a stream that buffers

A stream accepts bytes into a buffer of its own and hands them to the transport below when it can.
`Transport` says, for one write, how much is accepted and how much is handed on; that covers every
stream obeying the contract of an asynchronous writer, from one that hands on everything to one
that waits for a flush.

`writeAll` is the loop that writes a whole slice.  It ends when the last byte has been accepted,
and `writeAll_last` says what that leaves in the buffer: whatever the last write left there.
-/

namespace Wire

/-- How a stream treats one write.  From the state `σ` of what is below it, the bytes it has
buffered and the bytes it is offered: how many of the offered bytes it accepts, how many of all
the bytes it then holds it hands on, and the state below after that.  `none`: the write fails. -/
structure Transport (σ : Type) where
  write : σ → Bytes → Bytes → Option (ℕ × ℕ × σ)
  accepted_le : ∀ {env env' buffered offered n h},
    write env buffered offered = some (n, h, env') → n ≤ offered.length
  handed_le : ∀ {env env' buffered offered n h},
    write env buffered offered = some (n, h, env') → h ≤ buffered.length + n

/-- A stream in use: the bytes it holds and the bytes it has handed on since it was opened. -/
structure BufferedStream (σ : Type) where
  env : σ
  buffered : Bytes
  below : Bytes
  deriving DecidableEq

namespace BufferedStream

variable {σ : Type}

/-- All the bytes the stream has accepted. -/
def taken (st : BufferedStream σ) : Bytes := st.below ++ st.buffered

/-- One write. -/
def write (T : Transport σ) (st : BufferedStream σ) (offered : Bytes) :
    Option (ℕ × BufferedStream σ) :=
  (T.write st.env st.buffered offered).map fun r =>
    let held := st.buffered ++ offered.take r.1
    (r.1, ⟨r.2.2, held.drop r.2.1, st.below ++ held.take r.2.1⟩)

/-- Hands on everything the stream holds. -/
def flush (st : BufferedStream σ) : BufferedStream σ :=
  { st with buffered := [], below := st.below ++ st.buffered }

/-- A write to the stream, as it is, hands on all that the stream then holds. -/
def HandsAll (T : Transport σ) (st : BufferedStream σ) (offered : Bytes) : Prop :=
  ∀ n h env, T.write st.env st.buffered offered = some (n, h, env) → h = st.buffered.length + n

variable {T : Transport σ} {st t : BufferedStream σ} {offered : Bytes} {n : ℕ}

lemma write_spec (h : st.write T offered = some (n, t)) :
    n ≤ offered.length ∧ t.taken = st.taken ++ offered.take n ∧ st.below <+: t.below ∧
      (t.buffered = [] ↔ st.HandsAll T offered) := by
  rcases Option.map_eq_some_iff.mp h with ⟨⟨n', handed, env⟩, hwrite, he⟩
  simp only [Prod.mk.injEq] at he
  rcases he with ⟨rfl, rfl⟩
  have haccepted := T.accepted_le hwrite
  have hhanded := T.handed_le hwrite
  refine ⟨haccepted, ?_, List.prefix_append _ _, ?_⟩
  · simp [taken]
  · simp only [List.drop_eq_nil_iff, List.length_append, List.length_take, HandsAll, hwrite,
      Option.some.injEq, Prod.mk.injEq]
    constructor
    · rintro hle n h env ⟨rfl, rfl, rfl⟩
      omega
    · intro hall
      have := hall n' handed env ⟨rfl, rfl, rfl⟩
      omega

end BufferedStream

variable {σ : Type}

/-- `write_all`: writes until the slice is used up.  A write that accepts nothing is an error. -/
def writeAll (T : Transport σ) : ℕ → BufferedStream σ → Bytes → Option (BufferedStream σ)
  | _, st, [] => some st
  | 0, _, _ :: _ => none
  | fuel + 1, st, b :: bs =>
      match st.write T (b :: bs) with
      | none => none
      | some (n, st') => if n = 0 then none else writeAll T fuel st' ((b :: bs).drop n)

/-- The stream and the rest of the slice just before the write that takes the last byte. -/
def lastWrite (T : Transport σ) : ℕ → BufferedStream σ → Bytes → Option (BufferedStream σ × Bytes)
  | _, _, [] => none
  | 0, _, _ :: _ => none
  | fuel + 1, st, b :: bs =>
      match st.write T (b :: bs) with
      | none => none
      | some (n, st') =>
          if n = 0 then none
          else if (b :: bs).drop n = [] then some (st, b :: bs)
          else lastWrite T fuel st' ((b :: bs).drop n)

/-- The loop has enough turns for the whole slice: with as many as there are bytes, more make no
difference. -/
lemma writeAll_fuel (T : Transport σ) (fuel : ℕ) : ∀ (st : BufferedStream σ) (offered : Bytes)
    (extra : ℕ), offered.length ≤ fuel →
    writeAll T (fuel + extra) st offered = writeAll T fuel st offered := by
  induction fuel with
  | zero =>
      intro st offered extra h
      obtain rfl := List.eq_nil_of_length_eq_zero (Nat.le_zero.mp h)
      cases extra <;> rfl
  | succ fuel ih =>
      intro st offered extra h
      cases offered with
      | nil => cases extra <;> rfl
      | cons b bs =>
          rw [Nat.succ_add, writeAll, writeAll]
          cases hwrite : st.write T (b :: bs) with
          | none => rfl
          | some r =>
              rcases r with ⟨n, st'⟩
              simp only
              split_ifs with hn
              · rfl
              · refine ih st' _ extra ?_
                rw [List.length_drop]
                omega

/-- Everything offered has been accepted, and nothing is ever taken back from below. -/
lemma writeAll_taken (T : Transport σ) (fuel : ℕ) : ∀ (st t : BufferedStream σ) (offered : Bytes),
    writeAll T fuel st offered = some t →
    t.taken = st.taken ++ offered ∧ st.below <+: t.below := by
  induction fuel with
  | zero =>
      intro st t offered h
      cases offered with
      | nil =>
          obtain rfl := Option.some.inj h
          simp
      | cons b bs => simp [writeAll] at h
  | succ fuel ih =>
      intro st t offered h
      cases offered with
      | nil =>
          obtain rfl := Option.some.inj h
          simp
      | cons b bs =>
          rw [writeAll] at h
          cases hwrite : st.write T (b :: bs) with
          | none => simp [hwrite] at h
          | some r =>
              rcases r with ⟨n, st'⟩
              simp only [hwrite] at h
              split_ifs at h
              rcases BufferedStream.write_spec hwrite with ⟨-, htaken, hbelow, -⟩
              obtain ⟨htaken', hbelow'⟩ := ih st' t _ h
              refine ⟨?_, hbelow.trans hbelow'⟩
              rw [htaken', htaken, List.append_assoc, List.take_append_drop]

/-- **What the loop leaves in the buffer** is what its last write leaves there. -/
theorem writeAll_last (T : Transport σ) (fuel : ℕ) : ∀ (st t : BufferedStream σ)
    (offered : Bytes), writeAll T fuel st offered = some t → offered ≠ [] →
    ∃ st' rest, lastWrite T fuel st offered = some (st', rest) ∧
      (t.buffered = [] ↔ st'.HandsAll T rest) := by
  induction fuel with
  | zero =>
      intro st t offered h hne
      cases offered with
      | nil => exact absurd rfl hne
      | cons b bs => simp [writeAll] at h
  | succ fuel ih =>
      intro st t offered h hne
      cases offered with
      | nil => exact absurd rfl hne
      | cons b bs =>
          rw [writeAll] at h
          rw [lastWrite]
          cases hwrite : st.write T (b :: bs) with
          | none => simp [hwrite] at h
          | some r =>
              rcases r with ⟨n, st'⟩
              simp only [hwrite] at h ⊢
              split_ifs at h with hn
              rw [if_neg hn]
              by_cases hlast : (b :: bs).drop n = []
              · rw [hlast] at h
                obtain rfl : st' = t := by cases fuel <;> simpa [writeAll] using h
                exact ⟨st, b :: bs, by rw [if_pos hlast],
                  (BufferedStream.write_spec hwrite).2.2.2⟩
              · rw [if_neg hlast]
                exact ih st' t _ h hlast

end Wire
