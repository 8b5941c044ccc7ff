import Radii.Foundations.Codec

/-!
# Reading a byte stream that arrives in chunks

A peer's bytes reach a reader in pieces the reader does not choose.  `readExact` is the loop of
`AsyncReadExt::read_exact` over such a stream, and `readExact_eq` says that the pieces do not
matter: what is read, and what is left, is a function of the concatenation alone.
-/

namespace Wire

/-- The bytes still to arrive, in the pieces they arrive in.  An empty piece is a wake-up with
nothing to read; the stream ends where the list does. -/
abbrev Chunks := List Bytes

/-- Fills a buffer of `n` bytes, one piece at a time, or fails when the stream ends first. -/
def readExact : ℕ → Chunks → Option (Bytes × Chunks)
  | 0, cs => some ([], cs)
  | _ + 1, [] => none
  | n + 1, c :: cs =>
      if n + 1 ≤ c.length then some (c.take (n + 1), c.drop (n + 1) :: cs)
      else (readExact (n + 1 - c.length) cs).map fun r => (c ++ r.1, r.2)

/-- **Chunking is invisible.**  A read succeeds exactly when the stream holds enough bytes, and
then it takes the first `n` of them and leaves the others. -/
theorem readExact_eq : ∀ (n : ℕ) (cs : Chunks),
    (n ≤ cs.flatten.length →
      ∃ cs', readExact n cs = some (cs.flatten.take n, cs') ∧ cs'.flatten = cs.flatten.drop n) ∧
    (cs.flatten.length < n → readExact n cs = none) := by
  intro n cs
  induction cs generalizing n with
  | nil =>
      cases n with
      | zero => exact ⟨fun _ => ⟨[], rfl, rfl⟩, fun h => by simp at h⟩
      | succ n => exact ⟨fun h => by simp at h, fun _ => rfl⟩
  | cons c cs ih =>
      cases n with
      | zero => exact ⟨fun _ => ⟨c :: cs, by simp [readExact], by simp⟩, fun h => by simp at h⟩
      | succ n =>
          rw [readExact]
          simp only [List.flatten_cons, List.length_append]
          split
          · rename_i hle
            refine ⟨fun _ => ⟨c.drop (n + 1) :: cs, ?_, ?_⟩, fun h => by omega⟩
            · rw [List.take_append_of_le_length hle]
            · rw [List.flatten_cons, List.drop_append_of_le_length hle]
          · rename_i hlt
            obtain ⟨ihok, ihfail⟩ := ih (n + 1 - c.length)
            constructor
            · intro h
              obtain ⟨cs', hread, hleft⟩ := ihok (by omega)
              refine ⟨cs', ?_, ?_⟩
              · rw [hread, Option.map_some, List.take_append,
                  List.take_of_length_le (l := c) (by omega)]
              · rw [hleft, List.drop_append, List.drop_of_length_le (l := c) (by omega),
                  List.nil_append]
            · intro h
              rw [ihfail (by omega), Option.map_none]

/-- A read that succeeded took a prefix of the stream of exactly the length asked for. -/
lemma readExact_sound {n : ℕ} {cs cs' : Chunks} {bytes : Bytes}
    (h : readExact n cs = some (bytes, cs')) :
    bytes.length = n ∧ cs.flatten = bytes ++ cs'.flatten := by
  obtain ⟨hok, hfail⟩ := readExact_eq n cs
  by_cases hle : n ≤ cs.flatten.length
  · rcases hok hle with ⟨rest, hread, hleft⟩
    rw [h] at hread
    simp only [Option.some.injEq, Prod.mk.injEq] at hread
    rcases hread with ⟨rfl, rfl⟩
    exact ⟨by rw [List.length_take, Nat.min_eq_left hle], by rw [hleft, List.take_append_drop]⟩
  · rw [hfail (by omega)] at h
    simp at h

/-- A stream that starts with `bytes` yields them, in whatever pieces it arrives. -/
lemma readExact_append {bytes tail : Bytes} {cs : Chunks} (h : cs.flatten = bytes ++ tail) :
    ∃ cs', readExact bytes.length cs = some (bytes, cs') ∧ cs'.flatten = tail := by
  obtain ⟨cs', hread, hleft⟩ := (readExact_eq bytes.length cs).1 (by simp [h])
  rw [h, List.take_left' rfl] at hread
  exact ⟨cs', hread, by rw [hleft, h, List.drop_left' rfl]⟩

end Wire
