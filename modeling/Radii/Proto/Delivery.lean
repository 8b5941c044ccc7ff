import Radii.Foundations.BufferedStream
import Radii.Proto.Framing

/-!
# What `write_message` delivers

`write_message` writes a frame with two calls of `write_all` and does not flush.  So whether the
frame has reached the transport below when it returns is decided by the stream's own treatment of
the last write.  `writeMessage_delivers_iff` is that statement, for every stream and message,
together with what it means for a peer that reads: with bytes left in the buffer the peer waits for
the rest of the frame, while the writer waits in `read_message`.
-/

namespace Radii

open Wire

/-- `write_message` into a stream.  `none`: the frame was refused, or a write failed. -/
def writeMessageTo {σ : Type} (T : Transport σ) (st : BufferedStream σ) (message : RadiiMessage) :
    Option (BufferedStream σ) :=
  match frameParts message with
  | .error _ => none
  | .ok parts => (writeAll T parts.1.length st parts.1).bind fun st =>
      writeAll T parts.2.length st parts.2

/-- The stream, and what is left of the frame, just before the write that takes its last byte. -/
def lastFrameWrite {σ : Type} (T : Transport σ) (st : BufferedStream σ) (message : RadiiMessage) :
    Option (BufferedStream σ × Bytes) :=
  match frameParts message with
  | .error _ => none
  | .ok parts => (writeAll T parts.1.length st parts.1).bind fun st =>
      lastWrite T parts.2.length st parts.2

/-- The write that takes the last byte of the frame finds the layer below ready to take all that
the stream then holds. -/
def DrainsAtLast {σ : Type} (T : Transport σ) (st : BufferedStream σ) (message : RadiiMessage) :
    Prop :=
  ∀ before rest, lastFrameWrite T st message = some (before, rest) → before.HandsAll T rest

section Delivery

variable {σ : Type} {T : Transport σ} {st t : BufferedStream σ} {m : RadiiMessage}

/-- A frame that was written was accepted whole, and its last write decides what is left. -/
lemma writeMessageTo_spec (h : writeMessageTo T st m = some t) :
    (encodeMessage m).length ≤ maxFrameLen ∧ t.taken = st.taken ++ frame m ∧
      st.below <+: t.below ∧ (t.buffered = [] ↔ DrainsAtLast T st m) := by
  rw [writeMessageTo] at h
  rw [DrainsAtLast, lastFrameWrite]
  cases hparts : frameParts m with
  | error e => simp [hparts] at h
  | ok parts =>
      rcases frameParts_sound hparts with ⟨hfit, -⟩
      rw [frameParts_eq_ok hfit] at hparts
      obtain rfl := Except.ok.inj hparts
      rw [frameParts_eq_ok hfit] at h
      rcases Option.bind_eq_some_iff.mp h with ⟨mid, hheader, hpayload⟩
      obtain ⟨htaken, hbelow⟩ := writeAll_taken T _ st mid _ hheader
      obtain ⟨htaken', hbelow'⟩ := writeAll_taken T _ mid t _ hpayload
      obtain ⟨before, rest, hlast, hdrained⟩ := writeAll_last T _ mid t _ hpayload
        (List.length_pos_iff.mp (messageCodec.encode_pos m))
      refine ⟨hfit, by rw [htaken', htaken, List.append_assoc, frame], hbelow.trans hbelow', ?_⟩
      simp only [hheader, Option.bind_some, hlast, hdrained, Option.some.injEq, Prod.mk.injEq]
      constructor
      · rintro hall before' rest' ⟨rfl, rfl⟩
        exact hall
      · intro hall
        exact hall before rest ⟨rfl, rfl⟩

/-- **When a written message is a delivered one.**  If `write_message` succeeds, the whole frame
has been handed to the transport below exactly if the write that takes its last byte hands on all
that the stream holds.  Then a peer that has read all before it reads the message; otherwise the
peer waits for the rest of the frame, with bytes of it left in the writer's buffer. -/
theorem writeMessage_delivers_iff {σ : Type} (T : Transport σ) (st t : BufferedStream σ)
    (m : RadiiMessage) (h : writeMessageTo T st m = some t) :
    (t.below = st.below ++ st.buffered ++ frame m ↔ DrainsAtLast T st m) ∧
    (st.buffered = [] → Readable m → ∀ cs : Chunks, cs.flatten = t.below.drop st.below.length →
      (DrainsAtLast T st m → ∃ rest, readMessage cs = .ok (m, rest) ∧ rest.flatten = []) ∧
      (¬ DrainsAtLast T st m → readMessage cs = .error .unexpectedEof ∧ t.buffered ≠ [])) := by
  rcases writeMessageTo_spec h with ⟨hfit, htaken, ⟨handed, hhanded⟩, hdrained⟩
  rw [BufferedStream.taken, BufferedStream.taken] at htaken
  rw [← hdrained]
  constructor
  · constructor
    · intro hbelow
      rw [hbelow] at htaken
      simpa using htaken
    · intro hnil
      rwa [hnil, List.append_nil] at htaken
  · intro hempty hm cs hcs
    have hframe : handed ++ t.buffered = frame m := by
      rw [← hhanded, hempty, List.append_nil, List.append_assoc] at htaken
      exact List.append_cancel_left htaken
    rw [← hhanded, List.drop_left' rfl] at hcs
    constructor
    · intro hnil
      refine readMessage_frame hm hfit ?_
      rw [hcs, ← hframe, hnil, List.append_nil, List.append_nil]
    · intro hleft
      exact ⟨readMessage_cut_short hfit (by rw [hcs, hframe]) hleft, hleft⟩

end Delivery

/-! ## A socket that fills up -/

/-- A stream over a socket with room for so many bytes: it accepts everything and hands on what
there is room for. -/
def socketWithRoom : Transport ℕ where
  write room buffered offered :=
    let handed := min room (buffered.length + offered.length)
    some (offered.length, handed, room - handed)
  accepted_le := by
    rintro _ _ _ _ _ _ ⟨⟩
    exact le_refl _
  handed_le := by
    rintro _ _ _ _ _ _ ⟨⟩
    exact min_le_right _ _

/-- With enough room, a query is delivered. -/
theorem writeMessage_delivers_iff_room : ∃ t,
    writeMessageTo socketWithRoom ⟨64, [], []⟩ .graphQuery = some t ∧
      t.below = frame .graphQuery ∧ DrainsAtLast socketWithRoom ⟨64, [], []⟩ .graphQuery := by
  have hwrite : writeMessageTo socketWithRoom ⟨64, [], []⟩ .graphQuery
      = some ⟨59, [], [0, 0, 0, 1, 4]⟩ := by decide
  exact ⟨_, hwrite, by decide, (writeMessage_delivers_iff _ _ _ _ hwrite).1.mp (by decide)⟩

/-- **A reply that was written and not delivered.**  The socket has room for six bytes.  The reply
to a query is written successfully; the poller, having read what arrived, waits for the rest of
it, and the writer, whose next step is to read, still holds those bytes. -/
theorem full_socket_keeps_reply : ∃ t,
    writeMessageTo socketWithRoom ⟨6, [], []⟩ (.graphSnapshot [] []) = some t ∧
      t.below ≠ frame (.graphSnapshot [] []) ∧ t.buffered = [0] ∧
      readMessage [t.below] = .error .unexpectedEof := by
  refine ⟨⟨0, [0], [0, 0, 0, 3, 5, 0]⟩, by decide, by decide, rfl, by decide⟩

end Radii
