import Radii.Foundations.BufferedStream

/-!
# A copy loop

A loop that reads what has come from a source, in pieces, and writes each piece whole to a stream
before it reads again; at the end of the source it shuts the stream down.  What the source sends,
how much a read returns and how the stream treats a write are up to the world.

`stepped_of_step` says all that one event can do, `Copy.Sound` what holds at all times: what was
taken is a prefix of what was read, and the shutdown comes only when all of it was.  `progress` is
the other side of that: what has come can be read, and what was read can be written.
`Copy.Flushed` is about the bytes a stream still holds while the loop waits.
-/

namespace Wire

/-- Where the loop stands. -/
inductive Phase where
  | reading
  /-- In `write_all`, with so much left to write. -/
  | writing (pending : Bytes)
  /-- The source has ended and the stream is being shut down. -/
  | closing
  | done
  | failed
  deriving DecidableEq

/-- A copy loop, with what there has been of the source and of the stream. -/
structure Copy (σ : Type) where
  /-- All the source has sent. -/
  sent : Bytes
  /-- The source will send no more. -/
  ended : Bool
  /-- All that was read. -/
  read : Bytes
  phase : Phase
  out : BufferedStream σ
  /-- The stream was told to shut down. -/
  shut : Bool
  deriving DecidableEq

inductive CopyEvent (σ : Type) where
  /-- The source sends. -/
  | arrive (bytes : Bytes)
  | finish
  /-- Something changes below the stream. -/
  | drift (env : σ)
  | read (n : ℕ)
  | eof
  /-- One write of what is pending. -/
  | write
  /-- The shutdown returns; an error is ignored. -/
  | close (ok : Bool)
  | readError

namespace Copy

variable {σ : Type}

def start (env : σ) : Copy σ := ⟨[], false, [], .reading, ⟨env, [], []⟩, false⟩

/-- What has come and was not read. -/
def unread (c : Copy σ) : Bytes := c.sent.drop c.read.length

/-- One event, for a loop that reads at most `limit` bytes at once. -/
def step (T : Transport σ) (limit : ℕ) (c : Copy σ) : CopyEvent σ → Option (Copy σ)
  | .arrive bytes => if c.ended then none else some { c with sent := c.sent ++ bytes }
  | .finish => some { c with ended := true }
  | .drift env => some { c with out := { c.out with env := env } }
  | .read n =>
      if c.phase = .reading ∧ 0 < n ∧ n ≤ limit ∧ n ≤ c.unread.length then
        some { c with read := c.read ++ c.unread.take n, phase := .writing (c.unread.take n) }
      else none
  | .eof =>
      if c.phase = .reading ∧ c.ended ∧ c.unread = [] then
        some { c with phase := .closing, shut := true }
      else none
  | .write =>
      match c.phase with
      | .writing pending =>
          match c.out.write T pending with
          | none => some { c with phase := .failed }
          | some (n, out) =>
              if n = 0 then some { c with phase := .failed }
              else
                let rest := pending.drop n
                some { c with out := out, phase := if rest = [] then .reading else .writing rest }
      | _ => none
  | .close ok =>
      if c.phase = .closing then
        some { c with phase := .done, out := if ok then c.out.flush else c.out }
      else none
  | .readError => if c.phase = .reading then some { c with phase := .failed } else none

/-- What an event does. -/
inductive Stepped (T : Transport σ) (limit : ℕ) (c : Copy σ) : CopyEvent σ → Copy σ → Prop where
  | arrive (bytes : Bytes) (hopen : c.ended = false) :
      Stepped T limit c (.arrive bytes) { c with sent := c.sent ++ bytes }
  | finish : Stepped T limit c .finish { c with ended := true }
  | drift (env : σ) : Stepped T limit c (.drift env) { c with out := { c.out with env := env } }
  | read (n : ℕ) (hphase : c.phase = .reading) (hpos : 0 < n) (hlimit : n ≤ limit)
      (hn : n ≤ c.unread.length) : Stepped T limit c (.read n)
        { c with read := c.read ++ c.unread.take n, phase := .writing (c.unread.take n) }
  | eof (hphase : c.phase = .reading) (hended : c.ended = true) (hall : c.unread = []) :
      Stepped T limit c .eof { c with phase := .closing, shut := true }
  | write {pending : Bytes} {n : ℕ} {out : BufferedStream σ} (hphase : c.phase = .writing pending)
      (hwrite : c.out.write T pending = some (n, out)) (hpos : 0 < n)
      (hrest : pending.drop n ≠ []) : Stepped T limit c .write
        { c with out := out, phase := .writing (pending.drop n) }
  | written {pending : Bytes} {n : ℕ} {out : BufferedStream σ} (hphase : c.phase = .writing pending)
      (hwrite : c.out.write T pending = some (n, out)) (hpos : 0 < n)
      (hrest : pending.drop n = []) :
      Stepped T limit c .write { c with out := out, phase := .reading }
  | writeError {pending : Bytes} (hphase : c.phase = .writing pending) :
      Stepped T limit c .write { c with phase := .failed }
  | close (ok : Bool) (hphase : c.phase = .closing) : Stepped T limit c (.close ok)
      { c with phase := .done, out := if ok then c.out.flush else c.out }
  | readError (hphase : c.phase = .reading) :
      Stepped T limit c .readError { c with phase := .failed }

variable {T : Transport σ} {limit : ℕ} {c c' : Copy σ} {e : CopyEvent σ}

/-- **All that one event can do.** -/
theorem stepped_of_step (h : c.step T limit e = some c') : Stepped T limit c e c' := by
  cases e with
  | arrive bytes =>
      rw [step] at h
      split_ifs at h with hended
      rw [Option.some.injEq] at h
      exact h ▸ .arrive bytes (by simpa using hended)
  | finish =>
      rw [step, Option.some.injEq] at h
      exact h ▸ .finish
  | drift env =>
      rw [step, Option.some.injEq] at h
      exact h ▸ .drift env
  | read n =>
      rw [step] at h
      split_ifs at h with hread
      rw [Option.some.injEq] at h
      exact h ▸ .read n hread.1 hread.2.1 hread.2.2.1 hread.2.2.2
  | eof =>
      rw [step] at h
      split_ifs at h with heof
      rw [Option.some.injEq] at h
      exact h ▸ .eof heof.1 heof.2.1 heof.2.2
  | write =>
      rw [step] at h
      cases hphase : c.phase with
      | writing pending =>
          simp only [hphase] at h
          cases hwrite : c.out.write T pending with
          | none =>
              rw [hwrite, Option.some.injEq] at h
              exact h ▸ .writeError hphase
          | some r =>
              rcases r with ⟨n, out⟩
              simp only [hwrite] at h
              split_ifs at h with hzero hrest
              · rw [Option.some.injEq] at h
                exact h ▸ .writeError hphase
              · rw [Option.some.injEq] at h
                exact h ▸ .written hphase hwrite (Nat.pos_of_ne_zero hzero) hrest
              · rw [Option.some.injEq] at h
                exact h ▸ .write hphase hwrite (Nat.pos_of_ne_zero hzero) hrest
      | _ => simp [hphase] at h
  | close ok =>
      rw [step] at h
      by_cases hphase : c.phase = .closing
      · rw [if_pos hphase, Option.some.injEq] at h
        exact h ▸ .close ok hphase
      · simp [hphase] at h
  | readError =>
      rw [step] at h
      split_ifs at h with hphase
      rw [Option.some.injEq] at h
      exact h ▸ .readError hphase

/-! ## What can happen next -/

/-- What a loop can do where it stands, and what that leaves. -/
structure Progress (T : Transport σ) (limit : ℕ) (c : Copy σ) : Prop where
  /-- The source may send until it ends. -/
  arrives : c.ended = false → ∀ bytes, ∃ c', c.step T limit (.arrive bytes) = some c' ∧
    c'.sent = c.sent ++ bytes
  ends : ∃ c', c.step T limit .finish = some c' ∧ c'.ended = true
  /-- Any part of what has come, up to the limit, may be read, and then is to be written. -/
  reads : c.phase = .reading → ∀ n, 0 < n → n ≤ limit → n ≤ c.unread.length →
    ∃ c', c.step T limit (.read n) = some c' ∧ c'.read = c.read ++ c.unread.take n ∧
      c'.phase = .writing (c.unread.take n)
  /-- When all has been read, the stream is told to shut down. -/
  shuts : c.phase = .reading → c.ended = true → c.unread = [] →
    ∃ c', c.step T limit .eof = some c' ∧ c'.phase = .closing ∧ c'.shut = true
  /-- What the stream accepts of what is pending it has taken, and the rest stays pending. -/
  writes : ∀ pending, c.phase = .writing pending → ∀ n out,
    c.out.write T pending = some (n, out) → 0 < n →
      ∃ c', c.step T limit .write = some c' ∧ c'.out.taken = c.out.taken ++ pending.take n ∧
        c'.phase = if pending.drop n = [] then .reading else .writing (pending.drop n)
  /-- The shutdown may return. -/
  closes : c.phase = .closing → ∀ ok, ∃ c', c.step T limit (.close ok) = some c' ∧
    c'.phase = .done

/-- **A loop can go on** wherever it stands. -/
theorem progress (T : Transport σ) (limit : ℕ) (c : Copy σ) : c.Progress T limit := by
  refine ⟨?_, ⟨_, rfl, rfl⟩, ?_, ?_, ?_, ?_⟩
  · intro hopen bytes
    exact ⟨_, by rw [step, if_neg (by simp [hopen])], rfl⟩
  · intro hphase n hpos hlimit hn
    exact ⟨_, by rw [step, if_pos ⟨hphase, hpos, hlimit, hn⟩], rfl, rfl⟩
  · intro hphase hended hall
    exact ⟨_, by rw [step, if_pos ⟨hphase, hended, hall⟩], rfl, rfl⟩
  · intro pending hphase n out hwrite hpos
    refine ⟨{ c with
      out := out
      phase := if pending.drop n = [] then .reading else .writing (pending.drop n) }, ?_, ?_, rfl⟩
    · simp only [step, hphase, hwrite, if_neg hpos.ne']
    · exact (BufferedStream.write_spec hwrite).2.1
  · intro hphase ok
    exact ⟨_, by rw [step, if_pos hphase], rfl⟩

/-! ## What was taken, and what is shut down -/

/-- How the bytes taken by the stream and those read relate in each phase. -/
def Accounts (taken read : Bytes) : Phase → Prop
  | .writing pending => taken ++ pending = read
  | .failed => taken <+: read
  | _ => taken = read

/-- What holds at all times. -/
structure Sound (c : Copy σ) : Prop where
  read : c.read <+: c.sent
  taken : Accounts c.out.taken c.read c.phase
  closed : c.shut = true ↔ c.phase = .closing ∨ c.phase = .done
  all : c.shut = true → c.ended = true ∧ c.read = c.sent

lemma sound_start (env : σ) : (start env).Sound :=
  ⟨List.prefix_refl [], rfl, by simp [start], by simp [start]⟩

lemma read_append_unread (h : c.read <+: c.sent) : c.read ++ c.unread = c.sent := by
  rcases h with ⟨rest, hrest⟩
  rw [unread, ← hrest, List.drop_left]

/-- What the stream has taken is a prefix of what was read. -/
lemma Sound.taken_begins (h : c.Sound) : c.out.taken <+: c.read := by
  have htaken := h.taken
  cases hphase : c.phase with
  | writing pending =>
      rw [hphase] at htaken
      exact ⟨pending, htaken⟩
  | failed =>
      rw [hphase] at htaken
      exact htaken
  | _ =>
      rw [hphase] at htaken
      rw [htaken]

/-- When the stream is told to shut down, it has taken all the source has sent. -/
lemma Sound.of_shut (h : c.Sound) (hshut : c.shut = true) :
    c.ended = true ∧ c.read = c.sent ∧ c.out.taken = c.sent := by
  rcases h.all hshut with ⟨hended, hall⟩
  have htaken := h.taken
  rcases h.closed.mp hshut with hphase | hphase <;>
  · rw [hphase] at htaken
    exact ⟨hended, hall, htaken.trans hall⟩

lemma Sound.not_shut (h : c.Sound) (hclosing : c.phase ≠ .closing) (hdone : c.phase ≠ .done) :
    c.shut = false := by
  rw [← Bool.not_eq_true, h.closed, not_or]
  exact ⟨hclosing, hdone⟩

/-- **Every event keeps it.** -/
theorem Sound.step (h : c.Sound) (hstep : Stepped T limit c e c') : c'.Sound := by
  have hopen : ∀ {phase}, phase ≠ .closing → phase ≠ .done → c.phase = phase → c.shut = false := by
    rintro _ hclosing hdone rfl
    exact h.not_shut hclosing hdone
  have htaken := h.taken
  cases hstep with
  | arrive bytes hended =>
      refine ⟨h.read.trans (List.prefix_append _ _), h.taken, h.closed, ?_⟩
      intro hshut
      rw [(h.all hshut).1] at hended
      exact absurd hended (by simp)
  | finish => exact ⟨h.read, h.taken, h.closed, fun hshut => ⟨rfl, (h.all hshut).2⟩⟩
  | drift env => exact ⟨h.read, h.taken, h.closed, h.all⟩
  | read n hphase hpos hlimit hn =>
      have hshut := hopen (by simp) (by simp) hphase
      rw [hphase] at htaken
      refine ⟨?_, ?_, by simp [hshut], by simp [hshut]⟩
      · rw [← read_append_unread h.read]
        exact (List.prefix_append_right_inj _).mpr (List.take_prefix _ _)
      · show c.out.taken ++ _ = c.read ++ _
        rw [(htaken : c.out.taken = c.read)]
  | eof hphase hended hall =>
      rw [hphase] at htaken
      refine ⟨h.read, htaken, by simp, fun _ => ⟨hended, ?_⟩⟩
      show c.read = c.sent
      rw [← read_append_unread h.read, hall, List.append_nil]
  | @write pending n out hphase hwrite hpos hrest =>
      have hshut := hopen (by simp) (by simp) hphase
      rw [hphase] at htaken
      refine ⟨h.read, ?_, by simp [hshut], by simp [hshut]⟩
      show out.taken ++ pending.drop n = c.read
      rw [(BufferedStream.write_spec hwrite).2.1, List.append_assoc, List.take_append_drop]
      exact htaken
  | @written pending n out hphase hwrite hpos hrest =>
      have hshut := hopen (by simp) (by simp) hphase
      rw [hphase] at htaken
      refine ⟨h.read, ?_, by simp [hshut], by simp [hshut]⟩
      have hall : pending.take n = pending := by
        rw [← List.append_nil (pending.take n), ← hrest, List.take_append_drop]
      show out.taken = c.read
      rw [(BufferedStream.write_spec hwrite).2.1, hall]
      exact htaken
  | @writeError pending hphase =>
      have hshut := hopen (by simp) (by simp) hphase
      exact ⟨h.read, h.taken_begins, by simp [hshut], by simp [hshut]⟩
  | close ok hphase =>
      rw [hphase] at htaken
      have hshut : c.shut = true := h.closed.mpr (Or.inl hphase)
      refine ⟨h.read, ?_, by simp [hshut], h.all⟩
      show (if ok then c.out.flush else c.out).taken = c.read
      rw [← (htaken : c.out.taken = c.read)]
      cases ok with
      | false => rfl
      | true => simp [BufferedStream.taken, BufferedStream.flush]
  | readError hphase =>
      have hshut := hopen (by simp) (by simp) hphase
      exact ⟨h.read, h.taken_begins, by simp [hshut], by simp [hshut]⟩

/-! ## What the stream still holds -/

/-- The loop waits for the source. -/
def Waiting (c : Copy σ) : Prop := c.phase = .reading ∧ c.unread = [] ∧ c.ended = false

/-- While the loop waits, the stream holds nothing back. -/
def Flushed (c : Copy σ) : Prop := c.Waiting → c.out.buffered = []

/-- The write after which the loop waits, if this is one, hands on all that the stream holds. -/
def WritesThrough (T : Transport σ) (c : Copy σ) : CopyEvent σ → Prop
  | .write => ∀ pending n out, c.phase = .writing pending →
      c.out.write T pending = some (n, out) → 0 < n → pending.drop n = [] →
        c.unread = [] → c.ended = false → c.out.HandsAll T pending
  | _ => True

lemma flushed_start (env : σ) : (start env).Flushed := fun _ => rfl

/-- While a loop waits, what it read is what was handed on and what is held back. -/
lemma Sound.of_waiting (h : c.Sound) (hwaiting : c.Waiting) :
    c.read = c.sent ∧ c.out.below ++ c.out.buffered = c.read := by
  have htaken := h.taken
  rw [hwaiting.1] at htaken
  refine ⟨?_, htaken⟩
  rw [← read_append_unread h.read, hwaiting.2.1, List.append_nil]

/-- So it holds nothing back exactly when all it read was handed on. -/
lemma Sound.flushed_iff (h : c.Sound) :
    c.Flushed ↔ (c.Waiting → c.read = c.sent ∧ c.out.below = c.read) := by
  constructor
  · intro hflushed hwaiting
    rcases h.of_waiting hwaiting with ⟨hall, hread⟩
    rw [hflushed hwaiting, List.append_nil] at hread
    exact ⟨hall, hread⟩
  · intro hbelow hwaiting
    rcases h.of_waiting hwaiting with ⟨-, hread⟩
    rw [← (hbelow hwaiting).2] at hread
    simpa using hread

/-- **Writing through** is what keeps it so. -/
theorem Flushed.step (h : c.Flushed) (hsound : c.Sound) (hok : c.WritesThrough T e)
    (hstep : Stepped T limit c e c') : c'.Flushed := by
  rintro ⟨hphase', hunread', hended'⟩
  cases hstep with
  | arrive bytes hopen =>
      refine h ⟨hphase', ?_, hopen⟩
      have hle := hsound.read.length_le
      rw [unread, List.drop_append_of_le_length hle] at hunread'
      exact (List.append_eq_nil_iff.mp hunread').1
  | finish => exact absurd hended' (by simp)
  | drift env => exact h ⟨hphase', hunread', hended'⟩
  | written hphase hwrite hpos hrest =>
      exact (BufferedStream.write_spec hwrite).2.2.2.mpr
        (hok _ _ _ hphase hwrite hpos hrest hunread' hended')
  | read | eof | write | writeError | close | readError => simp at hphase'

/-- A write that is the loop's last before it waits leaves nothing behind only if it is through. -/
lemma writesThrough_of_flushed (hstep : c.step T limit e = some c') (h : c'.Flushed) :
    c.WritesThrough T e := by
  cases e with
  | write =>
      intro pending n out hphase hwrite hpos hrest hunread hended
      have heq : c' = { c with out := out, phase := .reading } := by
        simp only [Copy.step, hphase, hwrite, if_neg hpos.ne', hrest, if_true,
          Option.some.injEq] at hstep
        exact hstep.symm
      refine (BufferedStream.write_spec hwrite).2.2.2.mp ?_
      rw [heq] at h
      exact h ⟨rfl, hunread, hended⟩
  | _ => trivial

/-- **A loop goes on holding nothing back** through an event exactly when the event writes
through. -/
theorem flushed_step_iff (h : c.Flushed) (hsound : c.Sound) (hstep : c.step T limit e = some c') :
    c'.Flushed ↔ c.WritesThrough T e :=
  ⟨writesThrough_of_flushed hstep, fun hok => h.step hsound hok (stepped_of_step hstep)⟩

/-! ## What comes and what was handed on -/

/-- Only the source changes what it has sent. -/
lemma source_cases (hstep : Stepped T limit c e c') :
    (c'.sent = c.sent ∧ c'.ended = c.ended) ∨
    (∃ bytes, e = .arrive bytes ∧ c.ended = false ∧ c'.sent = c.sent ++ bytes ∧ c'.ended = false) ∨
    (e = .finish ∧ c'.sent = c.sent ∧ c'.ended = true) := by
  cases hstep with
  | arrive bytes hopen => exact Or.inr (Or.inl ⟨bytes, rfl, hopen, rfl, hopen⟩)
  | finish => exact Or.inr (Or.inr ⟨rfl, rfl, rfl⟩)
  | _ => exact Or.inl ⟨rfl, rfl⟩

/-- What was handed on stays so. -/
lemma below_le (hstep : Stepped T limit c e c') : c.out.below <+: c'.out.below := by
  cases hstep with
  | write hphase hwrite => exact (BufferedStream.write_spec hwrite).2.2.1
  | written hphase hwrite => exact (BufferedStream.write_spec hwrite).2.2.1
  | close ok =>
      cases ok with
      | false => exact List.prefix_refl _
      | true => exact List.prefix_append _ _
  | _ => exact List.prefix_refl _

/-- A loop that is done hands on no more. -/
lemma out_of_done (hdone : c.phase = .done) (hstep : Stepped T limit c e c') :
    c'.phase = .done ∧ c'.out.buffered = c.out.buffered ∧ c'.out.below = c.out.below := by
  cases hstep with
  | arrive | finish | drift => exact ⟨hdone, rfl, rfl⟩
  | read _ hphase => simp [hdone] at hphase
  | eof hphase => simp [hdone] at hphase
  | write hphase => simp [hdone] at hphase
  | written hphase => simp [hdone] at hphase
  | writeError hphase => simp [hdone] at hphase
  | close _ hphase => simp [hdone] at hphase
  | readError hphase => simp [hdone] at hphase

end Copy

end Wire
