import Radii.Relay.Flushing

/-!
# A tunnel of relays

The splices of all the relays of a chain, each with its own clock, streams and watchdog, and the
connections between them: what one relay hands on comes to the next, in order and in pieces, and its
end comes after all of it, when the relay has shut its stream down or dropped it.

* `Carried.step` — what every event at any relay keeps of all of them.
* `tunnel_faithful` — what comes out at one end is what went in at the other.
* `tunnel_delivers` — all of it, if the relays write through and the tunnel comes to rest.
-/

namespace Radii

open Wire Splice

/-- The splices of the relays, the originator's first; those from `hops` on are not in use. -/
abbrev Tunnel (σ : Type) := ℕ → Splice σ

/-- The `n`-th relay that bytes in this direction come to. -/
def relayAt (hops : ℕ) : Side → ℕ → ℕ
  | .ab, n => n
  | .ba, n => hops - 1 - n

/-- The relay that a relay gets what it reads from, if that is not an end of the tunnel. -/
def feeder (hops : ℕ) (i : ℕ) : Side → Option ℕ
  | .ab => if i = 0 then none else some (i - 1)
  | .ba => if i + 1 < hops then some (i + 1) else none

namespace Splice

variable {σ : Type}

/-- The next relay may see this direction end: it is shut down and nothing is held back, or the
streams were dropped. -/
def closes (s : Splice σ) (side : Side) : Bool :=
  decide ((s.copy side).phase = .done) && (s.copy side).out.buffered.isEmpty ||
    s.outcome.isSome

/-- The streams were dropped before this direction was over. -/
def CutShort (s : Splice σ) (side : Side) : Prop :=
  s.outcome ≠ none ∧ ¬ ((s.copy side).phase = .done ∧ (s.copy side).out.buffered = [])

end Splice

namespace Tunnel

variable {σ : Type}

/-- What comes to relay `i` is what was handed on to it, so far as it has come; and its end is the
end of all of it. -/
def delivers (hops : ℕ) (t : Tunnel σ) (i : ℕ) : SpliceEvent σ → Bool
  | .pump side (.arrive bytes) => (feeder hops i side).all fun j =>
      decide (((t i).copy side).sent ++ bytes <+: ((t j).copy side).out.below)
  | .pump side .finish => (feeder hops i side).all fun j =>
      decide (((t i).copy side).sent = ((t j).copy side).out.below) && (t j).closes side
  | _ => true

/-- An event at one relay. -/
def step (T : ℕ → Side → Transport σ) (idle : ℕ → ℕ) (hops : ℕ) (t : Tunnel σ)
    (e : ℕ × SpliceEvent σ) : Option (Tunnel σ) :=
  if e.1 < hops ∧ t.delivers hops e.1 e.2 = true then
    ((t e.1).step (T e.1) (idle e.1) e.2).map (Function.update t e.1)
  else none

def start (idle : ℕ → ℕ) (env : ℕ → Side → σ) (now : ℕ → ℕ) : Tunnel σ :=
  fun i => .start (idle i) (env i) (now i)

end Tunnel

/-! ## One relay -/

namespace Splice

lemma Faithful.done {σ : Type} {s : Splice σ} (h : s.Faithful)
    (hfinished : s.outcome = some .finished) (side : Side) : (s.copy side).phase = .done := by
  rcases h.returned with hidle | hjoined
  · simp [hfinished] at hidle
  · rcases joined_eq_finished (hjoined.symm.trans hfinished) with ⟨hab, hba⟩
    cases side with
    | ab => exact hab
    | ba => exact hba

variable {σ : Type} {T : Side → Transport σ} {idle : ℕ} {s s' : Splice σ} {e : SpliceEvent σ}
  {side : Side}

/-- What one event does in one direction. -/
lemma copy_cases (h : s.step T idle e = some s') (side : Side) :
    s'.copy side = s.copy side ∨ ∃ ev, e = .pump side ev ∧
      Copy.Stepped (T side) bufLen (s.copy side) ev (s'.copy side) := by
  by_cases hpump : ∃ side' ev, e = .pump side' ev
  · rcases hpump with ⟨side', ev, rfl⟩
    rcases step_pump h with ⟨hself, hother⟩
    rcases eq_or_ne side side' with rfl | hne
    · exact Or.inr ⟨ev, rfl, Copy.stepped_of_step hself⟩
    · obtain rfl : side = side'.other := by cases side <;> cases side' <;> simp_all [Side.other]
      exact Or.inl hother
  · exact Or.inl (copy_of_step h (fun side' ev he => hpump ⟨side', ev, he⟩) side)

/-- What was handed on stays so. -/
lemma below_le (h : s.step T idle e = some s') (side : Side) :
    (s.copy side).out.below <+: (s'.copy side).out.below := by
  rcases copy_cases h side with hsame | ⟨ev, -, hstep⟩
  · rw [hsame]
  · exact Copy.below_le hstep

lemma closes_iff : s.closes side = true ↔
    ((s.copy side).phase = .done ∧ (s.copy side).out.buffered = []) ∨ s.outcome ≠ none := by
  simp [closes, Option.isSome_iff_ne_none]

/-- After the end nothing more is handed on. -/
lemma closes_step (h : s.step T idle e = some s') (hcloses : s.closes side = true) :
    s'.closes side = true ∧ (s'.copy side).out.below = (s.copy side).out.below := by
  rw [closes_iff] at hcloses ⊢
  rcases hcloses with ⟨hdone, hbuffered⟩ | hreturned
  · rcases copy_cases h side with hsame | ⟨ev, -, hstep⟩
    · rw [hsame]
      exact ⟨Or.inl ⟨hdone, hbuffered⟩, rfl⟩
    · rcases Copy.out_of_done hdone hstep with ⟨hdone', hbuffered', hbelow⟩
      exact ⟨Or.inl ⟨hdone', hbuffered'.trans hbuffered⟩, hbelow⟩
  · exact absurd (step_cases h).1 hreturned

end Splice

/-! ## All of them -/

namespace Tunnel

variable {σ : Type} {T : ℕ → Side → Transport σ} {idle : ℕ → ℕ} {hops : ℕ} {t t' : Tunnel σ}

/-- What holds of all the relays at all times. -/
structure Carried (hops : ℕ) (t : Tunnel σ) : Prop where
  faithful : ∀ i, (t i).Faithful
  comes : ∀ i side j, feeder hops i side = some j →
    ((t i).copy side).sent <+: ((t j).copy side).out.below
  ends : ∀ i side j, feeder hops i side = some j → ((t i).copy side).ended = true →
    ((t i).copy side).sent = ((t j).copy side).out.below ∧ (t j).closes side = true

lemma copy_start (idle : ℕ → ℕ) (env : ℕ → Side → σ) (now : ℕ → ℕ) (i : ℕ) (side : Side) :
    ((start idle env now) i).copy side = .start (env i side) := by
  cases side <;> rfl

lemma carried_start (idle : ℕ → ℕ) (env : ℕ → Side → σ) (now : ℕ → ℕ) :
    Carried hops (start idle env now) := by
  refine ⟨fun i => faithful_start _ _ _, ?_, ?_⟩
  · intro i side j _
    rw [copy_start]
    exact List.nil_prefix
  · intro i side j _ hended
    rw [copy_start] at hended
    exact absurd hended (by simp [Copy.start])

lemma feeder_ne {i j : ℕ} {side : Side} (h : feeder hops i side = some j) : j ≠ i := by
  cases side with
  | ab =>
      rw [feeder] at h
      split_ifs at h
      rw [Option.some.injEq] at h
      omega
  | ba =>
      rw [feeder] at h
      split_ifs at h
      rw [Option.some.injEq] at h
      omega

/-- What the feeder's own event leaves true of the link. -/
lemma Carried.fed (h : Carried hops t) {i j : ℕ} {side : Side}
    (hfeeder : feeder hops i side = some j)
    {e : SpliceEvent σ} {s' : Splice σ} (hstep : (t j).step (T j) (idle j) e = some s') :
    ((t i).copy side).sent <+: (s'.copy side).out.below ∧
      (((t i).copy side).ended = true →
        ((t i).copy side).sent = (s'.copy side).out.below ∧ s'.closes side = true) := by
  refine ⟨(h.comes i side j hfeeder).trans (below_le hstep side), ?_⟩
  intro hended
  rcases h.ends i side j hfeeder hended with ⟨hall, hcloses⟩
  rcases closes_step hstep hcloses with ⟨hcloses', hbelow⟩
  exact ⟨hall.trans hbelow.symm, hcloses'⟩

/-- What the fed relay's own event leaves true of the link. -/
lemma Carried.reads (h : Carried hops t) {i j : ℕ} {side : Side}
    (hfeeder : feeder hops i side = some j) {e : SpliceEvent σ} {s' : Splice σ}
    (hdelivers : t.delivers hops i e = true) (hstep : (t i).step (T i) (idle i) e = some s') :
    (s'.copy side).sent <+: ((t j).copy side).out.below ∧
      ((s'.copy side).ended = true →
        (s'.copy side).sent = ((t j).copy side).out.below ∧ (t j).closes side = true) := by
  have hcomes := h.comes i side j hfeeder
  have hends := h.ends i side j hfeeder
  rcases copy_cases hstep side with hsame | ⟨ev, rfl, hcopy⟩
  · rw [hsame]
    exact ⟨hcomes, hends⟩
  · rcases Copy.source_cases hcopy with ⟨hsent, hended⟩ | ⟨bytes, rfl, -, hsent, hended⟩ |
      ⟨rfl, hsent, hended⟩
    · rw [hsent, hended]
      exact ⟨hcomes, hends⟩
    · rw [delivers, hfeeder, Option.all_some, decide_eq_true_eq] at hdelivers
      rw [hsent, hended]
      exact ⟨hdelivers, fun habsurd => absurd habsurd (by simp)⟩
    · rw [delivers, hfeeder, Option.all_some, Bool.and_eq_true, decide_eq_true_eq] at hdelivers
      rw [hsent]
      exact ⟨hcomes, fun _ => hdelivers⟩

/-- **Every event** at any relay keeps it. -/
theorem Carried.step (h : Carried hops t) {e : ℕ × SpliceEvent σ}
    (hstep : t.step T idle hops e = some t') : Carried hops t' := by
  rcases e with ⟨k, e⟩
  rw [Tunnel.step] at hstep
  split_ifs at hstep with hhere
  rcases Option.map_eq_some_iff.mp hstep with ⟨s', hs', rfl⟩
  have hlink : ∀ i side j, feeder hops i side = some j →
      ((Function.update t k s' i).copy side).sent <+:
        ((Function.update t k s' j).copy side).out.below ∧
      (((Function.update t k s' i).copy side).ended = true →
        ((Function.update t k s' i).copy side).sent =
          ((Function.update t k s' j).copy side).out.below ∧
        (Function.update t k s' j).closes side = true) := by
    intro i side j hfeeder
    have hne := feeder_ne hfeeder
    by_cases hi : i = k
    · subst hi
      rw [Function.update_self, Function.update_of_ne hne]
      exact h.reads hfeeder hhere.2 hs'
    · rw [Function.update_of_ne hi]
      by_cases hj : j = k
      · subst hj
        rw [Function.update_self]
        exact h.fed hfeeder hs'
      · rw [Function.update_of_ne hj]
        exact ⟨h.comes i side j hfeeder, h.ends i side j hfeeder⟩
  refine ⟨?_, fun i side j hf => (hlink i side j hf).1, fun i side j hf => (hlink i side j hf).2⟩
  intro i
  by_cases hi : i = k
  · subst hi
    rw [Function.update_self]
    exact (h.faithful i).step hs'
  · rw [Function.update_of_ne hi]
    exact h.faithful i

lemma carried_of_run {env : ℕ → Side → σ} {now : ℕ → ℕ} {events : List (ℕ × SpliceEvent σ)}
    (hrun : Machine.run (step T idle hops) (start idle env now) events = some t) : Carried hops t :=
  Machine.run_keeps (fun _ _ _ hstep h => Carried.step h hstep) hrun (carried_start _ _ _)

/-! ## From one end to the other -/

lemma feeder_relayAt {side : Side} {n : ℕ} (hn : n + 1 < hops) :
    feeder hops (relayAt hops side (n + 1)) side = some (relayAt hops side n) := by
  cases side with
  | ab =>
      rw [feeder, relayAt, if_neg (Nat.succ_ne_zero n)]
      rfl
  | ba =>
      have hprev : relayAt hops .ba (n + 1) + 1 = relayAt hops .ba n := by
        simp only [relayAt]
        omega
      have hlt : relayAt hops .ba (n + 1) + 1 < hops := by
        simp only [relayAt]
        omega
      rw [feeder, if_pos hlt, hprev]

/-- The splice and direction of the `n`-th relay that bytes come to. -/
def copyAt (hops : ℕ) (t : Tunnel σ) (side : Side) (n : ℕ) : Copy σ :=
  (t (relayAt hops side n)).copy side

/-- What a relay was given is a prefix of what came to the first. -/
lemma Carried.taken_le (h : Carried hops t) (side : Side) {n : ℕ} (hn : n < hops) :
    (t.copyAt hops side n).out.taken <+: (t.copyAt hops side 0).sent := by
  have hsound : ∀ n, (t.copyAt hops side n).Sound := fun n => (h.faithful _).sound side
  have hthrough : ∀ n, (t.copyAt hops side n).out.taken <+: (t.copyAt hops side n).sent :=
    fun n => (hsound n).taken_begins.trans (hsound n).read
  induction n with
  | zero => exact hthrough 0
  | succ n ih =>
      have hlink : (t.copyAt hops side (n + 1)).sent <+: (t.copyAt hops side n).out.below :=
        h.comes _ side _ (feeder_relayAt hn)
      exact (hthrough (n + 1)).trans (hlink.trans ((List.prefix_append _ _).trans (ih (by omega))))

/-- A relay shuts its stream down when it has given all that came to the first, or another before it
was cut short. -/
lemma Carried.shut (h : Carried hops t) (side : Side) {n : ℕ} (hn : n < hops)
    (hshut : (t.copyAt hops side n).shut = true) :
    ((t.copyAt hops side 0).ended = true ∧
      (t.copyAt hops side n).out.taken = (t.copyAt hops side 0).sent) ∨
    ∃ m < n, (t (relayAt hops side m)).CutShort side := by
  have hsound : ∀ n, (t.copyAt hops side n).Sound := fun n => (h.faithful _).sound side
  induction n with
  | zero =>
      rcases (hsound 0).of_shut hshut with ⟨hended, -, htaken⟩
      exact Or.inl ⟨hended, htaken⟩
  | succ n ih =>
      rcases (hsound (n + 1)).of_shut hshut with ⟨hended, -, htaken⟩
      rcases h.ends _ side _ (feeder_relayAt hn) hended with ⟨hall, hcloses⟩
      by_cases hdone : (t.copyAt hops side n).phase = .done ∧
          (t.copyAt hops side n).out.buffered = []
      · rcases ih (by omega) ((hsound n).closed.mpr (Or.inr hdone.1)) with
          ⟨hfirst, hgiven⟩ | ⟨m, hm, hcut⟩
        · refine Or.inl ⟨hfirst, ?_⟩
          have hbelow : (t.copyAt hops side n).out.below = (t.copyAt hops side n).out.taken := by
            rw [BufferedStream.taken, hdone.2, List.append_nil]
          exact htaken.trans (hall.trans (hbelow.trans hgiven))
        · exact Or.inr ⟨m, by omega, hcut⟩
      · rcases closes_iff.mp hcloses with hclosed | hreturned
        · exact absurd hclosed hdone
        · exact Or.inr ⟨n, by omega, hreturned, hdone⟩

/-! ## At rest -/

/-- An event that does not leave a stream holding anything back while its loop waits. -/
def WritesThrough (T : ℕ → Side → Transport σ) (t : Tunnel σ) (e : ℕ × SpliceEvent σ) : Prop :=
  (t e.1).WritesThrough (T e.1) e.2

/-- No relay holds anything back while it waits. -/
def Flushed (t : Tunnel σ) : Prop := ∀ i side, ((t i).copy side).Flushed

lemma Flushed.step (h : t.Flushed) (hcarried : Carried hops t) {e : ℕ × SpliceEvent σ}
    (hok : t.WritesThrough T e) (hstep : t.step T idle hops e = some t') : t'.Flushed := by
  rcases e with ⟨k, e⟩
  rw [Tunnel.step] at hstep
  split_ifs at hstep
  rcases Option.map_eq_some_iff.mp hstep with ⟨s', hs', rfl⟩
  intro i side
  by_cases hi : i = k
  · subst hi
    rw [Function.update_self]
    rcases copy_cases hs' side with hsame | ⟨ev, rfl, hcopy⟩
    · rw [hsame]
      exact h i side
    · exact (h i side).step ((hcarried.faithful i).sound side) hok hcopy
  · rw [Function.update_of_ne hi]
    exact h i side

/-- All relays wait for more in this direction, and nothing is on its way between them. -/
structure Quiet (hops : ℕ) (t : Tunnel σ) (side : Side) : Prop where
  waits : ∀ n < hops, (t.copyAt hops side n).Waiting
  arrived : ∀ n, n + 1 < hops →
    (t.copyAt hops side (n + 1)).sent = (t.copyAt hops side n).out.below

lemma Quiet.below {side : Side} (h : Quiet hops t side) (hcarried : Carried hops t)
    (hflushed : t.Flushed) {n : ℕ} (hn : n < hops) :
    (t.copyAt hops side n).out.below = (t.copyAt hops side 0).sent := by
  have hthrough : ∀ n < hops, (t.copyAt hops side n).out.below = (t.copyAt hops side n).sent := by
    intro n hn
    rcases ((hcarried.faithful _).sound side).flushed_iff.mp (hflushed _ side) (h.waits n hn) with
      ⟨hall, hbelow⟩
    exact hbelow.trans hall
  induction n with
  | zero => exact hthrough 0 hn
  | succ n ih => rw [hthrough (n + 1) hn, h.arrived n hn, ih (by omega)]

end Tunnel

open Tunnel in
/-- **A tunnel is faithful.**  Whatever happens at any of its relays, in either direction what the
last has given is a prefix of what came to the first; it shuts its stream down only when it has
given all of it and that has ended, or after another relay dropped its streams halfway; and when all
relays have finished and hold nothing back, everything has come through both ways. -/
theorem tunnel_faithful {σ : Type} (T : ℕ → Side → Transport σ) (idle : ℕ → ℕ) (last : ℕ)
    (env : ℕ → Side → σ) (now : ℕ → ℕ) (events : List (ℕ × SpliceEvent σ)) {t : Tunnel σ}
    (hrun : Machine.run (step T idle (last + 1)) (start idle env now) events = some t) (side : Side) :
    let enters := t.copyAt (last + 1) side 0
    let leaves := t.copyAt (last + 1) side last
    leaves.out.taken <+: enters.sent ∧
    (leaves.shut = true → (enters.ended = true ∧ leaves.out.taken = enters.sent) ∨
      ∃ n < last, (t (relayAt (last + 1) side n)).CutShort side) ∧
    ((∀ n ≤ last, (t n).outcome = some .finished ∧ ((t n).copy side).out.buffered = []) →
      enters.ended = true ∧ leaves.out.below = enters.sent ∧ leaves.shut = true) := by
  have h := carried_of_run hrun
  refine ⟨h.taken_le side (Nat.lt_succ_self last), h.shut side (Nat.lt_succ_self last), ?_⟩
  intro hfinished
  have hclean : ∀ n ≤ last, (t.copyAt (last + 1) side n).phase = .done ∧
      (t.copyAt (last + 1) side n).out.buffered = [] := by
    intro n hn
    have hle : relayAt (last + 1) side n ≤ last := by cases side <;> simp only [relayAt] <;> omega
    rcases hfinished _ hle with ⟨hreturned, hbuffered⟩
    exact ⟨(h.faithful _).done hreturned side, hbuffered⟩
  have hshut : (t.copyAt (last + 1) side last).shut = true :=
    ((h.faithful _).sound side).closed.mpr (Or.inr (hclean last le_rfl).1)
  rcases h.shut side (Nat.lt_succ_self last) hshut with ⟨hended, hgiven⟩ | ⟨n, hn, -, hcut⟩
  · refine ⟨hended, ?_, hshut⟩
    rw [BufferedStream.taken, (hclean last le_rfl).2, List.append_nil] at hgiven
    exact hgiven
  · exact absurd (hclean n hn.le) hcut

/-- A byte each way through two relays, and then the ends. -/
def twoRelays : List (ℕ × SpliceEvent Unit) :=
  [(0, .pump .ab (.arrive [1])), (0, .pump .ab (.read 1)), (0, .pump .ab .write),
    (0, .pump .ab .finish), (0, .pump .ab .eof), (0, .pump .ab (.close true)),
    (1, .pump .ab (.arrive [1])), (1, .pump .ab .finish), (1, .pump .ab (.read 1)),
    (1, .pump .ab .write), (1, .pump .ab .eof), (1, .pump .ab (.close true)),
    (1, .pump .ba (.arrive [3])), (1, .pump .ba (.read 1)), (1, .pump .ba .write),
    (0, .pump .ba (.arrive [3])), (0, .pump .ba (.read 1)), (0, .pump .ba .write),
    (1, .pump .ba .finish), (1, .pump .ba .eof), (1, .pump .ba (.close true)),
    (0, .pump .ba .finish), (0, .pump .ba .eof), (0, .pump .ba (.close true))]

/-- What the target answers comes to the originator. -/
theorem tunnel_faithful_twoRelays : ∃ t,
    Machine.run (Tunnel.step (fun _ _ => trickle) (fun _ => 1000) 2)
      (Tunnel.start (fun _ => 1000) (fun _ _ => ()) fun _ => 0) twoRelays = some t ∧
    (t.copyAt 2 .ba 0).ended = true ∧
    (t.copyAt 2 .ba 1).out.below = (t.copyAt 2 .ba 0).sent ∧ (t.copyAt 2 .ba 1).shut = true := by
  have hrun : ((Machine.run (Tunnel.step (fun _ _ => trickle) (fun _ => 1000) 2)
      (Tunnel.start (fun _ => 1000) (fun _ _ => ()) fun _ => 0) twoRelays).map fun t : Tunnel Unit =>
        [0, 1].map fun n => ((t n).outcome, ((t n).copy .ba).out.buffered)) =
      some [(some .finished, []), (some .finished, [])] := by decide
  rcases Option.map_eq_some_iff.mp hrun with ⟨t, ht, hfinished⟩
  have hall : ∀ n ≤ 1, (t n).outcome = some .finished ∧ ((t n).copy .ba).out.buffered = [] := by
    intro n hn
    simp only [List.map_cons, List.map_nil, List.cons.injEq, Prod.mk.injEq] at hfinished
    interval_cases n
    · exact hfinished.1
    · exact hfinished.2.1
  exact ⟨t, ht,
    (tunnel_faithful (fun _ _ => trickle) (fun _ => 1000) 1 _ _ twoRelays ht .ba).2.2 hall⟩

open Tunnel in
/-- **A tunnel at rest has delivered everything**, if no write leaves a stream holding anything back
while its loop waits: all that came to the first relay was handed on by the last. -/
theorem tunnel_delivers {σ : Type} (T : ℕ → Side → Transport σ) (idle : ℕ → ℕ) (last : ℕ)
    (env : ℕ → Side → σ) (now : ℕ → ℕ) (events : List (ℕ × SpliceEvent σ)) {t : Tunnel σ}
    (hthrough : Machine.Meets (step T idle (last + 1)) (WritesThrough T) (start idle env now) events)
    (hrun : Machine.run (step T idle (last + 1)) (start idle env now) events = some t) (side : Side)
    (hrest : Quiet (last + 1) t side) :
    (t.copyAt (last + 1) side last).out.below = (t.copyAt (last + 1) side 0).sent := by
  have hinvariant : Carried (last + 1) t ∧ t.Flushed := by
    refine Machine.run_invariant (P := fun t => Carried (last + 1) t ∧ t.Flushed) ?_ hthrough hrun
      ⟨carried_start _ _ _, ?_⟩
    · rintro t e t' hok hstep ⟨hcarried, hflushed⟩
      exact ⟨hcarried.step hstep, hflushed.step hcarried hok hstep⟩
    · intro i side
      rw [copy_start]
      exact Copy.flushed_start _
  exact hrest.below hinvariant.1 hinvariant.2 (Nat.lt_succ_self last)

/-- Half of the same. -/
def halfWay : List (ℕ × SpliceEvent Unit) :=
  [(0, .pump .ab (.arrive [1])), (0, .pump .ab (.read 1)), (0, .pump .ab .write),
    (1, .pump .ab (.arrive [1])), (1, .pump .ab (.read 1)), (1, .pump .ab .write)]

/-- A byte has come through two relays, which wait for more. -/
theorem tunnel_delivers_halfWay : ∃ t,
    Machine.run (Tunnel.step (fun _ _ => trickle) (fun _ => 1000) 2)
      (Tunnel.start (fun _ => 1000) (fun _ _ => ()) fun _ => 0) halfWay = some t ∧
    (t.copyAt 2 .ab 1).out.below = (t.copyAt 2 .ab 0).sent := by
  have hrun : ((Machine.run (Tunnel.step (fun _ _ => trickle) (fun _ => 1000) 2)
      (Tunnel.start (fun _ => 1000) (fun _ _ => ()) fun _ => 0) halfWay).map fun t : Tunnel Unit =>
        decide ((t.copyAt 2 .ab 1).sent = (t.copyAt 2 .ab 0).out.below) &&
          [0, 1].all fun n => decide ((t.copyAt 2 .ab n).phase = .reading) &&
            decide ((t.copyAt 2 .ab n).unread = []) && !(t.copyAt 2 .ab n).ended) = some true := by
    decide
  rcases Option.map_eq_some_iff.mp hrun with ⟨t, ht, hrest⟩
  simp only [List.all_cons, List.all_nil, Bool.and_true, Bool.and_eq_true, decide_eq_true_eq,
    Bool.not_eq_true'] at hrest
  refine ⟨t, ht, tunnel_delivers (fun _ _ => trickle) (fun _ => 1000) 1 _ _ halfWay
    (Machine.meets_of_forall (fun (t : Tunnel Unit) (e : ℕ × SpliceEvent Unit) =>
      trickle_writesThrough (t e.1) e.2) _ _) ht .ab ⟨?_, ?_⟩⟩
  · intro n hn
    interval_cases n
    · exact ⟨hrest.2.1.1.1, hrest.2.1.1.2, hrest.2.1.2⟩
    · exact ⟨hrest.2.2.1.1, hrest.2.2.1.2, hrest.2.2.2⟩
  · intro n hn
    obtain rfl : n = 0 := by omega
    exact hrest.1

end Radii
