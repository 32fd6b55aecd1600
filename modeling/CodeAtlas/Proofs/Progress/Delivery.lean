import CodeAtlas.Progress.Channel
import Mathlib.Data.List.TakeWhile
import Mathlib.Tactic

set_option autoImplicit false

/-! # What reaches the listener

Emitting, delivering, suppressing and closing may interleave in any way, and the listener may fail on
any event. All the same it is passed the emitted events in order and without gaps: what it has received
is a front of what was emitted before the channel was suppressed, all of it once a channel that was
never suppressed has been closed and waited for (`Channel.delivered_in_order`).

The invariant is `Channel.Told`. An event is at one of three places, received, in flight or pending, and
the three together are what was emitted, as long as the channel accepts events. Suppressing gives up the
pending ones; from then on what was received and what is in flight do not change together, so that at
most the delivery in flight is still to come (`Channel.stepAll_of_suppressed`).
-/

namespace CodeAtlas.Channel

variable {ε : Type}

/-! ## Interleavings -/

/-- Take steps one after another. -/
def stepAll (fails : ε → Bool) (c : Channel ε) (steps : List (Step ε)) : Channel ε :=
  steps.foldl (step fails) c

/-- Every step can be taken when its turn comes. -/
def Allows (fails : ε → Bool) : Channel ε → List (Step ε) → Prop
  | _, [] => True
  | c, s :: steps => c.enabled s = true ∧ Allows fails (c.step fails s) steps

instance decidableAllows (fails : ε → Bool) :
    (c : Channel ε) → (steps : List (Step ε)) → Decidable (c.Allows fails steps)
  | _, [] => inferInstanceAs (Decidable True)
  | c, s :: steps =>
    have := decidableAllows fails (c.step fails s) steps
    inferInstanceAs (Decidable (c.enabled s = true ∧ (c.step fails s).Allows fails steps))

namespace Step

/-- The event that a step emits. -/
def event? : Step ε → Option ε
  | emit e => some e
  | _ => none

/-- Does the step suppress the channel? -/
def isSuppress : Step ε → Bool
  | suppress => true
  | _ => false

/-- Does the step belong to a delivery? -/
def isDelivery : Step ε → Bool
  | begin | finish => true
  | _ => false

end Step

/-- The events that are emitted. -/
def emitted (steps : List (Step ε)) : List ε := steps.filterMap Step.event?

/-- The events that are emitted before the channel is suppressed. -/
def emittedBefore (steps : List (Step ε)) : List ε := emitted (steps.takeWhile fun s => !s.isSuppress)

theorem emittedBefore_eq_emitted {steps : List (Step ε)} (h : ∀ s ∈ steps, s.isSuppress = false) :
    emittedBefore steps = emitted steps := by
  rw [emittedBefore, List.takeWhile_eq_self_iff.mpr fun s hs => by rw [h s hs]; rfl]

theorem emittedBefore_cons (s : Step ε) (steps : List (Step ε)) :
    emittedBefore (s :: steps) =
      s.event?.toList ++ if s.isSuppress then [] else emittedBefore steps := by
  cases s <;> rfl

theorem stepAll_append (fails : ε → Bool) (c : Channel ε) (steps more : List (Step ε)) :
    c.stepAll fails (steps ++ more) = (c.stepAll fails steps).stepAll fails more :=
  List.foldl_append

theorem allows_append {fails : ε → Bool} {c : Channel ε} {steps more : List (Step ε)} :
    c.Allows fails (steps ++ more) ↔
      c.Allows fails steps ∧ (c.stepAll fails steps).Allows fails more := by
  induction steps generalizing c with
  | nil => exact (iff_of_eq (true_and _)).symm
  | cons s steps ih =>
      have hrest := ih (c := c.step fails s)
      show c.enabled s = true ∧ (c.step fails s).Allows fails (steps ++ more) ↔ _
      rw [hrest, ← and_assoc]
      rfl

/-! ## Single steps -/

variable {fails : ε → Bool} {c : Channel ε}

theorem suppressed_step (s : Step ε) :
    (c.step fails s).suppressed = (c.suppressed || s.isSuppress) := by
  cases s with
  | emit e => simp only [step, emit, Step.isSuppress, Bool.or_false]; split <;> rfl
  | begin => simp only [step, begin, Step.isSuppress, Bool.or_false]; split <;> rfl
  | finish => simp only [step, finish, Step.isSuppress, Bool.or_false]; split <;> rfl
  | suppress => exact (Bool.or_true _).symm
  | close wait => exact (Bool.or_false _).symm

theorem hasListener_step (s : Step ε) : (c.step fails s).hasListener = c.hasListener := by
  cases s with
  | emit e => simp only [step, emit]; split <;> rfl
  | begin => simp only [step, begin]; split <;> rfl
  | finish => simp only [step, finish]; split <;> rfl
  | suppress => rfl
  | close wait => rfl

theorem closed_step {s : Step ε} (h : c.closed = true) : (c.step fails s).closed = true := by
  cases s with
  | emit e => simp only [step, emit]; split <;> exact h
  | begin => simp only [step, begin]; split <;> exact h
  | finish => simp only [step, finish]; split <;> exact h
  | suppress => exact h
  | close wait => rfl

/-- Nothing that was received is taken back. -/
theorem received_step (s : Step ε) : c.received <+: (c.step fails s).received := by
  cases s with
  | emit e => simp only [step, emit]; split <;> exact List.prefix_refl _
  | begin => simp only [step, begin]; split <;> exact List.prefix_refl _
  | finish =>
      simp only [step, finish]
      split
      · exact List.prefix_refl _
      · exact List.prefix_append _ _
  | suppress => exact List.prefix_refl _
  | close wait => exact List.prefix_refl _

variable (fails) in
theorem received_stepAll (c : Channel ε) (steps : List (Step ε)) :
    c.received <+: (c.stepAll fails steps).received := by
  induction steps generalizing c with
  | nil => exact List.prefix_refl _
  | cons s steps ih => exact (received_step s).trans (ih _)

/-! ## The invariant -/

/-- What the listener has been told of the events emitted so far, before the channel was suppressed. -/
structure Told (fails : ε → Bool) (c : Channel ε) (es : List ε) : Prop where
  taken : c.received ++ c.inFlight.toList <+: es
  /-- While events are accepted, each of them is somewhere. -/
  waiting : c.accepts = true → c.received ++ c.inFlight.toList ++ c.pending = es
  silent : c.hasListener = false → c.pending = []
  failures : c.failures = c.received.filter fails

theorem told_new (fails : ε → Bool) (hasListener : Bool) : (new hasListener).Told fails [] := by
  constructor <;> simp [new]

/-- The events that count after a step: those emitted later than the suppression do not. -/
def told (c : Channel ε) (s : Step ε) : List ε := if c.suppressed then [] else s.event?.toList

theorem Told.emit {es : List ε} (h : c.Told fails es) (e : ε) :
    (c.emit e).Told fails (es ++ told c (.emit e)) := by
  unfold Channel.emit
  split
  · next haccepts =>
    have hopen : c.suppressed = false := by
      simp only [accepts, Bool.and_eq_true, Bool.not_eq_true'] at haccepts
      exact haccepts.2
    have hevents : told c (.emit e) = [e] := by rw [told, hopen]; rfl
    rw [hevents, ← h.waiting haccepts]
    refine ⟨?_, fun _ => (List.append_assoc _ _ _).symm, fun hsilent => ?_, h.failures⟩
    · rw [List.append_assoc]
      exact List.prefix_append _ _
    · -- Nobody listens, so nothing is accepted.
      have hsilent : c.hasListener = false := hsilent
      rw [accepts, hsilent, Bool.false_and] at haccepts
      contradiction
  · next hrefused =>
    exact ⟨h.taken.trans (List.prefix_append _ _), fun haccepts => absurd haccepts hrefused, h.silent,
      h.failures⟩

theorem Told.begin {es : List ε} (h : c.Told fails es) : c.begin.Told fails es := by
  unfold Channel.begin
  split
  · next e rest hflight hpending =>
    cases hsuppressed : c.suppressed with
    | true =>
        -- The event is dropped.
        have htaken := h.taken
        rw [hflight] at htaken
        refine ⟨htaken, fun haccepts => ?_, fun hsilent => ?_, h.failures⟩
        · simp [accepts] at haccepts
        · rw [h.silent hsilent] at hpending
          contradiction
    | false =>
        have hlistener : c.hasListener = true := by
          by_contra hnone
          rw [h.silent (Bool.eq_false_iff.mpr hnone)] at hpending
          contradiction
        -- The event moves from the front of the pending ones into flight.
        have hall := h.waiting (by rw [accepts, hlistener, hsuppressed]; rfl)
        rw [hflight, hpending] at hall
        have hmoved : c.received ++ [e] ++ rest = es := by rw [← hall]; simp
        refine ⟨⟨rest, hmoved⟩, fun _ => hmoved, fun hsilent => ?_, h.failures⟩
        rw [hlistener] at hsilent
        contradiction
  · exact h

theorem Told.finish {es : List ε} (h : c.Told fails es) : (c.finish fails).Told fails es := by
  unfold Channel.finish
  split
  · exact h
  · next e hflight =>
    have htaken := h.taken
    have hall := h.waiting
    rw [hflight] at htaken hall
    refine ⟨by simpa using htaken, fun haccepts => by simpa using hall haccepts, h.silent, ?_⟩
    show (if fails e then c.failures ++ [e] else c.failures) = (c.received ++ [e]).filter fails
    rw [List.filter_append, ← h.failures]
    by_cases he : fails e = true
    · simp [he]
    · simp [he]

/-- Every step keeps the listener told. -/
theorem Told.step {es : List ε} (h : c.Told fails es) (s : Step ε) :
    (c.step fails s).Told fails (es ++ told c s) := by
  have hnone : s.event? = none → es ++ told c s = es := by
    intro hevent
    rw [told, hevent]
    split <;> exact List.append_nil _
  cases s with
  | emit e => exact h.emit e
  | begin =>
      rw [hnone rfl]
      exact h.begin
  | finish =>
      rw [hnone rfl]
      exact h.finish
  | suppress =>
      rw [hnone rfl]
      refine { h with waiting := fun haccepts => ?_ }
      simp [accepts, Channel.step, suppress] at haccepts
  | close wait =>
      rw [hnone rfl]
      exact { h with }

/-- After any steps the listener has been told of the events emitted before the suppression. -/
theorem Told.stepAll {es : List ε} (h : c.Told fails es) (steps : List (Step ε)) :
    (c.stepAll fails steps).Told fails (es ++ if c.suppressed then [] else emittedBefore steps) := by
  induction steps generalizing c es with
  | nil =>
      have hnil : (if c.suppressed then [] else emittedBefore ([] : List (Step ε))) = [] := by
        split <;> rfl
      rw [hnil, List.append_nil]
      exact h
  | cons s steps ih =>
      have hrest := ih (h.step s)
      have hevents : told c s ++ (if (c.step fails s).suppressed then [] else emittedBefore steps) =
          if c.suppressed then [] else emittedBefore (s :: steps) := by
        rw [suppressed_step, told, emittedBefore_cons]
        cases c.suppressed <;> rfl
      rwa [List.append_assoc, hevents] at hrest

/-! ## After the suppression -/

theorem step_of_suppressed (h : c.suppressed = true) (s : Step ε) :
    (c.step fails s).received ++ (c.step fails s).inFlight.toList = c.received ++ c.inFlight.toList := by
  cases s with
  | emit e =>
      have hrefused : c.accepts = false := by rw [accepts, h, Bool.not_true, Bool.and_false]
      simp only [step, emit, hrefused, Bool.false_eq_true, if_false]
  | begin =>
      simp only [step, begin]
      split
      · next hflight _ => simp [h, hflight]
      · rfl
  | finish =>
      simp only [step, finish]
      split
      · rfl
      · next hflight => simp [hflight]
  | suppress => rfl
  | close wait => rfl

variable (fails) in
/-- **A suppressed channel begins no delivery.** -/
theorem stepAll_of_suppressed (h : c.suppressed = true) (steps : List (Step ε)) :
    (c.stepAll fails steps).received ++ (c.stepAll fails steps).inFlight.toList =
      c.received ++ c.inFlight.toList := by
  induction steps generalizing c with
  | nil => rfl
  | cons s steps ih =>
      have hstep : (c.step fails s).suppressed = true := by rw [suppressed_step, h, Bool.true_or]
      exact (ih hstep).trans (step_of_suppressed h s)

variable (fails) in
/-- What is still received after the suppression was in flight by then. -/
theorem exists_late (h : c.suppressed = true) (steps : List (Step ε)) :
    ∃ late, late <+: c.inFlight.toList ∧ (c.stepAll fails steps).received = c.received ++ late := by
  obtain ⟨late, hlate⟩ := received_stepAll fails c steps
  have hboth := stepAll_of_suppressed fails h steps
  rw [← hlate, List.append_assoc] at hboth
  exact ⟨late, ⟨_, List.append_cancel_left hboth⟩, hlate.symm⟩

/-! ## After closing -/

/-- A closed channel that would have to deliver what is emitted allows nothing to be emitted. -/
theorem emitted_of_closed {steps : List (Step ε)} (hclosed : c.closed = true)
    (haccepts : c.accepts = true) (hallowed : c.Allows fails steps)
    (hopen : ∀ s ∈ steps, s.isSuppress = false) : emitted steps = [] := by
  induction steps generalizing c with
  | nil => rfl
  | cons s steps ih =>
      obtain ⟨henabled, hrest⟩ := hallowed
      obtain ⟨hs, hopen⟩ := List.forall_mem_cons.mp hopen
      have hevent : s.event? = none := by
        cases s with
        | emit e => simp [enabled, hclosed, haccepts] at henabled
        | begin | finish | suppress | close => rfl
      have haccepts' : (c.step fails s).accepts = true := by
        rw [accepts, hasListener_step, suppressed_step, hs, Bool.or_false]
        exact haccepts
      rw [emitted, List.filterMap_cons_none hevent]
      exact ih (closed_step hclosed) haccepts' hrest hopen

theorem accepts_stepAll {steps : List (Step ε)} (hopen : ∀ s ∈ steps, s.isSuppress = false) :
    (c.stepAll fails steps).accepts = c.accepts := by
  induction steps generalizing c with
  | nil => rfl
  | cons s steps ih =>
      obtain ⟨hs, hopen⟩ := List.forall_mem_cons.mp hopen
      refine (ih hopen).trans ?_
      rw [accepts, hasListener_step, suppressed_step, hs, Bool.or_false, accepts]

/-- **When the closing of a channel that was never suppressed has been waited for, everything is
received.** -/
theorem Told.received_of_closed {es : List ε} (h : c.Told fails es) (haccepts : c.accepts = true)
    (hidle : c.enabled (.close true) = true) {steps : List (Step ε)}
    (hallowed : c.Allows fails (.close true :: steps))
    (hopen : ∀ s ∈ steps, s.isSuppress = false) :
    (c.stepAll fails (.close true :: steps)).received = es ++ emitted (.close true :: steps) := by
  have hall := h.waiting haccepts
  simp only [enabled, Bool.not_true, Bool.false_or, Bool.and_eq_true, List.isEmpty_iff,
    Option.isNone_iff_eq_none] at hidle
  rw [hidle.1, hidle.2, Option.toList_none, List.append_nil, List.append_nil] at hall
  -- Nothing is emitted any more, so nothing can be added to what was received.
  have hnothing : emitted steps = [] :=
    emitted_of_closed (c := c.step fails (.close true)) rfl haccepts hallowed.2 hopen
  have hlater := (h.step (.close true)).stepAll steps
  rw [emittedBefore_eq_emitted hopen, hnothing, ite_self, List.append_nil] at hlater
  have htold : told c (.close true) = [] := by
    unfold told
    split <;> rfl
  rw [htold, List.append_nil] at hlater
  have hle : (c.stepAll fails (.close true :: steps)).received <+: es :=
    (List.prefix_append _ _).trans hlater.taken
  have hge := received_stepAll fails c (.close true :: steps)
  rw [hall] at hge
  have hreceived := hle.eq_of_length (Nat.le_antisymm hle.length_le hge.length_le)
  rw [hreceived, emitted, List.filterMap_cons_none rfl]
  show es = es ++ emitted steps
  rw [hnothing, List.append_nil]

/-! ## Waiting comes to an end -/

section Waiting

variable (fails)

/-- A delivery step that cannot be taken would change nothing. -/
theorem step_eq_self {s : Step ε} (hs : s.isDelivery = true) (h : c.enabled s = false) :
    c.step fails s = c := by
  cases s with
  | begin =>
      simp only [step, begin]
      split
      · next hflight hpending => simp [enabled, hflight, hpending] at h
      · rfl
  | finish =>
      simp only [step, finish]
      split
      · rfl
      · next hflight => simp [enabled, hflight] at h
  | emit | suppress | close => simp [Step.isDelivery] at hs

/-- Attempts at deliveries amount to the deliveries that can be made. -/
theorem exists_allowed_deliveries {attempts : List (Step ε)} (h : ∀ s ∈ attempts, s.isDelivery = true)
    (c : Channel ε) : ∃ steps, (∀ s ∈ steps, s.isDelivery = true) ∧ c.Allows fails steps ∧
      c.stepAll fails steps = c.stepAll fails attempts := by
  induction attempts generalizing c with
  | nil => exact ⟨[], by simp, trivial, rfl⟩
  | cons s attempts ih =>
      obtain ⟨hs, hrest⟩ := List.forall_mem_cons.mp h
      obtain ⟨steps, hsteps, hallowed, heq⟩ := ih hrest (c.step fails s)
      cases henabled : c.enabled s with
      | true => exact ⟨s :: steps, List.forall_mem_cons.mpr ⟨hs, hsteps⟩, ⟨henabled, hallowed⟩, heq⟩
      | false =>
          have hself := step_eq_self fails hs henabled
          rw [hself] at hallowed heq
          exact ⟨steps, hsteps, hallowed, heq.trans (congrArg (stepAll fails · attempts) hself.symm)⟩

theorem inFlight_finish (c : Channel ε) : (c.finish fails).inFlight = none := by
  unfold finish
  split
  · next hflight => exact hflight
  · rfl

theorem pending_finish (c : Channel ε) : (c.finish fails).pending = c.pending := by
  unfold finish
  split <;> rfl

theorem pending_deliver (c : Channel ε) : (c.deliver fails).pending = c.pending.tail := by
  have hpending := pending_finish fails c
  have hflight := inFlight_finish fails c
  unfold deliver
  rw [pending_finish, begin, hflight, hpending]
  cases h : c.pending with
  | nil => rw [List.tail_nil, hpending, h]
  | cons e rest => rfl

theorem pending_repeat (n : Nat) (c : Channel ε) :
    (n.repeat (deliver fails) c).pending = c.pending.drop n := by
  induction n with
  | zero => rfl
  | succ n ih => rw [Nat.repeat, pending_deliver, ih, List.tail_drop]

/-- **Delivering everything leaves nothing to deliver.** -/
theorem idle_drain (c : Channel ε) : (c.drain fails).enabled (.close true) = true := by
  have hpending : (c.drain fails).pending = [] := by
    rw [drain, pending_repeat]
    exact List.drop_eq_nil_of_le (by omega)
  have hflight : (c.drain fails).inFlight = none := inFlight_finish fails _
  simp [enabled, hpending, hflight]

theorem exists_attempts (n : Nat) (c : Channel ε) :
    ∃ attempts, (∀ s ∈ attempts, s.isDelivery = true) ∧
      n.repeat (deliver fails) c = c.stepAll fails attempts := by
  induction n with
  | zero => exact ⟨[], by simp, rfl⟩
  | succ n ih =>
      obtain ⟨attempts, hattempts, heq⟩ := ih
      refine ⟨attempts ++ [.finish, .begin, .finish], ?_, ?_⟩
      · intro s hs
        rcases List.mem_append.mp hs with hs | hs
        · exact hattempts s hs
        · simp only [List.mem_cons, List.not_mem_nil, or_false] at hs
          rcases hs with rfl | rfl | rfl <;> rfl
      · rw [Nat.repeat, heq, stepAll_append]
        rfl

/-- From everywhere deliveries lead to a channel that can be closed and need not be waited for. -/
theorem exists_deliveries (c : Channel ε) :
    ∃ steps, (∀ s ∈ steps, s.isDelivery = true) ∧ c.Allows fails (steps ++ [.close true]) ∧
      c.stepAll fails (steps ++ [.close true]) = c.close fails := by
  obtain ⟨attempts, hattempts, heq⟩ := exists_attempts fails (c.pending.length + 1) c
  obtain ⟨steps, hsteps, hallowed, hsame⟩ := exists_allowed_deliveries fails hattempts c
  have hdrain : c.stepAll fails steps = c.drain fails := hsame.trans heq.symm
  refine ⟨steps, hsteps, allows_append.mpr ⟨hallowed, ?_, trivial⟩, ?_⟩
  · rw [hdrain]
    exact idle_drain fails c
  · rw [stepAll_append, hdrain]
    rfl

end Waiting

/-! ## All together -/

/-- **Events are delivered in order.** Take any interleaving of steps and any events on which the
listener fails. What the listener has received, with the event that is being passed to it, is a front of
what was emitted before the suppression, and it has failed on nothing else than it should. If the channel
is never suppressed and its closing has been waited for, the listener has received everything. After the
suppression it receives at most the event that was in flight. Waiting never is in vain: deliveries lead
to where the closing returns. -/
theorem delivered_in_order (fails : ε → Bool) (hasListener : Bool) (steps : List (Step ε))
    (hallowed : (new hasListener).Allows fails steps) :
    let c := (new hasListener).stepAll fails steps
    c.received ++ c.inFlight.toList <+: emittedBefore steps ∧
      c.failures = c.received.filter fails ∧
      (hasListener = true → (∀ s ∈ steps, s.isSuppress = false) → .close true ∈ steps →
        c.received = emitted steps) ∧
      (∀ before after, steps = before ++ .suppress :: after →
        ∃ late, late <+: ((new hasListener).stepAll fails before).inFlight.toList ∧
          c.received = ((new hasListener).stepAll fails before).received ++ late) ∧
      ∃ deliveries, (∀ s ∈ deliveries, s.isDelivery = true) ∧
        c.Allows fails (deliveries ++ [.close true]) := by
  intro c
  have htold : c.Told fails (emittedBefore steps) := (told_new fails hasListener).stepAll steps
  refine ⟨htold.taken, htold.failures, fun hlistener hopen hclose => ?_,
    fun before after hsteps => ?_, ?_⟩
  · obtain ⟨before, after, rfl⟩ := List.append_of_mem hclose
    have hopenBefore := fun s hs => hopen s (List.mem_append_left _ hs)
    have hopenAfter := fun s hs => hopen s (List.mem_append_right _ (List.mem_cons_of_mem _ hs))
    have hallowedClose := (allows_append.mp hallowed).2
    -- The state in which the closing returns.
    have htoldBefore := (told_new fails hasListener).stepAll before
    have haccepts : ((new hasListener).stepAll fails before).accepts = true := by
      rw [accepts_stepAll hopenBefore, hlistener]
      rfl
    have hreceived :=
      htoldBefore.received_of_closed haccepts hallowedClose.1 hallowedClose hopenAfter
    rw [← stepAll_append] at hreceived
    refine hreceived.trans ?_
    show emittedBefore before ++ emitted (.close true :: after) = _
    rw [emittedBefore_eq_emitted hopenBefore]
    exact List.filterMap_append.symm
  · obtain ⟨late, hlate, heq⟩ := exists_late fails
      (c := ((new hasListener).stepAll fails before).suppress) rfl after
    refine ⟨late, hlate, ?_⟩
    show ((new hasListener).stepAll fails steps).received = _
    rw [hsteps, stepAll_append]
    exact heq
  · obtain ⟨deliveries, hdeliveries, hallowed', -⟩ := exists_deliveries fails c
    exact ⟨deliveries, hdeliveries, hallowed'⟩

/-- The channel is suppressed while the second event is in flight: that one still arrives, and the third
does not. Without suppression everything arrives, although the listener fails on the first event. -/
theorem delivered_in_order_suppressed :
    let fails : Nat → Bool := (· == 1)
    let before : List (Step Nat) := [.emit 1, .emit 2, .emit 3, .begin, .finish, .begin]
    let after : List (Step Nat) := [.emit 4, .finish, .begin, .close true]
    let whole : List (Step Nat) := [.emit 1, .begin, .emit 2, .finish, .begin, .finish, .close true]
    let c := (new true).stepAll fails (before ++ .suppress :: after)
    (new true).Allows fails (before ++ .suppress :: after) ∧
      c.received ++ c.inFlight.toList <+: [1, 2, 3] ∧
      (∃ late, late <+: [2] ∧ c.received = [1] ++ late) ∧
      c.received = [1, 2] ∧
      (new true).Allows fails whole ∧
      ((new true).stepAll fails whole).received = [1, 2] ∧
      ((new true).stepAll fails whole).failures = [1] := by
  intro fails before after whole c
  have hallowed : (new true).Allows fails (before ++ .suppress :: after) := by decide
  have hallowed' : (new true).Allows fails whole := by decide
  obtain ⟨hfront, -, -, hlate, -⟩ := delivered_in_order fails true _ hallowed
  obtain ⟨-, hfailures, hall, -⟩ := delivered_in_order fails true whole hallowed'
  have hreceived := hall rfl (by decide) (by simp [whole])
  have hfailed : ((new true).stepAll fails whole).failures = [1] := by
    rw [hfailures, hreceived]
    rfl
  exact ⟨hallowed, hfront, hlate before after rfl, rfl, hallowed', hreceived, hfailed⟩

end CodeAtlas.Channel
