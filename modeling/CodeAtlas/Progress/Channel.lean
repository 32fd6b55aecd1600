import CodeAtlas.Progress.Event

set_option autoImplicit false

/-! # The progress channel

Events are handed to the listener by one deliverer that takes them in the order in which they were
emitted. Emitting does not wait for delivery. Delivery has two steps: the deliverer takes the
oldest event and looks whether the channel is suppressed, and then calls the listener. A listener
that fails does not disturb the channel. A channel may be closed with or without waiting for what is
still to be delivered; once closed, it refuses every event that would have to be delivered.
-/

namespace CodeAtlas

structure Channel (ε : Type) where
  /-- Is there anybody to deliver to? -/
  hasListener : Bool
  /-- Emitted and not yet taken for delivery, oldest first. -/
  pending : List ε := []
  /-- Taken for delivery after the check, and not yet passed to the listener. -/
  inFlight : Option ε := none
  suppressed : Bool := false
  closed : Bool := false
  /-- Passed to the listener, oldest first. -/
  received : List ε := []
  /-- Those on which the listener failed. -/
  failures : List ε := []

namespace Channel

variable {ε : Type}

inductive Step (ε : Type) where
  | emit (e : ε)
  | begin
  | finish
  | suppress
  /-- Closing returns, at once or after waiting for all deliveries. -/
  | close (wait : Bool)

/-- Is an event that is emitted now kept for delivery? -/
def accepts (c : Channel ε) : Bool := c.hasListener && !c.suppressed

/-- Emit an event. Without a listener, or once the channel is suppressed, it is dropped. -/
def emit (c : Channel ε) (e : ε) : Channel ε :=
  if c.accepts then { c with pending := c.pending ++ [e] } else c

/-- Take the oldest event for delivery; a suppressed channel drops it. -/
def begin (c : Channel ε) : Channel ε :=
  match c.inFlight, c.pending with
  | none, e :: rest =>
    { c with pending := rest, inFlight := if c.suppressed then none else some e }
  | _, _ => c

/-- Pass the event taken to the listener, which may fail on it. -/
def finish (fails : ε → Bool) (c : Channel ε) : Channel ε :=
  match c.inFlight with
  | none => c
  | some e =>
    { c with
      inFlight := none
      received := c.received ++ [e]
      failures := if fails e then c.failures ++ [e] else c.failures }

def suppress (c : Channel ε) : Channel ε := { c with suppressed := true }

def deliver (fails : ε → Bool) (c : Channel ε) : Channel ε := (c.finish fails).begin.finish fails

def drain (fails : ε → Bool) (c : Channel ε) : Channel ε :=
  (c.pending.length + 1).repeat (deliver fails) c

def close (fails : ε → Bool) (c : Channel ε) : Channel ε := { c.drain fails with closed := true }

/-- Can a step be taken? A closed channel refuses an event that it would have to deliver, delivery
needs something to deliver, and waiting needs nothing left. -/
def enabled (c : Channel ε) : Step ε → Bool
  | .emit _ => !(c.closed && c.accepts)
  | .begin => c.inFlight.isNone && !c.pending.isEmpty
  | .finish => c.inFlight.isSome
  | .suppress => true
  | .close wait => !wait || (c.pending.isEmpty && c.inFlight.isNone)

def step (fails : ε → Bool) (c : Channel ε) : Step ε → Channel ε
  | .emit e => c.emit e
  | .begin => c.begin
  | .finish => c.finish fails
  | .suppress => c.suppress
  | .close _ => { c with closed := true }

/-- A channel with a listener, or without one. -/
def new (hasListener : Bool) : Channel ε := { hasListener := hasListener }

/-- What a listener receives of events that are emitted one after another, the channel then being
closed. -/
def receive (hasListener : Bool) (fails : ε → Bool) (events : List ε) : List ε :=
  ((events.foldl emit (new hasListener)).close fails).received

end Channel

end CodeAtlas
