/-!
Outboxes: outbound messages collected during a step and sent together at its end.

Putting a key again replaces its value and keeps its place, so a flush sends each key once, in
the order of its first put, with its last value.
-/

namespace CoSimBridge.Delivery

/-- Queued messages, one per key, in the order of each key's first put. -/
structure Outbox (κ ν : Type) where
  entries : List (κ × ν) := []

namespace Outbox

variable {κ ν : Type} [BEq κ]

/-- Queues a value for a key; answers whether the key was queued already. -/
def put (o : Outbox κ ν) (k : κ) (v : ν) : Outbox κ ν × Bool :=
  if o.entries.any (·.1 == k) then
    (⟨o.entries.map fun e => if e.1 == k then (k, v) else e⟩, true)
  else (⟨o.entries ++ [(k, v)]⟩, false)

/-- The number of queued keys. -/
def size (o : Outbox κ ν) : Nat := o.entries.length

/-- Sends queued messages in order until a send fails; `send` is told each message's place,
from 1. Answers the messages handed to `send` and the failure, if any. -/
def sendUntilFailure {ε : Type} (send : Nat → κ → ν → Option ε) (place : Nat) :
    List (κ × ν) → List (κ × ν) × Option ε
  | [] => ([], none)
  | (k, v) :: rest =>
    match send place k v with
    | some e => ([(k, v)], some e)
    | none =>
      let (sent, failure) := sendUntilFailure send (place + 1) rest
      ((k, v) :: sent, failure)

/-- Empties the outbox and sends what it held, stopping at the first failure. -/
def flush {ε : Type} (o : Outbox κ ν) (send : Nat → κ → ν → Option ε) :
    (List (κ × ν) × Option ε) × Outbox κ ν :=
  (sendUntilFailure send 1 o.entries, {})

end Outbox

end CoSimBridge.Delivery
