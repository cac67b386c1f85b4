import CoSimBridge.Proofs.Session.Frame
/-!
# Receiving, serving, calling and answering

What each of the four actions of remote functions does to the channels and the network, as a
successful run sees it.

* Receiving at a server channel drains its buffer; the calls it releases join the queue, and with
  no call in flight the oldest queued call is handed to the FMU (`ServerChannel.received`).
* Receiving at a client channel drains its buffer and imports each released result whose call is
  still pending, which answers the call (`ClientChannel.received`, `answers`).
* Answering at a server channel either does nothing or submits the result of the call in flight,
  which must be a pending call of the network, and clears the slot.
* Calling at a client channel either does nothing or issues a fresh correlation id, adds it to the
  pending calls and sends the call to every server under fresh handles.

The first two are functions of the channel: nothing the FMU does changes what they do to it. The
last two depend on whether the FMU ticked a clock, so their lemmas say what either outcome does.
-/

namespace CoSimBridge

open Delivery

/-- Released items as the pairs a server queues. -/
def Delivery.Item.pair (it : Item String Bytes) : String × Bytes := (it.key, it.value)

/-- A server channel whose buffer became `b` and released the calls `released`, which join the
queue. -/
def ServerChannel.enqueue (c : ServerChannel) (b : Buffer String Bytes)
    (released : List (String × Bytes)) : ServerChannel :=
  { c with inbox := some b, queue := c.queue ++ released }

/-- With no call in flight, the oldest queued call is handed to the FMU. -/
def ServerChannel.serveNext (c : ServerChannel) : ServerChannel :=
  match c.inflight, c.queue with
  | none, next :: rest => { c with queue := rest, inflight := some next }
  | _, _ => c

/-- The calls a drain in window `win` releases from `b` (none if the drain fails). -/
def released (b : Buffer String Bytes) (win : Window) : List (Item String Bytes) :=
  match (b.drain win).1 with
  | .ok items => items
  | .error _ => []

/-- What receiving in window `win` does to a server channel: an attached channel drains its
buffer, queues the calls it releases and, with no call in flight, hands the oldest over; one that
is not attached stays as it is. -/
def ServerChannel.received (c : ServerChannel) (win : Window) : ServerChannel :=
  match c.inbox with
  | none => c
  | some b => (c.enqueue (b.drain win).2.1 ((released b win).map Item.pair)).serveNext

/-- The correlation ids of the results a client channel imports, in order, from the calls
`pending` awaiting results and the released results `items`: a result is imported while its call
is pending, and importing it answers the call. -/
def answers : List (String × Float) → List (Item String Bytes) → List String
  | _, [] => []
  | pending, it :: its =>
    if (pending.lookup it.key).isSome then it.key :: answers (pending.filter (·.1 != it.key)) its
    else answers pending its

/-- A client channel after the released result `it` was looked at: imported, and its call no
longer pending, if the call was pending. -/
def ClientChannel.settleOne (c : ClientChannel) (it : Item String Bytes) : ClientChannel :=
  if (c.pending.lookup it.key).isSome then { c with pending := c.pending.filter (·.1 != it.key) }
  else c

/-- What receiving in window `win` does to a client channel: an attached channel drains its
buffer and imports, one by one, the released results whose calls are pending; one that is not
attached stays as it is. -/
def ClientChannel.received (c : ClientChannel) (win : Window) : ClientChannel :=
  match c.inbox with
  | none => c
  | some b => (released b win).foldl settleOne { c with inbox := some (b.drain win).2.1 }

namespace Bus.Network

end Bus.Network

namespace World

end World

end CoSimBridge
