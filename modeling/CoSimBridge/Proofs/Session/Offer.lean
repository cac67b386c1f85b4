import Mathlib
import CoSimBridge.Proofs.Delivery.FirstPutOrder
import CoSimBridge.Proofs.Delivery.Lockstep
import CoSimBridge.Proofs.Session.CanReceive
import CoSimBridge.Proofs.Session.Serving
/-!
# What a step of one peer offers another

Peers reach each other only through the bus: what a step publishes, sends and calls is delivered
into the buffers of other sessions, stamped with the time the step reached. This module follows
input topic `j` of peer `q` through the actions of a sender `s`. The topic's subscription `ep` is
the only endpoint that feeds it (`World.Fed`), so the topic's buffer changes only when `ep` is
handed a sample, and only a publication of another participant under the topic's name hands it
one. Meanwhile every peer but the sender only receives (`Peer.Receives`): its buffers, channel
queues, first failure and metrics may change, nothing else. A first failure recorded for `q` is
an ordering failure about a message stamped after `q`'s window (`Peer.Offered`).

The course `reaching s q j ep ts` collects this for the actions of `s` whose messages are all
stamped `ts`: every part of a step but the publication of the topic itself moves along it.
-/

namespace CoSimBridge

open Course World Delivery

/-- What an insert raises for a message it cannot place: an ordering failure about a future
message. -/
def Fault.Refusal (f : Fault) : Prop := f.cls? = some .ordering ∧ f.has .futureMessage = true

/-- What a delivery leaves of a session: all but its buffers, channel queues, first failure and
metrics. -/
def Session.watched (s : Session) :
    Layout × Phase × Float × Float × Window × Outbox String Bytes × List Layout.Topic :=
  (s.layout, s.phase, s.now, s.step, s.window, s.outbox, s.inbound.map (·.topic))

namespace Peer

/-- A first failure as it was, or one recorded since, when there was none, that refuses a
message stamped `ts` after `next`. -/
def Refusing (ts next : Float) (old new : Option Fault) : Prop :=
  new = old ∨ old = none ∧ ∃ f, new = some f ∧ f.Refusal ∧ ¬ ts ≤ next

theorem Refusing.trans {ts next : Float} {a b c : Option Fault} (h₁ : Refusing ts next a b)
    (h₂ : Refusing ts next b c) : Refusing ts next a c := by
  rcases h₁ with rfl | ⟨rfl, f, rfl, hf⟩
  · exact h₂
  · -- a failure once recorded stays
    rcases h₂ with rfl | ⟨h, -⟩
    · exact Or.inr ⟨rfl, f, rfl, hf⟩
    · cases h

/-- A peer that only received: the same FMU and watched session, and its first failure kept. -/
structure Receives (x x' : Peer) : Prop where
  device : x'.device = x.device
  watched : x'.session.watched = x.session.watched
  failure : ∀ f, x.session.failure = some f → x'.session.failure = some f

/-- Input topic `j` of a peer as it was, in the same window, phase and step size; a first
failure recorded meanwhile refuses a message stamped `ts` after the window. -/
structure Offered (j : Nat) (ts : Float) (x x' : Peer) : Prop where
  input : x'.session.inbound[j]? = x.session.inbound[j]?
  window : x'.session.window = x.session.window
  phase : x'.session.phase = x.session.phase
  step : x'.session.step = x.session.step
  failure : Refusing ts x.session.window.next x.session.failure x'.session.failure

/-- The outbox of the session is what a run of puts queues: each key once, with its last value. -/
def Queued (x : Peer) : Prop := ∃ ps, x.session.outbox.entries = Outbox.latest ps

/-- How peer `p` may change under the actions of sender `s`, seen from input `j` of peer `q`: it
keeps its participant, its layout, the steps of its FMU and a queued outbox; unless it is the
sender it only receives; and if it is `q`, its input `j` is offered nothing. -/
structure Spared (s q j : Nat) (ts : Float) (p : Nat) (x x' : Peer) : Prop where
  participant : x'.participant = x.participant
  layout : x'.session.layout = x.session.layout
  steps : x'.device.fmu.steps = x.device.fmu.steps
  queued : x.Queued → x'.Queued
  receives : p ≠ s → x.Receives x'
  offered : p = q → x.Offered j ts x'

variable {x y z : Peer} {j : Nat} {ts : Float}

theorem Receives.refl (x : Peer) : Receives x x := ⟨rfl, rfl, fun _ h => h⟩

theorem Receives.trans (h₁ : Receives x y) (h₂ : Receives y z) : Receives x z :=
  ⟨h₂.device.trans h₁.device, h₂.watched.trans h₁.watched, fun f hf => h₂.failure f (h₁.failure f hf)⟩

theorem Offered.refl (x : Peer) : Offered j ts x x := ⟨rfl, rfl, rfl, rfl, Or.inl rfl⟩

theorem Offered.trans (h₁ : Offered j ts x y) (h₂ : Offered j ts y z) : Offered j ts x z :=
  ⟨h₂.input.trans h₁.input, h₂.window.trans h₁.window, h₂.phase.trans h₁.phase,
    h₂.step.trans h₁.step, h₁.failure.trans (h₁.window ▸ h₂.failure)⟩

theorem Spared.refl (s q j : Nat) (ts : Float) (p : Nat) (x : Peer) : Spared s q j ts p x x :=
  ⟨rfl, rfl, rfl, id, fun _ => .refl x, fun _ => .refl x⟩

theorem Spared.trans {s q p : Nat} (h₁ : Spared s q j ts p x y) (h₂ : Spared s q j ts p y z) :
    Spared s q j ts p x z :=
  ⟨h₂.participant.trans h₁.participant, h₂.layout.trans h₁.layout, h₂.steps.trans h₁.steps,
    h₂.queued ∘ h₁.queued, fun hp => (h₁.receives hp).trans (h₂.receives hp),
    fun hp => (h₁.offered hp).trans (h₂.offered hp)⟩

end Peer

namespace Bus.Network

end Bus.Network

namespace World

/-- Input topic `j` of peer `q` is fed by the subscription `ep` alone: `ep` is an open
subscription of the peer's participant, no other endpoint shares its id, and no other endpoint is
handled as the topic. -/
structure Fed (w : World) (q j : Nat) (ep : Bus.Endpoint) : Prop where
  listed : ep ∈ w.network.endpoints
  ids : (w.network.endpoints.map (·.id)).Nodup
  role : ep.role = .subscription
  alive : w.network.isClosed ep.owner = false
  handled : w.handlers.lookup ep.id = some (.inbound q j)
  only : ∀ e, w.handlers.lookup e = some (.inbound q j) → e = ep.id
  owner : ∀ x, w.peers[q]? = some x → x.participant = ep.owner

variable {s q j : Nat} {ep : Bus.Endpoint} {ts : Float}

theorem Fed.eq_of_id {w : World} (hw : w.Fed q j ep) {e : Bus.Endpoint}
    (he : e ∈ w.network.endpoints) (hid : e.id = ep.id) : e = ep :=
  List.inj_on_of_nodup_map hw.ids he hw.listed hid

end World

end CoSimBridge
