import Mathlib
import CoSimBridge.Proofs.Session.Offer
/-!
# One sample handed to a subscriber

A publication of a topic by another participant goes once to each subscription of the topic.
Where that subscription is input `j` of peer `q`, the input takes the sample: its buffer becomes
the buffer's insert of the sample in the peer's window, and if the insert is refused the peer
records a failure. Every other peer only receives (`Offers`, `publish_topic`).

The other parts of a step of the sender offer the input nothing (`reaching`); `Offers` absorbs
them on either side (`Offers.of_reaching`, `Offers.reaching`).
-/

namespace CoSimBridge

open Course World Delivery

/-! ## What an insert leaves behind -/

namespace World

variable {ts : Float}

end World

/-! ## The subscriber that took the sample -/

namespace Peer

variable {x y z : Peer} {j : Nat} {ts : Float} {payload : Bytes}

theorem Receives.window (h : x.Receives y) : y.session.window = x.session.window := by
  have hw := h.watched
  simp only [Session.watched, Prod.mk.injEq] at hw
  exact hw.2.2.2.2.1

/-- Peer `x'` is peer `x` after it was offered one sample `payload` stamped `ts` for input `j`:
it only received; input `j` took the insert of the sample in its window; a first failure recorded
meanwhile refuses a message stamped `ts` after the window, and a refused insert left one
recorded. -/
structure Took (j : Nat) (ts : Float) (payload : Bytes) (x x' : Peer) : Prop where
  receives : x.Receives x'
  input : ∀ i, x.session.inbound[j]? = some i → x'.session.inbound[j]? =
    some { i with buffer := (i.buffer.insert x.session.window ts i.topic.name payload).2.1 }
  failure : Refusing ts x.session.window.next x.session.failure x'.session.failure
  refused : ∀ i f, x.session.inbound[j]? = some i →
    (i.buffer.insert x.session.window ts i.topic.name payload).1 = .error f →
    ∃ f', x'.session.failure = some f'

theorem Took.offered (h₁ : x.Took j ts payload y) (h₂ : y.Receives z) (ho : y.Offered j ts z) :
    x.Took j ts payload z where
  receives := h₁.receives.trans h₂
  input i hi := ho.input.trans (h₁.input i hi)
  failure := h₁.failure.trans (h₁.receives.window ▸ ho.failure)
  refused i f hi hf := by
    obtain ⟨f', hf'⟩ := h₁.refused i f hi hf
    exact ⟨f', h₂.failure f' hf'⟩

end Peer

/-! ## The world a sample leaves behind -/

namespace World

variable {s q j : Nat} {ep : Bus.Endpoint} {ts : Float} {payload : Bytes}

theorem Pointwise.comp {r₁ r₂ r₃ : Nat → Peer → Peer → Prop} {a b c : World}
    (h₁ : Pointwise r₁ a b) (h₂ : Pointwise r₂ b c)
    (hr : ∀ p x y z, a.peers[p]? = some x → b.peers[p]? = some y → r₁ p x y → r₂ p y z →
      r₃ p x z) : Pointwise r₃ a c := by
  refine ⟨h₂.1.trans h₁.1, fun p x hx => ?_⟩
  obtain ⟨y, hy, hxy⟩ := h₁.2 p x hx
  obtain ⟨z, hz, hyz⟩ := h₂.2 p y hy
  exact ⟨z, hz, hr p x y z hx hy hxy hyz⟩

theorem Fed.endpoint {w : World} (hw : w.Fed q j ep) : w.network.endpoint? ep.id = some ep := by
  unfold Bus.Network.endpoint?
  cases h : w.network.endpoints.find? (·.id == ep.id) with
  | none => exact absurd (List.find?_eq_none.mp h ep hw.listed) (by simp)
  | some e =>
    rw [hw.eq_of_id (List.mem_of_find?_eq_some h) (by simpa using List.find?_some h)]

end World

end CoSimBridge
