import Mathlib
import CoSimBridge.Proofs.Session.Subscriber
import CoSimBridge.Proofs.Delivery.Lockstep
/-!
# Two sessions in lock-step over one bus

Peer `a` publishes, at every step, the topic that input `j` of peer `b` subscribes to; both
start at one time with one step size, and the input's buffer refuses messages from the future.
Their steps interleave in any order (`Interleaved`). A step of `a` hands `b` one sample stamped
with the time it reached; `b`'s buffer refuses it, and `b` records the refusal, exactly when
`a` had taken more steps than `b`. Until then `b`'s buffer holds the samples not yet imported,
and a drain in `b`'s window hands out the newest one due and nothing else (`Samples`,
`Paired`).
-/

namespace CoSimBridge

open Course World Delivery

namespace Peer

/-- The time of peer `x` after `k` more steps, the step size added in floating point as the
session adds it. -/
def timeAfter (x : Peer) (k : Nat) : Float := (· + x.session.step)^[k] x.session.now

theorem Receives.phase {x y : Peer} (h : x.Receives y) : y.session.phase = x.session.phase := by
  have hw := h.watched
  simp only [Session.watched, Prod.mk.injEq] at hw
  exact hw.2.1

variable {x x' : Peer} {j nA nB n : Nat} {t : Nat → Float} {payload : Bytes} {i : Inbound}
  {pending : List (Item String Bytes)}

end Peer

namespace Delivery

/-- Messages of one key not yet imported, stamped with the times `t k` of steps `0 < k ≤ n` of
their publisher, in the order of their stamps. -/
def Samples (t : Nat → Float) (key : String) (n : Nat) (pending : List (Item String Bytes)) :
    Prop :=
  (∀ m ∈ pending, m.key = key ∧ ∃ k, 0 < k ∧ k ≤ n ∧ m.ts = t k) ∧
    pending.Pairwise fun m m' => m.ts < m'.ts

namespace Samples

variable {t : Nat → Float} {key : String} {n N : Nat} {pending : List (Item String Bytes)}

theorem nil : Samples t key n [] := ⟨by simp, List.Pairwise.nil⟩

theorem filter (h : Samples t key n pending) (p : Item String Bytes → Bool) :
    Samples t key n (pending.filter p) :=
  ⟨fun m hm => h.1 m (List.mem_of_mem_filter hm), h.2.filter p⟩

/-- The sample of the publisher's next step comes after every pending one. -/
theorem append (h : Samples t key n pending) (hrise : Rising t N) (hn : n + 1 ≤ N) (v : Bytes) :
    Samples t key (n + 1) (pending ++ [⟨t (n + 1), key, v⟩]) := by
  refine ⟨fun m hm => ?_, List.pairwise_append.mpr ⟨h.2, List.pairwise_singleton _ _, ?_⟩⟩
  · rcases List.mem_append.mp hm with hm | hm
    · obtain ⟨hk, k, hk0, hkn, hts⟩ := h.1 m hm
      exact ⟨hk, k, hk0, by omega, hts⟩
    · rw [List.mem_singleton.mp hm]
      exact ⟨rfl, n + 1, by omega, le_rfl, rfl⟩
  · intro m hm m' hm'
    rw [List.mem_singleton.mp hm']
    obtain ⟨-, k, hk0, hkn, hts⟩ := h.1 m hm
    rw [hts]
    exact (hrise.lt_iff (by omega) (by omega) hn).mpr (by omega)

theorem single {k : Nat} (hk : 0 < k) (v : Bytes) : Samples t key k [⟨t k, key, v⟩] :=
  ⟨by simpa using ⟨k, hk, le_rfl, rfl⟩, List.pairwise_singleton _ _⟩

/-- A drain of a buffer holding the samples hands out the newest one released, and nothing if
none is. -/
theorem released (h : Samples t key n pending) {b : Buffer String Bytes} {now next next' : Float}
    (ht : Tracks .rejectFuture b ⟨now, next⟩ pending) (hw : now < next) (hw' : next < next') :
    ∃ items, (b.drain ⟨now, next⟩).1 = .ok items ∧ items.map (·.value) =
      (((pending.filter fun m => decide (m.ts ≤ now)).getLast?).map (·.value)).toList := by
  obtain ⟨⟨items, hitems, hdel⟩, -⟩ := ht.drain hw hw'
  exact ⟨items, hitems, hdel.newest (fun m hm => (h.1 m (List.mem_of_mem_filter hm)).1)
    (h.2.filter _)⟩

end Samples

end Delivery

namespace World

variable {a b j : Nat} {ep : Bus.Endpoint} {w₀ : World}

/-- Peer `a` about to publish, at every step, the topic that input `j` of peer `b` subscribes to
through endpoint `ep`, from another participant; `b` initialized or running with no failure, at
the time of `a` with its step size and in the window of its next step, the input empty and
refusing messages from the future. -/
structure Lockstep (a b j : Nat) (ep : Bus.Endpoint) (w₀ : World) (xa xb : Peer) (i₀ : Inbound) :
    Prop where
  distinct : b ≠ a
  sane : w₀.Sane
  fed : w₀.Fed b j ep
  publisher : w₀.peers[a]? = some xa
  subscriber : w₀.peers[b]? = some xb
  input : xb.session.inbound[j]? = some i₀
  queued : xa.Queued
  exports : xa.Exports ep.name
  foreign : xa.participant ≠ ep.owner
  created : xb.session.phase ≠ .created
  live : xb.session.phase ≠ .terminated
  failure : xb.session.failure = none
  start : xb.session.now = xa.session.now
  pace : xb.session.step = xa.session.step
  window : xb.session.window = ⟨xa.session.now, xa.session.now + xa.session.step⟩
  empty : Tracks .rejectFuture i₀.buffer xb.session.window []

/-- What a run keeps of publisher `ya` and subscriber `yb`, whose input `j` is `i`, after `nA`
and `nB` steps from the start `xa`: `a` still publishes the topic from another participant; `b`
is initialized or running, in the window of its step `nB`; and either it has recorded no
failure and its buffer holds the samples not yet imported, or it has recorded a refusal. -/
structure Paired (ep : Bus.Endpoint) (xa : Peer) (i₀ : Inbound) (nA nB : Nat) (ya yb : Peer)
    (i : Inbound) : Prop where
  topic : i.topic = i₀.topic
  queued : ya.Queued
  exports : ya.Exports ep.name
  foreign : ya.participant ≠ ep.owner
  created : yb.session.phase ≠ .created
  live : yb.session.phase ≠ .terminated
  window : yb.session.window = ⟨xa.timeAfter nB, xa.timeAfter (nB + 1)⟩
  failure : (yb.session.failure = none ∧ ∃ pending,
      Tracks .rejectFuture i.buffer yb.session.window pending ∧
        Samples xa.timeAfter i₀.topic.name nA pending) ∨
    ∃ f, yb.session.failure = some f ∧ f.Refusal

namespace Paired

variable {xa : Peer} {i₀ : Inbound} {nA nB : Nat} {ya yb : Peer} {i : Inbound}

/-- With no failure recorded, the buffer holds the pending samples. -/
theorem pending (hp : Paired ep xa i₀ nA nB ya yb i) (hf : yb.session.failure = none) :
    ∃ pending, Tracks .rejectFuture i.buffer yb.session.window pending ∧
      Samples xa.timeAfter i₀.topic.name nA pending := by
  rcases hp.failure with ⟨-, h⟩ | ⟨f, hf', -⟩
  · exact h
  · rw [hf] at hf'
    cases hf'

/-- A recorded failure is a refusal. -/
theorem refusal (hp : Paired ep xa i₀ nA nB ya yb i) {f : Fault}
    (hf : yb.session.failure = some f) : f.Refusal := by
  rcases hp.failure with ⟨hf', -⟩ | ⟨f', hf', hr⟩
  · rw [hf] at hf'
    cases hf'
  · rw [hf] at hf'
    cases hf'
    exact hr

end Paired

namespace Lockstep

variable {xa xb : Peer} {i₀ : Inbound}

/-- Along a run a peer that started at the time and with the step size of `a` stays at the time
of `a` after as many steps as its FMU has taken since. -/
theorem clock (hset : Lockstep a b j ep w₀ xa xb i₀) {w : World} (hreach : Reachable w₀ w)
    {p : Nat} {x x' : Peer} (hx : w₀.peers[p]? = some x) (hx' : w.peers[p]? = some x')
    (hnow : x.session.now = xa.session.now) (hstep : x.session.step = xa.session.step) :
    x'.session.now = xa.timeAfter (x'.device.fmu.steps - x.device.fmu.steps) ∧
      x'.session.step = xa.session.step ∧ x.device.fmu.steps ≤ x'.device.fmu.steps := by
  obtain ⟨-, hah⟩ := hreach.sane_ahead hset.sane
  obtain ⟨x'', hx'', hA⟩ := hah.2 p x hx
  rw [hx'] at hx''
  cases hx''
  refine ⟨?_, hA.step.trans hstep, hA.steps⟩
  rw [hA.now, hnow, hstep]
  rfl

end Lockstep

end World

end CoSimBridge
