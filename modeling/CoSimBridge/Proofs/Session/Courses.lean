import Mathlib
import CoSimBridge.Proofs.Session.Moves
import CoSimBridge.Proofs.Session.Frame
/-!
# How actions of the world move the sessions

The courses of the world speak of peers, one at a time. `Peer.Still` is what an action does to a
session whose lifecycle it leaves alone: the same phase, time, step size and FMU clock, the
first failure kept, and the buffers of a terminated session untouched. `Peer.Ahead` is what a
call may do to the session it is made on: the phase only forward, and the time moved by one step
size for each step the FMU took. A peer is sane when a terminated session has only terminated
buffers, and its FMU has terminated exactly when the session has.

Every action on the bus keeps every peer still (`still`); so do the steps of publishing what
the FMU produced. Releasing what is due into the FMU changes the buffers of the session it runs
for, and keeps it still only while that session is live (`live`). A call on one session moves
that session ahead and keeps the others still (`around`).
-/

namespace CoSimBridge

open Course Delivery Layout

/-- The place of a phase on the way from created to terminated. -/
def Phase.rank : Phase → Nat
  | .created => 0
  | .initialized => 1
  | .running => 2
  | .terminated => 3

theorem Phase.eq_terminated_of_rank {φ : Phase} (h : Phase.terminated.rank ≤ φ.rank) :
    φ = .terminated := by
  cases φ <;> simp_all [Phase.rank]

/-- A message after termination is discarded, and the buffer stays as it was. -/
theorem Buffer.insert_terminated {κ ν : Type} [BEq κ] {b : Buffer κ ν} (h : b.terminated = true)
    (w : Window) (ts : Float) (k : κ) (v : ν) : b.insert w ts k v = (.ok (), b, [.discarded]) := by
  unfold Buffer.insert
  rw [if_pos h]

namespace Session

/-- The delivery buffers of a session: one per input topic, and the inbox of every CAN
controller and remote function once it is attached. -/
def buffers (s : Session) :
    List (Buffer String Bytes) × List (Option (Buffer (UInt32 × UInt32) Can.Operation)) ×
      List (Option (Buffer String Bytes)) × List (Option (Buffer String Bytes)) :=
  (s.inbound.map (·.buffer), s.cans.map (·.inbox), s.clients.map (·.inbox),
    s.servers.map (·.inbox))

/-- Every buffer of the session is terminated. -/
def Closed (s : Session) : Prop :=
  (∀ b ∈ s.buffers.1, b.terminated = true) ∧
    (∀ o ∈ s.buffers.2.1, ∀ b ∈ o, b.terminated = true) ∧
    (∀ o ∈ s.buffers.2.2.1, ∀ b ∈ o, b.terminated = true) ∧
    (∀ o ∈ s.buffers.2.2.2, ∀ b ∈ o, b.terminated = true)

theorem Closed.of_buffers {s s' : Session} (hc : s.Closed) (h : s'.buffers = s.buffers) :
    s'.Closed := by
  unfold Closed
  rw [h]
  exact hc

/-- What the lifecycle of a session reads: its phase, first failure, time and step size. -/
def clock (s : Session) : Phase × Option Fault × Float × Float := (s.phase, s.failure, s.now, s.step)

/-- A change of a session that its lifecycle cannot see. -/
def Clerical (f : Session → Session) : Prop := ∀ s, (f s).clock = s.clock

end Session

namespace Peer

/-- A peer whose lifecycle an action leaves alone: the same phase, time, step size, FMU steps
and FMU termination, the first failure kept, and a terminated session's buffers untouched. -/
structure Still (x x' : Peer) : Prop where
  phase : x'.session.phase = x.session.phase
  failure : ∀ f, x.session.failure = some f → x'.session.failure = some f
  now : x'.session.now = x.session.now
  step : x'.session.step = x.session.step
  steps : x'.device.fmu.steps = x.device.fmu.steps
  fmu : x'.device.fmu.terminated = x.device.fmu.terminated
  frozen : x.session.phase = .terminated → x'.session.buffers = x.session.buffers

/-- How a call may move the peer it is made on: the phase only forward, the first failure
kept, the step size fixed, the time moved by one step size for each step the FMU took, the FMU
terminated only together with the session, and a terminated session's buffers untouched. -/
structure Ahead (x x' : Peer) : Prop where
  phase : x.session.phase.rank ≤ x'.session.phase.rank
  failure : ∀ f, x.session.failure = some f → x'.session.failure = some f
  step : x'.session.step = x.session.step
  steps : x.device.fmu.steps ≤ x'.device.fmu.steps
  now : x'.session.now =
    (· + x.session.step)^[x'.device.fmu.steps - x.device.fmu.steps] x.session.now
  fmu : x.session.phase = .terminated ∨ x'.session.phase ≠ .terminated →
    x'.device.fmu.terminated = x.device.fmu.terminated
  frozen : x.session.phase = .terminated → x'.session.buffers = x.session.buffers

/-- A terminated session has only terminated buffers, and its FMU has terminated exactly when the
session has. -/
structure Sane (x : Peer) : Prop where
  closed : x.session.phase = .terminated → x.session.Closed
  live : x.session.phase ≠ .terminated → x.device.fmu.terminated = false
  dead : x.session.phase = .terminated → x.device.fmu.terminated = true

variable {x y z : Peer}

theorem Still.refl (x : Peer) : Still x x :=
  ⟨rfl, fun _ h => h, rfl, rfl, rfl, rfl, fun _ => rfl⟩

theorem Still.trans (h₁ : Still x y) (h₂ : Still y z) : Still x z where
  phase := h₂.phase.trans h₁.phase
  failure f hf := h₂.failure f (h₁.failure f hf)
  now := h₂.now.trans h₁.now
  step := h₂.step.trans h₁.step
  steps := h₂.steps.trans h₁.steps
  fmu := h₂.fmu.trans h₁.fmu
  frozen ht := (h₂.frozen (h₁.phase.trans ht)).trans (h₁.frozen ht)

theorem Ahead.refl (x : Peer) : Ahead x x :=
  ⟨le_rfl, fun _ h => h, rfl, le_rfl, by simp, fun _ => rfl, fun _ => rfl⟩

theorem Ahead.trans (h₁ : Ahead x y) (h₂ : Ahead y z) : Ahead x z where
  phase := h₁.phase.trans h₂.phase
  failure f hf := h₂.failure f (h₁.failure f hf)
  step := h₂.step.trans h₁.step
  steps := h₁.steps.trans h₂.steps
  now := by
    -- the steps of the two stretches add up, and the step size is the same throughout
    have hsteps : z.device.fmu.steps - x.device.fmu.steps =
        (z.device.fmu.steps - y.device.fmu.steps) + (y.device.fmu.steps - x.device.fmu.steps) := by
      have := h₁.steps
      have := h₂.steps
      omega
    rw [h₂.now, h₁.step, h₁.now, hsteps, Function.iterate_add_apply]
  fmu h := by
    -- a session between a terminated one and a later one is terminated, and one before a live
    -- one is live
    rcases h with ht | hz
    · have hy : y.session.phase = .terminated := Phase.eq_terminated_of_rank (ht ▸ h₁.phase)
      exact (h₂.fmu (.inl hy)).trans (h₁.fmu (.inl ht))
    · have hy : y.session.phase ≠ .terminated := fun hy =>
        hz (Phase.eq_terminated_of_rank (hy ▸ h₂.phase))
      exact (h₂.fmu (.inr hz)).trans (h₁.fmu (.inr hy))
  frozen ht := by
    have hy : y.session.phase = .terminated := Phase.eq_terminated_of_rank (ht ▸ h₁.phase)
    exact (h₂.frozen hy).trans (h₁.frozen ht)

theorem Still.ahead (h : Still x y) : Ahead x y where
  phase := h.phase ▸ le_rfl
  failure := h.failure
  step := h.step
  steps := h.steps.ge
  now := by simp [h.steps, h.now]
  fmu _ := h.fmu
  frozen := h.frozen

/-- A still peer stays sane. -/
theorem Sane.of_still (hx : x.Sane) (h : Still x y) : y.Sane where
  closed ht := (hx.closed (h.phase ▸ ht)).of_buffers (h.frozen (h.phase ▸ ht))
  live ht := h.fmu.trans (hx.live (h.phase ▸ ht))
  dead ht := h.fmu.trans (hx.dead (h.phase ▸ ht))

/-- A change of the session its lifecycle cannot see, which keeps the buffers of a terminated
session. -/
theorem still_of_clerical {f : Session → Session} (hf : Session.Clerical f)
    (hb : x.session.phase = .terminated → (f x.session).buffers = x.session.buffers) :
    Still x { x with session := f x.session } := by
  have h := hf x.session
  simp only [Session.clock, Prod.mk.injEq] at h
  obtain ⟨hp, hfail, hn, hs⟩ := h
  exact ⟨hp, fun _ h => hfail ▸ h, hn, hs, rfl, rfl, hb⟩

end Peer

namespace World

/-! ## Courses of the world -/

/-- Every peer of `w` stands in `r` to the peer at its place in `w'`, and `w'` has no other. -/
def Pointwise (r : Nat → Peer → Peer → Prop) (w w' : World) : Prop :=
  w'.peers.size = w.peers.size ∧
    ∀ (q : Nat) (x : Peer), w.peers[q]? = some x → ∃ x', w'.peers[q]? = some x' ∧ r q x x'

/-- Every peer is sane. -/
def Sane (w : World) : Prop := ∀ (q : Nat) (x : Peer), w.peers[q]? = some x → x.Sane

/-- Peer `p`, if there is one, has not terminated. -/
def Live (p : Nat) (w : World) : Prop :=
  ∀ x : Peer, w.peers[p]? = some x → x.session.phase ≠ .terminated

namespace Pointwise

variable {r r' : Nat → Peer → Peer → Prop}

theorem refl (hr : ∀ q x, r q x x) (w : World) : Pointwise r w w :=
  ⟨rfl, fun q x hx => ⟨x, hx, hr q x⟩⟩

theorem trans (hr : ∀ q x y z, r q x y → r q y z → r q x z) {a b c : World}
    (h₁ : Pointwise r a b) (h₂ : Pointwise r b c) : Pointwise r a c := by
  refine ⟨h₂.1.trans h₁.1, fun q x hx => ?_⟩
  obtain ⟨y, hy, hxy⟩ := h₁.2 q x hx
  obtain ⟨z, hz, hyz⟩ := h₂.2 q y hy
  exact ⟨z, hz, hr q x y z hxy hyz⟩

theorem mono (h : ∀ {q x y}, r q x y → r' q x y) {w w' : World} (hw : Pointwise r w w') :
    Pointwise r' w w' :=
  ⟨hw.1, fun q x hx => (hw.2 q x hx).imp fun _ h' => ⟨h'.1, h h'.2⟩⟩

theorem of_peers (hr : ∀ q x, r q x x) {w w' : World} (h : w'.peers = w.peers) :
    Pointwise r w w' :=
  ⟨by rw [h], fun q x hx => ⟨x, by rw [h]; exact hx, hr q x⟩⟩

/-- Changing one peer in a way `r` allows. -/
theorem modify (hr : ∀ q x, r q x x) {w w' : World} {p : Nat} {g : Peer → Peer}
    (hw : w'.peers = w.peers.modify p g) (hg : ∀ x, w.peers[p]? = some x → r p x (g x)) :
    Pointwise r w w' := by
  unfold Pointwise
  rw [hw]
  refine ⟨Array.size_modify .., fun q x hx => ?_⟩
  rw [Array.getElem?_modify]
  split
  · subst_vars
    exact ⟨g x, by rw [hx]; rfl, hg x hx⟩
  · exact ⟨x, hx, hr q x⟩

/-- Every peer of the later world stands where a peer of the earlier one stood. -/
theorem back {w w' : World} (h : Pointwise r w w') {q : Nat} {y : Peer}
    (hy : w'.peers[q]? = some y) : ∃ x, w.peers[q]? = some x ∧ r q x y := by
  have hq : q < w.peers.size := h.1 ▸ (Array.getElem?_eq_some_iff.mp hy).1
  obtain ⟨y', hy', hxy⟩ := h.2 q _ (Array.getElem?_eq_getElem hq)
  rw [hy] at hy'
  cases hy'
  exact ⟨_, Array.getElem?_eq_getElem hq, hxy⟩

end Pointwise

theorem Sane.of_still {w w' : World} (hw : w.Sane) (h : Pointwise (fun _ => Peer.Still) w w') :
    w'.Sane := by
  intro q y hy
  obtain ⟨x, hx, hxy⟩ := h.back hy
  exact (hw q x hx).of_still hxy

theorem Live.of_still {p : Nat} {w w' : World} (hw : w.Live p)
    (h : Pointwise (fun _ => Peer.Still) w w') : w'.Live p := by
  intro y hy
  obtain ⟨x, hx, hxy⟩ := h.back hy
  rw [hxy.phase]
  exact hw x hx

/-- Every peer still. -/
def still : Course World where
  inv := Sane
  rel := Pointwise fun _ => Peer.Still
  refl := Pointwise.refl fun _ => Peer.Still.refl
  trans := Pointwise.trans fun _ _ _ _ h₁ h₂ => h₁.trans h₂

/-- Every peer still, while peer `p` is live: the buffers of its session may change. -/
def live (p : Nat) : Course World where
  inv w := w.Sane ∧ w.Live p
  rel := Pointwise fun _ => Peer.Still
  refl := Pointwise.refl fun _ => Peer.Still.refl
  trans := Pointwise.trans fun _ _ _ _ h₁ h₂ => h₁.trans h₂

/-- Peer `p` ahead and every other peer still. -/
def around (p : Nat) : Course World where
  inv := Sane
  rel := Pointwise fun q x y => Peer.Ahead x y ∧ (q ≠ p → Peer.Still x y)
  refl := Pointwise.refl fun _ x => ⟨Peer.Ahead.refl x, fun _ => Peer.Still.refl x⟩
  trans := Pointwise.trans fun _ _ _ _ h₁ h₂ =>
    ⟨h₁.1.trans h₂.1, fun hq => (h₁.2 hq).trans (h₂.2 hq)⟩

/-- Every peer ahead. -/
def ahead : Course World where
  inv := Sane
  rel := Pointwise fun _ => Peer.Ahead
  refl := Pointwise.refl fun _ => Peer.Ahead.refl
  trans := Pointwise.trans fun _ _ _ _ h₁ h₂ => h₁.trans h₂

end World

namespace Course

open World

/-- What keeps every peer still keeps them still while peer `p` is live. -/
theorem Moves.live {α : Type} {act : Sim α} (h : still.Moves act) (p : Nat) :
    (World.live p).Moves act :=
  Moves.mono h (fun _ hs => hs.1) fun hs _ hr =>
    ⟨⟨Sane.of_still hs.1 hr, Live.of_still hs.2 hr⟩, hr⟩

theorem MovesS.live {α : Type} {act : StateM World α} (h : still.MovesS act) (p : Nat) :
    (World.live p).MovesS act :=
  MovesS.mono h (fun _ hs => hs.1) fun hs _ hr =>
    ⟨⟨Sane.of_still hs.1 hr, Live.of_still hs.2 hr⟩, hr⟩

theorem Moves.around {α : Type} {act : Sim α} (h : still.Moves act) (p : Nat) :
    (World.around p).Moves act :=
  Moves.mono h (fun _ hs => hs) fun _ hs' hr =>
    ⟨hs', Pointwise.mono (fun hxy => ⟨Peer.Still.ahead hxy, fun _ => hxy⟩) hr⟩

theorem Moves.ahead {α : Type} {p : Nat} {act : Sim α} (h : (World.around p).Moves act) :
    World.ahead.Moves act :=
  Moves.mono h (fun _ hs => hs) fun _ hs' hr => ⟨hs', Pointwise.mono (fun hxy => hxy.1) hr⟩

end Course

namespace World

/-! ## Reading the world and changing one session -/

theorem peers_still {f : World → World} (h : ∀ w, (f w).peers = w.peers) (w : World)
    (hw : still.inv w) : still.inv (f w) ∧ still.rel w (f w) :=
  have hr : still.rel w (f w) := Pointwise.of_peers (fun _ => Peer.Still.refl) (h w)
  ⟨Sane.of_still hw hr, hr⟩

theorem note_still (l : LogLine) : still.MovesS (note l) := MovesS.modify (peers_still fun _ => rfl)

/-- Changing the session of peer `p` in a way that keeps it still. -/
theorem modifySession_leads {w : World} (hw : w.Sane) {p : Nat} {f : Session → Session}
    (h : ∀ x, w.peers[p]? = some x → Peer.Still x { x with session := f x.session }) :
    still.LeadsS w (modifySession p f) :=
  have hr : still.rel w ((modifySession p f).run w).2 :=
    Pointwise.modify (fun _ => Peer.Still.refl) rfl h
  ⟨Sane.of_still hw hr, hr⟩

/-- A change the lifecycle cannot see, which keeps the buffers. -/
theorem modifySession_still {p : Nat} {f : Session → Session} (hf : Session.Clerical f)
    (hb : ∀ s, (f s).buffers = s.buffers) : still.MovesS (modifySession p f) :=
  fun _ hw => modifySession_leads hw fun x _ => Peer.still_of_clerical hf fun _ => hb x.session

/-- A change the lifecycle cannot see, of a session that is live. -/
theorem modifySession_live {p : Nat} {f : Session → Session} (hf : Session.Clerical f) :
    (live p).MovesS (modifySession p f) := fun w hw =>
  have hr : (live p).rel w ((modifySession p f).run w).2 :=
    Pointwise.modify (fun _ => Peer.Still.refl) rfl fun x hx =>
      Peer.still_of_clerical hf fun ht => absurd ht (hw.2 x hx)
  ⟨⟨Sane.of_still hw.1 hr, Live.of_still hw.2 hr⟩, hr⟩

theorem lift_moves {α : Type} {C : Course World} (r : Except Fault α) : C.Moves (World.lift r) := by
  unfold World.lift
  split
  · exact Moves.pure _
  · exact Moves.throw _

theorem within_moves {α : Type} {C : Course World} {ctx : String} {act : Sim α} (h : C.Moves act) :
    C.Moves (within ctx act) :=
  Moves.tryCatch h fun _ => Moves.throw _

theorem peer_moves {C : Course World} (p : Nat) : C.Moves (peer p) := by
  unfold peer
  refine Moves.bind Moves.get fun w => ?_
  split
  · exact Moves.pure _
  · exact Moves.throw _

theorem session_moves {C : Course World} (p : Nat) : C.Moves (session p) :=
  (peer_moves p).bind fun _ => Moves.pure _

/-! ## Buffering and the bus -/

theorem observe_still (p : Nat) (channel : String) (rs : List Report) :
    still.MovesS (observe p channel rs) :=
  modifySession_still (fun _ => rfl) fun _ => rfl

theorem published_still (p : Nat) (channel : String) (n : Nat) :
    still.MovesS (published p channel n) := by
  unfold published
  split
  · exact MovesS.pure _
  · exact modifySession_still (fun _ => rfl) fun _ => rfl

/-- Only the first failure is recorded. -/
theorem fail_still (p : Nat) (f : Fault) : still.MovesS (fail p f) := by
  unfold fail
  refine MovesS.get_bind fun w hw => ?_
  split
  · rename_i x hx
    split
    · rename_i hnone
      refine LeadsS.bind (note_still _ w hw) (modifySession_leads (note_still _ w hw).1 fun y hy => ?_)
      -- the note leaves the peers as they were
      change w.peers[p]? = some y at hy
      rw [hx] at hy
      cases hy
      exact ⟨rfl, fun e he => by simp [he] at hnone, rfl, rfl, rfl, rfl, fun _ => rfl⟩
    · exact MovesS.pure _ w hw
  · exact MovesS.pure _ w hw

theorem buffer_still {κ ν : Type} [BEq κ] (p : Nat) (b : Buffer κ ν) (ts : Float) (k : κ) (v : ν) :
    still.MovesS (buffer p b ts k v) := by
  unfold buffer
  refine MovesS.bind MovesS.get fun w => (observe_still _ _ _).bind fun _ => ?_
  dsimp only
  split
  · exact (fail_still _ _).bind fun _ => MovesS.pure _
  · exact MovesS.pure _

theorem buffer_terminated {κ ν : Type} [BEq κ] {p : Nat} {b : Buffer κ ν} {ts : Float} {k : κ} {v : ν}
    (hb : b.terminated = true) (w : World) : ((buffer p b ts k v).run w).1 = b := by
  simp only [buffer, Buffer.insert_terminated hb]
  rfl

theorem store_leads {κ ν : Type} [BEq κ] {w : World} (hw : w.Sane) {p : Nat} {x : Peer}
    (hx : w.peers[p]? = some x) {B : Buffer κ ν} {ts : Float} {k : κ} {v : ν}
    {put : Buffer κ ν → Session → Session} (hput : ∀ b, Session.Clerical (put b))
    (hB : x.session.phase = .terminated → B.terminated = true)
    (hkeep : ∀ s : Session, s.buffers = x.session.buffers → (put B s).buffers = s.buffers) :
    still.LeadsS w (buffer p B ts k v >>= fun b => modifySession p (put b)) := by
  have hb := buffer_still p B ts k v w hw
  refine hb.bind (modifySession_leads hb.1 fun y hy => Peer.still_of_clerical (hput _) fun ht => ?_)
  -- peer `p` was terminated before buffering, so the buffer was, and it comes back unchanged
  obtain ⟨x', hx', hxy⟩ := hb.2.back hy
  rw [hx] at hx'
  cases hx'
  have hxt : x.session.phase = .terminated := hxy.phase ▸ ht
  rw [buffer_terminated (hB hxt)]
  exact hkeep _ (hxy.frozen hxt)

theorem map_modify_of_map_eq {δ ε : Type} {l l' : List δ} {g : δ → ε} {f : δ → δ} {j : Nat} {a' : δ}
    (hl : l.map g = l'.map g) (ha : l'[j]? = some a') (hf : ∀ a, g (f a) = g a') :
    (l.modify j f).map g = l.map g := by
  have hj : (l.map g)[j]? = some (g a') := by rw [hl, List.getElem?_map, ha]; rfl
  apply List.ext_getElem?
  intro n
  rw [List.getElem?_map, List.getElem?_map, List.getElem?_modify]
  split
  · subst_vars
    cases hla : l[n]? with
    | none => rfl
    | some a =>
      rw [List.getElem?_map, hla, Option.map_some, Option.some.injEq] at hj
      simp [hf, hj]
  · simp

theorem canInsert_still (p j : Nat) (ts : Float) (op : Can.Operation) :
    still.MovesS (deliver.canInsert p j ts op) := by
  unfold deliver.canInsert
  refine MovesS.get_bind fun w hw => ?_
  split
  next x hx =>
    split
    next ch hch =>
      split
      next B hB =>
        refine store_leads hw hx (fun _ _ => rfl)
          (fun ht => (hw p x hx).closed ht |>.2.1 _ (List.mem_map_of_mem (List.mem_of_getElem? hch))
            B (Option.mem_def.mpr hB)) fun s hs => ?_
        simp only [Session.buffers]
        rw [map_modify_of_map_eq (congrArg (·.2.1) hs) hch]
        exact fun _ => hB.symm
      next => exact MovesS.pure _ w hw
    next => exact MovesS.pure _ w hw
  next => exact MovesS.pure _ w hw

theorem deliver_still (e : Nat) (m : Bus.Message) : still.MovesS (deliver e m) := by
  unfold deliver
  refine MovesS.get_bind fun w hw => ?_
  split
  next ep hep =>
    split
    next => exact MovesS.modify (peers_still fun _ => rfl) w hw
    next p j ts payload _ =>
      split
      next x hx =>
        split
        next i hi =>
          refine store_leads hw hx (fun _ _ => rfl)
            (fun ht => (hw p x hx).closed ht |>.1 _ (List.mem_map_of_mem (List.mem_of_getElem? hi)))
            fun s hs => ?_
          simp only [Session.buffers]
          rw [map_modify_of_map_eq (congrArg (·.1) hs) hi]
          exact fun _ => rfl
        next => exact MovesS.pure _ w hw
      next => exact MovesS.pure _ w hw
    next => exact canInsert_still _ _ _ _ w hw
    next => exact canInsert_still _ _ _ _ w hw
    next p j ts correlation payload _ =>
      split
      next x hx =>
        split
        next ch hch =>
          split
          next B hB =>
            refine store_leads hw hx (fun _ _ => rfl)
              (fun ht => (hw p x hx).closed ht |>.2.2.1 _ (List.mem_map_of_mem (List.mem_of_getElem? hch))
                B (Option.mem_def.mpr hB)) fun s hs => ?_
            simp only [Session.buffers]
            rw [map_modify_of_map_eq (congrArg (·.2.2.1) hs) hch]
            exact fun _ => hB.symm
          next => exact MovesS.pure _ w hw
        next => exact MovesS.pure _ w hw
      next => exact MovesS.pure _ w hw
    next p j ts handle args _ =>
      split
      next x hx =>
        split
        next ch hch =>
          split
          next B hB =>
            refine store_leads hw hx (fun _ _ => rfl)
              (fun ht => (hw p x hx).closed ht |>.2.2.2 _ (List.mem_map_of_mem (List.mem_of_getElem? hch))
                B (Option.mem_def.mpr hB)) fun s hs => ?_
            simp only [Session.buffers]
            rw [map_modify_of_map_eq (congrArg (·.2.2.2) hs) hch]
            exact fun _ => hB.symm
          next => exact MovesS.pure _ w hw
        next => exact MovesS.pure _ w hw
      next => exact MovesS.pure _ w hw
    next => exact MovesS.pure _ w hw
  next => exact MovesS.pure _ w hw

theorem perform_still (effects : List Bus.Effect) : still.MovesS (perform effects) := by
  unfold perform
  refine MovesS.forM fun e _ => ?_
  split
  · exact deliver_still _ _
  · exact note_still _

theorem network_still {g : World → World} (h : ∀ w, (g w).peers = w.peers) :
    still.Moves (modify g : Sim PUnit) :=
  Moves.modify (peers_still h)

theorem endpoint_still (id : Nat) : still.Moves (endpoint id) := by
  unfold endpoint
  refine Moves.bind Moves.get fun w => ?_
  split
  · exact Moves.pure _
  · exact Moves.throw _

theorem attach_still (part : Nat) (role : Bus.Role) (name : String) (h : Handler) :
    still.Moves (attach part role name h) := by
  refine Moves.bind Moves.get fun _ => (lift_moves _).bind fun r => ?_
  obtain ⟨n, id⟩ := r
  dsimp only
  exact Moves.bind (network_still fun _ => rfl) fun _ => Moves.pure _

theorem unsubscribe_still (id : Nat) : still.MovesS (unsubscribe id) :=
  MovesS.modify (peers_still fun _ => rfl)

theorem freshId_still : still.MovesS freshId := by
  refine MovesS.bind MovesS.get fun w => ?_
  obtain ⟨n, id⟩ := w.network.fresh
  dsimp only
  exact MovesS.bind (MovesS.modify (peers_still fun _ => rfl)) fun _ => MovesS.pure _

theorem publish_still (part : Nat) (topic : String) (ts : Float) (payload : Bytes) :
    still.Moves (publish part topic ts payload) :=
  Moves.bind Moves.get fun _ => (lift_moves _).bind fun _ => Moves.liftS (perform_still _)

theorem sendFrame_still (ctrl : Nat) (ts : Float) (f : Can.Frame) :
    still.Moves (sendFrame ctrl ts f) :=
  (endpoint_still _).bind fun _ => Moves.bind Moves.get fun _ => (lift_moves _).bind fun _ =>
    Moves.liftS (perform_still _)

theorem callFunction_still (client : Nat) (ts : Float) (correlation : String) (args : Bytes) :
    still.Moves (callFunction client ts correlation args) := by
  refine (endpoint_still _).bind fun _ => Moves.bind Moves.get fun _ => (lift_moves _).bind fun r => ?_
  obtain ⟨n, effects⟩ := r
  dsimp only
  exact Moves.bind (network_still fun _ => rfl) fun _ => Moves.liftS (perform_still _)

theorem submitResult_still (server : Nat) (ts : Float) (handle : String) (payload : Bytes) :
    still.Moves (submitResult server ts handle payload) := by
  refine (endpoint_still _).bind fun _ => Moves.bind Moves.get fun _ => (lift_moves _).bind fun r => ?_
  obtain ⟨n, effects⟩ := r
  dsimp only
  exact Moves.bind (network_still fun _ => rfl) fun _ => Moves.liftS (perform_still _)

theorem drain_still {κ ν : Type} [BEq κ] (p : Nat) (b : Buffer κ ν) (win : Window) :
    still.MovesS (drain p b win) :=
  (observe_still _ _ _).bind fun _ => MovesS.pure _

/-- A call on the FMU that neither steps nor terminates it keeps every peer still. -/
theorem onDevice_still {α : Type} {p : Nat} {act : Fmu.DeviceM α} (h : Fmu.Device.steady.Moves act) :
    still.Moves (onDevice p act) := by
  intro w hw
  refine (peer_moves p w hw).bind fun x w' hrun _ => ?_
  obtain ⟨hx, rfl⟩ := peer_ok hrun
  have hd := (h { x.device with log := #[] } trivial).2
  split
  next r d hrd =>
    rw [hrd] at hd
    have hr : still.rel w' { w' with
        log := w'.log ++ d.log
        peers := w'.peers.modify p fun y => { y with device := { d with log := #[] } } } :=
      Pointwise.modify (g := fun y => { y with device := { d with log := #[] } })
        (fun _ => Peer.Still.refl) rfl fun y hy => by
      rw [hx] at hy
      cases hy
      exact ⟨rfl, fun _ h => h, rfl, rfl, hd.1, hd.2, fun _ => rfl⟩
    exact Leads.modify_bind ⟨Sane.of_still hw hr, hr⟩ (lift_moves r _ (Sane.of_still hw hr))

/-! ## Releasing what is due, and publishing what the FMU produced -/

theorem canReceive_live (p j : Nat) (win : Window) : (live p).Moves (canReceive p j win) := by
  unfold canReceive
  refine (session_moves p).bind fun s => ?_
  split
  · split
    · refine (Moves.liftS ((drain_still _ _ _).live p)).bind fun rb => ?_
      obtain ⟨r, b⟩ := rb
      refine Moves.bind (Moves.liftS (modifySession_live fun _ => rfl)) fun _ => ?_
      refine (lift_moves _).bind fun items => ?_
      split
      · split
        · exact Moves.pure _
        · exact Moves.bind (Moves.liftS (modifySession_live fun _ => rfl)) fun _ =>
            ((onDevice_still (writeBinary_steady _ _ _)).live p).bind fun _ => Moves.pure _
      · refine (lift_moves _).bind fun _ => ?_
        refine (Moves.liftS ((note_still _).live p)).bind fun _ => ?_
        refine ((onDevice_still (writeBinary_steady _ _ _)).live p).bind fun _ => ?_
        refine Moves.bind (Moves.liftS (modifySession_live fun _ => rfl)) fun _ => ?_
        split
        · exact (onDevice_still (tick_steady _ _)).live p
        · exact Moves.pure _
    · exact Moves.pure _
  · exact Moves.pure _

theorem clientReceive_live (p j : Nat) (win : Window) : (live p).Moves (clientReceive p j win) := by
  unfold clientReceive
  refine (session_moves p).bind fun s => ?_
  split
  · split
    · refine (Moves.liftS ((drain_still _ _ _).live p)).bind fun rb => ?_
      obtain ⟨r, b⟩ := rb
      refine Moves.bind (Moves.liftS (modifySession_live fun _ => rfl)) fun _ => ?_
      refine (lift_moves _).bind fun items => Moves.bind (Moves.forIn fun it _ _ => ?_) fun _ =>
        Moves.pure _
      refine ((session_moves p).live p).bind fun _ => ?_
      dsimp only
      split
      · exact (Moves.liftS ((note_still _).live p)).bind fun _ => Moves.pure _
      · refine Moves.bind (Moves.liftS (modifySession_live fun _ => rfl)) fun _ => ?_
        refine ((within_moves (onDevice_still (importStructure_steady _ _ _))).live p).bind fun _ => ?_
        exact ((onDevice_still (tick_steady _ _)).live p).bind fun _ => Moves.pure _
    · exact Moves.pure _
  · exact Moves.pure _

theorem serverReceive_live (p j : Nat) (win : Window) : (live p).Moves (serverReceive p j win) := by
  unfold serverReceive
  refine (session_moves p).bind fun s => ?_
  split
  · split
    · refine (Moves.liftS ((drain_still _ _ _).live p)).bind fun rb => ?_
      obtain ⟨r, b⟩ := rb
      refine Moves.bind (Moves.liftS (modifySession_live fun _ => rfl)) fun _ => ?_
      refine (lift_moves _).bind fun items => ?_
      refine Moves.bind (Moves.liftS (modifySession_live fun _ => rfl)) fun _ => ?_
      refine (session_moves p).bind fun s' => ?_
      split
      · split
        · exact Moves.pure _
        · split
          · refine Moves.bind (Moves.liftS (modifySession_live fun _ => rfl)) fun _ => ?_
            refine ((within_moves (onDevice_still (importStructure_steady _ _ _))).live p).bind fun _ => ?_
            refine ((onDevice_still (tick_steady _ _)).live p).bind fun _ => ?_
            refine Moves.bind (Moves.liftS (modifySession_live fun _ => rfl)) fun _ => ?_
            exact Moves.liftS ((note_still _).live p)
          · exact Moves.pure _
      · exact Moves.pure _
    · exact Moves.pure _
  · exact Moves.pure _

theorem receive_live (p : Nat) (win : Window) : (live p).Moves (receive p win) := by
  unfold receive
  refine (session_moves p).bind fun s => ?_
  refine Moves.bind (Moves.forIn fun ij _ _ => ?_) fun _ => ?_
  · refine (session_moves p).bind fun s' => ?_
    split
    · refine (Moves.liftS ((drain_still _ _ _).live p)).bind fun rb => ?_
      obtain ⟨r, b⟩ := rb
      refine Moves.bind (Moves.liftS (modifySession_live fun _ => rfl)) fun _ => ?_
      refine (lift_moves _).bind fun items => Moves.bind (Moves.forIn fun it _ _ => ?_) fun _ =>
        Moves.pure _
      exact ((within_moves (onDevice_still (importTopic_steady _ _ _))).live p).bind fun _ =>
        Moves.pure _
    · exact Moves.pure _
  refine Moves.bind (Moves.forIn fun j _ _ => ?_) fun _ => ?_
  · exact (canReceive_live p j win).bind fun _ => Moves.pure _
  refine Moves.bind (Moves.forIn fun j _ _ => ?_) fun _ => ?_
  · exact (clientReceive_live p j win).bind fun _ => Moves.pure _
  refine Moves.bind (Moves.forIn fun j _ _ => ?_) fun _ => Moves.pure _
  exact (serverReceive_live p j win).bind fun _ => Moves.pure _

/-- Publishing what the FMU produced keeps every session still, the publishing one included. -/
theorem canTransmit_still (p j : Nat) (ts : Float) : still.Moves (canTransmit p j ts) := by
  unfold canTransmit
  refine (session_moves p).bind fun s => ?_
  split
  · refine (onDevice_still (clockActive_steady _)).bind fun _ => ?_
    split
    · exact Moves.pure _
    · refine (onDevice_still (readBinary_steady _)).bind fun _ => ?_
      refine (lift_moves _).bind fun ops => ?_
      refine Moves.bind (Moves.forIn fun op _ sent => ?_) fun _ => Moves.liftS (published_still _ _ _)
      dsimp only
      split
      · exact (sendFrame_still _ _ _).bind fun _ => Moves.pure _
      · exact Moves.pure _
  · exact Moves.pure _

theorem clientCall_still (p j : Nat) (ts : Float) : still.Moves (clientCall p j ts) := by
  unfold clientCall
  refine (session_moves p).bind fun s => ?_
  split
  · refine (onDevice_still (anyTicked_steady _ _)).bind fun _ => ?_
    split
    · exact Moves.pure _
    · refine (within_moves (onDevice_still (exportStructure_steady _ _))).bind fun _ => ?_
      refine (Moves.liftS freshId_still).bind fun id => ?_
      refine Moves.bind (Moves.liftS (modifySession_still (fun _ => rfl) fun _ => ?_)) fun _ => ?_
      · simp only [Session.buffers]
        rw [map_modify_eq]
        exact fun _ => rfl
      refine Moves.bind (Moves.tryCatch (callFunction_still _ _ _ _) fun _ => ?_) fun _ => ?_
      · refine Moves.bind (Moves.liftS (modifySession_still (fun _ => rfl) fun _ => ?_)) fun _ =>
          Moves.throw _
        simp only [Session.buffers]
        rw [map_modify_eq]
        exact fun _ => rfl
      exact (Moves.liftS (note_still _)).bind fun _ => Moves.liftS (published_still _ _ _)
  · exact Moves.pure _

theorem serverRespond_still (p j : Nat) (ts : Float) : still.Moves (serverRespond p j ts) := by
  unfold serverRespond
  refine (session_moves p).bind fun s => ?_
  split
  · split
    · refine (onDevice_still (anyTicked_steady _ _)).bind fun _ => ?_
      split
      · exact Moves.pure _
      · refine (within_moves (onDevice_still (exportStructure_steady _ _))).bind fun _ => ?_
        refine Moves.bind (Moves.liftS (modifySession_still (fun _ => rfl) fun _ => ?_)) fun _ => ?_
        · simp only [Session.buffers]
          rw [map_modify_eq]
          exact fun _ => rfl
        exact (submitResult_still _ _ _ _).bind fun _ => Moves.liftS (published_still _ _ _)
    · exact Moves.pure _
  · exact Moves.pure _

theorem send_still (p : Nat) (ts : Float) : still.Moves (send p ts) := by
  unfold send
  refine (peer_moves p).bind fun x => ?_
  refine Moves.bind (Moves.forIn fun t _ _ => ?_) fun _ => ?_
  · refine (onDevice_still (active_steady _ _)).bind fun _ => ?_
    split
    · exact Moves.pure _
    · refine (within_moves (onDevice_still (exportTopic_steady _ _))).bind fun _ => ?_
      exact Moves.bind (Moves.liftS (modifySession_still (fun _ => rfl) fun _ => rfl)) fun _ =>
        Moves.pure _
  refine (session_moves p).bind fun s => ?_
  refine Moves.bind (Moves.liftS (modifySession_still (fun _ => rfl) fun _ => rfl)) fun _ => ?_
  refine Moves.bind (Moves.forIn fun tp _ _ => ?_) fun _ => ?_
  · exact (within_moves (publish_still _ _ _ _)).bind fun _ =>
      (Moves.liftS (published_still _ _ _)).bind fun _ => Moves.pure _
  refine Moves.bind (Moves.forIn fun j _ _ => ?_) fun _ => ?_
  · exact (canTransmit_still p j ts).bind fun _ => Moves.pure _
  refine Moves.bind (Moves.forIn fun j _ _ => ?_) fun _ => ?_
  · exact (clientCall_still p j ts).bind fun _ => Moves.pure _
  refine Moves.bind (Moves.forIn fun j _ _ => ?_) fun _ => Moves.pure _
  exact (serverRespond_still p j ts).bind fun _ => Moves.pure _

end World

end CoSimBridge
