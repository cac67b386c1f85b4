import Mathlib
import CoSimBridge.Proofs.Session.Wiring
/-!
# What the FMU finds in a CAN channel's receive variable

In the receive phase of a step, a CAN channel writes the operations its buffer releases into its
receive variable, encoded one record after the other, and ticks its receive clock if it has
one. A channel without a receive clock has to show the FMU an empty variable in a step that
releases nothing, and it writes the empty byte string only when the variable still holds
operations of an earlier step: the channel's `held` flag says so, and what it says depends on
every step before.

`Peer.RxReady` is what holds of the channel between steps: what it writes is stored in the FMU,
a held channel writes a binary variable, and a channel without a clock that holds nothing has
emptied its variable unless the FMU has terminated. Every call keeps it (`Call.tracked`,
`tracked_reachable`), as long as nothing but the channel writes its receive variable
(`Wiring.Owns`). A step hands the FMU its step once its receive phase is over (`HandsStep`,
`step_hands`); in that phase the topics and channels before channel `j` leave it alone
(`holding`), the channel delivers what its inbox releases (`canReceive_releases`), and what comes
after writes elsewhere (`receive_releases`). Main statement (`rx_carries_released`): in every
world the calls lead to, the FMU steps with exactly the encoding of the released operations in
the receive variable of a channel without a receive clock, no bytes when none were released;
with a receive clock, the variable is rewritten and the clock ticked in the steps that release
operations, and both are left alone in the others.
-/

namespace CoSimBridge

open Course Delivery Layout

/-! ## Writing bytes and ticking a clock -/

namespace Fmu.Device

theorem check_fmu (op : String) (st : Status) (d : Device) :
    ((check op st).run.run d).2.fmu = d.fmu := by
  unfold check
  split
  · rfl
  · split <;> rfl

/-- A failed write leaves the FMU as it was: the FMU refused it. -/
theorem set_error {vr : Nat} {nv : NativeValues} {d d' : Device} {e : Fault}
    (h : (set vr nv).run.run d = (.error e, d')) :
    d'.fmu = d.fmu ∧ (d.fmu.setValues vr nv.kind nv).2 = .error := by
  unfold set at h
  rw [run_bind, run_get] at h
  dsimp only at h
  rcases Loopback.setValues_cases d.fmu vr nv.kind nv with ⟨herr, hkeep⟩ | ⟨hok, -⟩
  · refine ⟨?_, herr⟩
    rw [show d.fmu.setValues vr nv.kind nv = (d.fmu, .error) from Prod.ext hkeep herr] at h
    dsimp only at h
    rw [run_bind, run_modify] at h
    dsimp only at h
    have hc := congrArg (fun r => r.2.fmu) h
    rw [check_fmu] at hc
    exact hc.symm
  · rcases hp : d.fmu.setValues vr nv.kind nv with ⟨fmu', st⟩
    rw [hp] at hok h
    simp only at hok
    subst hok
    dsimp only at h
    rw [run_bind, run_modify] at h
    dsimp only at h
    rw [check_ok _ _ rfl] at h
    cases h

end Fmu.Device

namespace Layout

open Fmu

/-- A write of bytes, whatever its outcome, changes nothing but the variable. -/
theorem writeBinary_frames {l : Layout} {b : BoundVariable} {bs : Bytes} {d d' : Device}
    {r : Except Fault Unit} (h : (writeBinary l b bs).run.run d = (r, d')) :
    Loopback.Frames (· = b.fmu.vr) d.fmu d'.fmu := by
  have hf := ((writeBinary_moves (C := Device.frames (· = b.fmu.vr))
    (fun _ _ h => Device.set_frames h _) l rfl bs) d trivial).2
  rw [h] at hf
  exact hf

/-- A tick, whatever its outcome, changes nothing but the input clocks it names. -/
theorem tick_frames {l : Layout} {clocks : List String} {d d' : Device} {r : Except Fault Unit}
    (h : (tick l clocks).run.run d = (r, d')) : Loopback.Frames (l.Ticks clocks) d.fmu d'.fmu := by
  have hf := ((tick_moves (C := Device.frames (l.Ticks clocks)) (fun _ _ h => Device.set_frames h _)
    l clocks fun c hc b hb hdir => ⟨c, hc, b, hb, hdir, rfl⟩) d trivial).2
  rw [h] at hf
  exact hf

/-- A binary write packs its bytes as one element. -/
theorem pack_bytes (ew : Int) (bs : Bytes) :
    pack .binary ew [.bytes bs] =
      .ok { kind := .binary, enumWidth := ew, data := bs, sizes := some [bs.length] } := by
  simp [pack, NativeValues.push]

/-- A successful write of bytes into a stored variable leaves it holding exactly those bytes as
its one element; the variable is binary in the model, and nothing else is written. -/
theorem writeBinary_ok {l : Layout} {b : BoundVariable} {bs : Bytes} {d d' : Device}
    (h : (writeBinary l b bs).run.run d = (.ok (), d'))
    (hs : (d.fmu.values.lookup b.fmu.vr).isSome) :
    (d'.fmu.valueOf b.fmu.vr).unpack = .ok [.bytes bs] ∧
      (∃ v, d.fmu.model.byReference? b.fmu.vr = some v ∧ v.kind = .binary) ∧
      Loopback.Frames (· = b.fmu.vr) d.fmu d'.fmu := by
  have hf := writeBinary_frames h
  unfold writeBinary at h
  obtain ⟨nv, d₁, h₁, h₂⟩ := run_bind_ok h
  obtain ⟨hnv, rfl⟩ := liftWith_ok h₁
  rw [pack_bytes] at hnv
  cases hnv
  obtain ⟨-, hv, hd'⟩ := Device.set_ok h₂
  refine ⟨?_, hv, hf⟩
  rw [hd', Loopback.valueOf_store_self _ hs]
  simp [NativeValues.concat, NativeValues.unpack, NativeValues.len, NativeValues.at?,
    NativeValues.slice]

/-- A failed write of bytes leaves the FMU as it was; into a binary variable, it fails only on an
FMU that has terminated. -/
theorem writeBinary_error {l : Layout} {b : BoundVariable} {bs : Bytes} {d d' : Device}
    {e : Fault} (h : (writeBinary l b bs).run.run d = (.error e, d')) :
    d'.fmu = d.fmu ∧
      ((∃ v, d.fmu.model.byReference? b.fmu.vr = some v ∧ v.kind = .binary) →
        d.fmu.terminated = true) := by
  unfold writeBinary at h
  rw [run_bind, pack_bytes] at h
  obtain ⟨hfmu, hst⟩ := Device.set_error h
  refine ⟨hfmu, fun ⟨v, hv, hk⟩ => ?_⟩
  cases ht : d.fmu.terminated
  · -- a live FMU takes bytes into a binary variable
    simp [Loopback.setValues, ht, hv, hk] at hst
  · rfl

/-- A tick packs one active clock element. -/
theorem pack_tick (ew : Int) :
    pack .clock ew [.bool true] = .ok { kind := .clock, enumWidth := ew, data := [1] } := by
  simp [pack, NativeValues.push]
  rfl

/-- A successful tick of one clock activates it when the layout binds it as an input: the clock
then holds one active element and is a clock in the model. Nothing else is written. -/
theorem tick_single_ok {l : Layout} {n : String} {d d' : Device}
    (h : (tick l [n]).run.run d = (.ok (), d')) :
    Loopback.Frames (l.Ticks [n]) d.fmu d'.fmu ∧
      ∀ b, l.findVariable n = some b → b.direction = .subscribe →
        (d.fmu.values.lookup b.fmu.vr).isSome →
        (d'.fmu.valueOf b.fmu.vr).unpack = .ok [.bool true] ∧
          ∃ v, d.fmu.model.byReference? b.fmu.vr = some v ∧ v.kind = .clock := by
  refine ⟨tick_frames h, fun b hb hdir hs => ?_⟩
  -- the one clock is found, is an input, and its write succeeded
  unfold tick at h
  obtain ⟨_, d₁, h₁, h₂⟩ := run_bind_ok h
  cases h₂
  rw [List.forIn_cons] at h₁
  obtain ⟨st, d₂, h₃, h₄⟩ := run_bind_ok h₁
  rw [hb] at h₃
  dsimp only at h₃
  rw [if_neg (by simp [hdir])] at h₃
  obtain ⟨nv, d₅, h₅, h₆⟩ := run_bind_ok h₃
  obtain ⟨hnv, rfl⟩ := liftWith_ok h₅
  rw [pack_tick] at hnv
  cases hnv
  obtain ⟨_, d₇, h₇, h₈⟩ := run_bind_ok h₆
  cases h₈
  cases h₄
  obtain ⟨-, hv, hd'⟩ := Device.set_ok h₇
  refine ⟨?_, hv⟩
  rw [hd', Loopback.valueOf_store_self _ hs]
  simp [NativeValues.concat, NativeValues.unpack, NativeValues.len, NativeValues.at?,
    NativeValues.width]
  decide

end Layout

/-! ## The channel between steps -/

/-- The references a CAN channel writes: its receive variable and the input clocks its receive
clock names. -/
def CanChannel.Writes (l : Layout) (ch : CanChannel) (r : Nat) : Prop :=
  ch.rx.fmu.vr = r ∨ ∃ k, ch.rxClock = some k ∧ l.Ticks [k.name] r

/-- CAN channel `j` of a peer as its receive leaves it between steps: what the channel writes is
stored in the FMU, a channel that holds operations writes a binary variable, and a channel
without a receive clock that holds none has emptied its variable, unless the FMU has
terminated. -/
structure Peer.RxReady (j : Nat) (x : Peer) : Prop where
  stored : ∀ ch, x.session.cans[j]? = some ch → ∀ r, ch.Writes x.session.layout r →
    (x.device.fmu.values.lookup r).isSome
  binary : ∀ ch, x.session.cans[j]? = some ch → ch.held = true →
    ∃ v, x.device.fmu.model.byReference? ch.rx.fmu.vr = some v ∧ v.kind = .binary
  clear : ∀ ch, x.session.cans[j]? = some ch → ch.rxClock = none → ch.held = false →
    (x.device.fmu.valueOf ch.rx.fmu.vr).unpack = .ok [.bytes []] ∨ x.device.fmu.terminated = true

/-- Only channel `j` writes its receive variable, and in the receive phase only channel `j`
ticks its receive clock. -/
def Wiring.Owns (wi : Wiring) (j : Nat) : Prop :=
  ∀ rc, wi.receivers[j]? = some rc → ¬ wi.Writes j rc.1.fmu.vr ∧
    ∀ k, rc.2 = some k → ∀ r, wi.layout.Ticks [k.name] r → ¬ wi.Feeds j r

theorem Peer.receiver_of_wiring {x : Peer} {wi : Wiring} (hwi : x.wiring = wi) {j : Nat}
    {ch : CanChannel} (hch : x.session.cans[j]? = some ch) :
    wi.receivers[j]? = some ch.receiver := by
  rw [← hwi]
  simp [Peer.wiring, hch]

/-- Channel `j` after a framed change: the same receiver, and holding operations as before. -/
theorem Session.Framed.chan {j : Nat} {s s' : Session} (h : Session.Framed j s s')
    {ch' : CanChannel} (hch' : s'.cans[j]? = some ch') :
    ∃ ch, s.cans[j]? = some ch ∧ ch'.rx = ch.rx ∧ ch'.rxClock = ch.rxClock ∧ ch'.held = ch.held := by
  have hr := congrArg (·[j]?) h.receivers
  have hh := h.held
  simp only [List.getElem?_map, hch'] at hr hh
  cases hch : s.cans[j]? with
  | none => simp [hch] at hr
  | some ch =>
    simp only [hch, Option.map_some, Option.some.injEq, CanChannel.receiver, Prod.mk.injEq] at hr hh
    exact ⟨ch, rfl, hr.1, hr.2, hh⟩

/-- A framed change keeps the channel ready when only the channel writes its receive
variable. -/
theorem Peer.RxReady.of_framed {j : Nat} {wi : Wiring} {x x' : Peer} (hx : x.RxReady j)
    (hwi : x.wiring = wi) (hown : wi.Owns j) (hs : Session.Framed j x.session x'.session)
    (hd : Fmu.Loopback.Frames (wi.Writes j) x.device.fmu x'.device.fmu) : x'.RxReady j := by
  refine ⟨fun ch' hch' r hr => ?_, fun ch' hch' hheld => ?_, fun ch' hch' hclk hheld => ?_⟩
  · obtain ⟨ch, hch, hrx, hclk, -⟩ := hs.chan hch'
    refine hd.stored r (hx.stored ch hch r ?_)
    rw [hs.layout] at hr
    unfold CanChannel.Writes at hr ⊢
    rwa [hrx, hclk] at hr
  · obtain ⟨ch, hch, hrx, -, hh⟩ := hs.chan hch'
    rw [hd.model, hrx]
    exact hx.binary ch hch (hh ▸ hheld)
  · obtain ⟨ch, hch, hrx, hclk', hh⟩ := hs.chan hch'
    rw [hrx]
    rcases hx.clear ch hch (hclk' ▸ hclk) (hh ▸ hheld) with h | h
    · -- only the channel writes its receive variable
      have hnot : ¬ wi.Writes j ch.rx.fmu.vr := (hown _ (Peer.receiver_of_wiring hwi hch)).1
      left
      rw [hd.frame _ hnot]
      exact h
    · exact .inr (hd.terminated h)

/-- Channel `j` of a peer wired as `wi`, as `wi` names its receiver. -/
theorem Peer.chan_of_wiring {x : Peer} {wi : Wiring} (hwi : x.wiring = wi) {j : Nat}
    {rc : BoundVariable × Option BoundVariable} (hrc : wi.receivers[j]? = some rc) :
    ∃ ch, x.session.cans[j]? = some ch ∧ ch.rx = rc.1 ∧ ch.rxClock = rc.2 := by
  rw [← hwi] at hrc
  simp only [Peer.wiring, List.getElem?_map, Option.map_eq_some_iff] at hrc
  obtain ⟨ch, hch, rfl⟩ := hrc
  exact ⟨ch, hch, rfl, rfl⟩

/-- A peer whose session changed only in whether channel `j` holds operations, and whose FMU
kept its model and links, is wired as before. -/
theorem Peer.wiring_of_held {y y' : Peer} {j : Nat} {v : Bool}
    (hs : y'.session = { y.session with cans := y.session.cans.modify j fun c => { c with held := v } })
    (hm : y'.device.fmu.model = y.device.fmu.model) (hl : y'.device.fmu.links = y.device.fmu.links) :
    y'.wiring = y.wiring := by
  simp only [Peer.wiring, hs, hm, hl]
  rw [World.map_modify_eq (g := fun x : CanChannel => x.receiver)
    (f := fun c => { c with held := v }) (fun _ => rfl)]

/-- The FMU of a peer changed only outside the receive variable of channel `j`, or anywhere
once the channel has a receive clock or holds operations: the channel stays ready. -/
theorem Peer.RxReady.of_device {j : Nat} {R : Nat → Prop} {y y' : Peer} (hr : y.RxReady j)
    (hs : y'.session = y.session) (hd : Fmu.Loopback.Frames R y.device.fmu y'.device.fmu)
    (hclear : ∀ ch, y.session.cans[j]? = some ch → ch.rxClock = none → ch.held = false →
      ¬ R ch.rx.fmu.vr) : y'.RxReady j := by
  refine ⟨fun ch hch r hw => ?_, fun ch hch hheld => ?_, fun ch hch hclk hheld => ?_⟩
  all_goals rw [hs] at hch
  · rw [hs] at hw
    exact hd.stored r (hr.stored ch hch r hw)
  · rw [hd.model]
    exact hr.binary ch hch hheld
  · rcases hr.clear ch hch hclk hheld with h | h
    · left
      rw [hd.frame _ (hclear ch hch hclk hheld)]
      exact h
    · exact .inr (hd.terminated h)

/-- Readiness reads only the session and the FMU of a peer. -/
theorem Peer.RxReady.congr {j : Nat} {y y' : Peer} (hr : y.RxReady j) (hs : y'.session = y.session)
    (hf : y'.device.fmu = y.device.fmu) : y'.RxReady j :=
  hr.of_device (R := fun _ => False) hs (hf ▸ .refl _ _) fun _ _ _ _ h => h

/-- What a channel writes is stored after a write that framed the FMU, whether the channel now
holds operations or not. -/
theorem Peer.RxReady.stored_held {j : Nat} {R : Nat → Prop} {y y' : Peer} (hr : y.RxReady j)
    {v : Bool}
    (hs : y'.session = { y.session with cans := y.session.cans.modify j fun c => { c with held := v } })
    (hd : Fmu.Loopback.Frames R y.device.fmu y'.device.fmu) {ch' : CanChannel}
    (hch' : y'.session.cans[j]? = some ch') :
    ∃ ch, y.session.cans[j]? = some ch ∧ ch' = { ch with held := v } ∧
      ∀ r, ch'.Writes y'.session.layout r → (y'.device.fmu.values.lookup r).isSome := by
  rw [hs, List.getElem?_modify_eq] at hch'
  obtain ⟨ch, hch, rfl⟩ := Option.map_eq_some_iff.mp hch'
  exact ⟨ch, hch, rfl, fun r hw => hd.stored r (hr.stored ch hch r (by rw [hs] at hw; exact hw))⟩

/-- Emptying the receive variable of a channel that holds operations and marking it empty keeps
the channel ready, whether the FMU takes the write or refuses it. -/
theorem Peer.RxReady.of_emptied {j : Nat} {y y' : Peer} (hr : y.RxReady j) {c : CanChannel}
    (hc : y.session.cans[j]? = some c) (hheld : c.held = true) {l : Layout}
    {r : Except Fault Unit} {d : Fmu.Device}
    (hact : (l.writeBinary c.rx []).run.run { y.device with log := #[] } = (r, d))
    (hs : y'.session = { y.session with cans := y.session.cans.modify j fun c => { c with held := false } })
    (hd : y'.device.fmu = d.fmu) : y'.RxReady j := by
  have hfr : Fmu.Loopback.Frames (· = c.rx.fmu.vr) y.device.fmu y'.device.fmu := by
    rw [hd]
    exact writeBinary_frames (d := { y.device with log := #[] }) hact
  refine ⟨fun ch' hch' => ?_, fun ch' hch' hheld' => ?_, fun ch' hch' _ _ => ?_⟩
  · obtain ⟨-, -, -, h⟩ := hr.stored_held hs hfr hch'
    exact h
  · obtain ⟨ch, -, rfl, -⟩ := hr.stored_held hs hfr hch'
    cases hheld'
  · obtain ⟨ch, hch, rfl, -⟩ := hr.stored_held hs hfr hch'
    rw [hc] at hch
    cases hch
    cases r with
    | ok u =>
      -- the write went through: the variable holds no bytes
      left
      rw [hd]
      exact (writeBinary_ok hact (hr.stored c hc _ (.inl rfl))).1
    | error e =>
      -- the FMU refused bytes into a binary variable, so it has terminated
      obtain ⟨hfmu, hterm⟩ := writeBinary_error hact
      right
      rw [hd, hfmu]
      exact hterm (hr.binary c hc hheld)

/-- Writing bytes into the receive variable of a channel and marking it as holding operations
keeps the channel ready. -/
theorem Peer.RxReady.of_written {j : Nat} {y y' : Peer} (hr : y.RxReady j) {c : CanChannel}
    (hc : y.session.cans[j]? = some c) {l : Layout} {bs : Bytes} {d : Fmu.Device}
    (hact : (l.writeBinary c.rx bs).run.run { y.device with log := #[] } = (.ok (), d))
    (hs : y'.session = { y.session with cans := y.session.cans.modify j fun c => { c with held := true } })
    (hd : y'.device.fmu = d.fmu) : y'.RxReady j := by
  obtain ⟨-, hbin, hfr⟩ := writeBinary_ok hact (hr.stored c hc _ (.inl rfl))
  rw [← hd] at hfr
  refine ⟨fun ch' hch' => ?_, fun ch' hch' _ => ?_, fun ch' hch' _ hheld' => ?_⟩
  · obtain ⟨-, -, -, h⟩ := hr.stored_held hs hfr hch'
    exact h
  · obtain ⟨ch, hch, rfl, -⟩ := hr.stored_held hs hfr hch'
    rw [hc] at hch
    cases hch
    rw [hfr.model]
    exact hbin
  · obtain ⟨ch, -, rfl, -⟩ := hr.stored_held hs hfr hch'
    cases hheld'

namespace World

variable {p j : Nat} {wi : Wiring}

/-- The worlds in which peer `p` is wired as `wi` and its CAN channel `j` is ready for the next
step. -/
def tracked (p j : Nat) (wi : Wiring) : Course World where
  inv w := (framed p j wi (wi.Writes j)).inv w ∧ ∀ x, w.peers[p]? = some x → x.RxReady j
  rel _ _ := True
  refl _ := trivial
  trans _ _ := trivial

theorem tracked_inv_of {w : World} {y : Peer} (hy : w.peers[p]? = some y) (hwi : y.wiring = wi)
    (hsub : ∀ t ∈ y.session.inbound.map (·.topic), t ∈ y.session.layout.subscriptions)
    (hr : y.RxReady j) : (tracked p j wi).inv w :=
  ⟨⟨y, hy, hwi, hsub⟩, fun x hx => by
    rw [hy] at hx
    cases hx
    exact hr⟩

/-- A framed action keeps channel `j` ready, when only the channel writes its receive
variable. -/
theorem tracked_of_framed (hown : wi.Owns j) {α : Type} {act : Sim α}
    (h : (framed p j wi (wi.Writes j)).Moves act) : (tracked p j wi).Moves act :=
  Moves.mono h (fun _ hw => hw.1) fun {w w'} hw hw' hr => by
    refine ⟨⟨hw', fun x' hx' => ?_⟩, trivial⟩
    obtain ⟨x, hx, hwi, -⟩ := hw.1
    obtain ⟨y, hy, hs, hd⟩ := hr x hx
    rw [hx'] at hy
    cases hy
    exact (hw.2 x hx).of_framed hwi hown hs hd

theorem trackedS_of_framed (hown : wi.Owns j) {α : Type} {act : StateM World α}
    (h : (framed p j wi (wi.Writes j)).MovesS act) : (tracked p j wi).MovesS act :=
  fun w hw => tracked_of_framed hown (Moves.liftS h) w hw

/-! ## The receive of the channel keeps it ready -/

theorem modifySession_bind_run {β : Type} (w : World) (q : Nat) (f : Session → Session)
    (k : PUnit → Sim β) :
    (liftM (modifySession q f) >>= k : Sim β).run.run w =
      (k ⟨⟩).run.run { w with peers := w.peers.modify q fun x => { x with session := f x.session } } :=
  rfl

/-- A call on the FMU of peer `q`: the call runs on its FMU, and its result is raised in the
world where the FMU of peer `q` is the one the call left. -/
theorem onDevice_run {α : Type} {w : World} {q : Nat} {y : Peer} (hy : w.peers[q]? = some y)
    {act : Fmu.DeviceM α} {r : Except Fault α} {d : Fmu.Device}
    (hact : act.run.run { y.device with log := #[] } = (r, d)) :
    (onDevice q act).run.run w =
      (lift r).run.run { w with log := w.log ++ d.log,
                                peers := w.peers.modify q fun x => { x with device := { d with log := #[] } } } := by
  unfold onDevice
  rw [run_bind, peer_run hy]
  simp only [hact]
  rfl

theorem lift_run {α : Type} (r : Except Fault α) (w : World) : (lift r).run.run w = (r, w) := by
  cases r <;> rfl

theorem lift_bind_pure_run (r : Except Fault Unit) (w : World) :
    (lift r >>= fun _ => (pure () : Sim Unit)).run.run w = (r, w) := by
  cases r <;> rfl

theorem lift_ok_bind_run {α β : Type} (a : α) (f : α → Sim β) (w : World) :
    (lift (.ok a) >>= f).run.run w = (f a).run.run w :=
  rfl

theorem lift_error_bind_run {α β : Type} (e : Fault) (f : α → Sim β) (w : World) :
    (lift (.error e) >>= f).run.run w = (.error e, w) :=
  rfl

/-- A drain answers what the buffer releases, and changes only the metrics of the peer. -/
theorem drain_ok_peer {κ ν : Type} [BEq κ] {q : Nat} {b : Buffer κ ν} {win : Window}
    {w w' : World} {a : Except Fault (List (Item κ ν)) × Buffer κ ν}
    (h : (liftM (drain q b win) : Sim _).run.run w = (.ok a, w')) {y : Peer}
    (hy : w.peers[q]? = some y) :
    a = ((b.drain win).1, (b.drain win).2.1) ∧
      ∃ m, w'.peers[q]? = some { y with session := { y.session with metrics := m } } := by
  rw [run_liftS] at h
  cases h
  exact ⟨rfl, _, getElem?_modify_self hy _⟩

theorem modifySession_ok_peer {q : Nat} {f : Session → Session} {w w' : World} {a : PUnit}
    (h : (liftM (modifySession q f) : Sim PUnit).run.run w = (.ok a, w')) {y : Peer}
    (hy : w.peers[q]? = some y) : w'.peers[q]? = some { y with session := f y.session } := by
  rw [run_liftS, modifySession_run] at h
  cases h
  exact getElem?_modify_self hy _

theorem onDevice_bind_run {α β : Type} {w : World} {q : Nat} {y : Peer} (hy : w.peers[q]? = some y)
    {act : Fmu.DeviceM α} {r : Except Fault α} {d : Fmu.Device}
    (hact : act.run.run { y.device with log := #[] } = (r, d)) (k : α → Sim β) :
    (onDevice q act >>= k).run.run w =
      (lift r >>= k).run.run { w with log := w.log ++ d.log,
                                      peers := w.peers.modify q fun x => { x with device := { d with log := #[] } } } := by
  rw [run_bind, onDevice_run hy hact, run_bind]

/-- Ticking the receive clock of channel `j` keeps the channel ready. -/
theorem tick_tracked {rx c : BoundVariable} (hrc : wi.receivers[j]? = some (rx, some c))
    (l : Layout) : (tracked p j wi).Moves (onDevice p (l.tick [c.name])) := by
  intro w hw
  obtain ⟨⟨y, hy, hwi, hsub⟩, hready⟩ := hw
  rcases hact : (l.tick [c.name]).run.run { y.device with log := #[] } with ⟨r, d⟩
  have hfr : Fmu.Loopback.Frames (l.Ticks [c.name]) y.device.fmu d.fmu :=
    tick_frames (d := { y.device with log := #[] }) hact
  refine Leads.of_run ((onDevice_run hy hact).trans (lift_run _ _)) ?_ trivial
  have hy₁ := getElem?_modify_self (w := { w with log := w.log ++ d.log }) hy
    fun x => { x with device := { d with log := #[] } }
  refine tracked_inv_of hy₁ ?_ hsub ?_
  · rw [← hwi]
    simp only [Peer.wiring, hfr.model, hfr.links]
  · -- the channel has a clock, so its receive variable need not be empty
    obtain ⟨ch, hch, -, hclk⟩ := Peer.chan_of_wiring hwi hrc
    refine (hready y hy).of_device rfl hfr fun ch' hch' hnone _ => ?_
    rw [hch] at hch'
    cases hch'
    rw [hclk] at hnone
    cases hnone

/-- The peer after a change of whether channel `j` holds operations. -/
theorem getElem?_held {w : World} {y : Peer} (hy : w.peers[p]? = some y) (v : Bool) :
    ({ w with peers := w.peers.modify p fun x => { x with session :=
        { x.session with cans := x.session.cans.modify j fun c => { c with held := v } } } } :
      World).peers[p]? =
      some { y with session := { y.session with cans := y.session.cans.modify j fun c =>
        { c with held := v } } } :=
  getElem?_modify_self hy _

/-- A call on the FMU that leaves it as it was keeps the channel ready. -/
theorem tracked_of_fmu {w : World} (hw : (tracked p j wi).inv w) {y : Peer}
    (hy : w.peers[p]? = some y) {d : Fmu.Device} (hd : d.fmu = y.device.fmu) (ls : Journal) :
    (tracked p j wi).inv { w with log := w.log ++ ls,
                                  peers := w.peers.modify p fun x =>
                                    { x with device := { d with log := #[] } } } := by
  obtain ⟨⟨x, hx, hwi, hsub⟩, hready⟩ := hw
  rw [hy] at hx
  cases hx
  refine tracked_inv_of (getElem?_modify_self hy _) ?_ hsub ((hready y hy).congr rfl hd)
  rw [← hwi]
  simp only [Peer.wiring, hd]

/-- Emptying the receive variable of channel `j` when it holds operations keeps it ready. -/
theorem emptying_tracked {w : World} (hw : (tracked p j wi).inv w) {y : Peer}
    (hy : w.peers[p]? = some y) {c : CanChannel} (hc : y.session.cans[j]? = some c)
    (hheld : c.held = true) (l : Layout) :
    (tracked p j wi).Leads w (liftM (modifySession p fun s =>
        { s with cans := s.cans.modify j fun c => { c with held := false } }) >>= fun _ =>
      onDevice p (l.writeBinary c.rx []) >>= fun _ => (pure () : Sim Unit)) := by
  obtain ⟨⟨x, hx, hwi, hsub⟩, hready⟩ := hw
  rw [hy] at hx
  cases hx
  have hy₁ := getElem?_held hy (j := j) false
  rcases hact : (l.writeBinary c.rx []).run.run { y.device with log := #[] } with ⟨r, d⟩
  refine Leads.of_run ((modifySession_bind_run _ _ _ _).trans
    ((onDevice_bind_run hy₁ hact _).trans (lift_bind_pure_run _ _))) ?_ trivial
  have hfr : Fmu.Loopback.Frames (· = c.rx.fmu.vr) y.device.fmu d.fmu :=
    writeBinary_frames (d := { y.device with log := #[] }) hact
  refine tracked_inv_of (getElem?_modify_self hy₁ _) ?_ hsub ?_
  · exact (Peer.wiring_of_held rfl hfr.model hfr.links).trans hwi
  · exact (hready y hy).of_emptied hc hheld hact rfl rfl

/-- Writing operations into the receive variable of channel `j` and marking it as holding them
keeps the channel ready, and so does what follows when it does. -/
theorem writing_tracked {w : World} (hw : (tracked p j wi).inv w) {y : Peer}
    (hy : w.peers[p]? = some y) {c : CanChannel} (hc : y.session.cans[j]? = some c) (l : Layout)
    (bs : Bytes) {k : PUnit → Sim Unit} (hk : (tracked p j wi).Moves (k ⟨⟩)) :
    (tracked p j wi).Leads w (onDevice p (l.writeBinary c.rx bs) >>= fun _ =>
      liftM (modifySession p fun s =>
        { s with cans := s.cans.modify j fun c => { c with held := true } }) >>= k) := by
  rcases hact : (l.writeBinary c.rx bs).run.run { y.device with log := #[] } with ⟨r, d⟩
  cases r with
  | error e =>
    -- the FMU refused the bytes and kept its values
    exact Leads.of_run ((onDevice_bind_run hy hact _).trans (lift_error_bind_run _ _ _))
      (tracked_of_fmu hw hy (writeBinary_error hact).1 _) trivial
  | ok u =>
    obtain ⟨⟨x, hx, hwi, hsub⟩, hready⟩ := hw
    rw [hy] at hx
    cases hx
    obtain ⟨-, -, hfr⟩ := writeBinary_ok hact ((hready y hy).stored c hc _ (.inl rfl))
    have hy₁ := getElem?_modify_self (w := { w with log := w.log ++ d.log }) hy
      fun x => { x with device := { d with log := #[] } }
    refine Leads.shift ((onDevice_bind_run hy hact _).trans ((lift_ok_bind_run _ _ _).trans
      (modifySession_bind_run _ _ _ _))) trivial (hk _ ?_)
    refine tracked_inv_of (getElem?_held hy₁ true) ?_ hsub ?_
    · exact (Peer.wiring_of_held rfl hfr.model hfr.links).trans hwi
    · exact (hready y hy).of_written hc hact rfl rfl

/-- The receive of channel `j` keeps it ready, when only the channel writes its receive
variable. -/
theorem canReceive_tracked (hown : wi.Owns j) (win : Window) :
    (tracked p j wi).Moves (canReceive p j win) := by
  intro w hw
  unfold canReceive
  refine (session_moves p w hw).bind fun s w' hrun hw' => ?_
  obtain ⟨y, hy, rfl, rfl⟩ := session_ok hrun
  split
  next ch hch =>
    split
    next inbox hinbox =>
      refine (Moves.liftS (trackedS_of_framed hown (drain_framed p inbox win)) _ hw').bind
        fun rb w₁ hrun₁ hw₁ => ?_
      obtain ⟨-, m, hy₁⟩ := drain_ok_peer hrun₁ hy
      obtain ⟨r, b⟩ := rb
      refine (Moves.liftS (trackedS_of_framed hown (modifySession_framed
        (f := fun s => { s with cans := s.cans.modify j fun c => { c with inbox := some b } })
        fun _ _ _ => .of_cans (fun _ => rfl) fun _ _ => rfl)) _ hw₁).bind
        fun _ w₂ hrun₂ hw₂ => ?_
      -- the drain and the new inbox keep the channel as it was read
      have hy₂ := modifySession_ok_peer hrun₂ hy₁
      have hc₂ : (y.session.cans.modify j fun c => { c with inbox := some b })[j]? =
          some { ch with inbox := some b } := by
        rw [List.getElem?_modify_eq, hch]
        rfl
      refine (lift_moves _ _ hw₂).bind fun items w₃ hrun₃ hw₃ => ?_
      obtain ⟨-, rfl⟩ := lift_ok hrun₃
      split
      · split
        · exact Leads.stay hw₃ rfl
        next hkeep =>
          have hheld : ch.held = true := by simp_all
          exact emptying_tracked hw₃ hy₂ hc₂ hheld _
      · refine (lift_moves _ _ hw₃).bind fun payload w₄ hrun₄ hw₄ => ?_
        obtain ⟨-, rfl⟩ := lift_ok hrun₄
        refine (Moves.liftS (trackedS_of_framed hown (note_framed _)) _ hw₄).bind
          fun _ w₅ hrun₅ hw₅ => ?_
        cases hrun₅
        refine writing_tracked hw₅ hy₂ hc₂ _ _ ?_
        split
        next c hc =>
          obtain ⟨x, hx, hwi, -⟩ := hw'.1
          rw [hy] at hx
          cases hx
          have hrc : wi.receivers[j]? = some (ch.rx, some c) := by
            rw [← hc]
            exact Peer.receiver_of_wiring hwi hch
          exact tick_tracked hrc _
        next => exact Moves.pure _
    next => exact Leads.stay hw' rfl
  next => exact Leads.stay hw' rfl

/-! ## Every call keeps the channel ready -/

section Calls

variable (hown : wi.Owns j)
include hown

/-- A step of the FMU writes its links and resets its input clocks, none of which is the
channel's. -/
theorem doStep_tracked (t h : Float) :
    (tracked p j wi).Moves (onDevice p (Fmu.Device.doStep t h)) :=
  tracked_of_framed hown (onDevice_framed fun _ _ hm hl => Fmu.Device.doStep_frames
    (fun lk hlk => .inr (.inl ⟨lk, hl ▸ hlk, rfl⟩))
    (fun v hv hk hc => .inr (.inr ⟨v, hm ▸ hv, hk, hc, rfl⟩)) t h)

theorem receive_tracked (win : Window) : (tracked p j wi).Moves (receive p win) :=
  receive_moves (fun _ => trackedS_of_framed hown (drain_framed _ _ _))
    (fun _ _ => trackedS_of_framed hown (modifySession_framed fun _ _ _ =>
      .of_inbound fun _ => rfl))
    (fun _ _ _ hw hrun i hi payload =>
      tracked_of_framed hown (importTopic_framed (fun _ _ h => .inl h) hw.1 hrun i hi payload))
    (fun j' => if hj : j' = j then by subst hj; exact canReceive_tracked hown win
      else tracked_of_framed hown (canReceive_framed (fun _ => ⟨hj, fun _ h => .inl h⟩) win))
    (fun j' => tracked_of_framed hown (clientReceive_framed (fun _ _ h => .inl h) j' win))
    (fun j' => tracked_of_framed hown (serverReceive_framed (fun _ _ h => .inl h) j' win))

theorem step_tracked : (tracked p j wi).Moves (step p) :=
  step_moves (fun _ hf => trackedS_of_framed hown (modifySession_framed_of_bookkeeping hf))
    (fun _ => trackedS_of_framed hown (note_framed _)) (receive_tracked hown)
    (doStep_tracked hown) fun ts => tracked_of_framed hown (send_framed p ts)

/-- Every call keeps channel `j` of peer `p` ready. -/
theorem Call.tracked : ∀ c : Call, (tracked p j wi).Moves c.act
  | .connect q => tracked_of_framed hown (connect_framed q)
  | .step q => if hq : q = p then hq ▸ step_tracked hown else tracked_of_framed hown (step_framed hq)
  | .run q horizon => if hq : q = p then
      hq ▸ run_moves (fun _ => trackedS_of_framed hown (note_framed _)) (step_tracked hown) horizon
    else tracked_of_framed hown (run_framed hq horizon)
  | .terminate q => tracked_of_framed hown (terminate_framed q)
  | .publish part topic ts payload => tracked_of_framed hown (publish_framed part topic ts payload)
  | .sendFrame ctrl ts f => tracked_of_framed hown (sendFrame_framed ctrl ts f)
  | .callFunction client ts correlation args =>
    tracked_of_framed hown (callFunction_framed client ts correlation args)
  | .submitResult server ts handle payload =>
    tracked_of_framed hown (submitResult_framed server ts handle payload)
  | .attach part role name h =>
    tracked_of_framed hown ((attach_framed part role name h).bind fun _ => Moves.pure _)
  | .unsubscribe id => tracked_of_framed hown (Moves.liftS (unsubscribe_framed id))
  | .join name => tracked_of_framed hown ((Moves.liftS (join_framed name)).bind fun _ => Moves.pure _)
  | .close part => tracked_of_framed hown (Moves.liftS (close_framed part))

/-- Along every sequence of calls, peer `p` stays wired as `wi` and its channel `j` ready. -/
theorem tracked_reachable {w₀ w : World} (h₀ : (tracked p j wi).inv w₀) (hr : Reachable w₀ w) :
    (tracked p j wi).inv w := by
  induction hr with
  | start => exact h₀
  | call c _ ih => exact (Call.tracked hown c _ ih).1

end Calls

end World

/-! ## What a receive puts into the FMU -/

/-- The receive variable of `ch` holds, as its one element, the encoding of `ops`. -/
def CanChannel.Carries (ch : CanChannel) (ops : List Can.Operation) (fmu : Fmu.Loopback) : Prop :=
  ∃ bs, Can.encode ops = .ok bs ∧ (fmu.valueOf ch.rx.fmu.vr).unpack = .ok [.bytes bs]

/-- What the FMU `fmu'` finds of channel `ch` after a receive phase that released `ops`, against
the FMU `fmu` before it: without a receive clock, the receive variable carries the operations,
and so holds no bytes when there are none; with a receive clock, operations rewrite the variable
and tick the clock, and no operations leave both as they were. -/
def CanChannel.Delivered (l : Layout) (ch : CanChannel) (ops : List Can.Operation)
    (fmu fmu' : Fmu.Loopback) : Prop :=
  match ch.rxClock with
  | none => ch.Carries ops fmu'
  | some k =>
    (ops = [] → ∀ r, ch.Writes l r → fmu'.valueOf r = fmu.valueOf r) ∧
    (ops ≠ [] → ch.Carries ops fmu' ∧
      ∀ r, l.Ticks [k.name] r → (fmu'.valueOf r).unpack = .ok [.bool true])

namespace CanChannel

variable {ch : CanChannel} {l : Layout} {ops : List Can.Operation} {R : Nat → Prop}
  {fmu₀ fmu fmu₁ fmu₂ : Fmu.Loopback}

theorem Carries.frame (h : ch.Carries ops fmu) (hf : Fmu.Loopback.Frames R fmu fmu')
    (hr : ¬ R ch.rx.fmu.vr) : ch.Carries ops fmu' := by
  obtain ⟨bs, henc, hv⟩ := h
  exact ⟨bs, henc, by rw [hf.frame _ hr]; exact hv⟩

/-- What a receive delivered stays when the FMU later changes only outside the channel. -/
theorem Delivered.frame_after (h : ch.Delivered l ops fmu fmu₁)
    (hf : Fmu.Loopback.Frames R fmu₁ fmu₂) (hR : ∀ r, ch.Writes l r → ¬ R r) :
    ch.Delivered l ops fmu fmu₂ := by
  unfold Delivered at h ⊢
  split at h
  next => exact h.frame hf (hR _ (.inl rfl))
  next k hk =>
    refine ⟨fun hops r hr => (hf.frame r (hR r hr)).trans (h.1 hops r hr), fun hops => ?_⟩
    obtain ⟨hc, ht⟩ := h.2 hops
    refine ⟨hc.frame hf (hR _ (.inl rfl)), fun r hr => ?_⟩
    rw [hf.frame r (hR r (.inr ⟨k, hk, hr⟩))]
    exact ht r hr

/-- What a receive delivered is measured from an earlier FMU that changed only outside the
channel. -/
theorem Delivered.frame_before (hf : Fmu.Loopback.Frames R fmu₀ fmu)
    (hR : ∀ r, ch.Writes l r → ¬ R r) (h : ch.Delivered l ops fmu fmu₁) :
    ch.Delivered l ops fmu₀ fmu₁ := by
  unfold Delivered at h ⊢
  split at h
  next => exact h
  next k hk => exact ⟨fun hops r hr => (h.1 hops r hr).trans (hf.frame r (hR r hr)), h.2⟩

end CanChannel

namespace World

variable {p j : Nat}

/-- A call on the FMU of peer `q` that succeeds: the FMU's run succeeded, and the peer holds the
FMU it left. -/
theorem onDevice_ok {α : Type} {w w' : World} {q : Nat} {y : Peer} (hy : w.peers[q]? = some y)
    {act : Fmu.DeviceM α} {a : α} (h : (onDevice q act).run.run w = (.ok a, w')) :
    ∃ d : Fmu.Device, act.run.run { y.device with log := #[] } = (.ok a, d) ∧
      w'.peers[q]? = some { y with device := { d with log := #[] } } := by
  rcases hact : act.run.run { y.device with log := #[] } with ⟨r, d⟩
  rw [onDevice_run hy hact, lift_run] at h
  cases h
  exact ⟨d, rfl, getElem?_modify_self (w := { w with log := w.log ++ d.log }) hy _⟩

/-- Emptying the receive variable of a channel without a receive clock, when it succeeds, leaves
the variable carrying no operations. -/
theorem emptying_delivers {w w' : World} {y : Peer} (hy : w.peers[p]? = some y)
    {ch : CanChannel} (hclk : ch.rxClock = none)
    (hst : (y.device.fmu.values.lookup ch.rx.fmu.vr).isSome) (l : Layout)
    (h : (liftM (modifySession p fun s =>
        { s with cans := s.cans.modify j fun c => { c with held := false } }) >>= fun _ =>
      onDevice p (l.writeBinary ch.rx []) >>= fun _ => (pure () : Sim Unit)).run.run w =
      (.ok (), w')) :
    ∃ y', w'.peers[p]? = some y' ∧ ch.Delivered l [] y.device.fmu y'.device.fmu := by
  rw [modifySession_bind_run] at h
  obtain ⟨_, w₁, h₁, h₂⟩ := run_bind_ok h
  cases h₂
  obtain ⟨d, hact, hy₁⟩ := onDevice_ok (getElem?_modify_self hy _) h₁
  refine ⟨_, hy₁, ?_⟩
  unfold CanChannel.Delivered
  rw [hclk]
  exact ⟨[], rfl, (writeBinary_ok hact hst).1⟩

/-- The tick of the receive clock leaves the receive variable alone: the variable is binary and
the clock is a clock. -/
theorem tick_spares_rx {l : Layout} {n : String} {rx : BoundVariable} {d d' : Fmu.Device}
    (h : (l.tick [n]).run.run d = (.ok (), d'))
    (hbin : ∃ v, d.fmu.model.byReference? rx.fmu.vr = some v ∧ v.kind = .binary)
    (hst : ∀ r, l.Ticks [n] r → (d.fmu.values.lookup r).isSome) : ¬ l.Ticks [n] rx.fmu.vr := by
  rintro ⟨c, hc, b, hb, hdir, hvr⟩
  rw [List.mem_singleton] at hc
  subst hc
  obtain ⟨-, v', hv', hk'⟩ :=
    (tick_single_ok h).2 b hb hdir (hst _ ⟨c, List.mem_singleton_self c, b, hb, hdir, rfl⟩)
  obtain ⟨v, hv, hk⟩ := hbin
  rw [hvr, hv] at hv'
  cases hv'
  rw [hk] at hk'
  cases hk'

/-- Writing released operations into the receive variable, marking the channel and ticking its
clock, when it succeeds, delivers the operations. -/
theorem writing_delivers {w w' : World} {y : Peer} (hy : w.peers[p]? = some y) {ch : CanChannel}
    {l : Layout} (hst : ∀ r, ch.Writes l r → (y.device.fmu.values.lookup r).isSome)
    {ops : List Can.Operation} (hops : ops ≠ []) {payload : Bytes}
    (henc : Can.encode ops = .ok payload)
    (h : (onDevice p (l.writeBinary ch.rx payload) >>= fun _ =>
      liftM (modifySession p fun s =>
        { s with cans := s.cans.modify j fun c => { c with held := true } }) >>= fun _ =>
      match ch.rxClock with
      | some c => onDevice p (l.tick [c.name])
      | _ => (pure () : Sim Unit)).run.run w = (.ok (), w')) :
    ∃ y', w'.peers[p]? = some y' ∧ ch.Delivered l ops y.device.fmu y'.device.fmu := by
  obtain ⟨_, w₁, h₁, h₂⟩ := run_bind_ok h
  obtain ⟨d, hact, hy₁⟩ := onDevice_ok hy h₁
  obtain ⟨hrx, hbin, hfr⟩ := writeBinary_ok hact (hst _ (.inl rfl))
  have hc : ch.Carries ops d.fmu := ⟨payload, henc, hrx⟩
  rw [modifySession_bind_run] at h₂
  have hy₂ := getElem?_modify_self hy₁ fun x => { x with session :=
    { x.session with cans := x.session.cans.modify j fun c => { c with held := true } } }
  unfold CanChannel.Delivered
  split at h₂
  next k hk =>
    -- the clock is ticked after the write, and spares the variable
    obtain ⟨d', hact', hy₃⟩ := onDevice_ok hy₂ h₂
    have hst' : ∀ r, l.Ticks [k.name] r → (d.fmu.values.lookup r).isSome :=
      fun r hr => hfr.stored r (hst r (.inr ⟨k, hk, hr⟩))
    have htick := tick_single_ok hact'
    have hspare := tick_spares_rx hact' (by rw [hfr.model]; exact hbin) hst'
    refine ⟨_, hy₃, ?_⟩
    rw [hk]
    refine ⟨fun h => absurd h hops, fun _ => ⟨hc.frame htick.1 hspare, ?_⟩⟩
    rintro r ⟨c, hc', b, hb, hdir, rfl⟩
    rw [List.mem_singleton] at hc'
    subst hc'
    exact (htick.2 b hb hdir (hst' _ ⟨_, List.mem_singleton_self _, b, hb, hdir, rfl⟩)).1
  next hk =>
    cases h₂
    refine ⟨_, hy₂, ?_⟩
    cases hclk : ch.rxClock with
    | none => exact hc
    | some k => exact absurd hclk (hk k)

/-- A receive of channel `j` that succeeds drains the channel's inbox without failure, and
delivers the operations it released. -/
theorem canReceive_releases {w w' : World} {y : Peer} (hy : w.peers[p]? = some y)
    {ch : CanChannel} (hch : y.session.cans[j]? = some ch)
    {inbox : Buffer (UInt32 × UInt32) Can.Operation} (hinbox : ch.inbox = some inbox)
    (hst : ∀ r, ch.Writes y.session.layout r → (y.device.fmu.values.lookup r).isSome)
    (hclear : ch.rxClock = none → ch.held = false →
      (y.device.fmu.valueOf ch.rx.fmu.vr).unpack = .ok [.bytes []])
    {win : Window} (h : (canReceive p j win).run.run w = (.ok (), w')) :
    ∃ items, (inbox.drain win).1 = .ok items ∧ ∃ y', w'.peers[p]? = some y' ∧
      ch.Delivered y.session.layout (items.map (·.value)) y.device.fmu y'.device.fmu := by
  unfold canReceive at h
  rw [run_bind, session_run hy] at h
  dsimp only at h
  split at h
  next ch' hch' =>
    rw [hch] at hch'
    cases hch'
    split at h
    next inbox' hinbox' =>
      rw [hinbox] at hinbox'
      cases hinbox'
      obtain ⟨rb, w₁, h₁, h₂⟩ := run_bind_ok h
      obtain ⟨hrb, m, hy₁⟩ := drain_ok_peer h₁ hy
      obtain ⟨r, b⟩ := rb
      have hr := (Prod.mk.inj hrb).1
      dsimp only at h₂
      obtain ⟨_, w₂, h₃, h₄⟩ := run_bind_ok h₂
      have hy₂ := modifySession_ok_peer h₃ hy₁
      obtain ⟨items, w₃, h₅, h₆⟩ := run_bind_ok h₄
      obtain ⟨rfl, rfl⟩ := lift_ok h₅
      refine ⟨items, hr.symm, ?_⟩
      split at h₆
      next hempty =>
        rw [List.isEmpty_iff] at hempty
        subst hempty
        split at h₆
        next hkeep =>
          -- nothing to empty: the FMU is as the receive found it
          cases h₆
          refine ⟨_, hy₂, ?_⟩
          unfold CanChannel.Delivered
          cases hclk : ch.rxClock with
          | none =>
            have hheld : ch.held = false := by simpa [hclk] using hkeep
            exact ⟨[], rfl, hclear hclk hheld⟩
          | some k => exact ⟨fun _ _ _ => rfl, fun h => absurd rfl h⟩
        next hkeep =>
          have hclk : ch.rxClock = none := by
            revert hkeep
            cases ch.rxClock <;> simp
          exact emptying_delivers hy₂ hclk (hst _ (.inl rfl)) _ h₆
      next hempty =>
        have hops : items.map (·.value) ≠ [] := by simpa using hempty
        obtain ⟨payload, w₄, h₇, h₈⟩ := run_bind_ok h₆
        obtain ⟨henc, rfl⟩ := lift_ok h₇
        obtain ⟨_, w₅, h₉, h₁₀⟩ := run_bind_ok h₈
        -- the note leaves the peers alone
        have hw₅ : w₅.peers = w₄.peers := by
          rw [run_liftS] at h₉
          cases h₉
          rfl
        rw [← hw₅] at hy₂
        exact writing_delivers hy₂ hst hops henc h₁₀
    next hnone => exact absurd hinbox (hnone _)
  next hnone => exact absurd hch (hnone _)

/-! ## The receive phase around channel `j` -/

/-- CAN channel `j` of peer `p`, as the world holds it. -/
def canAt (p j : Nat) (w : World) : Option (Option CanChannel) :=
  w.peers[p]?.map (·.session.cans[j]?)

/-- The changes of the world that keep CAN channel `j` of peer `p` as it is. -/
def holding (p j : Nat) : Course World where
  inv _ := True
  rel w w' := canAt p j w' = canAt p j w
  refl _ := rfl
  trans h₁ h₂ := h₂.trans h₁

theorem canAt_modify {w w' : World} {q : Nat} {g : Peer → Peer}
    (hw : w'.peers = w.peers.modify q g)
    (hg : q = p → ∀ x, (g x).session.cans[j]? = x.session.cans[j]?) : canAt p j w' = canAt p j w := by
  unfold canAt
  rw [hw, Array.getElem?_modify]
  split
  next hq =>
    rw [Option.map_map]
    congr 1
    funext x
    exact hg hq x
  next => rfl

theorem modifySession_holding {q : Nat} {f : Session → Session}
    (hf : q = p → ∀ s, (f s).cans[j]? = s.cans[j]?) : (holding p j).MovesS (modifySession q f) :=
  MovesS.modify fun _ _ => ⟨trivial, canAt_modify (g := fun x => { x with session := f x.session })
    rfl fun hq x => hf hq x.session⟩

theorem note_holding (l : LogLine) : (holding p j).MovesS (note l) :=
  MovesS.modify fun _ _ => ⟨trivial, rfl⟩

theorem observe_holding (q : Nat) (channel : String) (rs : List Report) :
    (holding p j).MovesS (observe q channel rs) :=
  modifySession_holding fun _ _ => rfl

theorem drain_holding {κ ν : Type} [BEq κ] (q : Nat) (b : Buffer κ ν) (win : Window) :
    (holding p j).MovesS (drain q b win) :=
  (observe_holding _ _ _).bind fun _ => MovesS.pure _

/-- A call on an FMU leaves every session alone. -/
theorem onDevice_holding {α : Type} (q : Nat) (act : Fmu.DeviceM α) :
    (holding p j).Moves (onDevice q act) := by
  intro w hw
  unfold onDevice
  refine (peer_moves q w hw).bind fun y w' hrun _ => ?_
  obtain ⟨-, rfl⟩ := peer_ok hrun
  split
  next r d _ =>
    exact Leads.modify_bind ⟨trivial, canAt_modify (g := fun x => { x with device :=
      { d with log := #[] } }) rfl fun _ _ => rfl⟩ (lift_moves r _ trivial)

/-- The receive of another channel leaves channel `j` alone. -/
theorem canReceive_holding {q j' : Nat} (hq : q = p → j' ≠ j) (win : Window) :
    (holding p j).Moves (canReceive q j' win) :=
  canReceive_moves (fun _ => drain_holding _ _ _)
    (fun _ _ => modifySession_holding fun hp _ => List.getElem?_modify_ne _ _ (hq hp))
    note_holding fun _ _ _ _ _ _ _ =>
      ⟨fun _ => onDevice_holding _ _, fun _ _ => onDevice_holding _ _⟩

/-- The channels of a receive, split at channel `j`: those before it, and those after it. -/
theorem range_around {n : Nat} (h : j < n) :
    ∃ rest, List.range n = List.range j ++ j :: rest ∧ ∀ i ∈ rest, j < i := by
  obtain ⟨k, rfl⟩ : ∃ k, n = j + (k + 1) := ⟨n - j - 1, by omega⟩
  refine ⟨(List.range k).map (j + 1 + ·), ?_, ?_⟩
  · rw [List.range_add, List.range_succ_eq_map]
    simp [Function.comp_def, Nat.add_assoc, Nat.add_comm 1]
  · simp only [List.mem_map, List.mem_range]
    rintro i ⟨a, -, rfl⟩
    omega

theorem forIn_cons_ok {α : Type} {g : α → Sim Unit} (a : α) (l : List α) {w w' : World}
    {u : PUnit}
    (h : (forIn (a :: l) PUnit.unit fun a _ => do g a; pure (ForInStep.yield PUnit.unit) :
      Sim PUnit).run.run w = (.ok u, w')) :
    ∃ w₁, (g a).run.run w = (.ok (), w₁) ∧
      (forIn l PUnit.unit fun a _ => do g a; pure (ForInStep.yield PUnit.unit) :
        Sim PUnit).run.run w₁ = (.ok u, w') := by
  rw [List.forIn_cons] at h
  obtain ⟨s, w₁, h₁, h₂⟩ := run_bind_ok h
  obtain ⟨_, w₂, hg, hp⟩ := run_bind_ok h₁
  cases hp
  exact ⟨w₁, hg, h₂⟩

/-- A loop over two lists whose body always goes on succeeds by succeeding over the first and
then over the second. -/
theorem forIn_append_ok {α : Type} {g : α → Sim Unit} (l₁ l₂ : List α) {w w' : World}
    {u : PUnit}
    (h : (forIn (l₁ ++ l₂) PUnit.unit fun a _ => do g a; pure (ForInStep.yield PUnit.unit) :
      Sim PUnit).run.run w = (.ok u, w')) :
    ∃ w₁, (forIn l₁ PUnit.unit fun a _ => do g a; pure (ForInStep.yield PUnit.unit) :
        Sim PUnit).run.run w = (.ok ⟨⟩, w₁) ∧
      (forIn l₂ PUnit.unit fun a _ => do g a; pure (ForInStep.yield PUnit.unit) :
        Sim PUnit).run.run w₁ = (.ok u, w') := by
  induction l₁ generalizing w with
  | nil => exact ⟨w, rfl, h⟩
  | cons a l ih =>
    obtain ⟨w₁, hg, hl⟩ := forIn_cons_ok a (l ++ l₂) h
    obtain ⟨w₂, h₁, h₂⟩ := ih hl
    refine ⟨w₂, ?_, h₂⟩
    rw [List.forIn_cons, run_bind, run_bind, hg]
    exact h₁

end World

theorem Course.Moves.at_run {σ ε α : Type} {C : Course σ} {act : ExceptT ε (StateM σ) α}
    (h : C.Moves act) {s s' : σ} (hs : C.inv s) {r : Except ε α} (hr : act.run.run s = (r, s')) :
    C.inv s' ∧ C.rel s s' := by
  have hl := h s hs
  unfold Course.Leads at hl
  rw [hr] at hl
  exact hl

/-- What channel `j` writes is nothing the rest of the receive phase feeds. -/
theorem Wiring.Owns.spares {wi : Wiring} {j : Nat} (hown : wi.Owns j) {ch : CanChannel}
    (hch : wi.receivers[j]? = some ch.receiver) {r : Nat} (hr : ch.Writes wi.layout r) :
    ¬ wi.Feeds j r := by
  obtain ⟨hrx, hclk⟩ := hown _ hch
  rcases hr with rfl | ⟨k, hk, hr⟩
  · exact fun h => hrx (.inl h)
  · exact hclk k hk r hr

namespace World

variable {p j : Nat} {wi : Wiring}

/-- A loop whose body moves along a course moves along it. -/
theorem forIn_moves {C : Course World} {α : Type} {l : List α} {g : α → Sim Unit}
    (h : ∀ a ∈ l, C.Moves (g a)) :
    C.Moves (forIn l PUnit.unit fun a _ => do g a; pure (ForInStep.yield PUnit.unit) : Sim PUnit) :=
  Moves.forIn fun a ha _ => (h a ha).bind fun _ => Moves.pure _

/-- The remote functions' part of the receive phase writes only what the phase feeds. -/
theorem remotes_framed {R : Nat → Prop} (hR : ∀ r, wi.Feeds j r → R r) (s : Session)
    (win : Window) : (framed p j wi R).Moves (do
      for j in List.range s.clients.length do clientReceive p j win
      for j in List.range s.servers.length do serverReceive p j win : Sim Unit) :=
  (forIn_moves fun j' _ => clientReceive_framed (fun _ => hR) j' win).bind fun _ =>
    (forIn_moves fun j' _ => serverReceive_framed (fun _ => hR) j' win).bind fun _ =>
      Moves.pure _

/-- A receive phase of peer `p` that succeeds delivers what channel `j` releases: the topics and
channels before it leave the channel and what it writes alone, and those after it write
elsewhere. -/
theorem receive_releases (hown : wi.Owns j) {w w' : World} (hw : (tracked p j wi).inv w)
    {y : Peer} (hy : w.peers[p]? = some y) {ch : CanChannel} (hch : y.session.cans[j]? = some ch)
    {inbox : Buffer (UInt32 × UInt32) Can.Operation} (hinbox : ch.inbox = some inbox)
    (hclear : ch.rxClock = none → ch.held = false →
      (y.device.fmu.valueOf ch.rx.fmu.vr).unpack = .ok [.bytes []])
    {win : Window} (h : (receive p win).run.run w = (.ok (), w')) :
    ∃ items, (inbox.drain win).1 = .ok items ∧ ∃ y', w'.peers[p]? = some y' ∧
      ch.Delivered y.session.layout (items.map (·.value)) y.device.fmu y'.device.fmu := by
  have hwi : y.wiring = wi := by
    obtain ⟨x, hx, hwi, -⟩ := hw.1
    rw [hy] at hx
    cases hx
    exact hwi
  have hspare : ∀ r, ch.Writes y.session.layout r → ¬ wi.Feeds j r := fun r hr =>
    hown.spares (Peer.receiver_of_wiring hwi hch) (by rw [← hwi]; exact hr)
  obtain ⟨inputs, hinputs, heq⟩ := receive_split p win
  rw [heq] at h
  obtain ⟨s, w₁, hs, h₁⟩ := run_bind_ok h
  rw [session_run hy] at hs
  cases hs
  obtain ⟨_, w₂, hin, h₂⟩ := run_bind_ok h₁
  obtain ⟨_, w₃, hcans, h₃⟩ := run_bind_ok h₂
  -- the loop over the channels, split at channel `j`
  obtain ⟨rest, hsplit, hrest⟩ := range_around (List.getElem?_eq_some_iff.mp hch).1
  rw [hsplit] at hcans
  obtain ⟨w₄, hpre, hcans'⟩ := forIn_append_ok _ _ hcans
  obtain ⟨w₅, hj, hpost⟩ := forIn_cons_ok _ _ hcans'
  -- before channel `j`: what is fed, and channel `j` left as it was
  have hF₂ := (hinputs (framed p j wi (wi.Feeds j)) (fun _ => drain_framed _ _ _)
    (fun _ _ => modifySession_framed fun _ _ _ => .of_inbound fun _ => rfl) y.session
    fun i hi payload => importTopic_framed (fun _ _ h => h) hw.1 (session_run hy) i hi
      payload).at_run hw.1 hin
  have hH₂ := (hinputs (holding p j) (fun _ => drain_holding _ _ _)
    (fun _ _ => modifySession_holding fun _ _ => rfl) y.session
    fun _ _ _ => onDevice_holding _ _).at_run trivial hin
  have hF₄ := (forIn_moves (g := fun j' => canReceive p j' win) fun j' hj' =>
    canReceive_framed (fun _ => ⟨(List.mem_range.mp hj').ne, fun _ h => h⟩) win).at_run
      hF₂.1 hpre
  have hH₄ := (forIn_moves (C := holding p j) (g := fun j' => canReceive p j' win) fun j' hj' =>
    canReceive_holding (fun _ => (List.mem_range.mp hj').ne) win).at_run trivial hpre
  obtain ⟨x₄, hx₄, hs₄, hd₄⟩ := ((framed p j wi (wi.Feeds j)).trans hF₂.2 hF₄.2) y hy
  have hc₄ : x₄.session.cans[j]? = some ch := by
    have hc := (holding p j).trans hH₂.2 hH₄.2
    simp only [holding, canAt, hx₄, hy, hch, Option.map_some, Option.some.injEq] at hc
    exact hc
  have hready₄ : x₄.RxReady j :=
    (hw.2 y hy).of_framed hwi hown hs₄ (hd₄.mono fun _ h => .inl h)
  have hw₄ : (tracked p j wi).inv w₄ := ⟨hF₄.1, fun x hx => by
    rw [hx₄] at hx
    cases hx
    exact hready₄⟩
  -- channel `j` releases into the FMU
  obtain ⟨items, hitems, y₅, hy₅, hdel⟩ := canReceive_releases hx₄ hc₄ hinbox
    (hready₄.stored ch hc₄) (fun hclk hheld => by
      rw [hd₄.frame _ (hspare _ (.inl rfl))]
      exact hclear hclk hheld) hj
  -- after channel `j`: only what is fed is written
  have hw₅ := ((canReceive_tracked hown win).at_run hw₄ hj).1
  have hF₃ := (forIn_moves (g := fun j' => canReceive p j' win) fun j' hj' =>
    canReceive_framed (fun _ => ⟨(hrest j' hj').ne', fun _ h => h⟩) win).at_run hw₅.1 hpost
  have hF' := (remotes_framed (fun _ h => h) y.session win).at_run hF₃.1 h₃
  obtain ⟨y', hy', -, hd'⟩ := ((framed p j wi (wi.Feeds j)).trans hF₃.2 hF'.2) y₅ hy₅
  refine ⟨items, hitems, y', hy', ?_⟩
  rw [hs₄.layout] at hdel
  exact (hdel.frame_before hd₄ hspare).frame_after hd' hspare

/-! ## The step of the FMU -/

end World

/-- The window a step of the session receives in: from its time, one step size long. -/
def Session.stepWindow (s : Session) : Window := ⟨s.now, s.now + s.step⟩

namespace World

variable {p j : Nat} {wi : Wiring}

/-- A step of peer `p` from world `w` hands the FMU its step in world `w'`: the session is
neither created nor terminated and has recorded no failure, and once it is marked running in the
window of the step, the receive phase of that window ends in `w'` (`step_hands`). -/
def HandsStep (p : Nat) (w w' : World) : Prop :=
  ∃ x : Peer, w.peers[p]? = some x ∧ x.session.phase ≠ .created ∧
    x.session.phase ≠ .terminated ∧ x.session.failure = none ∧
    (liftM (modifySession p fun s => { s with phase := .running,
                                               window := x.session.stepWindow }) >>= fun _ =>
      receive p x.session.stepWindow : Sim Unit).run.run w = (.ok (), w')

/-- A step that hands the FMU its step in `w'` runs from `w'` on as the FMU's step and what
follows it. -/
theorem step_hands {w w' : World} (h : HandsStep p w w') :
    ∃ x, w.peers[p]? = some x ∧ ∃ k : Float → Sim Unit, (step p).run.run w =
      (onDevice p (Fmu.Device.doStep x.session.now x.session.step) >>= k).run.run w' := by
  obtain ⟨x, hx, hc, ht, hf, hrun⟩ := h
  refine ⟨x, hx, ?_⟩
  rw [modifySession_bind_run] at hrun
  unfold Session.stepWindow at hrun
  unfold step
  rw [run_bind, session_run hx]
  dsimp only
  split
  · exact absurd ‹_› ht
  · exact absurd ‹_› hc
  split
  · next f hf' => exact absurd (hf.symm.trans hf') (by simp)
  rw [modifySession_bind_run, run_bind, hrun]
  exact ⟨_, rfl⟩

/-- Every step that succeeds hands the FMU its step on the way. -/
theorem hands_of_step {w w'' : World} (h : (step p).run.run w = (.ok (), w'')) :
    ∃ w', HandsStep p w w' := by
  unfold step at h
  obtain ⟨s, w₁, hs, h₁⟩ := run_bind_ok h
  obtain ⟨x, hx, rfl, rfl⟩ := session_ok hs
  dsimp only at h₁
  split at h₁
  · obtain ⟨_, _, hthrow, _⟩ := run_bind_ok h₁
    cases hthrow
  · obtain ⟨_, _, hthrow, _⟩ := run_bind_ok h₁
    cases hthrow
  rename_i hnt hnc
  split at h₁
  · obtain ⟨_, _, hthrow, _⟩ := run_bind_ok h₁
    cases hthrow
  rename_i hnf
  obtain ⟨_, w₂, hm, h₂⟩ := run_bind_ok h₁
  obtain ⟨_, w₃, hrecv, -⟩ := run_bind_ok h₂
  refine ⟨w₃, x, hx, hnc, hnt, ?_, ?_⟩
  · cases hfail : x.session.failure with
    | none => rfl
    | some f => exact absurd hfail (hnf f)
  · unfold Session.stepWindow
    rw [run_bind, hm]
    exact hrecv

/-- A CAN channel that only it writes and that is ready before the first call: in every world
the calls lead to, a step of its peer hands the FMU its step with what the channel's inbox released
in the window of the step delivered into the FMU. Without a receive clock the receive variable
holds exactly the encoding of the released operations, in release order, and no bytes when none
were released; with one, the variable is rewritten and the clock ticked in exactly the steps that
release operations, and both are left as they were in the others. -/
theorem rx_carries_released {w₀ w w' : World} {p j : Nat} {x₀ x : Peer} {ch : CanChannel}
    {inbox : Buffer (UInt32 × UInt32) Can.Operation} (h₀ : w₀.Sane)
    (hx₀ : w₀.peers[p]? = some x₀) (hready : x₀.RxReady j) (hown : x₀.wiring.Owns j)
    (hsub : ∀ t ∈ x₀.session.inbound.map (·.topic), t ∈ x₀.session.layout.subscriptions)
    (hr : Reachable w₀ w) (hx : w.peers[p]? = some x) (hch : x.session.cans[j]? = some ch)
    (hinbox : ch.inbox = some inbox) (hstep : HandsStep p w w') :
    ∃ items, (inbox.drain x.session.stepWindow).1 = .ok items ∧ ∃ x', w'.peers[p]? = some x' ∧
      ch.Delivered x.session.layout (items.map (·.value)) x.device.fmu x'.device.fmu := by
  -- every call keeps the channel ready, and every session sane
  have hw : (tracked p j x₀.wiring).inv w :=
    tracked_reachable hown (tracked_inv_of hx₀ rfl hsub hready) hr
  have hlive := ((hr.sane_ahead h₀).1 p x hx).live
  obtain ⟨x', hx', -, ht, -, hrun⟩ := hstep
  rw [hx] at hx'
  cases hx'
  rw [modifySession_bind_run] at hrun
  -- marking the session running changes only its bookkeeping
  have hw₁ := ((trackedS_of_framed hown (modifySession_framed_of_bookkeeping
    (q := p) (f := fun s => { s with phase := .running, window := x.session.stepWindow })
    fun _ => ⟨rfl, rfl, rfl, rfl, rfl⟩)) w hw).1
  refine receive_releases hown hw₁ (getElem?_modify_self hx _) hch hinbox
    (fun hclk hheld => ?_) hrun
  -- a live FMU shows the channel that holds nothing as empty
  rcases (hw.2 x hx).clear ch hch hclk hheld with h | h
  · exact h
  · rw [hlive ht] at h
    cases h

/-- A channel without a receive clock whose inbox has nothing due: the FMU steps with no bytes
in the receive variable. -/
theorem rx_carries_released_idle :
    let rx : Layout.BoundVariable := { (default : Layout.BoundVariable) with
      fmu := { name := "rx", vr := 1, kind := .binary } };
    let inbox : Delivery.Buffer (UInt32 × UInt32) Can.Operation :=
      { name := "can:can0", policy := .deferFuture };
    let ch : CanChannel :=
      { controller := "can0", tx := default, txClock := default, rx := rx, rxClock := none,
        inbox := some inbox };
    let x₀ : Peer :=
      { session := { config := default, layout := default, phase := .initialized, now := 0,
                     step := 1, window := {}, cans := [ch] },
        device := { fmu := { model := { modelVariables := [rx.fmu] },
                             values := [(1, { kind := .binary, data := [], sizes := some [0] })] } },
        participant := 0 };
    let w₀ : World := { peers := #[x₀] };
    ∃ w', HandsStep 0 w₀ w' ∧ ∃ items, (inbox.drain x₀.session.stepWindow).1 = .ok items ∧
      ∃ x', w'.peers[0]? = some x' ∧
        ch.Delivered x₀.session.layout (items.map (·.value)) x₀.device.fmu x'.device.fmu := by
  intro rx inbox ch x₀ w₀
  have h₀ : w₀.Sane := by
    intro q y hy
    rcases q with _ | q
    · cases hy
      exact ⟨(fun h => by cases h), fun _ => rfl, fun h => by cases h⟩
    · simp [w₀] at hy
  have hready : x₀.RxReady 0 := by
    refine ⟨fun c hc r hr => ?_, fun c hc hheld => ?_, fun c hc _ _ => ?_⟩
    · cases hc
      rcases hr with rfl | ⟨k, hk, -⟩
      · rfl
      · cases hk
    · cases hc
      cases hheld
    · cases hc
      left
      rfl
  have hown : x₀.wiring.Owns 0 := by
    intro rc hrc
    cases hrc
    refine ⟨?_, fun k hk => by cases hk⟩
    simp [Wiring.Writes, Wiring.Feeds, Peer.wiring, x₀, rx]
    intro t ht
    cases ht
  have hstep : HandsStep 0 w₀ ((liftM (modifySession 0 fun s =>
      { s with phase := .running, window := x₀.session.stepWindow }) >>= fun _ =>
        receive 0 x₀.session.stepWindow : Sim Unit).run.run w₀).2 :=
    ⟨x₀, rfl, by decide, by decide, rfl, Prod.ext (by rfl) rfl⟩
  exact ⟨_, hstep, rx_carries_released h₀ rfl hready hown (fun _ ht => by cases ht) .start rfl rfl
    rfl hstep⟩

end World

end CoSimBridge
