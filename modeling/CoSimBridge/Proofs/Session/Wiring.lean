import Mathlib
import CoSimBridge.Proofs.Layout.Effects
import CoSimBridge.Proofs.Session.Lifecycle
/-!
# What every call keeps of a peer's CAN receive

The receive of CAN channel `j` writes the channel's receive variable and ticks its receive
clock. Whether a step writes there depends on whether the channel holds operations from an
earlier step, so what a step finds there depends on everything that happened before. This
module fixes what the receive is wired to, `Wiring`: the session's layout, the receive variable
and clock of every CAN channel, the structures remote function results and calls are written
into, and the FMU's model and links. `Wiring.Writes` names the references of the FMU that
anything a peer does, apart from the receive of channel `j`, may write.

`framed p j wi` is the course of the worlds in which peer `p` is wired as `wi`: a call keeps
that wiring, whether channel `j` holds operations, input topics drawn from the layout's
subscriptions, a stored value for every reference that had one, and the value of every
reference outside `Writes`. Every call moves along it except a step of peer `p` itself, whose
receive of channel `j` is what `Proofs.Session.CanReceive` follows; a step of any other peer
moves along it.
-/

namespace CoSimBridge

open Course Delivery Layout

/-! ## The wiring of the receive -/

/-- What the CAN receive of a peer depends on and no call changes. -/
structure Wiring where
  layout : Layout
  /-- The receive variable and receive clock of every CAN channel. -/
  receivers : List (BoundVariable × Option BoundVariable)
  /-- The result structure of every remote function the peer calls. -/
  results : List Assembly
  /-- The argument structure of every remote function the peer serves. -/
  calls : List Assembly
  model : Fmu.ModelDescription
  links : List (Nat × Nat)

/-- The receive variable and clock of a CAN channel. -/
def CanChannel.receiver (c : CanChannel) : BoundVariable × Option BoundVariable := (c.rx, c.rxClock)

/-- The wiring of a peer. -/
def Peer.wiring (x : Peer) : Wiring :=
  ⟨x.session.layout, x.session.cans.map (·.receiver), x.session.clients.map (·.result),
    x.session.servers.map (·.args), x.device.fmu.model, x.device.fmu.links⟩

/-- The input clocks among `clocks` that ticking them writes. -/
def Layout.Ticks (l : Layout) (clocks : List String) (r : Nat) : Prop :=
  ∃ c ∈ clocks, ∃ b, l.findVariable c = some b ∧ b.direction = .subscribe ∧ b.fmu.vr = r

/-- What importing into the structure `s` and ticking its clocks may write. -/
def Layout.Imports (l : Layout) (s : Assembly) (r : Nat) : Prop :=
  refsOf l s.variableNames r ∨ l.Ticks s.allClocks r

/-- The references of the FMU that the receive phase of a step writes apart from CAN channel
`j`: imports of its input topics, the receive variables and clocks of its other CAN channels, the
results of the calls it makes and the arguments of the calls it serves. -/
def Wiring.Feeds (wi : Wiring) (j r : Nat) : Prop :=
  (∃ t ∈ wi.layout.subscriptions, Written wi.layout t r) ∨
  (∃ j' rc, j' ≠ j ∧ wi.receivers[j']? = some rc ∧
    (rc.1.fmu.vr = r ∨ ∃ k, rc.2 = some k ∧ wi.layout.Ticks [k.name] r)) ∨
  (∃ s ∈ wi.results, wi.layout.Imports s r) ∨
  (∃ s ∈ wi.calls, wi.layout.Imports s r)

/-- The references of the FMU that a peer may write apart from the receive of CAN channel `j`:
what the receive phase feeds, the targets of its links, and its input clocks, which every step
resets. -/
def Wiring.Writes (wi : Wiring) (j r : Nat) : Prop :=
  wi.Feeds j r ∨ (∃ lk ∈ wi.links, lk.2 = r) ∨
  (∃ v ∈ wi.model.modelVariables, v.kind = .clock ∧ v.causality = .input ∧ v.vr = r)

namespace Peer

variable {x : Peer} {j : Nat}

/-- The receive variable and the ticked clocks of another CAN channel are fed by the receive
phase. -/
theorem feeds_receiver {j' : Nat} {ch : CanChannel} (hch : x.session.cans[j']? = some ch)
    (hj : j' ≠ j) : x.wiring.Feeds j ch.rx.fmu.vr ∧
      ∀ c r, ch.rxClock = some c → x.session.layout.Ticks [c.name] r → x.wiring.Feeds j r := by
  have hrc : x.wiring.receivers[j']? = some ch.receiver := by simp [Peer.wiring, hch]
  exact ⟨.inr (.inl ⟨j', _, hj, hrc, .inl rfl⟩),
    fun c r hc hr => .inr (.inl ⟨j', _, hj, hrc, .inr ⟨c, hc, hr⟩⟩)⟩

theorem feeds_result {j' : Nat} {ch : ClientChannel} (hch : x.session.clients[j']? = some ch)
    {r : Nat} (hr : x.session.layout.Imports ch.result r) : x.wiring.Feeds j r :=
  .inr (.inr (.inl ⟨ch.result, List.mem_map_of_mem (List.mem_of_getElem? hch), hr⟩))

theorem feeds_args {j' : Nat} {ch : ServerChannel} (hch : x.session.servers[j']? = some ch)
    {r : Nat} (hr : x.session.layout.Imports ch.args r) : x.wiring.Feeds j r :=
  .inr (.inr (.inr ⟨ch.args, List.mem_map_of_mem (List.mem_of_getElem? hch), hr⟩))

theorem feeds_topic {t : Layout.Topic} (ht : t ∈ x.session.layout.subscriptions) {r : Nat}
    (hr : Written x.session.layout t r) : x.wiring.Feeds j r :=
  .inl ⟨t, ht, hr⟩

end Peer

/-! ## The course -/

/-- A change of a session that keeps its layout, the receivers of its CAN channels, whether
channel `j` holds operations and the structures of its remote functions, and adds input topics
only from the layout's subscriptions. -/
structure Session.Framed (j : Nat) (s s' : Session) : Prop where
  layout : s'.layout = s.layout
  receivers : s'.cans.map (·.receiver) = s.cans.map (·.receiver)
  held : s'.cans[j]?.map (·.held) = s.cans[j]?.map (·.held)
  results : s'.clients.map (·.result) = s.clients.map (·.result)
  calls : s'.servers.map (·.args) = s.servers.map (·.args)
  inbound : ∃ ts, s'.inbound.map (·.topic) = s.inbound.map (·.topic) ++ ts ∧
    ∀ t ∈ ts, t ∈ s.layout.subscriptions

namespace Session.Framed

variable {j : Nat} {s s' s'' : Session}

theorem refl (j : Nat) (s : Session) : Framed j s s :=
  ⟨rfl, rfl, rfl, rfl, rfl, ⟨[], by simp, by simp⟩⟩

theorem trans (h : Framed j s s') (h' : Framed j s' s'') : Framed j s s'' := by
  obtain ⟨ts, hts, hsub⟩ := h.inbound
  obtain ⟨ts', hts', hsub'⟩ := h'.inbound
  refine ⟨h'.layout.trans h.layout, h'.receivers.trans h.receivers, h'.held.trans h.held,
    h'.results.trans h.results, h'.calls.trans h.calls, ⟨ts ++ ts', ?_, ?_⟩⟩
  · rw [hts', hts, List.append_assoc]
  · intro t ht
    rcases List.mem_append.mp ht with ht | ht
    · exact hsub t ht
    · exact h.layout ▸ hsub' t ht

/-- A change that touches none of what the receive depends on. -/
theorem of_eq (hl : s'.layout = s.layout) (hc : s'.cans.map (·.receiver) = s.cans.map (·.receiver))
    (hh : s'.cans[j]?.map (·.held) = s.cans[j]?.map (·.held))
    (hr : s'.clients.map (·.result) = s.clients.map (·.result))
    (hs : s'.servers.map (·.args) = s.servers.map (·.args))
    (hi : s'.inbound.map (·.topic) = s.inbound.map (·.topic)) : Framed j s s' :=
  ⟨hl, hc, hh, hr, hs, ⟨[], by simp [hi], by simp⟩⟩

/-- A change of the CAN channels that keeps their receivers, and whether channel `j` holds
operations. -/
theorem of_cans {g : CanChannel → CanChannel} {j' : Nat} (hr : ∀ c, (g c).receiver = c.receiver)
    (hh : j' = j → ∀ c, (g c).held = c.held) : Framed j s { s with cans := s.cans.modify j' g } := by
  refine .of_eq rfl (World.map_modify_eq hr _ _) ?_ rfl rfl rfl
  change (s.cans.modify j' g)[j]?.map (·.held) = s.cans[j]?.map (·.held)
  rw [List.getElem?_modify]
  split
  · next h => cases s.cans[j]? <;> simp [hh h]
  · simp

theorem of_inbound {g : Inbound → Inbound} {j' : Nat} (hg : ∀ i, (g i).topic = i.topic) :
    Framed j s { s with inbound := s.inbound.modify j' g } :=
  .of_eq rfl rfl rfl rfl rfl (World.map_modify_eq (g := Inbound.topic) hg _ _)

theorem of_clients {g : ClientChannel → ClientChannel} {j' : Nat} (hg : ∀ c, (g c).result = c.result) :
    Framed j s { s with clients := s.clients.modify j' g } :=
  .of_eq rfl rfl rfl (World.map_modify_eq (g := ClientChannel.result) hg _ _) rfl rfl

theorem of_servers {g : ServerChannel → ServerChannel} {j' : Nat} (hg : ∀ c, (g c).args = c.args) :
    Framed j s { s with servers := s.servers.modify j' g } :=
  .of_eq rfl rfl rfl rfl (World.map_modify_eq (g := ServerChannel.args) hg _ _) rfl

/-- Subscribing to a topic of the layout. -/
theorem of_subscribe {i : Inbound} (hi : i.topic ∈ s.layout.subscriptions) :
    Framed j s { s with inbound := s.inbound ++ [i] } :=
  ⟨rfl, rfl, rfl, rfl, rfl, ⟨[i.topic], by simp, by simpa using hi⟩⟩

end Session.Framed

/-- Input topics drawn from the layout's subscriptions stay so along a framed change. -/
theorem Session.Framed.subscribed {j : Nat} {s s' : Session} (h : Session.Framed j s s')
    (hs : ∀ t ∈ s.inbound.map (·.topic), t ∈ s.layout.subscriptions) :
    ∀ t ∈ s'.inbound.map (·.topic), t ∈ s'.layout.subscriptions := by
  obtain ⟨ts, hts, hsub⟩ := h.inbound
  intro t ht
  rw [hts] at ht
  rw [h.layout]
  rcases List.mem_append.mp ht with ht | ht
  · exact hs t ht
  · exact hsub t ht

/-- A change of a session's bookkeeping only: its phase, time, window, outbox, metrics or first
failure, and none of its layout, input topics, CAN channels and remote functions. -/
def Session.Bookkeeping (f : Session → Session) : Prop :=
  ∀ s, (f s).layout = s.layout ∧ (f s).inbound = s.inbound ∧ (f s).cans = s.cans ∧
    (f s).clients = s.clients ∧ (f s).servers = s.servers

namespace World

/-- The worlds in which peer `p` is wired as `wi` and draws its input topics from the layout's
subscriptions, changed so that the session of peer `p` moves along `Session.Framed j` and its FMU
writes only the references in `R`. -/
def framed (p j : Nat) (wi : Wiring) (R : Nat → Prop) : Course World where
  inv w := ∃ x, w.peers[p]? = some x ∧ x.wiring = wi ∧
    ∀ t ∈ x.session.inbound.map (·.topic), t ∈ x.session.layout.subscriptions
  rel w w' := ∀ x, w.peers[p]? = some x → ∃ x', w'.peers[p]? = some x' ∧
    Session.Framed j x.session x'.session ∧ Fmu.Loopback.Frames R x.device.fmu x'.device.fmu
  refl w x hx := ⟨x, hx, .refl j x.session, .refl _ x.device.fmu⟩
  trans h₁ h₂ x hx := by
    obtain ⟨y, hy, hs₁, hd₁⟩ := h₁ x hx
    obtain ⟨z, hz, hs₂, hd₂⟩ := h₂ y hy
    exact ⟨z, hz, hs₁.trans hs₂, hd₁.trans hd₂⟩

variable {p j : Nat} {wi : Wiring} {R : Nat → Prop}

/-- A framed change keeps the wiring. -/
theorem wiring_of_framed {x x' : Peer} (hs : Session.Framed j x.session x'.session)
    (hd : Fmu.Loopback.Frames R x.device.fmu x'.device.fmu) : x'.wiring = x.wiring := by
  simp only [Peer.wiring, hs.layout, hs.receivers, hs.results, hs.calls, hd.model, hd.links]

theorem framed_inv {w w' : World} (hw : (framed p j wi R).inv w) (hr : (framed p j wi R).rel w w') :
    (framed p j wi R).inv w' := by
  obtain ⟨x, hx, hwi, hsub⟩ := hw
  obtain ⟨x', hx', hs, hd⟩ := hr x hx
  exact ⟨x', hx', (wiring_of_framed hs hd).trans hwi, hs.subscribed hsub⟩

/-- A change of the world that leaves peer `p` as it was. -/
theorem framed_of_peer {w w' : World} (h : w'.peers[p]? = w.peers[p]?) :
    (framed p j wi R).rel w w' :=
  fun x hx => ⟨x, h.trans hx, .refl j x.session, .refl _ x.device.fmu⟩

/-- The session of peer `p` as read in a world where it is wired as `wi`. -/
theorem session_wired {w w' : World} {s : Session} (hw : (framed p j wi R).inv w)
    (hrun : (session p).run.run w = (.ok s, w')) :
    ∃ x, w.peers[p]? = some x ∧ x.session = s ∧ x.wiring = wi ∧
      ∀ t ∈ s.inbound.map (·.topic), t ∈ s.layout.subscriptions := by
  obtain ⟨x, hx, rfl, -⟩ := session_ok hrun
  obtain ⟨y, hy, hwi, hsub⟩ := hw
  rw [hx] at hy
  cases hy
  exact ⟨x, hx, rfl, hwi, hsub⟩

theorem modify_framed {g : World → World} (h : ∀ w, (g w).peers[p]? = w.peers[p]?) :
    (framed p j wi R).MovesS (modify g : StateM World PUnit) :=
  MovesS.modify fun w hw => ⟨framed_inv hw (framed_of_peer (h w)), framed_of_peer (h w)⟩

theorem note_framed (l : LogLine) : (framed p j wi R).MovesS (note l) := modify_framed fun _ => rfl

/-- Changing the session of peer `q`: any change when `q` is another peer, a framed one when it
is peer `p`. -/
theorem modifySession_framed {q : Nat} {f : Session → Session}
    (hf : q = p → ∀ s, s.layout = wi.layout → Session.Framed j s (f s)) :
    (framed p j wi R).MovesS (modifySession q f) := by
  intro w hw
  obtain ⟨x, hx, hwi, hsub⟩ := hw
  have hr : (framed p j wi R).rel w ((modifySession q f).run w).2 := by
    intro y hy
    rw [hx] at hy
    cases hy
    by_cases hq : q = p
    · subst hq
      refine ⟨_, getElem?_modify_self hx _, hf rfl _ ?_, .refl _ _⟩
      rw [← hwi]
      rfl
    · have hr : (framed p j wi R).rel w ((modifySession q f).run w).2 :=
        framed_of_peer (by simp [modifySession_run, Array.getElem?_modify, hq])
      exact hr x hx
  exact ⟨framed_inv ⟨x, hx, hwi, hsub⟩ hr, hr⟩

theorem modifySession_framed_of_bookkeeping {q : Nat} {f : Session → Session}
    (hf : Session.Bookkeeping f) : (framed p j wi R).MovesS (modifySession q f) :=
  modifySession_framed fun _ s _ => by
    obtain ⟨hl, hi, hc, hr, hs⟩ := hf s
    exact .of_eq hl (by rw [hc]) (by rw [hc]) (by rw [hr]) (by rw [hs]) (by rw [hi])

/-- A call on the FMU of peer `q`: any call when `q` is another peer, one that writes only into
`R` from an FMU of the wired model and links when it is peer `p`. -/
theorem onDevice_framed {α : Type} {q : Nat} {act : Fmu.DeviceM α}
    (h : q = p → ∀ d : Fmu.Device, d.fmu.model = wi.model → d.fmu.links = wi.links →
      (Fmu.Device.frames R).Leads d act) :
    (framed p j wi R).Moves (onDevice q act) := by
  intro w hw
  unfold onDevice
  refine (peer_moves q w hw).bind fun y w' hrun hw' => ?_
  obtain ⟨hy, rfl⟩ := peer_ok hrun
  split
  next r d hrd =>
    have hr : (framed p j wi R).rel w' { w' with
        log := w'.log ++ d.log
        peers := w'.peers.modify q fun y => { y with device := { d with log := #[] } } } := by
      by_cases hq : q = p
      · subst hq
        intro x hx
        rw [hy] at hx
        cases hx
        obtain ⟨x, hx, hwi, -⟩ := hw'
        rw [hy] at hx
        cases hx
        have hd := (h rfl { y.device with log := #[] } (congrArg Wiring.model hwi)
          (congrArg Wiring.links hwi)).2
        rw [hrd] at hd
        exact ⟨_, getElem?_modify_self hy _, .refl j y.session, hd⟩
      · exact framed_of_peer (by simp [Array.getElem?_modify, hq])
    exact Leads.modify_bind ⟨framed_inv hw' hr, hr⟩ (lift_moves r _ (framed_inv hw' hr))

/-- A call on the FMU that moves along `frames R` from every state. -/
theorem onDevice_framed_of_moves {α : Type} {q : Nat} {act : Fmu.DeviceM α}
    (h : q = p → (Fmu.Device.frames R).Moves act) : (framed p j wi R).Moves (onDevice q act) :=
  onDevice_framed fun hq d _ _ => h hq d trivial

/-! ## Buffering and the bus -/

theorem observe_framed (q : Nat) (channel : String) (rs : List Report) :
    (framed p j wi R).MovesS (observe q channel rs) :=
  modifySession_framed_of_bookkeeping fun _ => ⟨rfl, rfl, rfl, rfl, rfl⟩

theorem published_framed (q : Nat) (channel : String) (n : Nat) :
    (framed p j wi R).MovesS (published q channel n) := by
  unfold published
  split
  · exact MovesS.pure _
  · exact modifySession_framed_of_bookkeeping fun _ => ⟨rfl, rfl, rfl, rfl, rfl⟩

theorem fail_framed (q : Nat) (f : Fault) : (framed p j wi R).MovesS (fail q f) := by
  unfold fail
  refine MovesS.bind MovesS.get fun w => ?_
  split
  · split
    · exact (note_framed _).bind fun _ =>
        modifySession_framed_of_bookkeeping fun _ => ⟨rfl, rfl, rfl, rfl, rfl⟩
    · exact MovesS.pure _
  · exact MovesS.pure _

theorem buffer_framed {κ ν : Type} [BEq κ] (q : Nat) (b : Buffer κ ν) (ts : Float) (k : κ) (v : ν) :
    (framed p j wi R).MovesS (buffer q b ts k v) := by
  unfold buffer
  refine MovesS.bind MovesS.get fun w => (observe_framed _ _ _).bind fun _ => ?_
  dsimp only
  split
  · exact (fail_framed _ _).bind fun _ => MovesS.pure _
  · exact MovesS.pure _

theorem drain_framed {κ ν : Type} [BEq κ] (q : Nat) (b : Buffer κ ν) (win : Window) :
    (framed p j wi R).MovesS (drain q b win) :=
  (observe_framed _ _ _).bind fun _ => MovesS.pure _

theorem canInsert_framed (q j' : Nat) (ts : Float) (op : Can.Operation) :
    (framed p j wi R).MovesS (deliver.canInsert q j' ts op) := by
  unfold deliver.canInsert
  refine MovesS.bind MovesS.get fun w => ?_
  split
  next =>
    split
    next =>
      split
      next => exact (buffer_framed _ _ _ _ _).bind fun _ =>
        modifySession_framed fun _ _ _ => .of_cans (fun _ => rfl) fun _ _ => rfl
      next => exact MovesS.pure _
    next => exact MovesS.pure _
  next => exact MovesS.pure _

/-- A delivered message only joins a buffer, or what a recorder heard. -/
theorem deliver_framed (e : Nat) (m : Bus.Message) : (framed p j wi R).MovesS (deliver e m) := by
  unfold deliver
  refine MovesS.bind MovesS.get fun w => ?_
  split
  next =>
    split
    next => exact modify_framed fun _ => rfl
    next =>
      split
      next =>
        split
        next => exact (buffer_framed _ _ _ _ _).bind fun _ =>
          modifySession_framed fun _ _ _ => .of_inbound fun _ => rfl
        next => exact MovesS.pure _
      next => exact MovesS.pure _
    next => exact canInsert_framed _ _ _ _
    next => exact canInsert_framed _ _ _ _
    next =>
      split
      next =>
        split
        next =>
          split
          next => exact (buffer_framed _ _ _ _ _).bind fun _ =>
            modifySession_framed fun _ _ _ => .of_clients fun _ => rfl
          next => exact MovesS.pure _
        next => exact MovesS.pure _
      next => exact MovesS.pure _
    next =>
      split
      next =>
        split
        next =>
          split
          next => exact (buffer_framed _ _ _ _ _).bind fun _ =>
            modifySession_framed fun _ _ _ => .of_servers fun _ => rfl
          next => exact MovesS.pure _
        next => exact MovesS.pure _
      next => exact MovesS.pure _
    next => exact MovesS.pure _
  next => exact MovesS.pure _

theorem perform_framed (effects : List Bus.Effect) : (framed p j wi R).MovesS (perform effects) := by
  unfold perform
  refine MovesS.forM fun e _ => ?_
  split
  · exact deliver_framed _ _
  · exact note_framed _

theorem endpoint_framed (id : Nat) : (framed p j wi R).Moves (endpoint id) := by
  unfold endpoint
  refine Moves.bind Moves.get fun w => ?_
  split
  · exact Moves.pure _
  · exact Moves.throw _

theorem attach_framed (part : Nat) (role : Bus.Role) (name : String) (h : Handler) :
    (framed p j wi R).Moves (attach part role name h) := by
  refine Moves.bind Moves.get fun _ => (lift_moves _).bind fun r => ?_
  obtain ⟨n, id⟩ := r
  exact Moves.bind (Moves.liftS (modify_framed fun _ => rfl)) fun _ => Moves.pure _

theorem freshId_framed : (framed p j wi R).MovesS freshId := by
  refine MovesS.bind MovesS.get fun w => ?_
  obtain ⟨n, id⟩ := w.network.fresh
  exact MovesS.bind (modify_framed fun _ => rfl) fun _ => MovesS.pure _

theorem publish_framed (part : Nat) (topic : String) (ts : Float) (payload : Bytes) :
    (framed p j wi R).Moves (publish part topic ts payload) :=
  Moves.bind Moves.get fun _ => (lift_moves _).bind fun _ => Moves.liftS (perform_framed _)

theorem sendFrame_framed (ctrl : Nat) (ts : Float) (f : Can.Frame) :
    (framed p j wi R).Moves (sendFrame ctrl ts f) :=
  (endpoint_framed _).bind fun _ => Moves.bind Moves.get fun _ => (lift_moves _).bind fun _ =>
    Moves.liftS (perform_framed _)

theorem callFunction_framed (client : Nat) (ts : Float) (correlation : String) (args : Bytes) :
    (framed p j wi R).Moves (callFunction client ts correlation args) := by
  refine (endpoint_framed _).bind fun _ => Moves.bind Moves.get fun _ => (lift_moves _).bind fun r => ?_
  obtain ⟨n, effects⟩ := r
  exact Moves.bind (Moves.liftS (modify_framed fun _ => rfl)) fun _ => Moves.liftS (perform_framed _)

theorem submitResult_framed (server : Nat) (ts : Float) (handle : String) (payload : Bytes) :
    (framed p j wi R).Moves (submitResult server ts handle payload) := by
  refine (endpoint_framed _).bind fun _ => Moves.bind Moves.get fun _ => (lift_moves _).bind fun r => ?_
  obtain ⟨n, effects⟩ := r
  exact Moves.bind (Moves.liftS (modify_framed fun _ => rfl)) fun _ => Moves.liftS (perform_framed _)

theorem unsubscribe_framed (id : Nat) : (framed p j wi R).MovesS (unsubscribe id) :=
  modify_framed fun _ => rfl

theorem join_framed (name : String) : (framed p j wi R).MovesS (join name) := by
  refine MovesS.bind MovesS.get fun w => ?_
  obtain ⟨n, part⟩ := w.network.join name
  exact MovesS.bind (modify_framed fun _ => rfl) fun _ => MovesS.pure _

theorem close_framed (part : Nat) : (framed p j wi R).MovesS (close part) :=
  modify_framed fun _ => rfl

/-! ## Releasing what is due -/

/-- The CAN receive of channel `j'` of peer `q` moves along a course that its parts move along:
the drain of the inbox, changes of the channel that keep its receiver, and the writes of the
receive variable and ticks of the receive clock of the channel as the session holds it. -/
theorem canReceive_moves {C : Course World} {q j' : Nat} {win : Window}
    (hdrain : ∀ b : Buffer (UInt32 × UInt32) Can.Operation, C.MovesS (drain q b win))
    (hcans : ∀ g : CanChannel → CanChannel, (∀ c, (g c).receiver = c.receiver) →
      C.MovesS (modifySession q fun s => { s with cans := s.cans.modify j' g }))
    (hnote : ∀ l, C.MovesS (note l))
    (hdevice : ∀ w s w', C.inv w → (session q).run.run w = (.ok s, w') → ∀ ch,
      s.cans[j']? = some ch → (∀ bs, C.Moves (onDevice q (writeBinary s.layout ch.rx bs))) ∧
        ∀ c, ch.rxClock = some c → C.Moves (onDevice q (tick s.layout [c.name]))) :
    C.Moves (canReceive q j' win) := by
  intro w hw
  unfold canReceive
  refine (session_moves q w hw).bind fun s w' hrun hw' => ?_
  have hdev := hdevice w s w' hw hrun
  refine (?_ : C.Moves _) w' hw'
  split
  next ch hch =>
    split
    · refine (Moves.liftS (hdrain _)).bind fun rb => ?_
      obtain ⟨r, b⟩ := rb
      refine Moves.bind (Moves.liftS (hcans _ fun _ => rfl)) fun _ => ?_
      refine (lift_moves _).bind fun items => ?_
      split
      · split
        · exact Moves.pure _
        · exact Moves.bind (Moves.liftS (hcans _ fun _ => rfl)) fun _ =>
            ((hdev ch hch).1 _).bind fun _ => Moves.pure _
      · refine (lift_moves _).bind fun _ => (Moves.liftS (hnote _)).bind fun _ => ?_
        refine ((hdev ch hch).1 _).bind fun _ => ?_
        refine Moves.bind (Moves.liftS (hcans _ fun _ => rfl)) fun _ => ?_
        split
        next c hc => exact (hdev ch hch).2 c hc
        next => exact Moves.pure _
    · exact Moves.pure _
  next => exact Moves.pure _

/-- The CAN receive of a channel other than channel `j` of peer `p` writes, on peer `p`, only
what the receive phase feeds. -/
theorem canReceive_framed {q j' : Nat} (hq : q = p → j' ≠ j ∧ ∀ r, wi.Feeds j r → R r)
    (win : Window) : (framed p j wi R).Moves (canReceive q j' win) := by
  refine canReceive_moves (fun _ => drain_framed _ _ _) (fun _ hg => modifySession_framed
    fun hp _ _ => .of_cans hg fun hj => ((hq hp).1 hj).elim) note_framed
    fun w s w' hw hrun ch hch => ?_
  -- on peer `p`, the channel's receive variable and clock are fed by the receive phase
  have hfeeds : q = p → R ch.rx.fmu.vr ∧
      ∀ c, ch.rxClock = some c → ∀ r, s.layout.Ticks [c.name] r → R r := by
    rintro rfl
    obtain ⟨x, -, rfl, hwi, -⟩ := session_wired hw hrun
    obtain ⟨hrx, hclk⟩ := Peer.feeds_receiver hch (hq rfl).1
    rw [hwi] at hrx hclk
    exact ⟨(hq rfl).2 _ hrx, fun c hc r hr => (hq rfl).2 _ (hclk c r hc hr)⟩
  refine ⟨fun bs => onDevice_framed_of_moves fun hp => ?_,
    fun c hc => onDevice_framed_of_moves fun hp => ?_⟩
  · exact writeBinary_moves (fun _ _ h => Fmu.Device.set_frames h _) _ (hfeeds hp).1 _
  · exact tick_moves (fun _ _ h => Fmu.Device.set_frames h _) _ _ fun c' hc' b hb hdir =>
      (hfeeds hp).2 c hc _ ⟨c', hc', b, hb, hdir, rfl⟩

/-- Importing the results of the calls a client made writes into their result structure. -/
theorem clientReceive_framed {q : Nat} (hR : q = p → ∀ r, wi.Feeds j r → R r) (j' : Nat)
    (win : Window) : (framed p j wi R).Moves (clientReceive q j' win) := by
  intro w hw
  unfold clientReceive
  refine (session_moves q w hw).bind fun s w' hrun hw' => ?_
  have hfeeds : q = p → ∀ ch, s.clients[j']? = some ch → ∀ r, s.layout.Imports ch.result r → R r := by
    rintro rfl ch hch r hr
    obtain ⟨x, -, rfl, hwi, -⟩ := session_wired hw hrun
    exact hR rfl _ (hwi ▸ Peer.feeds_result hch hr)
  refine (?_ : (framed p j wi R).Moves _) w' hw'
  split
  next ch hch =>
    split
    · refine (Moves.liftS (drain_framed _ _ _)).bind fun rb => ?_
      obtain ⟨r, b⟩ := rb
      refine Moves.bind (Moves.liftS (modifySession_framed fun _ _ _ =>
        .of_clients fun _ => rfl)) fun _ => ?_
      refine (lift_moves _).bind fun items => Moves.bind (Moves.forIn fun it _ _ => ?_) fun _ =>
        Moves.pure _
      refine (session_moves q).bind fun _ => ?_
      dsimp only
      split
      · exact (Moves.liftS (note_framed _)).bind fun _ => Moves.pure _
      · refine Moves.bind (Moves.liftS (modifySession_framed fun _ _ _ =>
          .of_clients fun _ => rfl)) fun _ => ?_
        refine (within_moves (onDevice_framed_of_moves fun hp => importStructure_moves Fmu.Device.get_frames
          (fun _ _ h => Fmu.Device.set_frames h _) _ _ _ fun n b hb hn =>
            hfeeds hp ch hch _ (.inl ⟨n, b, hb, hn, rfl⟩))).bind fun _ => ?_
        exact (onDevice_framed_of_moves fun hp => tick_moves (fun _ _ h => Fmu.Device.set_frames h _) _ _
          fun c hc b hb hdir => hfeeds hp ch hch _ (.inr ⟨c, hc, b, hb, hdir, rfl⟩)).bind fun _ =>
            Moves.pure _
    · exact Moves.pure _
  next => exact Moves.pure _

/-- Handing a call to the FMU writes into the argument structure of the server. -/
theorem serverReceive_framed {q : Nat} (hR : q = p → ∀ r, wi.Feeds j r → R r) (j' : Nat)
    (win : Window) : (framed p j wi R).Moves (serverReceive q j' win) := by
  intro w hw
  unfold serverReceive
  refine (session_moves q w hw).bind fun s w' hrun hw' => ?_
  have hl : q = p → s.layout = wi.layout := by
    rintro rfl
    obtain ⟨x, -, rfl, hwi, -⟩ := session_wired hw hrun
    exact congrArg Wiring.layout hwi
  refine (?_ : (framed p j wi R).Moves _) w' hw'
  split
  next ch hch =>
    split
    · refine (Moves.liftS (drain_framed _ _ _)).bind fun rb => ?_
      obtain ⟨r, b⟩ := rb
      refine Moves.bind (Moves.liftS (modifySession_framed fun _ _ _ =>
        .of_servers fun _ => rfl)) fun _ => ?_
      refine (lift_moves _).bind fun items => ?_
      refine Moves.bind (Moves.liftS (modifySession_framed fun _ _ _ =>
        .of_servers fun _ => rfl)) fun _ => ?_
      refine fun w₁ hw₁ => (session_moves q w₁ hw₁).bind fun s' w₂ hrun' hw₂ => ?_
      -- the call is imported into the argument structure of the channel as it is now, which
      -- is still the one the session was wired with
      have hfeeds : q = p → ∀ ch', s'.servers[j']? = some ch' →
          ∀ r, s.layout.Imports ch'.args r → R r := by
        rintro rfl ch' hch' r hr
        obtain ⟨x, -, rfl, hwi, -⟩ := session_wired hw₁ hrun'
        rw [hl rfl, ← hwi] at hr
        exact hR rfl _ (hwi ▸ Peer.feeds_args hch' hr)
      refine (?_ : (framed p j wi R).Moves _) w₂ hw₂
      split
      next ch' hch' =>
        split
        · exact Moves.pure _
        · split
          · refine Moves.bind (Moves.liftS (modifySession_framed fun _ _ _ =>
              .of_servers fun _ => rfl)) fun _ => ?_
            refine (within_moves (onDevice_framed_of_moves fun hp => importStructure_moves
              Fmu.Device.get_frames (fun _ _ h => Fmu.Device.set_frames h _) _ _ _ fun n b hb hn =>
                hfeeds hp ch' hch' _ (.inl ⟨n, b, hb, hn, rfl⟩))).bind fun _ => ?_
            refine (onDevice_framed_of_moves fun hp => tick_moves
              (fun _ _ h => Fmu.Device.set_frames h _) _ _ fun c hc b hb hdir =>
                hfeeds hp ch' hch' _ (.inr ⟨c, hc, b, hb, hdir, rfl⟩)).bind fun _ => ?_
            exact Moves.bind (Moves.liftS (modifySession_framed fun _ _ _ =>
              .of_servers fun _ => rfl)) fun _ => Moves.liftS (note_framed _)
          · exact Moves.pure _
      next => exact Moves.pure _
    · exact Moves.pure _
  next => exact Moves.pure _

/-- The receive of peer `q` first imports the due samples of its input topics, by an action
that moves along every course its parts move along, and then releases what is due on its CAN
channels, remote function clients and servers, channel by channel. -/
theorem receive_split (q : Nat) (win : Window) : ∃ inputs : Session → Sim PUnit,
    (∀ C : Course World, (∀ {κ ν : Type} [BEq κ] (b : Buffer κ ν), C.MovesS (drain q b win)) →
      (∀ (j' : Nat) (b : Buffer String Bytes), C.MovesS (modifySession q fun s =>
        { s with inbound := s.inbound.modify j' fun i => { i with buffer := b } })) →
      ∀ s : Session, (∀ i ∈ s.inbound, ∀ payload,
        C.Moves (onDevice q (s.layout.importTopic i.topic payload))) → C.Moves (inputs s)) ∧
    receive q win = (do
      let s ← session q
      inputs s
      for j in List.range s.cans.length do canReceive q j win
      for j in List.range s.clients.length do clientReceive q j win
      for j in List.range s.servers.length do serverReceive q j win) := by
  refine ⟨_, ?_, rfl⟩
  intro C hdrain hinbound s himport
  refine Moves.forIn fun ij hij _ => ?_
  obtain ⟨i, j'⟩ := ij
  refine (session_moves q).bind fun _ => ?_
  split
  · refine (Moves.liftS (hdrain _)).bind fun rb => ?_
    obtain ⟨r, b⟩ := rb
    refine Moves.bind (Moves.liftS (hinbound _ _)) fun _ => ?_
    refine (lift_moves _).bind fun items => Moves.bind (Moves.forIn fun it _ _ => ?_) fun _ =>
      Moves.pure _
    exact (within_moves (himport i (List.fst_mem_of_mem_zipIdx hij) _)).bind fun _ => Moves.pure _
  · exact Moves.pure _

/-- The receive of peer `q` moves along a course that its parts move along. -/
theorem receive_moves {C : Course World} {q : Nat} {win : Window}
    (hdrain : ∀ {κ ν : Type} [BEq κ] (b : Buffer κ ν), C.MovesS (drain q b win))
    (hinbound : ∀ (j' : Nat) (b : Buffer String Bytes), C.MovesS (modifySession q fun s =>
      { s with inbound := s.inbound.modify j' fun i => { i with buffer := b } }))
    (himport : ∀ w s w', C.inv w → (session q).run.run w = (.ok s, w') → ∀ i ∈ s.inbound,
      ∀ payload, C.Moves (onDevice q (s.layout.importTopic i.topic payload)))
    (hcan : ∀ j', C.Moves (canReceive q j' win)) (hclient : ∀ j', C.Moves (clientReceive q j' win))
    (hserver : ∀ j', C.Moves (serverReceive q j' win)) : C.Moves (receive q win) := by
  obtain ⟨inputs, hinputs, heq⟩ := receive_split q win
  rw [heq]
  intro w hw
  refine (session_moves q w hw).bind fun s w' hrun hw' => ?_
  refine (?_ : C.Moves _) w' hw'
  refine (hinputs C hdrain hinbound s (himport w s w' hw hrun)).bind fun _ => ?_
  refine Moves.bind (Moves.forIn fun j' _ _ => (hcan j').bind fun _ => Moves.pure _) fun _ => ?_
  refine Moves.bind (Moves.forIn fun j' _ _ => (hclient j').bind fun _ => Moves.pure _) fun _ => ?_
  exact Moves.bind (Moves.forIn fun j' _ _ => (hserver j').bind fun _ => Moves.pure _) fun _ =>
    Moves.pure _

/-- An input topic of peer `p` is one of the layout's subscriptions, so importing it writes what
the receive phase feeds. -/
theorem importTopic_framed {q : Nat} (hR : q = p → ∀ r, wi.Feeds j r → R r) {w w' : World}
    {s : Session} (hw : (framed p j wi R).inv w) (hrun : (session q).run.run w = (.ok s, w'))
    (i : Inbound) (hi : i ∈ s.inbound) (payload : Bytes) :
    (framed p j wi R).Moves (onDevice q (s.layout.importTopic i.topic payload)) := by
  refine onDevice_framed_of_moves fun hp => importTopic_moves Fmu.Device.get_frames
    (fun _ _ h => Fmu.Device.set_frames h _) _ _ _ fun r hr => ?_
  subst hp
  obtain ⟨x, -, rfl, hwi, hsub⟩ := session_wired hw hrun
  exact hR rfl _ (hwi ▸ Peer.feeds_topic (hsub _ (List.mem_map_of_mem hi)) hr)

/-- The receive of peer `q` moves along `framed` once its CAN receives do. -/
theorem receive_framed {q : Nat} (hR : q = p → ∀ r, wi.Feeds j r → R r) {win : Window}
    (hcan : ∀ j', (framed p j wi R).Moves (canReceive q j' win)) :
    (framed p j wi R).Moves (receive q win) :=
  receive_moves (fun _ => drain_framed _ _ _)
    (fun _ _ => modifySession_framed fun _ _ _ => .of_inbound fun _ => rfl)
    (fun _ _ _ hw hrun => importTopic_framed hR hw hrun) hcan
    (fun j' => clientReceive_framed hR j' win) (fun j' => serverReceive_framed hR j' win)

/-! ## Publishing what the FMU produced -/

theorem canTransmit_framed (q j' : Nat) (ts : Float) :
    (framed p j wi R).Moves (canTransmit q j' ts) := by
  unfold canTransmit
  refine (session_moves q).bind fun s => ?_
  split
  · refine (onDevice_framed_of_moves fun _ =>
      clockActive_moves Fmu.Device.get_frames _).bind fun _ => ?_
    split
    · exact Moves.pure _
    · refine (onDevice_framed_of_moves fun _ =>
        readBinary_moves Fmu.Device.get_frames _).bind fun _ => ?_
      refine (lift_moves _).bind fun ops => ?_
      refine Moves.bind (Moves.forIn fun op _ sent => ?_) fun _ =>
        Moves.liftS (published_framed _ _ _)
      dsimp only
      split
      · exact (sendFrame_framed _ _ _).bind fun _ => Moves.pure _
      · exact Moves.pure _
  · exact Moves.pure _

theorem clientCall_framed (q j' : Nat) (ts : Float) : (framed p j wi R).Moves (clientCall q j' ts) := by
  unfold clientCall
  refine (session_moves q).bind fun s => ?_
  split
  · refine (onDevice_framed_of_moves fun _ =>
      anyTicked_moves Fmu.Device.get_frames _ _).bind fun _ => ?_
    split
    · exact Moves.pure _
    · refine (within_moves (onDevice_framed_of_moves fun _ =>
        exportStructure_moves Fmu.Device.get_frames _ _)).bind fun _ => ?_
      refine (Moves.liftS freshId_framed).bind fun id => ?_
      refine Moves.bind (Moves.liftS (modifySession_framed fun _ _ _ =>
        .of_clients fun _ => rfl)) fun _ => ?_
      refine Moves.bind (Moves.tryCatch (callFunction_framed _ _ _ _) fun _ =>
        Moves.bind (Moves.liftS (modifySession_framed fun _ _ _ => .of_clients fun _ => rfl))
          fun _ => Moves.throw _) fun _ => ?_
      exact (Moves.liftS (note_framed _)).bind fun _ => Moves.liftS (published_framed _ _ _)
  · exact Moves.pure _

theorem serverRespond_framed (q j' : Nat) (ts : Float) :
    (framed p j wi R).Moves (serverRespond q j' ts) := by
  unfold serverRespond
  refine (session_moves q).bind fun s => ?_
  split
  · split
    · refine (onDevice_framed_of_moves fun _ =>
        anyTicked_moves Fmu.Device.get_frames _ _).bind fun _ => ?_
      split
      · exact Moves.pure _
      · refine (within_moves (onDevice_framed_of_moves fun _ =>
          exportStructure_moves Fmu.Device.get_frames _ _)).bind fun _ => ?_
        refine Moves.bind (Moves.liftS (modifySession_framed fun _ _ _ =>
          .of_servers fun _ => rfl)) fun _ => ?_
        exact (submitResult_framed _ _ _ _).bind fun _ => Moves.liftS (published_framed _ _ _)
    · exact Moves.pure _
  · exact Moves.pure _

/-- Publishing reads the FMU and writes nothing into it. -/
theorem send_framed (q : Nat) (ts : Float) : (framed p j wi R).Moves (send q ts) := by
  unfold send
  refine (peer_moves q).bind fun x => ?_
  refine Moves.bind (Moves.forIn fun t _ _ => ?_) fun _ => ?_
  · refine (onDevice_framed_of_moves fun _ => active_moves Fmu.Device.get_frames _ _).bind
      fun _ => ?_
    split
    · exact Moves.pure _
    · refine (within_moves (onDevice_framed_of_moves fun _ =>
        exportTopic_moves Fmu.Device.get_frames _ _)).bind fun _ => ?_
      exact Moves.bind (Moves.liftS (modifySession_framed_of_bookkeeping
        fun _ => ⟨rfl, rfl, rfl, rfl, rfl⟩)) fun _ => Moves.pure _
  refine (session_moves q).bind fun s => ?_
  refine Moves.bind (Moves.liftS (modifySession_framed_of_bookkeeping
    fun _ => ⟨rfl, rfl, rfl, rfl, rfl⟩)) fun _ => ?_
  refine Moves.bind (Moves.forIn fun tp _ _ => ?_) fun _ => ?_
  · exact (within_moves (publish_framed _ _ _ _)).bind fun _ =>
      (Moves.liftS (published_framed _ _ _)).bind fun _ => Moves.pure _
  refine Moves.bind (Moves.forIn fun j' _ _ => ?_) fun _ => ?_
  · exact (canTransmit_framed q j' ts).bind fun _ => Moves.pure _
  refine Moves.bind (Moves.forIn fun j' _ _ => ?_) fun _ => ?_
  · exact (clientCall_framed q j' ts).bind fun _ => Moves.pure _
  refine Moves.bind (Moves.forIn fun j' _ _ => ?_) fun _ => Moves.pure _
  exact (serverRespond_framed q j' ts).bind fun _ => Moves.pure _

/-! ## Steps, connections and termination -/

section Lifecycle

variable {C : Course World} {q : Nat}

/-- A step of peer `q` moves along a course that its parts move along. -/
theorem step_moves (hbook : ∀ f, Session.Bookkeeping f → C.MovesS (modifySession q f))
    (hnote : ∀ l, C.MovesS (note l)) (hreceive : ∀ win, C.Moves (receive q win))
    (hdo : ∀ t h, C.Moves (onDevice q (Fmu.Device.doStep t h)))
    (hsend : ∀ ts, C.Moves (send q ts)) : C.Moves (step q) := by
  unfold step
  refine (session_moves q).bind fun s => ?_
  dsimp only
  split
  · exact fun w hw => Leads.stay hw rfl
  · exact fun w hw => Leads.stay hw rfl
  split
  · exact fun w hw => Leads.stay hw rfl
  refine Moves.bind (Moves.liftS (hbook _ fun _ => ⟨rfl, rfl, rfl, rfl, rfl⟩)) fun _ => ?_
  refine (hreceive _).bind fun _ => (hdo _ _).bind fun reached => ?_
  refine Moves.bind (Moves.liftS (hbook _ fun _ => ⟨rfl, rfl, rfl, rfl, rfl⟩)) fun _ => ?_
  refine (hsend _).bind fun _ => ?_
  refine Moves.bind (Moves.liftS (hbook _ fun _ => ⟨rfl, rfl, rfl, rfl, rfl⟩)) fun _ => ?_
  refine (Moves.liftS (hnote _)).bind fun _ => (session_moves q).bind fun _ => ?_
  split
  · exact Moves.throw _
  · exact Moves.pure _

theorem stepUntil_moves (hstep : C.Moves (step q)) (horizon : Float) :
    ∀ fuel, C.Moves (stepUntil q horizon fuel)
  | 0 => Moves.pure _
  | fuel + 1 => (session_moves q).bind fun _ => by
    split
    · exact hstep.bind fun _ => stepUntil_moves hstep horizon fuel
    · exact Moves.pure _

theorem run_moves (hnote : ∀ l, C.MovesS (note l)) (hstep : C.Moves (step q)) (horizon : Float) :
    C.Moves (run q horizon) :=
  (session_moves q).bind fun _ => (Moves.liftS (hnote _)).bind fun _ =>
    (stepUntil_moves hstep horizon _).bind fun _ => (session_moves q).bind fun _ =>
      Moves.liftS (hnote _)

end Lifecycle

/-- A step of another peer reaches peer `p` only through the bus. -/
theorem step_framed {q : Nat} (hq : q ≠ p) : (framed p j wi R).Moves (step q) :=
  step_moves (fun _ hf => modifySession_framed_of_bookkeeping hf) note_framed
    (fun win => receive_framed (fun h => absurd h hq) fun _ =>
      canReceive_framed (fun h => absurd h hq) win)
    (fun _ _ => onDevice_framed_of_moves fun h => absurd h hq) (send_framed q)

theorem run_framed {q : Nat} (hq : q ≠ p) (horizon : Float) : (framed p j wi R).Moves (run q horizon) :=
  run_moves note_framed (step_framed hq) horizon

/-- Connecting attaches endpoints, subscribes to the layout's topics and names the inboxes. -/
theorem connect_framed (q : Nat) : (framed p j wi R).Moves (connect q) := by
  intro w hw
  unfold connect
  refine (peer_moves q w hw).bind fun x w' hrun hw' => ?_
  obtain ⟨hx, rfl⟩ := peer_ok hrun
  -- the topics subscribed to are those of the layout peer `p` is wired with
  have hl : q = p → x.session.layout = wi.layout := by
    rintro rfl
    obtain ⟨y, hy, hwi, -⟩ := hw
    rw [hx] at hy
    cases hy
    exact congrArg Wiring.layout hwi
  refine (?_ : (framed p j wi R).Moves _) w' hw'
  dsimp only
  split
  · exact fun w hw => Leads.stay hw rfl
  refine Moves.bind (Moves.forIn fun t ht _ => ?_) fun _ => ?_
  · refine (session_moves q).bind fun _ => (within_moves (attach_framed _ _ _ _)).bind fun id => ?_
    refine Moves.bind (Moves.liftS (modifySession_framed fun hp s hs => ?_)) fun _ => Moves.pure _
    exact .of_subscribe (by rw [hs, ← hl hp]; exact ht)
  refine Moves.bind (Moves.forIn fun ch _ _ => ?_) fun _ => ?_
  · exact (within_moves (attach_framed _ _ _ _)).bind fun _ => Moves.bind (Moves.liftS
      (modifySession_framed fun _ _ _ => .of_cans (fun _ => rfl) fun _ _ => rfl)) fun _ =>
        Moves.pure _
  refine Moves.bind (Moves.forIn fun ch _ _ => ?_) fun _ => ?_
  · exact (within_moves (attach_framed _ _ _ _)).bind fun _ => Moves.bind (Moves.liftS
      (modifySession_framed fun _ _ _ => .of_clients fun _ => rfl)) fun _ => Moves.pure _
  refine Moves.bind (Moves.forIn fun ch _ _ => ?_) fun _ => ?_
  · exact (within_moves (attach_framed _ _ _ _)).bind fun _ => Moves.bind (Moves.liftS
      (modifySession_framed fun _ _ _ => .of_servers fun _ => rfl)) fun _ => Moves.pure _
  exact Moves.bind (Moves.liftS (modifySession_framed_of_bookkeeping
    fun _ => ⟨rfl, rfl, rfl, rfl, rfl⟩)) fun _ => Moves.liftS (note_framed _)

/-- Terminating stops the buffers and the FMU and writes nothing into it. -/
theorem terminate_framed (q : Nat) : (framed p j wi R).Moves (terminate q) := by
  unfold terminate
  refine (session_moves q).bind fun s => ?_
  split
  · exact Moves.pure _
  refine Moves.bind (Moves.liftS (modifySession_framed_of_bookkeeping
    fun _ => ⟨rfl, rfl, rfl, rfl, rfl⟩)) fun _ => ?_
  refine Moves.bind (Moves.forIn fun i _ _ =>
    (Moves.liftS (unsubscribe_framed _)).bind fun _ => Moves.pure _) fun _ => ?_
  refine Moves.bind (Moves.liftS (modifySession_framed fun _ s _ => .of_eq rfl ?_ ?_ ?_ ?_ ?_))
    fun _ => (Moves.liftS (note_framed _)).bind fun _ =>
      onDevice_framed_of_moves fun _ => Fmu.Device.terminate_frames
  all_goals simp [List.map_map, Function.comp_def, List.getElem?_map, Option.map_map,
    CanChannel.receiver]

end World

end CoSimBridge