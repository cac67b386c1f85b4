import Mathlib
import CoSimBridge.Proofs.Session.Courses
/-!
# The lifecycle of a session

Whatever calls the clients of a bus make, and in whatever order, every session moves only
forward through created, initialized, running and terminated, and its time moves only with the
steps of its FMU.

The calls are `Call`: the lifecycle calls on the session of a peer (connect, which initializes
it, step, run and terminate) and the traffic of the bus (publishing, sending frames, calling
remote functions and answering calls, attaching and detaching endpoints, joining and leaving).
`Reachable w₀` holds of every world a sequence of calls leads to from `w₀`, each call succeeding
or failing.

Each lifecycle call on peer `p` moves along `around p`: peer `p` ahead, every other peer still.
Bus traffic moves along `still`. For a step, the course `paced p n` adds that peer `p` has taken
at most `n` steps of its FMU; a step from `n` steps is paced by `n + 1`, which is how a step calls
the FMU at most once. From these, `session_lifecycle`: from a sane world, every reachable world is
sane and every peer in it is ahead of where it started, the next call moves along its course,
and each lifecycle call keeps its promise (`Call.Effect`):

* connecting succeeds only from created, and leaves the session initialized;
* a step of a created session fails, a step of a terminated session answers that it has
  terminated, and a step of an initialized or running session that recorded a failure answers
  that failure, each leaving the world as it was;
* terminating always succeeds: once terminated it does nothing, and otherwise it terminates the
  session, its buffers and its FMU, which was live until then.
-/

namespace CoSimBridge

open Course Delivery Layout

theorem Phase.rank_le_terminated (φ : Phase) : φ.rank ≤ Phase.terminated.rank := by
  cases φ <;> decide

theorem Array.modify_modify_self {α : Type} (xs : Array α) (i : Nat) (f g : α → α) :
    (xs.modify i f).modify i g = xs.modify i (g ∘ f) := by
  apply Array.ext_getElem?
  intro j
  simp only [Array.getElem?_modify]
  split <;> simp

namespace World

/-! ## Moving one peer ahead -/

theorem Sane.modify {w w' : World} (hw : w.Sane) {p : Nat} {g : Peer → Peer}
    (hpeers : w'.peers = w.peers.modify p g) (hg : ∀ x, w.peers[p]? = some x → (g x).Sane) :
    w'.Sane := by
  intro q y hy
  rw [hpeers, Array.getElem?_modify] at hy
  split at hy
  · subst_vars
    obtain ⟨x, hx, rfl⟩ := Option.map_eq_some_iff.mp hy
    exact hg x hx
  · exact hw q y hy

/-- Moving peer `p` ahead and leaving the others as they were. -/
theorem around_of_modify {w w' : World} (hw : w.Sane) {p : Nat} {g : Peer → Peer}
    (hpeers : w'.peers = w.peers.modify p g)
    (hg : ∀ x, w.peers[p]? = some x → Peer.Ahead x (g x) ∧ (g x).Sane) :
    (around p).inv w' ∧ (around p).rel w w' :=
  ⟨Sane.modify hw hpeers fun x hx => (hg x hx).2,
    Pointwise.modify (fun _ x => ⟨Peer.Ahead.refl x, fun _ => Peer.Still.refl x⟩) hpeers
      fun x hx => ⟨(hg x hx).1, fun h => absurd rfl h⟩⟩

theorem modifySession_around {w : World} (hw : w.Sane) {p : Nat} {f : Session → Session}
    (h : ∀ x, w.peers[p]? = some x →
      Peer.Ahead x { x with session := f x.session } ∧
        Peer.Sane { x with session := f x.session }) :
    (around p).Leads w (liftM (modifySession p f) : Sim PUnit) :=
  around_of_modify hw rfl h

/-- An action that keeps every peer still while peer `p` is live, followed by one that moves
peer `p` ahead from wherever the first one left the world. -/
theorem Leads.around_of_live {α β : Type} {w : World} {p : Nat} (hw : (live p).inv w) {act : Sim α}
    (h : (live p).Moves act) {f : α → Sim β}
    (hf : ∀ a w', act.run.run w = (.ok a, w') → (live p).inv w' →
      Pointwise (fun _ => Peer.Still) w w' → (around p).Leads w' (f a)) :
    (around p).Leads w (act >>= f) := by
  obtain ⟨hi, hr⟩ := h w hw
  refine Leads.bind ⟨hi.1, Pointwise.mono (fun hxy => ⟨Peer.Still.ahead hxy, fun _ => hxy⟩) hr⟩
    fun a w' hrun _ => ?_
  rw [hrun] at hi hr
  exact hf a w' hrun hi hr

theorem Leads.modifySession_bind {β : Type} {C : Course World} {w : World} {p : Nat}
    {f : Session → Session} {k : PUnit → Sim β}
    (hm : C.Leads w (liftM (modifySession p f) : Sim PUnit))
    (hk : C.Leads { w with peers := w.peers.modify p fun x => { x with session := f x.session } }
      (k ⟨⟩)) :
    C.Leads w (liftM (modifySession p f) >>= k) :=
  ⟨hk.1, C.trans hm.2 hk.2⟩

theorem getElem?_modify_self {w : World} {p : Nat} {x : Peer} (hx : w.peers[p]? = some x)
    (g : Peer → Peer) :
    ({ w with peers := w.peers.modify p g } : World).peers[p]? = some (g x) := by
  simp only [Array.getElem?_modify, if_pos, hx]
  rfl

theorem peer_run {w : World} {p : Nat} {x : Peer} (hx : w.peers[p]? = some x) :
    (peer p).run.run w = (.ok x, w) := by
  unfold peer
  rw [run_bind, run_get]
  simp only [hx]
  rfl

theorem session_run {w : World} {p : Nat} {x : Peer} (hx : w.peers[p]? = some x) :
    (session p).run.run w = (.ok x.session, w) := by
  unfold session
  rw [run_bind, peer_run hx]
  rfl

/-- A call on a peer that is not there fails when it reads the session, and changes nothing. -/
theorem Leads.of_absent {β : Type} {C : Course World} {w : World} (hw : C.inv w) {p : Nat}
    (hx : w.peers[p]? = none) {k : Session → Sim β} : C.Leads w (session p >>= k) :=
  (session_moves p w hw).bind fun _ _ hrun _ => by
    obtain ⟨x, hx', -⟩ := session_ok hrun
    rw [hx] at hx'
    cases hx'

/-! ## Initializing -/

/-- Attaching an endpoint and recording it in the session of peer `p` leaves every lifecycle
alone. -/
theorem attachRecord_live (p : Nat) (ctx : String) (part : Nat) (role : Bus.Role) (name : String)
    (h : Handler) {f : Nat → Session → Session} (hf : ∀ id, Session.Clerical (f id)) :
    (live p).Moves (do
      let id ← within ctx (attach part role name h)
      liftM (modifySession p (f id))
      pure (ForInStep.yield PUnit.unit) : Sim (ForInStep PUnit)) :=
  ((within_moves (attach_still part role name h)).live p).bind fun id =>
    Moves.bind (Moves.liftS (modifySession_live (hf id))) fun _ => Moves.pure _

theorem connect_around (p : Nat) : (around p).Moves (connect p) := by
  intro w hw
  unfold connect
  refine (peer_moves p w hw).bind fun x w' hrun _ => ?_
  obtain ⟨hx, rfl⟩ := peer_ok hrun
  dsimp only
  split
  · exact Leads.stay hw rfl
  rename_i hphase
  have hc : x.session.phase = .created := by simpa using hphase
  have hl : (live p).inv w' := ⟨hw, fun y hy => by
    rw [hx] at hy
    cases hy
    rw [hc]
    decide⟩
  -- the endpoints are attached while the session is created, and only then is it initialized
  refine Leads.around_of_live hl (Moves.forIn fun t _ _ => (session_moves p).bind fun _ =>
    attachRecord_live p _ _ _ _ _ fun _ _ => by rfl) fun _ w₁ _ hl₁ h₁ => ?_
  refine Leads.around_of_live hl₁ (Moves.forIn fun ch _ _ =>
    attachRecord_live p _ _ _ _ _ fun _ _ => by rfl) fun _ w₂ _ hl₂ h₂ => ?_
  refine Leads.around_of_live hl₂ (Moves.forIn fun ch _ _ =>
    attachRecord_live p _ _ _ _ _ fun _ _ => by rfl) fun _ w₃ _ hl₃ h₃ => ?_
  refine Leads.around_of_live hl₃ (Moves.forIn fun ch _ _ =>
    attachRecord_live p _ _ _ _ _ fun _ _ => by rfl) fun _ w₄ _ hl₄ h₄ => ?_
  have hst : Pointwise (fun _ => Peer.Still) w' w₄ :=
    still.trans (still.trans (still.trans h₁ h₂) h₃) h₄
  refine Leads.bind (modifySession_around hl₄.1 fun y hy => ?_) fun _ w₅ _ hw₅ =>
    (Moves.liftS (note_still _)).around p w₅ hw₅
  obtain ⟨x', hx', hxy⟩ := hst.back hy
  rw [hx] at hx'
  cases hx'
  have hyc : y.session.phase = .created := hxy.phase.trans hc
  refine ⟨⟨by simp [hyc, Phase.rank], fun _ h => h, rfl, le_rfl, by simp, fun _ => rfl,
    fun ht => absurd ht (by rw [hyc]; decide)⟩,
    ⟨(fun h => by cases h), fun _ => ?_, fun h => by cases h⟩⟩
  exact (hl₄.1 p y hy).live (by rw [hyc]; decide)

/-- A session is initialized only from created, and it is then initialized. -/
theorem connect_initializes {w w' : World} (hw : w.Sane) {p : Nat}
    (h : (connect p).run.run w = (.ok (), w')) :
    (∃ x, w.peers[p]? = some x ∧ x.session.phase = .created) ∧
      ∃ x', w'.peers[p]? = some x' ∧ x'.session.phase = .initialized := by
  have hr := (connect_around p w hw).2
  rw [h] at hr
  unfold connect at h
  obtain ⟨x, w₁, h₁, hk⟩ := run_bind_ok h
  obtain ⟨hx, rfl⟩ := peer_ok h₁
  dsimp only at hk
  split at hk
  · cases hk
  rename_i hphase
  refine ⟨⟨x, hx, by simpa using hphase⟩, ?_⟩
  obtain ⟨x', hx', -⟩ := hr.2 p x hx
  refine ⟨x', hx', ?_⟩
  -- past the four loops only the last change of the session is left
  obtain ⟨_, W₁, -, hk⟩ := run_bind_ok hk
  obtain ⟨_, W₂, -, hk⟩ := run_bind_ok hk
  obtain ⟨_, W₃, -, hk⟩ := run_bind_ok hk
  obtain ⟨_, W₄, -, hk⟩ := run_bind_ok hk
  obtain ⟨_, W₅, h₅, hk⟩ := run_bind_ok hk
  rw [run_liftS, Prod.mk.injEq] at h₅ hk
  rw [← hk.2, ← h₅.2, modifySession_run] at hx'
  change (W₄.peers.modify p _)[p]? = some x' at hx'
  rw [Array.getElem?_modify, if_pos rfl] at hx'
  obtain ⟨y, -, rfl⟩ := Option.map_eq_some_iff.mp hx'
  rfl

/-! ## Stepping -/

/-- A step of a live FMU through the binding: it reaches `t + h` and counts one step. -/
theorem onDevice_doStep {w : World} {p : Nat} {y : Peer} (hy : w.peers[p]? = some y)
    (hlive : y.device.fmu.terminated = false) (t h : Float) :
    ∃ d : Fmu.Device, (onDevice p (Fmu.Device.doStep t h)).run.run w =
        (.ok (t + h), { w with log := w.log ++ d.log,
                               peers := w.peers.modify p fun x => { x with device := { d with log := #[] } } }) ∧
      d.fmu.steps = y.device.fmu.steps + 1 ∧ d.fmu.terminated = false := by
  obtain ⟨d, hrun, hsteps, hterm⟩ :=
    Fmu.Device.doStep_live (d := { y.device with log := #[] }) hlive t h
  refine ⟨d, ?_, hsteps, hterm⟩
  unfold onDevice
  rw [run_bind, peer_run hy]
  simp only [hrun]
  rfl

/-- The steps peer `p` has taken are at most `n`. -/
def StepsAtMost (p n : Nat) (w : World) : Prop :=
  ∀ y : Peer, w.peers[p]? = some y → y.device.fmu.steps ≤ n

/-- Peer `p` ahead, every other peer still, and peer `p` at most `n` steps in. -/
def paced (p n : Nat) : Course World where
  inv w := w.Sane ∧ w.StepsAtMost p n
  rel := (around p).rel
  refl := (around p).refl
  trans := (around p).trans

theorem StepsAtMost.of_still {p n : Nat} {w w' : World} (h : w.StepsAtMost p n)
    (hs : Pointwise (fun _ => Peer.Still) w w') : w'.StepsAtMost p n := by
  intro y hy
  obtain ⟨x, hx, hxy⟩ := hs.back hy
  rw [hxy.steps]
  exact h x hx

theorem Moves.paced {α : Type} {act : Sim α} (h : still.Moves act) (p n : Nat) :
    (paced p n).Moves act :=
  Moves.mono h (fun _ hs => hs.1) fun hs hs' hr =>
    ⟨⟨hs', hs.2.of_still hr⟩, Pointwise.mono (fun hxy => ⟨Peer.Still.ahead hxy, fun _ => hxy⟩) hr⟩

theorem Leads.paced_of_live {α β : Type} {w : World} {p n : Nat} (hw : (paced p n).inv w)
    (hl : w.Live p) {act : Sim α} (h : (live p).Moves act) {f : α → Sim β}
    (hf : ∀ a w', act.run.run w = (.ok a, w') → (paced p n).inv w' →
      Pointwise (fun _ => Peer.Still) w w' → (paced p n).Leads w' (f a)) :
    (paced p n).Leads w (act >>= f) := by
  obtain ⟨hi, hr⟩ := h w ⟨hw.1, hl⟩
  refine Leads.bind ⟨⟨hi.1, hw.2.of_still hr⟩,
    Pointwise.mono (fun hxy => ⟨Peer.Still.ahead hxy, fun _ => hxy⟩) hr⟩ fun a w' hrun hi' => ?_
  rw [hrun] at hr
  exact hf a w' hrun hi' hr

/-- A step of peer `p`'s FMU and the session's time set to the time it reached: the peer moves
one step ahead. -/
theorem clock_paced {β : Type} {w : World} {p n : Nat} (hw : (paced p n).inv w) {y : Peer}
    (hy : w.peers[p]? = some y) (hph : y.session.phase ≠ .terminated)
    (hn : y.device.fmu.steps + 1 ≤ n) {k : Float → Sim β}
    (hk : ∀ w', (paced p n).inv w' → (paced p n).Leads w' (k (y.session.now + y.session.step))) :
    (paced p n).Leads w (onDevice p (Fmu.Device.doStep y.session.now y.session.step) >>= fun reached =>
      (liftM (modifySession p fun s => { s with now := reached, window := ⟨reached, reached + s.step⟩ }) :
        Sim PUnit) >>= fun _ => k reached) := by
  have hlive := (hw.1 p y hy).live hph
  obtain ⟨d, hrun, hsteps, hterm⟩ := onDevice_doStep hy hlive y.session.now y.session.step
  -- the FMU's new state and the session's new time, written one after the other
  let g₁ : Peer → Peer := fun x => { x with device := { d with log := #[] } }
  let g₂ : Peer → Peer := fun x => { x with session := { x.session with
    now := y.session.now + y.session.step,
    window := ⟨y.session.now + y.session.step, y.session.now + y.session.step + x.session.step⟩ } }
  let w' : World := { w with log := w.log ++ d.log, peers := (w.peers.modify p g₁).modify p g₂ }
  have hrun' : (onDevice p (Fmu.Device.doStep y.session.now y.session.step) >>= fun reached =>
      (liftM (modifySession p fun s => { s with now := reached, window := ⟨reached, reached + s.step⟩ }) :
        Sim PUnit) >>= fun _ => k reached).run.run w = (k (y.session.now + y.session.step)).run.run w' := by
    rw [run_bind, hrun]
    rfl
  have hpeers : w'.peers = w.peers.modify p (g₂ ∘ g₁) := Array.modify_modify_self w.peers p g₁ g₂
  have hmove := around_of_modify hw.1 hpeers fun x hx => by
    rw [hy] at hx
    cases hx
    have hahead : y.device.fmu.steps ≤ d.fmu.steps := by omega
    have hnow : y.session.now + y.session.step =
        (· + y.session.step)^[d.fmu.steps - y.device.fmu.steps] y.session.now := by simp [hsteps]
    exact ⟨⟨le_rfl, fun _ h => h, rfl, hahead, hnow, fun _ => hterm.trans hlive.symm,
      fun ht => absurd ht hph⟩, ⟨fun ht => absurd ht hph, fun _ => hterm, fun ht => absurd ht hph⟩⟩
  refine Leads.shift hrun' hmove.2 (hk w' ⟨hmove.1, fun z hz => ?_⟩)
  rw [hpeers, Array.getElem?_modify, if_pos rfl, hy] at hz
  cases hz
  change d.fmu.steps ≤ n
  omega

theorem modifySession_paced {w : World} {p n : Nat} (hw : (paced p n).inv w) {f : Session → Session}
    (h : ∀ x, w.peers[p]? = some x →
      Peer.Ahead x { x with session := f x.session } ∧
        Peer.Sane { x with session := f x.session }) :
    (paced p n).Leads w (liftM (modifySession p f) : Sim PUnit) := by
  obtain ⟨hs, hr⟩ := modifySession_around hw.1 h
  refine ⟨⟨hs, fun y hy => ?_⟩, hr⟩
  -- the session changes and the FMU stays as it was
  change (w.peers.modify p fun x => { x with session := f x.session })[p]? = some y at hy
  rw [Array.getElem?_modify, if_pos rfl] at hy
  obtain ⟨x, hx, rfl⟩ := Option.map_eq_some_iff.mp hy
  exact hw.2 x hx

/-- A step of a session that is initialized or running and has recorded no failure: its FMU
takes one step, and the session's time moves by one step size. -/
theorem step_paced (p : Nat) {w : World} (hw : w.Sane) {x : Peer} (hx : w.peers[p]? = some x) :
    (paced p (x.device.fmu.steps + 1)).Leads w (step p) := by
  have hi : (paced p (x.device.fmu.steps + 1)).inv w := ⟨hw, fun y hy => by
    rw [hx] at hy
    cases hy
    omega⟩
  unfold step
  refine (session_moves p w hi).bind fun s w' hrun _ => ?_
  obtain ⟨x', hx', rfl, rfl⟩ := session_ok hrun
  rw [hx] at hx'
  cases hx'
  dsimp only
  split
  · exact Leads.stay hi rfl
  · exact Leads.stay hi rfl
  rename_i hnt hnc
  split
  · exact Leads.stay hi rfl
  -- the session starts running in the window of the step
  have hrank : x.session.phase.rank ≤ Phase.running.rank := by
    cases hph : x.session.phase <;> simp_all [Phase.rank]
  have hm := modifySession_paced
    (f := fun s => { s with phase := .running, window := ⟨x.session.now, x.session.now + x.session.step⟩ })
    hi fun y hy => by
    rw [hx] at hy
    cases hy
    exact ⟨⟨hrank, fun _ h => h, rfl, le_rfl, by simp, fun _ => rfl, fun ht => absurd ht hnt⟩,
      ⟨(fun h => by cases h), fun _ => (hw p x hx).live hnt, fun h => by cases h⟩⟩
  refine Leads.modifySession_bind hm ?_
  have hx₁ := getElem?_modify_self hx (fun y => { y with session := { y.session with
      phase := .running, window := ⟨x.session.now, x.session.now + x.session.step⟩ } })
  -- what is due is released into the FMU while the session runs
  refine Leads.paced_of_live ?_ ?_ (receive_live p _) fun _ w₂ _ hi₂ h₂ => ?_
  · exact hm.1
  · intro y hy
    rw [hx₁] at hy
    cases hy
    exact fun h => by cases h
  obtain ⟨y₂, hy₂, hst⟩ := h₂.2 p _ hx₁
  have hnow : x.session.now = y₂.session.now := hst.now.symm
  have hstep : x.session.step = y₂.session.step := hst.step.symm
  rw [hnow, hstep]
  refine clock_paced hi₂ hy₂ (by rw [hst.phase]; exact fun h => by cases h) (by rw [hst.steps])
    fun w₄ hi₄ => ?_
  -- what the FMU produced is published, and a failure recorded meanwhile is answered
  refine Moves.paced ?_ p _ w₄ hi₄
  refine (send_still p _).bind fun _ => ?_
  refine Moves.bind (Moves.liftS (modifySession_still (fun _ => rfl) fun _ => rfl)) fun _ => ?_
  refine (Moves.liftS (note_still _)).bind fun _ => (session_moves p).bind fun _ => ?_
  split
  · exact Moves.throw _
  · exact Moves.pure _

/-- A step of a created session fails and changes nothing. -/
theorem step_created {w : World} {p : Nat} {x : Peer} (hx : w.peers[p]? = some x)
    (hc : x.session.phase = .created) :
    (step p).run.run w = (.error (.text "step in state created"), w) := by
  unfold step
  rw [run_bind, session_run hx]
  simp only [hc]
  rfl

/-- A step of a terminated session answers that it has terminated and changes nothing. -/
theorem step_terminated {w : World} {p : Nat} {x : Peer} (hx : w.peers[p]? = some x)
    (ht : x.session.phase = .terminated) :
    (step p).run.run w = (.error (.condition .terminated), w) := by
  unfold step
  rw [run_bind, session_run hx]
  simp only [ht]
  rfl

/-- A step of a session that recorded a failure answers the failure and changes nothing. -/
theorem step_failed {w : World} {p : Nat} {x : Peer} (hx : w.peers[p]? = some x)
    (hc : x.session.phase ≠ .created) (ht : x.session.phase ≠ .terminated) {f : Fault}
    (hf : x.session.failure = some f) : (step p).run.run w = (.error f, w) := by
  unfold step
  rw [run_bind, session_run hx]
  dsimp only
  split
  · exact absurd ‹_› ht
  · exact absurd ‹_› hc
  · simp only [hf]
    rfl

theorem step_around (p : Nat) : (around p).Moves (step p) := by
  intro w hw
  cases hx : w.peers[p]? with
  | none => exact Leads.of_absent hw hx
  | some x =>
    have h := step_paced p hw hx
    exact ⟨h.1.1, h.2⟩

theorem stepUntil_around (p : Nat) (horizon : Float) :
    ∀ fuel, (around p).Moves (stepUntil p horizon fuel)
  | 0 => Moves.pure _
  | fuel + 1 => (session_moves p).bind fun _ => by
    split
    · exact (step_around p).bind fun _ => stepUntil_around p horizon fuel
    · exact Moves.pure _

theorem run_around (p : Nat) (horizon : Float) : (around p).Moves (run p horizon) :=
  (session_moves p).bind fun _ => ((Moves.liftS (note_still _)).around p).bind fun _ =>
    (stepUntil_around p horizon _).bind fun _ => (session_moves p).bind fun _ =>
      (Moves.liftS (note_still _)).around p

/-! ## Terminating -/

/-- A loop of state actions never fails: it runs them in order. -/
theorem forIn_liftS_run {α : Type} (l : List α) (f : α → StateM World PUnit) (w : World) :
    (forIn l PUnit.unit fun a _ => do liftM (f a); pure (ForInStep.yield PUnit.unit) : Sim PUnit).run.run w =
      (.ok PUnit.unit, ((l.forM f).run w).2) := by
  induction l generalizing w with
  | nil => rfl
  | cons a l ih =>
    rw [List.forIn_cons, run_bind]
    exact ih _

/-- Terminating a live FMU through the binding succeeds, and only the FMU changes. -/
theorem onDevice_terminate {w : World} {p : Nat} {y : Peer} (hy : w.peers[p]? = some y)
    (hlive : y.device.fmu.terminated = false) :
    ∃ d : Fmu.Device, (onDevice p Fmu.Device.terminate).run.run w =
        (.ok (), { w with log := w.log ++ d.log,
                          peers := w.peers.modify p fun x => { x with device := { d with log := #[] } } }) ∧
      d.fmu.steps = y.device.fmu.steps ∧ d.fmu.terminated = true := by
  obtain ⟨d, hrun, hsteps, hterm⟩ :=
    Fmu.Device.terminate_live (d := { y.device with log := #[] }) hlive
  refine ⟨d, ?_, hsteps, hterm⟩
  unfold onDevice
  rw [run_bind, peer_run hy]
  simp only [hrun]
  rfl

/-- Terminating a terminated session does nothing. -/
theorem terminate_terminated {w : World} {p : Nat} {x : Peer} (hx : w.peers[p]? = some x)
    (ht : x.session.phase = .terminated) : (terminate p).run.run w = (.ok (), w) := by
  unfold terminate
  rw [run_bind, session_run hx]
  simp only [ht]
  rfl

/-- The end of a termination: the session changed by `f`, a log line, and the FMU terminated. -/
theorem terminate_tail {W : World} {p : Nat} {y : Peer} (hy : W.peers[p]? = some y)
    (hlive : y.device.fmu.terminated = false) (f : Session → Session) (l : LogLine) :
    ∃ d : Fmu.Device, ((liftM (modifySession p f) : Sim PUnit) >>= fun _ =>
        (liftM (note l) : Sim PUnit) >>= fun _ => onDevice p Fmu.Device.terminate).run.run W =
        (.ok (), { W with log := W.log.push l ++ d.log,
                          peers := (W.peers.modify p fun z => { z with session := f z.session }).modify p
                            fun z => { z with device := { d with log := #[] } } }) ∧
      d.fmu.steps = y.device.fmu.steps ∧ d.fmu.terminated = true := by
  have hy' := getElem?_modify_self (w := { W with log := W.log.push l }) hy
    fun z => { z with session := f z.session }
  obtain ⟨d, hrun, hsteps, hterm⟩ := onDevice_terminate hy' hlive
  exact ⟨d, hrun, hsteps, hterm⟩

theorem terminate_live {w : World} (hw : w.Sane) {p : Nat} {x : Peer} (hx : w.peers[p]? = some x)
    (ht : x.session.phase ≠ .terminated) :
    ∃ w', (terminate p).run.run w = (.ok (), w') ∧ (around p).inv w' ∧ (around p).rel w w' ∧
      ∃ x', w'.peers[p]? = some x' ∧ x'.session.phase = .terminated ∧
        x'.device.fmu.terminated = true := by
  have hlive := (hw p x hx).live ht
  unfold terminate
  rw [run_bind, session_run hx]
  have hne : (x.session.phase == .terminated) = false := by simpa using ht
  simp only [hne, Bool.false_eq_true, ↓reduceIte]
  rw [run_bind, run_liftS]
  dsimp only
  rw [run_bind, forIn_liftS_run]
  dsimp only
  -- unsubscribing leaves the peers alone
  have hp₂ := (KeepsS.forM (V := World.peers) fun i _ => KeepsS.modify fun _ => rfl :
    KeepsS World.peers (x.session.inbound.forM fun i => unsubscribe i.subscription))
  generalize hW₂ : (StateT.run (x.session.inbound.forM fun i => unsubscribe i.subscription)
    ((modifySession p fun s => { s with phase := .terminated }).run w).2).2 = W₂
  have hy₂ : W₂.peers[p]? = some { x with session := { x.session with phase := .terminated } } := by
    rw [← hW₂, hp₂, modifySession_run, getElem?_modify_self hx]
  refine Exists.elim (terminate_tail hy₂ hlive _ _) fun d hd => ⟨_, hd.1, ?_⟩
  have hp : W₂.peers =
      w.peers.modify p fun z => { z with session := { z.session with phase := .terminated } } := by
    rw [← hW₂, hp₂, modifySession_run]
  obtain ⟨-, hsteps, hterm⟩ := hd
  dsimp only
  rw [hp, Array.modify_modify_self, Array.modify_modify_self]
  refine (fun h => ⟨h.1, h.2, _, getElem?_modify_self hx _, rfl, hterm⟩)
    (around_of_modify hw rfl fun y hy => ?_)
  rw [hx] at hy
  cases hy
  refine ⟨⟨Phase.rank_le_terminated _, fun _ h => h, rfl, hsteps.ge, by simp [hsteps], ?_,
    fun h => absurd h ht⟩, ⟨fun _ => ?_, fun h => absurd rfl h, fun _ => hterm⟩⟩
  · rintro (h | h)
    · exact absurd h ht
    · exact absurd rfl h
  · simp [Session.Closed, Session.buffers, Buffer.terminate]

theorem terminate_around (p : Nat) : (around p).Moves (terminate p) := by
  intro w hw
  cases hx : w.peers[p]? with
  | none => exact Leads.of_absent hw hx
  | some x =>
    by_cases ht : x.session.phase = .terminated
    · exact Leads.stay hw (terminate_terminated hx ht)
    · obtain ⟨w', hrun, hi, hr, -⟩ := terminate_live hw hx ht
      exact Leads.of_run hrun hi hr

/-! ## Any sequence of calls -/

theorem join_still (name : String) : still.MovesS (join name) := by
  refine MovesS.bind MovesS.get fun w => ?_
  obtain ⟨n, part⟩ := w.network.join name
  dsimp only
  exact MovesS.bind (MovesS.modify (peers_still fun _ => rfl)) fun _ => MovesS.pure _

theorem close_still (part : Nat) : still.MovesS (close part) :=
  MovesS.modify (peers_still fun _ => rfl)

/-- A call a client can make: a lifecycle call on the session of a peer, or traffic on the bus. -/
inductive Call where
  | connect (p : Nat)
  | step (p : Nat)
  | run (p : Nat) (horizon : Float)
  | terminate (p : Nat)
  | publish (part : Nat) (topic : String) (ts : Float) (payload : Bytes)
  | sendFrame (ctrl : Nat) (ts : Float) (f : Can.Frame)
  | callFunction (client : Nat) (ts : Float) (correlation : String) (args : Bytes)
  | submitResult (server : Nat) (ts : Float) (handle : String) (payload : Bytes)
  | attach (part : Nat) (role : Bus.Role) (name : String) (h : Handler)
  | unsubscribe (id : Nat)
  | join (name : String)
  | close (part : Nat)

namespace Call

/-- What a call does to the world. -/
def act : Call → Sim Unit
  | .connect p => World.connect p
  | .step p => World.step p
  | .run p horizon => World.run p horizon
  | .terminate p => World.terminate p
  | .publish part topic ts payload => World.publish part topic ts payload
  | .sendFrame ctrl ts f => World.sendFrame ctrl ts f
  | .callFunction client ts correlation args => World.callFunction client ts correlation args
  | .submitResult server ts handle payload => World.submitResult server ts handle payload
  | .attach part role name h => do let _ ← World.attach part role name h
  | .unsubscribe id => liftM (World.unsubscribe id)
  | .join name => do let _ ← (liftM (World.join name) : Sim Nat)
  | .close part => liftM (World.close part)

/-- How far a call may move the peers: a lifecycle call moves its own peer ahead, and bus
traffic leaves every lifecycle alone. -/
def course : Call → Course World
  | .connect p | .step p | .run p _ | .terminate p => around p
  | _ => still

/-- What a lifecycle call promises about the session it is made on, given the outcome `o` of
the call from world `w`. -/
def Effect : Call → World → Except Fault Unit × World → Prop
  | .connect p, w, o => o.1 = .ok () →
      (∃ x, w.peers[p]? = some x ∧ x.session.phase = .created) ∧
        ∃ x', o.2.peers[p]? = some x' ∧ x'.session.phase = .initialized
  | .step p, w, o => ∀ x, w.peers[p]? = some x →
      (x.session.phase = .created → o = (.error (.text "step in state created"), w)) ∧
      (x.session.phase = .terminated → o = (.error (.condition .terminated), w)) ∧
      (∀ f, x.session.phase ≠ .created → x.session.phase ≠ .terminated →
        x.session.failure = some f → o = (.error f, w)) ∧
      o.2.StepsAtMost p (x.device.fmu.steps + 1)
  | .terminate p, w, o => ∀ x, w.peers[p]? = some x → o.1 = .ok () ∧
      (x.session.phase = .terminated → o.2 = w) ∧
      (x.session.phase ≠ .terminated → x.device.fmu.terminated = false ∧
        ∃ x', o.2.peers[p]? = some x' ∧ x'.session.phase = .terminated ∧
          x'.device.fmu.terminated = true)
  | _, _, _ => True

theorem moves : ∀ c : Call, c.course.Moves c.act
  | .connect p => connect_around p
  | .step p => step_around p
  | .run p horizon => run_around p horizon
  | .terminate p => terminate_around p
  | .publish part topic ts payload => publish_still part topic ts payload
  | .sendFrame ctrl ts f => sendFrame_still ctrl ts f
  | .callFunction client ts correlation args => callFunction_still client ts correlation args
  | .submitResult server ts handle payload => submitResult_still server ts handle payload
  | .attach part role name h => (attach_still part role name h).bind fun _ => Moves.pure _
  | .unsubscribe id => Moves.liftS (unsubscribe_still id)
  | .join name => (Moves.liftS (join_still name)).bind fun _ => Moves.pure _
  | .close part => Moves.liftS (close_still part)

theorem course_inv (c : Call) (w : World) : c.course.inv w ↔ w.Sane := by
  cases c <;> rfl

theorem ahead_of_rel {c : Call} {w w' : World} (h : c.course.rel w w') : ahead.rel w w' := by
  cases c with
  | connect p | step p | run p _ | terminate p => exact Pointwise.mono (fun h => h.1) h
  | _ => exact Pointwise.mono Peer.Still.ahead h

theorem effect (c : Call) {w : World} (hw : w.Sane) : c.Effect w (c.act.run.run w) := by
  cases c with
  | connect p => exact fun h => connect_initializes hw (Prod.ext h rfl)
  | step p =>
    intro x hx
    exact ⟨step_created hx, step_terminated hx, fun _ hc ht hf => step_failed hx hc ht hf,
      (step_paced p hw hx).1.2⟩
  | terminate p =>
    intro x hx
    by_cases ht : x.session.phase = .terminated
    · have h := terminate_terminated hx ht
      exact ⟨by rw [act, h], fun _ => by rw [act, h], fun h' => absurd ht h'⟩
    · obtain ⟨w', hrun, -, -, hx'⟩ := terminate_live hw hx ht
      exact ⟨by rw [act, hrun], fun h' => absurd h' ht,
        fun _ => ⟨(hw p x hx).live ht, by rw [act, hrun]; exact hx'⟩⟩
  | _ => trivial

end Call

/-- The worlds a sequence of calls leads to from `w₀`, each call succeeding or failing. -/
inductive Reachable (w₀ : World) : World → Prop
  | start : Reachable w₀ w₀
  | call {w : World} (c : Call) : Reachable w₀ w → Reachable w₀ (c.act.run.run w).2

theorem Reachable.sane_ahead {w₀ w : World} (h₀ : w₀.Sane) (hr : Reachable w₀ w) :
    w.Sane ∧ ahead.rel w₀ w := by
  induction hr with
  | start => exact ⟨h₀, ahead.refl w₀⟩
  | call c _ ih =>
    obtain ⟨hi, hrel⟩ := c.moves _ ((c.course_inv _).mpr ih.1)
    exact ⟨(c.course_inv _).mp hi, ahead.trans ih.2 (Call.ahead_of_rel hrel)⟩

theorem session_lifecycle {w₀ w : World} (h₀ : w₀.Sane) (hr : Reachable w₀ w) (c : Call) :
    w.Sane ∧ ahead.rel w₀ w ∧ c.course.rel w (c.act.run.run w).2 ∧ c.Effect w (c.act.run.run w) :=
  have hw := hr.sane_ahead h₀
  ⟨hw.1, hw.2, (c.moves w ((c.course_inv w).mpr hw.1)).2, c.effect hw.1⟩

theorem session_lifecycle_fresh :
    let s : Session := { config := default, layout := default, now := 0, step := 1, window := {} };
    let w₀ : World := { peers := #[{ session := s, device := { fmu := { model := default } },
                                     participant := 0 }] };
    w₀.Sane ∧ Reachable w₀ ((Call.connect 0).act.run.run w₀).2 ∧
      (let w := ((Call.connect 0).act.run.run w₀).2;
      w.Sane ∧ ahead.rel w₀ w ∧ (Call.step 0).course.rel w ((Call.step 0).act.run.run w).2 ∧
        (Call.step 0).Effect w ((Call.step 0).act.run.run w)) := by
  intro s w₀
  have h₀ : w₀.Sane := by
    intro q y hy
    rcases q with _ | q
    · cases hy
      exact ⟨(fun h => by cases h), fun _ => rfl, fun h => by cases h⟩
    · simp [w₀] at hy
  have hr : Reachable w₀ ((Call.connect 0).act.run.run w₀).2 := .call _ .start
  exact ⟨h₀, hr, session_lifecycle h₀ hr (.step 0)⟩

end World

end CoSimBridge
