import Mathlib
import CoSimBridge.Session.World
/-!
# What an action of the world leaves alone

An action of the world runs against all of it, but most actions touch little. `Keeps V act`
says that every successful run of `act` ends in a world the view `V` cannot tell from the one it
started in. Bind, loops and the wrappers of `World` keep what their parts keep, so the lemma of
each action is a chain of the lemmas of its parts.

The views are the ones remote function calls depend on: `chans` sees the network and every
client and server channel of every peer; `calls` sees the network, the queue and the call in
flight of every server channel and the pending calls of every client channel, and not the
buffers that messages arrive in.
-/

namespace CoSimBridge

/-- The queue and the call in flight of a server channel. -/
def ServerChannel.calls (c : ServerChannel) : List (String × Bytes) × Option (String × Bytes) :=
  (c.queue, c.inflight)

namespace World

open Delivery

variable {α β γ : Type}

/-! ## Keeping a view -/

/-- Every successful run of `act` ends in a world that `V` cannot tell from its start. -/
def Keeps (V : World → γ) (act : Sim α) : Prop :=
  ∀ w a w', act.run.run w = (.ok a, w') → V w' = V w

/-- A state action whose runs `V` cannot see. -/
def KeepsS (V : World → γ) (act : StateM World α) : Prop :=
  ∀ w, V (act.run w).2 = V w

/-- A successful run of a bind is a successful run of its first action, then of the rest. -/
theorem run_bind_ok {x : Sim α} {f : α → Sim β} {w w'' : World} {b : β}
    (h : (x >>= f).run.run w = (.ok b, w'')) :
    ∃ a w', x.run.run w = (.ok a, w') ∧ (f a).run.run w' = (.ok b, w'') := by
  rw [ExceptT.run_bind, StateT.run_bind] at h
  rcases hx : x.run.run w with ⟨_ | a, w'⟩
  · rw [hx] at h
    cases h
  · rw [hx] at h
    exact ⟨a, w', rfl, h⟩

theorem run_liftS (act : StateM World α) (w : World) :
    (liftM act : Sim α).run.run w = (.ok (act.run w).1, (act.run w).2) := rfl

/-- A state action lifted into `Sim` always succeeds, with its own result and world. -/
theorem liftS_ok {act : StateM World α} {w w' : World} {a : α}
    (h : (liftM act : Sim α).run.run w = (.ok a, w')) : act.run w = (a, w') := by
  rw [run_liftS] at h
  cases h
  rfl

theorem run_pure (a : α) (w : World) : (pure a : Sim α).run.run w = (.ok a, w) := rfl

theorem lift_ok {r : Except Fault α} {w w' : World} {a : α}
    (h : (lift r).run.run w = (.ok a, w')) : r = .ok a ∧ w' = w := by
  cases r with
  | error e => cases h
  | ok b =>
    cases h
    exact ⟨rfl, rfl⟩

/-- A failure caught only to be raised again: a successful run is one of the action itself. -/
theorem tryCatch_ok {act : Sim α} {handler : Fault → Sim α} (hh : ∀ e w a w', (handler e).run.run w ≠ (.ok a, w'))
    {w w' : World} {a : α} (h : (tryCatch act handler).run.run w = (.ok a, w')) :
    act.run.run w = (.ok a, w') := by
  rw [ExceptT.run_tryCatch, StateT.run_bind] at h
  rcases hx : act.run.run w with ⟨_ | b, w₁⟩
  · rw [hx] at h
    exact absurd h (hh _ _ _ _)
  · rw [hx] at h
    exact h

theorem within_ok {ctx : String} {act : Sim α} {w w' : World} {a : α}
    (h : (within ctx act).run.run w = (.ok a, w')) : act.run.run w = (.ok a, w') :=
  tryCatch_ok (fun _ _ _ _ h => by cases h) h

theorem peer_ok {p : Nat} {w w' : World} {x : Peer} (h : (peer p).run.run w = (.ok x, w')) :
    w.peers[p]? = some x ∧ w' = w := by
  unfold peer at h
  obtain ⟨v, w₁, hget, h⟩ := run_bind_ok h
  cases hget
  split at h
  · cases h
    exact ⟨by assumption, rfl⟩
  · cases h

theorem session_ok {p : Nat} {w w' : World} {s : Session}
    (hrun : (session p).run.run w = (.ok s, w')) :
    ∃ x, w.peers[p]? = some x ∧ x.session = s ∧ w' = w := by
  change (peer p >>= fun x => pure x.session).run.run w = _ at hrun
  obtain ⟨x, w₁, hx, hs⟩ := run_bind_ok hrun
  obtain ⟨hp, rfl⟩ := peer_ok hx
  cases hs
  exact ⟨x, hp, rfl, rfl⟩

namespace Keeps

variable {V : World → γ}

theorem bind {x : Sim α} {f : α → Sim β} (hx : Keeps V x) (hf : ∀ a, Keeps V (f a)) :
    Keeps V (x >>= f) := by
  intro w b w'' h
  obtain ⟨a, w', h₁, h₂⟩ := run_bind_ok h
  rw [hf a w' b w'' h₂, hx w a w' h₁]

theorem pure (a : α) : Keeps V (Pure.pure a : Sim α) := by
  intro w b w' h
  cases h
  rfl

theorem throw (e : Fault) : Keeps V (MonadExcept.throw e : Sim α) := by
  intro w b w' h
  cases h

theorem liftS {act : StateM World α} (h : KeepsS V act) : Keeps V (liftM act : Sim α) := by
  intro w a w' hrun
  have hw := h w
  rw [liftS_ok hrun] at hw
  exact hw

theorem lift (r : Except Fault α) : Keeps V (World.lift r) := by
  intro w a w' h
  rw [(lift_ok h).2]

theorem within {ctx : String} {act : Sim α} (h : Keeps V act) : Keeps V (World.within ctx act) :=
  fun w a w' hrun => h w a w' (within_ok hrun)

theorem peer (p : Nat) : Keeps V (World.peer p) := by
  intro w x w' h
  rw [(peer_ok h).2]

theorem session (p : Nat) : Keeps V (World.session p) := by
  intro w s w' h
  obtain ⟨_, _, _, rfl⟩ := session_ok h
  rfl

theorem forIn {l : List α} {b : β} {f : α → β → Sim (ForInStep β)}
    (h : ∀ a ∈ l, ∀ b, Keeps V (f a b)) : Keeps V (forIn l b f) := by
  induction l generalizing b with
  | nil => exact Keeps.pure b
  | cons a l ih =>
    rw [List.forIn_cons]
    refine bind (h a List.mem_cons_self b) fun r => ?_
    cases r with
    | done b => exact Keeps.pure b
    | yield b => exact ih fun a' ha' => h a' (List.mem_cons_of_mem a ha')

/-- A view that sees less keeps what a view that sees more keeps. -/
theorem map {δ : Type} {act : Sim α} (g : γ → δ) (h : Keeps V act) : Keeps (g ∘ V) act :=
  fun w a w' hrun => by simp only [Function.comp, h w a w' hrun]

end Keeps

namespace KeepsS

variable {V : World → γ}

theorem bind {x : StateM World α} {f : α → StateM World β} (hx : KeepsS V x)
    (hf : ∀ a, KeepsS V (f a)) : KeepsS V (x >>= f) := by
  intro w
  rw [StateT.run_bind]
  exact (hf _ _).trans (hx w)

theorem pure (a : α) : KeepsS V (Pure.pure a : StateM World α) := fun _ => rfl

theorem get : KeepsS V (MonadState.get : StateM World World) := fun _ => rfl

theorem modify {f : World → World} (h : ∀ w, V (f w) = V w) :
    KeepsS V (modify f : StateM World PUnit) := h

theorem forM {l : List α} {f : α → StateM World PUnit} (h : ∀ a ∈ l, KeepsS V (f a)) :
    KeepsS V (l.forM f) := by
  induction l with
  | nil => exact KeepsS.pure _
  | cons a l ih =>
    change KeepsS V (f a >>= fun _ => l.forM f)
    exact bind (h a List.mem_cons_self) fun _ => ih fun a' ha' => h a' (List.mem_cons_of_mem a ha')

end KeepsS

/-! ## The channels of remote functions -/

/-- Server channel `j` of peer `p`. -/
def server? (w : World) (p j : Nat) : Option ServerChannel :=
  w.peers[p]?.bind fun x => x.session.servers[j]?

/-- Client channel `j` of peer `p`. -/
def client? (w : World) (p j : Nat) : Option ClientChannel :=
  w.peers[p]?.bind fun x => x.session.clients[j]?

/-- The network and every channel of remote functions, by peer and index. -/
structure Chans where
  network : Bus.Network
  server : Nat → Nat → Option ServerChannel
  client : Nat → Nat → Option ClientChannel

/-- The network, the calls of every server channel and the pending calls of every client
channel: what is left of `Chans` once the buffers that messages arrive in are forgotten. -/
structure Calls where
  network : Bus.Network
  server : Nat → Nat → Option (List (String × Bytes) × Option (String × Bytes))
  client : Nat → Nat → Option (List (String × Float))

def chans (w : World) : Chans := ⟨w.network, w.server?, w.client?⟩

def calls (w : World) : Calls :=
  ⟨w.network, fun p j => (w.server? p j).map (·.calls), fun p j => (w.client? p j).map (·.pending)⟩

theorem calls_eq_of_chans {w w' : World} (h : chans w' = chans w) : calls w' = calls w := by
  simp only [chans, Chans.mk.injEq] at h
  simp only [calls, h]

theorem Keeps.of_chans {act : Sim α} (h : Keeps chans act) : Keeps calls act :=
  fun w a w' hrun => calls_eq_of_chans (h w a w' hrun)

/-- A change of peers that leaves every session's channels alone leaves `chans` alone. -/
theorem chans_of_peers {w w' : World} (q : Nat) (g : Peer → Peer) (hn : w'.network = w.network)
    (hp : w'.peers = w.peers.modify q g)
    (hg : ∀ x, (g x).session.servers = x.session.servers ∧ (g x).session.clients = x.session.clients) :
    chans w' = chans w := by
  simp only [chans, Chans.mk.injEq, hn, true_and]
  constructor
  · funext p j
    simp only [server?, hp, Array.getElem?_modify]
    split <;> cases w.peers[p]? <;> simp [(hg _).1]
  · funext p j
    simp only [client?, hp, Array.getElem?_modify]
    split <;> cases w.peers[p]? <;> simp [(hg _).2]

/-- A change of peers that leaves every session's calls and pending calls alone leaves `calls`
alone. -/
theorem calls_of_peers {w w' : World} (q : Nat) (g : Peer → Peer) (hn : w'.network = w.network)
    (hp : w'.peers = w.peers.modify q g)
    (hg : ∀ x, (g x).session.servers.map (·.calls) = x.session.servers.map (·.calls) ∧
      (g x).session.clients.map (·.pending) = x.session.clients.map (·.pending)) :
    calls w' = calls w := by
  simp only [calls, Calls.mk.injEq, hn, true_and]
  constructor
  · funext p j
    simp only [server?, hp, Array.getElem?_modify]
    split
    · cases w.peers[p]? with
      | none => rfl
      | some x =>
        simp only [Option.map_some, Option.bind_some]
        rw [← List.getElem?_map, ← List.getElem?_map, (hg x).1]
    · rfl
  · funext p j
    simp only [client?, hp, Array.getElem?_modify]
    split
    · cases w.peers[p]? with
      | none => rfl
      | some x =>
        simp only [Option.map_some, Option.bind_some]
        rw [← List.getElem?_map, ← List.getElem?_map, (hg x).2]
    · rfl

/-! ## Changing one channel -/

/-- `v` with server channel `j` of peer `p` changed by `g`. -/
def Chans.mapServer (v : Chans) (p j : Nat) (g : ServerChannel → ServerChannel) : Chans :=
  { v with server := fun p' j' => if p' = p ∧ j' = j then (v.server p' j').map g else v.server p' j' }

/-- `v` with client channel `j` of peer `p` changed by `g`. -/
def Chans.mapClient (v : Chans) (p j : Nat) (g : ClientChannel → ClientChannel) : Chans :=
  { v with client := fun p' j' => if p' = p ∧ j' = j then (v.client p' j').map g else v.client p' j' }

theorem modifySession_run (p : Nat) (f : Session → Session) (w : World) :
    ((modifySession p f).run w).2 =
      { w with peers := w.peers.modify p fun x => { x with session := f x.session } } := rfl

@[simp] theorem Chans.mapServer_client (v : Chans) (p j : Nat) (g : ServerChannel → ServerChannel) :
    (v.mapServer p j g).client = v.client := rfl

@[simp] theorem Chans.mapClient_server (v : Chans) (p j : Nat) (g : ClientChannel → ClientChannel) :
    (v.mapClient p j g).server = v.server := rfl

theorem Chans.mapClient_client (v : Chans) (p j : Nat) (g : ClientChannel → ClientChannel) (p' j' : Nat) :
    (v.mapClient p j g).client p' j' = if p' = p ∧ j' = j then (v.client p' j').map g else v.client p' j' :=
  rfl

/-- What `calls` sees of `chans`. -/
def Chans.toCalls (v : Chans) : Calls :=
  ⟨v.network, fun p j => (v.server p j).map (·.calls), fun p j => (v.client p j).map (·.pending)⟩

/-- `v` with the calls of server channel `j` of peer `p` changed by `g`. -/
def Calls.mapServer (v : Calls) (p j : Nat)
    (g : List (String × Bytes) × Option (String × Bytes) → List (String × Bytes) × Option (String × Bytes)) :
    Calls :=
  { v with server := fun p' j' => if p' = p ∧ j' = j then (v.server p' j').map g else v.server p' j' }

/-- `v` with the pending calls of client channel `j` of peer `p` changed by `g`. -/
def Calls.mapClient (v : Calls) (p j : Nat) (g : List (String × Float) → List (String × Float)) :
    Calls :=
  { v with client := fun p' j' => if p' = p ∧ j' = j then (v.client p' j').map g else v.client p' j' }

theorem Keeps.get {V : World → γ} : Keeps V (get : Sim World) := by
  intro w a w' hrun
  cases hrun
  rfl

theorem Keeps.modify {V : World → γ} {f : World → World} (h : ∀ w, V (f w) = V w) :
    Keeps V (modify f : Sim PUnit) := by
  intro w a w' hrun
  cases hrun
  exact h w

/-! ## What the primitives of the world keep -/

theorem KeepsS.note (l : LogLine) : KeepsS chans (World.note l) := fun _ => rfl

theorem KeepsS.modifySession {q : Nat} {f : Session → Session}
    (hf : ∀ s, (f s).servers = s.servers ∧ (f s).clients = s.clients) :
    KeepsS chans (World.modifySession q f) :=
  fun _ => chans_of_peers q (fun x => { x with session := f x.session }) rfl rfl fun x => hf x.session

theorem KeepsS.modifySession_calls {q : Nat} {f : Session → Session}
    (hf : ∀ s, (f s).servers.map (·.calls) = s.servers.map (·.calls) ∧
      (f s).clients.map (·.pending) = s.clients.map (·.pending)) :
    KeepsS calls (World.modifySession q f) :=
  fun _ => calls_of_peers q (fun x => { x with session := f x.session }) rfl rfl fun x => hf x.session

/-- Running the FMU of a peer changes its device and the log, which `chans` does not see. -/
theorem chans_device (w : World) (p : Nat) (d : Fmu.Device) (l : Journal) :
    chans { w with peers := w.peers.modify p fun y => { y with device := d }, log := l } = chans w :=
  chans_of_peers p (fun y => { y with device := d }) rfl rfl fun _ => ⟨rfl, rfl⟩

theorem Keeps.onDevice (p : Nat) (act : Fmu.DeviceM α) : Keeps chans (World.onDevice p act) := by
  unfold World.onDevice
  refine Keeps.bind (Keeps.peer p) fun x => ?_
  exact Keeps.bind (Keeps.modify fun w => chans_device w p _ _) fun _ => Keeps.lift _

theorem KeepsS.observe (p : Nat) (channel : String) (rs : List Report) :
    KeepsS chans (observe p channel rs) :=
  KeepsS.modifySession fun _ => ⟨rfl, rfl⟩

theorem KeepsS.published (p : Nat) (channel : String) (n : Nat) :
    KeepsS chans (published p channel n) := by
  unfold World.published
  split
  · exact KeepsS.pure _
  · exact KeepsS.modifySession fun _ => ⟨rfl, rfl⟩

theorem KeepsS.fail (p : Nat) (f : Fault) : KeepsS chans (fail p f) := by
  unfold World.fail
  refine KeepsS.bind KeepsS.get fun w => ?_
  split
  · split
    · exact KeepsS.bind (KeepsS.note _) fun _ => KeepsS.modifySession fun _ => ⟨rfl, rfl⟩
    · exact KeepsS.pure _
  · exact KeepsS.pure _

theorem KeepsS.buffer {κ ν : Type} [BEq κ] (p : Nat) (b : Buffer κ ν) (ts : Float) (k : κ) (v : ν) :
    KeepsS chans (buffer p b ts k v) := by
  unfold World.buffer
  refine KeepsS.bind KeepsS.get fun w => ?_
  -- the window the message is judged in is the session's, whatever it is
  split <;>
  · dsimp only
    split
    · exact KeepsS.bind (KeepsS.observe _ _ _) fun _ =>
        KeepsS.bind (KeepsS.fail _ _) fun _ => KeepsS.pure _
    · exact KeepsS.bind (KeepsS.observe _ _ _) fun _ => KeepsS.pure _

theorem KeepsS.drain {κ ν : Type} [BEq κ] (p : Nat) (b : Buffer κ ν) (win : Window) :
    KeepsS chans (drain p b win) :=
  KeepsS.bind (KeepsS.observe _ _ _) fun _ => KeepsS.pure _

theorem KeepsS.of_chans {act : StateM World α} (h : KeepsS chans act) : KeepsS calls act :=
  fun w => calls_eq_of_chans (h w)

/-- Changing list entries in a way `g` does not see leaves the list as `g` sees it. -/
theorem map_modify_eq {δ ε : Type} {g : δ → ε} {f : δ → δ} (h : ∀ a, g (f a) = g a) (l : List δ)
    (i : Nat) : (l.modify i f).map g = l.map g := by
  apply List.ext_getElem?
  intro n
  simp only [List.getElem?_map, List.getElem?_modify]
  split <;> cases l[n]? <;> simp [h]

theorem KeepsS.canInsert (p j : Nat) (ts : Float) (op : Can.Operation) :
    KeepsS chans (deliver.canInsert p j ts op) := by
  unfold deliver.canInsert
  refine KeepsS.bind KeepsS.get fun w => ?_
  repeat' split
  all_goals first
    | exact KeepsS.pure _
    | exact KeepsS.bind (KeepsS.buffer _ _ _ _ _) fun _ => KeepsS.modifySession fun _ => ⟨rfl, rfl⟩

/-- A delivered message only joins a buffer, or what a recorder heard. -/
theorem KeepsS.deliver (e : Nat) (m : Bus.Message) : KeepsS calls (World.deliver e m) := by
  unfold World.deliver
  refine KeepsS.bind KeepsS.get fun w => ?_
  repeat' split
  all_goals first
    | exact KeepsS.pure _
    | exact KeepsS.modify fun _ => rfl
    | exact KeepsS.of_chans (KeepsS.canInsert _ _ _ _)
    | exact KeepsS.of_chans (KeepsS.bind (KeepsS.buffer _ _ _ _ _) fun _ =>
        KeepsS.modifySession fun _ => ⟨rfl, rfl⟩)
    | exact KeepsS.bind (KeepsS.of_chans (KeepsS.buffer _ _ _ _ _)) fun _ =>
        KeepsS.modifySession_calls fun _ => ⟨rfl, by apply map_modify_eq; intro _; rfl⟩
    | exact KeepsS.bind (KeepsS.of_chans (KeepsS.buffer _ _ _ _ _)) fun _ =>
        KeepsS.modifySession_calls fun _ => ⟨by apply map_modify_eq; intro _; rfl, rfl⟩

theorem KeepsS.perform (effects : List Bus.Effect) : KeepsS calls (World.perform effects) := by
  unfold World.perform
  refine KeepsS.forM fun e _ => ?_
  split
  · exact KeepsS.deliver _ _
  · exact KeepsS.of_chans (KeepsS.note _)

theorem Keeps.endpoint {V : World → γ} (id : Nat) : Keeps V (World.endpoint id) := by
  unfold World.endpoint
  refine Keeps.bind Keeps.get fun w => ?_
  split
  · exact Keeps.pure _
  · exact Keeps.throw _

theorem Keeps.publish (part : Nat) (topic : String) (ts : Float) (payload : Bytes) :
    Keeps World.calls (World.publish part topic ts payload) :=
  Keeps.bind Keeps.get fun _ => Keeps.bind (Keeps.lift _) fun _ => Keeps.liftS (KeepsS.perform _)

theorem Keeps.sendFrame (ctrl : Nat) (ts : Float) (f : Can.Frame) :
    Keeps World.calls (World.sendFrame ctrl ts f) :=
  Keeps.bind (Keeps.endpoint _) fun _ => Keeps.bind Keeps.get fun _ =>
    Keeps.bind (Keeps.lift _) fun _ => Keeps.liftS (KeepsS.perform _)

theorem Keeps.canReceive (p j : Nat) (win : Window) : Keeps chans (World.canReceive p j win) := by
  unfold World.canReceive
  refine Keeps.bind (Keeps.session p) fun s => ?_
  split
  · split
    · refine Keeps.bind (Keeps.liftS (KeepsS.drain _ _ _)) fun rb => ?_
      obtain ⟨r, b⟩ := rb
      refine Keeps.bind (Keeps.liftS (KeepsS.modifySession fun _ => ⟨rfl, rfl⟩)) fun _ => ?_
      refine Keeps.bind (Keeps.lift _) fun items => ?_
      split
      · split
        · exact Keeps.pure _
        · exact Keeps.bind (Keeps.liftS (KeepsS.modifySession fun _ => ⟨rfl, rfl⟩)) fun _ =>
            Keeps.bind (Keeps.onDevice _ _) fun _ => Keeps.pure _
      · refine Keeps.bind (Keeps.lift _) fun _ => ?_
        refine Keeps.bind (Keeps.liftS (KeepsS.note _)) fun _ => ?_
        refine Keeps.bind (Keeps.onDevice _ _) fun _ => ?_
        refine Keeps.bind (Keeps.liftS (KeepsS.modifySession fun _ => ⟨rfl, rfl⟩)) fun _ => ?_
        split
        · exact Keeps.onDevice _ _
        · exact Keeps.pure _
    · exact Keeps.pure _
  · exact Keeps.pure _

theorem Keeps.canTransmit (p j : Nat) (ts : Float) : Keeps calls (World.canTransmit p j ts) := by
  unfold World.canTransmit
  refine Keeps.bind (Keeps.session p) fun s => ?_
  split
  · refine Keeps.bind (Keeps.of_chans (Keeps.onDevice _ _)) fun _ => ?_
    split
    · exact Keeps.pure _
    · refine Keeps.bind (Keeps.of_chans (Keeps.onDevice _ _)) fun _ => ?_
      refine Keeps.bind (Keeps.lift _) fun ops => ?_
      refine Keeps.bind (Keeps.forIn fun op _ sent => ?_) fun _ =>
        Keeps.liftS (KeepsS.of_chans (KeepsS.published _ _ _))
      dsimp only
      split
      · exact Keeps.bind (Keeps.sendFrame _ _ _) fun _ => Keeps.pure _
      · exact Keeps.pure _
  · exact Keeps.pure _

/-! ## Changing one channel, as a successful run -/

end World

end CoSimBridge
