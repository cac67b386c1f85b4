import Mathlib
import CoSimBridge.Layout.Pipeline
import CoSimBridge.Proofs.Fmu.Shapes
/-!
# Where every run of an action may lead

A call that fails still leaves behind what it changed before it failed, so a lifecycle has to
be read off every run of an action, not only the successful ones. A `Course` says which states
are allowed (its invariant) and how a state may change into another (a reflexive and transitive
relation). `C.Moves act` says that every run of `act` from an allowed state, successful or not,
ends in an allowed state that `C` relates to its start. Binds, loops and handlers move as their
parts do; where an action reads the state and acts on what it read, `Course.Leads` follows one
run from one state.

The first course is the FMU's: a call that neither steps nor terminates the FMU keeps its count
of steps and whether it has terminated (`Fmu.Device.steady`). Every call the layout makes to
read or write variables and clocks is such a call.
-/

namespace CoSimBridge

/-- A way states may change: the states allowed, and a reflexive and transitive relation
between a state and a later one. -/
structure Course (σ : Type) where
  inv : σ → Prop
  rel : σ → σ → Prop
  refl : ∀ s, rel s s
  trans : ∀ {a b c}, rel a b → rel b c → rel a c

namespace Course

variable {σ ε α β : Type} {C : Course σ}

/-- The run of `act` from `s` ends in an allowed state that `C` relates to `s`. -/
def Leads (C : Course σ) (s : σ) (act : ExceptT ε (StateM σ) α) : Prop :=
  C.inv (act.run.run s).2 ∧ C.rel s (act.run.run s).2

/-- Every run of `act` from an allowed state, successful or not, leads along `C`. -/
def Moves (C : Course σ) (act : ExceptT ε (StateM σ) α) : Prop :=
  ∀ s, C.inv s → C.Leads s act

/-- The run of a state action from `s` ends in an allowed state that `C` relates to `s`. -/
def LeadsS (C : Course σ) (s : σ) (act : StateM σ α) : Prop :=
  C.inv (act.run s).2 ∧ C.rel s (act.run s).2

/-- Every run of a state action from an allowed state leads along `C`. -/
def MovesS (C : Course σ) (act : StateM σ α) : Prop :=
  ∀ s, C.inv s → C.LeadsS s act

theorem run_bind (x : ExceptT ε (StateM σ) α) (f : α → ExceptT ε (StateM σ) β) (s : σ) :
    (x >>= f).run.run s = match x.run.run s with
      | (.ok a, s') => (f a).run.run s'
      | (.error e, s') => (.error e, s') := by
  rw [ExceptT.run_bind, StateT.run_bind]
  rcases x.run.run s with ⟨_ | a, s'⟩ <;> rfl

theorem run_liftS (act : StateM σ α) (s : σ) :
    (liftM act : ExceptT ε (StateM σ) α).run.run s = (.ok (act.run s).1, (act.run s).2) := rfl

theorem run_get (s : σ) : (MonadState.get : ExceptT ε (StateM σ) σ).run.run s = (.ok s, s) := rfl

theorem run_modify (g : σ → σ) (s : σ) :
    (modify g : ExceptT ε (StateM σ) PUnit).run.run s = (.ok ⟨⟩, g s) := rfl

namespace Leads

theorem of_run {s s' : σ} {act : ExceptT ε (StateM σ) α} {r : Except ε α}
    (h : act.run.run s = (r, s')) (hi : C.inv s') (hr : C.rel s s') : C.Leads s act := by
  unfold Leads
  rw [h]
  exact ⟨hi, hr⟩

theorem stay {s : σ} (hs : C.inv s) {act : ExceptT ε (StateM σ) α} {r : Except ε α}
    (h : act.run.run s = (r, s)) : C.Leads s act :=
  of_run h hs (C.refl s)

/-- A bind leads along `C` when its first action does, and the rest does from where every
successful run of the first action ends. -/
theorem bind {s : σ} {x : ExceptT ε (StateM σ) α} {f : α → ExceptT ε (StateM σ) β}
    (hx : C.Leads s x) (hf : ∀ a s', x.run.run s = (.ok a, s') → C.inv s' → C.Leads s' (f a)) :
    C.Leads s (x >>= f) := by
  unfold Leads at hx ⊢
  rw [run_bind]
  rcases hrun : x.run.run s with ⟨_ | a, s'⟩
  · rw [hrun] at hx
    exact hx
  · rw [hrun] at hx
    obtain ⟨hi, hr⟩ := hf a s' hrun hx.1
    exact ⟨hi, C.trans hx.2 hr⟩

/-- A run that ends where the run of another action from a later state ends. -/
theorem shift {s s' : σ} {act act' : ExceptT ε (StateM σ) α} (h : act.run.run s = act'.run.run s')
    (hr : C.rel s s') (ha : C.Leads s' act') : C.Leads s act := by
  unfold Leads
  rw [h]
  exact ⟨ha.1, C.trans hr ha.2⟩

/-- A change of state the course allows, then an action that leads along it. -/
theorem modify_bind {s : σ} {g : σ → σ} {f : PUnit → ExceptT ε (StateM σ) α}
    (hg : C.inv (g s) ∧ C.rel s (g s)) (hf : C.Leads (g s) (f ⟨⟩)) :
    C.Leads s (modify g >>= f) :=
  ⟨hf.1, C.trans hg.2 hf.2⟩

end Leads

namespace Moves

theorem bind {x : ExceptT ε (StateM σ) α} {f : α → ExceptT ε (StateM σ) β} (hx : C.Moves x)
    (hf : ∀ a, C.Moves (f a)) : C.Moves (x >>= f) :=
  fun s hs => (hx s hs).bind fun a s' _ hs' => hf a s' hs'

theorem pure (a : α) : C.Moves (Pure.pure a : ExceptT ε (StateM σ) α) :=
  fun s hs => ⟨hs, C.refl s⟩

theorem throw (e : ε) : C.Moves (MonadExcept.throw e : ExceptT ε (StateM σ) α) :=
  fun s hs => ⟨hs, C.refl s⟩

theorem liftS {act : StateM σ α} (h : C.MovesS act) : C.Moves (liftM act : ExceptT ε (StateM σ) α) :=
  fun s hs => h s hs

/-- An action that starts by reading the state moves along `C` if what follows leads along `C`
from the state it read. -/
theorem get_bind {f : σ → ExceptT ε (StateM σ) α} (h : ∀ s, C.inv s → C.Leads s (f s)) :
    C.Moves (MonadState.get >>= f) :=
  h

theorem get : C.Moves (MonadState.get : ExceptT ε (StateM σ) σ) :=
  fun s hs => ⟨hs, C.refl s⟩

theorem modify {g : σ → σ} (h : ∀ s, C.inv s → C.inv (g s) ∧ C.rel s (g s)) :
    C.Moves (modify g : ExceptT ε (StateM σ) PUnit) :=
  h

theorem tryCatch {act : ExceptT ε (StateM σ) α} {handler : ε → ExceptT ε (StateM σ) α}
    (h : C.Moves act) (hh : ∀ e, C.Moves (handler e)) : C.Moves (tryCatch act handler) := by
  intro s hs
  obtain ⟨hi, hr⟩ := h s hs
  unfold Leads
  rw [ExceptT.run_tryCatch, StateT.run_bind]
  rcases hrun : act.run.run s with ⟨_ | a, s'⟩
  · rw [hrun] at hi hr
    obtain ⟨hi', hr'⟩ := hh _ s' hi
    exact ⟨hi', C.trans hr hr'⟩
  · rw [hrun] at hi hr
    exact ⟨hi, hr⟩

theorem forIn {l : List α} {b : β} {f : α → β → ExceptT ε (StateM σ) (ForInStep β)}
    (h : ∀ a ∈ l, ∀ b, C.Moves (f a b)) : C.Moves (forIn l b f) := by
  induction l generalizing b with
  | nil => exact pure b
  | cons a l ih =>
    rw [List.forIn_cons]
    refine bind (h a List.mem_cons_self b) fun r => ?_
    cases r with
    | done b => exact pure b
    | yield b => exact ih fun a' ha' => h a' (List.mem_cons_of_mem a ha')

/-- An action that moves along a narrower course moves along a wider one. -/
theorem mono {D : Course σ} {act : ExceptT ε (StateM σ) α} (h : C.Moves act)
    (hinv : ∀ s, D.inv s → C.inv s)
    (hrel : ∀ {s s'}, D.inv s → C.inv s' → C.rel s s' → D.inv s' ∧ D.rel s s') : D.Moves act :=
  fun s hs => hrel hs (h s (hinv s hs)).1 (h s (hinv s hs)).2

end Moves

theorem LeadsS.bind {s : σ} {x : StateM σ α} {f : α → StateM σ β} (hx : C.LeadsS s x)
    (hf : C.LeadsS (x.run s).2 (f (x.run s).1)) : C.LeadsS s (x >>= f) :=
  ⟨hf.1, C.trans hx.2 hf.2⟩

namespace MovesS

theorem bind {x : StateM σ α} {f : α → StateM σ β} (hx : C.MovesS x) (hf : ∀ a, C.MovesS (f a)) :
    C.MovesS (x >>= f) :=
  fun s hs => (hx s hs).bind (hf _ _ (hx s hs).1)

theorem pure (a : α) : C.MovesS (Pure.pure a : StateM σ α) := fun s hs => ⟨hs, C.refl s⟩

theorem get : C.MovesS (MonadState.get : StateM σ σ) := fun s hs => ⟨hs, C.refl s⟩

/-- A state action that starts by reading the state moves along `C` if what follows leads along
`C` from the state it read. -/
theorem get_bind {f : σ → StateM σ α} (h : ∀ s, C.inv s → C.LeadsS s (f s)) :
    C.MovesS (MonadState.get >>= f) :=
  h

theorem modify {g : σ → σ} (h : ∀ s, C.inv s → C.inv (g s) ∧ C.rel s (g s)) :
    C.MovesS (modify g : StateM σ PUnit) :=
  h

theorem forM {l : List α} {f : α → StateM σ PUnit} (h : ∀ a ∈ l, C.MovesS (f a)) :
    C.MovesS (l.forM f) := by
  induction l with
  | nil => exact pure _
  | cons a l ih =>
    change C.MovesS (f a >>= fun _ => l.forM f)
    exact bind (h a List.mem_cons_self) fun _ => ih fun a' ha' => h a' (List.mem_cons_of_mem a ha')

theorem mono {D : Course σ} {act : StateM σ α} (h : C.MovesS act) (hinv : ∀ s, D.inv s → C.inv s)
    (hrel : ∀ {s s'}, D.inv s → C.inv s' → C.rel s s' → D.inv s' ∧ D.rel s s') : D.MovesS act :=
  fun s hs => hrel hs (h s (hinv s hs)).1 (h s (hinv s hs)).2

end MovesS

end Course

open Course

namespace Fmu

theorem Loopback.setValues_clock (fmu : Loopback) (vr : Nat) (k : Kind) (nv : NativeValues) :
    (fmu.setValues vr k nv).1.steps = fmu.steps ∧
      (fmu.setValues vr k nv).1.terminated = fmu.terminated := by
  rcases setValues_cases fmu vr k nv with ⟨-, hkeep⟩ | ⟨-, -, -, -, -, -, hstore⟩
  · rw [hkeep]
    exact ⟨rfl, rfl⟩
  · rw [hstore]
    exact ⟨rfl, rfl⟩

theorem Loopback.doStep_live {fmu : Loopback} (hlive : fmu.terminated = false) (t h : Float) :
    ∃ fmu' : Loopback, fmu'.steps = fmu.steps + 1 ∧ fmu'.terminated = false ∧
      fmu.doStep t h = if fmu.async then ({ fmu' with finished := some (t + h, .ok) }, t, .pending)
        else (fmu', t + h, .ok) := by
  obtain ⟨-, -, ht₁, hs₁, ha₁⟩ := copyLinks_frame fmu
  obtain ⟨-, -, ht₂, hs₂, ha₂⟩ := resetClocks_frame fmu.copyLinks
  refine ⟨{ fmu.copyLinks.resetClocks with steps := fmu.copyLinks.resetClocks.steps + 1 }, ?_, ?_, ?_⟩
  · simp [hs₂, hs₁]
  · simp [ht₂, ht₁, hlive]
  · simp [doStep, hlive, ha₂, ha₁]

namespace Device

/-- The FMU's clock, as the co-simulation sees it: how many steps it took and whether it has
terminated. A call that neither steps nor terminates keeps it. -/
def steady : Course Device where
  inv _ := True
  rel d d' := d'.fmu.steps = d.fmu.steps ∧ d'.fmu.terminated = d.fmu.terminated
  refl _ := ⟨rfl, rfl⟩
  trans h₁ h₂ := ⟨h₂.1.trans h₁.1, h₂.2.trans h₁.2⟩

theorem note_steady (ls : Journal) : steady.Moves (note ls) := fun _ _ => ⟨trivial, rfl, rfl⟩

theorem check_steady (op : String) (st : Status) : steady.Moves (check op st) := by
  unfold check
  split
  · exact Moves.pure _
  · split
    · exact (note_steady _).bind fun _ => Moves.pure _
    · exact (note_steady _).bind fun _ => Moves.throw _

theorem get_steady (refs : List Nat) (k : Kind) : steady.Moves (get refs k) := by
  unfold get
  refine Moves.bind Moves.get fun d => ?_
  exact (note_steady _).bind fun _ => (check_steady _ _).bind fun _ => Moves.pure _

theorem set_steady (vr : Nat) (nv : NativeValues) : steady.Moves (set vr nv) := by
  unfold set
  refine Moves.get_bind fun d _ => ?_
  exact Leads.modify_bind ⟨trivial, d.fmu.setValues_clock vr nv.kind nv⟩
    (check_steady _ _ _ trivial)

/-! ## Stepping and terminating -/

theorem run_note (ls : Journal) (d : Device) :
    (note ls).run.run d = (.ok (), { d with log := d.log ++ ls }) := rfl

theorem check_ok (op : String) (st : Status) (h : st.succeeded = true) (d : Device) :
    (check op st).run.run d = (.ok (), d) := by
  unfold check
  rw [if_pos h]
  rfl

/-- A step of an FMU that has not terminated succeeds, reaches `t + h` and counts one step, also
when the step completes later. -/
theorem doStep_live {d : Device} (hlive : d.fmu.terminated = false) (t h : Float) :
    ∃ d' : Device, (doStep t h).run.run d = (.ok (t + h), d') ∧ d'.fmu.steps = d.fmu.steps + 1 ∧
      d'.fmu.terminated = false := by
  obtain ⟨fmu', hsteps, hterm, hrun⟩ := d.fmu.doStep_live hlive t h
  unfold doStep
  cases hasync : d.fmu.async
  · simp only [run_bind, run_get, run_modify, hrun, hasync, Bool.false_eq_true, ↓reduceIte,
      check_ok _ .ok rfl]
    exact ⟨_, rfl, hsteps, hterm⟩
  · -- answered `Pending` at `t`: the reached time is the one collected
    simp only [run_bind, run_get, run_modify, hrun, hasync, ↓reduceIte, check_ok _ .pending rfl,
      bne_self_eq_false, Bool.false_eq_true, Loopback.collect, run_note, check_ok _ .ok rfl,
      beq_iff_eq, reduceCtorEq]
    exact ⟨_, rfl, hsteps, hterm⟩

/-- Terminating an FMU that has not terminated succeeds and keeps its count of steps. -/
theorem terminate_live {d : Device} (hlive : d.fmu.terminated = false) :
    ∃ d' : Device, terminate.run.run d = (.ok (), d') ∧ d'.fmu.steps = d.fmu.steps ∧
      d'.fmu.terminated = true := by
  unfold terminate
  simp only [run_bind, run_get, run_modify, Loopback.terminate, hlive, Bool.false_eq_true,
    ↓reduceIte, check_ok _ .ok rfl]
  exact ⟨_, rfl, rfl, rfl⟩

end Device

end Fmu

namespace Layout

open Fmu Fmu.Device

theorem liftWith_steady {α : Type} (ctx : String) (r : Except Fault α) :
    steady.Moves (liftWith ctx r) := by
  unfold liftWith
  split
  · exact Moves.pure _
  · exact Moves.throw _

theorem exportVariable_steady (b : BoundVariable) : steady.Moves (exportVariable b) := by
  unfold exportVariable
  refine (get_steady _ _).bind fun nv => (liftWith_steady _ _).bind fun raw => ?_
  dsimp only
  split
  on_goal 1 => refine (Moves.throw _).bind fun _ => ?_
  -- the mapped elements are a scalar, an array nested by the shape, or a nesting that panics
  all_goals
    refine (liftWith_steady _ _).bind fun _ => ?_
    split
    · exact Moves.pure _
    · split
      · exact Moves.pure _
      · exact Moves.throw _

mutual

theorem exportAssembly_steady (l : Layout) : ∀ s : Assembly, steady.Moves (exportAssembly l s)
  | .mk _ _ _ _ slots _ => by
    rw [exportAssembly]
    exact exportAssembly_go_steady l slots

theorem exportAssembly_go_steady (l : Layout) :
    ∀ slots : List (String × Descriptor × Option String × Option Assembly),
      steady.Moves (exportAssembly.go l slots)
  | [] => by
    rw [exportAssembly.go]
    exact Moves.pure _
  | (m, _, _, some s) :: rest => by
    rw [exportAssembly.go]
    refine (exportAssembly_steady l s).bind fun _ => (exportAssembly_go_steady l rest).bind fun r => ?_
    split <;> exact Moves.pure _
  | (m, _, name, none) :: rest => by
    rw [exportAssembly.go]
    split
    · exact (exportVariable_steady _).bind fun _ => (exportAssembly_go_steady l rest).bind fun _ => by
        split <;> exact Moves.pure _
    · exact (Moves.pure _).bind fun _ => (exportAssembly_go_steady l rest).bind fun _ => by
        split <;> exact Moves.pure _

end

theorem encodeAs_steady (d : Descriptor) (v : Value) : steady.Moves (encodeAs d v) :=
  liftWith_steady _ _

theorem exportStructure_steady (l : Layout) (s : Assembly) : steady.Moves (exportStructure l s) :=
  (Moves.tryCatch (exportAssembly_steady l s) fun _ => Moves.throw _).bind fun _ =>
    encodeAs_steady _ _

theorem exportTopic_steady (l : Layout) (t : Topic) : steady.Moves (exportTopic l t) := by
  unfold exportTopic
  split
  · split
    · exact exportStructure_steady _ _
    · exact Moves.throw _
  · split
    · exact Moves.throw _
    · exact (Moves.tryCatch (exportVariable_steady _) fun _ => Moves.throw _).bind fun _ =>
        encodeAs_steady _ _

theorem importVariable_steady (l : Layout) (b : BoundVariable) (v : Value) :
    steady.Moves (importVariable l b v) := by
  unfold importVariable
  split
  · exact Moves.pure _
  refine (liftWith_steady _ _).bind fun flat => ?_
  refine (Moves.forIn fun x _ st => ?_).bind fun st => ?_
  · dsimp only
    split
    · split
      · exact (Moves.pure _).bind fun _ => (liftWith_steady _ _).bind fun _ => Moves.pure _
      · exact (get_steady _ _).bind fun _ => (liftWith_steady _ _).bind fun _ => Moves.pure _
    · exact (liftWith_steady _ _).bind fun _ => Moves.pure _
  · exact (liftWith_steady _ _).bind fun _ => set_steady _ _

mutual

theorem importAssembly_steady (l : Layout) :
    ∀ (s : Assembly) (fs : List (String × Value)), steady.Moves (importAssembly l s fs)
  | .mk _ _ _ _ slots _, fs => by
    rw [importAssembly]
    exact importAssembly_go_steady l slots fs

theorem importAssembly_go_steady (l : Layout) :
    ∀ (slots : List (String × Descriptor × Option String × Option Assembly))
      (fs : List (String × Value)), steady.Moves (importAssembly.go l slots fs)
  | [], _ => by
    rw [importAssembly.go]
    exact Moves.pure _
  | (m, _, name, nested) :: rest, fs => by
    rw [importAssembly.go]
    have hk := importAssembly_go_steady l rest fs
    split
    · exact hk
    · exact hk
    · split
      · exact (importAssembly_steady l _ _).bind fun _ => hk
      · exact hk
      · split
        · exact (importVariable_steady _ _ _).bind fun _ => hk
        · exact hk

end

theorem importStructure_steady (l : Layout) (s : Assembly) (payload : Bytes) :
    steady.Moves (importStructure l s payload) := by
  unfold importStructure
  refine (liftWith_steady _ _).bind fun v => ?_
  split
  · exact Moves.tryCatch (importAssembly_steady _ _ _) fun _ => Moves.throw _
  · exact Moves.pure _

theorem tick_steady (l : Layout) (clocks : List String) : steady.Moves (tick l clocks) := by
  unfold tick
  refine (Moves.forIn fun c _ _ => ?_).bind fun _ => Moves.pure _
  split
  · exact Moves.pure _
  · split
    · exact Moves.pure _
    · exact (liftWith_steady _ _).bind fun _ => (set_steady _ _).bind fun _ => Moves.pure _

theorem importTopic_steady (l : Layout) (t : Topic) (payload : Bytes) :
    steady.Moves (importTopic l t payload) := by
  unfold importTopic
  have hk := tick_steady l t.clocks
  dsimp only
  split
  · split
    · exact (importStructure_steady _ _ _).bind fun _ => hk
    · exact hk
  · refine (liftWith_steady _ _).bind fun _ => ?_
    split
    · exact (Moves.tryCatch (importVariable_steady _ _ _) fun _ => Moves.throw _).bind fun _ => hk
    · exact hk

theorem clockActive_steady (b : BoundVariable) : steady.Moves (clockActive b) :=
  (get_steady _ _).bind fun _ => (liftWith_steady _ _).bind fun _ => Moves.pure _

theorem anyTicked_steady (l : Layout) (clocks : List String) : steady.Moves (anyTicked l clocks) := by
  unfold anyTicked
  split
  · exact Moves.pure _
  refine (Moves.forIn fun c _ _ => ?_).bind fun _ => ?_
  · split
    · exact Moves.pure _
    · exact (clockActive_steady _).bind fun _ => by split <;> exact Moves.pure _
  · dsimp only
    split <;> exact Moves.pure _

theorem active_steady (l : Layout) (t : Topic) : steady.Moves (active l t) :=
  anyTicked_steady _ _

theorem readBinary_steady (b : BoundVariable) : steady.Moves (readBinary b) :=
  (get_steady _ _).bind fun _ => Moves.pure _

theorem writeBinary_steady (l : Layout) (b : BoundVariable) (bs : Bytes) :
    steady.Moves (writeBinary l b bs) :=
  (liftWith_steady _ _).bind fun _ => set_steady _ _

end Layout

end CoSimBridge
