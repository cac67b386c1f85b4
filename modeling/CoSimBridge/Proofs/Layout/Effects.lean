import Mathlib
import CoSimBridge.Proofs.Layout.Subscriptions
/-!
# What the layout's calls may do to the FMU, along any course

The layout reads and writes the FMU only through `Device.get` and `Device.set`. So a course of
the FMU's states along which every read moves, and every write at the references in `R`, is a
course every call of the layout moves along, as long as that call writes only into `R`: exports,
clock reads and byte reads write nothing, an import writes the variables its topic or structure
carries and the input clocks it ticks. Each lemma here is stated once for an arbitrary course;
the courses that need them instantiate `hget` and `hset`.

The course used with them is `Device.frames R`: the FMU keeps its model and its links, a stored
value for every reference that had one, and the value of every reference outside `R`. A step of
the FMU writes only the targets of its links and its input clocks, and termination writes
nothing, and no call brings back an FMU that has terminated.
-/

namespace CoSimBridge

open Course

namespace Fmu

/-- `fmu'` runs the model and the links of `fmu`, stores a value for every reference that `fmu`
stores one for, keeps the value of every reference outside `R`, and has terminated if `fmu`
has. -/
structure Loopback.Frames (R : Nat → Prop) (fmu fmu' : Loopback) : Prop where
  model : fmu'.model = fmu.model
  links : fmu'.links = fmu.links
  stored : ∀ r, (fmu.values.lookup r).isSome → (fmu'.values.lookup r).isSome
  frame : ∀ r, ¬ R r → fmu'.valueOf r = fmu.valueOf r
  terminated : fmu.terminated = true → fmu'.terminated = true

namespace Loopback.Frames

variable {R R' : Nat → Prop} {fmu fmu' fmu'' : Loopback}

theorem refl (R : Nat → Prop) (fmu : Loopback) : Frames R fmu fmu :=
  ⟨rfl, rfl, fun _ h => h, fun _ _ => rfl, id⟩

theorem trans (h : Frames R fmu fmu') (h' : Frames R fmu' fmu'') : Frames R fmu fmu'' :=
  ⟨h'.model.trans h.model, h'.links.trans h.links, fun r hr => h'.stored r (h.stored r hr),
    fun r hr => (h'.frame r hr).trans (h.frame r hr), fun ht => h'.terminated (h.terminated ht)⟩

theorem mono (h : Frames R fmu fmu') (hR : ∀ r, R r → R' r) : Frames R' fmu fmu' :=
  ⟨h.model, h.links, h.stored, fun r hr => h.frame r fun h => hr (hR r h), h.terminated⟩

theorem of_touches (h : Touches R fmu fmu') (hl : fmu'.links = fmu.links) : Frames R fmu fmu' :=
  ⟨h.model, hl, h.stored, h.frame, fun ht => h.terminated.trans ht⟩

/-- Storing a value at a reference in `R`. -/
theorem store {vr : Nat} (hvr : R vr) (nv : NativeValues) : Frames R fmu (fmu.store vr nv) :=
  (of_touches (Touches.store fmu vr nv) rfl).mono fun _ h => h ▸ hvr

theorem setValues {vr : Nat} (hvr : R vr) (k : Kind) (nv : NativeValues) :
    Frames R fmu (fmu.setValues vr k nv).1 := by
  rcases setValues_cases fmu vr k nv with ⟨-, hkeep⟩ | ⟨-, -, -, -, -, -, hstore⟩
  · rw [hkeep]
    exact refl _ _
  · rw [hstore]
    exact store hvr _

/-- A fold of changes each of which writes into `R` only. -/
theorem foldl {β : Type} (l : List β) (step : Loopback → β → Loopback)
    (hstep : ∀ f b, b ∈ l → Frames R f (step f b)) : ∀ fmu, Frames R fmu (l.foldl step fmu) := by
  induction l with
  | nil => exact fun fmu => refl R fmu
  | cons b l ih =>
    intro fmu
    exact (hstep fmu b List.mem_cons_self).trans
      (ih (fun f b' hb' => hstep f b' (List.mem_cons_of_mem b hb')) _)

/-- Copying the links writes their targets only. -/
theorem copyLinks (hR : ∀ lk ∈ fmu.links, R lk.2) : Frames R fmu fmu.copyLinks :=
  foldl fmu.links _ (fun _ lk hlk => store (hR lk hlk) _) fmu

/-- Resetting the input clocks writes their references only. -/
theorem resetClocks
    (hR : ∀ v ∈ fmu.model.modelVariables, v.kind = .clock → v.causality = .input → R v.vr) :
    Frames R fmu fmu.resetClocks := by
  unfold Loopback.resetClocks
  refine foldl _ _ (fun f v hv => ?_) fmu
  split
  · rename_i hclock
    simp only [Bool.and_eq_true, beq_iff_eq] at hclock
    exact store (hR v hv hclock.1 hclock.2) _
  · exact refl _ _

end Loopback.Frames

namespace Device

/-- Calls that keep the model, the links and the stored references of the FMU, and write the
references in `R` only. -/
def frames (R : Nat → Prop) : Course Device where
  inv _ := True
  rel d d' := Loopback.Frames R d.fmu d'.fmu
  refl d := .refl R d.fmu
  trans h₁ h₂ := h₁.trans h₂

variable {R : Nat → Prop}

theorem note_frames (ls : Journal) : (frames R).Moves (note ls) :=
  fun d _ => ⟨trivial, .refl R d.fmu⟩

theorem check_frames (op : String) (st : Status) : (frames R).Moves (check op st) := by
  unfold check
  split
  · exact Moves.pure _
  · split
    · exact (note_frames _).bind fun _ => Moves.pure _
    · exact (note_frames _).bind fun _ => Moves.throw _

theorem get_frames (refs : List Nat) (k : Kind) : (frames R).Moves (get refs k) :=
  Moves.bind Moves.get fun _ =>
    (note_frames _).bind fun _ => (check_frames _ _).bind fun _ => Moves.pure _

theorem set_frames {vr : Nat} (hvr : R vr) (nv : NativeValues) : (frames R).Moves (set vr nv) := by
  unfold set
  exact Moves.get_bind fun d _ => Leads.modify_bind ⟨trivial, .setValues hvr nv.kind nv⟩
    (check_frames _ _ _ trivial)

/-- A step of the FMU writes the targets of its links and its input clocks only. -/
theorem doStep_frames {d : Device} (hlinks : ∀ lk ∈ d.fmu.links, R lk.2)
    (hclocks : ∀ v ∈ d.fmu.model.modelVariables, v.kind = .clock → v.causality = .input → R v.vr)
    (t h : Float) : (frames R).Leads d (doStep t h) := by
  -- what the FMU does when it steps, before it counts the step or keeps a pending result
  have hstep : Loopback.Frames R d.fmu (d.fmu.doStep t h).1 := by
    unfold Loopback.doStep
    split
    · exact .refl R d.fmu
    · have hc := Loopback.Frames.copyLinks hlinks
      have hcl : ∀ v ∈ d.fmu.copyLinks.model.modelVariables, v.kind = .clock →
          v.causality = .input → R v.vr := by
        rw [hc.model]
        exact hclocks
      have hr := Loopback.Frames.resetClocks hcl
      have hf := hc.trans hr
      dsimp only
      split <;> exact ⟨hf.model, hf.links, hf.stored, hf.frame, hf.terminated⟩
  unfold doStep
  refine (Moves.get d trivial).bind fun d' d₁ hget _ => ?_
  cases hget
  refine Leads.modify_bind ⟨trivial, hstep⟩ (((check_frames _ _).bind fun _ => ?_) _ trivial)
  split
  · exact Moves.pure _
  refine (note_frames _).bind fun _ => Moves.get_bind fun d₂ _ => Leads.modify_bind ⟨trivial,
    ⟨rfl, rfl, fun _ h => h, fun _ _ => rfl, id⟩⟩ ?_
  split
  · exact Moves.throw _ _ trivial
  · refine ((check_frames _ _).bind fun _ => ?_) _ trivial
    split
    · exact Moves.throw _
    · exact Moves.pure _

/-- Terminating writes nothing. -/
theorem terminate_frames : (frames R).Moves terminate := by
  have hterm : ∀ fmu : Loopback, Loopback.Frames R fmu fmu.terminate.1 := fun fmu => by
    unfold Loopback.terminate
    split
    · exact .refl R fmu
    · exact ⟨rfl, rfl, fun _ h => h, fun _ _ => rfl, fun _ => rfl⟩
  unfold terminate
  exact Moves.get_bind fun d _ => Leads.modify_bind ⟨trivial, hterm d.fmu⟩ (check_frames _ _ _ trivial)

end Device

end Fmu

namespace Layout

open Fmu Fmu.Device

variable {C : Course Device}

theorem liftWith_moves {α : Type} (ctx : String) (r : Except Fault α) : C.Moves (liftWith ctx r) := by
  unfold liftWith
  split
  · exact Moves.pure _
  · exact Moves.throw _

/-! ## Reads -/

section Reads

theorem exportVariable_moves (hget : ∀ refs k, C.Moves (get refs k)) (b : BoundVariable) : C.Moves (exportVariable b) := by
  unfold exportVariable
  refine (hget _ _).bind fun nv => (liftWith_moves _ _).bind fun raw => ?_
  dsimp only
  split
  on_goal 1 => refine (Moves.throw _).bind fun _ => ?_
  -- the mapped elements are a scalar, an array nested by the shape, or a nesting that panics
  all_goals
    refine (liftWith_moves _ _).bind fun _ => ?_
    split
    · exact Moves.pure _
    · split
      · exact Moves.pure _
      · exact Moves.throw _

mutual

theorem exportAssembly_moves (hget : ∀ refs k, C.Moves (get refs k)) (l : Layout) : ∀ s : Assembly, C.Moves (exportAssembly l s)
  | .mk _ _ _ _ slots _ => by
    rw [exportAssembly]
    exact exportAssembly_go_moves hget l slots

theorem exportAssembly_go_moves (hget : ∀ refs k, C.Moves (get refs k)) (l : Layout) :
    ∀ slots : List Slot, C.Moves (exportAssembly.go l slots)
  | [] => by
    rw [exportAssembly.go]
    exact Moves.pure _
  | (m, _, _, some s) :: rest => by
    rw [exportAssembly.go]
    refine (exportAssembly_moves hget l s).bind fun _ => (exportAssembly_go_moves hget l rest).bind fun r => ?_
    split <;> exact Moves.pure _
  | (m, _, name, none) :: rest => by
    rw [exportAssembly.go]
    split
    · exact (exportVariable_moves hget _).bind fun _ => (exportAssembly_go_moves hget l rest).bind fun _ => by
        split <;> exact Moves.pure _
    · exact (Moves.pure _).bind fun _ => (exportAssembly_go_moves hget l rest).bind fun _ => by
        split <;> exact Moves.pure _

end

theorem exportStructure_moves (hget : ∀ refs k, C.Moves (get refs k)) (l : Layout) (s : Assembly) : C.Moves (exportStructure l s) :=
  (Moves.tryCatch (exportAssembly_moves hget l s) fun _ => Moves.throw _).bind fun _ =>
    liftWith_moves _ _

theorem exportTopic_moves (hget : ∀ refs k, C.Moves (get refs k)) (l : Layout) (t : Topic) : C.Moves (exportTopic l t) := by
  unfold exportTopic
  split
  · split
    · exact exportStructure_moves hget _ _
    · exact Moves.throw _
  · split
    · exact Moves.throw _
    · exact (Moves.tryCatch (exportVariable_moves hget _) fun _ => Moves.throw _).bind fun _ =>
        liftWith_moves _ _

theorem clockActive_moves (hget : ∀ refs k, C.Moves (get refs k)) (b : BoundVariable) : C.Moves (clockActive b) :=
  (hget _ _).bind fun _ => (liftWith_moves _ _).bind fun _ => Moves.pure _

theorem anyTicked_moves (hget : ∀ refs k, C.Moves (get refs k)) (l : Layout) (clocks : List String) : C.Moves (anyTicked l clocks) := by
  unfold anyTicked
  split
  · exact Moves.pure _
  refine (Moves.forIn fun c _ _ => ?_).bind fun _ => ?_
  · split
    · exact Moves.pure _
    · exact (clockActive_moves hget _).bind fun _ => by split <;> exact Moves.pure _
  · dsimp only
    split <;> exact Moves.pure _

theorem active_moves (hget : ∀ refs k, C.Moves (get refs k)) (l : Layout) (t : Topic) : C.Moves (active l t) :=
  anyTicked_moves hget _ _

theorem readBinary_moves (hget : ∀ refs k, C.Moves (get refs k)) (b : BoundVariable) : C.Moves (readBinary b) :=
  (hget _ _).bind fun _ => Moves.pure _

end Reads

/-! ## Writes -/

section Writes

variable {R : Nat → Prop}

theorem importVariable_moves (hget : ∀ refs k, C.Moves (get refs k))
    (hset : ∀ vr nv, R vr → C.Moves (set vr nv)) (l : Layout) {b : BoundVariable} (hb : R b.fmu.vr) (v : Value) :
    C.Moves (importVariable l b v) := by
  unfold importVariable
  split
  · exact Moves.pure _
  refine (liftWith_moves _ _).bind fun flat => ?_
  refine (Moves.forIn fun x _ st => ?_).bind fun st => ?_
  · dsimp only
    split
    · split
      · exact (Moves.pure _).bind fun _ => (liftWith_moves _ _).bind fun _ => Moves.pure _
      · exact (hget _ _).bind fun _ => (liftWith_moves _ _).bind fun _ => Moves.pure _
    · exact (liftWith_moves _ _).bind fun _ => Moves.pure _
  · exact (liftWith_moves _ _).bind fun _ => hset _ _ hb

mutual

theorem importAssembly_moves (hget : ∀ refs k, C.Moves (get refs k))
    (hset : ∀ vr nv, R vr → C.Moves (set vr nv)) (l : Layout) :
    ∀ (s : Assembly) (fs : List (String × Value)),
      (∀ n b, l.findVariable n = some b → (n ∈ s.variableNames ∨ n = "") → R b.fmu.vr) →
      C.Moves (importAssembly l s fs)
  | .mk _ _ _ _ slots _, fs, hR => by
    rw [importAssembly]
    exact importAssembly_go_moves hget hset l slots fs fun n b hb hn =>
      hR n b hb (by rwa [Assembly.variableNames_eq])

theorem importAssembly_go_moves (hget : ∀ refs k, C.Moves (get refs k))
    (hset : ∀ vr nv, R vr → C.Moves (set vr nv)) (l : Layout) :
    ∀ (slots : List Slot) (fs : List (String × Value)),
      (∀ n b, l.findVariable n = some b → (n ∈ slots.flatMap Assembly.slotVars ∨ n = "") →
        R b.fmu.vr) →
      C.Moves (importAssembly.go l slots fs)
  | [], _, _ => by
    rw [importAssembly.go]
    exact Moves.pure _
  | (m, t, name, nested) :: rest, fs, hR => by
    rw [importAssembly.go]
    have hk := importAssembly_go_moves hget hset l rest fs fun n b hb hn =>
      hR n b hb (hn.imp_left fun h => List.mem_flatMap.mpr (by
        obtain ⟨sl, hsl, hn⟩ := List.mem_flatMap.mp h
        exact ⟨sl, List.mem_cons_of_mem _ hsl, hn⟩))
    split
    · exact hk
    · exact hk
    · split
      · -- a nested structure: its variables are the slot's
        refine (importAssembly_moves hget hset l _ _ fun n b hb hn => hR n b hb ?_).bind fun _ => hk
        exact hn.imp_left fun h => List.mem_flatMap.mpr ⟨_, List.mem_cons_self, by
          simpa [Assembly.slotVars] using h⟩
      · exact hk
      · split
        · rename_i b hb
          refine (importVariable_moves hget hset l (hR _ b hb ?_) _).bind fun _ => hk
          cases name with
          | none => exact .inr rfl
          | some n =>
            exact .inl (List.mem_flatMap.mpr ⟨_, List.mem_cons_self, by simp [Assembly.slotVars]⟩)
        · exact hk

end

theorem importStructure_moves (hget : ∀ refs k, C.Moves (get refs k))
    (hset : ∀ vr nv, R vr → C.Moves (set vr nv)) (l : Layout) (s : Assembly) (payload : Bytes)
    (hR : ∀ n b, l.findVariable n = some b → (n ∈ s.variableNames ∨ n = "") → R b.fmu.vr) :
    C.Moves (importStructure l s payload) := by
  unfold importStructure
  refine (liftWith_moves _ _).bind fun v => ?_
  split
  · exact Moves.tryCatch (importAssembly_moves hget hset l _ _ hR) fun _ => Moves.throw _
  · exact Moves.pure _

theorem tick_moves (hset : ∀ vr nv, R vr → C.Moves (set vr nv)) (l : Layout) (clocks : List String)
    (hR : ∀ c ∈ clocks, ∀ b, l.findVariable c = some b → b.direction = .subscribe → R b.fmu.vr) :
    C.Moves (tick l clocks) := by
  unfold tick
  refine (Moves.forIn fun c hc _ => ?_).bind fun _ => Moves.pure _
  split
  · exact Moves.pure _
  · rename_i b hb
    split
    · exact Moves.pure _
    · rename_i hdir
      exact (liftWith_moves _ _).bind fun _ =>
        (hset _ _ (hR c hc b hb (by simpa using hdir))).bind fun _ => Moves.pure _

/-- An import into a topic moves along every course that allows writing what `Written` names. -/
theorem importTopic_moves (hget : ∀ refs k, C.Moves (get refs k))
    (hset : ∀ vr nv, R vr → C.Moves (set vr nv)) (l : Layout) (t : Topic) (payload : Bytes)
    (hR : ∀ r, Written l t r → R r) : C.Moves (importTopic l t payload) := by
  have htick : C.Moves (tick l t.clocks) :=
    tick_moves hset l t.clocks fun c hc b hb hdir => by
      obtain ⟨hmem, rfl⟩ := findVariable_some hb
      exact hR _ ⟨b, hmem, rfl, .inr (.inr ⟨hc, hdir⟩)⟩
  unfold importTopic
  split
  · rename_i root hcar
    split
    · rename_i s hs
      refine (importStructure_moves hget hset l s payload fun n b hb hn => ?_).bind fun _ => htick
      obtain ⟨hmem, rfl⟩ := findVariable_some hb
      refine hR _ ⟨b, hmem, rfl, ?_⟩
      rcases hn with hn | hn
      · left
        simp [carries, hcar, hs, hn]
      · exact .inr (.inl hn)
    · exact (Moves.pure ()).bind fun _ => htick
  · rename_i name hcar
    refine (liftWith_moves _ _).bind fun v => ?_
    split
    · rename_i b hb
      obtain ⟨hb', rfl⟩ := findVariable_some hb
      have hw : R b.fmu.vr := hR _ ⟨b, hb', rfl, .inl (by simp [carries, hcar])⟩
      exact (Moves.tryCatch (importVariable_moves hget hset l hw v) fun _ => Moves.throw _).bind
        fun _ => htick
    · exact (Moves.pure ()).bind fun _ => htick

theorem writeBinary_moves (hset : ∀ vr nv, R vr → C.Moves (set vr nv)) (l : Layout) {b : BoundVariable} (hb : R b.fmu.vr) (bs : Bytes) :
    C.Moves (writeBinary l b bs) :=
  (liftWith_moves _ _).bind fun _ => hset _ _ hb

end Writes

end Layout

end CoSimBridge
