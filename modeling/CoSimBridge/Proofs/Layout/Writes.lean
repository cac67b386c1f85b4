import CoSimBridge.Proofs.Session.Moves
import CoSimBridge.Proofs.Fmu.Packing
import CoSimBridge.Proofs.Layout.Placement
/-!
# What importing a payload writes into the FMU

Importing reads and writes the FMU through the binding's calls, reference by reference. This
module says what those writes can and do change.

The course `Fmu.Device.touching R` allows a call to change the stored values of the references
in `R` only, and keeps the model and whether the FMU has terminated. Every run of an import,
successful or not, moves along it when `R` holds the references of the variables the import can
reach: those of a variable, of a structure's slots, and of the clocks it ticks.

A successful import of one variable writes, when its wire value is present, the elements of
that value in row-major order, each cast into the variable's kind, except that an absent element
takes the variable's element at its position as a read of the FMU gave it (`importVariable_ok`).
-/

namespace CoSimBridge

namespace Course

variable {σ ε α β : Type}

theorem run_bind_ok {x : ExceptT ε (StateM σ) α} {f : α → ExceptT ε (StateM σ) β} {s s' : σ}
    {b : β} (h : (x >>= f).run.run s = (.ok b, s')) :
    ∃ a s₁, x.run.run s = (.ok a, s₁) ∧ (f a).run.run s₁ = (.ok b, s') := by
  rw [run_bind] at h
  rcases hx : x.run.run s with ⟨_ | a, s₁⟩
  · rw [hx] at h
    cases h
  · rw [hx] at h
    exact ⟨a, s₁, rfl, h⟩

/-- A failure caught only to be raised again: a successful run is one of the action itself. -/
theorem tryCatch_rethrow_ok {act : ExceptT ε (StateM σ) α} {handler : ε → ExceptT ε (StateM σ) α}
    (hh : ∀ e s a s', (handler e).run.run s ≠ (.ok a, s')) {s s' : σ} {a : α}
    (h : (tryCatch act handler).run.run s = (.ok a, s')) : act.run.run s = (.ok a, s') := by
  rw [ExceptT.run_tryCatch, StateT.run_bind] at h
  rcases hx : act.run.run s with ⟨_ | b, s₁⟩
  · rw [hx] at h
    exact absurd h (hh _ _ _ _)
  · rw [hx] at h
    exact h

/-- A successful run of a loop over `l` keeps an invariant of the prefix run so far, its state
and the state of the monad, when every successful step keeps it and asks to go on. -/
theorem forIn_ok_inv {l : List α} {f : α → β → ExceptT ε (StateM σ) (ForInStep β)}
    (I : List α → β → σ → Prop)
    (hstep : ∀ pre x post b s r s', l = pre ++ x :: post → I pre b s →
      (f x b).run.run s = (.ok r, s') → ∃ b', r = .yield b' ∧ I (pre ++ [x]) b' s')
    {init r : β} {s₀ s₁ : σ} (hinit : I [] init s₀)
    (h : (forIn l init f).run.run s₀ = (.ok r, s₁)) : I l r s₁ := by
  -- the suffix still to run, after a prefix whose invariant holds
  have key : ∀ (post pre : List α) (b : β) (s : σ), l = pre ++ post → I pre b s →
      (forIn post b f).run.run s = (.ok r, s₁) → I l r s₁ := by
    intro post
    induction post with
    | nil =>
      intro pre b s hl hb h
      cases h
      simpa [hl] using hb
    | cons x post ih =>
      intro pre b s hl hb h
      rw [List.forIn_cons] at h
      obtain ⟨step, s', hx, hrest⟩ := run_bind_ok h
      obtain ⟨b', rfl, hb'⟩ := hstep pre x post b s step s' hl hb hx
      exact ih (pre ++ [x]) b' s' (by simp [hl]) hb' hrest
  exact key l [] init s₀ rfl hinit h

end Course

open Course

namespace Fmu

/-- The elements of the variable `v` as a read of the FMU gives them. -/
def Loopback.elements (fmu : Loopback) (v : Variable) : NativeValues :=
  (fmu.getValues [v.vr] v.kind).1

/-- A read of a live FMU at a reference whose first variable has the kind asked for gives the
stored elements laid out in that kind and the model's width. -/
theorem Loopback.elements_live {fmu : Loopback} {v v' : Variable} (hrun : fmu.terminated = false)
    (hv : fmu.model.byReference? v.vr = some v') (hk : v'.kind = v.kind) :
    fmu.elements v =
      ({ kind := v.kind, enumWidth := fmu.model.enumWidth } : NativeValues).concat
        (fmu.valueOf v.vr) := by
  simp [elements, getValues, getValues.go, hrun, hv, hk]

/-- Laying out elements again in their own kind and width changes nothing. -/
theorem NativeValues.concat_self_layout (nv : NativeValues) :
    ({ kind := nv.kind, enumWidth := nv.enumWidth } : NativeValues).concat nv = nv := by
  obtain ⟨k, w, data, sizes, strings⟩ := nv
  cases sizes <;> cases strings <;> simp [NativeValues.concat]

/-- The FMU `fmu'` is `fmu` with at most the values of the references in `R` changed: it has the
same model, has terminated if and only if `fmu` has, and stores a value wherever `fmu` does. -/
structure Loopback.Touches (R : Nat → Prop) (fmu fmu' : Loopback) : Prop where
  model : fmu'.model = fmu.model
  terminated : fmu'.terminated = fmu.terminated
  stored : ∀ r, (fmu.values.lookup r).isSome → (fmu'.values.lookup r).isSome
  frame : ∀ r, ¬ R r → fmu'.valueOf r = fmu.valueOf r

namespace Loopback.Touches

variable {R R' : Nat → Prop} {fmu fmu' fmu'' : Loopback}

theorem refl (R : Nat → Prop) (fmu : Loopback) : Touches R fmu fmu :=
  ⟨rfl, rfl, fun _ h => h, fun _ _ => rfl⟩

theorem trans (h : Touches R fmu fmu') (h' : Touches R fmu' fmu'') : Touches R fmu fmu'' :=
  ⟨h'.model.trans h.model, h'.terminated.trans h.terminated, fun r hr => h'.stored r (h.stored r hr),
    fun r hr => (h'.frame r hr).trans (h.frame r hr)⟩

theorem mono (h : Touches R fmu fmu') (hR : ∀ r, R r → R' r) : Touches R' fmu fmu' :=
  ⟨h.model, h.terminated, h.stored, fun r hr => h.frame r fun h => hr (hR r h)⟩

/-- Storing a value at `vr` touches `vr` only. -/
theorem store (fmu : Loopback) (vr : Nat) (nv : NativeValues) :
    Touches (· = vr) fmu (fmu.store vr nv) :=
  ⟨rfl, rfl, fun r hr => by rw [lookup_store]; split <;> simpa using hr,
    fun _ hr => valueOf_store_of_ne _ hr⟩

/-- A write, successful or not, touches its own reference only. -/
theorem setValues (fmu : Loopback) (vr : Nat) (k : Kind) (nv : NativeValues) :
    Touches (· = vr) fmu (fmu.setValues vr k nv).1 := by
  rcases setValues_cases fmu vr k nv with ⟨-, hkeep⟩ | ⟨-, -, -, -, -, -, hstore⟩
  · rw [hkeep]
    exact refl _ _
  · rw [hstore]
    exact store _ _ _

/-- A read of a variable whose reference is not touched gives what it gave before. -/
theorem elements_eq (h : Touches R fmu fmu') {v : Variable} (hv : ¬ R v.vr) :
    fmu'.elements v = fmu.elements v := by
  simp only [elements, getValues, h.terminated, h.model]
  split
  · rfl
  · simp [getValues.go, h.frame v.vr hv]

end Loopback.Touches

namespace Device

variable {d d' : Device}

theorem note_ok {ls : Journal} (h : (note ls).run.run d = (.ok (), d')) : d'.fmu = d.fmu := by
  cases h
  rfl

theorem check_ok_run {op : String} {st : Status} (h : (check op st).run.run d = (.ok (), d')) :
    d'.fmu = d.fmu ∧ (st.succeeded = true ∨ st.tolerable = true) := by
  unfold check at h
  split at h
  · cases h
    exact ⟨rfl, .inl ‹_›⟩
  · split at h
    · obtain ⟨_, d₁, h₁, h₂⟩ := run_bind_ok h
      cases h₂
      exact ⟨note_ok h₁, .inr ‹_›⟩
    · obtain ⟨_, d₁, -, h₂⟩ := run_bind_ok h
      cases h₂

/-- A successful read gives what the FMU's answer holds and leaves the FMU as it was. -/
theorem get_ok {refs : List Nat} {k : Kind} {nv : NativeValues}
    (h : (get refs k).run.run d = (.ok nv, d')) :
    nv = (d.fmu.getValues refs k).1 ∧ d'.fmu = d.fmu := by
  unfold get at h
  obtain ⟨_, d₁, h₁, h⟩ := run_bind_ok h
  cases h₁
  obtain ⟨_, d₂, h₂, h⟩ := run_bind_ok h
  obtain ⟨_, d₃, h₃, h⟩ := run_bind_ok h
  cases h
  exact ⟨rfl, (check_ok_run h₃).1.trans (note_ok h₂)⟩

/-- A successful write reaches a live FMU and a reference whose first variable has the written
kind, and stores the written elements in the model's layout. -/
theorem set_ok {vr : Nat} {nv : NativeValues} (h : (set vr nv).run.run d = (.ok (), d')) :
    d.fmu.terminated = false ∧ (∃ v, d.fmu.model.byReference? vr = some v ∧ v.kind = nv.kind) ∧
      d'.fmu = d.fmu.store vr
        (({ kind := nv.kind, enumWidth := d.fmu.model.enumWidth } : NativeValues).concat nv) := by
  unfold set at h
  obtain ⟨_, d₁, h₁, h⟩ := run_bind_ok h
  cases h₁
  generalize hsv : d.fmu.setValues vr nv.kind nv = p at h
  obtain ⟨fmu', st⟩ := p
  obtain ⟨_, d₂, h₂, h⟩ := run_bind_ok h
  cases h₂
  obtain ⟨hfmu, hst⟩ := check_ok_run h
  rcases Loopback.setValues_cases d.fmu vr nv.kind nv with
    ⟨herr, -⟩ | ⟨hok, v, hv, hk, -, -, hstore⟩
  · rw [hsv] at herr
    simp only at herr
    subst herr
    simp [Status.succeeded, Status.tolerable] at hst
  · rw [hsv] at hok hstore
    refine ⟨?_, ⟨v, hv, hk⟩, hfmu.trans hstore⟩
    cases ht : d.fmu.terminated
    · rfl
    · simp [Loopback.setValues, ht] at hsv
      rw [← hsv.2] at hok
      cases hok

/-! ## The references a call may change -/

/-- Calls that change the stored values of the references in `R` only. -/
def touching (R : Nat → Prop) : Course Device where
  inv _ := True
  rel d d' := Loopback.Touches R d.fmu d'.fmu
  refl d := .refl R d.fmu
  trans h₁ h₂ := h₁.trans h₂

variable {R R' : Nat → Prop}

/-- The FMU after a run of a call that moves along `touching R`. -/
theorem touches_of_run {act : DeviceM α} (hm : (touching R).Moves act) {d d' : Device}
    {r : Except Fault α} (h : act.run.run d = (r, d')) : Loopback.Touches R d.fmu d'.fmu := by
  have := (hm d trivial).2
  rwa [h] at this

theorem touching_mono {act : DeviceM α} (h : (touching R).Moves act) (hR : ∀ r, R r → R' r) :
    (touching R').Moves act :=
  h.mono (fun _ _ => trivial) fun _ _ hr => ⟨trivial, hr.mono hR⟩

theorem note_touching (ls : Journal) : (touching R).Moves (note ls) :=
  fun d _ => ⟨trivial, .refl R d.fmu⟩

theorem check_touching (op : String) (st : Status) : (touching R).Moves (check op st) := by
  unfold check
  split
  · exact Moves.pure _
  · split
    · exact (note_touching _).bind fun _ => Moves.pure _
    · exact (note_touching _).bind fun _ => Moves.throw _

theorem get_touching (refs : List Nat) (k : Kind) : (touching R).Moves (get refs k) :=
  Moves.bind Moves.get fun _ =>
    (note_touching _).bind fun _ => (check_touching _ _).bind fun _ => Moves.pure _

/-- A write, successful or not, changes the value of its own reference only. -/
theorem set_touching {vr : Nat} (hvr : R vr) (nv : NativeValues) :
    (touching R).Moves (set vr nv) := by
  unfold set
  exact Moves.get_bind fun d _ => Leads.modify_bind
    ⟨trivial, (Loopback.Touches.setValues d.fmu vr nv.kind nv).mono fun r hr => hr ▸ hvr⟩
    (check_touching _ _ _ trivial)

end Device

end Fmu

namespace Value

/-- The part of a wire value at a path of member names: the member of a record, then that
member's part at the rest of the path. A missing member is absent, and so is any part asked of
something that is no record. -/
def follow : Value → List String → Value
  | v, [] => v
  | .record fs, m :: q => ((Value.field? fs m).getD .nil).follow q
  | _, _ :: _ => .nil

@[simp] theorem follow_nil (v : Value) : v.follow [] = v := by
  cases v <;> rfl

@[simp] theorem follow_record (fs : List (String × Value)) (m : String) (q : List String) :
    (Value.record fs).follow (m :: q) = ((Value.field? fs m).getD .nil).follow q := rfl

theorem follow_cons_of_not_record {v : Value} (hv : ∀ fs, v ≠ .record fs) (m : String)
    (q : List String) : v.follow (m :: q) = .nil := by
  cases v <;> first | rfl | exact absurd rfl (hv _)

end Value

namespace Layout

open Fmu Fmu.Device

variable {R : Nat → Prop}

theorem liftWith_touching {α : Type} (ctx : String) (r : Except Fault α) :
    (touching R).Moves (liftWith ctx r) := by
  unfold liftWith
  split
  · exact Moves.pure _
  · exact Moves.throw _

theorem liftWith_ok {α : Type} {ctx : String} {r : Except Fault α} {a : α} {d d' : Device}
    (h : (liftWith ctx r).run.run d = (.ok a, d')) : r = .ok a ∧ d' = d := by
  unfold liftWith at h
  split at h
  · cases h
    exact ⟨rfl, rfl⟩
  · cases h

/-- Importing into a variable changes at most the value of its reference. -/
theorem importVariable_touching (l : Layout) {b : BoundVariable} (hb : R b.fmu.vr) (v : Value) :
    (touching R).Moves (importVariable l b v) := by
  unfold importVariable
  split
  · exact Moves.pure _
  refine (liftWith_touching _ _).bind fun flat => ?_
  refine (Moves.forIn fun x _ st => ?_).bind fun st => ?_
  · dsimp only
    split
    · split
      · exact (Moves.pure _).bind fun _ => (liftWith_touching _ _).bind fun _ => Moves.pure _
      · exact (get_touching _ _).bind fun _ => (liftWith_touching _ _).bind fun _ => Moves.pure _
    · exact (liftWith_touching _ _).bind fun _ => Moves.pure _
  · exact (liftWith_touching _ _).bind fun _ => set_touching hb _

/-- A successful import of `w` into `b` writes nothing when `w` is absent. Otherwise `w`
flattens in row-major order to elements `xs`, and the elements written are those of `xs` cast
into `b`'s kind, each absent one replaced by `b`'s element at its position as a read of the FMU
before the import gives it; the FMU is written once, at `b`'s reference, after reads that leave
it as it was. -/
theorem importVariable_ok {l : Layout} {b : BoundVariable} {w : Value} {d d' : Device}
    (h : (importVariable l b w).run.run d = (.ok (), d')) :
    (w.isNil = true ∧ d' = d) ∨
    (w.isNil = false ∧ ∃ xs out nv d₁, Value.flatten b.shape w = .ok xs ∧
      (xs.zipIdx.mapM fun (x, i) =>
        if x.isNil then (d.fmu.elements b.fmu).at? i else b.fromWire x) = .ok out ∧
      pack b.kind l.enumWidth out = .ok nv ∧ d₁.fmu = d.fmu ∧
      (set b.fmu.vr nv).run.run d₁ = (.ok (), d')) := by
  unfold importVariable at h
  split at h
  · cases h
    exact .inl ⟨‹_›, rfl⟩
  rename_i hnil
  right
  refine ⟨Bool.eq_false_iff.mpr hnil, ?_⟩
  obtain ⟨xs, d₀, h₀, h₁⟩ := run_bind_ok h
  obtain ⟨hflat, hd₀⟩ := liftWith_ok h₀
  rw [hd₀] at h₁
  obtain ⟨st, d₁, hloop, h₂⟩ := run_bind_ok h₁
  obtain ⟨nv, d₂, h₃, h₄⟩ := run_bind_ok h₂
  obtain ⟨hpack, hd₂⟩ := liftWith_ok h₃
  rw [hd₂] at h₄
  -- the loop only reads the FMU, and each element it keeps is read from the same answer
  have hinv := forIn_ok_inv (fun pre (st : Option NativeValues × List Value) (s : Device) =>
      s.fmu = d.fmu ∧ (st.1 = none ∨ st.1 = some (d.fmu.elements b.fmu)) ∧
      (pre.mapM fun (x, i) =>
        if x.isNil then (d.fmu.elements b.fmu).at? i else b.fromWire x) = .ok st.2)
    ?_ ⟨rfl, .inl rfl, rfl⟩ hloop
  · exact ⟨xs, st.2, nv, d₁, hflat, hinv.2.2, hpack, hinv.1, h₄⟩
  intro pre ⟨x, i⟩ post ⟨cur, out⟩ s r s' _ ⟨hs, hcur, hout⟩ hrun
  dsimp only at hcur hout hrun
  have hsnoc : ∀ y, (if x.isNil then (d.fmu.elements b.fmu).at? i else b.fromWire x) = .ok y →
      ((pre ++ [(x, i)]).mapM fun (x, i) =>
        if x.isNil then (d.fmu.elements b.fmu).at? i else b.fromWire x) = .ok (out ++ [y]) := by
    intro y hy
    rw [List.mapM_append, hout]
    simp only [List.mapM_cons, List.mapM_nil, hy]
    rfl
  split at hrun
  · rename_i hx
    -- the element kept is the FMU's, read at this or at an earlier absent element
    obtain ⟨c, s₁, hc, hs₁, h₂⟩ : ∃ c s₁, c = d.fmu.elements b.fmu ∧ s₁.fmu = d.fmu ∧
        (liftWith ("variable " ++ b.name) (c.at? i) >>= fun y =>
          pure (ForInStep.yield (some c, out ++ [y])) : DeviceM _).run.run s₁ = (.ok r, s') := by
      rcases hcur with rfl | rfl
      · obtain ⟨c, s₁, h₁, h₂⟩ := run_bind_ok hrun
        obtain ⟨hc, hs₁⟩ := get_ok h₁
        exact ⟨c, s₁, by rw [hc, hs]; rfl, hs₁.trans hs, h₂⟩
      · obtain ⟨c, s₁, h₁, h₂⟩ := run_bind_ok hrun
        cases h₁
        exact ⟨_, _, rfl, hs, h₂⟩
    subst hc
    obtain ⟨y, s₂, h₃, h₄⟩ := run_bind_ok h₂
    obtain ⟨hy, rfl⟩ := liftWith_ok h₃
    cases h₄
    exact ⟨_, rfl, hs₁, .inr rfl, hsnoc y (by simpa [hx] using hy)⟩
  · rename_i hx
    obtain ⟨y, s₂, h₃, h₄⟩ := run_bind_ok hrun
    obtain ⟨hy, rfl⟩ := liftWith_ok h₃
    cases h₄
    exact ⟨_, rfl, hs, hcur, hsnoc y (by simpa [hx] using hy)⟩

/-- What importing the wire value `w` into `b` does to `b`'s elements, from the FMU `fmu` to the
FMU `fmu'`. An absent `w` leaves `b`'s stored value as it was. A present `w` flattens in
row-major order to elements `xs`, and `b` then holds as many elements, the `i`-th being the
`i`-th of `xs` cast into `b`'s kind, or `b`'s `i`-th element before where that one is absent. -/
def Imported (b : BoundVariable) (w : Value) (fmu fmu' : Loopback) : Prop :=
  if w.isNil then fmu'.valueOf b.fmu.vr = fmu.valueOf b.fmu.vr
  else ∃ xs, Value.flatten b.shape w = .ok xs ∧ (fmu'.elements b.fmu).len = xs.length ∧
    ∀ i (hi : i < xs.length), (fmu'.elements b.fmu).at? i =
      if xs[i].isNil then (fmu.elements b.fmu).at? i else b.fromWire xs[i]

/-- A successful import into a variable of a layout with the FMU's enumeration width, at a
reference the FMU holds a value for, does to the variable what `Imported` says. -/
theorem importVariable_imported {l : Layout} {b : BoundVariable} {w : Value} {d d' : Device}
    (hew : l.enumWidth = d.fmu.model.enumWidth) (hpresent : (d.fmu.values.lookup b.fmu.vr).isSome)
    (h : (importVariable l b w).run.run d = (.ok (), d')) : Imported b w d.fmu d'.fmu := by
  rcases importVariable_ok h with
    ⟨hnil, rfl⟩ | ⟨hnil, xs, out, nv, d₁, hflat, hmap, hpack, hd₁, hset⟩
  · simp [Imported, hnil]
  obtain ⟨hlive, ⟨v, hv, hk⟩, hd'⟩ := set_ok hset
  obtain ⟨hhold, hkind, hwidth⟩ := pack_holds hpack
  rw [hd₁] at hlive hv hd'
  -- the value written is laid out in the variable's kind and the model's width, so a read
  -- gives it back as it was packed
  have hnew : d'.fmu.elements b.fmu = nv := by
    have hlayout : ({ kind := nv.kind, enumWidth := d.fmu.model.enumWidth } : NativeValues) =
        { kind := nv.kind, enumWidth := nv.enumWidth } := by
      rw [hwidth, hew]
    have hlive' : d'.fmu.terminated = false := by rw [hd']; exact hlive
    have hv' : d'.fmu.model.byReference? b.fmu.vr = some v := by rw [hd']; exact hv
    rw [Loopback.elements_live hlive' hv' (hk.trans hkind), hd',
      Loopback.valueOf_store_self _ hpresent, Loopback.store_model]
    have hkind' : nv.kind = b.fmu.kind := hkind
    rw [← hkind', hlayout, NativeValues.concat_self_layout, NativeValues.concat_self_layout]
  have hall := List.mapM_except_forall₂ hmap
  have hlen : out.length = xs.length := by simpa using hall.length_eq.symm
  simp only [Imported, hnil, Bool.false_eq_true, ↓reduceIte]
  refine ⟨xs, hflat, by rw [hnew, hhold.len_eq, hlen], fun i hi => ?_⟩
  have hi' : i < out.length := hlen ▸ hi
  rw [hnew, hhold.at?_eq i hi']
  have := hall.get (i := i) (by simpa using hi) hi'
  simpa using this.symm

namespace Imported

variable {R : Nat → Prop} {b : BoundVariable} {w : Value} {fmu fmu₁ fmu' : Loopback}

/-- Changes before the import that leave `b`'s reference alone change nothing of what it does
to `b`. -/
theorem of_before (h₀ : Loopback.Touches R fmu fmu₁) (hb : ¬ R b.fmu.vr)
    (h : Imported b w fmu₁ fmu') : Imported b w fmu fmu' := by
  by_cases hw : w.isNil
  · simp only [Imported, hw, ↓reduceIte] at h ⊢
    exact h.trans (h₀.frame _ hb)
  · simp only [Imported, hw, Bool.false_eq_true, ↓reduceIte, h₀.elements_eq hb] at h ⊢
    exact h

/-- Changes after the import that leave `b`'s reference alone keep what it did to `b`. -/
theorem of_after (h : Imported b w fmu fmu₁) (h₁ : Loopback.Touches R fmu₁ fmu')
    (hb : ¬ R b.fmu.vr) : Imported b w fmu fmu' := by
  by_cases hw : w.isNil
  · simp only [Imported, hw, ↓reduceIte] at h ⊢
    exact (h₁.frame _ hb).trans h
  · simp only [Imported, hw, Bool.false_eq_true, ↓reduceIte, h₁.elements_eq hb] at h ⊢
    exact h

/-- An absent value is imported by leaving `b`'s reference alone. -/
theorem absent (hw : w.isNil = true) (h : Loopback.Touches R fmu fmu') (hb : ¬ R b.fmu.vr) :
    Imported b w fmu fmu' := by
  simp only [Imported, hw, ↓reduceIte]
  exact h.frame _ hb

/-- An absent value is imported by changing nothing. -/
theorem absent_refl (hw : w.isNil = true) : Imported b w fmu fmu :=
  absent hw (.refl (fun _ => False) fmu) id

end Imported

/-! ## Structures -/

theorem importAssembly_go_cons (l : Layout) (sl : Slot) (rest : List Slot)
    (fs : List (String × Value)) :
    importAssembly.go l (sl :: rest) fs =
      importAssembly.go l [sl] fs >>= fun _ => importAssembly.go l rest fs := by
  obtain ⟨m, t, name, nested⟩ := sl
  rw [importAssembly.go, importAssembly.go, importAssembly.go]
  cases Value.field? fs m with
  | none => rfl
  | some v =>
    cases nested with
    | some u => cases v <;> simp only [bind_assoc, pure_bind]
    | none => cases v <;> cases l.findVariable (name.getD "") <;> simp only [bind_assoc, pure_bind]

theorem importAssembly_mk (l : Layout) (p : Path) (o : Bool) (def_ : StructDef) (dec : Bool)
    (slots : List Slot) (clocks : List String) (fs : List (String × Value)) :
    importAssembly l (.mk p o def_ dec slots clocks) fs = importAssembly.go l slots fs := by
  rw [importAssembly]

mutual

/-- Importing a record into a structure changes at most the values of the variables its slots
name, at every depth. -/
theorem importAssembly_touching (l : Layout) :
    ∀ (s : Assembly) (fs : List (String × Value)),
      (∀ n b, l.findVariable n = some b → (n ∈ s.variableNames ∨ n = "") → R b.fmu.vr) →
      (touching R).Moves (importAssembly l s fs)
  | .mk _ _ _ _ slots _, fs, hR => by
    rw [importAssembly]
    exact importAssembly_go_touching l slots fs fun n b hb hn =>
      hR n b hb (by rwa [Assembly.variableNames_eq])

theorem importAssembly_go_touching (l : Layout) :
    ∀ (slots : List Slot) (fs : List (String × Value)),
      (∀ n b, l.findVariable n = some b → (n ∈ slots.flatMap Assembly.slotVars ∨ n = "") →
        R b.fmu.vr) →
      (touching R).Moves (importAssembly.go l slots fs)
  | [], _, _ => by
    rw [importAssembly.go]
    exact Moves.pure _
  | (m, t, name, nested) :: rest, fs, hR => by
    rw [importAssembly.go]
    have hk := importAssembly_go_touching l rest fs fun n b hb hn =>
      hR n b hb (hn.imp_left fun h => List.mem_flatMap.mpr (by
        obtain ⟨sl, hsl, hn⟩ := List.mem_flatMap.mp h
        exact ⟨sl, List.mem_cons_of_mem _ hsl, hn⟩))
    split
    · exact hk
    · exact hk
    · split
      · -- a nested structure: its variables are the slot's
        refine (importAssembly_touching l _ _ fun n b hb hn => hR n b hb ?_).bind fun _ => hk
        exact hn.imp_left fun h => List.mem_flatMap.mpr ⟨_, List.mem_cons_self, by
          simpa [Assembly.slotVars] using h⟩
      · exact hk
      · split
        · rename_i b hb
          refine (importVariable_touching l (hR _ b hb ?_) _).bind fun _ => hk
          cases name with
          | none => exact .inr rfl
          | some n =>
            exact .inl (List.mem_flatMap.mpr ⟨_, List.mem_cons_self, by simp [Assembly.slotVars]⟩)
        · exact hk

end

/-! ## What a successful import of a structure does -/

/-- The slots `slots` hold the variable called `n` at the path `q` of member names: in a slot of
its own, or inside the structure of a slot. -/
inductive Reaches : List Slot → List String → String → Prop
  | here {slots : List Slot} {m : String} {t : Descriptor} {n : String} :
      (m, t, some n, none) ∈ slots → Reaches slots [m] n
  | nested {slots : List Slot} {m : String} {t : Descriptor} {name : Option String} {u : Assembly}
      {q : List String} {n : String} :
      (m, t, name, some u) ∈ slots → Reaches u.slots q n → Reaches slots (m :: q) n

namespace Reaches

variable {slots : List Slot} {q : List String} {n : String}

theorem ne_nil (h : Reaches slots q n) : q ≠ [] := by
  cases h <;> simp

theorem mem_slotVars (h : Reaches slots q n) : n ∈ slots.flatMap Assembly.slotVars := by
  induction h with
  | here hmem => exact List.mem_flatMap.mpr ⟨_, hmem, by simp [Assembly.slotVars]⟩
  | nested hmem _ ih =>
    refine List.mem_flatMap.mpr ⟨_, hmem, ?_⟩
    simpa [Assembly.slotVars, Assembly.variableNames_eq] using ih

theorem cons {sl : Slot} {rest : List Slot} (h : Reaches (sl :: rest) q n) :
    Reaches [sl] q n ∨ Reaches rest q n := by
  cases h with
  | here hmem =>
    rcases List.mem_cons.mp hmem with rfl | hmem
    · exact .inl (.here List.mem_cons_self)
    · exact .inr (.here hmem)
  | nested hmem hq =>
    rcases List.mem_cons.mp hmem with rfl | hmem
    · exact .inl (.nested List.mem_cons_self hq)
    · exact .inr (.nested hmem hq)

end Reaches

/-- What importing into a layout needs of its bound variables: two share a reference only if
they have one name, and none has the empty name that a slot without a variable looks up. -/
structure Separate (l : Layout) : Prop where
  refs : ∀ b ∈ l.bound, ∀ b' ∈ l.bound, b.fmu.vr = b'.fmu.vr → b.name = b'.name
  unnamed : l.findVariable "" = none

/-- What importing into a layout needs of the FMU: the layout's enumeration width is the
model's, and the FMU stores a value for every bound variable. -/
structure Ready (l : Layout) (fmu : Loopback) : Prop where
  enumWidth : l.enumWidth = fmu.model.enumWidth
  stored : ∀ b ∈ l.bound, (fmu.values.lookup b.fmu.vr).isSome

theorem Ready.touches {l : Layout} {fmu fmu' : Loopback} (h : Ready l fmu)
    (ht : Loopback.Touches R fmu fmu') : Ready l fmu' :=
  ⟨by rw [ht.model]; exact h.enumWidth, fun b hb => ht.stored _ (h.stored b hb)⟩

theorem findVariable_some {l : Layout} {n : String} {b : BoundVariable}
    (h : l.findVariable n = some b) : b ∈ l.bound ∧ b.name = n :=
  ⟨List.mem_of_find?_eq_some h, by simpa using List.find?_some h⟩

/-- The references of the variables with names in `N`, and of a variable with the empty name. -/
def refsOf (l : Layout) (N : List String) (r : Nat) : Prop :=
  ∃ n b, l.findVariable n = some b ∧ (n ∈ N ∨ n = "") ∧ b.fmu.vr = r

/-- Every successful run of a structure's import from `d` to `d'` does to each variable that the
slots `slots` hold what `Imported` says, with the part of the record `fs` at its path. -/
def ImportsSlots (l : Layout) (slots : List Slot) (fs : List (String × Value)) (d d' : Device) :
    Prop :=
  ∀ q n b, Reaches slots q n → l.findVariable n = some b →
    Imported b ((Value.record fs).follow q) d.fmu d'.fmu

/-- A slot holding a variable imports the record's member of the slot's name into it. -/
theorem importSlot_variable {l : Layout} {m : String} {t : Descriptor} {name : Option String}
    {fs : List (String × Value)} {d d' : Device} (hready : Ready l d.fmu)
    (h : (importAssembly.go l [(m, t, name, none)] fs).run.run d = (.ok (), d')) :
    ImportsSlots l [(m, t, name, none)] fs d d' := by
  intro q n b hreach hb
  obtain ⟨rfl, rfl⟩ : q = [m] ∧ name = some n := by
    cases hreach with
    | here hmem =>
      obtain ⟨rfl, -, rfl⟩ := by simpa using hmem
      exact ⟨rfl, rfl⟩
    | nested hmem _ => simp at hmem
  rw [importAssembly.go, importAssembly.go] at h
  simp only [Value.follow_record, Value.follow_nil]
  split at h
  · rename_i hf
    cases h
    exact Imported.absent_refl (by rw [hf]; rfl)
  · rename_i hf
    cases h
    exact Imported.absent_refl (by rw [hf]; rfl)
  · rename_i v _ _
    have hf : Value.field? fs m = some v := by assumption
    simp only [Option.getD_some, hb] at h
    obtain ⟨_, d₁, h₁, h₂⟩ := run_bind_ok h
    cases h₂
    rw [hf, Option.getD_some]
    exact importVariable_imported hready.enumWidth (hready.stored b (findVariable_some hb).1) h₁

/-- A slot holding a structure imports the record's member of the slot's name into the
structure, when that member is a record; otherwise it leaves the structure's variables alone. -/
theorem importSlot_nested {l : Layout} {m : String} {t : Descriptor} {name : Option String}
    {u : Assembly} {fs : List (String × Value)} {d d' : Device} (hready : Ready l d.fmu)
    (hu : ∀ inner d d', (importAssembly l u inner).run.run d = (.ok (), d') → Ready l d.fmu →
      ImportsSlots l u.slots inner d d')
    (h : (importAssembly.go l [(m, t, name, some u)] fs).run.run d = (.ok (), d')) :
    ImportsSlots l [(m, t, name, some u)] fs d d' := by
  intro q n b hreach hb
  obtain ⟨q, rfl, hq⟩ : ∃ q', q = m :: q' ∧ Reaches u.slots q' n := by
    cases hreach with
    | here hmem => simp at hmem
    | nested hmem hq =>
      obtain ⟨rfl, -, -, rfl⟩ := by simpa using hmem
      exact ⟨_, rfl, hq⟩
  -- every part below a member that is missing, absent or no record is absent
  have hbelow : ∀ v : Value, (∀ fs, v ≠ .record fs) → (Value.follow v q).isNil = true := by
    intro v hv
    obtain ⟨m', q', rfl⟩ := List.exists_cons_of_ne_nil hq.ne_nil
    rw [Value.follow_cons_of_not_record hv]
    rfl
  rw [importAssembly.go, importAssembly.go] at h
  simp only [Value.follow_record]
  split at h
  · rename_i hf
    cases h
    exact Imported.absent_refl (by simpa [hf] using hbelow .nil (by simp))
  · rename_i hf
    cases h
    exact Imported.absent_refl (by simpa [hf] using hbelow .nil (by simp))
  · rename_i v _ _
    have hf : Value.field? fs m = some v := by assumption
    rw [hf, Option.getD_some]
    split at h
    · -- a record: imported into the structure
      rename_i s inner hsu _ _
      obtain rfl := Option.some.inj hsu
      obtain ⟨_, d₁, h₁, h₂⟩ := run_bind_ok h
      cases h₂
      exact hu inner d d' h₁ hready q n b hq hb
    · -- no record: nothing below it is present
      rename_i hrec _ _
      cases h
      exact Imported.absent_refl (hbelow _ hrec)
    · exact absurd ‹some u = none› (by simp)

section Structures

variable {l : Layout} (hl : l.Separate)
include hl

theorem Separate.not_refsOf {N : List String} {n : String} {b : BoundVariable}
    (hb : l.findVariable n = some b) (hn : n ∉ N) : ¬ refsOf l N b.fmu.vr := by
  rintro ⟨n', b', hb', hn', hvr⟩
  obtain ⟨hmem, rfl⟩ := findVariable_some hb
  obtain ⟨hmem', rfl⟩ := findVariable_some hb'
  rcases hn' with hn' | hn'
  · exact hn (hl.refs b' hmem' b hmem hvr ▸ hn')
  · rw [hn'] at hb'
    rw [hl.unnamed] at hb'
    cases hb'

/-- The effect of the first slot and then of the others: each slot's variables are touched by
that slot's import only, since the slots hold distinct variables. -/
theorem importsSlots_cons {sl : Slot} {rest : List Slot} {fs : List (String × Value)}
    {d d₁ d' : Device} (h₁ : (importAssembly.go l [sl] fs).run.run d = (.ok (), d₁))
    (h₂ : (importAssembly.go l rest fs).run.run d₁ = (.ok (), d'))
    (hnd : ((sl :: rest).flatMap Assembly.slotVars).Nodup) (hready : Ready l d.fmu)
    (hhead : ImportsSlots l [sl] fs d d₁) (hrest : Ready l d₁.fmu → ImportsSlots l rest fs d₁ d') :
    ImportsSlots l (sl :: rest) fs d d' := by
  have hT₁ := touches_of_run (importAssembly_go_touching
    (R := refsOf l ([sl].flatMap Assembly.slotVars)) l [sl] fs
    fun n b hb hn => ⟨n, b, hb, hn, rfl⟩) h₁
  have hT₂ := touches_of_run (importAssembly_go_touching
    (R := refsOf l (rest.flatMap Assembly.slotVars)) l rest fs
    fun n b hb hn => ⟨n, b, hb, hn, rfl⟩) h₂
  rw [List.flatMap_cons] at hnd
  have hdisj := (List.nodup_append.mp hnd).2.2
  intro q n b hreach hb
  rcases hreach.cons with hh | hr
  · have hn : n ∈ [sl].flatMap Assembly.slotVars := hh.mem_slotVars
    refine (hhead q n b hh hb).of_after hT₂ (hl.not_refsOf hb fun hn' => ?_)
    exact hdisj n (by simpa using hn) n hn' rfl
  · have hn : n ∈ rest.flatMap Assembly.slotVars := hr.mem_slotVars
    refine (hrest (hready.touches hT₁) q n b hr hb).of_before hT₁ (hl.not_refsOf hb fun hn' => ?_)
    exact hdisj n (by simpa using hn') n hn rfl

end Structures

mutual

/-- A successful import of a record into a structure whose variables are distinct does to each
of them what `Imported` says, with the part of the record at its path. -/
theorem importAssembly_imports {l : Layout} (hl : l.Separate) :
    ∀ (s : Assembly) (fs : List (String × Value)) (d d' : Device),
      (importAssembly l s fs).run.run d = (.ok (), d') → s.variableNames.Nodup → Ready l d.fmu →
      ImportsSlots l s.slots fs d d'
  | .mk _ _ _ _ slots _, fs, d, d', h, hnd, hready => by
    rw [importAssembly] at h
    rw [Assembly.variableNames_eq] at hnd
    exact importAssembly_go_imports hl slots fs d d' h hnd hready

theorem importAssembly_go_imports {l : Layout} (hl : l.Separate) :
    ∀ (slots : List Slot) (fs : List (String × Value)) (d d' : Device),
      (importAssembly.go l slots fs).run.run d = (.ok (), d') →
      (slots.flatMap Assembly.slotVars).Nodup → Ready l d.fmu → ImportsSlots l slots fs d d'
  | [], _, _, _, _, _, _ => fun _ _ _ hreach => by cases hreach <;> simp_all
  | (m, t, name, none) :: rest, fs, d, d', h, hnd, hready => by
    rw [importAssembly_go_cons] at h
    obtain ⟨_, d₁, h₁, h₂⟩ := run_bind_ok h
    have hnd' := (List.nodup_append.mp (List.flatMap_cons ▸ hnd)).2.1
    exact importsSlots_cons hl h₁ h₂ hnd hready (importSlot_variable hready h₁)
      fun hready' => importAssembly_go_imports hl rest fs d₁ d' h₂ hnd' hready'
  | (m, t, name, some u) :: rest, fs, d, d', h, hnd, hready => by
    rw [importAssembly_go_cons] at h
    obtain ⟨_, d₁, h₁, h₂⟩ := run_bind_ok h
    have hnd₀ := List.nodup_append.mp (List.flatMap_cons ▸ hnd)
    have hu : u.variableNames.Nodup := by simpa [Assembly.slotVars] using hnd₀.1
    refine importsSlots_cons hl h₁ h₂ hnd hready (importSlot_nested hready ?_ h₁)
      fun hready' => importAssembly_go_imports hl rest fs d₁ d' h₂ hnd₀.2.1 hready'
    exact fun inner e e' he hready'' => importAssembly_imports hl u inner e e' he hu hready''

end

/-- A path of member names that reaches a variable through the first slots of those names
reaches it in the slots, when no slot holds both a variable and a structure. -/
theorem reaches_of_varAt {n : String} :
    ∀ (q : List String) (s : Assembly),
      (∀ t ∈ s.tree, ∀ sl ∈ t.slots, sl.2.2.1 = none ∨ sl.2.2.2 = none) →
      s.varAt q = some n → Reaches s.slots q n
  | [], _, _, h => by cases h
  | [m], s, hsingle, h => by
    rw [Assembly.varAt_single] at h
    obtain ⟨⟨m', t, v, u⟩, hsl, hv⟩ := Option.bind_eq_some_iff.mp h
    obtain rfl : m' = m := by simpa using List.find?_some hsl
    have hmem := List.mem_of_find?_eq_some hsl
    obtain rfl : v = some n := hv
    obtain rfl : u = none := by simpa using hsingle s (Assembly.self_mem_tree s) _ hmem
    exact .here hmem
  | m :: k :: q, s, hsingle, h => by
    rw [Assembly.varAt_cons_cons] at h
    obtain ⟨u, hu, hvar⟩ := Option.bind_eq_some_iff.mp h
    obtain ⟨⟨m', t, v, u'⟩, hsl, rfl⟩ := Option.bind_eq_some_iff.mp hu
    obtain rfl : m' = m := by simpa using List.find?_some hsl
    have hmem := List.mem_of_find?_eq_some hsl
    refine .nested hmem (reaches_of_varAt (k :: q) u (fun t ht => hsingle t ?_) hvar)
    exact Assembly.mem_tree.mpr (.inr ⟨_, hmem, u, rfl, ht⟩)

/-! ## Topics -/

/-- Ticking clocks changes at most the values of the input clocks among them. -/
theorem tick_touching (l : Layout) (clocks : List String)
    (hR : ∀ c ∈ clocks, ∀ b, l.findVariable c = some b → b.direction = .subscribe → R b.fmu.vr) :
    (touching R).Moves (tick l clocks) := by
  unfold tick
  refine (Moves.forIn fun c hc _ => ?_).bind fun _ => Moves.pure _
  split
  · exact Moves.pure _
  · rename_i b hb
    split
    · exact Moves.pure _
    · rename_i hdir
      exact (liftWith_touching _ _).bind fun _ =>
        (set_touching (hR c hc b hb (by simpa using hdir)) _).bind fun _ => Moves.pure _

theorem importStructure_touching (l : Layout) (s : Assembly) (payload : Bytes)
    (hR : ∀ n b, l.findVariable n = some b → (n ∈ s.variableNames ∨ n = "") → R b.fmu.vr) :
    (touching R).Moves (importStructure l s payload) := by
  unfold importStructure
  refine (liftWith_touching _ _).bind fun v => ?_
  split
  · exact Moves.tryCatch (importAssembly_touching l _ _ hR) fun _ => Moves.throw _
  · exact Moves.pure _

theorem rethrow_ne_ok {α : Type} (ctx : String) (e : Fault) (d d' : Device) (a : α) :
    (throw (Fault.context ctx e) : DeviceM α).run.run d ≠ (.ok a, d') := by
  intro h
  cases h

/-- A successful import of a structure's payload decodes it; a record is imported into the
structure and anything else changes nothing. -/
theorem importStructure_ok {l : Layout} {s : Assembly} {payload : Bytes} {v : Value} {d d' : Device}
    (hv : decodePayload s.descriptor payload = .ok v)
    (h : (importStructure l s payload).run.run d = (.ok (), d')) :
    (∀ fs, v = .record fs → (importAssembly l s fs).run.run d = (.ok (), d')) ∧
      ((∀ fs, v ≠ .record fs) → d' = d) := by
  unfold importStructure at h
  obtain ⟨v', d₀, h₀, h₁⟩ := run_bind_ok h
  obtain ⟨hv', hd₀⟩ := liftWith_ok h₀
  rw [hv, Except.ok.injEq] at hv'
  subst hv' hd₀
  split at h₁
  · rename_i fs
    exact ⟨fun fs' hfs => by
      cases hfs
      exact tryCatch_rethrow_ok (fun e _ _ _ => rethrow_ne_ok _ e _ _ _) h₁,
      fun hrec => absurd rfl (hrec fs)⟩
  · rename_i hrec
    cases h₁
    exact ⟨fun fs hfs => absurd hfs (hrec fs), fun _ => rfl⟩

/-- A successful import of a payload into a topic carrying one variable decodes the payload,
imports it into the variable, and then ticks the topic's clocks. -/
theorem importTopic_single_ok {l : Layout} {t : Topic} {payload : Bytes} {name : String}
    {v : Value} {d d' : Device} (hc : t.carrier = .single name)
    (hv : decodePayload t.type payload = .ok v)
    (h : (importTopic l t payload).run.run d = (.ok (), d')) :
    ∃ d₁, (∀ b, l.findVariable name = some b → (importVariable l b v).run.run d = (.ok (), d₁)) ∧
      (l.findVariable name = none → d₁ = d) ∧ (tick l t.clocks).run.run d₁ = (.ok (), d') := by
  unfold importTopic at h
  simp only [hc] at h
  obtain ⟨v', d₀, h₀, h₁⟩ := run_bind_ok h
  obtain ⟨hv', hd₀⟩ := liftWith_ok h₀
  rw [hv, Except.ok.injEq] at hv'
  rw [← hv', hd₀] at h₁
  cases hb : l.findVariable name with
  | none =>
    rw [hb] at h₁
    exact ⟨d, (fun _ h => by cases h), fun _ => rfl, h₁⟩
  | some b =>
    rw [hb] at h₁
    obtain ⟨_, d₁, h₂, h₃⟩ := run_bind_ok h₁
    refine ⟨d₁, fun b' hb' => ?_, (fun h => by cases h), h₃⟩
    cases hb'
    exact tryCatch_rethrow_ok (fun e _ _ _ => rethrow_ne_ok _ e _ _ _) h₂

/-- A successful import of a payload into a topic carrying a structure imports it into the
structure, and then ticks the topic's clocks. -/
theorem importTopic_assembly_ok {l : Layout} {t : Topic} {payload : Bytes} {root : String}
    {s : Assembly} {d d' : Device} (hc : t.carrier = .assembly root)
    (hs : l.findStructure root = some s) (h : (importTopic l t payload).run.run d = (.ok (), d')) :
    ∃ d₁, (importStructure l s payload).run.run d = (.ok (), d₁) ∧
      (tick l t.clocks).run.run d₁ = (.ok (), d') := by
  unfold importTopic at h
  simp only [hc, hs] at h
  obtain ⟨_, d₁, h₁, h₂⟩ := run_bind_ok h
  exact ⟨d₁, h₁, h₂⟩

end Layout

end CoSimBridge
