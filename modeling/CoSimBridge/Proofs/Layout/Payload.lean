import Mathlib
import CoSimBridge.Proofs.Layout.Description
import CoSimBridge.Proofs.Session.Moves
/-!
# Payloads of assembled structures

A structure's type is the wire type of the record exported from it and of the record imported
into it. Exporting a variable maps its native elements into the wire type's leaf kind and nests
them by the variable's shape, so the value has the variable's wire type whenever that type
passes the variable's check (`exportVariable_conforms`); exporting a structure builds a record
of its slots in slot order, which has the structure's type whenever the structure describes its
slots under distinct names (`exportAssembly_conforms`). Decoding a payload with a registered
type gives a value of that type (`decodePayload_conforms`).

So for every structure `assemble` returns, its type is a registered type tree, every record
exported from it is of that type, and every payload decoded for it is too
(`assemble_describes_payloads`).
-/

namespace CoSimBridge
set_option autoImplicit false

/-! ## Casts land in their target kind -/

namespace Cast

theorem ofInteger_hasKind {i : Int} {k : Kind} {v : Value} (hk : k ≠ .clock)
    (h : ofInteger i k = .ok v) : v.hasKind k = true := by
  cases k <;> simp only [ofInteger, Kind.intRange?] at h <;> (try split at h) <;>
    first | exact absurd rfl hk | (cases h; rfl) | cases h

theorem ofDouble_hasKind {bits : UInt64} {k : Kind} {v : Value} (hk : k ≠ .clock)
    (h : ofDouble bits k = .ok v) : v.hasKind k = true := by
  cases k
  case clock => exact absurd rfl hk
  case float64 | float32 | bool => simp only [ofDouble, Except.ok.injEq] at h; subst h; rfl
  -- every other kind rounds to an integer first
  all_goals
    simp only [ofDouble] at h
    split at h
    · cases h
    · split at h
      · rename_i hu
        split at h
        · cases h
        · cases h
          first | rfl | exact absurd hu (by decide)
      · split at h
        · cases h
        · exact ofInteger_hasKind hk h

end Cast

theorem Value.convert_hasKind {x v : Value} {k : Kind} (hk : k ≠ .clock)
    (h : x.convert k = .ok v) : v.hasKind k = true := by
  unfold Value.convert at h
  split at h
  · split at h
    · cases h
      rename_i hb
      simp only [Bool.or_eq_true, beq_iff_eq] at hb
      rcases hb with rfl | rfl
      · rfl
      · exact absurd rfl hk
    · exact Cast.ofInteger_hasKind hk h
  · split at h
    · cases h
      rename_i hb
      simp only [beq_iff_eq] at hb
      subst hb
      rfl
    · exact Cast.ofDouble_hasKind hk h
  · exact Cast.ofDouble_hasKind hk h
  · split at h
    · cases h
      rename_i hb
      simp only [beq_iff_eq] at hb
      subst hb
      rfl
    · cases h
  · split at h
    · cases h
      rename_i hb
      simp only [beq_iff_eq] at hb
      subst hb
      rfl
    · cases h
  · split at h
    · exact Cast.ofInteger_hasKind hk h
    · cases h

theorem Kind.ne_clock_of_compatible {native wire : Kind} (h : Kind.compatible native wire = true) :
    wire ≠ .clock := by
  rintro rfl
  revert h
  cases native <;> decide

/-! ## Nesting by a shape -/

theorem List.mapM_except_eq_ok {α β ε : Type} {f : α → Except ε β} :
    ∀ {xs : List α} {ys : List β}, xs.mapM f = .ok ys →
      ys.length = xs.length ∧ ∀ y ∈ ys, ∃ x ∈ xs, f x = .ok y
  | [], ys, h => by
    simp only [List.mapM_nil, pure, Except.pure, Except.ok.injEq] at h
    subst h
    simp
  | x :: xs, ys, h => by
    rw [List.mapM_cons] at h
    obtain ⟨y, hy, h⟩ := Except.exists_of_bind_eq_ok h
    obtain ⟨ys', hys, h⟩ := Except.exists_of_bind_eq_ok h
    cases h
    obtain ⟨hlen, hmem⟩ := mapM_except_eq_ok hys
    refine ⟨by simp [hlen], fun z hz => ?_⟩
    rcases List.mem_cons.mp hz with rfl | hz
    · exact ⟨x, List.mem_cons_self, hy⟩
    · obtain ⟨w, hw, hfw⟩ := hmem z hz
      exact ⟨w, List.mem_cons_of_mem _ hw, hfw⟩

theorem List.mapM_option_eq_some {α β : Type} {f : α → Option β} :
    ∀ {xs : List α} {ys : List β}, xs.mapM f = some ys → ∀ y ∈ ys, ∃ x ∈ xs, f x = some y
  | [], ys, h => by
    simp only [List.mapM_nil, pure, Option.some.injEq] at h
    subst h
    simp
  | x :: xs, ys, h => by
    rw [List.mapM_cons] at h
    obtain ⟨y, hy, h⟩ := Option.bind_eq_some_iff.mp h
    obtain ⟨ys', hys, h⟩ := Option.bind_eq_some_iff.mp h
    cases h
    intro z hz
    rcases List.mem_cons.mp hz with rfl | hz
    · exact ⟨x, List.mem_cons_self, hy⟩
    · obtain ⟨w, hw, hfw⟩ := mapM_option_eq_some hys z hz
      exact ⟨w, List.mem_cons_of_mem _ hw, hfw⟩

theorem Descriptor.Registered.members_nodup {o : Bool} {n : String} {sd : StructDef}
    (h : (Descriptor.leaf o .custom n (.struct sd)).Registered) :
    (sd.members.map Prod.fst).Nodup := by
  obtain ⟨s, ms⟩ := sd
  cases h with
  | primitive hk => exact absurd rfl hk
  | struct hnodup _ => exact hnodup

theorem Descriptor.leafOf_of_depth_eq_zero {d : Descriptor} (h : d.depth = 0) : d.leafOf = d := by
  cases d with
  | list o e => simp [Descriptor.depth] at h
  | leaf => rfl

theorem Descriptor.leafOf_eq_leaf : ∀ d : Descriptor, ∃ o k n b, d.leafOf = .leaf o k n b
  | .list _ e => leafOf_eq_leaf e
  | .leaf o k n b => ⟨o, k, n, b, rfl⟩

namespace Value

theorem mem_of_mem_chunks {size : Nat} {x : Value} :
    ∀ {n : Nat} {xs : List Value} {c : List Value}, c ∈ chunks size n xs → x ∈ c → x ∈ xs
  | 0, _, _, hc, _ => by simp [chunks] at hc
  | n + 1, xs, c, hc, hx => by
    rcases List.mem_cons.mp hc with rfl | hc
    · exact List.mem_of_mem_take hx
    · exact List.mem_of_mem_drop (mem_of_mem_chunks hc hx)

/-- Nesting values by a shape gives a value of a type with one list level per dimension when
every value is of the type's leaf. -/
theorem nest_conforms :
    ∀ (shape : List Int) (xs : List Value) (d : Descriptor) {v : Value},
      d.depth = shape.length → (∀ x ∈ xs, x.Conforms d.leafOf) → nest shape xs = some v →
        v.Conforms d
  | [], _, _, _, _, _, h => by simp [nest] at h
  | [_], xs, d, v, hd, hx, h => by
    simp only [nest, Option.some.injEq] at h
    subst h
    cases d with
    | leaf => simp [Descriptor.depth] at hd
    | list o e =>
      simp only [Descriptor.depth, List.length_singleton, Nat.add_eq_right] at hd
      refine .list fun x hx' => ?_
      have := hx x hx'
      rwa [show (Descriptor.list o e).leafOf = e.leafOf from rfl,
        Descriptor.leafOf_of_depth_eq_zero hd] at this
  | k :: j :: rest, xs, d, v, hd, hx, h => by
    simp only [nest] at h
    split at h
    · cases h
    · obtain ⟨ys, hys, rfl⟩ := Option.map_eq_some_iff.mp h
      cases d with
      | leaf => simp [Descriptor.depth] at hd
      | list o e =>
        simp only [Descriptor.depth, List.length_cons, Nat.add_right_cancel_iff] at hd
        -- each element is a piece of the values, nested by the rest of the shape
        refine .list fun y hy => ?_
        obtain ⟨c, hc, hcy⟩ := List.mapM_option_eq_some hys y hy
        exact nest_conforms (j :: rest) c e hd (fun x hxc => hx x (mem_of_mem_chunks hc hxc)) hcy

end Value

namespace Layout

open Fmu Assembly

/-! ## What an export returns -/

/-- Every successful run of `act`, from any device, returns a value satisfying `P`. -/
def Yields {α : Type} (P : α → Prop) (act : DeviceM α) : Prop :=
  ∀ dev a dev', act.run.run dev = (.ok a, dev') → P a

namespace Yields

variable {α β : Type} {P : α → Prop} {Q : β → Prop}

theorem bind {x : DeviceM α} {f : α → DeviceM β} (hx : Yields P x)
    (hf : ∀ a, P a → Yields Q (f a)) : Yields Q (x >>= f) := by
  intro dev b dev' h
  rw [Course.run_bind] at h
  rcases hrun : x.run.run dev with ⟨_ | a, s'⟩
  · rw [hrun] at h
    cases h
  · rw [hrun] at h
    exact hf a (hx dev a s' hrun) s' b dev' h

theorem mono {act : DeviceM α} {P' : α → Prop} (h : Yields P act) (hP : ∀ a, P a → P' a) :
    Yields P' act := fun dev a dev' hrun => hP a (h dev a dev' hrun)

theorem pure {a : α} (h : P a) : Yields P (Pure.pure a : DeviceM α) := fun _ _ _ hrun => by
  cases hrun
  exact h

theorem throw (e : Fault) : Yields P (MonadExcept.throw e : DeviceM α) := fun _ _ _ h => by
  cases h

theorem throw_bind (e : Fault) (f : α → DeviceM β) :
    Yields Q (MonadExcept.throw e >>= f : DeviceM β) :=
  (throw e : Yields (fun (_ : α) => False) _).bind fun _ h => h.elim

theorem any (act : DeviceM α) : Yields (fun _ => True) act := fun _ _ _ _ => True.intro

end Yields

theorem liftWith_yields {α : Type} (ctx : String) (r : Except Fault α) :
    Yields (fun a => r = .ok a) (liftWith ctx r) := by
  cases r with
  | ok a => exact Yields.pure rfl
  | error e => exact Yields.throw _

theorem BoundVariable.toWire_hasKind {b : BoundVariable} {x y : Value} {k : Kind}
    (hk : k ≠ .clock) (h : b.toWire x k = .ok y) : y.hasKind k = true := by
  unfold BoundVariable.toWire at h
  split at h
  · exact Value.convert_hasKind hk h
  · obtain ⟨bits, -, h⟩ := Except.exists_of_bind_eq_ok h
    exact Cast.ofDouble_hasKind hk h

/-- A variable exports as a value of its wire type when that type passes the variable's check:
every element lands in the leaf kind, and the nesting has one list level per dimension. -/
theorem exportVariable_conforms {b : BoundVariable} {d : Descriptor} (hty : b.type = some d)
    (hcheck : b.check d = .ok ()) : Yields (fun v => v.Conforms d) (exportVariable b) := by
  obtain ⟨hdepth, hcompat⟩ := BoundVariable.check_eq_ok_iff.mp hcheck
  have hclock := Kind.ne_clock_of_compatible hcompat
  obtain ⟨o, k, n, bd, hleaf⟩ := d.leafOf_eq_leaf
  unfold exportVariable
  refine (Yields.any _).bind fun nv _ => (liftWith_yields _ _).bind fun raw _ => ?_
  dsimp only
  split
  · exact Yields.throw_bind _ _
  · rename_i hcount
    refine (liftWith_yields _ _).bind fun wired hwired => ?_
    obtain ⟨hlen, hmem⟩ := List.mapM_except_eq_ok hwired
    -- every wired element is a value of the type's leaf
    have hconf : ∀ y ∈ wired, y.Conforms d.leafOf := fun y hy => by
      obtain ⟨x, -, hxy⟩ := hmem y hy
      rw [hty, Option.getD_some] at hxy
      rw [hleaf]
      exact .scalar (by simpa [hleaf, Descriptor.kind] using BoundVariable.toWire_hasKind hclock hxy)
    split
    · -- a scalar is the one element of its variable
      rename_i hempty
      have hnil : b.shape = [] := List.isEmpty_iff.mp hempty
      have hone : raw.length = 1 := by
        have hscalar : elementCount [] = 1 := by decide
        simp only [hnil, hscalar, bne_iff_ne, ne_eq, Decidable.not_not] at hcount
        exact_mod_cast hcount
      obtain ⟨y, rfl⟩ : ∃ y, wired = [y] := List.length_eq_one_iff.mp (hlen.trans hone)
      refine Yields.pure ?_
      have hy := hconf y List.mem_cons_self
      rwa [Descriptor.leafOf_of_depth_eq_zero (by rw [hdepth, hnil]; rfl)] at hy
    · split
      · exact Yields.pure (Value.nest_conforms _ wired d hdepth hconf ‹_›)
      · exact Yields.throw _

/-! ## What a structure exports -/

/-- A structure exports under its description: it describes its slots under distinct names,
and for every slot holding a variable the layout finds a variable whose wire type is the slot's
type and passes the variable's check. -/
structure Exports (l : Layout) (s : Assembly) : Prop where
  describes : s.Describes
  names : (s.slots.map (·.1)).Nodup
  found : ∀ sl ∈ s.slots, sl.2.2.2 = none →
    ∃ b, l.findVariable (sl.2.2.1.getD "") = some b ∧ b.type = some sl.2.1 ∧
      b.check sl.2.1 = .ok ()

section Fields

variable {slots : List Slot} {fs : List (String × Value)}

theorem keys_eq_of_forall₂
    (h : List.Forall₂ (fun (sl : Slot) (f : String × Value) => f.1 = sl.1 ∧ f.2.Conforms sl.2.1)
      slots fs) : fs.map Prod.fst = slots.map (·.1) := by
  induction h with
  | nil => rfl
  | cons hf _ ih => simp [hf.1, ih]

/-- A record built slot by slot, under distinct slot names, holds under each slot's name a
value of that slot's type. -/
theorem field?_conforms_of_forall₂
    (h : List.Forall₂ (fun (sl : Slot) (f : String × Value) => f.1 = sl.1 ∧ f.2.Conforms sl.2.1)
      slots fs) (hnames : (slots.map (·.1)).Nodup) {sl : Slot} (hsl : sl ∈ slots) {x : Value}
    (hx : Value.field? fs sl.1 = some x) : x.Conforms sl.2.1 := by
  induction h with
  | nil => cases hsl
  | @cons sl' f slots fs hf _ ih =>
    obtain ⟨hname, hconf⟩ := hf
    rw [List.map_cons, List.nodup_cons] at hnames
    obtain ⟨k, y⟩ := f
    simp only at hname hconf
    subst hname
    rw [Value.field?_cons] at hx
    split at hx
    · -- the first field of the name belongs to this slot, the only one of that name
      rename_i hk
      cases hx
      rcases List.mem_cons.mp hsl with rfl | hsl
      · exact hconf
      · exact absurd (hk ▸ List.mem_map_of_mem hsl) hnames.1
    · rcases List.mem_cons.mp hsl with rfl | hsl
      · exact absurd rfl ‹_›
      · exact ih hnames.2 hsl hx

end Fields

mutual

/-- A structure exports as a record of its type, whatever that type's name, when every
structure in it exports under its description. -/
theorem exportAssembly_conforms (l : Layout) :
    ∀ s : Assembly, (∀ t ∈ s.tree, Exports l t) →
      Yields (fun v => ∀ n, v.Conforms (.leaf s.optional .custom n (.struct s.def_)))
        (exportAssembly l s)
  | .mk p o d dec slots cl, h => by
    obtain ⟨hs, hn⟩ := (forall_mem_tree_iff _ _).mp h
    rw [exportAssembly]
    refine (exportAssembly_go_conforms l slots hs.found fun sl hsl u hu =>
      ⟨hn sl hsl u hu, hs.describes.nested sl hsl u hu⟩).mono fun v hv n => ?_
    obtain ⟨fs, rfl, hfs⟩ := hv
    obtain ⟨dn, ms⟩ := d
    have hms : ms = slots.map (fun sl => (sl.1, sl.2.1)) := hs.describes.members
    subst hms
    refine .record (fun key => ?_) fun m hm x hx => ?_
    · rw [keys_eq_of_forall₂ hfs, List.map_map]
      rfl
    · obtain ⟨sl, hsl, rfl⟩ := List.mem_map.mp hm
      exact field?_conforms_of_forall₂ hfs hs.names hsl hx

theorem exportAssembly_go_conforms (l : Layout) :
    ∀ slots : List Slot,
      (∀ sl ∈ slots, sl.2.2.2 = none → ∃ b, l.findVariable (sl.2.2.1.getD "") = some b ∧
        b.type = some sl.2.1 ∧ b.check sl.2.1 = .ok ()) →
      (∀ sl ∈ slots, ∀ u, sl.2.2.2 = some u →
        (∀ t ∈ u.tree, Exports l t) ∧ ∃ n, sl.2.1 = .leaf u.optional .custom n (.struct u.def_)) →
      Yields (fun v => ∃ fs, v = .record fs ∧ List.Forall₂
        (fun (sl : Slot) (f : String × Value) => f.1 = sl.1 ∧ f.2.Conforms sl.2.1) slots fs)
        (exportAssembly.go l slots)
  | [], _, _ => by
    rw [exportAssembly.go]
    exact Yields.pure ⟨[], rfl, .nil⟩
  | (m, t, name, some s) :: rest, hfound, hnested => by
    rw [exportAssembly.go]
    obtain ⟨hs, n, ht⟩ := hnested _ List.mem_cons_self s rfl
    refine (exportAssembly_conforms l s hs).bind fun v hv =>
      (exportAssembly_go_conforms l rest (fun sl hsl => hfound sl (List.mem_cons_of_mem _ hsl))
        fun sl hsl => hnested sl (List.mem_cons_of_mem _ hsl)).bind fun r hr => ?_
    obtain ⟨fs, rfl, hfs⟩ := hr
    simp only at ht
    subst ht
    exact Yields.pure ⟨_, rfl, .cons ⟨rfl, hv n⟩ hfs⟩
  | (m, t, name, none) :: rest, hfound, hnested => by
    rw [exportAssembly.go]
    obtain ⟨b, hb, hty, hcheck⟩ := hfound _ List.mem_cons_self rfl
    simp only at hb
    rw [hb]
    refine (exportVariable_conforms hty hcheck).bind fun v hv =>
      (exportAssembly_go_conforms l rest (fun sl hsl => hfound sl (List.mem_cons_of_mem _ hsl))
        fun sl hsl => hnested sl (List.mem_cons_of_mem _ hsl)).bind fun r hr => ?_
    obtain ⟨fs, rfl, hfs⟩ := hr
    exact Yields.pure ⟨_, rfl, .cons ⟨rfl, hv⟩ hfs⟩

end

/-! ## Assembled structures -/

/-- Every assembled structure exports under its description through a layout that finds each
assembled variable by its name. -/
theorem assemble_exports {vars : List BoundVariable} {declared : List (String × Descriptor)}
    {out : List Assembly} {done : List BoundVariable}
    (hvars : ∀ b ∈ vars, b.Checked) (hdecl : ∀ p ∈ declared, p.2.Registered)
    (h : assemble vars declared = .ok (out, done)) {l : Layout}
    (hl : ∀ b ∈ done, l.findVariable b.name = some b) :
    ∀ s ∈ out, ∀ t ∈ s.tree, Exports l t := by
  intro s hs t ht
  obtain ⟨hdesc, hreg, htyped⟩ := assemble_describes hvars hdecl h s hs t ht
  refine ⟨hdesc, ?_, fun sl hsl hnone => ?_⟩
  · -- the slot names are the member names, distinct in a registered struct
    have hnodup := Descriptor.Registered.members_nodup hreg
    rwa [hdesc.members, List.map_map] at hnodup
  · obtain ⟨n, hn⟩ : ∃ n, sl.2.2.1 = some n := by
      rcases assemble_filled h s hs t ht sl hsl with hv | hu
      · exact Option.isSome_iff_exists.mp hv
      · rw [hnone] at hu
        cases hu
    obtain ⟨b, hb, hname, htype, hcheck⟩ := htyped sl hsl n hn
    refine ⟨b, ?_, htype, BoundVariable.check_eq_ok_iff.mpr hcheck⟩
    rw [hn, Option.getD_some, ← hname]
    exact hl b hb

/-- Decoding a payload with a registered type gives a value of that type. -/
theorem decodePayload_conforms {d : Descriptor} (hd : d.Registered) {payload : Bytes} {v : Value}
    (h : decodePayload d payload = .ok v) : v.Conforms d := by
  unfold decodePayload at h
  split at h
  · cases h
  · rename_i v' r hdec
    split at h
    · cases h
    · cases h
      exact (Wire.encode_decode_normalizes hd hdec).1

/-- Every structure that `assemble` returns, and every structure nested in it, describes its
slots, and a slot holding a variable is typed by that variable's wire type, with one list level
per dimension and a leaf kind the native kind travels as. So the structure's type is a
registered type tree, and it is the type of every record exported from the structure through a
layout that finds each assembled variable by its name, and of every payload decoded for it. -/
theorem assemble_describes_payloads {vars : List BoundVariable}
    {declared : List (String × Descriptor)} {out : List Assembly} {done : List BoundVariable}
    (hvars : ∀ b ∈ vars, b.Checked) (hdecl : ∀ p ∈ declared, p.2.Registered)
    (h : assemble vars declared = .ok (out, done)) :
    ∀ s ∈ out,
      (∀ t ∈ s.tree, t.Describes ∧ ∀ sl ∈ t.slots, ∀ n, sl.2.2.1 = some n →
        ∃ b ∈ done, b.name = n ∧ b.type = some sl.2.1 ∧ sl.2.1.depth = b.shape.length ∧
          Kind.compatible b.kind sl.2.1.leafOf.kind = true) ∧
      s.descriptor.Registered ∧
      (∀ l : Layout, (∀ b ∈ done, l.findVariable b.name = some b) →
        Yields (fun v => v.Conforms s.descriptor) (exportAssembly l s)) ∧
      (∀ payload v, decodePayload s.descriptor payload = .ok v → v.Conforms s.descriptor) := by
  intro s hs
  have hreg := (assemble_describes hvars hdecl h s hs s (self_mem_tree s)).2.1
  refine ⟨fun t ht => ?_, hreg, fun l hl => ?_, fun payload v hv => decodePayload_conforms hreg hv⟩
  · obtain ⟨hdesc, -, htyped⟩ := assemble_describes hvars hdecl h s hs t ht
    exact ⟨hdesc, htyped⟩
  · exact (exportAssembly_conforms l s (assemble_exports hvars hdecl h hl s hs)).mono
      fun v hv => hv _

/-- A declared pose with a nested rotation, filled by two variables whose types pass their
checks: both structures keep their declared structs, and the variables keep their types. -/
theorem assemble_describes_payloads_pose :
    let v : String → Path → Kind → Descriptor → BoundVariable := fun n p k d =>
      { (default : BoundVariable) with
        fmu := { name := n, vr := 0, kind := k }, path := p, type := some d }
    let rotType : Descriptor :=
      .leaf false .custom "Rot" (.struct (.mk "Rot" [("z", .primitive .int32)]))
    let poseType : Descriptor := .leaf false .custom "Pose"
      (.struct (.mk "Pose" [("x", .primitive .float64), ("rot", rotType)]))
    let vars := [v "pose.x" ["pose", "x"] .float64 (.primitive .float64),
      v "pose.rot.z" ["pose", "rot", "z"] .int32 (.primitive .int32)]
    let rot := Assembly.mk ["pose", "rot"] false (.mk "Rot" [("z", .primitive .int32)]) true
      [("z", .primitive .int32, some "pose.rot.z", none)] []
    let pose := Assembly.mk ["pose"] false
      (.mk "Pose" [("x", .primitive .float64), ("rot", rotType)]) true
      [("x", .primitive .float64, some "pose.x", none), ("rot", rotType, none, some rot)] []
    (∀ b ∈ vars, b.Checked) ∧ (∀ p ∈ [("pose", poseType)], p.2.Registered) ∧
    assemble vars [("pose", poseType)] = .ok ([pose], vars) ∧
    ((∀ t ∈ pose.tree, t.Describes ∧ ∀ sl ∈ t.slots, ∀ n, sl.2.2.1 = some n →
        ∃ b ∈ vars, b.name = n ∧ b.type = some sl.2.1 ∧ sl.2.1.depth = b.shape.length ∧
          Kind.compatible b.kind sl.2.1.leafOf.kind = true) ∧
      pose.descriptor.Registered ∧
      (∀ l : Layout, (∀ b ∈ vars, l.findVariable b.name = some b) →
        Yields (fun v => v.Conforms pose.descriptor) (exportAssembly l pose)) ∧
      (∀ payload v, decodePayload pose.descriptor payload = .ok v → v.Conforms pose.descriptor)) := by
  intro v rotType poseType vars rot pose
  have hvars : ∀ b ∈ vars, b.Checked := by
    intro b hb _
    simp only [vars, List.mem_cons, List.mem_nil_iff, or_false] at hb
    rcases hb with rfl | rfl
    · exact ⟨_, rfl, .primitive (by decide), rfl⟩
    · exact ⟨_, rfl, .primitive (by decide), rfl⟩
  have hdecl : ∀ p ∈ [("pose", poseType)], p.2.Registered := by
    intro p hp
    rw [List.mem_singleton] at hp
    subst hp
    refine .struct (by decide) fun m hm => ?_
    simp only [List.mem_cons, List.mem_nil_iff, or_false] at hm
    rcases hm with rfl | rfl
    · exact .primitive (by decide)
    · refine .struct (by decide) fun m hm => ?_
      rw [List.mem_singleton] at hm
      subst hm
      exact .primitive (by decide)
  have h : assemble vars [("pose", poseType)] = .ok ([pose], vars) := rfl
  exact ⟨hvars, hdecl, h, assemble_describes_payloads hvars hdecl h pose List.mem_cons_self⟩

end Layout

end CoSimBridge
