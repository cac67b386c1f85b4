import Mathlib
import CoSimBridge.Proofs.Layout.Placement
import CoSimBridge.Proofs.Wire.Reencode
/-!
# Assembled structures describe their slots

A structure's wire type is its struct definition: the members in order, each with its type. A
declared structure takes its slots from the definition; an undeclared one takes its slots from
the variables and `define` makes the definition up from them afterwards. Either way, once
`assemble` succeeds, every structure at every depth describes its own slots (`Describes`): the
members are the slots' names and types in slot order, and a slot holding a nested structure is
typed by a struct bound to the nested structure's definition, optional as the nested structure
is. A slot holding a variable is typed by that variable's wire type, which the variable's check
accepts: one list level per dimension and a leaf kind the native kind travels as
(`assemble_describes`). Every structure's type is then a registered type tree
(`assemble_registered`).

Two invariants carry this through placement. Every slot holding a variable holds one of the
variables placed so far, with the slot's type as its wire type (`Typed`); this one follows
`place` itself, since filling a declared member makes the member's type the variable's. Every
slot's type is registered, and a declared structure describes its slots under distinct member
names (`Declares`); this one follows the five moves of `Placed`.
-/

namespace CoSimBridge
set_option autoImplicit false

namespace Layout

namespace BoundVariable

theorem check_eq_ok_iff {b : BoundVariable} {d : Descriptor} :
    b.check d = .ok () ↔ d.depth = b.shape.length ∧ Kind.compatible b.kind d.leafOf.kind = true := by
  unfold check
  by_cases h1 : d.depth = b.shape.length <;>
    by_cases h2 : Kind.compatible b.kind d.leafOf.kind = true <;>
    simp [h1, h2, bind, Except.bind, throw, throwThe, MonadExceptOf.throw, pure, Except.pure]

/-- Adopting a member type keeps the variable's name and makes the type its wire type, which
the variable's check accepts. -/
theorem adopt_eq_ok {b b' : BoundVariable} {d : Descriptor} (h : b.adopt d = .ok b') :
    b'.name = b.name ∧ b'.type = some d ∧ b'.check d = .ok () := by
  unfold adopt at h
  dsimp only at h
  split at h
  · cases h
  · obtain ⟨u, hc, h⟩ := Except.exists_of_bind_eq_ok h
    cases h
    exact ⟨rfl, rfl, hc⟩

end BoundVariable

/-- A data variable as binding leaves it: with a registered wire type that its check accepts. -/
def BoundVariable.Checked (b : BoundVariable) : Prop :=
  b.isClock = false → ∃ d, b.type = some d ∧ d.Registered ∧ b.check d = .ok ()

theorem registered_primitive_invalid : (Descriptor.primitive .invalid).Registered :=
  .primitive (by decide)

namespace Assembly

/-! ## The three descriptions of a structure -/

/-- The structure describes its slots: its members are the slots' names and types in slot
order, and a slot holding a nested structure is typed by a struct bound to the nested
structure's definition, optional as the nested structure is. -/
structure Describes (s : Assembly) : Prop where
  members : s.def_.members = s.slots.map (fun sl => (sl.1, sl.2.1))
  nested : ∀ sl ∈ s.slots, ∀ u, sl.2.2.2 = some u →
    ∃ n, sl.2.1 = .leaf u.optional .custom n (.struct u.def_)

/-- What placing keeps of a structure's types: every slot's type is registered, and a declared
structure describes its slots under distinct member names. -/
structure Declares (s : Assembly) : Prop where
  registered : ∀ sl ∈ s.slots, sl.2.1.Registered
  describes : s.declared = true → s.Describes ∧ (s.def_.members.map Prod.fst).Nodup

/-- A slot holding a variable holds one of `done` whose wire type is the slot's type and
passes the variable's check. -/
def SlotTyped (done : List BoundVariable) (sl : Slot) : Prop :=
  ∀ n, sl.2.2.1 = some n → sl.2.2.2 = none →
    ∃ b ∈ done, b.name = n ∧ b.type = some sl.2.1 ∧ b.check sl.2.1 = .ok ()

/-- Every slot holding a variable, at every depth, is typed by a variable of `done`. -/
def Typed (done : List BoundVariable) (s : Assembly) : Prop :=
  ∀ t ∈ s.tree, ∀ sl ∈ t.slots, SlotTyped done sl

/-- A property holds throughout a tree when it holds at the root and throughout the tree of
every nested structure. -/
theorem forall_mem_tree_iff (P : Assembly → Prop) (s : Assembly) :
    (∀ t ∈ s.tree, P t) ↔ P s ∧ ∀ sl ∈ s.slots, ∀ u, sl.2.2.2 = some u → ∀ t ∈ u.tree, P t := by
  constructor
  · intro h
    exact ⟨h s (self_mem_tree s),
      fun sl hsl u hu t ht => h t (mem_tree.mpr (.inr ⟨sl, hsl, u, hu, ht⟩))⟩
  · rintro ⟨hs, hn⟩ t ht
    rcases mem_tree.mp ht with rfl | ⟨sl, hsl, u, hu, ht⟩
    · exact hs
    · exact hn sl hsl u hu t ht

theorem sizeOf_lt_of_nested {s u : Assembly} {sl : Slot} (hsl : sl ∈ s.slots)
    (hu : sl.2.2.2 = some u) : sizeOf u < sizeOf s := by
  obtain ⟨p, o, d, dec, slots, cl⟩ := s
  obtain ⟨m, t, v, w⟩ := sl
  simp only at hu
  subst hu
  have := List.sizeOf_lt_of_mem hsl
  simp only [slots_mk, mk.sizeOf_spec, Prod.mk.sizeOf_spec, Option.some.sizeOf_spec] at this ⊢
  omega

/-- The tree of a structure in the tree lies within the tree. -/
theorem mem_tree_trans (s : Assembly) {t u : Assembly} (ht : t ∈ s.tree) (hu : u ∈ t.tree) :
    u ∈ s.tree := by
  rcases mem_tree.mp ht with rfl | ⟨sl, hsl, w, hw, htw⟩
  · exact hu
  · exact mem_tree.mpr (.inr ⟨sl, hsl, w, hw, mem_tree_trans w htw hu⟩)
termination_by sizeOf s
decreasing_by exact sizeOf_lt_of_nested hsl hw

theorem forall_mem_setSlot {P : Slot → Prop} {name : String} {sl : Slot} :
    ∀ {slots : List Slot}, (∀ x ∈ slots, P x) → P sl → ∀ x ∈ setSlot name sl slots, P x
  | [], _, _ => by simp [setSlot]
  | x :: rest, h, hsl => by
    rw [setSlot]
    split
    · exact List.forall_mem_cons.mpr ⟨hsl, fun y hy => h y (List.mem_cons_of_mem _ hy)⟩
    · exact List.forall_mem_cons.mpr ⟨h x List.mem_cons_self,
        forall_mem_setSlot (fun y hy => h y (List.mem_cons_of_mem _ hy)) hsl⟩

/-- Filling or entering the first slot of a name keeps the names and types of all slots. -/
theorem map_pair_setSlot {slots : List Slot} {name m : String} {t : Descriptor}
    {x y : Option String × Option Assembly} (h : slots.find? (·.1 == name) = some (m, t, x)) :
    (setSlot name (name, t, y) slots).map (fun sl => (sl.1, sl.2.1)) =
      slots.map (fun sl => (sl.1, sl.2.1)) := by
  obtain ⟨pre, post, hs, -, hold, hset⟩ := setSlot_of_find? h (name, t, y)
  rw [hset, hs]
  simp only at hold
  simp [hold]

/-! ## Typing the variable slots -/

theorem SlotTyped.mono {done done' : List BoundVariable} (h : done ⊆ done') {sl : Slot}
    (hs : SlotTyped done sl) : SlotTyped done' sl := fun n hv hu => by
  obtain ⟨b, hb, hrest⟩ := hs n hv hu
  exact ⟨b, h hb, hrest⟩

theorem Typed.mono {done done' : List BoundVariable} (h : done ⊆ done') {s : Assembly}
    (hs : Typed done s) : Typed done' s := fun t ht sl hsl => (hs t ht sl hsl).mono h

theorem slotTyped_nested (done : List BoundVariable) (m : String) (t : Descriptor)
    (v : Option String) (u : Assembly) : SlotTyped done (m, t, v, some u) :=
  fun _ _ hu => by cases hu

theorem slotTyped_var {done : List BoundVariable} {b : BoundVariable} (hb : b ∈ done)
    {t : Descriptor} (ht : b.type = some t) (hc : b.check t = .ok ()) (m : String) :
    SlotTyped done (m, t, some b.name, none) := fun n hn _ => by
  obtain rfl := Option.some.inj hn
  exact ⟨b, hb, rfl, ht, hc⟩

theorem typed_iff {done : List BoundVariable} {s : Assembly} :
    Typed done s ↔ ∀ sl ∈ s.slots, SlotTyped done sl ∧ ∀ u, sl.2.2.2 = some u → Typed done u := by
  unfold Typed
  rw [forall_mem_tree_iff]
  constructor
  · rintro ⟨hs, hn⟩ sl hsl
    exact ⟨hs sl hsl, hn sl hsl⟩
  · intro h
    exact ⟨fun sl hsl => (h sl hsl).1, fun sl hsl => (h sl hsl).2⟩

theorem typed_fresh (done : List BoundVariable) (p : Path) : Typed done (fresh p none) :=
  typed_iff.mpr fun sl hsl => by simp [fresh] at hsl

section Typed

variable {done : List BoundVariable} {s : Assembly} {sl : Slot} {cl : List String}

theorem Typed.withParts_self (hs : Typed done s) : Typed done (s.withParts s.slots cl) := by
  have h := typed_iff.mp hs
  exact typed_iff.mpr h

theorem Typed.withParts_append (hs : Typed done s) (hsl : SlotTyped done sl)
    (hu : ∀ u, sl.2.2.2 = some u → Typed done u) : Typed done (s.withParts (s.slots ++ [sl]) cl) := by
  rw [typed_iff, withParts_slots, List.forall_mem_append, List.forall_mem_singleton]
  exact ⟨typed_iff.mp hs, hsl, hu⟩

theorem Typed.withParts_setSlot {name : String} (hs : Typed done s) (hsl : SlotTyped done sl)
    (hu : ∀ u, sl.2.2.2 = some u → Typed done u) :
    Typed done (s.withParts (setSlot name sl s.slots) cl) := by
  rw [typed_iff, withParts_slots]
  exact forall_mem_setSlot (typed_iff.mp hs) ⟨hsl, hu⟩

end Typed

/-- A placement types the slot it fills by the variable it returns, and keeps every other slot:
a new slot of an undeclared structure takes the variable's own type, and a declared member
makes its type the variable's. -/
theorem place_typed {b b' : BoundVariable} {done : List BoundVariable} (hb : b.Checked) :
    ∀ (fuel : Nat) (s s' : Assembly) (rest : List String), Typed done s →
      place b s rest fuel = .ok (s', b') → Typed (done ++ [b']) s'
  | 0, s, s', rest, hs, h => by
    simp only [place, Except.ok.injEq, Prod.mk.injEq] at h
    obtain ⟨rfl, rfl⟩ := h
    exact hs.mono (List.subset_append_left _ _)
  | n + 1, s, s', [], hs, h => by
    simp only [place, Except.ok.injEq, Prod.mk.injEq] at h
    obtain ⟨rfl, rfl⟩ := h
    exact hs.mono (List.subset_append_left _ _)
  | n + 1, s, s', [name], hs, h => by
    have hs' := hs.mono (List.subset_append_left done [b'])
    simp only [place] at h
    split at h
    · -- a clock joins the clocks and leaves the slots as they are
      cases h
      exact hs'.withParts_self
    · rename_i hclock
      simp only [Bool.not_eq_true] at hclock
      split at h
      · split at h
        · cases h
        · -- a new slot, typed by the variable's own type
          cases h
          obtain ⟨d, hd, -, hcheck⟩ := hb hclock
          exact hs'.withParts_append
            (slotTyped_var (by simp) (by simp [hd]) (by simpa [hd] using hcheck) name)
            fun u hu => by cases hu
      · split at h
        · cases h
        · rename_i hnested
          simp only [Option.isSome_iff_ne_none, ne_eq, not_not] at hnested
          subst hnested
          split at h
          · cases h
          · obtain ⟨b₁, hadopt, h⟩ := Except.exists_of_bind_eq_ok h
            -- filling a declared member makes the member's type the variable's
            obtain ⟨-, htype, hcheck⟩ := BoundVariable.adopt_eq_ok hadopt
            cases h
            exact hs'.withParts_setSlot (slotTyped_var (by simp) htype hcheck name)
              fun u hu => by cases hu
  | n + 1, s, s', name :: next :: rest, hs, h => by
    have hs' := hs.mono (List.subset_append_left done [b'])
    simp only [place] at h
    split at h
    · split at h
      · split at h
        · cases h
          exact hs'.withParts_self
        · cases h
      · -- the variable goes on into a new nested structure
        obtain ⟨⟨inner, b₁⟩, hplace, h⟩ := Except.exists_of_bind_eq_ok h
        have hinner := place_typed hb n _ inner _ (typed_fresh done _) hplace
        cases h
        exact hs'.withParts_append (slotTyped_nested _ _ _ _ _) fun u hu => by
          cases hu
          exact hinner
    · split at h
      · cases h
        exact hs'.withParts_self
      · cases h
    · -- the variable goes on into the nested structure of a slot
      rename_i m t f u hfind
      obtain ⟨⟨inner, b₁⟩, hplace, h⟩ := Except.exists_of_bind_eq_ok h
      have hu := ((typed_iff.mp hs) _ (List.mem_of_find?_eq_some hfind)).2 u rfl
      have hinner := place_typed hb n u inner _ hu hplace
      cases h
      exact hs'.withParts_setSlot (slotTyped_nested _ _ _ _ _) fun u' hu' => by
        cases hu'
        exact hinner

theorem declares_fresh (p : Path) : ∀ t ∈ (fresh p none).tree, t.Declares :=
  (forall_mem_tree_iff _ _).mpr ⟨⟨fun sl hsl => by simp [fresh] at hsl, fun hd => by cases hd⟩,
    fun sl hsl => by simp [fresh] at hsl⟩

theorem map_pair_ofType_go (p : Path) (ms : List (String × Descriptor)) :
    (ofType.go p ms).map (fun sl => (sl.1, sl.2.1)) = ms := by
  induction ms with
  | nil => rfl
  | cons mt ms ih => simp [ofType.go, ih]

/-- A structure made from a registered struct type holds no variable, and every structure in
it describes its slots, which carry the members' registered types. -/
theorem ofType_declares (p : Path) (d : Descriptor) (hd : d.Registered) :
    ∀ t ∈ (ofType p d).tree, t.Declares ∧ ∀ sl ∈ t.slots, sl.2.2.1 = none := by
  by_cases hs : d.isStruct = true
  · obtain ⟨o, n, n', ms, rfl⟩ := exists_of_isStruct hs
    have hslots : (ofType p (.leaf o .custom n (.struct (.mk n' ms)))).slots = ofType.go p ms := rfl
    obtain ⟨hnodup, hms⟩ : (ms.map Prod.fst).Nodup ∧ ∀ m ∈ ms, m.2.Registered := by
      cases hd with
      | primitive hk => exact absurd rfl hk
      | struct hnodup hms => exact ⟨hnodup, hms⟩
    rw [forall_mem_tree_iff, hslots]
    refine ⟨⟨⟨fun sl hsl => ?_, fun _ => ⟨⟨(map_pair_ofType_go p ms).symm, fun sl hsl u hu => ?_⟩,
      hnodup⟩⟩, fun sl hsl => ?_⟩, fun sl hsl u hu => ?_⟩
    · obtain ⟨mt, hmt, rfl⟩ := mem_ofType_go hsl
      exact hms mt hmt
    · -- a nested structure is made from its member's struct type
      obtain ⟨⟨m, t⟩, -, rfl⟩ := mem_ofType_go hsl
      by_cases ht : t.isStruct = true
      · simp only [ht, ↓reduceIte, Option.some.injEq] at hu
        subst hu
        obtain ⟨o', k, k', ms', rfl⟩ := exists_of_isStruct ht
        exact ⟨k, rfl⟩
      · simp [ht] at hu
    · obtain ⟨mt, -, rfl⟩ := mem_ofType_go hsl
      rfl
    · obtain ⟨⟨m, t⟩, hmt, rfl⟩ := mem_ofType_go hsl
      by_cases ht : t.isStruct = true
      · simp only [ht, ↓reduceIte, Option.some.injEq] at hu
        subst hu
        exact ofType_declares _ t (hms _ hmt)
      · simp [ht] at hu
  · have hblank : ofType p d = .mk p false (.mk "" []) false [] [] := by
      unfold ofType
      split
      · simp [Descriptor.isStruct, Descriptor.structDef?] at hs
      · rfl
    rw [hblank, forall_mem_tree_iff]
    exact ⟨⟨⟨fun sl hsl => (by cases hsl), fun h => by cases h⟩, fun sl hsl => (by cases hsl)⟩,
      fun sl hsl => (by cases hsl)⟩
termination_by sizeOf d
decreasing_by
  subst_vars
  have hlt := List.sizeOf_lt_of_mem hmt
  simp only [Prod.mk.sizeOf_spec] at hlt
  simp only [Descriptor.leaf.sizeOf_spec, Binding.struct.sizeOf_spec, StructDef.mk.sizeOf_spec]
  omega

end Assembly

open Assembly

/-! ## Declared types through placement -/

theorem Assembly.Declares.withParts_self {s : Assembly} {cl : List String} (h : s.Declares) :
    (s.withParts s.slots cl).Declares :=
  ⟨h.registered, fun hd => ⟨⟨(h.describes hd).1.members, (h.describes hd).1.nested⟩,
    (h.describes hd).2⟩⟩

theorem Placed.eq_withParts {b : BoundVariable} {s s' : Assembly} {rest : List String}
    (h : Placed b s rest s') : ∃ slots cl, s' = s.withParts slots cl := by
  cases h <;> exact ⟨_, _, rfl⟩

/-- Placing keeps what every structure's types declare, provided the variable's own type is
registered: a new slot takes that type or the invalid primitive, and a filled or entered slot
keeps its member's name and type. -/
theorem Placed.declares {b : BoundVariable} {s s' : Assembly} {rest : List String}
    (h : Placed b s rest s') (hb : b.Checked) (hs : ∀ t ∈ s.tree, t.Declares) :
    ∀ t ∈ s'.tree, t.Declares := by
  induction h with
  | @clock s =>
    obtain ⟨hD, hn⟩ := (forall_mem_tree_iff _ s).mp hs
    exact (forall_mem_tree_iff _ _).mpr ⟨hD.withParts_self, hn⟩
  | @add s name hc hd _ =>
    obtain ⟨⟨hreg, -⟩, hn⟩ := (forall_mem_tree_iff _ s).mp hs
    obtain ⟨d, hty, hdreg, -⟩ := hb hc
    rw [forall_mem_tree_iff, withParts_slots, List.forall_mem_append, List.forall_mem_singleton]
    refine ⟨⟨List.forall_mem_append.mpr ⟨hreg, List.forall_mem_singleton.mpr ?_⟩,
      fun h' => by simp [hd] at h'⟩, hn, fun u hu => by cases hu⟩
    simpa [hty] using hdreg
  | @fill s name m t _ hfind =>
    obtain ⟨⟨hreg, hdesc⟩, hn⟩ := (forall_mem_tree_iff _ s).mp hs
    have ht : t.Registered := hreg _ (List.mem_of_find?_eq_some hfind)
    rw [forall_mem_tree_iff, withParts_slots]
    refine ⟨⟨forall_mem_setSlot hreg ht, fun hd => ?_⟩, forall_mem_setSlot hn fun u hu => by cases hu⟩
    obtain ⟨⟨hmembers, hnested⟩, hnodup⟩ := hdesc hd
    exact ⟨⟨by rw [withParts_slots, map_pair_setSlot hfind]; exact hmembers,
      forall_mem_setSlot hnested fun u hu => by cases hu⟩, hnodup⟩
  | @nest s inner name rest _ hd _ _ ih =>
    obtain ⟨⟨hreg, -⟩, hn⟩ := (forall_mem_tree_iff _ s).mp hs
    rw [forall_mem_tree_iff, withParts_slots, List.forall_mem_append, List.forall_mem_singleton]
    exact ⟨⟨List.forall_mem_append.mpr ⟨hreg,
        List.forall_mem_singleton.mpr registered_primitive_invalid⟩,
      fun h' => by simp [hd] at h'⟩, hn, fun u hu => by cases hu; exact ih (declares_fresh _)⟩
  | @enter s u inner name m rest t f _ hfind hp ih =>
    obtain ⟨⟨hreg, hdesc⟩, hn⟩ := (forall_mem_tree_iff _ s).mp hs
    have hmem := List.mem_of_find?_eq_some hfind
    have hinner := ih (hn _ hmem u rfl)
    rw [forall_mem_tree_iff, withParts_slots]
    refine ⟨⟨forall_mem_setSlot hreg (show t.Registered from hreg _ hmem), fun hd => ?_⟩,
      forall_mem_setSlot hn fun u' hu' => by cases hu'; exact hinner⟩
    obtain ⟨⟨hmembers, hnested⟩, hnodup⟩ := hdesc hd
    -- the nested structure keeps its definition and optional flag
    obtain ⟨slots, cl, rfl⟩ := hp.eq_withParts
    exact ⟨⟨by rw [withParts_slots, map_pair_setSlot hfind]; exact hmembers,
      forall_mem_setSlot hnested fun u' hu' => by cases hu'; exact hnested _ hmem u rfl⟩, hnodup⟩

/-! ## Gathering -/

/-- What gathering keeps of a structure: its variable slots are typed by the variables placed so
far, and every structure in it declares its types. -/
structure Assembly.Described (done : List BoundVariable) (s : Assembly) : Prop where
  typed : s.Typed done
  declares : ∀ t ∈ s.tree, t.Declares

theorem Assembly.Described.mono {done done' : List BoundVariable} (h : done ⊆ done')
    {s : Assembly} (hs : s.Described done) : s.Described done' :=
  ⟨hs.typed.mono h, hs.declares⟩

theorem startRoot_described {declared : List (String × Descriptor)} {r : String} {s : Assembly}
    (done : List BoundVariable) (hdecl : ∀ p ∈ declared, p.2.Registered)
    (h : startRoot declared r = .ok s) : s.Described done := by
  unfold startRoot at h
  cases hl : declared.lookup r with
  | none =>
    rw [hl] at h
    cases h
    exact ⟨typed_fresh done _, declares_fresh _⟩
  | some d =>
    rw [hl] at h
    dsimp only at h
    split at h
    · cases h
    · cases h
      obtain ⟨l₁, l₂, hsplit, -⟩ := List.lookup_eq_some_iff.mp hl
      have hofType := ofType_declares [r] d (hdecl (r, d) (by simp [hsplit]))
      refine ⟨fun t ht sl hsl k hk _ => ?_, fun t ht => (hofType t ht).1⟩
      rw [(hofType t ht).2 sl hsl] at hk
      cases hk

/-- Gathering keeps every structure described, with the variables it returns. -/
theorem gather_described {declared : List (String × Descriptor)}
    (hdecl : ∀ p ∈ declared, p.2.Registered) :
    ∀ (vars : List BoundVariable) (out : List Assembly) (done : List BoundVariable)
      {out' : List Assembly} {done' : List BoundVariable},
      (∀ b ∈ vars, b.Checked) → (∀ s ∈ out, s.Described done) →
      gather declared out done vars = .ok (out', done') → ∀ s ∈ out', s.Described done'
  | [], out, done, _, _, _, hout, h => by
    cases h
    exact hout
  | b :: vars, out, done, out', done', hvars, hout, h => by
    have hrest : ∀ b ∈ vars, b.Checked := fun b hb => hvars b (List.mem_cons_of_mem _ hb)
    rcases gather_cons_eq_ok h with ⟨-, h⟩ | ⟨hlong, out₁, s, s', b', hstart, hplace, h⟩
    · exact gather_described hdecl vars out _ hrest
        (fun s hs => (hout s hs).mono (List.subset_append_left _ _)) h
    · -- the structure of the root, found or started, is described before it takes the variable
      obtain ⟨hout₁, hs⟩ : (∀ t ∈ out₁, t.Described done) ∧ s.Described done := by
        rcases hstart with ⟨hfind, rfl⟩ | ⟨-, hst, rfl⟩
        · exact ⟨hout, hout s (List.mem_of_find?_eq_some hfind)⟩
        · have hs := startRoot_described done hdecl hst
          refine ⟨fun t ht => ?_, hs⟩
          rcases List.mem_append.mp ht with ht | ht
          · exact hout t ht
          · rw [List.mem_singleton.mp ht]
            exact hs
      have hne : b.path.drop 1 ≠ [] := by
        rw [ne_eq, List.drop_eq_nil_iff]
        omega
      have hchecked := hvars b List.mem_cons_self
      have hp := placed_of_place _ s s' _ hne (by simp) hplace
      -- the placed structure replaces it, and the others stay described
      have hs' : s'.Described (done ++ [b']) :=
        ⟨place_typed hchecked _ s s' _ hs.typed hplace, hp.declares hchecked hs.declares⟩
      refine gather_described hdecl vars _ _ hrest (fun t ht => ?_) h
      obtain ⟨t₀, ht₀, rfl⟩ := List.mem_map.mp ht
      split
      · exact hs'
      · exact (hout₁ t₀ ht₀).mono (List.subset_append_left _ _)

/-! ## Defining the structures -/

namespace Assembly

@[simp] theorem define_optional (s : Assembly) : (define s).optional = s.optional := by
  obtain ⟨p, o, d, dec, slots, cl⟩ := s
  cases dec <;> rfl

theorem define_def_of_declared {s : Assembly} (h : s.declared = true) :
    (define s).def_ = s.def_ := by
  obtain ⟨p, o, d, dec, slots, cl⟩ := s
  simp only [declared] at h
  subst h
  rfl

theorem define_def_of_undeclared {s : Assembly} (h : s.declared = false) :
    (define s).def_ = .mk (Path.join s.path) ((define s).slots.map fun sl => (sl.1, sl.2.1)) := by
  obtain ⟨p, o, d, dec, slots, cl⟩ := s
  simp only [declared] at h
  subst h
  rfl

theorem define_descriptor (s : Assembly) :
    (define s).descriptor = .leaf s.optional .custom (define s).def_.name (.struct (define s).def_) := by
  rw [descriptor, define_optional]

theorem mem_define_slots {s : Assembly} {sl' : Slot} (h : sl' ∈ (define s).slots) :
    ∃ sl ∈ s.slots, sl' = defineSlot s.declared sl := by
  rw [define_slots] at h
  obtain ⟨sl, hsl, rfl⟩ := List.mem_map.mp h
  exact ⟨sl, hsl, rfl⟩

theorem map_pair_defineSlot_true (slots : List Slot) :
    (slots.map (defineSlot true)).map (fun sl => (sl.1, sl.2.1)) =
      slots.map (fun sl => (sl.1, sl.2.1)) := by
  rw [List.map_map]
  refine List.map_congr_left fun sl _ => ?_
  obtain ⟨m, t, v, _ | u⟩ := sl <;> rfl

/-- Defining keeps the description of a declared structure and makes up that of an undeclared
one: its members become its slots' names and types, and a nested structure's slot takes the
nested structure's type. -/
theorem Declares.describes_define {P : List BoundVariable} {t : Assembly} (hD : t.Declares)
    (hS : Sound P t) : (define t).Describes := by
  cases hdec : t.declared with
  | true =>
    obtain ⟨⟨hmembers, hnested⟩, -⟩ := hD.describes hdec
    refine ⟨?_, fun sl' hsl' u' hu' => ?_⟩
    · rw [define_def_of_declared hdec, hmembers, define_slots, hdec, map_pair_defineSlot_true]
    · obtain ⟨⟨m, ty, v, nested⟩, hsl, rfl⟩ := mem_define_slots hsl'
      rw [hdec] at hu'
      cases nested with
      | none => cases hu'
      | some u =>
        cases hu'
        -- a nested structure of a declared one is declared, and defining keeps its struct
        have hu_dec := (hS.nested hsl rfl).2.1 hdec
        obtain ⟨n, hn⟩ := hnested _ hsl u rfl
        exact ⟨n, by simpa only [defineSlot, hdec, ↓reduceIte, define_optional,
          define_def_of_declared hu_dec] using hn⟩
  | false =>
    refine ⟨by rw [define_def_of_undeclared hdec]; rfl, fun sl' hsl' u' hu' => ?_⟩
    obtain ⟨⟨m, ty, v, nested⟩, hsl, rfl⟩ := mem_define_slots hsl'
    rw [hdec] at hu'
    cases nested with
    | none => cases hu'
    | some u =>
      cases hu'
      exact ⟨(define u).def_.name, by simp [defineSlot, define_descriptor, hdec]⟩

/-- Defining keeps every variable slot as it is. -/
theorem SlotTyped.define {P : List BoundVariable} {done : List BoundVariable} {t : Assembly}
    (hT : ∀ sl ∈ t.slots, SlotTyped done sl) (hS : Sound P t) :
    ∀ sl' ∈ (define t).slots, ∀ n, sl'.2.2.1 = some n →
      ∃ b ∈ done, b.name = n ∧ b.type = some sl'.2.1 ∧ b.check sl'.2.1 = .ok () := by
  intro sl' hsl' n hn
  obtain ⟨⟨m, ty, v, nested⟩, hsl, rfl⟩ := mem_define_slots hsl'
  cases nested with
  | none => exact hT _ hsl n hn rfl
  | some u =>
    -- a slot holds a variable or a nested structure, never both
    rcases hS.single hsl with hv | hu
    · simp only at hv
      simp only [defineSlot, hv, reduceCtorEq] at hn
    · cases hu

mutual

/-- Every defined structure's type is a registered type tree: a declared one keeps its
registered struct, and an undeclared one has distinct slot names whose types are registered,
the nested structures' types among them. -/
theorem registered_define {P : List BoundVariable} :
    ∀ s : Assembly, (∀ t ∈ s.tree, t.Declares ∧ Sound P t) → (define s).descriptor.Registered
  | .mk p o d dec slots cl, h => by
    obtain ⟨⟨hD, hS⟩, hn⟩ := (forall_mem_tree_iff _ _).mp h
    cases dec with
    | true =>
      obtain ⟨⟨hmembers, -⟩, hnodup⟩ := hD.describes rfl
      obtain ⟨n', ms⟩ := d
      refine .struct hnodup fun mt hmt => ?_
      change ms = slots.map _ at hmembers
      rw [hmembers] at hmt
      obtain ⟨sl, hsl, rfl⟩ := List.mem_map.mp hmt
      exact hD.registered sl hsl
    | false =>
      refine .struct ?_ fun mt hmt => ?_
      · -- the made-up members are the slot names, distinct in an undeclared structure
        have hnames : (slots.map (·.1)).Nodup := hS.names_nodup rfl
        change (((define.go false slots).map fun (m, t, _, _) => (m, t)).map Prod.fst).Nodup
        rw [define_go_eq, List.map_map, List.map_map]
        convert hnames using 2
        funext sl
        obtain ⟨m, t, v, _ | u⟩ := sl <;> rfl
      · change mt ∈ (define.go false slots).map fun (m, t, _, _) => (m, t) at hmt
        obtain ⟨sl, hsl, rfl⟩ := List.mem_map.mp hmt
        exact registered_define_go slots hD.registered hn sl hsl

theorem registered_define_go {P : List BoundVariable} :
    ∀ slots : List Slot, (∀ sl ∈ slots, sl.2.1.Registered) →
      (∀ sl ∈ slots, ∀ u, sl.2.2.2 = some u → ∀ t ∈ u.tree, t.Declares ∧ Sound P t) →
      ∀ sl ∈ define.go false slots, sl.2.1.Registered
  | [], _, _ => by simp [define.go]
  | (m, t, v, some u) :: rest, hreg, hn => by
    simp only [define.go, Bool.false_eq_true, ↓reduceIte, List.forall_mem_cons]
    exact ⟨registered_define u (hn _ List.mem_cons_self u rfl),
      registered_define_go rest (fun sl hsl => hreg sl (List.mem_cons_of_mem _ hsl))
        fun sl hsl => hn sl (List.mem_cons_of_mem _ hsl)⟩
  | (m, t, v, none) :: rest, hreg, hn => by
    simp only [define.go, List.forall_mem_cons]
    exact ⟨hreg _ List.mem_cons_self,
      registered_define_go rest (fun sl hsl => hreg sl (List.mem_cons_of_mem _ hsl))
        fun sl hsl => hn sl (List.mem_cons_of_mem _ hsl)⟩

end

end Assembly

/-- A successful assembly gathers the structures, finds every one complete and defines them. -/
theorem assemble_eq_ok {vars : List BoundVariable} {declared : List (String × Descriptor)}
    {out : List Assembly} {done : List BoundVariable} :
    assemble vars declared = .ok (out, done) ↔ ∃ out0, gather declared [] [] vars = .ok (out0, done) ∧
      (∀ s ∈ out0, s.complete = .ok ()) ∧ out = out0.map define := by
  constructor
  · intro h
    obtain ⟨⟨out0, done0⟩, hg, h⟩ := Except.exists_of_bind_eq_ok h
    obtain ⟨_, hc, h⟩ := Except.exists_of_bind_eq_ok h
    cases h
    exact ⟨out0, hg, List.forM_except_eq_ok.mp hc, rfl⟩
  · rintro ⟨out0, hg, hc, rfl⟩
    simp only [assemble, hg, bind, Except.bind, List.forM_except_eq_ok.mpr hc]
    rfl

/-- Every slot of every assembled structure holds a variable or a nested structure. -/
theorem assemble_filled {vars : List BoundVariable} {declared : List (String × Descriptor)}
    {out : List Assembly} {done : List BoundVariable}
    (h : assemble vars declared = .ok (out, done)) : ∀ s ∈ out, s.Filled := by
  obtain ⟨out0, -, hc, rfl⟩ := assemble_eq_ok.mp h
  intro s hs
  obtain ⟨s0, hs0, rfl⟩ := List.mem_map.mp hs
  exact (filled_of_complete s0 (hc s0 hs0)).define

/-- Every structure that `assemble` returns, and every structure nested in it, describes its
slots and has a registered type tree for its type; and a slot holding a variable is typed by
that variable's wire type, with one list level per dimension of the variable and a leaf kind its
native kind travels as. -/
theorem assemble_describes {vars : List BoundVariable} {declared : List (String × Descriptor)}
    {out : List Assembly} {done : List BoundVariable}
    (hvars : ∀ b ∈ vars, b.Checked) (hdecl : ∀ p ∈ declared, p.2.Registered)
    (h : assemble vars declared = .ok (out, done)) :
    ∀ s ∈ out, ∀ t ∈ s.tree, t.Describes ∧ t.descriptor.Registered ∧
      ∀ sl ∈ t.slots, ∀ n, sl.2.2.1 = some n →
        ∃ b ∈ done, b.name = n ∧ b.type = some sl.2.1 ∧ sl.2.1.depth = b.shape.length ∧
          Kind.compatible b.kind sl.2.1.leafOf.kind = true := by
  obtain ⟨out0, hg, -, rfl⟩ := assemble_eq_ok.mp h
  have hD := gather_described hdecl vars [] [] hvars (by simp) hg
  obtain ⟨hG, -⟩ := gather_gathered vars [] [] [] Gathered.nil rfl hg
  intro s hs t ht
  obtain ⟨s0, hs0, rfl⟩ := List.mem_map.mp hs
  rw [tree_define] at ht
  obtain ⟨t0, ht0, rfl⟩ := List.mem_map.mp ht
  have hS : Sound (structured ([] ++ vars)) t0 := (hG.sound s0 hs0).of_mem_tree t0 ht0
  -- the tree of a structure in the tree lies within it
  have hsub : ∀ t ∈ t0.tree, t.Declares ∧ Sound (structured ([] ++ vars)) t := fun t ht =>
    have ht' := mem_tree_trans s0 ht0 ht
    ⟨(hD s0 hs0).declares t ht', (hG.sound s0 hs0).of_mem_tree t ht'⟩
  refine ⟨(hD s0 hs0).declares t0 ht0 |>.describes_define hS, registered_define t0 hsub,
    fun sl hsl n hn => ?_⟩
  obtain ⟨b, hb, hname, htype, hcheck⟩ := SlotTyped.define
    (fun sl hsl => (hD s0 hs0).typed t0 ht0 sl hsl) hS sl hsl n hn
  exact ⟨b, hb, hname, htype, BoundVariable.check_eq_ok_iff.mp hcheck⟩

end Layout

end CoSimBridge
