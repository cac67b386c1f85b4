import Mathlib
import CoSimBridge.Layout.Assembly
import CoSimBridge.Proofs.Except
/-!
# Assembling structures loses and duplicates nothing

A slot `(m, t, v, u)` of a structure is a member name `m` with its type `t`, the variable `v`
filling it and the nested structure `u`. `Assembly.tree` lists a structure and every structure
nested in it; `varAt` follows a path of member names through nested structures to a slot's
variable.

Placing a variable along the rest of its path (`place`) does one of five things (`Placed`): a
clock joins the clocks of the structure it stops at, a data variable fills a new or an empty slot,
or the variable goes on into a new or an existing nested structure. From that, each placement
adds exactly its own variable, at its own path, and keeps every other one where it was.

`assemble` then returns one structure per root in order of first appearance, whose slots hold
exactly the data variables with structured names and whose clocks are exactly the clocks, every
slot at every depth filled, and every undeclared structure with its slots in the order the
variables first reach them (`assemble_places`).
-/

namespace CoSimBridge
set_option autoImplicit false

namespace Layout

/-- A slot of a structure. -/
abbrev Slot := String × Descriptor × Option String × Option Assembly

namespace Assembly

/-! ## Views of a structure -/

/-- The structure and every structure nested in it, each before those inside it. -/
def tree : Assembly → List Assembly
  | s@(.mk _ _ _ _ slots _) => s :: go slots
where
  go : List Slot → List Assembly
    | [] => []
    | (_, _, _, none) :: rest => go rest
    | (_, _, _, some t) :: rest => tree t ++ go rest

/-- Every slot of the structure and of every structure nested in it holds a variable or a
structure. -/
def Filled (s : Assembly) : Prop :=
  ∀ t ∈ s.tree, ∀ sl ∈ t.slots, sl.2.2.1.isSome ∨ sl.2.2.2.isSome

/-- The variable in the slot that a path of member names reaches through nested structures. -/
def varAt : Assembly → List String → Option String
  | _, [] => none
  | s, [m] => (s.slots.find? (·.1 == m)).bind (·.2.2.1)
  | s, m :: q =>
    match s.slots.find? (·.1 == m) with
    | some (_, _, _, some u) => u.varAt q
    | _ => none

/-- The structures a slot holds: the nested one and those inside it. -/
def slotTree (sl : Slot) : List Assembly := (sl.2.2.2.map tree).getD []

/-- The data variables a slot holds, directly or nested. -/
def slotVars (sl : Slot) : List String :=
  match sl.2.2.2 with
  | none => sl.2.2.1.toList
  | some u => u.variableNames

/-- The clocks of the structure a slot holds. -/
def slotClocks (sl : Slot) : List String := (sl.2.2.2.map allClocks).getD []

@[simp] theorem slots_mk (p : Path) (o : Bool) (d : StructDef) (dec : Bool) (slots : List Slot)
    (clocks : List String) : (Assembly.mk p o d dec slots clocks).slots = slots := rfl

@[simp] theorem withParts_slots (s : Assembly) (slots : List Slot) (clocks : List String) :
    (s.withParts slots clocks).slots = slots := rfl

@[simp] theorem withParts_clocks (s : Assembly) (slots : List Slot) (clocks : List String) :
    (s.withParts slots clocks).clocks = clocks := rfl

@[simp] theorem withParts_path (s : Assembly) (slots : List Slot) (clocks : List String) :
    (s.withParts slots clocks).path = s.path := rfl

@[simp] theorem withParts_declared (s : Assembly) (slots : List Slot) (clocks : List String) :
    (s.withParts slots clocks).declared = s.declared := rfl

theorem tree_go (slots : List Slot) : tree.go slots = slots.flatMap slotTree := by
  induction slots with
  | nil => rfl
  | cons sl rest ih =>
    obtain ⟨m, t, v, _ | u⟩ := sl <;> simp [tree.go, slotTree, ih]

theorem tree_eq (s : Assembly) : s.tree = s :: s.slots.flatMap slotTree := by
  obtain ⟨p, o, d, dec, slots, clocks⟩ := s
  simp [tree, tree_go]

theorem mem_tree {s t : Assembly} :
    t ∈ s.tree ↔ t = s ∨ ∃ sl ∈ s.slots, ∃ u, sl.2.2.2 = some u ∧ t ∈ u.tree := by
  rw [tree_eq]
  simp only [List.mem_cons, List.mem_flatMap, slotTree]
  constructor
  · rintro (h | ⟨sl, hsl, ht⟩)
    · exact .inl h
    · cases hu : sl.2.2.2 with
      | none => simp [hu] at ht
      | some u => exact .inr ⟨sl, hsl, u, hu, by simpa [hu] using ht⟩
  · rintro (h | ⟨sl, hsl, u, hu, ht⟩)
    · exact .inl h
    · exact .inr ⟨sl, hsl, by simpa [hu] using ht⟩

theorem self_mem_tree (s : Assembly) : s ∈ s.tree := mem_tree.mpr (.inl rfl)

theorem variableNames_go (slots : List Slot) : variableNames.go slots = slots.flatMap slotVars := by
  induction slots with
  | nil => rfl
  | cons sl rest ih =>
    obtain ⟨m, t, v, _ | u⟩ := sl <;> simp [variableNames.go, slotVars, ih]

theorem variableNames_eq (s : Assembly) : s.variableNames = s.slots.flatMap slotVars := by
  obtain ⟨p, o, d, dec, slots, clocks⟩ := s
  simp [variableNames, variableNames_go]

theorem allClocks_go (slots : List Slot) : allClocks.go slots = slots.flatMap slotClocks := by
  induction slots with
  | nil => rfl
  | cons sl rest ih =>
    obtain ⟨m, t, v, _ | u⟩ := sl <;> simp [allClocks.go, slotClocks, ih]

theorem allClocks_eq (s : Assembly) : s.allClocks = s.clocks ++ s.slots.flatMap slotClocks := by
  obtain ⟨p, o, d, dec, slots, cl⟩ := s
  simp [allClocks, allClocks_go, Assembly.clocks]

/-- The clocks of a structure and of everything nested in it are the clocks lists of its tree,
one after the other. -/
theorem allClocks_eq_flatMap_tree : ∀ s : Assembly, s.allClocks = s.tree.flatMap clocks
  | .mk p o d dec slots clocks => by
    rw [allClocks_eq, tree_eq]
    simp only [slots_mk, List.flatMap_cons, List.append_cancel_left_eq]
    exact slots_allClocks slots
where
  slots_allClocks : ∀ slots : List Slot,
      slots.flatMap slotClocks = (slots.flatMap slotTree).flatMap Assembly.clocks
    | [] => rfl
    | (m, t, v, none) :: rest => by
      simp [slotClocks, slotTree, slots_allClocks rest]
    | (m, t, v, some u) :: rest => by
      simp [slotClocks, slotTree, allClocks_eq_flatMap_tree u, slots_allClocks rest]

/-! ## Replacing a slot -/

theorem setSlot_append {pre post : List Slot} {name : String} {old : Slot} (sl : Slot)
    (hpre : ∀ x ∈ pre, x.1 ≠ name) (hold : old.1 = name) :
    setSlot name sl (pre ++ old :: post) = pre ++ sl :: post := by
  induction pre with
  | nil => simp [setSlot, hold]
  | cons x pre ih =>
    have hx : (x.1 == name) = false := by simpa using hpre x List.mem_cons_self
    simp only [List.cons_append, setSlot, hx, Bool.false_eq_true, ↓reduceIte, List.cons.injEq,
      true_and]
    exact ih fun y hy => hpre y (List.mem_cons_of_mem x hy)

/-- The first slot of a name splits the slots, and replacing it keeps the rest. -/
theorem setSlot_of_find? {slots : List Slot} {name : String} {old : Slot}
    (h : slots.find? (·.1 == name) = some old) (sl : Slot) :
    ∃ pre post, slots = pre ++ old :: post ∧ (∀ x ∈ pre, x.1 ≠ name) ∧ old.1 = name ∧
      setSlot name sl slots = pre ++ sl :: post := by
  obtain ⟨hold, pre, post, rfl, hpre⟩ := List.find?_eq_some_iff_append.mp h
  simp only [beq_iff_eq] at hold
  have hpre' : ∀ x ∈ pre, x.1 ≠ name := fun x hx => by simpa using hpre x hx
  exact ⟨pre, post, rfl, hpre', hold, setSlot_append sl hpre' hold⟩

theorem find?_setSlot {slots : List Slot} {name m : String}
    {x : Descriptor × Option String × Option Assembly} :
    (setSlot name (name, x) slots).find? (·.1 == m) =
      if m = name then (slots.find? (·.1 == name)).map fun _ => (name, x)
      else slots.find? (·.1 == m) := by
  induction slots with
  | nil => simp [setSlot]
  | cons y rest ih =>
    by_cases hy : y.1 = name
    · by_cases hm : m = name
      · subst hm
        simp [setSlot, hy]
      · have hnm : (name == m) = false := by simpa using Ne.symm hm
        simp [setSlot, hy, hm, hnm]
    · have hy' : (y.1 == name) = false := by simpa using hy
      by_cases hym : y.1 = m
      · subst hym
        simp [setSlot, hy', hy]
      · have hym' : (y.1 == m) = false := by simpa using hym
        simp only [setSlot, hy', Bool.false_eq_true, ↓reduceIte, List.find?_cons, hym', ih]

theorem find?_append_new {slots : List Slot} {name m : String}
    {x : Descriptor × Option String × Option Assembly}
    (hnone : slots.find? (·.1 == name) = none) :
    (slots ++ [(name, x)]).find? (·.1 == m) =
      if m = name then some (name, x) else slots.find? (·.1 == m) := by
  rw [List.find?_append]
  by_cases hm : m = name
  · subst hm
    simp [hnone]
  · have hsm : (name == m) = false := by simpa using Ne.symm hm
    cases slots.find? (·.1 == m) <;> simp [hm, hsm]

theorem map_fst_setSlot {slots : List Slot} {name : String}
    {x : Descriptor × Option String × Option Assembly} :
    (setSlot name (name, x) slots).map (·.1) = slots.map (·.1) := by
  induction slots with
  | nil => rfl
  | cons x rest ih =>
    by_cases hx : x.1 = name
    · simp [setSlot, hx]
    · have hx' : (x.1 == name) = false := by simpa using hx
      simp [setSlot, hx', ih]

end Assembly

/-! ## What placing a variable does -/

theorem BoundVariable.name_of_adopt {b b' : BoundVariable} {d : Descriptor}
    (h : b.adopt d = .ok b') : b'.name = b.name := by
  unfold BoundVariable.adopt at h
  dsimp only at h
  split at h
  · cases h
  · obtain ⟨u, -, h⟩ := Except.exists_of_bind_eq_ok h
    cases h
    rfl

/-- What a successful placement of `b` along the rest of its path does to a structure. -/
inductive Placed (b : BoundVariable) : Assembly → List String → Assembly → Prop
  /-- A clock joins the clocks of the structure where its path ends, or of a declared structure
  with no nested structure to take it further. -/
  | clock {s : Assembly} {name : String} {rest : List String} : b.isClock = true →
      (rest = [] ∨ s.declared = true ∧
        ∀ sl, s.slots.find? (·.1 == name) = some sl → sl.2.2.2 = none) →
      Placed b s (name :: rest) (s.withParts s.slots (s.clocks ++ [b.name]))
  /-- A data variable opens a slot of an undeclared structure. -/
  | add {s : Assembly} {name : String} : b.isClock = false → s.declared = false →
      s.slots.find? (·.1 == name) = none →
      Placed b s [name]
        (s.withParts (s.slots ++ [(name, b.type.getD (.primitive .invalid), some b.name, none)])
          s.clocks)
  /-- A data variable fills an empty slot. -/
  | fill {s : Assembly} {name m : String} {t : Descriptor} : b.isClock = false →
      s.slots.find? (·.1 == name) = some (m, t, none, none) →
      Placed b s [name] (s.withParts (Assembly.setSlot name (name, t, some b.name, none) s.slots)
        s.clocks)
  /-- The variable goes on into a new nested structure of an undeclared structure. -/
  | nest {s inner : Assembly} {name : String} {rest : List String} : rest ≠ [] →
      s.declared = false → s.slots.find? (·.1 == name) = none →
      Placed b (Assembly.fresh (s.path ++ [name]) none) rest inner →
      Placed b s (name :: rest)
        (s.withParts (s.slots ++ [(name, .primitive .invalid, none, some inner)]) s.clocks)
  /-- The variable goes on into the nested structure of a slot. -/
  | enter {s u inner : Assembly} {name m : String} {rest : List String} {t : Descriptor}
      {f : Option String} : rest ≠ [] → s.slots.find? (·.1 == name) = some (m, t, f, some u) →
      Placed b u rest inner →
      Placed b s (name :: rest) (s.withParts (Assembly.setSlot name (name, t, f, some inner) s.slots)
        s.clocks)

/-- A placement that succeeds with fuel to spare is one of the five moves. -/
theorem placed_of_place {b b' : BoundVariable} :
    ∀ (fuel : Nat) (s s' : Assembly) (rest : List String), rest ≠ [] → rest.length < fuel →
      place b s rest fuel = .ok (s', b') → Placed b s rest s'
  | 0, _, _, _, _, hlt, _ => absurd hlt (Nat.not_lt_zero _)
  | n + 1, s, s', rest, hne, hlt, h => by
    obtain ⟨name, rest, rfl⟩ := List.exists_cons_of_ne_nil hne
    cases rest with
    | nil =>
      -- the path ends in this structure
      simp only [place] at h
      split at h
      · rename_i hclock
        cases h
        exact .clock hclock (.inl rfl)
      · rename_i hclock
        simp only [Bool.not_eq_true] at hclock
        split at h
        · rename_i hnone
          split at h
          · cases h
          · rename_i hdec
            cases h
            exact .add hclock (by simpa using hdec) hnone
        · rename_i m t filled nested hfind
          split at h
          · cases h
          · rename_i hnested
            simp only [Option.isSome_iff_ne_none, ne_eq, not_not] at hnested
            subst hnested
            split at h
            · cases h
            · obtain ⟨b₁, hadopt, h⟩ := Except.exists_of_bind_eq_ok h
              cases h
              rw [BoundVariable.name_of_adopt hadopt]
              exact .fill hclock hfind
    | cons next rest =>
      -- the path goes on into a nested structure
      have hlt' : (next :: rest).length < n := by simpa using hlt
      simp only [place] at h
      split at h
      · rename_i hnone
        split at h
        · rename_i hdec
          split at h
          · rename_i hclock
            cases h
            exact .clock hclock (.inr ⟨hdec, fun sl hsl => by simp [hnone] at hsl⟩)
          · cases h
        · rename_i hdec
          obtain ⟨⟨inner, b₁⟩, hplace, h⟩ := Except.exists_of_bind_eq_ok h
          cases h
          exact .nest (List.cons_ne_nil _ _) (by simpa using hdec) hnone
            (placed_of_place n _ _ _ (List.cons_ne_nil _ _) hlt' hplace)
      · rename_i m t f hfind
        split at h
        · rename_i hcd
          simp only [Bool.and_eq_true] at hcd
          cases h
          exact .clock hcd.1 (.inr ⟨hcd.2, fun sl hsl => by rw [hfind] at hsl; cases hsl; rfl⟩)
        · cases h
      · rename_i m t f u hfind
        obtain ⟨⟨inner, b₁⟩, hplace, h⟩ := Except.exists_of_bind_eq_ok h
        cases h
        exact .enter (List.cons_ne_nil _ _) hfind
          (placed_of_place n _ _ _ (List.cons_ne_nil _ _) hlt' hplace)

namespace Assembly

theorem varAt_single (s : Assembly) (m : String) :
    s.varAt [m] = (s.slots.find? (·.1 == m)).bind (·.2.2.1) := rfl

theorem varAt_cons_cons (s : Assembly) (m n : String) (q : List String) :
    s.varAt (m :: n :: q) =
      ((s.slots.find? (·.1 == m)).bind (·.2.2.2)).bind fun u => u.varAt (n :: q) := by
  simp only [varAt]
  cases s.slots.find? (·.1 == m) with
  | none => rfl
  | some sl => obtain ⟨_, _, _, _ | u⟩ := sl <;> rfl

/-- A structure keeps every variable another one reaches by a path when each slot found by name
is found again, with the same variable unless it had none, and with a nested structure that
keeps every variable of the old one. -/
theorem varAt_mono {s s' : Assembly}
    (h : ∀ m sl, s.slots.find? (·.1 == m) = some sl → ∃ sl', s'.slots.find? (·.1 == m) = some sl' ∧
      (sl.2.2.1 = none ∨ sl'.2.2.1 = sl.2.2.1) ∧
      ∀ u, sl.2.2.2 = some u → ∃ u', sl'.2.2.2 = some u' ∧
        ∀ q n, u.varAt q = some n → u'.varAt q = some n) :
    ∀ q n, s.varAt q = some n → s'.varAt q = some n
  | [], _, hq => by simp [varAt] at hq
  | [m], n, hq => by
    rw [varAt_single] at hq ⊢
    obtain ⟨sl, hsl, hv⟩ := Option.bind_eq_some_iff.mp hq
    obtain ⟨sl', hsl', hvar, -⟩ := h m sl hsl
    rcases hvar with hnone | hsame
    · simp [hnone] at hv
    · simp [hsl', hsame, hv]
  | m :: k :: q, n, hq => by
    rw [varAt_cons_cons] at hq ⊢
    obtain ⟨u, hu, hv⟩ := Option.bind_eq_some_iff.mp hq
    obtain ⟨sl, hsl, hsu⟩ := Option.bind_eq_some_iff.mp hu
    obtain ⟨sl', hsl', -, hnest⟩ := h m sl hsl
    obtain ⟨u', hu', hkeep⟩ := hnest u hsu
    simp [hsl', hu', hkeep _ _ hv]

theorem flatMap_perm_of_mid {α β : Type} {f : β → List α} {pre post : List β} {old new : β}
    {x : List α} (h : (f new).Perm (f old ++ x)) :
    ((pre ++ new :: post).flatMap f).Perm ((pre ++ old :: post).flatMap f ++ x) := by
  simp only [List.flatMap_append, List.flatMap_cons, List.append_assoc]
  refine List.Perm.append_left _ ((h.append_right _).trans ?_)
  rw [List.append_assoc]
  exact List.Perm.append_left _ List.perm_append_comm

end Assembly

open Assembly

namespace Placed

variable {b : BoundVariable}

theorem path_declared {s s' : Assembly} {rest : List String} (h : Placed b s rest s') :
    s'.path = s.path ∧ s'.declared = s.declared := by
  cases h <;> exact ⟨rfl, rfl⟩

theorem fresh_variableNames (p : Path) : (fresh p none).variableNames = [] := rfl

theorem fresh_allClocks (p : Path) : (fresh p none).allClocks = [] := rfl

/-- A placement adds the variable to the data variables of the structure, unless it is a
clock. -/
theorem variableNames_perm {s s' : Assembly} {rest : List String} (h : Placed b s rest s') :
    s'.variableNames.Perm (s.variableNames ++ if b.isClock then [] else [b.name]) := by
  induction h with
  | clock hc _ => simp [variableNames_eq, hc]
  | add hc _ _ => simp [variableNames_eq, hc, slotVars]
  | @fill s name m t hc hfind =>
    obtain ⟨pre, post, hs, -, -, hset⟩ := setSlot_of_find? hfind (name, t, some b.name, none)
    rw [variableNames_eq, variableNames_eq, withParts_slots, hset, hs, hc]
    exact flatMap_perm_of_mid (by simp [slotVars])
  | nest _ _ _ _ ih =>
    rw [fresh_variableNames, List.nil_append] at ih
    rw [variableNames_eq, variableNames_eq, withParts_slots, List.flatMap_append]
    exact List.Perm.append_left _ (by simpa [slotVars] using ih)
  | @enter s u inner name m rest t f _ hfind _ ih =>
    obtain ⟨pre, post, hs, -, -, hset⟩ := setSlot_of_find? hfind (name, t, f, some inner)
    rw [variableNames_eq, variableNames_eq s, withParts_slots, hset, hs]
    exact flatMap_perm_of_mid (by simpa [slotVars] using ih)

/-- A placement adds the variable to the clocks of the structure when it is a clock. -/
theorem allClocks_perm {s s' : Assembly} {rest : List String} (h : Placed b s rest s') :
    s'.allClocks.Perm (s.allClocks ++ if b.isClock then [b.name] else []) := by
  induction h with
  | clock hc _ =>
    simp only [allClocks_eq, withParts_slots, withParts_clocks, hc, ↓reduceIte,
      List.append_assoc]
    exact List.Perm.append_left _ List.perm_append_comm
  | add hc _ _ => simp [allClocks_eq, hc, slotClocks]
  | @fill s name m t hc hfind =>
    obtain ⟨pre, post, hs, -, -, hset⟩ := setSlot_of_find? hfind (name, t, some b.name, none)
    rw [allClocks_eq, allClocks_eq s, withParts_slots, withParts_clocks, hset, hs, hc]
    simp [slotClocks]
  | nest _ _ _ _ ih =>
    rw [fresh_allClocks, List.nil_append] at ih
    rw [allClocks_eq, allClocks_eq, withParts_slots, withParts_clocks, List.flatMap_append,
      List.append_assoc]
    exact List.Perm.append_left _ (List.Perm.append_left _ (by simpa [slotClocks] using ih))
  | @enter s u inner name m rest t f _ hfind _ ih =>
    obtain ⟨pre, post, hs, -, -, hset⟩ := setSlot_of_find? hfind (name, t, f, some inner)
    rw [allClocks_eq, allClocks_eq s, withParts_slots, withParts_clocks, hset, hs,
      List.append_assoc]
    exact List.Perm.append_left _ (flatMap_perm_of_mid (by simpa [slotClocks] using ih))

/-- A placement keeps every variable where it was. -/
theorem varAt_keep {s s' : Assembly} {rest : List String} (h : Placed b s rest s') :
    ∀ q n, s.varAt q = some n → s'.varAt q = some n := by
  induction h with
  | clock =>
    exact varAt_mono fun m sl hsl => ⟨sl, hsl, .inr rfl, fun u hu => ⟨u, hu, fun _ _ h => h⟩⟩
  | @add s name _ _ hnone =>
    refine varAt_mono fun m sl hsl => ⟨sl, ?_, .inr rfl, fun u hu => ⟨u, hu, fun _ _ h => h⟩⟩
    rw [withParts_slots, find?_append_new hnone]
    have hm : m ≠ name := by
      rintro rfl
      rw [hnone] at hsl
      cases hsl
    simp [hm, hsl]
  | @fill s name m t _ hfind =>
    refine varAt_mono fun k sl hsl => ?_
    rw [withParts_slots, find?_setSlot]
    by_cases hk : k = name
    · -- the slot filled had no variable and no nested structure
      subst hk
      rw [hfind, Option.some.injEq] at hsl
      subst hsl
      exact ⟨(k, t, some b.name, none), by simp [hfind], .inl rfl, fun u hu => by cases hu⟩
    · exact ⟨sl, by simp [hk, hsl], .inr rfl, fun u hu => ⟨u, hu, fun _ _ h => h⟩⟩
  | @nest s inner name rest _ _ hnone _ _ =>
    refine varAt_mono fun m sl hsl => ⟨sl, ?_, .inr rfl, fun u hu => ⟨u, hu, fun _ _ h => h⟩⟩
    rw [withParts_slots, find?_append_new hnone]
    have hm : m ≠ name := by
      rintro rfl
      rw [hnone] at hsl
      cases hsl
    simp [hm, hsl]
  | @enter s u inner name m rest t f _ hfind _ ih =>
    refine varAt_mono fun k sl hsl => ?_
    rw [withParts_slots, find?_setSlot]
    by_cases hk : k = name
    · -- the slot keeps its variable, and its nested structure keeps every variable
      subst hk
      rw [hfind, Option.some.injEq] at hsl
      subst hsl
      exact ⟨(k, t, f, some inner), by simp [hfind], .inr rfl,
        fun u' hu' => by cases hu'; exact ⟨inner, rfl, ih⟩⟩
    · exact ⟨sl, by simp [hk, hsl], .inr rfl, fun u hu => ⟨u, hu, fun _ _ h => h⟩⟩

/-- A data variable ends up in the slot its path reaches. -/
theorem varAt_self {s s' : Assembly} {rest : List String} (h : Placed b s rest s')
    (hc : b.isClock = false) : s'.varAt rest = some b.name := by
  induction h with
  | clock hc' => simp [hc] at hc'
  | @add s name _ _ hnone => simp [varAt_single, find?_append_new hnone]
  | @fill s name m t _ hfind => simp [varAt_single, find?_setSlot, hfind]
  | @nest s inner name rest hne _ hnone _ ih =>
    obtain ⟨k, q, rfl⟩ := List.exists_cons_of_ne_nil hne
    simp [varAt_cons_cons, find?_append_new hnone, ih]
  | @enter s u inner name m rest t f hne hfind _ ih =>
    obtain ⟨k, q, rfl⟩ := List.exists_cons_of_ne_nil hne
    simp [varAt_cons_cons, find?_setSlot, hfind, ih]

end Placed

/-! ## Lists without repeats -/

section EraseDups

variable {α : Type} [BEq α] [LawfulBEq α]

theorem eraseDups_nodup : ∀ l : List α, l.eraseDups.Nodup
  | [] => by simp
  | a :: as => by
    rw [List.eraseDups_cons]
    exact List.nodup_cons.mpr ⟨by simp [List.mem_eraseDups], eraseDups_nodup _⟩
termination_by l => l.length
decreasing_by exact Nat.lt_succ_of_le (List.length_filter_le _ _)

theorem eraseDups_append_of_mem {l : List α} {x : α} (h : x ∈ l) :
    (l ++ [x]).eraseDups = l.eraseDups := by
  simp [List.eraseDups_append, List.removeAll, h]

theorem eraseDups_append_of_not_mem {l : List α} {x : α} (h : x ∉ l) :
    (l ++ [x]).eraseDups = l.eraseDups ++ [x] := by
  simp [List.eraseDups_append, List.removeAll, h, List.eraseDups_cons]

end EraseDups

/-! ## What a variable asks of a structure -/

section Arrivals

variable {p : Path} {b : BoundVariable}

/-- The slot a variable asks the structure at `p` for: the segment after `p` on its path, unless
a clock's path ends there, for such a clock joins the structure's clocks. -/
def arrival (p : Path) (b : BoundVariable) : Option String :=
  if p <+: b.path then
    match b.path.drop p.length with
    | [m] => if b.isClock then none else some m
    | m :: _ => some m
    | [] => none
  else none

/-- The slots the variables `P` ask the structure at `p` for, in order. -/
def arrivals (p : Path) (P : List BoundVariable) : List String := P.filterMap (arrival p)

theorem arrival_of_eq {m : String} {rest : List String} (h : b.path = p ++ m :: rest) :
    arrival p b = if rest = [] ∧ b.isClock = true then none else some m := by
  have hp : p <+: b.path := ⟨m :: rest, h.symm⟩
  have hd : b.path.drop p.length = m :: rest := by simp [h]
  rw [arrival, if_pos hp, hd]
  cases rest with
  | nil => cases b.isClock <;> rfl
  | cons => rfl

theorem arrival_eq_some {m : String} (h : arrival p b = some m) :
    ∃ rest, b.path = p ++ m :: rest ∧ (rest = [] → b.isClock = false) := by
  unfold arrival at h
  split at h
  · obtain ⟨q, hq⟩ := ‹p <+: b.path›
    have hd : b.path.drop p.length = q := by simp [← hq]
    rw [hd] at h
    rcases q with _ | ⟨x, _ | ⟨y, r⟩⟩
    · cases h
    · cases hc : b.isClock <;> simp [hc] at h
      exact ⟨[], by rw [← hq, h], fun _ => rfl⟩
    · cases h
      exact ⟨y :: r, hq.symm, nofun⟩
  · cases h

/-- Whatever asks a nested structure for a slot asked its parent for the nested structure. -/
theorem arrival_parent {m x : String} (h : arrival (p ++ [m]) b = some x) :
    arrival p b = some m := by
  obtain ⟨rest, hpath, -⟩ := arrival_eq_some h
  have := arrival_of_eq (show b.path = p ++ m :: x :: rest by simp [hpath])
  simpa using this

/-- A variable asks nothing of the structures under another segment, nor of any structure below
the one its path ends at. -/
theorem arrival_below {m x : String} {rest q : List String} (h : b.path = p ++ m :: rest)
    (hx : x ≠ m ∨ rest = []) : arrival (p ++ x :: q) b = none := by
  cases hy : arrival (p ++ x :: q) b with
  | none => rfl
  | some y =>
    obtain ⟨r, hr, -⟩ := arrival_eq_some hy
    rw [h] at hr
    simp only [List.append_assoc, List.cons_append, List.append_cancel_left_eq,
      List.cons.injEq] at hr
    rcases hx with hx | hx
    · exact absurd hr.1.symm hx
    · simp [hx] at hr

theorem arrivals_append (P : List BoundVariable) :
    arrivals p (P ++ [b]) = arrivals p P ++ (arrival p b).toList := by
  cases h : arrival p b <;> simp [arrivals, h]

end Arrivals

/-! ## The invariant of placement -/

/-- What placing the variables `P` keeps true of a structure and of every structure nested in
it: a slot holds a variable or a nested structure, never both; a nested structure sits at its
parent's path extended by its slot's name and is declared when its parent is; and the slots of
an undeclared structure are the segments the variables asked it for, in the order of the first
request. -/
inductive Sound (P : List BoundVariable) : Assembly → Prop
  | mk {s : Assembly} :
      (s.declared = false → s.slots.map (·.1) = (arrivals s.path P).eraseDups) →
      (∀ sl ∈ s.slots, sl.2.2.1 = none ∨ sl.2.2.2 = none) →
      (∀ sl ∈ s.slots, ∀ u, sl.2.2.2 = some u →
        u.path = s.path ++ [sl.1] ∧ (s.declared = true → u.declared = true)) →
      (∀ sl ∈ s.slots, ∀ u, sl.2.2.2 = some u → Sound P u) →
      Sound P s

namespace Sound

variable {P : List BoundVariable} {b : BoundVariable} {s u : Assembly}

theorem ordered (h : Sound P s) (hd : s.declared = false) :
    s.slots.map (·.1) = (arrivals s.path P).eraseDups := by
  cases h with
  | mk hord _ _ _ => exact hord hd

theorem single {sl : Slot} (h : Sound P s) (hsl : sl ∈ s.slots) :
    sl.2.2.1 = none ∨ sl.2.2.2 = none := by
  cases h with
  | mk _ hsingle _ _ => exact hsingle sl hsl

theorem nested {sl : Slot} (h : Sound P s) (hsl : sl ∈ s.slots) (hu : sl.2.2.2 = some u) :
    u.path = s.path ++ [sl.1] ∧ (s.declared = true → u.declared = true) ∧ Sound P u := by
  cases h with
  | mk _ _ hpath hsound =>
    exact ⟨(hpath sl hsl u hu).1, (hpath sl hsl u hu).2, hsound sl hsl u hu⟩

theorem names_nodup (h : Sound P s) (hd : s.declared = false) : (s.slots.map (·.1)).Nodup := by
  rw [h.ordered hd]
  exact eraseDups_nodup _

theorem of_mem_tree (h : Sound P s) : ∀ t ∈ s.tree, Sound P t := by
  induction h with
  | mk hord hsingle hpath hsound ih =>
    intro t ht
    rcases mem_tree.mp ht with rfl | ⟨sl, hsl, u, hu, htu⟩
    · exact .mk hord hsingle hpath hsound
    · exact ih sl hsl u hu t htu

theorem prefix_of_mem_tree (h : Sound P s) : ∀ t ∈ s.tree, s.path <+: t.path := by
  induction h with
  | @mk s _ _ hpath _ ih =>
    intro t ht
    rcases mem_tree.mp ht with rfl | ⟨sl, hsl, u, hu, htu⟩
    · exact List.prefix_refl _
    · have hsu : s.path <+: u.path := ⟨[sl.1], (hpath sl hsl u hu).1.symm⟩
      exact hsu.trans (ih sl hsl u hu t htu)

/-- Below a declared structure every structure is declared. -/
theorem declared_of_mem_tree (h : Sound P s) (hd : s.declared = true) :
    ∀ t ∈ s.tree, t.declared = true := by
  induction h with
  | @mk s _ _ hpath _ ih =>
    intro t ht
    rcases mem_tree.mp ht with rfl | ⟨sl, hsl, u, hu, htu⟩
    · exact hd
    · exact ih sl hsl u hu ((hpath sl hsl u hu).2 hd) t htu

/-- A variable that asks no undeclared structure of a tree for anything leaves it sound. -/
theorem frame (h : Sound P s) (hb : ∀ t ∈ s.tree, t.declared = false → arrival t.path b = none) :
    Sound (P ++ [b]) s := by
  induction h with
  | @mk s hord hsingle hpath _ ih =>
    refine .mk (fun hd => ?_) hsingle hpath fun sl hsl u hu =>
      ih sl hsl u hu fun t ht => hb t (mem_tree.mpr (.inr ⟨sl, hsl, u, hu, ht⟩))
    rw [arrivals_append, hb s (self_mem_tree s) hd, Option.toList_none, List.append_nil]
    exact hord hd

/-- The structures under a slot that a variable's path does not enter are unaffected by its
placement: under another name, under the end of its path, or under a declared parent, where
nothing is undeclared. -/
theorem frame_sibling {sl : Slot} {name : String} {rest : List String} (h : Sound P s)
    (hpath : b.path = s.path ++ name :: rest) (hsl : sl ∈ s.slots) (hu : sl.2.2.2 = some u)
    (hne : sl.1 ≠ name ∨ rest = [] ∨ s.declared = true) : Sound (P ++ [b]) u := by
  obtain ⟨hup, hud, hsu⟩ := h.nested hsl hu
  -- a variable that passes the slot by, or stops at it, asks nothing below it
  have hbelow : sl.1 ≠ name ∨ rest = [] → Sound (P ++ [b]) u := fun hx =>
    hsu.frame fun t ht _ => by
      obtain ⟨q, hq⟩ := hsu.prefix_of_mem_tree t ht
      rw [← hq, hup, List.append_assoc, List.singleton_append]
      exact arrival_below hpath hx
  rcases hne with hne | hne | hd
  · exact hbelow (.inl hne)
  · exact hbelow (.inr hne)
  · refine hsu.frame fun t ht ht' => ?_
    rw [hsu.declared_of_mem_tree (hud hd) t ht] at ht'
    cases ht'

end Sound

theorem ne_of_mem_split {β γ : Type} {f : β → γ} {pre post : List β} {old x : β}
    (hnd : ((pre ++ old :: post).map f).Nodup) (hx : x ∈ pre ++ post) : f x ≠ f old := by
  rw [List.map_append, List.map_cons, List.nodup_middle, List.nodup_cons, ← List.map_append] at hnd
  exact fun h => hnd.1 (List.mem_map.mpr ⟨x, hx, h⟩)

theorem fresh_sound {P : List BoundVariable} {p : Path} (h : arrivals p P = []) :
    Sound P (fresh p none) :=
  .mk (fun _ => by show [] = (arrivals p P).eraseDups; rw [h]; rfl)
    (fun _ hsl => by simp [fresh] at hsl) (fun _ hsl => by simp [fresh] at hsl)
    (fun _ hsl => by simp [fresh] at hsl)

namespace Sound

variable {P : List BoundVariable} {b : BoundVariable} {s : Assembly}

theorem withParts {P' : List BoundVariable} {slots : List Slot} {cl : List String}
    (hord : s.declared = false → slots.map (·.1) = (arrivals s.path P').eraseDups)
    (hsingle : ∀ sl ∈ slots, sl.2.2.1 = none ∨ sl.2.2.2 = none)
    (hnest : ∀ sl ∈ slots, ∀ u, sl.2.2.2 = some u →
      u.path = s.path ++ [sl.1] ∧ (s.declared = true → u.declared = true) ∧ Sound P' u) :
    Sound P' (s.withParts slots cl) :=
  .mk hord hsingle (fun sl hsl u hu => ⟨(hnest sl hsl u hu).1, (hnest sl hsl u hu).2.1⟩)
    fun sl hsl u hu => (hnest sl hsl u hu).2.2

/-- No variable asked an undeclared structure for a nested structure it does not have. -/
theorem arrivals_below_eq_nil {name : String} (h : Sound P s) (hd : s.declared = false)
    (hnone : s.slots.find? (·.1 == name) = none) : arrivals (s.path ++ [name]) P = [] := by
  rw [arrivals, List.filterMap_eq_nil_iff]
  intro b' hb'
  cases hx : arrival (s.path ++ [name]) b' with
  | none => rfl
  | some x =>
    have hmem : name ∈ s.slots.map (·.1) := by
      rw [h.ordered hd, List.mem_eraseDups, arrivals, List.mem_filterMap]
      exact ⟨b', hb', arrival_parent hx⟩
    obtain ⟨sl, hsl, hsn⟩ := List.mem_map.mp hmem
    have := List.find?_eq_none.mp hnone sl hsl
    simp [hsn] at this

/-- A clock kept at a structure leaves it sound. -/
theorem clock {name : String} {rest : List String} {cl : List String} (h : Sound P s)
    (hpath : b.path = s.path ++ name :: rest) (hc : b.isClock = true)
    (hwhere : rest = [] ∨ s.declared = true) : Sound (P ++ [b]) (s.withParts s.slots cl) := by
  refine .withParts (fun hd => ?_) (fun sl hsl => h.single hsl) fun sl hsl u hu =>
    ⟨(h.nested hsl hu).1, (h.nested hsl hu).2.1, h.frame_sibling hpath hsl hu (.inr ?_)⟩
  · -- an undeclared structure keeps only a clock whose path ends there, which asks no slot
    have hr : rest = [] := hwhere.resolve_right (by simp [hd])
    rw [arrivals_append, arrival_of_eq hpath, if_pos ⟨hr, hc⟩, Option.toList_none,
      List.append_nil]
    exact h.ordered hd
  · exact hwhere.imp_right id

/-- A new slot asked for by a variable leaves an undeclared structure sound. -/
theorem append {name : String} {rest : List String}
    {x : Descriptor × Option String × Option Assembly} {cl : List String} (h : Sound P s)
    (hpath : b.path = s.path ++ name :: rest) (hask : arrival s.path b = some name)
    (hd : s.declared = false) (hnone : s.slots.find? (·.1 == name) = none)
    (hx : x.2.1 = none ∨ x.2.2 = none)
    (hnew : ∀ u, x.2.2 = some u → u.path = s.path ++ [name] ∧ Sound (P ++ [b]) u) :
    Sound (P ++ [b]) (s.withParts (s.slots ++ [(name, x)]) cl) := by
  have hnot : ∀ sl ∈ s.slots, sl.1 ≠ name := fun sl hsl hsn => by
    have := List.find?_eq_none.mp hnone sl hsl
    simp [hsn] at this
  have hcases : ∀ sl ∈ s.slots ++ [(name, x)], sl = (name, x) ∨ sl ∈ s.slots := fun sl hsl => by
    rcases List.mem_append.mp hsl with hsl | hsl
    · exact .inr hsl
    · exact .inl (List.mem_singleton.mp hsl)
  refine .withParts (fun _ => ?_) (fun sl hsl => ?_) fun sl hsl u hu => ?_
  · have hname : name ∉ arrivals s.path P := by
      rw [← List.mem_eraseDups, ← h.ordered hd]
      intro hmem
      obtain ⟨sl, hsl, hsn⟩ := List.mem_map.mp hmem
      exact hnot sl hsl hsn
    rw [List.map_append, h.ordered hd, arrivals_append, hask, Option.toList_some,
      eraseDups_append_of_not_mem hname]
    rfl
  · rcases hcases sl hsl with rfl | hmem
    · exact hx
    · exact h.single hmem
  · rcases hcases sl hsl with rfl | hmem
    · exact ⟨(hnew u hu).1, fun hd' => absurd hd' (by simp [hd]), (hnew u hu).2⟩
    · exact ⟨(h.nested hmem hu).1, (h.nested hmem hu).2.1,
        h.frame_sibling hpath hmem hu (.inl (hnot sl hmem))⟩

/-- Replacing the slot a variable asked for leaves a structure sound. -/
theorem setSlot {name : String} {rest : List String} {old : Slot}
    {x : Descriptor × Option String × Option Assembly} {cl : List String} (h : Sound P s)
    (hpath : b.path = s.path ++ name :: rest) (hask : arrival s.path b = some name)
    (hfind : s.slots.find? (·.1 == name) = some old) (hx : x.2.1 = none ∨ x.2.2 = none)
    (hnew : ∀ u, x.2.2 = some u →
      u.path = s.path ++ [name] ∧ (s.declared = true → u.declared = true) ∧ Sound (P ++ [b]) u) :
    Sound (P ++ [b]) (s.withParts (Assembly.setSlot name (name, x) s.slots) cl) := by
  obtain ⟨pre, post, hs, -, hold, hset⟩ := setSlot_of_find? hfind (name, x)
  -- the other slots are old ones, and in an undeclared structure they have other names
  have hcases : ∀ sl ∈ Assembly.setSlot name (name, x) s.slots,
      sl = (name, x) ∨ sl ∈ s.slots ∧ (sl.1 ≠ name ∨ rest = [] ∨ s.declared = true) := by
    intro sl hsl
    have hsib : sl ∈ pre ++ post → sl.1 ≠ name ∨ rest = [] ∨ s.declared = true := fun hmem => by
      cases hd : s.declared
      · have hnd := h.names_nodup hd
        rw [hs] at hnd
        exact .inl (hold ▸ ne_of_mem_split hnd hmem)
      · exact .inr (.inr rfl)
    rw [hset] at hsl
    rcases List.mem_append.mp hsl with hpre | hsl
    · exact .inr ⟨by simp [hs, hpre], hsib (List.mem_append_left _ hpre)⟩
    rcases List.mem_cons.mp hsl with rfl | hpost
    · exact .inl rfl
    · exact .inr ⟨by simp [hs, hpost], hsib (List.mem_append_right _ hpost)⟩
  refine .withParts (fun hd => ?_) (fun sl hsl => ?_) fun sl hsl u hu => ?_
  · have hname : name ∈ arrivals s.path P := by
      rw [← List.mem_eraseDups, ← h.ordered hd, hs]
      exact List.mem_map.mpr ⟨old, by simp, hold⟩
    rw [map_fst_setSlot, h.ordered hd, arrivals_append, hask, Option.toList_some,
      eraseDups_append_of_mem hname]
  · rcases hcases sl hsl with rfl | ⟨hmem, -⟩
    · exact hx
    · exact h.single hmem
  · rcases hcases sl hsl with rfl | ⟨hmem, hne⟩
    · exact hnew u hu
    · exact ⟨(h.nested hmem hu).1, (h.nested hmem hu).2.1, h.frame_sibling hpath hmem hu hne⟩

end Sound

/-- Placing a variable along the rest of its path keeps a structure sound. -/
theorem Placed.sound {P : List BoundVariable} {b : BoundVariable} {s s' : Assembly}
    {rest : List String} (h : Placed b s rest s') :
    b.path = s.path ++ rest → Sound P s → Sound (P ++ [b]) s' := by
  induction h with
  | clock hc hwhere =>
    intro hpath hs
    exact hs.clock hpath hc (hwhere.imp id And.left)
  | add hc hd hnone =>
    intro hpath hs
    exact hs.append hpath (by simp [arrival_of_eq hpath, hc]) hd hnone (.inr rfl)
      fun _ hu => nomatch hu
  | fill hc hfind =>
    intro hpath hs
    exact hs.setSlot hpath (by simp [arrival_of_eq hpath, hc]) hfind (.inr rfl)
      fun _ hu => nomatch hu
  | @nest s inner name rest hne hd hnone hinner ih =>
    intro hpath hs
    have hfresh := fresh_sound (hs.arrivals_below_eq_nil hd hnone)
    refine hs.append hpath (by simp [arrival_of_eq hpath, hne]) hd hnone (.inl rfl)
      fun u hu => ?_
    cases hu
    refine ⟨hinner.path_declared.1, ih ?_ hfresh⟩
    rw [hpath]
    show s.path ++ name :: rest = (s.path ++ [name]) ++ rest
    simp
  | @enter s u inner name m rest t f hne hfind hinner ih =>
    intro hpath hs
    have hold := List.mem_of_find?_eq_some hfind
    have hm : m = name := by simpa using List.find?_some hfind
    have hf : f = none := by simpa using hs.single hold
    obtain ⟨hup, hud, hsu⟩ := hs.nested hold rfl
    refine hs.setSlot hpath (by simp [arrival_of_eq hpath, hne]) hfind (.inl hf) fun u' hu' => ?_
    cases hu'
    obtain ⟨hip, hid⟩ := hinner.path_declared
    refine ⟨by rw [hip, hup, hm], fun hd => by rw [hid]; exact hud hd, ih ?_ hsu⟩
    rw [hpath, hup, hm, List.append_assoc, List.singleton_append]

/-! ## Every slot variable -/

namespace Assembly

/-- The variables filling the slots of the structure and of every structure nested in it. -/
def slotVariables (s : Assembly) : List String :=
  s.tree.flatMap fun t => t.slots.filterMap (·.2.2.1)

theorem slotVariables_eq (s : Assembly) :
    s.slotVariables =
      s.slots.filterMap (·.2.2.1) ++ s.slots.flatMap fun sl => (sl.2.2.2.map slotVariables).getD [] := by
  rw [slotVariables, tree_eq, List.flatMap_cons, List.flatMap_assoc]
  congr 2
  funext sl
  obtain ⟨_, _, _, _ | u⟩ := sl <;> rfl

end Assembly

theorem flatMap_perm_filterMap_append {α β : Type} {l : List α} {f h : α → List β}
    {g : α → Option β} (hx : ∀ x ∈ l, (f x).Perm ((g x).toList ++ h x)) :
    (l.flatMap f).Perm (l.filterMap g ++ l.flatMap h) := by
  induction l with
  | nil => simp
  | cons x l ih =>
    have hl := ih fun y hy => hx y (List.mem_cons_of_mem x hy)
    rw [List.flatMap_cons, List.flatMap_cons, List.filterMap_cons]
    refine ((hx x List.mem_cons_self).append hl).trans ?_
    cases g x with
    | none => exact List.perm_append_comm_assoc _ _ _
    | some y => exact (List.perm_append_comm_assoc _ _ _).cons y

/-- In a sound structure the data variables, depth first, are the variables of all its slots:
a slot holding a nested structure holds no variable of its own. -/
theorem Sound.variableNames_perm {P : List BoundVariable} {s : Assembly} (h : Sound P s) :
    s.variableNames.Perm s.slotVariables := by
  induction h with
  | @mk s _ hsingle _ _ ih =>
    rw [variableNames_eq, slotVariables_eq]
    refine flatMap_perm_filterMap_append fun sl hsl => ?_
    rcases hsingle sl hsl with hv | hn
    · cases hu : sl.2.2.2 with
      | none => simp [slotVars, hu, hv]
      | some u => simpa [slotVars, hu, hv] using ih sl hsl u hu
    · simp [slotVars, hn]

/-! ## Structures of declared types -/

theorem ofType_path (p : Path) (d : Descriptor) : (ofType p d).path = p := by
  unfold ofType
  split <;> rfl

theorem exists_of_isStruct {d : Descriptor} (hd : d.isStruct = true) :
    ∃ o n n' ms, d = .leaf o .custom n (.struct (.mk n' ms)) := by
  cases d with
  | list => simp [Descriptor.isStruct, Descriptor.structDef?] at hd
  | leaf o k n bnd =>
    cases k <;> cases bnd <;> simp [Descriptor.isStruct, Descriptor.structDef?] at hd ⊢
    rename_i sd
    obtain ⟨n', ms⟩ := sd
    exact ⟨n', ms, rfl⟩

theorem ofType_declared {p : Path} {d : Descriptor} (hd : d.isStruct = true) :
    (ofType p d).declared = true := by
  obtain ⟨o, n, n', ms, rfl⟩ := exists_of_isStruct hd
  rfl

theorem mem_ofType_go {p : Path} {ms : List (String × Descriptor)} {sl : Slot}
    (h : sl ∈ ofType.go p ms) :
    ∃ mt ∈ ms, sl = (mt.1, mt.2, none,
      if mt.2.isStruct then some (ofType (p ++ [mt.1]) mt.2) else none) := by
  induction ms with
  | nil => simp [ofType.go] at h
  | cons mt ms ih =>
    obtain ⟨m, t⟩ := mt
    simp only [ofType.go, List.mem_cons] at h
    rcases h with rfl | h
    · exact ⟨(m, t), List.mem_cons_self, rfl⟩
    · obtain ⟨mt', hmt', rfl⟩ := ih h
      exact ⟨mt', List.mem_cons_of_mem _ hmt', rfl⟩

/-- A structure made from a struct type holds no variable and no clock, and is sound whatever
was placed before: every structure in it is declared, at its parent's path extended by its
member's name. -/
theorem ofType_blank (P : List BoundVariable) (p : Path) (d : Descriptor)
    (hd : d.isStruct = true) :
    Sound P (ofType p d) ∧ (ofType p d).variableNames = [] ∧ (ofType p d).allClocks = [] := by
  obtain ⟨o, n, n', ms, rfl⟩ := exists_of_isStruct hd
  have hslots : (ofType p (.leaf o .custom n (.struct (.mk n' ms)))).slots = ofType.go p ms := rfl
  have hvar : ∀ sl ∈ ofType.go p ms, sl.2.2.1 = none := fun sl hsl => by
    obtain ⟨mt, -, rfl⟩ := mem_ofType_go hsl
    rfl
  -- every nested structure is made from a member's struct type in turn
  have hnested : ∀ sl ∈ ofType.go p ms, ∀ u, sl.2.2.2 = some u → u.path = p ++ [sl.1] ∧
      u.declared = true ∧ Sound P u ∧ u.variableNames = [] ∧ u.allClocks = [] := by
    intro sl hsl u hu
    obtain ⟨⟨m, t⟩, hmt, rfl⟩ := mem_ofType_go hsl
    by_cases ht : t.isStruct = true
    · simp only [ht, ↓reduceIte, Option.some.injEq] at hu
      subst hu
      exact ⟨ofType_path _ _, ofType_declared ht, ofType_blank P _ t ht⟩
    · simp [ht] at hu
  refine ⟨.mk (fun h => ?_) ?_ ?_ ?_, ?_, ?_⟩
  · rw [ofType_declared hd] at h
    cases h
  · exact fun sl hsl => .inl (hvar sl hsl)
  · exact fun sl hsl u hu => ⟨(hnested sl hsl u hu).1, fun _ => (hnested sl hsl u hu).2.1⟩
  · exact fun sl hsl u hu => (hnested sl hsl u hu).2.2.1
  · rw [variableNames_eq, hslots, List.flatMap_eq_nil_iff]
    intro sl hsl
    cases hu : sl.2.2.2 with
    | none => simp [slotVars, hu, hvar sl hsl]
    | some u => simp [slotVars, hu, (hnested sl hsl u hu).2.2.2.1]
  · rw [allClocks_eq, hslots]
    refine List.append_eq_nil_iff.mpr ⟨rfl, List.flatMap_eq_nil_iff.mpr fun sl hsl => ?_⟩
    cases hu : sl.2.2.2 with
    | none => simp [slotClocks, hu]
    | some u => simp [slotClocks, hu, (hnested sl hsl u hu).2.2.2.2]
termination_by sizeOf d
decreasing_by
  subst_vars
  have hlt := List.sizeOf_lt_of_mem hmt
  simp only [Prod.mk.sizeOf_spec] at hlt
  simp only [Descriptor.leaf.sizeOf_spec, Binding.struct.sizeOf_spec, StructDef.mk.sizeOf_spec]
  omega

/-- A new root structure is blank and sound, provided no variable placed before asked for it. -/
theorem startRoot_blank {declared : List (String × Descriptor)} {r : String} {s : Assembly}
    {P : List BoundVariable} (h : startRoot declared r = .ok s) (hP : arrivals [r] P = []) :
    s.path = [r] ∧ Sound P s ∧ s.variableNames = [] ∧ s.allClocks = [] := by
  unfold startRoot at h
  cases hl : declared.lookup r with
  | none =>
    rw [hl] at h
    dsimp only at h
    cases h
    exact ⟨rfl, fresh_sound hP, rfl, rfl⟩
  | some d =>
    rw [hl] at h
    dsimp only at h
    by_cases hd : d.isStruct = true
    · rw [if_neg (by simp [hd])] at h
      cases h
      exact ⟨ofType_path _ _, ofType_blank P [r] d hd⟩
    · rw [if_pos (by simpa using hd)] at h
      cases h

/-! ## Gathering the variables -/

/-- The variables with structured names: those whose path has at least two segments. -/
def structured (vars : List BoundVariable) : List BoundVariable :=
  vars.filter fun b => 2 ≤ b.path.length

/-- The first segments of the structured names, each once, in order of first appearance. -/
def roots (vars : List BoundVariable) : List String :=
  ((structured vars).map fun b => Path.root b.path).eraseDups

theorem structured_append_of_long {P : List BoundVariable} {b : BoundVariable}
    (hb : 2 ≤ b.path.length) : structured (P ++ [b]) = structured P ++ [b] := by
  simp [structured, hb]

theorem structured_append_of_short {P : List BoundVariable} {b : BoundVariable}
    (hb : b.path.length < 2) : structured (P ++ [b]) = structured P := by
  simp [structured, hb]

theorem path_eq_root_cons {b : BoundVariable} (hb : 2 ≤ b.path.length) :
    b.path = Path.root b.path :: b.path.drop 1 := by
  have hne : b.path ≠ [] := fun h => by simp [h] at hb
  obtain ⟨x, tail, hx⟩ := List.exists_cons_of_ne_nil hne
  rw [hx]
  rfl

/-- What gathering keeps true of its structures once the variables `P` are placed: each sits at
a root and is sound, and between them they hold exactly the data variables and the clocks with
structured names, each reachable from the structure of its root. -/
structure Gathered (P : List BoundVariable) (out : List Assembly) : Prop where
  rooted : ∀ s ∈ out, s.path = [Path.root s.path]
  sound : ∀ s ∈ out, Sound (structured P) s
  vars : (out.flatMap Assembly.variableNames).Perm
    (((structured P).filter fun b => !b.isClock).map BoundVariable.name)
  clocks : (out.flatMap Assembly.allClocks).Perm
    (((structured P).filter BoundVariable.isClock).map BoundVariable.name)
  placed : ∀ b ∈ structured P, b.isClock = false →
    ∃ s ∈ out, s.path = [Path.root b.path] ∧ s.varAt (b.path.drop 1) = some b.name
  clocked : ∀ b ∈ structured P, b.isClock = true →
    ∃ s ∈ out, s.path = [Path.root b.path] ∧ b.name ∈ s.allClocks

/-- A structure of another root is unaffected by a placement. -/
theorem Sound.frame_root {P : List BoundVariable} {b : BoundVariable} {t : Assembly} {r : String}
    (h : Sound P t) (ht : t.path = [r]) (hb : 2 ≤ b.path.length) (hr : r ≠ Path.root b.path) :
    Sound (P ++ [b]) t :=
  h.frame fun t' ht' _ => by
    obtain ⟨q, hq⟩ := h.prefix_of_mem_tree t' ht'
    have key : arrival ([] ++ r :: q) b = none :=
      arrival_below (path_eq_root_cons hb) (.inl hr)
    rw [← hq, ht]
    exact key

namespace Gathered

variable {P : List BoundVariable} {out : List Assembly} {b : BoundVariable}

theorem nil : Gathered [] [] where
  rooted := by simp
  sound := by simp
  vars := by simp [structured]
  clocks := by simp [structured]
  placed := by simp [structured]
  clocked := by simp [structured]

theorem congr {P' : List BoundVariable} (hG : Gathered P out) (hS : structured P' = structured P) :
    Gathered P' out := by
  obtain ⟨h1, h2, h3, h4, h5, h6⟩ := hG
  rw [← hS] at h2 h3 h4 h5 h6
  exact ⟨h1, h2, h3, h4, h5, h6⟩

/-- A blank structure may join the structures. -/
theorem append_blank {s : Assembly} (hG : Gathered P out) (hroot : s.path = [Path.root s.path])
    (hs : Sound (structured P) s) (hv : s.variableNames = []) (hc : s.allClocks = []) :
    Gathered P (out ++ [s]) where
  rooted t ht := by
    rcases List.mem_append.mp ht with ht | ht
    · exact hG.rooted t ht
    · rw [List.mem_singleton.mp ht]
      exact hroot
  sound t ht := by
    rcases List.mem_append.mp ht with ht | ht
    · exact hG.sound t ht
    · rw [List.mem_singleton.mp ht]
      exact hs
  vars := by simpa [hv] using hG.vars
  clocks := by simpa [hc] using hG.clocks
  placed b' hb' hc' :=
    let ⟨t, ht, h1, h2⟩ := hG.placed b' hb' hc'
    ⟨t, List.mem_append_left _ ht, h1, h2⟩
  clocked b' hb' hc' :=
    let ⟨t, ht, h1, h2⟩ := hG.clocked b' hb' hc'
    ⟨t, List.mem_append_left _ ht, h1, h2⟩

/-- Placing a variable into the structure of its root keeps the structures gathered. -/
theorem place {pre post : List Assembly} {s s' : Assembly} (hG : Gathered P (pre ++ s :: post))
    (hlong : 2 ≤ b.path.length) (hs : s.path = [Path.root b.path])
    (hothers : ∀ t ∈ pre ++ post, Path.root t.path ≠ Path.root b.path)
    (hp : Placed b s (b.path.drop 1) s') : Gathered (P ++ [b]) (pre ++ s' :: post) := by
  have hS := structured_append_of_long (P := P) hlong
  have hs' : s'.path = [Path.root b.path] := hp.path_declared.1.trans hs
  have hpath : b.path = s.path ++ b.path.drop 1 := by
    rw [hs]
    exact path_eq_root_cons hlong
  have hmem : ∀ t, t ∈ pre ++ s :: post ↔ t = s ∨ t ∈ pre ++ post := fun t => by
    simp only [List.mem_append, List.mem_cons]
    tauto
  have hmem' : ∀ t, t ∈ pre ++ s' :: post ↔ t = s' ∨ t ∈ pre ++ post := fun t => by
    simp only [List.mem_append, List.mem_cons]
    tauto
  -- a variable placed before is still where it was: in `s'` if it was in `s`
  have hkeep : ∀ t ∈ pre ++ s :: post, ∃ t' ∈ pre ++ s' :: post, t'.path = t.path ∧
      (∀ q n, t.varAt q = some n → t'.varAt q = some n) ∧ t.allClocks ⊆ t'.allClocks := by
    intro t ht
    rcases (hmem t).mp ht with rfl | ht
    · exact ⟨s', (hmem' s').mpr (.inl rfl), hp.path_declared.1, hp.varAt_keep,
        fun c hc => hp.allClocks_perm.symm.subset (List.mem_append_left _ hc)⟩
    · exact ⟨t, (hmem' t).mpr (.inr ht), rfl, fun _ _ h => h, fun _ h => h⟩
  refine ⟨fun t ht => ?_, fun t ht => ?_, ?_, ?_, fun b' hb' hc => ?_, fun b' hb' hc => ?_⟩
  · rcases (hmem' t).mp ht with rfl | ht
    · rw [hs']
      rfl
    · exact hG.rooted t ((hmem t).mpr (.inr ht))
  · rw [hS]
    rcases (hmem' t).mp ht with rfl | ht
    · exact hp.sound hpath (hG.sound s ((hmem s).mpr (.inl rfl)))
    · have htm := (hmem t).mpr (.inr ht)
      exact (hG.sound t htm).frame_root (hG.rooted t htm) hlong (hothers t ht)
  · refine (flatMap_perm_of_mid hp.variableNames_perm).trans
      ((hG.vars.append_right _).trans (List.Perm.of_eq ?_))
    rw [hS]
    cases hc : b.isClock <;> simp [hc]
  · refine (flatMap_perm_of_mid hp.allClocks_perm).trans
      ((hG.clocks.append_right _).trans (List.Perm.of_eq ?_))
    rw [hS]
    cases hc : b.isClock <;> simp [hc]
  · rw [hS] at hb'
    rcases List.mem_append.mp hb' with hb' | hb'
    · obtain ⟨t, ht, h1, h2⟩ := hG.placed b' hb' hc
      obtain ⟨t', ht', hp', hv, -⟩ := hkeep t ht
      exact ⟨t', ht', hp'.trans h1, hv _ _ h2⟩
    · rw [List.mem_singleton.mp hb'] at hc ⊢
      exact ⟨s', (hmem' s').mpr (.inl rfl), hs', hp.varAt_self hc⟩
  · rw [hS] at hb'
    rcases List.mem_append.mp hb' with hb' | hb'
    · obtain ⟨t, ht, h1, h2⟩ := hG.clocked b' hb' hc
      obtain ⟨t', ht', hp', -, hcl⟩ := hkeep t ht
      exact ⟨t', ht', hp'.trans h1, hcl h2⟩
    · rw [List.mem_singleton.mp hb'] at hc ⊢
      refine ⟨s', (hmem' s').mpr (.inl rfl), hs', hp.allClocks_perm.symm.subset ?_⟩
      simp [hc]

/-- The paths of gathered structures are distinct. -/
theorem paths_nodup (hR : out.map Assembly.path = (roots P).map fun r => [r]) :
    (out.map Assembly.path).Nodup := by
  rw [hR]
  exact (eraseDups_nodup _).map fun _ _ h => List.singleton_injective h

/-- A variable whose root has a structure joins it. -/
theorem existing_root {s : Assembly} (hG : Gathered P out)
    (hR : out.map Assembly.path = (roots P).map fun r => [r]) (hlong : 2 ≤ b.path.length)
    (hfind : out.find? (fun t => Path.root t.path == Path.root b.path) = some s) :
    ∃ pre post, out = pre ++ s :: post ∧ s.path = [Path.root b.path] ∧
      (∀ t ∈ pre ++ post, Path.root t.path ≠ Path.root b.path) ∧ roots (P ++ [b]) = roots P := by
  obtain ⟨hroot, pre, post, rfl, -⟩ := List.find?_eq_some_iff_append.mp hfind
  simp only [beq_iff_eq] at hroot
  have hs : s.path = [Path.root b.path] := by
    rw [← hroot]
    exact hG.rooted s (by simp)
  refine ⟨pre, post, rfl, hs, fun t ht hrt => ?_, ?_⟩
  · -- another structure of the same root would repeat a path
    have hne := ne_of_mem_split (paths_nodup hR) ht
    rw [hs, hG.rooted t (by simp at ht ⊢; tauto), hrt] at hne
    exact hne rfl
  · have hmem : Path.root b.path ∈ (structured P).map fun b => Path.root b.path := by
      rw [← List.mem_eraseDups, ← roots]
      have : [Path.root b.path] ∈ (roots P).map fun r => [r] := by
        rw [← hR, ← hs]
        exact List.mem_map_of_mem (by simp)
      simpa using this
    rw [roots, roots, structured_append_of_long hlong, List.map_append, List.map_singleton,
      eraseDups_append_of_mem hmem]

/-- A variable whose root has no structure yet starts a blank one. -/
theorem new_root {declared : List (String × Descriptor)} {s : Assembly} (hG : Gathered P out)
    (hR : out.map Assembly.path = (roots P).map fun r => [r]) (hlong : 2 ≤ b.path.length)
    (hfind : out.find? (fun t => Path.root t.path == Path.root b.path) = none)
    (hstart : startRoot declared (Path.root b.path) = .ok s) :
    s.path = [Path.root b.path] ∧ (∀ t ∈ out, Path.root t.path ≠ Path.root b.path) ∧
      Gathered P (out ++ [s]) ∧ roots (P ++ [b]) = roots P ++ [Path.root b.path] := by
  have hothers : ∀ t ∈ out, Path.root t.path ≠ Path.root b.path := fun t ht hrt => by
    have := List.find?_eq_none.mp hfind t ht
    simp [hrt] at this
  -- no variable placed before has this root
  have hnew : Path.root b.path ∉ (structured P).map fun b => Path.root b.path := by
    intro hmem
    rw [← List.mem_eraseDups, ← roots] at hmem
    have : [Path.root b.path] ∈ out.map Assembly.path := by
      rw [hR]
      exact List.mem_map_of_mem hmem
    obtain ⟨t, ht, htp⟩ := List.mem_map.mp this
    exact hothers t ht (by rw [htp]; rfl)
  have hP : arrivals [Path.root b.path] (structured P) = [] := by
    rw [arrivals, List.filterMap_eq_nil_iff]
    intro b' hb'
    cases hx : arrival [Path.root b.path] b' with
    | none => rfl
    | some x =>
      obtain ⟨rest, hpath, -⟩ := arrival_eq_some hx
      refine absurd (List.mem_map.mpr ⟨b', hb', ?_⟩) hnew
      rw [hpath]
      rfl
  obtain ⟨hs, hsound, hv, hc⟩ := startRoot_blank hstart hP
  refine ⟨hs, hothers, hG.append_blank (by rw [hs]; rfl) hsound hv hc, ?_⟩
  rw [roots, roots, structured_append_of_long hlong, List.map_append, List.map_singleton,
    eraseDups_append_of_not_mem hnew]

end Gathered

theorem map_replace_root {pre post : List Assembly} {s s' : Assembly} {r : String}
    (hs : Path.root s.path = r) (hothers : ∀ t ∈ pre ++ post, Path.root t.path ≠ r) :
    (pre ++ s :: post).map (fun t => if Path.root t.path == r then s' else t) = pre ++ s' :: post := by
  have hkeep : ∀ l : List Assembly, (∀ t ∈ l, Path.root t.path ≠ r) →
      l.map (fun t => if Path.root t.path == r then s' else t) = l := fun l hl =>
    (List.map_congr_left fun t ht => by simp [hl t ht]).trans (List.map_id _)
  rw [List.map_append, List.map_cons, hkeep pre fun t ht => hothers t (List.mem_append_left _ ht),
    hkeep post fun t ht => hothers t (List.mem_append_right _ ht)]
  simp [hs]

/-- One step of gathering: a variable with a plain name passes; one with a structured name is
placed into the structure of its root, found among the structures or started after them, and
the placed structure replaces it. -/
theorem gather_cons_eq_ok {declared : List (String × Descriptor)} {out : List Assembly}
    {done : List BoundVariable} {b : BoundVariable} {vars : List BoundVariable}
    {r : List Assembly × List BoundVariable} (h : gather declared out done (b :: vars) = .ok r) :
    (b.path.length < 2 ∧ gather declared out (done ++ [b]) vars = .ok r) ∨
    (2 ≤ b.path.length ∧ ∃ out₁ s s' b',
      ((out.find? (fun t => Path.root t.path == Path.root b.path) = some s ∧ out₁ = out) ∨
        (out.find? (fun t => Path.root t.path == Path.root b.path) = none ∧
          startRoot declared (Path.root b.path) = .ok s ∧ out₁ = out ++ [s])) ∧
      place b s (b.path.drop 1) (b.path.length + 1) = .ok (s', b') ∧
      gather declared (out₁.map fun t => if Path.root t.path == Path.root b.path then s' else t)
        (done ++ [b']) vars = .ok r) := by
  rw [gather] at h
  split at h
  · exact .inl ⟨‹_›, h⟩
  · refine .inr ⟨by omega, ?_⟩
    dsimp only at h
    split at h
    · rename_i s hfind
      obtain ⟨_, hp, h⟩ := Except.exists_of_bind_eq_ok h
      cases hp
      obtain ⟨⟨s', b'⟩, hplace, h⟩ := Except.exists_of_bind_eq_ok h
      exact ⟨out, s, s', b', .inl ⟨hfind, rfl⟩, hplace, h⟩
    · rename_i hfind
      obtain ⟨s, hstart, h⟩ := Except.exists_of_bind_eq_ok h
      obtain ⟨_, hp, h⟩ := Except.exists_of_bind_eq_ok h
      cases hp
      obtain ⟨⟨s', b'⟩, hplace, h⟩ := Except.exists_of_bind_eq_ok h
      exact ⟨out ++ [s], s, s', b', .inr ⟨hfind, hstart, rfl⟩, hplace, h⟩

/-- Gathering keeps its structures gathered, one for each root in order of first appearance. -/
theorem gather_gathered {declared : List (String × Descriptor)} :
    ∀ (vars P : List BoundVariable) (out : List Assembly) (done : List BoundVariable)
      {out' : List Assembly} {done' : List BoundVariable},
      Gathered P out → out.map Assembly.path = (roots P).map (fun r => [r]) →
      gather declared out done vars = .ok (out', done') →
      Gathered (P ++ vars) out' ∧ out'.map Assembly.path = (roots (P ++ vars)).map fun r => [r]
  | [], P, out, done, _, _, hG, hR, h => by
    cases h
    simpa using ⟨hG, hR⟩
  | b :: vars, P, out, done, out', done', hG, hR, h => by
    rcases gather_cons_eq_ok h with ⟨hshort, h⟩ | ⟨hlong, out₁, s, s', b', hstart, hplace, h⟩
    · have hS := structured_append_of_short (P := P) hshort
      have := gather_gathered vars (P ++ [b]) out (done ++ [b]) (hG.congr hS)
        (by rw [hR, roots, roots, hS]) h
      simpa using this
    · -- the structure of the root, found or started, sits between structures of other roots
      obtain ⟨pre, post, rfl, hs, hothers, hG₁, hR₁⟩ : ∃ pre post, out₁ = pre ++ s :: post ∧
          s.path = [Path.root b.path] ∧ (∀ t ∈ pre ++ post, Path.root t.path ≠ Path.root b.path) ∧
          Gathered P (pre ++ s :: post) ∧
          (pre ++ s :: post).map Assembly.path = (roots (P ++ [b])).map (fun r => [r]) := by
        rcases hstart with ⟨hfind, rfl⟩ | ⟨hfind, hst, rfl⟩
        · obtain ⟨pre, post, rfl, hs, hothers, hroots⟩ := hG.existing_root hR hlong hfind
          exact ⟨pre, post, rfl, hs, hothers, hG, by rw [hR, hroots]⟩
        · obtain ⟨hs, hothers, hG₁, hroots⟩ := hG.new_root hR hlong hfind hst
          exact ⟨out, [], by simp, hs, by simpa using hothers, hG₁, by simp [hR, hroots, hs]⟩
      have hrest : b.path.drop 1 ≠ [] := by
        rw [ne_eq, List.drop_eq_nil_iff]
        omega
      have hp := placed_of_place _ s s' _ hrest (by simp) hplace
      rw [map_replace_root (by rw [hs]; rfl) hothers] at h
      have hR₂ : (pre ++ s' :: post).map Assembly.path = (roots (P ++ [b])).map fun r => [r] := by
        rw [← hR₁]
        simp [hp.path_declared.1]
      simpa using gather_gathered vars (P ++ [b]) _ _ (hG₁.place hlong hs hothers hp) hR₂ h

/-! ## Completing and defining the structures -/

namespace Assembly

theorem filled_iff {s : Assembly} :
    s.Filled ↔ (∀ sl ∈ s.slots, sl.2.2.1.isSome ∨ sl.2.2.2.isSome) ∧
      ∀ sl ∈ s.slots, ∀ u, sl.2.2.2 = some u → u.Filled := by
  constructor
  · intro h
    exact ⟨h s (self_mem_tree s), fun sl hsl u hu t ht =>
      h t (mem_tree.mpr (.inr ⟨sl, hsl, u, hu, ht⟩))⟩
  · rintro ⟨h1, h2⟩ t ht
    rcases mem_tree.mp ht with rfl | ⟨sl, hsl, u, hu, htu⟩
    · exact h1
    · exact h2 sl hsl u hu t htu

mutual

/-- A structure that `complete` accepts is filled at every depth. -/
theorem filled_of_complete : ∀ s : Assembly, s.complete = .ok () → s.Filled
  | .mk p _ _ _ slots _, h => filled_iff.mpr (filled_of_complete_go p slots h)

theorem filled_of_complete_go (p : Path) : ∀ slots : List Slot, complete.go p slots = .ok () →
    (∀ sl ∈ slots, sl.2.2.1.isSome ∨ sl.2.2.2.isSome) ∧
      ∀ sl ∈ slots, ∀ u, sl.2.2.2 = some u → u.Filled
  | [], _ => by simp
  | (_, _, none, none) :: _, h => by cases h
  | (_, _, _, some u) :: rest, h => by
    rw [complete.go] at h
    obtain ⟨_, hu, hrest⟩ := Except.exists_of_bind_eq_ok h
    obtain ⟨h1, h2⟩ := filled_of_complete_go p rest hrest
    refine ⟨by simpa using h1, ?_⟩
    simp only [List.mem_cons, forall_eq_or_imp, Option.some.injEq, forall_eq']
    exact ⟨filled_of_complete u hu, h2⟩
  | (_, _, some _, none) :: rest, h => by
    obtain ⟨h1, h2⟩ := filled_of_complete_go p rest h
    exact ⟨by simpa using h1, by simpa using h2⟩

end

/-- A slot as `define` leaves it: its nested structure defined and, in an undeclared structure,
typed by it. -/
def defineSlot (dec : Bool) : Slot → Slot
  | (m, t, v, some u) => (m, if dec then t else (define u).descriptor, v, some (define u))
  | (m, t, v, none) => (m, t, v, none)

@[simp] theorem defineSlot_fst (dec : Bool) (sl : Slot) : (defineSlot dec sl).1 = sl.1 := by
  obtain ⟨m, t, v, _ | u⟩ := sl <;> rfl

@[simp] theorem defineSlot_var (dec : Bool) (sl : Slot) :
    (defineSlot dec sl).2.2.1 = sl.2.2.1 := by
  obtain ⟨m, t, v, _ | u⟩ := sl <;> rfl

@[simp] theorem defineSlot_nested (dec : Bool) (sl : Slot) :
    (defineSlot dec sl).2.2.2 = sl.2.2.2.map define := by
  obtain ⟨m, t, v, _ | u⟩ := sl <;> rfl

theorem define_go_eq (dec : Bool) (slots : List Slot) :
    define.go dec slots = slots.map (defineSlot dec) := by
  induction slots with
  | nil => rfl
  | cons sl rest ih =>
    obtain ⟨m, t, v, _ | u⟩ := sl <;> simp [define.go, defineSlot, ih]

@[simp] theorem define_path (s : Assembly) : (define s).path = s.path := by
  obtain ⟨p, o, d, dec, slots, cl⟩ := s
  cases dec <;> rfl

@[simp] theorem define_declared (s : Assembly) : (define s).declared = s.declared := by
  obtain ⟨p, o, d, dec, slots, cl⟩ := s
  cases dec <;> rfl

@[simp] theorem define_clocks (s : Assembly) : (define s).clocks = s.clocks := by
  obtain ⟨p, o, d, dec, slots, cl⟩ := s
  cases dec <;> rfl

theorem define_slots (s : Assembly) : (define s).slots = s.slots.map (defineSlot s.declared) := by
  obtain ⟨p, o, d, dec, slots, cl⟩ := s
  cases dec <;> exact define_go_eq _ _

mutual

theorem tree_define : ∀ s : Assembly, (define s).tree = s.tree.map define
  | .mk p o d dec slots clocks => by
    have := tree_define_go dec slots
    cases dec <;> simp [define, tree, this]

theorem tree_define_go (dec : Bool) : ∀ slots : List Slot,
    tree.go (define.go dec slots) = (tree.go slots).map define
  | [] => rfl
  | (m, t, v, some s) :: rest => by
    simp [define.go, tree.go, tree_define s, tree_define_go dec rest]
  | (m, t, v, none) :: rest => by
    simp [define.go, tree.go, tree_define_go dec rest]

end

theorem find?_defineSlot (dec : Bool) (slots : List Slot) (m : String) :
    (slots.map (defineSlot dec)).find? (·.1 == m) = (slots.find? (·.1 == m)).map (defineSlot dec) := by
  rw [List.find?_map]
  congr 2
  funext sl
  simp

theorem varAt_define : ∀ (q : List String) (s : Assembly), (define s).varAt q = s.varAt q
  | [], _ => rfl
  | [m], s => by
    rw [varAt_single, varAt_single, define_slots, find?_defineSlot]
    cases s.slots.find? (·.1 == m) <;> simp
  | m :: n :: q, s => by
    rw [varAt_cons_cons, varAt_cons_cons, define_slots, find?_defineSlot]
    cases s.slots.find? (·.1 == m) with
    | none => rfl
    | some sl =>
      cases hu : sl.2.2.2 with
      | none => simp [hu]
      | some u => simp [hu, varAt_define (n :: q) u]

theorem slotVariables_define (s : Assembly) : (define s).slotVariables = s.slotVariables := by
  rw [slotVariables, slotVariables, tree_define, List.flatMap_map]
  congr 1
  funext t
  rw [define_slots, List.filterMap_map]
  congr 1
  funext sl
  simp

theorem allClocks_define (s : Assembly) : (define s).allClocks = s.allClocks := by
  rw [allClocks_eq_flatMap_tree, allClocks_eq_flatMap_tree, tree_define, List.flatMap_map]
  simp

theorem Filled.define {s : Assembly} (h : s.Filled) : (define s).Filled := by
  intro t' ht' sl' hsl'
  rw [tree_define] at ht'
  obtain ⟨t, ht, rfl⟩ := List.mem_map.mp ht'
  rw [define_slots] at hsl'
  obtain ⟨sl, hsl, rfl⟩ := List.mem_map.mp hsl'
  simpa using h t ht sl hsl

end Assembly

/-! ## Assembling -/

theorem arrival_of_short {p : Path} {b : BoundVariable} (hp : p ≠ []) (hb : b.path.length < 2) :
    arrival p b = none := by
  cases h : arrival p b with
  | none => rfl
  | some m =>
    obtain ⟨rest, hpath, -⟩ := arrival_eq_some h
    have hlen := List.length_pos_of_ne_nil hp
    rw [hpath] at hb
    simp at hb
    omega

/-- Variables with plain names ask nothing of a structure. -/
theorem arrivals_structured {p : Path} (hp : p ≠ []) (vars : List BoundVariable) :
    arrivals p (structured vars) = arrivals p vars := by
  induction vars with
  | nil => rfl
  | cons b vars ih =>
    unfold arrivals structured at *
    by_cases hb : 2 ≤ b.path.length
    · rw [List.filter_cons_of_pos (by simpa using hb)]
      simp only [List.filterMap_cons, ih]
    · rw [List.filter_cons_of_neg (by simpa using hb),
        List.filterMap_cons_none (arrival_of_short hp (by omega)), ih]

/-- Assembling the variables loses and duplicates nothing. There is one structure for each first
segment of a structured name, in order of first appearance. The slots hold exactly the data
variables with structured names, each in the slot its path reaches from the structure of its
root, and the clocks lists hold exactly the clocks with structured names, each in the tree of
its root. Every slot at every depth is filled, and an undeclared structure has its slots in the
order the variables first ask for them. -/
theorem assemble_places {vars : List BoundVariable} {declared : List (String × Descriptor)}
    {out : List Assembly} {done : List BoundVariable}
    (h : assemble vars declared = .ok (out, done)) :
    out.map Assembly.path = (roots vars).map (fun r => [r]) ∧
    (out.flatMap Assembly.slotVariables).Perm
      (((structured vars).filter fun b => !b.isClock).map BoundVariable.name) ∧
    (∀ b ∈ structured vars, b.isClock = false →
      ∃ s ∈ out, s.path = [Path.root b.path] ∧ s.varAt (b.path.drop 1) = some b.name) ∧
    (out.flatMap Assembly.allClocks).Perm
      (((structured vars).filter BoundVariable.isClock).map BoundVariable.name) ∧
    (∀ b ∈ structured vars, b.isClock = true →
      ∃ s ∈ out, s.path = [Path.root b.path] ∧ ∃ t ∈ s.tree, b.name ∈ t.clocks) ∧
    (∀ s ∈ out, s.Filled) ∧
    (∀ s ∈ out, ∀ t ∈ s.tree, t.declared = false →
      t.slots.map (·.1) = (arrivals t.path vars).eraseDups) := by
  obtain ⟨⟨out0, done0⟩, hg, h⟩ := Except.exists_of_bind_eq_ok h
  dsimp only at h
  obtain ⟨_, hc, h⟩ := Except.exists_of_bind_eq_ok h
  cases h
  have hcomplete := List.forM_except_eq_ok.mp hc
  obtain ⟨hG, hR⟩ := gather_gathered vars [] [] [] Gathered.nil rfl hg
  simp only [List.nil_append] at hG hR
  refine ⟨?_, ?_, fun b hb hc => ?_, ?_, fun b hb hc => ?_, fun s hs => ?_,
    fun s hs t ht hd => ?_⟩
  · rw [List.map_map]
    simpa [Function.comp_def] using hR
  · -- the data variables of the gathered structures are their slot variables
    rw [List.flatMap_map]
    simp only [slotVariables_define]
    exact (List.Perm.flatMap_left _ fun s hs => (hG.sound s hs).variableNames_perm.symm).trans
      hG.vars
  · obtain ⟨s, hs, h1, h2⟩ := hG.placed b hb hc
    exact ⟨define s, List.mem_map_of_mem hs, by rw [define_path, h1], by rw [varAt_define, h2]⟩
  · rw [List.flatMap_map]
    simpa [allClocks_define] using hG.clocks
  · obtain ⟨s, hs, h1, h2⟩ := hG.clocked b hb hc
    rw [allClocks_eq_flatMap_tree, List.mem_flatMap] at h2
    obtain ⟨t, ht, htc⟩ := h2
    refine ⟨define s, List.mem_map_of_mem hs, by rw [define_path, h1], define t, ?_, by simpa using htc⟩
    rw [tree_define]
    exact List.mem_map_of_mem ht
  · obtain ⟨s0, hs0, rfl⟩ := List.mem_map.mp hs
    exact (filled_of_complete s0 (hcomplete s0 hs0)).define
  · obtain ⟨s0, hs0, rfl⟩ := List.mem_map.mp hs
    rw [tree_define] at ht
    obtain ⟨t0, ht0, rfl⟩ := List.mem_map.mp ht
    rw [define_declared] at hd
    have hsound := hG.sound s0 hs0
    have hne : t0.path ≠ [] := by
      obtain ⟨q, hq⟩ := hsound.prefix_of_mem_tree t0 ht0
      rw [← hq, hG.rooted s0 hs0]
      simp
    rw [define_slots, List.map_map, define_path, ← arrivals_structured hne]
    simpa [Function.comp_def] using (hsound.of_mem_tree t0 ht0).ordered hd

/-- Three members of `pose`, one of them inside `pose.rot`, arriving around a clock of `pose`
and a variable with a plain name: the members keep the order of arrival, `y` before `x`. -/
theorem assemble_places_pose :
    let v : String → Path → Kind → BoundVariable := fun n p k =>
      { (default : BoundVariable) with fmu := { name := n, vr := 0, kind := k }, path := p }
    let vars := [v "pose.y" ["pose", "y"] .float64, v "speed" ["speed"] .float64,
      v "pose.rot.z" ["pose", "rot", "z"] .float64, v "pose.tick" ["pose", "tick"] .clock,
      v "pose.x" ["pose", "x"] .float64]
    let rot := Assembly.mk ["pose", "rot"] false
      (.mk (Path.join ["pose", "rot"]) [("z", .primitive .invalid)]) false
      [("z", .primitive .invalid, some "pose.rot.z", none)] []
    let out := [Assembly.mk ["pose"] false
      (.mk (Path.join ["pose"])
        [("y", .primitive .invalid), ("rot", rot.descriptor), ("x", .primitive .invalid)]) false
      [("y", .primitive .invalid, some "pose.y", none), ("rot", rot.descriptor, none, some rot),
        ("x", .primitive .invalid, some "pose.x", none)]
      ["pose.tick"]]
    assemble vars [] = .ok (out, vars) ∧
    (out.map Assembly.path = (roots vars).map (fun r => [r]) ∧
    (out.flatMap Assembly.slotVariables).Perm
      (((structured vars).filter fun b => !b.isClock).map BoundVariable.name) ∧
    (∀ b ∈ structured vars, b.isClock = false →
      ∃ s ∈ out, s.path = [Path.root b.path] ∧ s.varAt (b.path.drop 1) = some b.name) ∧
    (out.flatMap Assembly.allClocks).Perm
      (((structured vars).filter BoundVariable.isClock).map BoundVariable.name) ∧
    (∀ b ∈ structured vars, b.isClock = true →
      ∃ s ∈ out, s.path = [Path.root b.path] ∧ ∃ t ∈ s.tree, b.name ∈ t.clocks) ∧
    (∀ s ∈ out, s.Filled) ∧
    (∀ s ∈ out, ∀ t ∈ s.tree, t.declared = false →
      t.slots.map (·.1) = (arrivals t.path vars).eraseDups)) := by
  intro v vars rot out
  have h : assemble vars [] = .ok (out, vars) := rfl
  exact ⟨h, assemble_places h⟩

end Layout

end CoSimBridge
