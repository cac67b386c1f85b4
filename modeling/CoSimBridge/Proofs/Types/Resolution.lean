import Mathlib
import CoSimBridge.Types.Registry
import CoSimBridge.Proofs.Types.Canonical
import CoSimBridge.Proofs.Except
/-!
# Resolving a registry

Structs and enumerations are declared first and resolved afterwards. A member type names a
struct `b` (`Registry.target?`) when its leaf, looked through lists, is a custom name that some
struct carries; structs come before enumerations. `Refers r a b` is the graph of these names
between structs, and a member type is dangling (`DanglingType`) when its custom name is neither
a struct nor an enumeration.

For every registry that successful declarations build (`Registry.Built`, member types read from
type tokens), `resolveAll` is exact (`resolveAll_exact`): it fails with an unresolved type
exactly when some member type dangles; otherwise it fails with a cyclic type exactly when the
graph has a cycle, and then the reported path is the depth-first search path from the struct the
search started at, through distinct structs, back to one of them (`Lasso`); and when it succeeds,
every member type of every struct is resolved.

The reported path need not start at the struct it returns to: with `A` referring to `B` and `B`
to itself, the search from `A` reports `[A B B]` (`cycle_report_keeps_search_root`).
-/

namespace CoSimBridge
set_option autoImplicit false

/-! ## Lists -/

theorem List.forall₂_imp_mem {α β : Type} {R S : α → β → Prop} :
    ∀ {l₁ : List α} {l₂ : List β}, List.Forall₂ R l₁ l₂ →
      (∀ a ∈ l₁, ∀ b ∈ l₂, R a b → S a b) → List.Forall₂ S l₁ l₂
  | [], [], .nil, _ => .nil
  | _ :: _, _ :: _, .cons hab hrest, h =>
    .cons (h _ (by simp) _ (by simp) hab)
      (forall₂_imp_mem hrest fun a ha b hb => h a (by simp [ha]) b (by simp [hb]))

/-- Looking a key up in two related lists finds related entries, when the key reads the same in
related entries. -/
theorem List.find?_rel {α β : Type} {R : α → β → Prop} {p : α → Bool} {q : β → Bool}
    (hpq : ∀ a b, R a b → p a = q b) :
    ∀ {l₁ : List α} {l₂ : List β}, List.Forall₂ R l₁ l₂ → Option.Rel R (l₁.find? p) (l₂.find? q)
  | [], [], .nil => .none
  | a :: _, b :: _, .cons hab hrest => by
    rw [List.find?_cons, List.find?_cons, hpq a b hab]
    cases q b
    · exact find?_rel hpq hrest
    · exact .some hab

theorem List.exists_of_forall₂_mem_left {α β : Type} {R : α → β → Prop} :
    ∀ {l₁ : List α} {l₂ : List β}, List.Forall₂ R l₁ l₂ → ∀ a ∈ l₁, ∃ b ∈ l₂, R a b
  | [], [], .nil, _, ha => by cases ha
  | _ :: _, b :: _, .cons hab hrest, a, ha => by
    rcases List.mem_cons.1 ha with rfl | ha
    · exact ⟨b, by simp, hab⟩
    · obtain ⟨b', hb', hab'⟩ := exists_of_forall₂_mem_left hrest a ha
      exact ⟨b', by simp [hb'], hab'⟩

theorem Option.map_eq_of_rel {α β γ : Type} {R : α → β → Prop} {f : α → γ} {g : β → γ}
    (hfg : ∀ a b, R a b → f a = g b) : ∀ {o₁ : Option α} {o₂ : Option β}, Option.Rel R o₁ o₂ →
      o₁.map f = o₂.map g
  | _, _, .none => rfl
  | _, _, .some hab => by simp [hfg _ _ hab]

theorem List.filterMap_eq_of_forall₂ {α β γ : Type} {R : α → β → Prop} {f : α → Option γ}
    {g : β → Option γ} (hfg : ∀ a b, R a b → f a = g b) :
    ∀ {l₁ : List α} {l₂ : List β}, List.Forall₂ R l₁ l₂ → l₁.filterMap f = l₂.filterMap g
  | [], [], .nil => rfl
  | _ :: _, _ :: _, .cons hab hrest => by
    simp [List.filterMap_cons, hfg _ _ hab, filterMap_eq_of_forall₂ hfg hrest]

theorem List.map_eq_of_forall₂ {α β γ : Type} {R : α → β → Prop} {f : α → γ} {g : β → γ}
    (hfg : ∀ a b, R a b → f a = g b) {l₁ : List α} {l₂ : List β} (h : List.Forall₂ R l₁ l₂) :
    l₁.map f = l₂.map g := by
  simpa using filterMap_eq_of_forall₂ (f := fun a => some (f a)) (g := fun b => some (g b))
    (fun a b hab => by rw [hfg a b hab]) h

/-- A list that repeats an element has a prefix that ends by repeating one of the distinct
elements before it. -/
theorem List.exists_prefix_repeat {α : Type} [DecidableEq α] :
    ∀ {l : List α}, ¬ l.Nodup → ∃ q x, q ++ [x] <+: l ∧ q.Nodup ∧ x ∈ q := by
  intro l
  induction l using List.reverseRecOn with
  | nil => simp
  | append_singleton l y ih =>
    intro hl
    by_cases hn : l.Nodup
    · have hy : y ∈ l := by
        by_contra hy
        exact hl (List.nodup_append.2 ⟨hn, by simp, fun a ha b hb hab => hy (by simp_all)⟩)
      exact ⟨l, y, List.prefix_refl _, hn, hy⟩
    · obtain ⟨q, x, hq, hnd, hx⟩ := ih hn
      exact ⟨q, x, hq.trans (List.prefix_append _ _), hnd, hx⟩

/-! ## Cycles as walks -/

/-- A walk that comes back to one of its nodes closes a cycle through that node. -/
theorem transGen_of_walk_back {α : Type} {R : α → α → Prop} {l : List α} {x : α}
    (hc : (l ++ [x]).IsChain R) (hx : x ∈ l) : Relation.TransGen R x x := by
  obtain ⟨l₁, l₂, rfl⟩ := List.append_of_mem hx
  have hsuf : (x :: (l₂ ++ [x])).IsChain R := hc.suffix (by simp)
  obtain ⟨y, rest, hyr⟩ : ∃ y rest, l₂ ++ [x] = y :: rest := List.exists_cons_of_ne_nil (by simp)
  rw [hyr] at hsuf
  have hlast : (y :: rest).getLast (by simp) = x := by simp [← hyr]
  exact Relation.TransGen.head' (List.isChain_cons_cons.1 hsuf).1
    (List.relationReflTransGen_of_exists_isChain_cons rest hsuf.tail hlast)

/-- A cycle through `a` gives a walk from `a` through distinct nodes that steps back onto one of
them. -/
theorem exists_walk_back_of_transGen {α : Type} [DecidableEq α] {R : α → α → Prop} {a : α}
    (h : Relation.TransGen R a a) :
    ∃ q x, (a :: q ++ [x]).IsChain R ∧ (a :: q).Nodup ∧ x ∈ a :: q := by
  obtain ⟨c, hac, hca⟩ := Relation.TransGen.head'_iff.1 h
  obtain ⟨l, hcl, hlast⟩ := List.exists_isChain_cons_of_relationReflTransGen hca
  have hchain : (a :: c :: l).IsChain R := List.IsChain.cons_cons hac hcl
  have hdup : ¬ (a :: c :: l).Nodup := by
    rw [List.nodup_cons]
    exact fun h => h.1 (hlast ▸ List.getLast_mem _)
  obtain ⟨q₀, x, hpre, hnd, hx⟩ := List.exists_prefix_repeat hdup
  obtain ⟨a', q, rfl⟩ := List.exists_cons_of_ne_nil (List.ne_nil_of_mem hx)
  obtain ⟨t, ht⟩ := hpre
  have ha : a' = a := by simpa using congrArg List.head? ht
  subst ha
  exact ⟨q, x, hchain.prefix ⟨t, ht⟩, hnd, hx⟩

namespace Registry

/-! ## Registries built by declarations -/

/-- The registries that successful declarations build from the empty one, every member type of a
struct read from a type token. -/
inductive Built : Registry → Prop
  | empty : Built Registry.empty
  | addStruct {r r' : Registry} {s : StructDef} {origin : String} : Built r →
      (∀ m ∈ s.members, ∃ tok, Descriptor.parse tok = .ok m.2) →
      r.addStruct s origin = .ok r' → Built r'
  | addEnum {r r' : Registry} {e : EnumDef} {origin : String} : Built r →
      r.addEnum e origin = .ok r' → Built r'

/-- The names of the registered structs, in the order of their declarations. -/
def registered (r : Registry) : List String := r.structs.map (·.def_.name)

theorem findStruct?_eq_none {r : Registry} {n : String} :
    r.findStruct? n = none ↔ n ∉ r.registered := by
  simp [findStruct?, registered, List.find?_eq_none]

theorem findStruct?_eq_some {r : Registry} {n : String} {e : StructEntry}
    (h : r.findStruct? n = some e) : e ∈ r.structs ∧ e.def_.name = n := by
  have hmem := List.mem_of_find?_eq_some h
  have hname := List.find?_some h
  exact ⟨hmem, by simpa using hname⟩

theorem struct?_eq_none {r : Registry} {n : String} : r.struct? n = none ↔ n ∉ r.registered := by
  simp [struct?, findStruct?_eq_none]

theorem name_of_struct? {r : Registry} {n : String} {s : StructDef} (h : r.struct? n = some s) :
    s.name = n := by
  obtain ⟨e, he, rfl⟩ := Option.map_eq_some_iff.1 h
  exact (findStruct?_eq_some he).2

theorem mem_registered_of_struct? {r : Registry} {n : String} {s : StructDef}
    (h : r.struct? n = some s) : n ∈ r.registered := by
  by_contra hn
  rw [← struct?_eq_none] at hn
  simp [hn] at h

theorem addStruct_ok {r r' : Registry} {s : StructDef} {origin : String}
    (h : r.addStruct s origin = .ok r') :
    r.findStruct? s.name = none ∧ r' = { r with structs := r.structs ++ [⟨s, origin⟩] } := by
  unfold addStruct at h
  split at h
  · cases h
  · rename_i hnone
    dsimp only at h
    split at h
    · cases h
    · split at h
      · cases h
      · exact ⟨hnone, (Except.ok.inj h).symm⟩

theorem addEnum_structs {r r' : Registry} {e : EnumDef} {origin : String}
    (h : r.addEnum e origin = .ok r') : r'.structs = r.structs := by
  unfold addEnum at h
  split at h
  · split at h
    · cases Except.ok.inj h; rfl
    · cases h
  · split at h
    · cases h
    · cases Except.ok.inj h; rfl

/-- Declarations keep struct names distinct, since a taken name is refused. -/
theorem Built.nodup {r : Registry} (h : r.Built) : r.registered.Nodup := by
  induction h with
  | empty => simp [registered, Registry.empty]
  | addStruct _ _ hadd ih =>
    obtain ⟨hnone, rfl⟩ := addStruct_ok hadd
    have hfresh := findStruct?_eq_none.1 hnone
    simp only [registered, List.map_append, List.map_cons, List.map_nil] at ih hfresh ⊢
    exact List.nodup_append.2 ⟨ih, by simp, by simpa using hfresh⟩
  | addEnum _ hadd ih => simpa [registered, addEnum_structs hadd] using ih

/-- Every member type of a declared struct is a tree that reading a token gives. -/
theorem Built.parsed {r : Registry} (h : r.Built) :
    ∀ e ∈ r.structs, ∀ m ∈ e.def_.members, m.2.Parsed := by
  induction h with
  | empty => simp [Registry.empty]
  | addStruct _ hparse hadd ih =>
    obtain ⟨-, rfl⟩ := addStruct_ok hadd
    intro e he m hm
    rcases List.mem_append.1 he with he | he
    · exact ih e he m hm
    · obtain ⟨tok, htok⟩ := hparse m (by simp_all)
      exact Descriptor.parsed_of_parse htok
  | addEnum _ hadd ih => rwa [addEnum_structs hadd]

/-! ## What member types name -/

/-- The struct that the leaf of a member type names: a custom leaf whose name a registered
struct carries. Lists and optional marks are looked through, and structs come before
enumerations. -/
def target? (r : Registry) (d : Descriptor) : Option String :=
  match d.leafOf with
  | .leaf _ .custom n _ => if n ∈ r.registered then some n else none
  | _ => none

/-- A member type whose leaf is a custom name that is neither a struct nor an enumeration. -/
def DanglingType (r : Registry) (d : Descriptor) : Prop :=
  d.leafOf.kind = .custom ∧ d.leafOf.name ∉ r.registered ∧ r.enum? d.leafOf.name = none

/-- Some member type of a registered struct dangles. -/
def Dangling (r : Registry) : Prop :=
  ∃ e ∈ r.structs, ∃ m ∈ e.def_.members, r.DanglingType m.2

/-- Struct `a` refers to struct `b`: a member type of `a` names `b`. -/
def Refers (r : Registry) (a b : String) : Prop :=
  ∃ s, r.struct? a = some s ∧ ∃ m ∈ s.members, r.target? m.2 = some b

/-- Some struct contains itself, directly or through other structs. -/
def Cyclic (r : Registry) : Prop := ∃ a, Relation.TransGen r.Refers a a

/-- A walk along references through the distinct structs `l` that ends at `x`, one of them; from
`x`'s place in `l` on, the walk is a cycle. -/
def Lasso (r : Registry) (l : List String) (x : String) : Prop :=
  (l ++ [x]).IsChain r.Refers ∧ l.Nodup ∧ x ∈ l

/-- `d'` is `d` resolved against the names of `r`: `d` does not dangle, every custom name of `d'`
is bound, and its leaf is bound to the struct that `d` names. -/
def Resolves (r : Registry) (d d' : Descriptor) : Prop :=
  ¬ r.DanglingType d ∧ d'.isResolved = true ∧ d'.leafOf.structDef?.map StructDef.name = r.target? d

theorem ne_custom_of_alias {k : Kind} (hk : k ∈ Kind.aliases.map Prod.snd) : k ≠ .custom := by
  obtain ⟨a, ha, rfl⟩ := List.mem_map.1 hk
  have hall : ∀ a ∈ Kind.aliases, a.2 ≠ .custom := by decide
  exact hall a ha

/-- Resolving a tree read from a token succeeds exactly on trees that do not dangle, and binds the
leaf to the struct it names. -/
theorem resolve_ok_of_parsed {r : Registry} {o : String} {d : Descriptor} (hd : d.Parsed) :
    ∀ {d'}, r.resolve o d = .ok d' → r.Resolves d d' := by
  induction hd with
  | @list opt e _ ih =>
    intro d' h
    cases he : r.resolve o e with
    | error f => simp [resolve, he, Except.map] at h
    | ok e' =>
      simp only [resolve, he, Except.map, Except.ok.injEq] at h
      subst h
      have hres := ih he
      exact hres
  | @primitive opt k hk =>
    intro d' h
    have hk' := ne_custom_of_alias hk
    simp only [resolve, bne_iff_ne, ne_eq, hk', not_false_eq_true, ite_true,
      Except.ok.injEq] at h
    subst h
    refine ⟨fun hdang => hk' hdang.1, by simp [Descriptor.isResolved, hk'], ?_⟩
    cases k <;> simp_all [Descriptor.leafOf, Descriptor.structDef?, target?]
  | @custom opt n _ _ =>
    intro d' h
    cases hs : r.struct? n with
    | some s =>
      simp only [resolve, bne_self_eq_false, Bool.false_eq_true, ↓reduceIte, hs,
        Except.ok.injEq] at h
      subst h
      have hn := mem_registered_of_struct? hs
      refine ⟨fun hdang => hdang.2.1 hn, rfl, ?_⟩
      simp [Descriptor.leafOf, Descriptor.structDef?, target?, hn, name_of_struct? hs]
    | none =>
      have hn := struct?_eq_none.1 hs
      cases he : r.enum? n with
      | some en =>
        simp only [resolve, bne_self_eq_false, Bool.false_eq_true, ↓reduceIte, hs, he,
          Except.ok.injEq] at h
        subst h
        refine ⟨fun hdang => by simp_all [DanglingType, Descriptor.leafOf, Descriptor.name],
          rfl, ?_⟩
        simp [Descriptor.leafOf, Descriptor.structDef?, target?, hn]
      | none => simp [resolve, hs, he] at h

/-- A failure to resolve a tree read from a token is an unresolved type, and the tree dangles. -/
theorem resolve_error_of_parsed {r : Registry} {o : String} {d : Descriptor} (hd : d.Parsed) :
    ∀ {f}, r.resolve o d = .error f →
      r.DanglingType d ∧ ∃ msg, f = Fault.configurationf o .unresolvedType msg := by
  induction hd with
  | @list opt e _ ih =>
    intro f h
    cases he : r.resolve o e with
    | error f' =>
      simp only [resolve, he, Except.map, Except.error.injEq] at h
      subst h
      exact ih he
    | ok e' => simp [resolve, he, Except.map] at h
  | @primitive opt k hk =>
    intro f h
    simp [resolve, ne_custom_of_alias hk] at h
  | @custom opt n _ _ =>
    intro f h
    cases hs : r.struct? n with
    | some s => simp [resolve, hs] at h
    | none =>
      cases he : r.enum? n with
      | some en => simp [resolve, hs, he] at h
      | none =>
        simp only [resolve, bne_self_eq_false, Bool.false_eq_true, ↓reduceIte, hs, he,
          Except.error.injEq] at h
        exact ⟨⟨rfl, struct?_eq_none.1 hs, he⟩, _, h.symm⟩

/-! ## Resolving the structs in turn -/

theorem target?_congr {r r' : Registry} (h : r.registered = r'.registered) (d : Descriptor) :
    r.target? d = r'.target? d := by
  simp [target?, h]

theorem danglingType_congr {r r' : Registry} (h : r.registered = r'.registered)
    (he : r.enums = r'.enums) (d : Descriptor) : r.DanglingType d ↔ r'.DanglingType d := by
  simp [DanglingType, enum?, findEnum?, h, he]

theorem resolves_congr {r r' : Registry} (h : r.registered = r'.registered)
    (he : r.enums = r'.enums) (d d' : Descriptor) : r.Resolves d d' ↔ r'.Resolves d d' := by
  simp [Resolves, danglingType_congr h he, target?_congr h]

/-- Resolving the members of one struct in turn: the first member that dangles stops it with an
unresolved type; otherwise every member is resolved. -/
theorem resolveStructs_go {r : Registry} {e : StructEntry} :
    ∀ (done ms : List (String × Descriptor)), (∀ m ∈ ms, m.2.Parsed) →
      (∀ f, (resolveStructs.go r e done ms).2 = some f →
        (∃ m ∈ ms, r.DanglingType m.2) ∧ ∃ o msg, f = Fault.configurationf o .unresolvedType msg) ∧
      ((resolveStructs.go r e done ms).2 = none → ∃ ms', (resolveStructs.go r e done ms).1 = done ++ ms' ∧
        List.Forall₂ (fun m m' => m.1 = m'.1 ∧ r.Resolves m.2 m'.2) ms ms')
  | done, [], _ => by simp [resolveStructs.go]
  | done, (m, d) :: ms, hp => by
    have hd : d.Parsed := hp (m, d) (by simp)
    have hms : ∀ x ∈ ms, x.2.Parsed := fun x hx => hp x (by simp [hx])
    cases h : r.resolve (e.origin ++ ".members[" ++ m ++ "]") d with
    | error f =>
      obtain ⟨hdang, msg, rfl⟩ := resolve_error_of_parsed hd h
      simp only [resolveStructs.go, h, Option.some.injEq, reduceCtorEq, false_implies, and_true]
      exact fun f hf => ⟨⟨(m, d), by simp, hdang⟩, _, msg, hf.symm⟩
    | ok d' =>
      have hres := resolve_ok_of_parsed hd h
      obtain ⟨ihf, ihn⟩ := resolveStructs_go (done ++ [(m, d')]) ms hms
      simp only [resolveStructs.go, h]
      refine ⟨fun f hf => ?_, fun hn => ?_⟩
      · obtain ⟨⟨x, hx, hdx⟩, rest⟩ := ihf f hf
        exact ⟨⟨x, by simp [hx], hdx⟩, rest⟩
      · obtain ⟨ms', heq, hall⟩ := ihn hn
        exact ⟨(m, d') :: ms', by simp [heq], .cons ⟨rfl, hres⟩ hall⟩

/-- `e'` is the entry `e` with every member type resolved against the names of `r`. -/
def ResolvedEntry (r : Registry) (e e' : StructEntry) : Prop :=
  e'.origin = e.origin ∧ e'.def_.name = e.def_.name ∧
    List.Forall₂ (fun m m' => m.1 = m'.1 ∧ r.Resolves m.2 m'.2) e.def_.members e'.def_.members

/-- A declared entry `e` partway through resolution: resolved against the names of `r₀` once its
name is done, else as declared. -/
def Staged (r₀ : Registry) (done : List String) (e e' : StructEntry) : Prop :=
  if e.def_.name ∈ done then ResolvedEntry r₀ e e' else e' = e

/-- Resolution partway through the struct names: every struct is staged, and the enumerations
are unchanged. -/
def Partway (r₀ : Registry) (done : List String) (r : Registry) : Prop :=
  r.enums = r₀.enums ∧ List.Forall₂ (Staged r₀ done) r₀.structs r.structs

namespace Partway

variable {r₀ r : Registry} {done : List String}

theorem start (r₀ : Registry) : Partway r₀ [] r₀ :=
  ⟨rfl, List.forall₂_same.2 fun _ _ => by simp [Staged]⟩

theorem name_eq {e e' : StructEntry} (h : Staged r₀ done e e') : e'.def_.name = e.def_.name := by
  unfold Staged at h
  split at h
  · exact h.2.1
  · rw [h]

theorem registered (h : Partway r₀ done r) : r.registered = r₀.registered := by
  unfold Registry.registered
  exact (List.map_eq_of_forall₂ (R := Staged r₀ done) (fun _ _ hab => (name_eq hab).symm) h.2).symm

/-- Looking a struct up partway through finds the declared entry, resolved if it is done. -/
theorem findStruct? (h : Partway r₀ done r) (n : String) :
    Option.Rel (Staged r₀ done) (r₀.findStruct? n) (r.findStruct? n) :=
  List.find?_rel (fun _ _ hab => by rw [name_eq hab]) h.2

/-- A struct not yet done is found partway through as it was declared. -/
theorem findStruct?_of_not_done (h : Partway r₀ done r) {n : String} (hn : n ∉ done)
    {e : StructEntry} (he : r.findStruct? n = some e) : r₀.findStruct? n = some e := by
  have hr := h.findStruct? n
  rw [he] at hr
  cases h₀ : r₀.findStruct? n with
  | none => rw [h₀] at hr; cases hr
  | some e₀ =>
    rw [h₀] at hr
    cases hr with
    | some hrel =>
      rw [Staged, (findStruct?_eq_some h₀).2, if_neg hn] at hrel
      rw [hrel]

/-- Resolving the members of a struct not yet done, found under its name, moves it to `done`. -/
theorem setStruct (h : Partway r₀ done r) (hnd : r₀.registered.Nodup) {n : String}
    (hn : n ∉ done) {e : StructEntry} (he : r.findStruct? n = some e)
    {ms' : List (String × Descriptor)}
    (hms : List.Forall₂ (fun m m' => m.1 = m'.1 ∧ r₀.Resolves m.2 m'.2) e.def_.members ms') :
    Partway r₀ (done ++ [n]) (r.setStruct n (.mk n ms')) := by
  have he₀ := h.findStruct?_of_not_done hn he
  obtain ⟨hmem₀, hname₀⟩ := findStruct?_eq_some he₀
  refine ⟨h.1, List.forall₂_map_right_iff.2 (List.forall₂_imp_mem h.2 fun a hamem b _ hab => ?_)⟩
  have hab_name := name_eq hab
  by_cases hb : b.def_.name = n
  · -- the one entry named `n` is `e`, as declared
    have ha : a.def_.name = n := hab_name ▸ hb
    rw [Staged, if_neg (ha ▸ hn)] at hab
    subst b
    have hae : a = e := List.inj_on_of_nodup_map hnd hamem hmem₀ (by rw [ha, hname₀])
    subst hae
    simp only [Staged, List.mem_append, List.mem_singleton, ha, or_true, if_true,
      beq_self_eq_true]
    exact ⟨rfl, ha.symm, hms⟩
  · have ha : a.def_.name ≠ n := hab_name ▸ hb
    simp only [Staged, List.mem_append, List.mem_singleton, ha, or_false, beq_iff_eq, hb,
      if_false]
    exact hab

end Partway

/-- Resolving the named structs in turn from partway: it fails with an unresolved type only when a
member type dangles, and when it succeeds the named structs are resolved. -/
theorem resolveStructs_spec {r₀ : Registry} (h₀ : r₀.Built) :
    ∀ (names done : List String) (r : Registry), Partway r₀ done r → (done ++ names).Nodup →
      (∀ n ∈ names, n ∈ r₀.registered) →
      ((r.resolveStructs names).2 = .ok () → Partway r₀ (done ++ names) (r.resolveStructs names).1) ∧
      (∀ f, (r.resolveStructs names).2 = .error f →
        r₀.Dangling ∧ ∃ o msg, f = Fault.configurationf o .unresolvedType msg)
  | [], done, r, h, _, _ => by simpa [resolveStructs] using h
  | n :: rest, done, r, h, hnd, hreg => by
    have hn : n ∉ done := fun hn => (List.nodup_append.1 hnd).2.2 n hn n (by simp) rfl
    obtain ⟨e, he⟩ : ∃ e, r.findStruct? n = some e := by
      cases hf : r.findStruct? n with
      | none =>
        rw [findStruct?_eq_none, h.registered] at hf
        exact absurd (hreg n (by simp)) hf
      | some e => exact ⟨e, rfl⟩
    have he₀ := h.findStruct?_of_not_done hn he
    have hparsed : ∀ m ∈ e.def_.members, m.2.Parsed := h₀.parsed e (findStruct?_eq_some he₀).1
    obtain ⟨hfail, hok⟩ := resolveStructs_go (r := r) (e := e) [] e.def_.members hparsed
    simp only [resolveStructs, he]
    rcases hgo : resolveStructs.go r e [] e.def_.members with ⟨members, failure⟩
    rw [hgo] at hfail hok
    cases failure with
    | some f =>
      obtain ⟨⟨m, hm, hdang⟩, o, msg, rfl⟩ := hfail f rfl
      refine ⟨by simp, fun f' hf' => ?_⟩
      cases hf'
      refine ⟨⟨e, (findStruct?_eq_some he₀).1, m, hm, ?_⟩, o, msg, rfl⟩
      exact (danglingType_congr h.registered h.1 _).1 hdang
    | none =>
      obtain ⟨ms', hms', hall⟩ := hok rfl
      simp only [List.nil_append] at hms'
      subst hms'
      have hall₀ : List.Forall₂ (fun m m' => m.1 = m'.1 ∧ r₀.Resolves m.2 m'.2) e.def_.members
          members := hall.imp fun _ _ hx => ⟨hx.1, (resolves_congr h.registered h.1 _ _).1 hx.2⟩
      have h' := h.setStruct h₀.nodup hn he hall₀
      have ih := resolveStructs_spec h₀ rest (done ++ [n]) _ h' (by simpa using hnd)
        fun x hx => hreg x (by simp [hx])
      simpa using ih

/-! ## The search for structs that contain themselves -/

/-- Struct `a` is bound to a definition whose member leaves are bound to struct `b`. -/
def BoundTo (r : Registry) (a b : String) : Prop := ∃ s, r.struct? a = some s ∧ b ∈ referenced s

theorem not_mem_of_findCycle_ok {r : Registry} {fuel : Nat} {x : String} {stack : List String}
    (h : r.findCycle (fuel + 1) x stack = .ok ()) : x ∉ stack := by
  intro hx
  simp [findCycle, hx] at h

/-- A search that fails reports a path that extends the stack, walks along bindings through
distinct structs, and steps back onto one of them. -/
theorem findCycle_error {r : Registry} :
    ∀ {fuel : Nat} {n : String} {stack : List String} {f : Fault},
      r.findCycle fuel n stack = .error f → (stack ++ [n]).IsChain r.BoundTo → stack.Nodup →
      ∃ l x, stack ++ [n] <+: l ++ [x] ∧ (l ++ [x]).IsChain r.BoundTo ∧ l.Nodup ∧ x ∈ l ∧
        f = r.cycleFault l x
  | 0, _, _, _, h, _, _ => by cases h
  | fuel + 1, n, stack, f, h, hchain, hnd => by
    unfold findCycle at h
    by_cases hn : stack.contains n
    · -- the search came back to the stack
      rw [if_pos hn] at h
      cases h
      exact ⟨stack, n, List.prefix_refl _, hchain, hnd, List.contains_iff_mem.1 hn, rfl⟩
    · rw [if_neg hn] at h
      cases hs : r.struct? n with
      | none => rw [hs] at h; cases h
      | some s =>
        rw [hs] at h
        obtain ⟨m, hm, hfm⟩ := List.forM_except_eq_error h
        have hchain' : (stack ++ [n] ++ [m]).IsChain r.BoundTo :=
          List.isChain_append.2 ⟨hchain, List.isChain_singleton m, by simp [BoundTo, hs, hm]⟩
        have hn' : n ∉ stack := by simpa [List.contains_iff_mem] using hn
        have hnd' : (stack ++ [n]).Nodup :=
          List.nodup_append.2 ⟨hnd, by simp, fun a ha b hb hab => hn' (by simp_all)⟩
        obtain ⟨l, x, hpre, hc, hl, hx, rfl⟩ := findCycle_error hfm hchain' hnd'
        exact ⟨l, x, (List.prefix_append _ _).trans hpre, hc, hl, hx, rfl⟩

/-- A search that succeeds, with fuel for a path through every struct, leaves no walk from `n`
through distinct structs off the stack that steps back onto the stack or the walk. -/
theorem findCycle_ok {r : Registry} :
    ∀ {fuel : Nat} {n : String} {stack : List String}, r.findCycle fuel n stack = .ok () →
      stack.Nodup → (∀ y ∈ stack, y ∈ r.registered) →
      r.registered.length + 1 ≤ stack.length + fuel →
      ∀ q x, (n :: q ++ [x]).IsChain r.BoundTo → (stack ++ n :: q).Nodup → x ∉ stack ++ n :: q
  | 0, n, stack, _, hnd, hreg, hfuel, _, _, _, _ => by
    -- the stack cannot hold more distinct structs than there are
    have := hnd.length_le_of_subset hreg
    omega
  | fuel + 1, n, stack, h, hnd, hreg, hfuel, q, x, hchain, hqnd => by
    have hn : n ∉ stack := fun hn => (List.nodup_append.1 hqnd).2.2 n hn n (by simp) rfl
    obtain ⟨y, rest, hyr⟩ : ∃ y rest, q ++ [x] = y :: rest := List.exists_cons_of_ne_nil (by simp)
    obtain ⟨s, hs, hy⟩ : r.BoundTo n y := by
      rw [List.cons_append, hyr] at hchain
      exact (List.isChain_cons_cons.1 hchain).1
    simp only [findCycle, List.contains_iff_mem, hn, if_false, hs] at h
    have hall := List.forM_except_eq_ok.1 h
    have hnd' : (stack ++ [n]).Nodup := (List.nodup_append.1 (by simpa using hqnd)).1
    have hreg' : ∀ z ∈ stack ++ [n], z ∈ r.registered := fun z hz => by
      rcases List.mem_append.1 hz with hz | hz
      · exact hreg z hz
      · rw [List.mem_singleton.1 hz]
        exact mem_registered_of_struct? hs
    cases q with
    | nil =>
      -- one step from `n` to `x`, so `x` is off the stack by the search one level down
      simp only [List.nil_append, List.cons.injEq] at hyr
      have hx : x ∈ referenced s := hyr.1 ▸ hy
      have hlen := hnd'.length_le_of_subset hreg'
      simp only [List.length_append, List.length_singleton] at hlen
      obtain ⟨fuel', rfl⟩ : ∃ fuel', fuel = fuel' + 1 := ⟨fuel - 1, by omega⟩
      simpa using not_mem_of_findCycle_ok (hall x hx)
    | cons m q' =>
      simp only [List.cons_append, List.cons.injEq] at hyr
      have hm : m ∈ referenced s := hyr.1 ▸ hy
      have ih := findCycle_ok (hall m hm) hnd' hreg' (by simp; omega) q' x
        (by simpa using hchain.tail) (by simpa using hqnd)
      simpa using ih

/-! ## Once every struct is resolved -/

namespace Partway

variable {r₀ r : Registry} {done : List String}

theorem origin_eq {e e' : StructEntry} (h : Staged r₀ done e e') : e'.origin = e.origin := by
  unfold Staged at h
  split at h
  · exact h.1
  · rw [h]

/-- Resolution keeps the declarations that failures are reported about. -/
theorem cycleFault_eq (h : Partway r₀ done r) (l : List String) (x : String) :
    r.cycleFault l x = r₀.cycleFault l x := by
  have horigin : ∀ s, (r.findStruct? s).map (·.origin) = (r₀.findStruct? s).map (·.origin) :=
    fun s => (Option.map_eq_of_rel (R := Staged r₀ done) (fun _ _ hab => (origin_eq hab).symm)
      (h.findStruct? s)).symm
  simp only [cycleFault, horigin]

/-- Once every name is done, every entry is resolved. -/
theorem resolved (h : Partway r₀ done r) (hall : ∀ x ∈ r₀.registered, x ∈ done) :
    List.Forall₂ (ResolvedEntry r₀) r₀.structs r.structs :=
  List.forall₂_imp_mem h.2 fun a ha _ _ hab => by
    rwa [Staged, if_pos (hall _ (List.mem_map_of_mem ha))] at hab

theorem not_dangling (h : Partway r₀ done r) (hall : ∀ x ∈ r₀.registered, x ∈ done) :
    ¬ r₀.Dangling := by
  rintro ⟨e₀, he₀, m, hm, hdang⟩
  obtain ⟨e, -, hrel⟩ := List.exists_of_forall₂_mem_left (h.resolved hall) e₀ he₀
  obtain ⟨m', -, hmm⟩ := List.exists_of_forall₂_mem_left hrel.2.2 m hm
  exact hmm.2.1 hdang

theorem allResolved (h : Partway r₀ done r) (hall : ∀ x ∈ r₀.registered, x ∈ done) :
    ∀ e ∈ r.structs, ∀ m ∈ e.def_.members, m.2.isResolved = true := by
  intro e he m hm
  obtain ⟨e₀, -, hrel⟩ := List.exists_of_forall₂_mem_left (h.resolved hall).flip e he
  obtain ⟨m₀, -, hmm⟩ := List.exists_of_forall₂_mem_left hrel.2.2.flip m hm
  exact hmm.2.2.1

theorem referenced_eq {e e' : StructEntry} (h : ResolvedEntry r₀ e e') :
    referenced e'.def_ = e.def_.members.filterMap fun m => r₀.target? m.2 := by
  unfold referenced
  refine (List.filterMap_eq_of_forall₂ (fun m m' hmm => ?_) h.2.2).symm
  obtain ⟨-, -, -, htarget⟩ := hmm
  rw [← htarget]

/-- Once every name is done, the bindings are the references the declarations name. -/
theorem boundTo_iff (h : Partway r₀ done r) (hall : ∀ x ∈ r₀.registered, x ∈ done)
    (a b : String) : r.BoundTo a b ↔ r₀.Refers a b := by
  have hrel := List.find?_rel (p := (·.def_.name == a)) (q := (·.def_.name == a))
    (fun _ _ hab => by rw [hab.2.1]) (h.resolved hall)
  unfold BoundTo Refers struct? Registry.findStruct?
  generalize r₀.structs.find? (·.def_.name == a) = o₀ at hrel ⊢
  generalize r.structs.find? (·.def_.name == a) = o at hrel ⊢
  cases hrel with
  | none => simp
  | some hab => simp [referenced_eq hab, List.mem_filterMap]

end Partway

/-! ## Rebinding -/

theorem isResolved_rebind (r : Registry) : ∀ d : Descriptor, (r.rebind d).isResolved = d.isResolved
  | .list o e => by simp [rebind, Descriptor.isResolved, isResolved_rebind r e]
  | .leaf o k n b => by
    cases b with
    | struct s => cases h : r.struct? s.name <;> simp [rebind, h, Descriptor.isResolved]
    | unbound => rfl
    | enum e => rfl

/-- Rebinding keeps every member type resolved. -/
theorem allResolved_rebindPasses {r : Registry}
    (h : ∀ e ∈ r.structs, ∀ m ∈ e.def_.members, m.2.isResolved = true) :
    ∀ k, ∀ e ∈ (r.rebindPasses k).structs, ∀ m ∈ e.def_.members, m.2.isResolved = true := by
  intro k
  induction k generalizing r with
  | zero => exact h
  | succ k ih =>
    refine ih fun e he m hm => ?_
    simp only [rebindPass, List.mem_map] at he
    obtain ⟨e₀, he₀, rfl⟩ := he
    simp only [StructDef.members, List.mem_map] at hm
    obtain ⟨m₀, hm₀, rfl⟩ := hm
    rw [isResolved_rebind]
    exact h e₀ he₀ m₀ hm₀

/-! ## Resolving every struct -/

theorem unresolved_ne_cycleFault (r : Registry) (o msg : String) (l : List String) (x : String) :
    Fault.configurationf o .unresolvedType msg ≠ r.cycleFault l x := by
  simp [cycleFault, Fault.configurationf, Fault.configuration]

/-- What `resolveAll` answers, by whether a member type dangles and whether a struct contains
itself. -/
theorem resolveAll_cases {r : Registry} (hr : r.Built) :
    (r.Dangling → ∃ o msg, r.resolveAll.2 = .error (Fault.configurationf o .unresolvedType msg)) ∧
    (¬ r.Dangling → r.Cyclic → ∃ l x, r.Lasso l x ∧ r.resolveAll.2 = .error (r.cycleFault l x)) ∧
    (¬ r.Dangling → ¬ r.Cyclic → r.resolveAll.2 = .ok () ∧
      ∀ e ∈ r.resolveAll.1.structs, ∀ m ∈ e.def_.members, m.2.isResolved = true) := by
  have hperm : r.structNames.Perm r.registered := List.mergeSort_perm _ _
  have hnames : ∀ n ∈ r.structNames, n ∈ r.registered := fun n hn => hperm.subset hn
  obtain ⟨hok, herr⟩ := resolveStructs_spec hr r.structNames [] r (Partway.start r)
    (by simpa using hperm.nodup_iff.2 hr.nodup) hnames
  have hall : ∀ x ∈ r.registered, x ∈ [] ++ r.structNames := fun x hx => by
    simpa using hperm.symm.subset hx
  unfold resolveAll
  dsimp only
  rcases hres : r.resolveStructs r.structNames with ⟨r', _ | ⟨⟩⟩
  · -- resolving the members failed on a dangling member type
    rw [hres] at herr
    obtain ⟨hd, o, msg, rfl⟩ := herr _ rfl
    exact ⟨fun _ => ⟨o, msg, rfl⟩, fun h => absurd hd h, fun h => absurd hd h⟩
  · dsimp only
    rw [hres] at hok
    have hp := hok rfl
    have hrefers : r'.BoundTo = r.Refers := by
      funext a b
      exact propext (hp.boundTo_iff hall a b)
    -- a failed search reports a lasso of the declared references
    have hlasso : ∀ f, (r.structNames.forM fun n => r'.findCycle (r'.structs.length + 2) n []) =
        .error f → ∃ l x, r.Lasso l x ∧ f = r.cycleFault l x := by
      intro f hf
      obtain ⟨n, -, hn⟩ := List.forM_except_eq_error hf
      obtain ⟨l, x, -, hc, hl, hx, rfl⟩ := findCycle_error hn (by simp) List.nodup_nil
      rw [hrefers] at hc
      exact ⟨l, x, ⟨hc, hl, hx⟩, hp.cycleFault_eq l x⟩
    refine ⟨fun h => absurd h (hp.not_dangling hall), fun _ hcyc => ?_, fun _ hnc => ?_⟩
    · -- a struct on a cycle makes its own search fail
      obtain ⟨a, ha⟩ := hcyc
      rw [← hrefers] at ha
      obtain ⟨q, x, hc, hnd, hx⟩ := exists_walk_back_of_transGen ha
      have hsearch : r'.findCycle (r'.structs.length + 2) a [] ≠ .ok () := fun hok' =>
        findCycle_ok hok' List.nodup_nil (by simp) (by simp [registered]) q x hc hnd
          (by simpa using hx)
      have ha' : a ∈ r.structNames := by
        obtain ⟨c, ⟨s, hs, -⟩, -⟩ := Relation.TransGen.head'_iff.1 ha
        exact hperm.symm.subset (hp.registered ▸ mem_registered_of_struct? hs)
      cases hf : r.structNames.forM fun n => r'.findCycle (r'.structs.length + 2) n [] with
      | error f =>
        obtain ⟨l, x, hl, rfl⟩ := hlasso f hf
        exact ⟨l, x, hl, rfl⟩
      | ok u => exact absurd (List.forM_except_eq_ok.1 hf a ha') hsearch
    · cases hf : r.structNames.forM fun n => r'.findCycle (r'.structs.length + 2) n [] with
      | error f =>
        obtain ⟨l, x, hl, -⟩ := hlasso f hf
        exact absurd ⟨x, transGen_of_walk_back hl.1 hl.2.2⟩ hnc
      | ok u => exact ⟨rfl, allResolved_rebindPasses (hp.allResolved hall) _⟩

/-- Resolving a registry is exact. It fails with an unresolved type exactly when a member type
dangles. Otherwise it fails with a cyclic type exactly when some struct contains itself, and then
it reports a lasso: the search path through distinct structs back onto one of them, about the
declaration of the struct the search started from. When it succeeds, every member type of every
struct is resolved. -/
theorem resolveAll_exact {r : Registry} (hr : r.Built) :
    ((∃ o msg, r.resolveAll.2 = .error (Fault.configurationf o .unresolvedType msg)) ↔
      r.Dangling) ∧
    ((∃ l x, r.Lasso l x ∧ r.resolveAll.2 = .error (r.cycleFault l x)) ↔
      ¬ r.Dangling ∧ r.Cyclic) ∧
    (r.resolveAll.2 = .ok () ↔ ¬ r.Dangling ∧ ¬ r.Cyclic) ∧
    (r.resolveAll.2 = .ok () →
      ∀ e ∈ r.resolveAll.1.structs, ∀ m ∈ e.def_.members, m.2.isResolved = true) := by
  obtain ⟨hdang, hcyc, hfine⟩ := resolveAll_cases hr
  -- the three answers exclude each other, so each case of the registry decides the answer
  have hunres : ∀ o msg, r.resolveAll.2 = .error (Fault.configurationf o .unresolvedType msg) →
      r.Dangling := by
    intro o msg h
    by_contra hnd
    by_cases hc : r.Cyclic
    · obtain ⟨l, x, -, h'⟩ := hcyc hnd hc
      rw [h', Except.error.injEq] at h
      exact unresolved_ne_cycleFault r o msg l x h.symm
    · rw [(hfine hnd hc).1] at h
      cases h
  have hok : r.resolveAll.2 = .ok () → ¬ r.Dangling ∧ ¬ r.Cyclic := by
    intro h
    have hnd : ¬ r.Dangling := fun hd => by
      obtain ⟨o, msg, h'⟩ := hdang hd
      rw [h'] at h
      cases h
    refine ⟨hnd, fun hc => ?_⟩
    obtain ⟨l, x, -, h'⟩ := hcyc hnd hc
    rw [h'] at h
    cases h
  refine ⟨⟨fun ⟨o, msg, h⟩ => hunres o msg h, hdang⟩,
    ⟨fun ⟨l, x, hl, h⟩ => ⟨fun hd => ?_, x, transGen_of_walk_back hl.1 hl.2.2⟩,
      fun ⟨hnd, hc⟩ => hcyc hnd hc⟩,
    ⟨hok, fun ⟨hnd, hnc⟩ => (hfine hnd hnc).1⟩, fun h => (hfine (hok h).1 (hok h).2).2⟩
  obtain ⟨o, msg, h'⟩ := hdang hd
  rw [h', Except.error.injEq] at h
  exact unresolved_ne_cycleFault r o msg l x h

/-- `A` refers to `B` and `B` to itself: a registry that declarations build, on which the search
from `A` finds the cycle at `B`. -/
theorem resolveAll_exact_self_reference :
    let r : Registry := ⟨[⟨.mk "A" [("b", .leaf false .custom "B" .unbound)], "structs[0]"⟩,
      ⟨.mk "B" [("b", .leaf false .custom "B" .unbound)], "structs[1]"⟩], []⟩;
    r.Built ∧
    (((∃ o msg, r.resolveAll.2 = .error (Fault.configurationf o .unresolvedType msg)) ↔
      r.Dangling) ∧
    ((∃ l x, r.Lasso l x ∧ r.resolveAll.2 = .error (r.cycleFault l x)) ↔
      ¬ r.Dangling ∧ r.Cyclic) ∧
    (r.resolveAll.2 = .ok () ↔ ¬ r.Dangling ∧ ¬ r.Cyclic) ∧
    (r.resolveAll.2 = .ok () →
      ∀ e ∈ r.resolveAll.1.structs, ∀ m ∈ e.def_.members, m.2.isResolved = true)) := by
  intro r
  have hB : (Descriptor.leaf false .custom "B" .unbound).Parsed :=
    .custom ⟨by simp, by unfold Text.Trimmed; decide +kernel, by decide +kernel⟩ (by decide +kernel)
  have hread : ∀ n, ∀ m ∈ (StructDef.mk n [("b", Descriptor.leaf false .custom "B" .unbound)]).members,
      ∃ tok, Descriptor.parse tok = .ok m.2 := by
    intro n
    simpa [StructDef.members] using ⟨_, Descriptor.parse_toToken hB⟩
  have hb : r.Built := .addStruct (.addStruct .empty (hread "A") rfl) (hread "B") rfl
  exact ⟨hb, resolveAll_exact hb⟩

/-- Sorting struct names keeps a list that is already in order. -/
theorem sortStrings_eq_self {l : List String} (hl : l.Pairwise (· ≤ ·)) : sortStrings l = l := by
  have h := List.mergeSort_eq_self (fun a b : String => a ≤ b) hl
  rw [← h]
  unfold sortStrings
  congr
  funext a b
  simp only [← not_lt, decide_not]

/-- The reported path need not be a cycle: with `A` referring to `B` and `B` to itself, the
search from `A` reports `[A B B]` about `A`'s declaration, and `A` lies on no cycle. -/
theorem cycle_report_keeps_search_root :
    let r : Registry := ⟨[⟨.mk "A" [("b", .leaf false .custom "B" .unbound)], "structs[0]"⟩,
      ⟨.mk "B" [("b", .leaf false .custom "B" .unbound)], "structs[1]"⟩], []⟩;
    r.resolveAll.2 = .error (Fault.configurationf "structs[0]" .cyclicType
      ("struct " ++ Text.quote "B" ++ " contains itself via " ++ bracketed ["A", "B", "B"])) ∧
    ¬ Relation.TransGen r.Refers "A" "A" := by
  intro r
  have hnames : r.structNames = ["A", "B"] := sortStrings_eq_self (by decide)
  refine ⟨by unfold resolveAll; rw [hnames]; rfl, fun h => ?_⟩
  -- no struct refers to `A`
  obtain ⟨c, -, hc⟩ := Relation.TransGen.tail'_iff.1 h
  obtain ⟨s, hs, m, hm, ht⟩ := hc
  obtain ⟨e, he, rfl⟩ := Option.map_eq_some_iff.1 hs
  have hmem := List.mem_of_find?_eq_some he
  simp only [r, List.mem_cons, List.not_mem_nil, or_false] at hmem
  rcases hmem with rfl | rfl <;>
    simp [StructDef.members] at hm <;> subst hm <;> simp [target?, registered, Descriptor.leafOf] at ht

end Registry

end CoSimBridge
