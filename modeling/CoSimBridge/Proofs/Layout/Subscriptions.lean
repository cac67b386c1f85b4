import CoSimBridge.Proofs.Layout.Writes
import CoSimBridge.Proofs.Layout.Topics
import CoSimBridge.Proofs.Wire.RoundTrip
/-!
# Importing into a subscription of a configured model

A successful import of a payload into a subscription of a configured model updates exactly what
the payload carries (`importTopic_updates_carried`). Each data variable the topic carries takes
the part of the decoded value at its path below the topic, as `Imported` says: it keeps its
value where that part is absent, in itself or in an enclosing optional structure, and otherwise
takes its elements in row-major order, an absent element keeping the variable's element at its
position. Besides those variables only the input clocks of the topic change.

The FMU stores values per value reference, and model variables may share one: a write to one
variable is then a write to all that share its reference. The frame is therefore stated for
models whose variables have distinct references (`importTopic_writes_alias` is a model where
they do not).
-/

namespace CoSimBridge

namespace Layout

open Course Fmu Fmu.Device

/-! ## What assembling leaves for importing -/

theorem Gathered.variableNames_nodup {vars : List BoundVariable} {out : List Assembly}
    (hG : Gathered vars out) (hnd : (vars.map (·.name)).Nodup) :
    (out.flatMap Assembly.variableNames).Nodup :=
  hG.vars.nodup_iff.mpr
    (List.Nodup.sublist ((List.filter_sublist.trans List.filter_sublist).map _) hnd)

section Assembled

variable {vars : List BoundVariable} {declared : List (String × Descriptor)}
  {out : List Assembly} {done : List BoundVariable}

/-- Assembling defines the structures that gathering the variables builds. -/
theorem assemble_gathered (h : assemble vars declared = .ok (out, done)) :
    ∃ out0, Gathered vars out0 ∧ out = out0.map Assembly.define := by
  obtain ⟨out0, hg, -, rfl⟩ := assemble_eq_ok.mp h
  obtain ⟨hG, -⟩ := gather_gathered vars [] [] [] Gathered.nil rfl hg
  exact ⟨out0, by simpa using hG, rfl⟩

/-- No slot of an assembled structure, at any depth, holds both a variable and a structure. -/
theorem assemble_single (h : assemble vars declared = .ok (out, done)) :
    ∀ s ∈ out, ∀ t ∈ s.tree, ∀ sl ∈ t.slots, sl.2.2.1 = none ∨ sl.2.2.2 = none := by
  obtain ⟨out0, hG, rfl⟩ := assemble_gathered h
  intro s' hs' t' ht' sl' hsl'
  obtain ⟨s, hs, rfl⟩ := List.mem_map.mp hs'
  rw [Assembly.tree_define] at ht'
  obtain ⟨t, ht, rfl⟩ := List.mem_map.mp ht'
  rw [Assembly.define_slots] at hsl'
  obtain ⟨sl, hsl, rfl⟩ := List.mem_map.mp hsl'
  simpa using ((hG.sound s hs).of_mem_tree t ht).single hsl

/-- An assembled structure holds each variable once, when names are distinct. -/
theorem assemble_variableNames_nodup (hnd : (vars.map (·.name)).Nodup)
    (h : assemble vars declared = .ok (out, done)) : ∀ s ∈ out, s.variableNames.Nodup := by
  obtain ⟨out0, hG, rfl⟩ := assemble_gathered h
  intro s' hs'
  obtain ⟨s, hs, rfl⟩ := List.mem_map.mp hs'
  rw [Assembly.variableNames_define]
  exact (List.nodup_flatMap.mp (hG.variableNames_nodup hnd)).1 s hs

/-- A variable an assembled structure holds is a data variable, placed at the path below its
root, when names are distinct. -/
theorem assemble_placed (hnd : (vars.map (·.name)).Nodup)
    (h : assemble vars declared = .ok (out, done)) :
    ∀ s ∈ out, ∀ b ∈ done, b.name ∈ s.variableNames →
      b.isClock = false ∧ s.varAt (b.path.drop 1) = some b.name := by
  obtain ⟨out0, hG, rfl⟩ := assemble_gathered h
  intro s' hs' b' hb' hn
  obtain ⟨s, hs, rfl⟩ := List.mem_map.mp hs'
  rw [Assembly.variableNames_define] at hn
  obtain ⟨b, hb, hr⟩ := List.exists_of_forall₂_mem_left (assemble_rebinds h).flip b' hb'
  -- the structures hold names of data variables, and the one of this name is `b`
  obtain ⟨b₀, hb₀, hname⟩ := List.mem_map.mp (hG.vars.subset (List.mem_flatMap.mpr ⟨s, hs, hn⟩))
  obtain ⟨hbs, hclock⟩ := List.mem_filter.mp hb₀
  obtain ⟨hvar, -⟩ := List.mem_filter.mp hbs
  obtain rfl : b₀ = b := List.inj_on_of_nodup_map hnd hvar hb (hname.trans hr.name_eq)
  have hclock' : b₀.isClock = false := by simpa using hclock
  refine ⟨hr.isClock_eq.trans hclock', ?_⟩
  -- it is placed in one structure, which holds its name, so in `s`
  obtain ⟨s₁, hs₁, -, hvar₁⟩ := hG.placed b₀ hbs hclock'
  have hn₁ : b₀.name ∈ s₁.variableNames :=
    (hG.sound s₁ hs₁).variableNames_perm.symm.subset
      (Assembly.mem_slotVariables_of_varAt _ s₁ hvar₁)
  obtain rfl := List.eq_of_mem_flatMap_nodup (hG.variableNames_nodup hnd) hs₁ hs hn₁
    (hr.name_eq ▸ hn)
  rw [Assembly.varAt_define, hr.path, hr.name_eq]
  exact hvar₁

/-- The clocks of an assembled structure are names of clocks among the variables assembled. -/
theorem assemble_clocks (h : assemble vars declared = .ok (out, done)) :
    ∀ s ∈ out, ∀ c ∈ s.allClocks, ∃ b ∈ done, b.name = c ∧ b.isClock = true := by
  obtain ⟨out0, hG, rfl⟩ := assemble_gathered h
  intro s' hs' c hc
  obtain ⟨s, hs, rfl⟩ := List.mem_map.mp hs'
  rw [Assembly.allClocks_define] at hc
  obtain ⟨b, hb, rfl⟩ := List.mem_map.mp (hG.clocks.subset (List.mem_flatMap.mpr ⟨s, hs, hc⟩))
  obtain ⟨hbs, hclock⟩ := List.mem_filter.mp hb
  obtain ⟨hb, -⟩ := List.mem_filter.mp hbs
  obtain ⟨b', hb', hr⟩ := List.exists_of_forall₂_mem_left (assemble_rebinds h) b hb
  exact ⟨b', hb', hr.name_eq, hr.isClock_eq.trans hclock⟩

end Assembled

/-! ## What configuring leaves for importing -/

/-- Adding a topic keeps a property every topic has. -/
theorem addTopic_forall {P : Topic → Prop} {pubs subs pubs' subs' : List Topic} {t : Topic}
    (hps : ∀ t' ∈ pubs ++ subs, P t') (ht : P t) (h : addTopic pubs subs t = .ok (pubs', subs')) :
    ∀ t' ∈ pubs' ++ subs', P t' := by
  unfold addTopic at h
  intro t' ht'
  cases hdir : t.direction with
  | publish =>
    simp only [hdir, beq_self_eq_true, if_true, List.any_eq_true, beq_iff_eq] at h
    split at h
    · cases h
    · cases h
      rcases List.mem_append.mp ht' with ht' | ht'
      · rcases List.mem_append.mp ht' with ht' | ht'
        · exact hps t' (List.mem_append_left _ ht')
        · exact List.mem_singleton.mp ht' ▸ ht
      · exact hps t' (List.mem_append_right _ ht')
  | subscribe =>
    simp only [hdir, reduceCtorEq, if_false, List.any_eq_true, beq_iff_eq] at h
    split at h
    · cases h
    · cases h
      rcases List.mem_append.mp ht' with ht' | ht'
      · exact hps t' (List.mem_append_left _ ht')
      · rcases List.mem_append.mp ht' with ht' | ht'
        · exact hps t' (List.mem_append_right _ ht')
        · exact List.mem_singleton.mp ht' ▸ ht

/-- Configuring keeps the model's enumeration width, and the clocks of every topic are names of
bound clocks. -/
theorem configure_clocks {md : Fmu.ModelDescription} {opts : Options} {l : Layout}
    (h : configure md opts = .ok l) :
    l.enumWidth = md.enumWidth ∧ ∀ t ∈ l.publications ++ l.subscriptions, ∀ c ∈ t.clocks,
      ∃ b ∈ l.bound, b.name = c ∧ b.isClock = true := by
  unfold configure at h
  obtain ⟨reg, -, h⟩ := Except.exists_of_bind_eq_ok h
  obtain ⟨_, -, h⟩ := Except.exists_of_bind_eq_ok h
  obtain ⟨vars, -, h⟩ := Except.exists_of_bind_eq_ok h
  obtain ⟨⟨topicNames, declared⟩, -, h⟩ := Except.exists_of_bind_eq_ok h
  obtain ⟨⟨structs, done⟩, hasm, h⟩ := Except.exists_of_bind_eq_ok h
  obtain ⟨_, -, h⟩ := Except.exists_of_bind_eq_ok h
  obtain ⟨r₁, hloop₁, h⟩ := Except.exists_of_bind_eq_ok h
  obtain ⟨r₂, hloop₂, h⟩ := Except.exists_of_bind_eq_ok h
  cases h
  refine ⟨rfl, ?_⟩
  -- a topic of a variable takes the clocks the variable's clock references find among the
  -- bound variables
  have h₁ : ∀ t ∈ r₁.1 ++ r₁.2, ∀ c ∈ t.clocks, ∃ b ∈ done, b.name = c ∧ b.isClock = true := by
    refine List.forIn_except_inv (fun _ (ps : List Topic × List Topic) =>
        ∀ t ∈ ps.1 ++ ps.2, ∀ c ∈ t.clocks, ∃ b ∈ done, b.name = c ∧ b.isClock = true)
      ?_ (by simp) hloop₁
    intro pre b post ps step hl hb hf
    dsimp only at hf
    split at hf
    · cases hf
      exact ⟨ps, rfl, hb⟩
    · obtain ⟨⟨pubs, subs⟩, hadd, hf⟩ := Except.exists_of_bind_eq_ok hf
      cases hf
      refine ⟨(pubs, subs), rfl, addTopic_forall hb ?_ hadd⟩
      intro c hc
      obtain ⟨vr, -, hvr⟩ := List.mem_filterMap.mp hc
      split at hvr
      · rename_i c' hc'
        split at hvr
        · rename_i hclock
          cases hvr
          exact ⟨c', (List.mem_filter.mp (List.mem_of_getLast? hc')).1, rfl, hclock⟩
        · cases hvr
      · cases hvr
  -- a topic of a structure takes the structure's clocks
  refine List.forIn_except_inv (fun _ (ps : List Topic × List Topic) =>
      ∀ t ∈ ps.1 ++ ps.2, ∀ c ∈ t.clocks, ∃ b ∈ done, b.name = c ∧ b.isClock = true)
    ?_ h₁ hloop₂
  intro pre s post ps step hl hb hf
  dsimp only at hf
  split at hf
  · cases hf
    exact ⟨ps, rfl, hb⟩
  · split at hf
    · cases hf
      exact ⟨ps, rfl, hb⟩
    · obtain ⟨_, -, hf⟩ := Except.exists_of_bind_eq_ok hf
      obtain ⟨⟨pubs, subs⟩, hadd, hf⟩ := Except.exists_of_bind_eq_ok hf
      cases hf
      exact ⟨(pubs, subs), rfl,
        addTopic_forall hb (assemble_clocks hasm s (by simp [hl])) hadd⟩

/-- What importing needs of a configured layout beyond `Configured`: the model's enumeration
width, bound variables that are variables of the model, topic clocks that name bound clocks, and
structures whose slots hold a variable or a structure but not both, that hold each variable once,
and that place each data variable they hold at the path below its root. -/
structure Importable (md : Fmu.ModelDescription) (l : Layout) : Prop where
  enumWidth : l.enumWidth = md.enumWidth
  models : ∀ b ∈ l.bound, b.fmu ∈ md.modelVariables
  clocks : ∀ t ∈ l.publications ++ l.subscriptions, ∀ c ∈ t.clocks,
    ∃ b ∈ l.bound, b.name = c ∧ b.isClock = true
  single : ∀ s ∈ l.structures, ∀ t ∈ s.tree, ∀ sl ∈ t.slots, sl.2.2.1 = none ∨ sl.2.2.2 = none
  nodup : ∀ s ∈ l.structures, s.variableNames.Nodup
  placed : ∀ s ∈ l.structures, ∀ b ∈ l.bound, b.name ∈ s.variableNames →
    b.isClock = false ∧ s.varAt (b.path.drop 1) = some b.name

section Importable

variable {md : Fmu.ModelDescription} {opts : Options} {l : Layout}

theorem configure_importable (hnames : (md.modelVariables.map (·.name)).Nodup)
    (h : configure md opts = .ok l) : Importable md l := by
  obtain ⟨reg, vars, declared, hbind, hasm, -⟩ := configure_eq_ok h
  obtain ⟨hmap, -⟩ := bindAll_eq_ok hbind
  have hrb := assemble_rebinds hasm
  -- the variables bound have the names of the bound variables, which are distinct
  have hnd : (vars.map (·.name)).Nodup := by
    rw [List.map_eq_of_forall₂ (fun _ _ hr => hr.name_eq.symm) hrb]
    exact (configure_configured hnames h).names_nodup
  obtain ⟨hew, hclocks⟩ := configure_clocks h
  refine ⟨hew, fun b' hb' => ?_, hclocks, assemble_single hasm,
    assemble_variableNames_nodup hnd hasm, assemble_placed hnd hasm⟩
  obtain ⟨b, hb, hr⟩ := List.exists_of_forall₂_mem_left hrb.flip b' hb'
  have hfmu : b.fmu ∈ vars.map (·.fmu) := List.mem_map_of_mem hb
  rw [hmap] at hfmu
  rw [hr.fmu]
  exact (List.mem_filter.mp hfmu).1

theorem directionOf_eq_subscribe {v : Fmu.Variable} (h : directionOf v = some .subscribe) :
    v.causality = .input := by
  cases hc : v.causality <;> simp [directionOf, hc] at h ⊢

/-- A configured layout of a model whose variables have distinct references is separate: no
variable has the empty name, which no name parses from. -/
theorem Importable.separate (hc : Configured md opts l) (hi : Importable md l)
    (hrefs : (md.modelVariables.map (·.vr)).Nodup) : l.Separate where
  refs b hb b' hb' hvr := congrArg Fmu.Variable.name
    (List.inj_on_of_nodup_map hrefs (hi.models b hb) (hi.models b' hb') hvr)
  unnamed := by
    cases hf : l.findVariable "" with
    | none => rfl
    | some b =>
      obtain ⟨hb, hname⟩ := findVariable_some hf
      have hparse := (hc.bound b hb).parse
      rw [hname] at hparse
      cases hparse

theorem Importable.ready {fmu : Loopback} (hi : Importable md l) (hmd : fmu.model = md)
    (hstored : ∀ u ∈ md.modelVariables, (fmu.values.lookup u.vr).isSome) : Ready l fmu :=
  ⟨by rw [hmd]; exact hi.enumWidth, fun b hb => hstored _ (hi.models b hb)⟩

/-- A topic carries a bound variable either as its own variable, a data variable with a plain
name, or as a variable of the structure it carries. -/
theorem Configured.carries_source {t : Topic} {b : BoundVariable} (hc : Configured md opts l)
    (hi : Importable md l) (ht : t ∈ l.publications ++ l.subscriptions) (hb : b ∈ l.bound)
    (hcar : l.carries t b.name = true) :
    b.isClock = false ∧ ((t.carrier = .single b.name ∧ b.path.length = 1) ∨
      ∃ s ∈ l.structures, t.carrier = .assembly (Path.root s.path) ∧ t.type = s.descriptor ∧
        b.name ∈ s.variableNames) := by
  cases hc.sourced t ht with
  | single b' hb' hown hcarrier _ _ =>
    simp only [carries, hcarrier, beq_iff_eq] at hcar
    obtain rfl := List.inj_on_of_nodup_map hc.names_nodup hb' hb hcar
    simp only [ownTopic, Bool.and_eq_true, beq_iff_eq, Bool.not_eq_true'] at hown
    exact ⟨hown.1.2, .inl ⟨hcarrier, hown.1.1⟩⟩
  | assembly s hs _ hcarrier htype _ =>
    simp only [carries, hcarrier, hc.findStructure_root hs, Option.map_some, Option.getD_some,
      List.contains_iff_mem] at hcar
    exact ⟨(hi.placed s hs b hb hcar).1, .inr ⟨s, hs, hcarrier, htype, hcar⟩⟩

end Importable

/-! ## Where an import writes -/

/-- The references an import into the topic `t` may write: those of the variables `t` carries,
of the input clocks it names, and of a variable with the empty name, which a slot without a
variable looks up. -/
def Written (l : Layout) (t : Topic) (r : Nat) : Prop :=
  ∃ b ∈ l.bound, b.fmu.vr = r ∧
    (l.carries t b.name = true ∨ b.name = "" ∨ (b.name ∈ t.clocks ∧ b.direction = .subscribe))

/-- Every run of an import, successful or not, writes only the references in `Written`. -/
theorem importTopic_touching (l : Layout) (t : Topic) (payload : Bytes) :
    (touching (Written l t)).Moves (importTopic l t payload) := by
  have htick : (touching (Written l t)).Moves (tick l t.clocks) :=
    tick_touching l t.clocks fun c hc b hb hdir => by
      obtain ⟨hmem, rfl⟩ := findVariable_some hb
      exact ⟨b, hmem, rfl, .inr (.inr ⟨hc, hdir⟩)⟩
  unfold importTopic
  split
  · rename_i root hcar
    split
    · rename_i s hs
      refine (importStructure_touching l s payload fun n b hb hn => ?_).bind fun _ => htick
      obtain ⟨hmem, rfl⟩ := findVariable_some hb
      refine ⟨b, hmem, rfl, ?_⟩
      rcases hn with hn | hn
      · left
        simp [carries, hcar, hs, hn]
      · exact .inr (.inl hn)
    · exact (Moves.pure ()).bind fun _ => htick
  · rename_i name hcar
    refine (liftWith_touching _ _).bind fun v => ?_
    split
    · rename_i b hb
      obtain ⟨hb', rfl⟩ := findVariable_some hb
      have hw : Written l t b.fmu.vr := ⟨b, hb', rfl, .inl (by simp [carries, hcar])⟩
      exact (Moves.tryCatch (importVariable_touching l hw v) fun _ => Moves.throw _).bind
        fun _ => htick
    · exact (Moves.pure ()).bind fun _ => htick

/-- Ticking a topic's clocks writes the references of clocks only, when the clocks name bound
clocks and names are distinct. -/
theorem tick_touching_clocks {l : Layout} {clocks : List String}
    (hnd : (l.bound.map (·.name)).Nodup)
    (hclocks : ∀ c ∈ clocks, ∃ b ∈ l.bound, b.name = c ∧ b.isClock = true) :
    (touching fun r => ∃ b ∈ l.bound, b.fmu.vr = r ∧ b.isClock = true).Moves (tick l clocks) :=
  tick_touching l clocks fun c hc b hb _ => by
    obtain ⟨hmem, rfl⟩ := findVariable_some hb
    obtain ⟨b', hb', hname, hclock⟩ := hclocks b.name hc
    obtain rfl := List.inj_on_of_nodup_map hnd hb' hmem hname
    exact ⟨b', hb', rfl, hclock⟩

/-- In a separate layout with distinct names, no clock shares a data variable's reference. -/
theorem Separate.not_clockRef {l : Layout} (hl : l.Separate) (hnd : (l.bound.map (·.name)).Nodup)
    {b : BoundVariable} (hb : b ∈ l.bound) (hclock : b.isClock = false) :
    ¬ ∃ b' ∈ l.bound, b'.fmu.vr = b.fmu.vr ∧ b'.isClock = true := by
  rintro ⟨b', hb', hvr, hclock'⟩
  obtain rfl := List.inj_on_of_nodup_map hnd hb' hb (hl.refs b' hb' b hb hvr)
  rw [hclock] at hclock'
  cases hclock'

section Carried

variable {md : Fmu.ModelDescription} {opts : Options} {l : Layout} {S : Topic} {payload : Bytes}
  {v : Value} {d d' : Device}

/-- A successful import into a topic does to each variable the topic carries what `Imported`
says, with the part of the decoded value at the variable's path below the topic, before it ticks
the topic's clocks. -/
theorem importTopic_imports_carried (hc : Configured md opts l) (hi : Importable md l)
    (hsep : l.Separate) (hready : Ready l d.fmu) (hS : S ∈ l.publications ++ l.subscriptions)
    (hv : decodePayload S.type payload = .ok v)
    (h : (importTopic l S payload).run.run d = (.ok (), d')) {b : BoundVariable}
    (hb : b ∈ l.bound) (hcar : l.carries S b.name = true) :
    ∃ d₁, Imported b (v.follow (b.path.drop 1)) d.fmu d₁.fmu ∧
      (tick l S.clocks).run.run d₁ = (.ok (), d') := by
  have hfind : l.findVariable b.name = some b := find?_name_eq hc.names_nodup hb
  rcases (hc.carries_source hi hS hb hcar).2 with ⟨hcarrier, hlen⟩ | ⟨s, hs, hcarrier, htype, hn⟩
  · -- the topic's own variable takes the whole value
    obtain ⟨d₁, himp, -, htick⟩ := importTopic_single_ok hcarrier hv h
    refine ⟨d₁, ?_, htick⟩
    rw [List.drop_eq_nil_of_le (by omega), Value.follow_nil]
    exact importVariable_imported hready.enumWidth (hready.stored b hb) (himp b hfind)
  · -- a variable of the topic's structure takes the member at its path
    obtain ⟨d₁, himp, htick⟩ := importTopic_assembly_ok hcarrier (hc.findStructure_root hs) h
    rw [htype] at hv
    obtain ⟨hrec, hnon⟩ := importStructure_ok hv himp
    refine ⟨d₁, ?_, htick⟩
    by_cases hr : ∀ fs, v ≠ .record fs
    · -- a payload that is no record has no member at the variable's path
      obtain rfl := hnon hr
      obtain ⟨b', hb', hname, hlong, -⟩ := hc.held s hs b.name hn
      obtain rfl := List.inj_on_of_nodup_map hc.names_nodup hb' hb hname
      obtain ⟨m, q, hq⟩ : ∃ m q, b'.path.drop 1 = m :: q :=
        List.exists_cons_of_ne_nil (by rw [Ne, List.drop_eq_nil_iff]; omega)
      rw [hq, Value.follow_cons_of_not_record hr]
      exact Imported.absent_refl rfl
    · obtain ⟨fs, rfl⟩ : ∃ fs, v = .record fs := by simpa using hr
      have hreach := reaches_of_varAt _ s (hi.single s hs) (hi.placed s hs b hb hn).2
      exact importAssembly_imports hsep s fs d d₁ (hrec fs rfl) (hi.nodup s hs) hready _ _ b
        hreach hfind

end Carried

/-! ## Importing into a subscription -/

/-- A successful import of a payload into a subscription of a configured model, whose variables
have distinct names and distinct references, into an FMU that stores a value for each of them (as
every FMU built from the model does, `Loopback.Shaped.present`), updates exactly what the payload
carries. Each variable the topic carries is imported the part of
the decoded value at the variable's path below the topic, as `Imported` says; every other
variable of the model keeps its value, except the input clocks the topic names. -/
theorem importTopic_updates_carried {md : Fmu.ModelDescription} {opts : Options} {l : Layout}
    {S : Topic} {payload : Bytes} {v : Value} {d d' : Device}
    (hnames : (md.modelVariables.map (·.name)).Nodup)
    (hrefs : (md.modelVariables.map (·.vr)).Nodup)
    (hl : configure md opts = .ok l) (hS : S ∈ l.subscriptions)
    (hv : decodePayload S.type payload = .ok v) (hmd : d.fmu.model = md)
    (hstored : ∀ u ∈ md.modelVariables, (d.fmu.values.lookup u.vr).isSome)
    (h : (importTopic l S payload).run.run d = (.ok (), d')) :
    (∀ b ∈ l.bound, l.carries S b.name = true →
      Imported b (v.follow (b.path.drop 1)) d.fmu d'.fmu) ∧
    (∀ u ∈ md.modelVariables, l.carries S u.name = false →
      (u.name ∈ S.clocks → u.causality ≠ .input) → d'.fmu.valueOf u.vr = d.fmu.valueOf u.vr) := by
  have hc := configure_configured hnames hl
  have hi := configure_importable hnames hl
  have hsep := hi.separate hc hrefs
  have hS' : S ∈ l.publications ++ l.subscriptions := List.mem_append_right _ hS
  refine ⟨fun b hb hcar => ?_, fun u hu hcar hclk => ?_⟩
  · -- what the import did to `b` before the clocks ticked, and ticking leaves data alone
    obtain ⟨d₁, himp, htick⟩ :=
      importTopic_imports_carried hc hi hsep (hi.ready hmd hstored) hS' hv h hb hcar
    exact himp.of_after
      (touches_of_run (tick_touching_clocks hc.names_nodup (hi.clocks S hS')) htick)
      (hsep.not_clockRef hc.names_nodup hb (hc.carries_source hi hS' hb hcar).1)
  · -- the bound variable at `u`'s reference is `u`, which the import does not write
    refine (touches_of_run (importTopic_touching l S payload) h).frame u.vr ?_
    rintro ⟨b, hb, hvr, hw⟩
    have hbu : b.fmu = u := List.inj_on_of_nodup_map hrefs (hi.models b hb) hu hvr
    have hname : b.name = u.name := congrArg Fmu.Variable.name hbu
    rcases hw with hw | hw | ⟨hw, hdir⟩
    · rw [hname, hcar] at hw
      cases hw
    · have hfind : l.findVariable "" = some b := by
        rw [← hw]
        exact find?_name_eq hc.names_nodup hb
      rw [hsep.unnamed] at hfind
      cases hfind
    · have hdir' := (hc.bound b hb).direction
      rw [hbu, hdir] at hdir'
      exact hclk (hname ▸ hw) (directionOf_eq_subscribe hdir')

/-! ## Absent payloads -/

theorem decodePayload_absent {d : Descriptor} (h : d.optional = true) :
    decodePayload d [0] = .ok .nil := by
  simp [decodePayload, Wire.Reader.ofBytes, Wire.decode_absent h, Wire.Reader.remaining]

/-- An import into a topic of one variable of a payload that decodes to an absent value only
ticks the topic's clocks. -/
theorem importTopic_single_absent {l : Layout} {t : Topic} {payload : Bytes} {name : String}
    (hc : t.carrier = .single name) (hv : decodePayload t.type payload = .ok .nil) (d : Device) :
    (importTopic l t payload).run.run d = (tick l t.clocks).run.run d := by
  unfold importTopic
  simp only [hc, hv, liftWith]
  cases l.findVariable name <;> simp [importVariable, Value.isNil, ExceptT.run_tryCatch]

/-- A configured subscription of one variable with an optional type, whose clocks tick
successfully to `d'`, imports the absent payload `[0]` successfully to `d'`. The hypothesis is
a test that evaluates. -/
theorem exists_absent_import {md : Fmu.ModelDescription} {opts : Options} {d : Device}
    {P : Layout → Topic → Device → Bool}
    (h : (match configure md opts with
      | .ok l => l.subscriptions.any fun S =>
        (match S.carrier with | .single _ => true | .assembly _ => false) && S.type.optional &&
          match (tick l S.clocks).run.run d with
          | (.ok (), d') => P l S d'
          | _ => false
      | .error _ => false) = true) :
    ∃ l S d', configure md opts = .ok l ∧ S ∈ l.subscriptions ∧
      decodePayload S.type [0] = .ok .nil ∧ (importTopic l S [0]).run.run d = (.ok (), d') ∧
      P l S d' = true := by
  split at h
  · rename_i l hl
    obtain ⟨S, hS, hS'⟩ := List.any_eq_true.mp h
    simp only [Bool.and_eq_true] at hS'
    obtain ⟨⟨hc, hopt⟩, hrun⟩ := hS'
    obtain ⟨name, hname⟩ : ∃ name, S.carrier = .single name := by
      cases hcar : S.carrier with
      | single name => exact ⟨name, rfl⟩
      | assembly _ =>
        rw [hcar] at hc
        cases hc
    have hv := decodePayload_absent hopt
    split at hrun
    · rename_i d' htick
      exact ⟨l, S, d', hl, hS, hv, (importTopic_single_absent hname hv d).trans htick, hrun⟩
    · cases hrun
  · cases h

/-- A model with an input clocked by an input clock, and an output: the theorem at an absent
payload into the input's subscription, typed optional. -/
theorem importTopic_updates_carried_absent :
    let md : Fmu.ModelDescription := { modelVariables := [
      { name := "speed", vr := 1, causality := .input, kind := .float64, clocks := [3] },
      { name := "level", vr := 2, causality := .output, kind := .float64 },
      { name := "tick", vr := 3, causality := .input, kind := .clock }] }
    let opts : Options := { overrides := [{ name := "speed", type := "Float64?" }] }
    let d : Device := { fmu := { model := md, values := [
      (1, { kind := .float64, data := List.replicate 8 0 }),
      (2, { kind := .float64, data := List.replicate 8 0 }),
      (3, { kind := .clock, data := [0] })] } }
    ∃ l S d', configure md opts = .ok l ∧ S ∈ l.subscriptions ∧
      decodePayload S.type [0] = .ok .nil ∧ (importTopic l S [0]).run.run d = (.ok (), d') ∧
      (∀ b ∈ l.bound, l.carries S b.name = true →
        Imported b (Value.nil.follow (b.path.drop 1)) d.fmu d'.fmu) ∧
      (∀ u ∈ md.modelVariables, l.carries S u.name = false →
        (u.name ∈ S.clocks → u.causality ≠ .input) → d'.fmu.valueOf u.vr = d.fmu.valueOf u.vr) := by
  intro md opts d
  have hnames : (md.modelVariables.map (·.name)).Nodup := by decide
  have hrefs : (md.modelVariables.map (·.vr)).Nodup := by decide
  have hstored : ∀ u ∈ md.modelVariables, (d.fmu.values.lookup u.vr).isSome := by decide
  obtain ⟨l, S, d', hl, hS, hv, h, -⟩ :=
    @exists_absent_import md opts d (fun _ _ _ => true) (by decide +kernel)
  exact ⟨l, S, d', hl, hS, hv, h,
    importTopic_updates_carried hnames hrefs hl hS hv rfl hstored h⟩

/-- Variables that share a reference change together: a local clock `shadow` at the reference of
the input clock `tick` changes when an import into the topic of `speed`, clocked by `tick`, ticks
it, though the topic neither carries nor names `shadow`. -/
theorem importTopic_writes_alias :
    let md : Fmu.ModelDescription := { modelVariables := [
      { name := "speed", vr := 1, causality := .input, kind := .float64, clocks := [3] },
      { name := "tick", vr := 3, causality := .input, kind := .clock },
      { name := "shadow", vr := 3, causality := .local, kind := .clock }] }
    let opts : Options := { overrides := [{ name := "speed", type := "Float64?" }] }
    let d : Device := { fmu := { model := md, values := [
      (1, { kind := .float64, data := List.replicate 8 0 }),
      (3, { kind := .clock, data := [0] })] } }
    (md.modelVariables.map (·.name)).Nodup ∧ ∃ l S d', configure md opts = .ok l ∧
      S ∈ l.subscriptions ∧ decodePayload S.type [0] = .ok .nil ∧
      (importTopic l S [0]).run.run d = (.ok (), d') ∧ l.carries S "shadow" = false ∧
      "shadow" ∉ S.clocks ∧ (d'.fmu.valueOf 3).data ≠ (d.fmu.valueOf 3).data := by
  intro md opts d
  obtain ⟨l, S, d', hl, hS, hv, h, hP⟩ := @exists_absent_import md opts d
    (fun l S d' => !(l.carries S "shadow") && !(S.clocks.contains "shadow") &&
      (d'.fmu.valueOf 3).data != (d.fmu.valueOf 3).data) (by decide +kernel)
  simp only [Bool.and_eq_true, Bool.not_eq_true', bne_iff_ne, ne_eq] at hP
  obtain ⟨⟨hcar, hclk⟩, hdata⟩ := hP
  exact ⟨by decide, l, S, d', hl, hS, hv, h, hcar, by simpa using hclk, hdata⟩

end Layout

end CoSimBridge
