import CoSimBridge.Proofs.Layout.Description
import CoSimBridge.Proofs.Name.RoundTrip
import CoSimBridge.Proofs.Types.Resolution
import CoSimBridge.Layout.Configure

/-!
# The topic map of a configured model

Configuring a model binds its exchanged variables, assembles those with structured names into
structures, and gives a topic to each variable with a plain name and to each structure
(`configure`). When the model's variables have distinct names, the result is a consistent topic
map (`configure_topic_map`): topic names are distinct within each direction, every exchanged data
variable that is neither skipped nor reserved travels on exactly one topic, in its own direction,
and every topic has the type of what it carries.

Each stage is described once. Binding and placing only ever rebind a variable (`Rebinds`): the
model variable, path and direction stay, and a wire type is never taken away, so what binding
establishes (`Bound`) survives assembling. The two topic loops keep their lists `Directed` and
every topic `Sourced` from a variable or a structure, and the topics' carriers are a permutation
of the carriers of the variables and structures that get topics (`configure_eq_ok`). Carriers
are therefore distinct, and a topic carrying a variable has the carrier of the variable's name,
so exactly one topic carries it.
-/

namespace CoSimBridge
set_option autoImplicit false

/-- A loop that only ever continues: an invariant of the processed prefix and the state that
every successful step carries on holds of the whole list and the final state. -/
theorem List.forIn_except_inv {α σ ε : Type} {l : List α} {f : α → σ → Except ε (ForInStep σ)}
    (I : List α → σ → Prop)
    (hstep : ∀ pre x post s r, l = pre ++ x :: post → I pre s → f x s = .ok r →
      ∃ s', r = .yield s' ∧ I (pre ++ [x]) s')
    {init r : σ} (hinit : I [] init) (h : forIn l init f = .ok r) : I l r := by
  -- the suffix still to run, after a prefix whose invariant holds
  have key : ∀ (post pre : List α) (s : σ), l = pre ++ post → I pre s →
      forIn post s f = .ok r → I l r := by
    intro post
    induction post with
    | nil =>
      intro pre s hl hs h
      cases h
      simpa [hl] using hs
    | cons x post ih =>
      intro pre s hl hs h
      rw [List.forIn_cons] at h
      obtain ⟨step, hf, h⟩ := Except.exists_of_bind_eq_ok h
      obtain ⟨s', rfl, hs'⟩ := hstep pre x post s step hl hs hf
      exact ih (pre ++ [x]) s' (by simp [hl]) hs' h
  exact key l [] init rfl hinit h

theorem List.eq_of_mem_flatMap_nodup {α β : Type} {l : List α} {f : α → List β} {a a' : α} {x : β}
    (hnd : (l.flatMap f).Nodup) (ha : a ∈ l) (ha' : a' ∈ l) (hx : x ∈ f a) (hx' : x ∈ f a') :
    a = a' := by
  by_contra hne
  have : Std.Symm (Function.onFun List.Disjoint f) := ⟨fun _ _ h => List.Disjoint.symm h⟩
  exact (List.nodup_flatMap.mp hnd).2.forall ha ha' hne hx hx'

/-- A list whose images are distinct holds one element only that a test picks when every
element it picks has one image. -/
theorem List.filter_eq_singleton_of_nodup {α β : Type} {l : List α} {g : α → β} {p : α → Bool}
    {c : β} {x : α} (hnd : (l.map g).Nodup) (hp : ∀ y ∈ l, p y = true → g y = c) (hx : x ∈ l)
    (hpx : p x = true) : l.filter p = [x] := by
  have hsub : ((l.filter p).map g).Nodup := (List.filter_sublist.map g).nodup hnd
  have hall : ∀ y ∈ l.filter p, g y = c := fun y hy =>
    hp y (List.mem_filter.mp hy).1 (List.mem_filter.mp hy).2
  have hmem : x ∈ l.filter p := List.mem_filter.mpr ⟨hx, hpx⟩
  obtain ⟨y, ys, hys⟩ := List.exists_cons_of_ne_nil (List.ne_nil_of_mem hmem)
  rw [hys] at hsub hall hmem ⊢
  cases ys with
  | nil => rw [List.mem_singleton.mp hmem]
  | cons z zs =>
    -- two picked elements would share the image `c`
    have hyz : g y = g z := (hall y (by simp)).trans (hall z (by simp)).symm
    simp only [List.map_cons, List.nodup_cons, List.mem_cons, not_or] at hsub
    exact absurd hyz hsub.1.1

namespace Layout

namespace BoundVariable

/-- The variable `b` bound again with other settings: the same model variable, path and
direction, and still a wire type if `b` had one. -/
structure Rebinds (b b' : BoundVariable) : Prop where
  fmu : b'.fmu = b.fmu
  path : b'.path = b.path
  direction : b'.direction = b.direction
  typed : b.type.isSome → b'.type.isSome

namespace Rebinds

variable {b b' b'' : BoundVariable}

theorem refl (b : BoundVariable) : Rebinds b b := ⟨rfl, rfl, rfl, id⟩

theorem trans (h : Rebinds b b') (h' : Rebinds b' b'') : Rebinds b b'' :=
  ⟨h'.fmu.trans h.fmu, h'.path.trans h.path, h'.direction.trans h.direction, h'.typed ∘ h.typed⟩

theorem name_eq (h : Rebinds b b') : b'.name = b.name := congrArg Fmu.Variable.name h.fmu

theorem isClock_eq (h : Rebinds b b') : b'.isClock = b.isClock := by
  simp only [isClock, h.fmu]

end Rebinds

variable {reg : Registry} {b b' : BoundVariable}

theorem adopt_rebinds {d : Descriptor} (h : b.adopt d = .ok b') : Rebinds b b' := by
  unfold adopt at h
  dsimp only at h
  split at h
  · cases h
  · obtain ⟨u, -, h⟩ := Except.exists_of_bind_eq_ok h
    cases h
    exact ⟨rfl, rfl, rfl, fun _ => rfl⟩

theorem withTopic_rebinds (b : BoundVariable) (topic : String) : Rebinds b (b.withTopic topic) := by
  unfold withTopic
  split
  · exact ⟨rfl, rfl, rfl, id⟩
  · exact Rebinds.refl b

theorem withType_rebinds {token : String} (h : b.withType reg token = .ok b') : Rebinds b b' := by
  unfold withType at h
  split at h
  · obtain ⟨d, -, h⟩ := Except.exists_of_bind_eq_ok h
    obtain ⟨d', -, h⟩ := Except.exists_of_bind_eq_ok h
    cases h
    exact ⟨rfl, rfl, rfl, fun _ => rfl⟩
  · cases h
    exact Rebinds.refl b

theorem withTransform_rebinds {t : Option Transform} (h : b.withTransform t = .ok b') :
    Rebinds b b' := by
  cases t with
  | none =>
    cases h
    exact Rebinds.refl b
  | some t =>
    simp only [withTransform] at h
    split at h
    · cases h
    · cases h
      exact ⟨rfl, rfl, rfl, id⟩

theorem applyOverride_rebinds {o : Option Override} (h : b.applyOverride reg o = .ok b') :
    Rebinds b b' := by
  cases o with
  | none =>
    cases h
    exact Rebinds.refl b
  | some o =>
    obtain ⟨b₁, h₁, h⟩ := Except.exists_of_bind_eq_ok h
    exact ((withTopic_rebinds b o.topic).trans (withType_rebinds h₁)).trans
      (withTransform_rebinds h)

theorem withTransmission_rebinds {token : String} (h : withTransmission reg b token = .ok b') :
    Rebinds b b' := by
  unfold withTransmission at h
  obtain ⟨tt, -, h⟩ := Except.exists_of_bind_eq_ok h
  obtain ⟨tt', -, h⟩ := Except.exists_of_bind_eq_ok h
  split at h
  · cases h
  · cases h
    exact ⟨rfl, rfl, rfl, fun _ => rfl⟩

theorem transmit_rebinds (h : b.transmit reg = .ok b') : Rebinds b b' := by
  unfold transmit at h
  split at h
  · split at h
    · exact withTransmission_rebinds h
    · cases h
      exact Rebinds.refl b
  · cases h
    exact Rebinds.refl b

/-- What binding leaves true of a variable: its path is its parsed name, its direction is its
causality's, and a data variable has a wire type. -/
structure Bound (b : BoundVariable) : Prop where
  parse : Path.parse b.name = .ok b.path
  direction : directionOf b.fmu = some b.direction
  typed : b.isClock = false → b.type.isSome

theorem Bound.rebinds (hb : b.Bound) (h : Rebinds b b') : b'.Bound where
  parse := by rw [h.name_eq, h.path]; exact hb.parse
  direction := by rw [h.fmu, h.direction]; exact hb.direction
  typed := fun hc => h.typed (hb.typed (h.isClock_eq ▸ hc))

end BoundVariable

open BoundVariable

theorem bindVariable_bound {md : Fmu.ModelDescription} {reg : Registry} {v : Fmu.Variable}
    {dir : Direction} {o : Option Override} {b : BoundVariable} (hdir : directionOf v = some dir)
    (h : bindVariable md reg v dir o = .ok b) : b.fmu = v ∧ b.Bound := by
  unfold bindVariable at h
  obtain ⟨path, hpath, h⟩ := Except.exists_of_bind_eq_ok h
  obtain ⟨shape, -, h⟩ := Except.exists_of_bind_eq_ok h
  dsimp only at h
  split at h
  · -- a clock is bound as it is, with no wire type
    rename_i hclock
    cases h
    refine ⟨rfl, hpath, hdir, fun hc => ?_⟩
    simp [isClock] at hc
    simp [hc] at hclock
  · -- a data variable starts from its default type; the override and the transmission only
    -- rebind it
    obtain ⟨b₁, h₁, h⟩ := Except.exists_of_bind_eq_ok h
    obtain ⟨b₂, h₂, h⟩ := Except.exists_of_bind_eq_ok h
    obtain ⟨_, -, h⟩ := Except.exists_of_bind_eq_ok h
    cases h
    have hb := (applyOverride_rebinds h₁).trans (transmit_rebinds h₂)
    refine ⟨hb.fmu, Bound.rebinds ?_ hb⟩
    exact ⟨hpath, hdir, fun _ => rfl⟩

/-- Whether binding takes a model variable: it is not skipped and its causality is exchanged. -/
def exchanged (os : List Override) (v : Fmu.Variable) : Bool :=
  !((os.find? (·.name == v.name)).map (·.skip)).getD false && (directionOf v).isSome

/-- Binding a model binds, in model order, exactly its exchanged variables that are not
skipped. -/
theorem bindAll_eq_ok {md : Fmu.ModelDescription} {reg : Registry} {os : List Override}
    {vars : List BoundVariable} (h : bindAll md reg os = .ok vars) :
    vars.map (·.fmu) = md.modelVariables.filter (exchanged os) ∧ ∀ b ∈ vars, b.Bound := by
  unfold bindAll at h
  obtain ⟨r, hr, h⟩ := Except.exists_of_bind_eq_ok h
  cases h
  refine List.forIn_except_inv
    (fun pre vars => vars.map (·.fmu) = pre.filter (exchanged os) ∧ ∀ b ∈ vars, b.Bound)
    ?_ ⟨rfl, by simp⟩ hr
  intro pre v post vs step _ ⟨hmap, hbound⟩ hf
  dsimp only at hf
  split at hf
  · -- a skipped variable
    rename_i hskip
    cases hf
    exact ⟨vs, rfl, by simp [List.filter_append, exchanged, hskip, hmap], hbound⟩
  · rename_i hskip
    split at hf
    · -- a variable that is not exchanged
      rename_i hdir
      split at hf
      · cases hf
      · cases hf
        exact ⟨vs, rfl, by simp [List.filter_append, exchanged, hdir, hmap], hbound⟩
    · rename_i dir hdir
      obtain ⟨b, hb, hf⟩ := Except.exists_of_bind_eq_ok hf
      obtain ⟨hfmu, hbd⟩ := bindVariable_bound hdir hb
      split at hf
      · cases hf
      · cases hf
        refine ⟨_, rfl, ?_, ?_⟩
        · simp [List.filter_append, exchanged, hskip, hdir, hmap, hfmu]
        · intro b' hb'
          rcases List.mem_append.mp hb' with hb' | hb'
          · exact hbound b' hb'
          · rw [List.mem_singleton.mp hb']
            exact hbd

/-- Placing a variable returns it rebound: at most a declared member's type replaces its own. -/
theorem place_rebinds {b b' : BoundVariable} {s s' : Assembly} {rest : List String} {fuel : Nat}
    (h : place b s rest fuel = .ok (s', b')) : Rebinds b b' := by
  fun_induction place b s rest fuel generalizing s' b' with
  | case1 | case2 | case3 | case5 | case9 | case12 =>
    cases h
    exact .refl b
  | case4 | case6 | case7 | case10 | case13 => cases h
  | case8 =>
    obtain ⟨b₁, hadopt, h⟩ := Except.exists_of_bind_eq_ok h
    cases h
    exact adopt_rebinds hadopt
  | case11 | case14 =>
    rename_i ih
    obtain ⟨⟨inner, b₁⟩, hplace, h⟩ := Except.exists_of_bind_eq_ok h
    cases h
    exact ih hplace

theorem gather_rebinds {declared : List (String × Descriptor)} :
    ∀ (vars : List BoundVariable) (out : List Assembly) (done : List BoundVariable)
      {out' : List Assembly} {done' : List BoundVariable},
      gather declared out done vars = .ok (out', done') →
      ∃ moved, done' = done ++ moved ∧ List.Forall₂ Rebinds vars moved
  | [], out, done, _, _, h => by
    cases h
    exact ⟨[], by simp, .nil⟩
  | b :: vars, out, done, out', done', h => by
    rcases gather_cons_eq_ok h with ⟨-, h⟩ | ⟨-, _, _, _, b', -, hplace, h⟩
    · obtain ⟨moved, rfl, hm⟩ := gather_rebinds vars out _ h
      exact ⟨b :: moved, by simp, .cons (.refl b) hm⟩
    · obtain ⟨moved, rfl, hm⟩ := gather_rebinds vars _ _ h
      exact ⟨b' :: moved, by simp, .cons (place_rebinds hplace) hm⟩

/-- Assembling hands back every variable, in order, rebound by its placement. -/
theorem assemble_rebinds {vars : List BoundVariable} {declared : List (String × Descriptor)}
    {out : List Assembly} {done : List BoundVariable}
    (h : assemble vars declared = .ok (out, done)) :
    List.Forall₂ Rebinds vars done := by
  obtain ⟨out0, hg, -, -⟩ := assemble_eq_ok.mp h
  obtain ⟨moved, rfl, hm⟩ := gather_rebinds vars [] [] hg
  simpa using hm

namespace Assembly

mutual

theorem variableNames_define : ∀ s : Assembly, (define s).variableNames = s.variableNames
  | .mk p o d dec slots clocks => by
    have := variableNames_define_go dec slots
    cases dec <;> simp [define, variableNames, this]

theorem variableNames_define_go (dec : Bool) : ∀ slots : List Slot,
    variableNames.go (define.go dec slots) = variableNames.go slots
  | [] => rfl
  | (m, t, v, some s) :: rest => by
    simp [define.go, variableNames.go, variableNames_define s, variableNames_define_go dec rest]
  | (m, t, v, none) :: rest => by
    simp [define.go, variableNames.go, variableNames_define_go dec rest]

end

theorem mem_slotVariables_of_varAt {n : String} :
    ∀ (q : List String) (s : Assembly), s.varAt q = some n → n ∈ s.slotVariables
  | [], _, h => by cases h
  | [m], s, h => by
    rw [varAt_single] at h
    obtain ⟨sl, hsl, hv⟩ := Option.bind_eq_some_iff.mp h
    rw [slotVariables_eq]
    exact List.mem_append_left _ (List.mem_filterMap.mpr ⟨sl, List.mem_of_find?_eq_some hsl, hv⟩)
  | m :: k :: q, s, h => by
    rw [varAt_cons_cons] at h
    obtain ⟨u, hu, h⟩ := Option.bind_eq_some_iff.mp h
    obtain ⟨sl, hsl, hsu⟩ := Option.bind_eq_some_iff.mp hu
    rw [slotVariables_eq]
    refine List.mem_append_right _ (List.mem_flatMap.mpr ⟨sl, List.mem_of_find?_eq_some hsl, ?_⟩)
    simpa [hsu] using mem_slotVariables_of_varAt (k :: q) u h

end Assembly

open Assembly

/-- A gathered data variable with a structured name is a variable of the structure of its root. -/
theorem Gathered.holds {P : List BoundVariable} {out : List Assembly} {b : BoundVariable}
    (hG : Gathered P out) (hb : b ∈ structured P) (hclock : b.isClock = false) :
    ∃ s ∈ out, s.path = [Path.root b.path] ∧ b.name ∈ s.variableNames := by
  obtain ⟨s, hs, hpath, hvar⟩ := hG.placed b hb hclock
  exact ⟨s, hs, hpath,
    (hG.sound s hs).variableNames_perm.symm.subset (mem_slotVariables_of_varAt _ s hvar)⟩

section Assembled

variable {vars : List BoundVariable} {declared : List (String × Descriptor)}
  {out : List Assembly} {done : List BoundVariable}

theorem assemble_roots_nodup (h : assemble vars declared = .ok (out, done)) :
    (out.map fun s => Path.root s.path).Nodup := by
  obtain ⟨out0, hg, -, rfl⟩ := assemble_eq_ok.mp h
  obtain ⟨-, hR⟩ := gather_gathered vars [] [] [] Gathered.nil rfl hg
  have hroots : out0.map (fun s => Path.root s.path) = roots vars := by
    have := congrArg (List.map Path.root) hR
    simpa [List.map_map, Function.comp_def, Path.root] using this
  simp only [List.map_map, Function.comp_def, define_path, hroots, roots]
  exact eraseDups_nodup _

/-- A data variable with a structured name sits in the structure of its root. -/
theorem assemble_holds (h : assemble vars declared = .ok (out, done)) :
    ∀ b ∈ done, 2 ≤ b.path.length → b.isClock = false →
      ∃ s ∈ out, Path.root s.path = Path.root b.path ∧ b.name ∈ s.variableNames := by
  obtain ⟨out0, hg, -, rfl⟩ := assemble_eq_ok.mp h
  obtain ⟨hG, -⟩ := gather_gathered vars [] [] [] Gathered.nil rfl hg
  intro b' hb' hlong hclock
  obtain ⟨b, hb, hr⟩ := List.exists_of_forall₂_mem_left (assemble_rebinds h).flip b' hb'
  rw [hr.path] at hlong
  rw [hr.isClock_eq] at hclock
  obtain ⟨s, hs, hpath, hmem⟩ := hG.holds (by simpa [structured] using ⟨hb, hlong⟩) hclock
  refine ⟨define s, List.mem_map_of_mem hs, by simp [hpath, hr.path, Path.root], ?_⟩
  rwa [variableNames_define, hr.name_eq]

/-- A structure holds data variables of its own root only, when names are distinct. -/
theorem assemble_held (hnd : (vars.map (·.name)).Nodup)
    (h : assemble vars declared = .ok (out, done)) :
    ∀ s ∈ out, ∀ n ∈ s.variableNames,
      ∃ b ∈ done, b.name = n ∧ 2 ≤ b.path.length ∧ Path.root b.path = Path.root s.path := by
  obtain ⟨out0, hg, -, rfl⟩ := assemble_eq_ok.mp h
  obtain ⟨hG, -⟩ := gather_gathered vars [] [] [] Gathered.nil rfl hg
  simp only [List.nil_append] at hG
  intro s' hs' n hn
  obtain ⟨s, hs, rfl⟩ := List.mem_map.mp hs'
  rw [variableNames_define] at hn
  -- between them the structures hold each variable once
  have hflat : (out0.flatMap variableNames).Nodup :=
    hG.vars.nodup_iff.mpr (List.Nodup.sublist
      ((List.filter_sublist.trans List.filter_sublist).map _) hnd)
  obtain ⟨b, hb, rfl⟩ := List.mem_map.mp (hG.vars.subset (List.mem_flatMap.mpr ⟨s, hs, hn⟩))
  obtain ⟨hbs, hclock⟩ := List.mem_filter.mp hb
  obtain ⟨hb, hlong⟩ := List.mem_filter.mp hbs
  -- so the structure holding it is the one of its root
  obtain ⟨s₁, hs₁, hpath, hn₁⟩ := hG.holds hbs (by simpa using hclock)
  obtain rfl := List.eq_of_mem_flatMap_nodup hflat hs hs₁ hn hn₁
  obtain ⟨b', hb', hr⟩ := List.exists_of_forall₂_mem_left (assemble_rebinds h) b hb
  refine ⟨b', hb', hr.name_eq, by simpa [hr.path] using hlong, ?_⟩
  rw [define_path, hpath, hr.path]
  rfl

end Assembled

theorem find?_name_eq {vars : List BoundVariable} {b : BoundVariable}
    (hnd : (vars.map (·.name)).Nodup) (hb : b ∈ vars) : vars.find? (·.name == b.name) = some b := by
  induction vars with
  | nil => cases hb
  | cons x vars ih =>
    rw [List.map_cons, List.nodup_cons] at hnd
    rcases List.mem_cons.mp hb with rfl | hb
    · simp
    · have hne : x.name ≠ b.name := fun h => hnd.1 (h ▸ List.mem_map_of_mem hb)
      simp [hne, ih hnd.2 hb]

/-! ## Topics -/

/-- Topic lists as configuring keeps them: publications publish, subscriptions subscribe, and no
name is used twice within a list. -/
structure Directed (pubs subs : List Topic) : Prop where
  pubs_nodup : (pubs.map (·.name)).Nodup
  subs_nodup : (subs.map (·.name)).Nodup
  publish : ∀ t ∈ pubs, t.direction = .publish
  subscribe : ∀ t ∈ subs, t.direction = .subscribe

theorem Directed.nil : Directed [] [] := ⟨.nil, .nil, by simp, by simp⟩

/-- A topic list of one direction takes a topic of that direction under a fresh name. -/
theorem directed_append {ts : List Topic} {t : Topic} {d : Direction}
    (hnd : (ts.map (·.name)).Nodup) (hdir : ∀ x ∈ ts, x.direction = d)
    (hfresh : ¬∃ x ∈ ts, x.name = t.name) (ht : t.direction = d) :
    ((ts ++ [t]).map (·.name)).Nodup ∧ ∀ x ∈ ts ++ [t], x.direction = d := by
  refine ⟨?_, fun x hx => ?_⟩
  · simpa [List.nodup_append, hnd] using fun x hx hname => hfresh ⟨x, hx, hname⟩
  · rcases List.mem_append.mp hx with hx | hx
    · exact hdir x hx
    · rw [List.mem_singleton.mp hx, ht]

/-- Adding a topic keeps the lists directed and puts the topic into one of them. -/
theorem addTopic_eq_ok {pubs subs pubs' subs' : List Topic} {t : Topic} (hd : Directed pubs subs)
    (h : addTopic pubs subs t = .ok (pubs', subs')) :
    Directed pubs' subs' ∧ (pubs' ++ subs').Perm (pubs ++ subs ++ [t]) := by
  unfold addTopic at h
  cases hdir : t.direction with
  | publish =>
    -- a publication, under a name no publication has
    simp only [hdir, beq_self_eq_true, if_true, List.any_eq_true, beq_iff_eq] at h
    split at h
    · cases h
    · rename_i hfresh
      cases h
      obtain ⟨hnd, hpub⟩ := directed_append hd.pubs_nodup hd.publish hfresh hdir
      refine ⟨⟨hnd, hd.subs_nodup, hpub, hd.subscribe⟩, ?_⟩
      rw [List.append_assoc, List.append_assoc]
      exact List.Perm.append_left pubs List.perm_append_comm
  | subscribe =>
    -- a subscription, under a name no subscription has
    simp only [hdir, reduceCtorEq, if_false, List.any_eq_true, beq_iff_eq] at h
    split at h
    · cases h
    · rename_i hfresh
      cases h
      obtain ⟨hnd, hsub⟩ := directed_append hd.subs_nodup hd.subscribe hfresh hdir
      exact ⟨⟨hd.pubs_nodup, hnd, hd.publish, hsub⟩, by rw [List.append_assoc]⟩

/-- The variables that get a topic of their own: data variables with a plain, unreserved name. -/
def ownTopic (reserved : List String) (b : BoundVariable) : Bool :=
  b.path.length == 1 && !b.isClock && !reserved.contains b.name

theorem ownTopic_eq (reserved : List String) (b : BoundVariable) :
    ownTopic reserved b = !(b.path.length != 1 || b.isClock || reserved.contains b.name) := by
  unfold ownTopic bne
  cases b.path.length == 1 <;> cases b.isClock <;> cases reserved.contains b.name <;> rfl

/-- The structures that get a topic: those with an unreserved root that hold a bound variable. -/
def structureTopic (reserved : List String) (vars : List BoundVariable) (s : Assembly) : Bool :=
  !reserved.contains (Path.root s.path) &&
    !(s.variableNames.filterMap fun n => vars.find? (·.name == n)).isEmpty

/-- Where a configured topic comes from. It carries a variable with a topic of its own, in the
variable's direction and under its wire type; or it carries a structure with a topic, under the
structure's type, and every variable of the structure travels in the topic's direction. -/
inductive Sourced (reserved : List String) (vars : List BoundVariable) (structs : List Assembly)
    (t : Topic) : Prop
  | single (b : BoundVariable) : b ∈ vars → ownTopic reserved b = true →
      t.carrier = .single b.name → t.direction = b.direction →
      t.type = b.type.getD (.primitive .invalid) → Sourced reserved vars structs t
  | assembly (s : Assembly) : s ∈ structs → structureTopic reserved vars s = true →
      t.carrier = .assembly (Path.root s.path) → t.type = s.descriptor →
      (∀ b ∈ s.variableNames.filterMap (fun n => vars.find? (·.name == n)),
        b.direction = t.direction) → Sourced reserved vars structs t

/-- Topic lists as the loops of configuring build them: directed, with the carriers `C` between
them, and every topic sourced. -/
structure Built (reserved : List String) (vars : List BoundVariable) (structs : List Assembly)
    (C : List Carrier) (pubs subs : List Topic) : Prop where
  directed : Directed pubs subs
  carriers : ((pubs ++ subs).map (·.carrier)).Perm C
  sourced : ∀ t ∈ pubs ++ subs, Sourced reserved vars structs t

theorem Built.add {reserved : List String} {vars : List BoundVariable} {structs : List Assembly}
    {C : List Carrier} {pubs subs pubs' subs' : List Topic} {t : Topic}
    (hb : Built reserved vars structs C pubs subs) (ht : Sourced reserved vars structs t)
    (h : addTopic pubs subs t = .ok (pubs', subs')) :
    Built reserved vars structs (C ++ [t.carrier]) pubs' subs' := by
  obtain ⟨hd, hperm⟩ := addTopic_eq_ok hb.directed h
  refine ⟨hd, (hperm.map _).trans ?_, fun t' ht' => ?_⟩
  · simpa using hb.carriers.append_right [t.carrier]
  · rcases List.mem_append.mp (hperm.subset ht') with ht' | ht'
    · exact hb.sourced t' ht'
    · rw [List.mem_singleton.mp ht']
      exact ht

/-- What configuring a model leaves: the model's variables bound and assembled, and directed
topic lists with one topic for each variable with a topic of its own and one for each structure
with a topic, each sourced from what it carries. -/
theorem configure_eq_ok {md : Fmu.ModelDescription} {opts : Options} {l : Layout}
    (h : configure md opts = .ok l) :
    ∃ reg vars declared, bindAll md reg opts.overrides = .ok vars ∧
      assemble vars declared = .ok (l.structures, l.bound) ∧
      Built opts.reserved l.bound l.structures
        ((l.bound.filter (ownTopic opts.reserved)).map (fun b => Carrier.single b.name) ++
          (l.structures.filter (structureTopic opts.reserved l.bound)).map
            (fun s => Carrier.assembly (Path.root s.path)))
        l.publications l.subscriptions := by
  unfold configure at h
  obtain ⟨reg, -, h⟩ := Except.exists_of_bind_eq_ok h
  obtain ⟨_, -, h⟩ := Except.exists_of_bind_eq_ok h
  obtain ⟨vars, hvars, h⟩ := Except.exists_of_bind_eq_ok h
  obtain ⟨⟨topicNames, declared⟩, -, h⟩ := Except.exists_of_bind_eq_ok h
  obtain ⟨⟨structs, done⟩, hasm, h⟩ := Except.exists_of_bind_eq_ok h
  obtain ⟨_, -, h⟩ := Except.exists_of_bind_eq_ok h
  obtain ⟨r₁, hloop₁, h⟩ := Except.exists_of_bind_eq_ok h
  obtain ⟨r₂, hloop₂, h⟩ := Except.exists_of_bind_eq_ok h
  cases h
  -- the variables with a topic of their own come first, in order
  have h₁ : Built opts.reserved done structs
      ((done.filter (ownTopic opts.reserved)).map fun b => Carrier.single b.name) r₁.1 r₁.2 := by
    refine List.forIn_except_inv (fun pre (ps : List Topic × List Topic) =>
        Built opts.reserved done structs
          ((pre.filter (ownTopic opts.reserved)).map fun b => Carrier.single b.name) ps.1 ps.2)
      ?_ ⟨Directed.nil, by simp, by simp⟩ hloop₁
    intro pre b post ps step hl hb hf
    dsimp only at hf
    split at hf
    · rename_i hskip
      cases hf
      have hown : ownTopic opts.reserved b = false := by
        rw [ownTopic_eq, hskip]
        rfl
      exact ⟨(ps.1, ps.2), rfl, by simpa [List.filter_append, hown] using hb⟩
    · rename_i hskip
      obtain ⟨⟨pubs, subs⟩, hadd, hf⟩ := Except.exists_of_bind_eq_ok hf
      cases hf
      have hown : ownTopic opts.reserved b = true := by
        rw [ownTopic_eq]
        simpa using hskip
      refine ⟨(pubs, subs), rfl, ?_⟩
      simpa [List.filter_append, hown] using
        hb.add (.single b (by simp [hl]) hown rfl rfl rfl) hadd
  -- then the structures with a topic, in order
  have h₂ : Built opts.reserved done structs
      ((done.filter (ownTopic opts.reserved)).map (fun b => Carrier.single b.name) ++
        (structs.filter (structureTopic opts.reserved done)).map
          fun s => Carrier.assembly (Path.root s.path)) r₂.1 r₂.2 := by
    refine List.forIn_except_inv (fun pre (ps : List Topic × List Topic) =>
        Built opts.reserved done structs
          ((done.filter (ownTopic opts.reserved)).map (fun b => Carrier.single b.name) ++
            (pre.filter (structureTopic opts.reserved done)).map
              fun s => Carrier.assembly (Path.root s.path)) ps.1 ps.2)
      ?_ (by simpa using h₁) hloop₂
    intro pre s post ps step hl hb hf
    dsimp only at hf
    split at hf
    · -- a reserved root
      rename_i hres
      cases hf
      have hst : structureTopic opts.reserved done s = false := by
        simp [structureTopic, List.contains_iff_mem.mp hres]
      exact ⟨(ps.1, ps.2), rfl, by simpa [List.filter_append, hst] using hb⟩
    · rename_i hres
      replace hres : Path.root s.path ∉ opts.reserved := by simpa using hres
      split at hf
      · -- a structure holding no bound variable
        rename_i hnil
        cases hf
        have hst : structureTopic opts.reserved done s = false := by simp [structureTopic, hnil]
        exact ⟨(ps.1, ps.2), rfl, by simpa [List.filter_append, hst] using hb⟩
      · rename_i first rest hmembers
        obtain ⟨_, hcheck, hf⟩ := Except.exists_of_bind_eq_ok hf
        obtain ⟨⟨pubs, subs⟩, hadd, hf⟩ := Except.exists_of_bind_eq_ok hf
        cases hf
        -- the members after the first travel in its direction
        have hsame : ∀ b ∈ rest, b.direction = first.direction := by
          refine List.forIn_except_inv (fun pre _ => ∀ b ∈ pre, b.direction = first.direction) ?_
            (by simp) hcheck
          intro pre' b post' _ step' _ hpre hf'
          split at hf'
          · cases hf'
          · rename_i hdir
            cases hf'
            refine ⟨_, rfl, fun b' hb' => ?_⟩
            rcases List.mem_append.mp hb' with hb' | hb'
            · exact hpre b' hb'
            · rw [List.mem_singleton.mp hb']
              simpa using hdir
        have hst : structureTopic opts.reserved done s = true := by
          simp [structureTopic, hres, hmembers]
        have hsrc : ∀ name, Sourced opts.reserved done structs
            { name, direction := first.direction, type := s.descriptor,
              carrier := .assembly (Path.root s.path), clocks := s.allClocks } := by
          refine fun name => .assembly s (by simp [hl]) hst rfl rfl ?_
          rw [hmembers]
          intro b hb
          rcases List.mem_cons.mp hb with rfl | hb
          · rfl
          · exact hsame b hb
        refine ⟨(pubs, subs), rfl, ?_⟩
        simpa [List.filter_append, hst] using hb.add (hsrc _) hadd
  exact ⟨reg, vars, declared, hvars, hasm, h₂⟩

/-! ## The topic map -/

/-- Whether a topic carries the variable called `name`: as its variable, or inside its
structure. -/
def carries (l : Layout) (t : Topic) (name : String) : Bool :=
  match t.carrier with
  | .single n => n == name
  | .assembly root => ((l.findStructure root).map (·.variableNames.contains name)).getD false

/-- A topic map as configuring a model leaves it. Topic names are distinct within each direction,
and each list holds topics of its own direction. An exchanged data variable that is not skipped
travels on exactly one topic, in its own direction, unless its plain name, or the root of its
structured name, is reserved. A topic carries a variable under the variable's wire type, or a
structure under the structure's type with all the structure's variables going one way. -/
structure TopicMap (md : Fmu.ModelDescription) (opts : Options) (l : Layout) : Prop
    extends Directed l.publications l.subscriptions where
  carried : ∀ v ∈ md.modelVariables, ∀ dir, directionOf v = some dir →
    ((opts.overrides.find? (·.name == v.name)).map (·.skip)).getD false = false →
    v.kind ≠ .clock → ∀ p, Path.parse v.name = .ok p →
    (if p.length = 1 then v.name else Path.root p) ∉ opts.reserved →
    ∃ t, (l.publications ++ l.subscriptions).filter (l.carries · v.name) = [t] ∧ t.direction = dir
  typed : ∀ t ∈ l.publications ++ l.subscriptions,
    (∃ b ∈ l.bound, t.carrier = .single b.name ∧ b.type = some t.type) ∨
    (∃ s ∈ l.structures, t.carrier = .assembly (Path.root s.path) ∧ t.type = s.descriptor ∧
      ∀ n ∈ s.variableNames, ∀ b ∈ l.bound, b.name = n → b.direction = t.direction)

/-- What a configured layout is made of: its topics as configuring builds them, and its bound
variables and structures as binding and assembling leave them. -/
structure Configured (md : Fmu.ModelDescription) (opts : Options) (l : Layout) : Prop
    extends Built opts.reserved l.bound l.structures
      ((l.bound.filter (ownTopic opts.reserved)).map (fun b => Carrier.single b.name) ++
        (l.structures.filter (structureTopic opts.reserved l.bound)).map
          (fun s => Carrier.assembly (Path.root s.path)))
      l.publications l.subscriptions where
  names_nodup : (l.bound.map (·.name)).Nodup
  bound : ∀ b ∈ l.bound, b.Bound
  covers : ∀ v ∈ md.modelVariables, exchanged opts.overrides v = true → ∃ b ∈ l.bound, b.fmu = v
  roots_nodup : (l.structures.map fun s => Path.root s.path).Nodup
  holds : ∀ b ∈ l.bound, 2 ≤ b.path.length → b.isClock = false →
    ∃ s ∈ l.structures, Path.root s.path = Path.root b.path ∧ b.name ∈ s.variableNames
  held : ∀ s ∈ l.structures, ∀ n ∈ s.variableNames,
    ∃ b ∈ l.bound, b.name = n ∧ 2 ≤ b.path.length ∧ Path.root b.path = Path.root s.path

section Configured

variable {md : Fmu.ModelDescription} {opts : Options} {l : Layout}

theorem configure_configured (hnames : (md.modelVariables.map (·.name)).Nodup)
    (h : configure md opts = .ok l) : Configured md opts l := by
  obtain ⟨reg, vars, declared, hbind, hasm, hbuilt⟩ := configure_eq_ok h
  obtain ⟨hmap, hbound⟩ := bindAll_eq_ok hbind
  have hrb := assemble_rebinds hasm
  -- the bound variables are model variables, so their names are distinct
  have hnd : (vars.map (·.name)).Nodup := by
    have : vars.map (·.name) =
        (md.modelVariables.filter (exchanged opts.overrides)).map (·.name) := by
      rw [← hmap, List.map_map]
      rfl
    rw [this]
    exact (List.filter_sublist.map _).nodup hnames
  have hnames' : vars.map (·.name) = l.bound.map (·.name) :=
    List.map_eq_of_forall₂ (fun _ _ hr => hr.name_eq.symm) hrb
  refine ⟨hbuilt, hnames' ▸ hnd, fun b' hb' => ?_, fun v hv hex => ?_,
    assemble_roots_nodup hasm, assemble_holds hasm, assemble_held hnd hasm⟩
  · obtain ⟨b, hb, hr⟩ := List.exists_of_forall₂_mem_left hrb.flip b' hb'
    exact (hbound b hb).rebinds hr
  · have hv' : v ∈ vars.map (·.fmu) := hmap ▸ List.mem_filter.mpr ⟨hv, hex⟩
    obtain ⟨b, hb, hbv⟩ := List.mem_map.mp hv'
    obtain ⟨b', hb', hr⟩ := List.exists_of_forall₂_mem_left hrb b hb
    exact ⟨b', hb', hr.fmu.trans hbv⟩

namespace Configured

variable (hc : Configured md opts l)
include hc

theorem carriers_nodup : ((l.publications ++ l.subscriptions).map (·.carrier)).Nodup := by
  refine hc.carriers.nodup_iff.mpr (List.nodup_append.mpr ⟨?_, ?_, ?_⟩)
  · have hnd : ((l.bound.filter (ownTopic opts.reserved)).map (·.name)).Nodup :=
      (List.filter_sublist.map _).nodup hc.names_nodup
    simpa [List.map_map, Function.comp_def] using hnd.map fun _ _ h => Carrier.single.inj h
  · have hnd : ((l.structures.filter (structureTopic opts.reserved l.bound)).map
        fun s => Path.root s.path).Nodup :=
      (List.filter_sublist.map _).nodup hc.roots_nodup
    simpa [List.map_map, Function.comp_def] using hnd.map fun _ _ h => Carrier.assembly.inj h
  · -- a variable's carrier is never a structure's
    intro c h₁ c' h₂ heq
    obtain ⟨b, -, rfl⟩ := List.mem_map.mp h₁
    obtain ⟨s, -, rfl⟩ := List.mem_map.mp h₂
    cases heq

theorem findStructure_root {s : Assembly} (hs : s ∈ l.structures) :
    l.findStructure (Path.root s.path) = some s := by
  have hsome : (l.structures.find? fun t => Path.root t.path == Path.root s.path).isSome :=
    List.find?_isSome.mpr ⟨s, hs, beq_self_eq_true _⟩
  obtain ⟨s', hs'⟩ := Option.isSome_iff_exists.mp hsome
  have hroot : Path.root s'.path = Path.root s.path := by simpa using List.find?_some hs'
  rw [findStructure, hs', List.inj_on_of_nodup_map hc.roots_nodup (List.mem_of_find?_eq_some hs') hs
    hroot]

/-- A topic carrying a bound variable carries it as the variable's own topic or as the topic of
the structure of its root, and in the variable's direction. -/
theorem carries_cases {t : Topic} {b : BoundVariable} (ht : t ∈ l.publications ++ l.subscriptions)
    (hb : b ∈ l.bound) (hcar : l.carries t b.name = true) :
    t.direction = b.direction ∧
      t.carrier = if b.path.length = 1 then .single b.name else .assembly (Path.root b.path) := by
  cases hc.sourced t ht with
  | single b' hb' hown hcarrier hdir _ =>
    -- the topic's variable has the name, so it is the variable
    simp only [carries, hcarrier, beq_iff_eq] at hcar
    obtain rfl := List.inj_on_of_nodup_map hc.names_nodup hb' hb hcar
    have hlen : b'.path.length = 1 := by
      simp only [ownTopic, Bool.and_eq_true, beq_iff_eq] at hown
      exact hown.1.1
    exact ⟨hdir, by rw [if_pos hlen, hcarrier]⟩
  | assembly s hs _ hcarrier _ hsame =>
    -- the structure holds the variable, so the root is the variable's
    simp only [carries, hcarrier, hc.findStructure_root hs, Option.map_some, Option.getD_some,
      List.contains_iff_mem] at hcar
    obtain ⟨b', hb', hname, hlong, hroot⟩ := hc.held s hs b.name hcar
    obtain rfl := List.inj_on_of_nodup_map hc.names_nodup hb' hb hname
    refine ⟨(hsame b' ?_).symm, ?_⟩
    · exact List.mem_filterMap.mpr ⟨b'.name, hcar, find?_name_eq hc.names_nodup hb'⟩
    · rw [if_neg (by omega), hcarrier, hroot]

/-- A bound data variable whose plain name, or the root of whose structured name, is not
reserved has a topic that carries it. -/
theorem exists_carrier {b : BoundVariable} (hb : b ∈ l.bound) (hclock : b.isClock = false)
    (hne : b.path ≠ [])
    (hres : (if b.path.length = 1 then b.name else Path.root b.path) ∉ opts.reserved) :
    ∃ t ∈ l.publications ++ l.subscriptions, l.carries t b.name = true := by
  by_cases hlen : b.path.length = 1
  · -- a topic of its own
    rw [if_pos hlen] at hres
    have hown : ownTopic opts.reserved b = true := by simp [ownTopic, hlen, hclock, hres]
    have hmem : Carrier.single b.name ∈ (l.publications ++ l.subscriptions).map (·.carrier) :=
      hc.carriers.symm.subset
        (List.mem_append_left _ (List.mem_map_of_mem (List.mem_filter.mpr ⟨hb, hown⟩)))
    obtain ⟨t, ht, htc⟩ := List.mem_map.mp hmem
    exact ⟨t, ht, by simp [carries, htc]⟩
  · -- the topic of the structure of its root
    rw [if_neg hlen] at hres
    have hlong : 2 ≤ b.path.length := by
      have := List.length_pos_of_ne_nil hne
      omega
    obtain ⟨s, hs, hroot, hmem⟩ := hc.holds b hb hlong hclock
    have hst : structureTopic opts.reserved l.bound s = true := by
      have hfound : b ∈ s.variableNames.filterMap fun n => l.bound.find? (·.name == n) :=
        List.mem_filterMap.mpr ⟨b.name, hmem, find?_name_eq hc.names_nodup hb⟩
      simp only [structureTopic, hroot, Bool.and_eq_true, Bool.not_eq_true']
      exact ⟨by simpa using hres, List.isEmpty_eq_false_iff.mpr (List.ne_nil_of_mem hfound)⟩
    have hmemc : Carrier.assembly (Path.root s.path) ∈
        (l.publications ++ l.subscriptions).map (·.carrier) :=
      hc.carriers.symm.subset
        (List.mem_append_right _ (List.mem_map_of_mem (List.mem_filter.mpr ⟨hs, hst⟩)))
    obtain ⟨t, ht, htc⟩ := List.mem_map.mp hmemc
    exact ⟨t, ht, by simp [carries, htc, hc.findStructure_root hs, hmem]⟩

end Configured

end Configured

/-- Configuring a model whose variables have distinct names gives a consistent topic map. -/
theorem configure_topic_map {md : Fmu.ModelDescription} {opts : Options} {l : Layout}
    (hnames : (md.modelVariables.map (·.name)).Nodup) (h : configure md opts = .ok l) :
    TopicMap md opts l := by
  have hc := configure_configured hnames h
  refine { hc.directed with carried := ?_, typed := ?_ }
  · intro v hv dir hdir hskip hclock p hp hres
    obtain ⟨b, hb, rfl⟩ := hc.covers v hv (by simp [exchanged, hskip, hdir])
    have hbd := hc.bound b hb
    obtain rfl : b.path = p := Except.ok.inj (hbd.parse.symm.trans hp)
    have hclock' : b.isClock = false := by simpa [BoundVariable.isClock] using hclock
    obtain ⟨t, ht, hcar⟩ := hc.exists_carrier hb hclock' (Path.parse_ok_segments hp).1 hres
    -- every topic carrying the variable has the carrier of its name, and carriers are distinct
    refine ⟨t, List.filter_eq_singleton_of_nodup hc.carriers_nodup
      (fun t' ht' hcar' => (hc.carries_cases ht' hb hcar').2) ht hcar, ?_⟩
    rw [(hc.carries_cases ht hb hcar).1]
    exact Option.some_inj.mp (hbd.direction.symm.trans hdir)
  · intro t ht
    cases hc.sourced t ht with
    | single b hb hown hcarrier _ htype =>
      left
      have hclock : b.isClock = false := by
        simp only [ownTopic, Bool.and_eq_true, Bool.not_eq_true'] at hown
        exact hown.1.2
      obtain ⟨d, hd⟩ := Option.isSome_iff_exists.mp ((hc.bound b hb).typed hclock)
      exact ⟨b, hb, hcarrier, by rw [htype, hd]; rfl⟩
    | assembly s hs _ hcarrier htype hsame =>
      right
      refine ⟨s, hs, hcarrier, htype, fun n hn b hb hname => hsame b ?_⟩
      subst hname
      exact List.mem_filterMap.mpr ⟨b.name, hn, find?_name_eq hc.names_nodup hb⟩

/-- An output with a plain name and two inputs of a structure `pose`. -/
theorem configure_topic_map_pose :
    let md : Fmu.ModelDescription := { modelVariables := [
      { name := "speed", vr := 1, causality := .output, kind := .float64 },
      { name := "pose.x", vr := 2, causality := .input, kind := .float64 },
      { name := "pose.y", vr := 3, causality := .input, kind := .int32 }] }
    let opts : Options := {}
    (md.modelVariables.map (·.name)).Nodup ∧
      ∃ l, configure md opts = .ok l ∧ TopicMap md opts l := by
  intro md opts
  have hnames : (md.modelVariables.map (·.name)).Nodup := by decide
  have hok : (configure md opts).isOk = true := by decide +kernel
  obtain ⟨l, hl⟩ : ∃ l, configure md opts = .ok l := by
    cases h : configure md opts with
    | ok l => exact ⟨l, rfl⟩
    | error e =>
      rw [h] at hok
      cases hok
  exact ⟨hnames, l, hl, configure_topic_map hnames hl⟩

end Layout
end CoSimBridge
