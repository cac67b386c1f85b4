import Mathlib
import CoSimBridge.Fmu.Loopback
import CoSimBridge.Proofs.Fmu.Packing
import CoSimBridge.Proofs.Except
/-!
# The in-memory FMU keeps the shapes of its variables

A variable of a fixed-width kind (every kind but strings, byte strings and the kinds without
elements) has as many elements as its shape gives (`ModelDescription.count?`). The in-memory FMU
starts each reference at the start value of its first variable, lets a write keep the number of
elements, and at every step copies its links and resets its input clocks.

None of this checks the shapes themselves: a start value may list any number of fields, a
reference may be shared by variables of different shapes and a link may join two arrays of
different lengths. `ModelDescription.Consistent` states what the model and the links must
promise instead, and under it every fixed-width variable holds exactly its element count after any
sequence of reads, writes and steps, and reads back that many elements (`shapes_kept`). Without
it the count is lost at the start: a scalar whose start value lists two numbers holds two
(`scalar_keeps_listed_start`).
-/

namespace CoSimBridge
set_option autoImplicit false

namespace Fmu

namespace NativeValues

/-! ## Element counts of fixed-width values -/

/-- An append that succeeds on a fixed-width value adds one element's bytes. -/
theorem push_ok_of_width {nv nv' : NativeValues} {v : Value} (hw : 0 < nv.width)
    (h : nv.push v = .ok nv') : ∃ bs, nv' = { nv with data := nv.data ++ bs } ∧ bs.length = nv.width := by
  cases hr : refusal nv.kind nv.enumWidth v with
  | none =>
    obtain ⟨bs, hpush, hbs, -⟩ := push_fixed hr hw
    rw [hpush, Except.ok.injEq] at h
    exact ⟨bs, h.symm, hbs⟩
  | some c =>
    obtain ⟨e, he, -⟩ := push_refused hr
    rw [he] at h
    cases h

theorem width_len_push {nv nv' : NativeValues} {v : Value} (hw : 0 < nv.width)
    (h : nv.push v = .ok nv') : nv'.width = nv.width ∧ nv'.len = nv.len + 1 := by
  obtain ⟨bs, rfl, hbs⟩ := push_ok_of_width hw h
  have hw' : ({ nv with data := nv.data ++ bs } : NativeValues).width = nv.width := by
    simp only [width]
  refine ⟨hw', ?_⟩
  rw [len_of_width (hw'.symm ▸ hw), len_of_width hw, hw', List.length_append, hbs,
    Nat.add_div_right _ hw]

/-- Appending elements one by one, each through `push`, adds one element for each. -/
theorem width_len_foldlM_push {α : Type} {g : NativeValues → α → Except Fault NativeValues}
    (hg : ∀ nv a nv', g nv a = .ok nv' → ∃ v, nv.push v = .ok nv') :
    ∀ (l : List α) (nv nv' : NativeValues), 0 < nv.width → l.foldlM g nv = .ok nv' →
      nv'.width = nv.width ∧ nv'.len = nv.len + l.length
  | [], nv, nv', _, h => by
    cases h
    simp
  | a :: l, nv, nv', hw, h => by
    rw [List.foldlM_cons] at h
    obtain ⟨p, hp, hrest⟩ := Except.exists_of_bind_eq_ok h
    obtain ⟨v, hv⟩ := hg nv a p hp
    obtain ⟨hpw, hpl⟩ := width_len_push hw hv
    obtain ⟨hw', hl'⟩ := width_len_foldlM_push hg l p nv' (hpw ▸ hw) hrest
    refine ⟨hw'.trans hpw, ?_⟩
    rw [hl', hpl, List.length_cons]
    omega

/-- Repeating the first element stops at `n` elements, when the fuel suffices. -/
theorem width_len_fill {n : Nat} :
    ∀ (fuel : Nat) (nv nv' : NativeValues), 0 < nv.width → n ≤ nv.len + fuel →
      nv.fill n fuel = .ok nv' → nv'.width = nv.width ∧ nv'.len = max nv.len n
  | 0, nv, nv', _, hn, h => by
    cases h
    exact ⟨rfl, by omega⟩
  | fuel + 1, nv, nv', hw, hn, h => by
    unfold fill at h
    split at h
    · obtain ⟨v, -, h⟩ := Except.exists_of_bind_eq_ok h
      obtain ⟨p, hp, h⟩ := Except.exists_of_bind_eq_ok h
      obtain ⟨hpw, hpl⟩ := width_len_push hw hp
      obtain ⟨hw', hl'⟩ := width_len_fill fuel p nv' (hpw ▸ hw) (by omega) h
      exact ⟨hw'.trans hpw, by omega⟩
    · cases h
      exact ⟨rfl, by omega⟩

/-- Read as a fixed-width kind, a value of that kind's width has its own number of elements. -/
theorem len_concat_empty {k : Kind} {ew : Int} {nv : NativeValues}
    (hw : 0 < ({ kind := k, enumWidth := ew } : NativeValues).width)
    (h : nv.width = ({ kind := k, enumWidth := ew } : NativeValues).width) :
    (({ kind := k, enumWidth := ew } : NativeValues).concat nv).len = nv.len := by
  rw [len_of_width ((width_concat _ nv).symm ▸ hw), len_of_width (h.symm ▸ hw), width_concat, h]
  simp [concat]

end NativeValues

open NativeValues

/-! ## Start values -/

/-- The start value of a fixed-width variable of `n` elements gives zeros when it lists no field,
its one field repeated up to `n` (but at least once), and otherwise every field it lists. -/
theorem parseStart_len {k : Kind} {ew : Int} {start : String} {n : Int} {nv : NativeValues}
    (hw : 0 < ({ kind := k, enumWidth := ew } : NativeValues).width)
    (h : parseStart k ew start n = .ok nv) :
    nv.width = ({ kind := k, enumWidth := ew } : NativeValues).width ∧
      nv.len = if Text.fields start = [] then n.toNat
        else if (Text.fields start).length = 1 then max 1 n.toNat
        else (Text.fields start).length := by
  have hk : (k == .string) = false := by
    cases k <;> simp_all [width]
  have hempty : ({ kind := k, enumWidth := ew } : NativeValues).len = 0 := by
    rw [len_of_width hw]
    simp
  simp only [parseStart, hk, Bool.false_eq_true, ↓reduceIte] at h
  split at h
  · -- no field: as many zeros as elements
    rename_i hnil
    obtain ⟨hw', hl'⟩ := width_len_foldlM_push (fun nv a nv' h => ⟨a, h⟩) _ _ nv hw h
    simp only [List.isEmpty_iff] at hnil
    simp [hw', hl', hempty, hnil]
  · rename_i hne
    simp only [List.isEmpty_iff] at hne
    obtain ⟨nv₁, h₁, h⟩ := Except.exists_of_bind_eq_ok h
    have hstep : ∀ (nv : NativeValues) (f : String) nv', (do
        let v ← (readField k f).mapError fun m =>
          Fault.text ("start value " ++ Text.quote f ++ ": " ++ m)
        nv.push v) = Except.ok nv' → ∃ v, nv.push v = .ok nv' := by
      intro nv f nv' h
      obtain ⟨v, -, hv⟩ := Except.exists_of_bind_eq_ok h
      exact ⟨v, hv⟩
    obtain ⟨hw₁, hl₁⟩ := width_len_foldlM_push hstep _ _ nv₁ hw h₁
    split at h
    · -- one field, repeated
      rename_i hone
      have hone : (Text.fields start).length = 1 := by simpa using hone
      obtain ⟨hw', hl'⟩ := width_len_fill n.toNat nv₁ nv (hw₁ ▸ hw) (by omega) h
      refine ⟨hw'.trans hw₁, ?_⟩
      simp [hl', hl₁, hempty, hone, hne]
    · rename_i hmany
      cases h
      simp only [beq_iff_eq] at hmany
      simp [hw₁, hl₁, hempty, hne, hmany]

/-! ## What a model promises about shapes -/

namespace ModelDescription

/-- The bytes an element of kind `k` takes in the interface of `md`; zero for the kinds whose
elements have no fixed width. -/
def widthOf (md : ModelDescription) (k : Kind) : Nat :=
  ({ kind := k, enumWidth := md.enumWidth } : NativeValues).width

/-- The number of elements of `v`, when its shape can be read. -/
def count? (md : ModelDescription) (v : Variable) : Option Int :=
  match md.shape v with
  | .ok sh => some (elementCount sh)
  | .error _ => none

/-- `nv` holds `n` elements of kind `k` in the layout of `md`. -/
def Fits (md : ModelDescription) (k : Kind) (n : Int) (nv : NativeValues) : Prop :=
  nv.width = md.widthOf k ∧ (nv.len : Int) = n

/-- Every link joins two variables of one kind, source first. -/
def Joins (md : ModelDescription) (links : List (Nat × Nat)) : Prop :=
  ∀ l ∈ links, ∃ f t, md.byReference? l.1 = some f ∧ md.byReference? l.2 = some t ∧
    f.kind = t.kind

theorem count?_eq_some {md : ModelDescription} {v : Variable} {n : Int} :
    md.count? v = some n ↔ ∃ sh, md.shape v = .ok sh ∧ elementCount sh = n := by
  unfold count?
  split <;> simp_all

theorem byReference?_spec {md : ModelDescription} {r : Nat} {v : Variable}
    (h : md.byReference? r = some v) : v ∈ md.modelVariables ∧ v.vr = r :=
  ⟨List.mem_of_find?_eq_some h, by simpa using List.find?_some h⟩

theorem exists_byReference? {md : ModelDescription} {v : Variable} (hv : v ∈ md.modelVariables) :
    ∃ d, md.byReference? v.vr = some d :=
  Option.isSome_iff_exists.mp (List.find?_isSome.mpr ⟨v, hv, by simp⟩)

end ModelDescription

/-- The start value of `v` lays out `n` elements: it lists no field, so that all are zero; or one,
repeated, when there is at least one element; or exactly `n`. -/
def Variable.StartFits (v : Variable) (n : Int) : Prop :=
  Text.fields v.start = [] ∨ (Text.fields v.start).length = 1 ∧ 0 < n ∨
    ((Text.fields v.start).length : Int) = n

/-- What the in-memory FMU takes on trust from its model and links for fixed-width variables: the
variable that decides a reference has a nonnegative element count that its start value lays out,
variables sharing a reference have one kind and one count, and linked variables have one
count. -/
structure ModelDescription.Consistent (md : ModelDescription) (links : List (Nat × Nat)) :
    Prop where
  start : ∀ r v, md.byReference? r = some v → 0 < md.widthOf v.kind → ∀ n, md.count? v = some n →
    0 ≤ n ∧ v.StartFits n
  shared : ∀ v ∈ md.modelVariables, ∀ w ∈ md.modelVariables, v.vr = w.vr → v.kind = w.kind ∧
    (0 < md.widthOf v.kind → ∀ n m, md.count? v = some n → md.count? w = some m → n = m)
  linked : ∀ l ∈ links, ∀ f t, md.byReference? l.1 = some f → md.byReference? l.2 = some t →
    0 < md.widthOf f.kind → ∀ n m, md.count? f = some n → md.count? t = some m → n = m

/-- A start value that lays out `n` elements gives exactly `n`. -/
theorem parseStart_fits {v : Variable} {md : ModelDescription} {n : Int} {nv : NativeValues}
    (hw : 0 < md.widthOf v.kind) (h : parseStart v.kind md.enumWidth v.start n = .ok nv)
    (hn : 0 ≤ n) (hs : v.StartFits n) : md.Fits v.kind n nv := by
  obtain ⟨hw', hl⟩ := parseStart_len hw h
  refine ⟨hw', ?_⟩
  rw [hl]
  rcases hs with hnil | ⟨hone, hpos⟩ | hall
  · simp [hnil, hn]
  · have : Text.fields v.start ≠ [] := by
      intro h0
      simp [h0] at hone
    simp only [this, hone, ↓reduceIte]
    omega
  · by_cases hnil : Text.fields v.start = []
    · simp only [hnil, List.length_nil, Nat.cast_zero] at hall
      simp [hnil, ← hall]
    · by_cases hone : (Text.fields v.start).length = 1
      · simp only [hone, Nat.cast_one] at hall
        simp [hnil, hone, ← hall]
      · simp [hnil, hone, hall]

/-- Setting the value of one key in a list of pairs changes what that key looks up, and only
when the key is there. -/
theorem List.lookup_map_set {β : Type} (l : List (Nat × β)) (vr r : Nat) (x : β) :
    (l.map fun (k, y) => if k == vr then (k, x) else (k, y)).lookup r =
      if r = vr then (l.lookup r).map fun _ => x else l.lookup r := by
  induction l with
  | nil => simp
  | cons p l ih =>
    obtain ⟨k, y⟩ := p
    simp only [beq_iff_eq] at ih
    by_cases hk : k = vr <;> by_cases hr : r = k
    · subst hk hr
      simp
    · have hrk : (r == k) = false := by simpa using hr
      subst hk
      simp [List.lookup_cons, hr, hrk, ih]
    · subst hr
      simp [hk]
    · have hrk : (r == k) = false := by simpa using hr
      simp [List.lookup_cons, hk, hrk, ih]

namespace Loopback

/-! ## Building the FMU -/

/-- `startValues` keeps the entries it is given and adds, for every other reference of `vs`, the
start value of its first variable there. -/
theorem startValues_lookup {md : ModelDescription} :
    ∀ (vs : List Variable) (acc res : List (Nat × NativeValues)),
      startValues md acc vs = .ok res →
      (∀ r x, acc.lookup r = some x → res.lookup r = some x) ∧
      (∀ r v, acc.lookup r = none → vs.find? (·.vr == r) = some v →
        ∃ sh nv, md.shape v = .ok sh ∧
          parseStart v.kind md.enumWidth v.start (elementCount sh) = .ok nv ∧
          res.lookup r = some nv)
  | [], acc, res, h => by
    cases h
    exact ⟨fun _ _ hx => hx, fun _ _ _ hv => by cases hv⟩
  | v :: vs, acc, res, h => by
    unfold startValues at h
    split at h
    · -- the reference already has its value
      rename_i hsome
      obtain ⟨hkeep, hnew⟩ := startValues_lookup vs acc res h
      refine ⟨hkeep, fun r w hnone hw => hnew r w hnone ?_⟩
      have hne : v.vr ≠ r := by
        rintro rfl
        simp [hnone] at hsome
      simpa [List.find?_cons, hne] using hw
    · obtain ⟨sh, hsh, h⟩ := Except.exists_of_bind_eq_ok h
      obtain ⟨nv, hnv, h⟩ := Except.exists_of_bind_eq_ok h
      rw [Except.mapError_eq_ok] at hnv
      obtain ⟨hkeep, hnew⟩ := startValues_lookup vs _ res h
      refine ⟨fun r x hx => hkeep r x (by rw [List.lookup_append, hx]; rfl), fun r w hnone hw => ?_⟩
      by_cases hr : v.vr = r
      · subst hr
        simp only [List.find?_cons, beq_self_eq_true, Option.some.injEq] at hw
        subst hw
        exact ⟨sh, nv, hsh, hnv, hkeep _ _ (by rw [List.lookup_append, hnone]; simp)⟩
      · have hr' : (r == v.vr) = false := beq_eq_false_iff_ne.mpr (Ne.symm hr)
        refine hnew r w ?_ (by simpa [List.find?_cons, hr] using hw)
        rw [List.lookup_append, hnone]
        simp [List.lookup_cons, hr']

theorem checkLink_ok {md : ModelDescription} {l : Nat × Nat} (h : checkLink md l = .ok ()) :
    ∃ f t, md.byReference? l.1 = some f ∧ md.byReference? l.2 = some t ∧ f.kind = t.kind := by
  obtain ⟨src, dst⟩ := l
  simp only [checkLink] at h
  cases hf : md.byReference? src with
  | none => simp [hf] at h
  | some f =>
    cases ht : md.byReference? dst with
    | none => simp [hf, ht] at h
    | some t =>
      simp only [hf, ht] at h
      split at h
      · cases h
      · rename_i hk
        exact ⟨f, t, rfl, rfl, by simpa using hk⟩

/-- A built FMU runs the model and links it was given, and every reference starts at the start
value of its first variable. -/
theorem new_spec {md : ModelDescription} {links : List (Nat × Nat)} {async : Bool}
    {fmu : Loopback} (h : new md links async = .ok fmu) :
    fmu.model = md ∧ fmu.links = links ∧ fmu.terminated = false ∧ md.Joins links ∧
      ∀ r v, md.byReference? r = some v →
        ∃ sh nv, md.shape v = .ok sh ∧
          parseStart v.kind md.enumWidth v.start (elementCount sh) = .ok nv ∧
          fmu.values.lookup r = some nv := by
  obtain ⟨values, hvalues, h⟩ := Except.exists_of_bind_eq_ok h
  obtain ⟨u, hlinks, h⟩ := Except.exists_of_bind_eq_ok h
  cases h
  refine ⟨rfl, rfl, rfl, fun l hl => checkLink_ok (List.forM_except_eq_ok.mp hlinks l hl), ?_⟩
  intro r v hv
  exact (startValues_lookup _ [] values hvalues).2 r v rfl hv

/-! ## Stored values -/

theorem lookup_store (fmu : Loopback) (vr r : Nat) (nv : NativeValues) :
    (fmu.store vr nv).values.lookup r =
      if r = vr then (fmu.values.lookup r).map fun _ => nv else fmu.values.lookup r :=
  List.lookup_map_set fmu.values vr r nv

theorem valueOf_store_self {fmu : Loopback} {vr : Nat} (nv : NativeValues)
    (h : (fmu.values.lookup vr).isSome) : (fmu.store vr nv).valueOf vr = nv := by
  obtain ⟨x, hx⟩ := Option.isSome_iff_exists.mp h
  simp [valueOf, lookup_store, hx]

theorem valueOf_store_of_ne {fmu : Loopback} {vr r : Nat} (nv : NativeValues) (h : r ≠ vr) :
    (fmu.store vr nv).valueOf r = fmu.valueOf r := by
  simp [valueOf, lookup_store, h]

@[simp] theorem store_model (fmu : Loopback) (vr : Nat) (nv : NativeValues) :
    (fmu.store vr nv).model = fmu.model := rfl

@[simp] theorem store_links (fmu : Loopback) (vr : Nat) (nv : NativeValues) :
    (fmu.store vr nv).links = fmu.links := rfl

@[simp] theorem store_terminated (fmu : Loopback) (vr : Nat) (nv : NativeValues) :
    (fmu.store vr nv).terminated = fmu.terminated := rfl

/-! ## Calls -/

/-- A call the co-simulation makes on the in-memory FMU while it runs. -/
inductive Call where
  | get (refs : List Nat) (k : Kind)
  | set (vr : Nat) (k : Kind) (nv : NativeValues)
  | doStep (t h : Float)

/-- The FMU after a call; a read changes nothing. -/
def after (fmu : Loopback) : Call → Loopback
  | .get _ _ => fmu
  | .set vr k nv => (fmu.setValues vr k nv).1
  | .doStep t h => (fmu.doStep t h).1

/-- A write carries values in the layout of a model whose enumerations are `ew` bytes wide. -/
def Call.Carries (ew : Nat) : Call → Prop
  | .set _ _ nv => nv.enumWidth = ew
  | _ => True

/-- A write either fails and changes nothing, or names a reference whose first variable has the
write's kind, keeps the number of elements of a fixed-width kind, and stores the elements in the
model's layout. -/
theorem setValues_cases (fmu : Loopback) (vr : Nat) (k : Kind) (nv : NativeValues) :
    ((fmu.setValues vr k nv).2 = .error ∧ (fmu.setValues vr k nv).1 = fmu) ∨
    ((fmu.setValues vr k nv).2 = .ok ∧ ∃ v, fmu.model.byReference? vr = some v ∧ v.kind = k ∧
      nv.kind = k ∧ (k ≠ .binary → k ≠ .string → nv.len = (fmu.valueOf vr).len) ∧
      (fmu.setValues vr k nv).1 =
        fmu.store vr (({ kind := k, enumWidth := fmu.model.enumWidth } : NativeValues).concat nv)) := by
  unfold setValues
  split
  · exact .inl ⟨rfl, rfl⟩
  split
  · exact .inl ⟨rfl, rfl⟩
  rename_i v hv
  split
  · exact .inl ⟨rfl, rfl⟩
  rename_i hk
  simp only [Bool.or_eq_true, bne_iff_ne, ne_eq, not_or, not_not] at hk
  split
  · exact .inl ⟨rfl, rfl⟩
  rename_i hlen
  simp only [Bool.and_eq_true, bne_iff_ne, ne_eq, not_and, not_not] at hlen
  exact .inr ⟨rfl, v, hv, hk.1, hk.2, fun hb hs => hlen ⟨hb, hs⟩, rfl⟩

/-- A write that fails leaves the FMU as it was. -/
theorem setValues_error {fmu : Loopback} {vr : Nat} {k : Kind} {nv : NativeValues}
    (h : (fmu.setValues vr k nv).2 ≠ .ok) : (fmu.setValues vr k nv).1 = fmu := by
  rcases setValues_cases fmu vr k nv with ⟨-, hkeep⟩ | ⟨hok, -⟩
  · exact hkeep
  · exact absurd hok h

theorem copyLinks_frame (fmu : Loopback) :
    fmu.copyLinks.model = fmu.model ∧ fmu.copyLinks.links = fmu.links ∧
      fmu.copyLinks.terminated = fmu.terminated ∧ fmu.copyLinks.steps = fmu.steps ∧
      fmu.copyLinks.async = fmu.async :=
  List.foldlRecOn (motive := fun (f : Loopback) => f.model = fmu.model ∧ f.links = fmu.links ∧
    f.terminated = fmu.terminated ∧ f.steps = fmu.steps ∧ f.async = fmu.async) fmu.links _
    ⟨rfl, rfl, rfl, rfl, rfl⟩ fun _ hf _ _ => hf

theorem resetClocks_frame (fmu : Loopback) :
    fmu.resetClocks.model = fmu.model ∧ fmu.resetClocks.links = fmu.links ∧
      fmu.resetClocks.terminated = fmu.terminated ∧ fmu.resetClocks.steps = fmu.steps ∧
      fmu.resetClocks.async = fmu.async :=
  List.foldlRecOn (motive := fun (f : Loopback) => f.model = fmu.model ∧ f.links = fmu.links ∧
    f.terminated = fmu.terminated ∧ f.steps = fmu.steps ∧ f.async = fmu.async)
    fmu.model.modelVariables _ ⟨rfl, rfl, rfl, rfl, rfl⟩ fun f hf v _ => by
    split
    · exact hf
    · exact hf

/-- No call changes the model, the links or whether the FMU has terminated. -/
theorem after_frame (fmu : Loopback) (c : Call) :
    (fmu.after c).model = fmu.model ∧ (fmu.after c).links = fmu.links ∧
      (fmu.after c).terminated = fmu.terminated := by
  cases c with
  | get refs k => exact ⟨rfl, rfl, rfl⟩
  | set vr k nv =>
    rcases setValues_cases fmu vr k nv with ⟨-, hkeep⟩ | ⟨-, -, -, -, -, -, hstore⟩
    · simp only [after, hkeep, and_self]
    · simp only [after, hstore, store_model, store_links, store_terminated, and_self]
  | doStep t h =>
    obtain ⟨hm₁, hl₁, ht₁, -⟩ := copyLinks_frame fmu
    obtain ⟨hm₂, hl₂, ht₂, -⟩ := resetClocks_frame fmu.copyLinks
    simp only [after, doStep]
    split
    · exact ⟨rfl, rfl, rfl⟩
    · split <;> exact ⟨hm₂.trans hm₁, hl₂.trans hl₁, ht₂.trans ht₁⟩

theorem getValues_single {fmu : Loopback} {r : Nat} {v : Variable} (hrun : fmu.terminated = false)
    (hv : fmu.model.byReference? r = some v) :
    fmu.getValues [r] v.kind =
      (({ kind := v.kind, enumWidth := fmu.model.enumWidth } : NativeValues).concat (fmu.valueOf r),
        .ok, #[]) := by
  simp [getValues, getValues.go, hrun, hv]

/-! ## The layout invariant -/

theorem ModelDescription.widthOf_pos {md : ModelDescription} {k : Kind} (h : 0 < md.widthOf k) :
    k ≠ .binary ∧ k ≠ .string := by
  cases k <;> simp_all [ModelDescription.widthOf, width]

theorem width_eq_widthOf {md : ModelDescription} {nv : NativeValues}
    (he : nv.enumWidth = md.enumWidth) : nv.width = md.widthOf nv.kind := by
  obtain ⟨k, ew, data, sizes, strings⟩ := nv
  simp only at he
  subst he
  rfl

/-- The FMU keeps the layout of its model: the reference of every variable has a value, and a
reference whose first variable has fixed width holds that variable's element count in the
variable's width. -/
structure Shaped (fmu : Loopback) : Prop where
  present : ∀ v ∈ fmu.model.modelVariables, (fmu.values.lookup v.vr).isSome
  fits : ∀ r v, fmu.model.byReference? r = some v → 0 < fmu.model.widthOf v.kind →
    ∃ n, fmu.model.count? v = some n ∧ fmu.model.Fits v.kind n (fmu.valueOf r)

theorem Shaped.congr {fmu fmu' : Loopback} (h : fmu.Shaped) (hm : fmu'.model = fmu.model)
    (hv : fmu'.values = fmu.values) : fmu'.Shaped where
  present v hv' := by
    rw [hv]
    exact h.present v (hm ▸ hv')
  fits r v hr hw := by
    have hval : fmu'.valueOf r = fmu.valueOf r := by simp only [valueOf, hv]
    rw [hm] at hr hw ⊢
    rw [hval]
    exact h.fits r v hr hw

/-- A built FMU has the layout of its model, when the model keeps its promises. -/
theorem Shaped.new {md : ModelDescription} {links : List (Nat × Nat)} {async : Bool}
    {fmu : Loopback} (h : new md links async = .ok fmu) (hmd : md.Consistent links) :
    fmu.Shaped := by
  obtain ⟨hm, -, -, -, hstart⟩ := new_spec h
  subst hm
  refine ⟨fun v hv => ?_, fun r v hr hw => ?_⟩
  · obtain ⟨d, hd⟩ := ModelDescription.exists_byReference? hv
    obtain ⟨_, _, -, -, hnv⟩ := hstart v.vr d hd
    simp [hnv]
  · obtain ⟨sh, nv, hsh, hparse, hnv⟩ := hstart r v hr
    have hcount : fmu.model.count? v = some (elementCount sh) :=
      ModelDescription.count?_eq_some.mpr ⟨sh, hsh, rfl⟩
    obtain ⟨hn, hs⟩ := hmd.start r v hr hw _ hcount
    have hval : fmu.valueOf r = nv := by simp [valueOf, hnv]
    exact ⟨_, hcount, hval ▸ parseStart_fits hw hparse hn hs⟩

/-- Storing a value keeps the layout when it has the width of the reference's first variable and
as many elements as the value it replaces. -/
theorem Shaped.store {fmu : Loopback} (h : fmu.Shaped) {vr : Nat} {nv : NativeValues}
    (hnv : ∀ v, fmu.model.byReference? vr = some v → 0 < fmu.model.widthOf v.kind →
      nv.width = fmu.model.widthOf v.kind ∧ nv.len = (fmu.valueOf vr).len) :
    (fmu.store vr nv).Shaped where
  present v hv := by
    rw [lookup_store]
    split <;> simpa using h.present v hv
  fits r v hr hw := by
    simp only [store_model] at hr hw ⊢
    obtain ⟨n, hn, hfit⟩ := h.fits r v hr hw
    refine ⟨n, hn, ?_⟩
    by_cases hrv : r = vr
    · subst hrv
      obtain ⟨hmem, hvr⟩ := ModelDescription.byReference?_spec hr
      rw [valueOf_store_self nv (hvr ▸ h.present v hmem)]
      obtain ⟨hw', hl'⟩ := hnv v hr hw
      exact ⟨hw', by rw [hl']; exact hfit.2⟩
    · rw [valueOf_store_of_ne nv hrv]
      exact hfit

/-- A write of values in the model's layout keeps the layout: it fails, or it replaces the
elements of a reference by as many elements of the same width. -/
theorem Shaped.setValues {fmu : Loopback} (h : fmu.Shaped) {vr : Nat} {k : Kind}
    {nv : NativeValues} (hew : nv.enumWidth = fmu.model.enumWidth) :
    (fmu.setValues vr k nv).1.Shaped := by
  rcases setValues_cases fmu vr k nv with ⟨-, hkeep⟩ | ⟨-, v, hv, hvk, hnk, hlen, hstore⟩
  · rw [hkeep]
    exact h
  rw [hstore]
  refine h.store fun v' hv' hw => ?_
  rw [hv, Option.some.injEq] at hv'
  subst hv'
  have hwk : 0 < fmu.model.widthOf k := hvk ▸ hw
  have hnw : nv.width = fmu.model.widthOf k := hnk ▸ width_eq_widthOf hew
  obtain ⟨hb, hs⟩ := ModelDescription.widthOf_pos hwk
  refine ⟨by rw [hvk]; rfl, ?_⟩
  rw [len_concat_empty hwk hnw]
  exact hlen hb hs

/-- Copying a link keeps the layout: the variables it joins have one kind and one count. -/
theorem Shaped.copyLinks {fmu : Loopback} (h : fmu.Shaped) (hmd : fmu.model.Consistent fmu.links)
    (hj : fmu.model.Joins fmu.links) : fmu.copyLinks.Shaped := by
  refine (List.foldlRecOn (motive := fun (f : Loopback) => f.Shaped ∧ f.model = fmu.model) fmu.links _ ⟨h, rfl⟩
    fun f ⟨hf, hm⟩ l hl => ⟨hf.store fun t ht hw => ?_, hm⟩).1
  obtain ⟨src, dst⟩ := l
  dsimp only at ht ⊢
  obtain ⟨f', t', hf', ht', hk⟩ := hj _ hl
  rw [← hm] at hf' ht'
  rw [ht', Option.some.injEq] at ht
  subst ht
  have hwf : 0 < f.model.widthOf f'.kind := hk ▸ hw
  obtain ⟨n, hn, hfit⟩ := hf.fits src f' hf' hwf
  obtain ⟨m, hm', hfit'⟩ := hf.fits dst t' ht' hw
  have hnm : n = m := hmd.linked _ hl f' t' (hm ▸ hf') (hm ▸ ht') (hm ▸ hwf) n m
    (hm ▸ hn) (hm ▸ hm')
  refine ⟨hk ▸ hfit.1, ?_⟩
  have := hfit.2
  have := hfit'.2
  omega

/-- Resetting an input clock keeps the layout: its value stays a clock of as many elements. -/
theorem Shaped.resetClocks {fmu : Loopback} (h : fmu.Shaped)
    (hmd : fmu.model.Consistent fmu.links) : fmu.resetClocks.Shaped := by
  refine (List.foldlRecOn (motive := fun (f : Loopback) => f.Shaped ∧ f.model = fmu.model)
    fmu.model.modelVariables _ ⟨h, rfl⟩ fun f ⟨hf, hm⟩ v hv => ?_).1
  split
  · rename_i hclock
    simp only [Bool.and_eq_true, beq_iff_eq] at hclock
    refine ⟨hf.store fun d hd hw => ?_, hm⟩
    obtain ⟨hdmem, hdvr⟩ := ModelDescription.byReference?_spec hd
    have hdk : d.kind = .clock :=
      ((hmd.shared d (hm ▸ hdmem) v hv hdvr).1).trans hclock.1
    rw [hdk]
    exact ⟨rfl, by simp [len, width]⟩
  · exact ⟨hf, hm⟩

/-- A step keeps the layout. -/
theorem Shaped.doStep {fmu : Loopback} (h : fmu.Shaped) (hmd : fmu.model.Consistent fmu.links)
    (hj : fmu.model.Joins fmu.links) (t step : Float) : (fmu.doStep t step).1.Shaped := by
  obtain ⟨hm, hl, -⟩ := copyLinks_frame fmu
  have hclocks : fmu.copyLinks.resetClocks.Shaped :=
    (h.copyLinks hmd hj).resetClocks (hm ▸ hl ▸ hmd)
  unfold Loopback.doStep
  split
  · exact h
  · dsimp only
    split <;> exact hclocks.congr rfl rfl

/-- Every call keeps the layout, when writes carry the model's enumeration width. -/
theorem Shaped.after {fmu : Loopback} (h : fmu.Shaped) (hmd : fmu.model.Consistent fmu.links)
    (hj : fmu.model.Joins fmu.links) {c : Call} (hc : c.Carries fmu.model.enumWidth) :
    (fmu.after c).Shaped := by
  cases c with
  | get refs k => exact h
  | set vr k nv => exact h.setValues hc
  | doStep t step => exact h.doStep hmd hj t step

/-- A run of calls keeps the layout, the model, the links and whether the FMU has terminated. -/
theorem Shaped.run {fmu : Loopback} (h : fmu.Shaped) (hmd : fmu.model.Consistent fmu.links)
    (hj : fmu.model.Joins fmu.links) :
    ∀ calls : List Call, (∀ c ∈ calls, c.Carries fmu.model.enumWidth) →
      (calls.foldl Loopback.after fmu).Shaped ∧ (calls.foldl Loopback.after fmu).model = fmu.model ∧
        (calls.foldl Loopback.after fmu).links = fmu.links ∧
        (calls.foldl Loopback.after fmu).terminated = fmu.terminated
  | [], _ => ⟨h, rfl, rfl, rfl⟩
  | c :: calls, hcalls => by
    obtain ⟨hm, hl, ht⟩ := after_frame fmu c
    have h' := h.after hmd hj (hcalls c List.mem_cons_self)
    obtain ⟨hs, hm', hl', ht'⟩ := h'.run (hm ▸ hl ▸ hmd) (hm ▸ hl ▸ hj) calls
      fun c' hc' => hm ▸ hcalls c' (List.mem_cons_of_mem c hc')
    exact ⟨hs, hm'.trans hm, hl'.trans hl, ht'.trans ht⟩

/-! ## Shapes along a run -/

/-- For every model that keeps its promises about shapes and every FMU built from it, after any
sequence of reads, writes in the model's layout and steps, every fixed-width variable holds
exactly as many elements as its shape gives, and reading it alone answers that many; a write that
fails leaves the FMU as it was. -/
theorem shapes_kept {md : ModelDescription} {links : List (Nat × Nat)} {async : Bool}
    {fmu : Loopback} (hnew : new md links async = .ok fmu) (hmd : md.Consistent links)
    (calls : List Call) (hcalls : ∀ c ∈ calls, c.Carries md.enumWidth) :
    (∀ v ∈ md.modelVariables, 0 < md.widthOf v.kind → ∀ n, md.count? v = some n →
      (((calls.foldl after fmu).valueOf v.vr).len : Int) = n ∧
      ∃ nv, (calls.foldl after fmu).getValues [v.vr] v.kind = (nv, .ok, #[]) ∧
        (nv.len : Int) = n) ∧
    ∀ vr k nv, ((calls.foldl after fmu).setValues vr k nv).2 ≠ .ok →
      ((calls.foldl after fmu).setValues vr k nv).1 = calls.foldl after fmu := by
  obtain ⟨hm, hl, hrun, hj, -⟩ := new_spec hnew
  subst hm hl
  set F := calls.foldl after fmu with hF
  obtain ⟨hs, hFm, -, hFrun⟩ := (Shaped.new hnew hmd).run hmd hj calls hcalls
  refine ⟨fun v hv hw n hn => ?_, fun vr k nv => setValues_error⟩
  -- the first variable of `v`'s reference decides its value, and shares its kind and count
  obtain ⟨d, hd⟩ := ModelDescription.exists_byReference? hv
  obtain ⟨hdmem, hdvr⟩ := ModelDescription.byReference?_spec hd
  obtain ⟨hkind, hcount⟩ := hmd.shared d hdmem v hv hdvr
  have hwd : 0 < fmu.model.widthOf d.kind := hkind ▸ hw
  have hd' : F.model.byReference? v.vr = some d := hFm ▸ hd
  obtain ⟨m, hm, hwidth, hlen⟩ := hs.fits v.vr d hd' (hFm ▸ hwd)
  have hmn : m = n := hcount hwd m n (hFm ▸ hm) hn
  subst hmn
  refine ⟨hlen, _, hkind ▸ getValues_single (hFrun.trans hrun) hd', ?_⟩
  rw [← hkind, len_concat_empty (hFm ▸ hwd) hwidth]
  exact hlen

/-- Two arrays of two elements joined by a link, the first starting from one repeated value:
after a write of the first, a step and a read of the second, each still holds two. -/
theorem shapes_kept_linked_arrays :
    let x : Variable :=
      { name := "x", vr := 1, causality := .output, kind := .int32, start := "7", dimensions := [.fixed 2] }
    let y : Variable :=
      { name := "y", vr := 2, causality := .input, kind := .int32, dimensions := [.fixed 2] }
    let md : ModelDescription := { fmiVersion := "3.0", modelVariables := [x, y] }
    let fmu : Loopback := { model := md, links := [(1, 2)], values :=
      [(1, { kind := .int32, enumWidth := md.enumWidth, data := [7, 0, 0, 0, 7, 0, 0, 0] }),
       (2, { kind := .int32, enumWidth := md.enumWidth, data := [0, 0, 0, 0, 0, 0, 0, 0] })] }
    let calls := [Call.set 1 .int32
        { kind := .int32, enumWidth := md.enumWidth, data := [1, 0, 0, 0, 2, 0, 0, 0] },
      .doStep 0 1, .get [2] .int32]
    new md [(1, 2)] false = .ok fmu ∧ md.Consistent [(1, 2)] ∧
      (∀ c ∈ calls, c.Carries md.enumWidth) ∧
      (∀ v ∈ md.modelVariables, 0 < md.widthOf v.kind → ∀ n, md.count? v = some n →
        (((calls.foldl after fmu).valueOf v.vr).len : Int) = n ∧
        ∃ nv, (calls.foldl after fmu).getValues [v.vr] v.kind = (nv, .ok, #[]) ∧
          (nv.len : Int) = n) ∧
      ∀ vr k nv, ((calls.foldl after fmu).setValues vr k nv).2 ≠ .ok →
        ((calls.foldl after fmu).setValues vr k nv).1 = calls.foldl after fmu := by
  intro x y md fmu calls
  have hnew : new md [(1, 2)] false = .ok fmu := by
    simp only [fmu, md, x, y]
    rfl
  have hx : md.count? x = some 2 := rfl
  have hy : md.count? y = some 2 := rfl
  have hmem : ∀ v ∈ md.modelVariables, v = x ∨ v = y := by simp [md]
  have hmd : md.Consistent [(1, 2)] := by
    refine ⟨fun r v hr hw n hn => ?_, fun v hv w hw' hvw => ?_, fun l hl f t hf ht _ n m hn hm => ?_⟩
    · rcases hmem v (ModelDescription.byReference?_spec hr).1 with rfl | rfl
      · rw [hx, Option.some.injEq] at hn
        subst hn
        exact ⟨by omega, .inr (.inl ⟨by decide, by omega⟩)⟩
      · rw [hy, Option.some.injEq] at hn
        subst hn
        exact ⟨by omega, .inl (by decide)⟩
    · -- the two variables have references of their own
      rcases hmem v hv with rfl | rfl <;> rcases hmem w hw' with rfl | rfl
      · exact ⟨rfl, fun _ n m hn hm => Option.some.inj (hn.symm.trans hm)⟩
      · exact absurd hvw (by decide)
      · exact absurd hvw (by decide)
      · exact ⟨rfl, fun _ n m hn hm => Option.some.inj (hn.symm.trans hm)⟩
    · simp only [List.mem_singleton] at hl
      subst hl
      have hf' : f = x := Option.some.inj hf.symm
      have ht' : t = y := Option.some.inj ht.symm
      subst hf' ht'
      rw [hx, Option.some.injEq] at hn
      rw [hy, Option.some.injEq] at hm
      rw [← hn, ← hm]
  have hcalls : ∀ c ∈ calls, c.Carries md.enumWidth := by
    intro c hc
    simp only [calls, List.mem_cons, List.mem_nil_iff, or_false] at hc
    rcases hc with rfl | rfl | rfl
    · rfl
    · trivial
    · trivial
  exact ⟨hnew, hmd, hcalls, shapes_kept hnew hmd calls hcalls⟩

/-- A scalar whose start value lists two numbers holds two elements and reads back two. -/
theorem scalar_keeps_listed_start :
    let x : Variable := { name := "x", vr := 1, kind := .int32, start := "1 2" }
    let md : ModelDescription := { fmiVersion := "3.0", modelVariables := [x] }
    md.count? x = some 1 ∧
      (new md [] false).map (fun fmu => ((fmu.getValues [1] .int32).1.len,
        (fmu.getValues [1] .int32).2.1)) = .ok (2, .ok) :=
  ⟨rfl, rfl⟩

end Loopback

end Fmu

end CoSimBridge
