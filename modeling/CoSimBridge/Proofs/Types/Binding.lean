import Mathlib
import CoSimBridge.Proofs.Types.Resolution
/-!
# Binding a tree's custom name

Resolving a tree binds its leaf and nothing else. A resolved leaf is kept; an unbound custom
name becomes a reference to the struct of that name, else an enumeration leaf of the same name
(`resolve_leaf_eq_ok`). Lists and optional marks stay as they are (`SameSpine`), every custom
name of the result is bound, and a resolved tree is left alone by every registry, so a second
resolution changes nothing. On the trees a type token reads as, a custom name is never empty, so
the canonical token does not see the binding either. A failure names the leaf's name and the
subject it is reported about; it returns no tree, so the caller keeps the tree it gave
(`resolve_invisible_idempotent`).
-/

namespace CoSimBridge

set_option autoImplicit false

namespace Descriptor

/-- Two trees with the same list spine and the same optional mark on every node; their leaves'
kinds, names and bindings may differ. -/
inductive SameSpine : Descriptor → Descriptor → Prop
  | list {o : Bool} {e e' : Descriptor} : SameSpine e e' → SameSpine (.list o e) (.list o e')
  | leaf {o : Bool} {k k' : Kind} {n n' : String} {b b' : Binding} :
      SameSpine (.leaf o k n b) (.leaf o k' n' b')

end Descriptor

namespace Registry

variable {r : Registry} {origin : String}

/-- Resolving a list resolves its element and keeps the list's optional mark. -/
theorem resolve_list_eq_ok {o : Bool} {e d' : Descriptor}
    (h : r.resolve origin (.list o e) = .ok d') : ∃ e', r.resolve origin e = .ok e' ∧ d' = .list o e' := by
  cases he : r.resolve origin e with
  | error f => simp [resolve, he, Except.map] at h
  | ok e' =>
    simp only [resolve, he, Except.map, Except.ok.injEq] at h
    exact ⟨e', rfl, h.symm⟩

/-- What resolving a leaf can do: keep it when it is resolved, else bind its custom name to the
struct of that name, or, with no such struct, make it an enumeration leaf of the same name bound
to the enumeration. -/
theorem resolve_leaf_eq_ok {o : Bool} {k : Kind} {n : String} {b : Binding} {d' : Descriptor}
    (h : r.resolve origin (.leaf o k n b) = .ok d') :
    ((Descriptor.leaf o k n b).isResolved = true ∧ d' = .leaf o k n b) ∨
      ((Descriptor.leaf o k n b).isResolved = false ∧ k = .custom ∧
        ∃ s, r.struct? n = some s ∧ d' = .leaf o .custom n (.struct s)) ∨
      ((Descriptor.leaf o k n b).isResolved = false ∧ k = .custom ∧ r.struct? n = none ∧
        ∃ e, r.enum? n = some e ∧ d' = .leaf o .enum n (.enum e)) := by
  by_cases hk : k = .custom
  · subst hk
    cases b with
    | struct s =>
      simp only [resolve, bne_self_eq_false, Bool.false_eq_true, ↓reduceIte, Except.ok.injEq] at h
      exact .inl ⟨rfl, h.symm⟩
    | unbound | enum _ =>
      cases hs : r.struct? n with
      | some s =>
        simp only [resolve, bne_self_eq_false, Bool.false_eq_true, ↓reduceIte, hs,
          Except.ok.injEq] at h
        exact .inr (.inl ⟨rfl, rfl, s, rfl, h.symm⟩)
      | none =>
        cases he : r.enum? n with
        | some e =>
          simp only [resolve, bne_self_eq_false, Bool.false_eq_true, ↓reduceIte, hs, he,
            Except.ok.injEq] at h
          exact .inr (.inr ⟨rfl, rfl, rfl, e, rfl, h.symm⟩)
        | none => simp [resolve, hs, he] at h
  · simp only [resolve, bne_iff_ne, ne_eq, hk, not_false_eq_true, ↓reduceIte,
      Except.ok.injEq] at h
    exact .inl ⟨by simp [Descriptor.isResolved, hk], h.symm⟩

/-- A resolved tree is left as it is, by every registry and about every subject. -/
theorem resolve_of_isResolved : ∀ {d : Descriptor}, d.isResolved = true → r.resolve origin d = .ok d
  | .list o e, h => by
    rw [resolve, resolve_of_isResolved (d := e) h]
    rfl
  | .leaf o k n (.struct s), _ => by
    by_cases hk : k = .custom <;> simp [resolve, hk]
  | .leaf o k n .unbound, h | .leaf o k n (.enum _), h => by
    -- without a struct binding, only a kind other than custom is resolved
    have hk : k ≠ .custom := by simpa [Descriptor.isResolved] using h
    simp [resolve, hk]

/-- Every custom name of a resolved tree is bound. -/
theorem isResolved_resolve : ∀ {d d' : Descriptor}, r.resolve origin d = .ok d' → d'.isResolved = true
  | .list o e, d', h => by
    obtain ⟨e', he, rfl⟩ := resolve_list_eq_ok h
    show e'.isResolved = true
    exact isResolved_resolve he
  | .leaf o k n b, d', h => by
    rcases resolve_leaf_eq_ok h with ⟨hres, rfl⟩ | ⟨-, -, s, -, rfl⟩ | ⟨-, -, -, e, -, rfl⟩
    · exact hres
    · rfl
    · rfl

/-- Resolving keeps the list spine and every optional mark. -/
theorem sameSpine_resolve : ∀ {d d' : Descriptor}, r.resolve origin d = .ok d' → d.SameSpine d'
  | .list o e, d', h => by
    obtain ⟨e', he, rfl⟩ := resolve_list_eq_ok h
    exact .list (sameSpine_resolve he)
  | .leaf o k n b, d', h => by
    rcases resolve_leaf_eq_ok h with ⟨-, rfl⟩ | ⟨-, -, s, -, rfl⟩ | ⟨-, -, -, e, -, rfl⟩ <;>
      exact .leaf

/-- A failure to resolve is an unresolved type that names the leaf and is reported about
`origin`. -/
theorem resolve_eq_error : ∀ {d : Descriptor} {f : Fault}, r.resolve origin d = .error f →
    f = Fault.configurationf origin .unresolvedType
      ("type " ++ Text.quote d.leafOf.name ++ " is neither a declared struct nor enum")
  | .list o e, f, h => by
    cases he : r.resolve origin e with
    | error f' =>
      simp only [resolve, he, Except.map, Except.error.injEq] at h
      subst h
      exact resolve_eq_error (d := e) he
    | ok e' => simp [resolve, he, Except.map] at h
  | .leaf o k n b, f, h => by
    by_cases hk : k = .custom
    · subst hk
      cases b with
      | struct s => simp [resolve] at h
      | unbound | enum _ =>
        cases hs : r.struct? n with
        | some s => simp [resolve, hs] at h
        | none =>
          cases he : r.enum? n with
          | some e => simp [resolve, hs, he] at h
          | none =>
            simp only [resolve, bne_self_eq_false, Bool.false_eq_true, ↓reduceIte, hs, he,
              Except.error.injEq] at h
            exact h.symm
    · simp [resolve, hk] at h

/-- On a tree read from a token, resolving keeps the canonical token: a custom name read from a
token is never empty, so it is written the same as a custom leaf and as an enumeration leaf. -/
theorem toToken_resolve {d d' : Descriptor} (hd : d.Parsed) (h : r.resolve origin d = .ok d') :
    d'.toToken = d.toToken := by
  induction hd generalizing d' with
  | list _ ih =>
    obtain ⟨e', he, rfl⟩ := resolve_list_eq_ok h
    simp [Descriptor.toToken, ih he]
  | primitive hk =>
    rcases resolve_leaf_eq_ok h with ⟨-, rfl⟩ | ⟨-, hc, -⟩ | ⟨-, hc, -⟩
    · rfl
    · exact absurd hc (ne_custom_of_alias hk)
    · exact absurd hc (ne_custom_of_alias hk)
  | @custom o n hn _ =>
    rcases resolve_leaf_eq_ok h with ⟨-, rfl⟩ | ⟨-, -, s, -, rfl⟩ | ⟨-, -, -, e, -, rfl⟩
    · rfl
    · rfl
    · have hne : n ≠ "" := fun h0 => hn.1 (by simp [h0])
      simp [Descriptor.toToken, hne]

/-- Resolving a tree read from a type token is invisible in its canonical token and idempotent.
When it succeeds, the result has the same canonical token, list spine and optional marks, every
custom name in it is bound, and resolving it again, against any registry and about any subject,
succeeds and changes nothing. When it fails, the failure is an unresolved type that names the
leaf's name and is reported about `origin`. -/
theorem resolve_invisible_idempotent (r : Registry) (origin : String) {t : String}
    {d : Descriptor} (ht : Descriptor.parse t = .ok d) :
    (∀ d', r.resolve origin d = .ok d' →
      d'.toToken = d.toToken ∧ d.SameSpine d' ∧ d'.isResolved = true ∧
        ∀ (r' : Registry) (o' : String), r'.resolve o' d' = .ok d') ∧
    ∀ f, r.resolve origin d = .error f →
      f = Fault.configurationf origin .unresolvedType
        ("type " ++ Text.quote d.leafOf.name ++ " is neither a declared struct nor enum") := by
  refine ⟨fun d' h => ?_, fun f h => resolve_eq_error h⟩
  have hres := isResolved_resolve h
  exact ⟨toToken_resolve (Descriptor.parsed_of_parse ht) h, sameSpine_resolve h, hres,
    fun r' o' => resolve_of_isResolved hres⟩

/-- `Gear?` against a registry that declares the enumeration `Gear`: the custom leaf becomes an
enumeration leaf, still written `Gear?`. -/
theorem resolve_invisible_idempotent_gear :
    let gear : EnumDef := ⟨"Gear", [⟨"P", 0⟩, ⟨"D", 1⟩]⟩
    let r : Registry := ⟨[], [⟨gear, "enums[0]"⟩]⟩
    let d : Descriptor := .leaf true .custom "Gear" .unbound
    Descriptor.parse "Gear?" = .ok d ∧
      r.resolve "variables[gear].type" d = .ok (.leaf true .enum "Gear" (.enum gear)) ∧
      (Descriptor.leaf true .enum "Gear" (.enum gear)).toToken = "Gear?" ∧
      ((∀ d', r.resolve "variables[gear].type" d = .ok d' →
        d'.toToken = d.toToken ∧ d.SameSpine d' ∧ d'.isResolved = true ∧
          ∀ (r' : Registry) (o' : String), r'.resolve o' d' = .ok d') ∧
      ∀ f, r.resolve "variables[gear].type" d = .error f →
        f = Fault.configurationf "variables[gear].type" .unresolvedType
          ("type " ++ Text.quote d.leafOf.name ++ " is neither a declared struct nor enum")) := by
  intro gear r d
  have hd : d.Parsed :=
    .custom ⟨by simp, by unfold Text.Trimmed; decide +kernel, by decide +kernel⟩
      (by decide +kernel)
  have htoken : d.toToken = "Gear?" := by decide +kernel
  have ht : Descriptor.parse "Gear?" = .ok d := htoken ▸ Descriptor.parse_toToken hd
  exact ⟨ht, rfl, by decide +kernel, resolve_invisible_idempotent r "variables[gear].type" ht⟩

end Registry

end CoSimBridge
