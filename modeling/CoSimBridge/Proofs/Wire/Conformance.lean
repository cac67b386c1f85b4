import CoSimBridge.Proofs.Wire.Primitives
/-! Values of a type tree. A value conforms to a tree when each leaf holds the dynamic type of
its kind, each list holds conforming elements, `nil` stands only where the node is optional,
and each struct is a record whose keys are exactly the member names. Two values are the same
when they agree up to the order of record fields, since a record is a map. -/

namespace CoSimBridge
set_option autoImplicit false

namespace Value

/-- The dynamic type of a leaf kind: `bool`, the integer and float types of the kind's width,
`int64` for enumerations, `string` for `String` and `[]byte` for `Binary`. -/
def hasKind : Kind → Value → Bool
  | .bool, .bool _ | .int8, .int8 _ | .int16, .int16 _ | .int32, .int32 _ | .int64, .int64 _
  | .uint8, .uint8 _ | .uint16, .uint16 _ | .uint32, .uint32 _ | .uint64, .uint64 _
  | .float32, .float32 _ | .float64, .float64 _ | .enum, .int64 _ | .string, .string _
  | .binary, .bytes _ => true
  | _, _ => false

theorem ne_custom_of_hasKind {k : Kind} {v : Value} (h : v.hasKind k = true) : k ≠ .custom := by
  rintro rfl
  cases v <;> simp [hasKind] at h

mutual

/-- Every string, byte string and list inside the value is shorter than `2^32`, so that its
length or count fits the wire's 32-bit field. -/
def fitsWire : Value → Bool
  | .string s | .bytes s => decide (s.length < Nat.pow 2 32)
  | .list xs => decide (xs.length < Nat.pow 2 32) && fitsWireAll xs
  | .record fs => fitsWireFields fs
  | _ => true

/-- `fitsWire` of every element. -/
def fitsWireAll : List Value → Bool
  | [] => true
  | x :: xs => x.fitsWire && fitsWireAll xs

/-- `fitsWire` of every field value. -/
def fitsWireFields : List (String × Value) → Bool
  | [] => true
  | (_, x) :: fs => x.fitsWire && fitsWireFields fs

end

theorem fitsWireAll_iff (xs : List Value) :
    fitsWireAll xs = true ↔ ∀ x ∈ xs, x.fitsWire = true := by
  induction xs with
  | nil => simp [fitsWireAll]
  | cons x xs ih => simp [fitsWireAll, ih]

theorem fitsWireFields_iff (fs : List (String × Value)) :
    fitsWireFields fs = true ↔ ∀ p ∈ fs, p.2.fitsWire = true := by
  induction fs with
  | nil => simp [fitsWireFields]
  | cons p fs ih => simp [fitsWireFields, ih]

theorem mem_of_field?_eq_some {fs : List (String × Value)} {n : String} {x : Value}
    (h : field? fs n = some x) : (n, x) ∈ fs := by
  obtain ⟨p, hp, rfl⟩ := Option.map_eq_some_iff.mp h
  have hn := List.find?_some hp
  simp only [beq_iff_eq] at hn
  rw [← hn]
  exact List.mem_of_find?_eq_some hp

theorem field?_isSome_iff (fs : List (String × Value)) (n : String) :
    (field? fs n).isSome ↔ n ∈ fs.map Prod.fst := by
  simp [field?, List.find?_isSome]

theorem field?_cons (m n : String) (x : Value) (fs : List (String × Value)) :
    field? ((m, x) :: fs) n = if m = n then some x else field? fs n := by
  by_cases h : m = n <;> simp [field?, h]

/-- The same value: lists element by element and records as maps from member names, so the
order of record fields does not matter; any other value only equals itself, floats by their
bits and strings as bytes. -/
inductive Same : Value → Value → Prop
  | refl (v : Value) : Same v v
  | list {xs ys : List Value} :
      xs.length = ys.length → (∀ p ∈ xs.zip ys, Same p.1 p.2) → Same (.list xs) (.list ys)
  | record {fs gs : List (String × Value)} :
      (∀ n, (field? fs n).isSome = (field? gs n).isSome) →
      (∀ n x y, field? fs n = some x → field? gs n = some y → Same x y) →
      Same (.record fs) (.record gs)

end Value

/-- Every custom leaf of the tree, and of every member type it reaches, is bound to a struct.
A registry whose `resolveAll` succeeded binds every tree it resolves this way, since it refuses
structs that contain themselves. -/
inductive Descriptor.Bound : Descriptor → Prop
  | list {o : Bool} {e : Descriptor} : e.Bound → (Descriptor.list o e).Bound
  | primitive {o : Bool} {k : Kind} {n : String} {b : Binding} :
      k ≠ .custom → (Descriptor.leaf o k n b).Bound
  | struct {o : Bool} {n s : String} {ms : List (String × Descriptor)} :
      (∀ m ∈ ms, m.2.Bound) → (Descriptor.leaf o .custom n (.struct (.mk s ms))).Bound

/-- A value of a type tree: `nil` where the node is optional, the dynamic type of a leaf's
kind, a list of values of the element type, or for a bound struct a record whose keys are
exactly the member names, each holding a value of its member's type. -/
inductive Value.Conforms : Descriptor → Value → Prop
  | absent {d : Descriptor} : d.optional = true → Conforms d .nil
  | scalar {o : Bool} {k : Kind} {n : String} {b : Binding} {v : Value} :
      v.hasKind k = true → Conforms (.leaf o k n b) v
  | list {o : Bool} {e : Descriptor} {xs : List Value} :
      (∀ x ∈ xs, Conforms e x) → Conforms (.list o e) (.list xs)
  | record {o : Bool} {n s : String} {ms : List (String × Descriptor)}
      {fs : List (String × Value)} :
      (∀ key, key ∈ fs.map Prod.fst ↔ key ∈ ms.map Prod.fst) →
      (∀ m ∈ ms, ∀ x, Value.field? fs m.1 = some x → Conforms m.2 x) →
      Conforms (.leaf o .custom n (.struct (.mk s ms))) (.record fs)

end CoSimBridge
