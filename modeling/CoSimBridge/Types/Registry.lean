import CoSimBridge.Types.Descriptor
/-!
The registry of struct and enumeration definitions.

Declarations are registered first and resolved afterwards, so definitions may refer to each
other in any order. Resolving a tree binds each custom name to the struct of that name, else to
the enumeration of that name. `resolveAll` resolves the members of every struct, rejects structs
that contain themselves, and then binds every struct reference to its fully resolved
definition, so that a bound tree carries every definition it reaches.
-/

namespace CoSimBridge

/-- A registered struct and the declaration it came from. -/
structure StructEntry where
  def_ : StructDef
  origin : String

/-- A registered enumeration and the declaration it came from. -/
structure EnumEntry where
  def_ : EnumDef
  origin : String

/-- Struct and enumeration definitions by name. -/
structure Registry where
  structs : List StructEntry := []
  enums : List EnumEntry := []

namespace Registry

/-- The empty registry. -/
def empty : Registry := {}

/-- The struct called `n`. -/
def findStruct? (r : Registry) (n : String) : Option StructEntry :=
  r.structs.find? (·.def_.name == n)

/-- The enumeration called `n`. -/
def findEnum? (r : Registry) (n : String) : Option EnumEntry :=
  r.enums.find? (·.def_.name == n)

/-- The definition of the struct called `n`. -/
def struct? (r : Registry) (n : String) : Option StructDef := (r.findStruct? n).map (·.def_)

/-- The definition of the enumeration called `n`. -/
def enum? (r : Registry) (n : String) : Option EnumDef := (r.findEnum? n).map (·.def_)

/-- Strings in byte order. -/
def sortStrings (xs : List String) : List String := xs.mergeSort fun a b => !(b < a)

/-- The registered struct names, sorted. -/
def structNames (r : Registry) : List String := sortStrings (r.structs.map (·.def_.name))

/-- The first name that occurs twice. -/
def firstRepeat : List String → List String → Option String
  | [], _ => none
  | n :: rest, seen => if seen.contains n then some n else firstRepeat rest (n :: seen)

/-- Registers a struct declared at `origin`. A name taken by another struct, a member without
a name and a member declared twice are refused. -/
def addStruct (r : Registry) (s : StructDef) (origin : String) : Except Fault Registry :=
  match r.findStruct? s.name with
  | some prev =>
    .error (Fault.configurationf origin .duplicateName
      ("struct " ++ Text.quote s.name ++ " already declared at " ++ prev.origin))
  | none =>
    let names := s.members.map (·.1)
    if names.contains "" then
      .error (Fault.configurationf origin .invalidConfig
        ("struct " ++ Text.quote s.name ++ " has a member without a name"))
    else match firstRepeat names [] with
      | some m =>
        .error (Fault.configurationf (origin ++ ".members[" ++ m ++ "]") .duplicateName
          ("member " ++ Text.quote m ++ " declared twice in struct " ++ Text.quote s.name))
      | none => .ok { r with structs := r.structs ++ [⟨s, origin⟩] }

/-- Registers an enumeration declared at `origin`. The same enumeration declared twice is
kept once; a different one under a taken name and a literal declared twice are refused. -/
def addEnum (r : Registry) (e : EnumDef) (origin : String) : Except Fault Registry :=
  match r.findEnum? e.name with
  | some prev =>
    if prev.def_.items == e.items then .ok r
    else .error (Fault.configurationf origin .duplicateName
      ("enum " ++ Text.quote e.name ++ " already declared at " ++ prev.origin))
  | none =>
    match firstRepeat (e.items.map (·.name)) [] with
    | some n =>
      .error (Fault.configurationf origin .duplicateName
        ("literal " ++ Text.quote n ++ " declared twice in enum " ++ Text.quote e.name))
    | none => .ok { r with enums := r.enums ++ [⟨e, origin⟩] }

/-- Binds every unbound custom name of a tree: to the struct of that name, else to the
enumeration of that name (the leaf then has kind `Enum`); a name matching neither is an
unresolved type reported about `origin`. -/
def resolve (r : Registry) (origin : String) : Descriptor → Except Fault Descriptor
  | .list o e => (r.resolve origin e).map (.list o)
  | d@(.leaf o k n b) =>
    if k != .custom then .ok d
    else match b with
      | .struct _ => .ok d
      | _ =>
        match r.struct? n with
        | some s => .ok (.leaf o .custom n (.struct s))
        | none =>
          match r.enum? n with
          | some e => .ok (.leaf o .enum n (.enum e))
          | none => .error (Fault.configurationf origin .unresolvedType
              ("type " ++ Text.quote n ++ " is neither a declared struct nor enum"))

/-- Replaces the struct called `n` by `s`. -/
def setStruct (r : Registry) (n : String) (s : StructDef) : Registry :=
  { r with structs := r.structs.map fun e => if e.def_.name == n then { e with def_ := s } else e }

/-- Resolves the members of the named structs in turn. Members resolved before a failure stay
resolved. -/
def resolveStructs (r : Registry) : List String → Registry × Except Fault Unit
  | [] => (r, .ok ())
  | n :: rest =>
    match r.findStruct? n with
    | none => r.resolveStructs rest
    | some e =>
      let rec go (done : List (String × Descriptor)) :
          List (String × Descriptor) → List (String × Descriptor) × Option Fault
        | [] => (done, none)
        | (m, d) :: ms =>
          match r.resolve (e.origin ++ ".members[" ++ m ++ "]") d with
          | .ok d' => go (done ++ [(m, d')]) ms
          | .error f => (done ++ (m, d) :: ms, some f)
      let (members, failure) := go [] e.def_.members
      let r' := r.setStruct n (.mk n members)
      match failure with
      | some f => (r', .error f)
      | none => r'.resolveStructs rest

/-- The names of the structs that the members of `s` refer to, in member order. -/
def referenced (s : StructDef) : List String :=
  s.members.filterMap fun (_, d) => d.leafOf.structDef?.map StructDef.name

/-- The words `[a b c]` for a list of names. -/
def bracketed (xs : List String) : String := "[" ++ " ".intercalate xs ++ "]"

/-- The failure of a search along `stack` that came back to `n`: it names `n` and the whole
path with `n` appended, and is reported about the struct the search started from. -/
def cycleFault (r : Registry) (stack : List String) (n : String) : Fault :=
  let origin := match stack.head? with
    | some s => ((r.findStruct? s).map (·.origin)).getD ""
    | none => ""
  Fault.configurationf origin .cyclicType
    ("struct " ++ Text.quote n ++ " contains itself via " ++ bracketed (stack ++ [n]))

/-- Looks for a struct that contains itself, depth first from `n` along member references;
`stack` holds the structs on the way. -/
def findCycle (r : Registry) : Nat → String → List String → Except Fault Unit
  | 0, _, _ => .ok ()
  | fuel + 1, n, stack =>
    if stack.contains n then .error (r.cycleFault stack n)
    else match r.struct? n with
      | none => .ok ()
      | some s => (referenced s).forM fun m => r.findCycle fuel m (stack ++ [n])

/-- Rebinds the struct references of a tree to the definitions in `r`. -/
def rebind (r : Registry) : Descriptor → Descriptor
  | .list o e => .list o (r.rebind e)
  | d@(.leaf o k n b) =>
    match b with
    | .struct s =>
      match r.struct? s.name with
      | some s' => .leaf o k n (.struct s')
      | none => d
    | _ => d

/-- One pass of rebinding every struct's members to the current definitions. -/
def rebindPass (r : Registry) : Registry :=
  { r with structs := r.structs.map fun e =>
      { e with def_ := .mk e.def_.name (e.def_.members.map fun (m, d) => (m, r.rebind d)) } }

/-- Rebinds `n` times; after as many passes as there are structs, every binding of an acyclic
registry carries fully resolved definitions. -/
def rebindPasses (r : Registry) : Nat → Registry
  | 0 => r
  | n + 1 => (r.rebindPass).rebindPasses n

/-- Resolves the members of every struct (in name order), then rejects a struct that contains
itself directly or through other structs, then binds every reference to the resolved
definitions. The registry keeps what was resolved even when this fails. -/
def resolveAll (r : Registry) : Registry × Except Fault Unit :=
  let names := r.structNames
  match r.resolveStructs names with
  | (r', .error f) => (r', .error f)
  | (r', .ok ()) =>
    let fuel := r'.structs.length + 2
    match names.forM fun n => r'.findCycle fuel n [] with
    | .error f => (r', .error f)
    | .ok () => (r'.rebindPasses (r'.structs.length + 1), .ok ())

end Registry

end CoSimBridge
