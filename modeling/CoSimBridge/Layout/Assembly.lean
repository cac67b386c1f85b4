import CoSimBridge.Layout.Variable
/-!
Structures assembled from variables with structured names.

Variables whose names have more than one segment (`pose.x`, `pose.y`) are grouped by their
first segment into one structure each, nested along the further segments. A structure may be
declared with a struct type: its members are then the slots to fill, in declaration order, and
a variable fills a slot only if its wire type agrees with the member's type. Without a
declaration, the slots follow the order in which variables arrive and the structure's type is
made up from them, named by its path. Every slot must end up filled by a variable or a nested
structure. Clock variables never fill a slot; they gate the structure that contains them.

Slots name their variables; the variables themselves live in the layout's table, so a variable
whose type a declaration settles is updated in one place.
-/

namespace CoSimBridge

namespace Layout

/-- A structure of variables. `def_` is the declared struct, or the made-up one once the
structure is complete. -/
inductive Assembly where
  | mk (path : Path) (optional : Bool) (def_ : StructDef) (declared : Bool)
      (slots : List (String × Descriptor × Option String × Option Assembly))
      (clocks : List String)

instance : Inhabited Assembly := ⟨.mk [] false (.mk "" []) false [] []⟩

namespace Assembly

/-- The structured path of the structure. -/
def path : Assembly → Path
  | .mk p .. => p

/-- Whether the structure's wire type is optional. -/
def optional : Assembly → Bool
  | .mk _ o .. => o

/-- The struct definition. -/
def def_ : Assembly → StructDef
  | .mk _ _ d .. => d

/-- Whether the structure was declared with a struct type. -/
def declared : Assembly → Bool
  | .mk _ _ _ d .. => d

/-- The slots: name, type, the variable filling it, or the nested structure. -/
def slots : Assembly → List (String × Descriptor × Option String × Option Assembly)
  | .mk _ _ _ _ s _ => s

/-- The clock variables found directly inside the structure. -/
def clocks : Assembly → List String
  | .mk _ _ _ _ _ c => c

/-- The structured name. -/
def name (s : Assembly) : String := Path.join s.path

/-- The wire type of the whole structure. -/
def descriptor (s : Assembly) : Descriptor :=
  .leaf s.optional .custom s.def_.name (.struct s.def_)

/-- Every data variable of the structure, depth first. -/
def variableNames : Assembly → List String
  | .mk _ _ _ _ slots _ => go slots
where
  go : List (String × Descriptor × Option String × Option Assembly) → List String
    | [] => []
    | (_, _, v, none) :: rest => v.toList ++ go rest
    | (_, _, _, some s) :: rest => variableNames s ++ go rest

/-- The clocks of the structure and of its nested structures. -/
def allClocks : Assembly → List String
  | .mk _ _ _ _ slots clocks => clocks ++ go slots
where
  go : List (String × Descriptor × Option String × Option Assembly) → List String
    | [] => []
    | (_, _, _, none) :: rest => go rest
    | (_, _, _, some s) :: rest => allClocks s ++ go rest

/-- An empty structure at `path` of a type: for a struct type, one slot per member and nested
structures for the members of struct type; for any other, no slots and no declared type. -/
def ofType (path : Path) : Descriptor → Assembly
  | .leaf o .custom _ (.struct (.mk n members)) => .mk path o (.mk n members) true (go path members) []
  | _ => .mk path false (.mk "" []) false [] []
where
  go (path : Path) : List (String × Descriptor) →
      List (String × Descriptor × Option String × Option Assembly)
    | [] => []
    | (m, t) :: rest =>
      (m, t, none, if t.isStruct then some (ofType (path ++ [m]) t) else none) :: go path rest

/-- An empty structure at `path`, of the declared type if there is one. -/
def fresh (path : Path) : Option Descriptor → Assembly
  | some d => ofType path d
  | none => .mk path false (.mk "" []) false [] []

/-- Replaces the first slot called `name` by `sl`; a declared struct may name a member twice,
and a variable fills the first. -/
def setSlot (name : String) (sl : String × Descriptor × Option String × Option Assembly) :
    List (String × Descriptor × Option String × Option Assembly) →
      List (String × Descriptor × Option String × Option Assembly)
  | [] => []
  | x :: rest => if x.1 == name then sl :: rest else x :: setSlot name sl rest

/-- Replaces the slots and clocks. -/
def withParts (s : Assembly) (slots : List (String × Descriptor × Option String × Option Assembly))
    (clocks : List String) : Assembly :=
  .mk s.path s.optional s.def_ s.declared slots clocks

end Assembly

/-- A configuration failure of a given condition about a variable. -/
def variableFault (name : String) (c : Condition) (detail : String) : Fault :=
  Fault.configurationf ("variable " ++ Text.quote name) c detail

/-- Places a variable, reached by the rest of its path, into a structure. Returns the structure
and the variable (whose type a declared slot may settle). -/
def place (b : BoundVariable) : Assembly → List String → Nat → Except Fault (Assembly × BoundVariable)
  | s, _, 0 => .ok (s, b)
  | s, [], _ => .ok (s, b)
  | s, [name], _ =>
    if b.isClock then .ok (s.withParts s.slots (s.clocks ++ [b.name]), b)
    else
      match s.slots.find? (·.1 == name) with
      | none =>
        if s.declared then
          .error (variableFault b.name .unexpectedMember
            ("struct " ++ s.def_.name ++ " declares no member " ++ Text.quote name))
        else
          .ok (s.withParts (s.slots ++ [(name, b.type.getD (.primitive .invalid), some b.name, none)])
            s.clocks, b)
      | some (_, t, filled, nested) =>
        if nested.isSome then
          .error (variableFault b.name .unexpectedMember
            ("member " ++ Text.quote name ++ " of " ++ s.name ++ " is a structure"))
        else match filled with
          | some other =>
            .error (variableFault b.name .duplicateName
              ("member " ++ Text.quote name ++ " of " ++ s.name ++ " already filled by " ++ other))
          | none => do
            let b ← b.adopt t
            return (s.withParts (Assembly.setSlot name (name, t, some b.name, none) s.slots) s.clocks, b)
  | s, name :: rest, n + 1 =>
    match s.slots.find? (·.1 == name) with
    | none =>
      if s.declared then
        if b.isClock then .ok (s.withParts s.slots (s.clocks ++ [b.name]), b)
        else .error (variableFault b.name .unexpectedMember
          ("struct " ++ s.def_.name ++ " declares no member " ++ Text.quote name))
      else do
        let (inner, b) ← place b (Assembly.fresh (s.path ++ [name]) none) rest n
        return (s.withParts (s.slots ++ [(name, .primitive .invalid, none, some inner)]) s.clocks, b)
    | some (_, _, _, none) =>
      if b.isClock && s.declared then .ok (s.withParts s.slots (s.clocks ++ [b.name]), b)
      else
        .error (variableFault b.name .duplicateName
          ("member " ++ Text.quote name ++ " of " ++ s.name ++ " is not a structure"))
    | some (_, t, f, some inner) => do
      let (inner, b) ← place b inner rest n
      return (s.withParts (Assembly.setSlot name (name, t, f, some inner) s.slots) s.clocks, b)

/-- Fails on the first slot, depth first, that nothing filled. -/
def Assembly.complete : Assembly → Except Fault Unit
  | .mk p _ _ _ slots _ => go p slots
where
  go (p : Path) : List (String × Descriptor × Option String × Option Assembly) → Except Fault Unit
    | [] => .ok ()
    | (m, _, none, none) :: _ =>
      .error (Fault.configurationf ("structure " ++ Text.quote (Path.join p)) .incompleteStruct
        ("member " ++ Text.quote m ++ " has no variable"))
    | (_, _, _, some s) :: rest => do
      Assembly.complete s
      go p rest
    | _ :: rest => go p rest

/-- Makes up the struct definitions of undeclared structures from their slots, innermost first;
a nested structure's slot takes the nested structure's type. -/
def Assembly.define : Assembly → Assembly
  | .mk p o d declared slots clocks =>
    let slots := go declared slots
    if declared then .mk p o d declared slots clocks
    else .mk p o (.mk (Path.join p) (slots.map fun (m, t, _, _) => (m, t))) declared slots clocks
where
  go (declared : Bool) : List (String × Descriptor × Option String × Option Assembly) →
      List (String × Descriptor × Option String × Option Assembly)
    | [] => []
    | (m, t, v, some s) :: rest =>
      let s' := Assembly.define s
      (m, (if declared then t else s'.descriptor), v, some s') :: go declared rest
    | sl :: rest => sl :: go declared rest

/-- A fresh structure for a root, of the struct type declared for it; a declared type that is
not a struct is refused. -/
def startRoot (declared : List (String × Descriptor)) (root : String) : Except Fault Assembly :=
  match declared.lookup root with
  | some d =>
    if !d.isStruct then
      .error (Fault.configurationf ("structure " ++ Text.quote root) .invalidConfig
        ("type " ++ d.toToken ++ " is not a struct"))
    else .ok (Assembly.fresh [root] (some d))
  | none => .ok (Assembly.fresh [root] none)

/-- Places the variables `vars` one after the other into the structures `out`, starting a
structure for each new root; `done` collects the variables, with their types as placing settles
them. -/
def gather (declared : List (String × Descriptor)) :
    List Assembly → List BoundVariable → List BoundVariable →
      Except Fault (List Assembly × List BoundVariable)
  | out, done, [] => .ok (out, done)
  | out, done, b :: vars =>
    if b.path.length < 2 then gather declared out (done ++ [b]) vars
    else do
      let root := Path.root b.path
      let (out, s) ← match out.find? (Path.root ·.path == root) with
        | some s => pure (out, s)
        | none => do
          let s ← startRoot declared root
          pure (out ++ [s], s)
      let (s, b) ← place b s (b.path.drop 1) (b.path.length + 1)
      gather declared (out.map fun t => if Path.root t.path == root then s else t) (done ++ [b]) vars

/-- Groups the variables with structured names into structures, one per first segment, in
order of first appearance. `declared` gives the struct type configured for a first segment.
Returns the structures and the variables, some with their types settled by declarations. -/
def assemble (vars : List BoundVariable) (declared : List (String × Descriptor)) :
    Except Fault (List Assembly × List BoundVariable) := do
  let (out, done) ← gather declared [] [] vars
  out.forM Assembly.complete
  return (out.map Assembly.define, done)

end Layout

end CoSimBridge
