import CoSimBridge.Layout.Assembly
/-!
The layout: which FMU values travel on which bus topics.

Configuring a model gives every exchanged scalar or array variable a topic of its own, named
after the variable unless configured otherwise, and every assembled structure one topic named
after its first path segment (or as configured). Variables that CAN controllers or remote
functions serve, and clocks, get no data topic. A topic is gated by clocks: those a variable
declares, or every clock inside a structure. Topic names are unique per direction.

The enumerations of the model description join the registry of declared types first, so
variables and overrides can name them.
-/

namespace CoSimBridge

namespace Layout

/-- Configures the structure rooted at `name`: its topic, and a struct type (a trailing `?`
makes it optional). -/
structure StructureOverride where
  name : String
  topic : String := ""
  type : String := ""
deriving Inhabited

/-- What configuring a model takes: declared types, overrides, and the names served by CAN and
remote function channels. -/
structure Options where
  registry : Registry := {}
  overrides : List Override := []
  structures : List StructureOverride := []
  reserved : List String := []
deriving Inhabited

/-- What a topic carries: one variable, or the structure rooted at a first segment. -/
inductive Carrier where
  | single (name : String)
  | assembly (root : String)
deriving Repr, DecidableEq, Inhabited

/-- One data channel between the FMU and the bus. -/
structure Topic where
  name : String
  direction : Direction
  type : Descriptor
  carrier : Carrier
  /-- The clock variables gating the topic. -/
  clocks : List String
deriving Inhabited

end Layout

/-- The configured mapping between an FMU and the bus. -/
structure Layout where
  publications : List Layout.Topic
  subscriptions : List Layout.Topic
  enumWidth : Nat
  /-- Every bound variable, in model order. -/
  bound : List Layout.BoundVariable
  /-- Every assembled structure, in model order. -/
  structures : List Layout.Assembly
deriving Inhabited

namespace Layout

/-- The bound variable called `name`. -/
def findVariable (l : Layout) (name : String) : Option BoundVariable :=
  l.bound.find? (·.name == name)

/-- The structure rooted at `root`. -/
def findStructure (l : Layout) (root : String) : Option Assembly :=
  l.structures.find? (Path.root ·.path == root)

/-- The input topic called `name`. -/
def findSubscription (l : Layout) (name : String) : Option Topic :=
  l.subscriptions.find? (·.name == name)

/-- The output topic called `name`. -/
def findPublication (l : Layout) (name : String) : Option Topic :=
  l.publications.find? (·.name == name)

/-- Registers the model's enumerations and resolves the registry. -/
def withModelEnums (md : Fmu.ModelDescription) (reg : Registry) : Except Fault Registry := do
  let mut reg := reg
  for e in md.enums do
    reg ← reg.addEnum e "modelDescription.TypeDefinitions"
  let (resolved, res) := reg.resolveAll
  match res with
  | .ok () => return resolved
  | .error f => throw f

/-- Checks the variable overrides: each names a model variable, none twice. -/
def checkOverrides (md : Fmu.ModelDescription) (os : List Override) : Except Fault Unit := do
  let mut seen : List String := []
  for (o, i) in os.zipIdx do
    let subject := "variables[" ++ toString i ++ "]"
    if (md.variableNamed? o.name).isNone then
      throw (Fault.configurationf subject .invalidConfig ("model has no variable " ++ Text.quote o.name))
    if seen.contains o.name then
      throw (Fault.configurationf subject .duplicateName
        ("variable " ++ Text.quote o.name ++ " configured twice"))
    seen := o.name :: seen

/-- Binds every exchanged, not skipped variable of the model, in model order. A variable with an
override must be exchanged, and a structure member takes its structure's topic. -/
def bindAll (md : Fmu.ModelDescription) (reg : Registry) (os : List Override) :
    Except Fault (List BoundVariable) := do
  let mut vars : List BoundVariable := []
  for v in md.modelVariables do
    let o := os.find? (·.name == v.name)
    if (o.map (·.skip)).getD false then continue
    match directionOf v with
    | none =>
      if o.isSome then
        throw (Fault.configurationf ("variable " ++ Text.quote v.name) .invalidConfig
          ("causality " ++ v.causality.name ++ " is not exchanged"))
    | some dir =>
      let b ← bindVariable md reg v dir o
      if b.path.length > 1 && (o.map (·.topic != "")).getD false then
        throw (b.invalid "structure members take the topic of their structure")
      vars := vars ++ [b]
  return vars

/-- Reads the structure overrides: the topic configured per root and the declared types. -/
def structureTypes (reg : Registry) (ss : List StructureOverride) :
    Except Fault (List (String × String) × List (String × Descriptor)) := do
  let mut topics : List (String × String) := []
  let mut declared : List (String × Descriptor) := []
  for (so, i) in ss.zipIdx do
    let subject := "structures[" ++ toString i ++ "]"
    if (topics.lookup so.name).isSome then
      throw (Fault.configurationf subject .duplicateName
        ("structure " ++ Text.quote so.name ++ " configured twice"))
    topics := topics ++ [(so.name, so.topic)]
    if so.type == "" then continue
    let d ← Descriptor.parse so.type
    let d ← reg.resolve subject d
    declared := declared ++ [(so.name, d)]
  return (topics, declared)

/-- Adds a topic to its direction's list; a name may be used once per direction. -/
def addTopic (pubs subs : List Topic) (t : Topic) : Except Fault (List Topic × List Topic) :=
  let taken := (if t.direction == .publish then pubs else subs).any (·.name == t.name)
  if taken then
    .error (Fault.configurationf ("topic " ++ Text.quote t.name) .duplicateName
      ("topic used twice for " ++ t.direction.name))
  else if t.direction == .publish then .ok (pubs ++ [t], subs)
  else .ok (pubs, subs ++ [t])

/-- Binds the variables of a model to the bus according to the options. -/
def configure (md : Fmu.ModelDescription) (opts : Options) : Except Fault Layout := do
  let reg ← withModelEnums md opts.registry
  checkOverrides md opts.overrides
  let vars ← bindAll md reg opts.overrides
  let (topicNames, declared) ← structureTypes reg opts.structures
  let (structs, vars) ← assemble vars declared
  for (root, _) in topicNames do
    if !(structs.any (Path.root ·.path == root)) then
      throw (Fault.configurationf ("structure " ++ Text.quote root) .invalidConfig
        ("model has no variables below " ++ Text.quote root))
  let byRef (vr : Nat) : Option BoundVariable := (vars.filter (·.fmu.vr == vr)).getLast?
  let mut pubs : List Topic := []
  let mut subs : List Topic := []
  for b in vars do
    if b.path.length != 1 || b.isClock || opts.reserved.contains b.name then continue
    let clocks := b.fmu.clocks.filterMap fun vr =>
      match byRef vr with
      | some c => if c.isClock then some c.name else none
      | none => none
    let t : Topic :=
      { name := b.topic, direction := b.direction, type := b.type.getD (.primitive .invalid),
        carrier := .single b.name, clocks }
    (pubs, subs) ← addTopic pubs subs t
  for s in structs do
    let root := Path.root s.path
    if opts.reserved.contains root then continue
    let members := s.variableNames.filterMap fun n => vars.find? (·.name == n)
    match members with
    | [] => continue
    | first :: rest =>
      for b in rest do
        if b.direction != first.direction then
          throw (Fault.configurationf ("structure " ++ Text.quote root) .invalidConfig
            ("mixes inputs and outputs (" ++ first.name ++ ", " ++ b.name ++ ")"))
      let name := match topicNames.lookup root with
        | some t => if t != "" then t else root
        | none => root
      let t : Topic :=
        { name, direction := first.direction, type := s.descriptor, carrier := .assembly root,
          clocks := s.allClocks }
      (pubs, subs) ← addTopic pubs subs t
  return { publications := pubs, subscriptions := subs, enumWidth := md.enumWidth,
           bound := vars, structures := structs }

/-- The report lines of a structure's slots: nested structures with their slots indented
further, variables with the slot's type and the variable filling it. -/
def slotLines (indent : String) : Assembly → List String
  | .mk _ _ _ _ slots _ => go indent slots
where
  go (indent : String) : List (String × Descriptor × Option String × Option Assembly) → List String
    | [] => []
    | (m, t, _, some s) :: rest =>
      (indent ++ m ++ ": " ++ t.toToken) :: slotLines (indent ++ "  ") s ++ go indent rest
    | (m, t, v, none) :: rest =>
      (indent ++ m ++ ": " ++ t.toToken ++ " <- " ++ v.getD "") :: go indent rest

/-- The report lines of one topic: its name, type and clocks, then what fills it. -/
def topicLines (l : Layout) (t : Topic) : List String :=
  let head := "  " ++ t.name ++ ": " ++ t.type.toToken ++
    (if t.clocks.isEmpty then "" else " (clocked by " ++ " ".intercalate t.clocks ++ ")")
  match t.carrier with
  | .assembly root =>
    head :: ((l.findStructure root).map (slotLines "    ")).getD []
  | .single v => if v != t.name then [head, "    <- " ++ v] else [head]

/-- The report of the topics and their wire types, each direction sorted by topic name. -/
def report (l : Layout) : String :=
  let section_ (title : String) (ts : List Topic) : String :=
    let sorted := ts.mergeSort fun a b => !(b.name < a.name)
    String.join ((title ++ ":") :: sorted.flatMap (topicLines l) |>.map (· ++ "\n"))
  section_ "publications" l.publications ++ section_ "subscriptions" l.subscriptions

end Layout

end CoSimBridge
