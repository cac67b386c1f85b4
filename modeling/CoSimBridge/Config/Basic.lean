import CoSimBridge.Types.Registry
import CoSimBridge.Duration
import CoSimBridge.Transform
/-!
The bridge configuration: what a configuration document declares.

The model description to load, the stepping parameters, the bus, custom wire types, per-variable
and per-structure overrides, CAN controllers, remote functions and the in-memory FMU's links.
Every field has a zero value that stands for "not configured".
-/

namespace CoSimBridge

/-- Stepping parameters; zero stands for "take it from the model description". -/
structure Simulation where
  stepSize : Float := 0
  start : Float := 0
  stop : Float := 0
  /-- Whether inbound messages follow simulation time; unset means yes. -/
  synchronized : Option Bool := none
  realtime : Bool := false
deriving Inhabited

/-- Settings of the NATS bus adapter. -/
structure NatsSettings where
  url : String := ""
  subjectPrefix : String := ""
  maxReconnects : Int := 0
  reconnectWait : Duration := 0
  timeout : Duration := 0
deriving Inhabited

/-- The bus adapter: its kind (`memory` or `nats`), the participant name and NATS settings. -/
structure BusSettings where
  kind : String := ""
  name : String := ""
  nats : NatsSettings := {}
deriving Inhabited

/-- A declared struct: its name and its members' names and type tokens. -/
structure StructDecl where
  name : String := ""
  members : List (String × String) := []
deriving Inhabited

/-- A declared enumeration. -/
structure EnumDecl where
  name : String := ""
  items : List EnumItem := []
deriving Inhabited

/-- Declared custom wire types. -/
structure TypesSection where
  structs : List StructDecl := []
  enums : List EnumDecl := []
deriving Inhabited

/-- Overrides for one FMU variable. -/
structure VariableDecl where
  name : String := ""
  topic : String := ""
  type : String := ""
  skip : Bool := false
  transform : Option Transform := none
deriving Inhabited

/-- Overrides for the structure rooted at `name`. -/
structure StructureDecl where
  name : String := ""
  topic : String := ""
  type : String := ""
deriving Inhabited

/-- A CAN controller bound to transmit and receive buffers and their clocks. -/
structure CanDecl where
  controller : String := ""
  tx : String := ""
  txClock : String := ""
  rx : String := ""
  rxClock : String := ""
deriving Inhabited

/-- A remote function bound to an argument and a result structure. -/
structure FunctionDecl where
  function : String := ""
  args : String := ""
  result : String := ""
deriving Inhabited

/-- Remote functions the FMU calls and serves. -/
structure RpcSection where
  clients : List FunctionDecl := []
  servers : List FunctionDecl := []
deriving Inhabited

/-- A link from a source variable to a target variable. -/
structure LinkDecl where
  source : String := ""
  target : String := ""
deriving Inhabited

/-- The in-memory FMU: links copied after every step, and whether steps complete later. -/
structure LoopbackSection where
  links : List LinkDecl := []
  async : Bool := false
deriving Inhabited

/-- A whole configuration. -/
structure Config where
  model : String := ""
  simulation : Simulation := {}
  bus : BusSettings := {}
  types : TypesSection := {}
  variableDecls : List VariableDecl := []
  structures : List StructureDecl := []
  can : List CanDecl := []
  rpc : RpcSection := {}
  loopback : LoopbackSection := {}
deriving Inhabited

namespace TypesSection

/-- Registers the enumerations, then the structs (reading each member's type token), then
resolves every struct. -/
def registry (t : TypesSection) : Except Fault Registry := do
  let mut reg := Registry.empty
  for (e, i) in t.enums.zipIdx do
    reg ← reg.addEnum ⟨e.name, e.items⟩ ("types.enums[" ++ toString i ++ "]")
  for (s, i) in t.structs.zipIdx do
    let mut members : List (String × Descriptor) := []
    for ((m, tok), j) in s.members.zipIdx do
      match Descriptor.parse tok with
      | .ok d => members := members ++ [(m, d)]
      | .error f =>
        throw (Fault.configuration
          ("types.structs[" ++ toString i ++ "].members[" ++ toString j ++ "]") f)
    reg ← reg.addStruct (.mk s.name members) ("types.structs[" ++ toString i ++ "]")
  let (resolved, res) := reg.resolveAll
  match res with
  | .ok () => return resolved
  | .error f => throw f

end TypesSection

end CoSimBridge
