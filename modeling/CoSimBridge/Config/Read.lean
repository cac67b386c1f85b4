import CoSimBridge.Config.Basic
import CoSimBridge.Yaml.Decode
/-!
Reading a configuration document.

The document is YAML (JSON is YAML too). Only its first document is read; a text with no
document is the empty configuration. Every key must name a field of the section it is in, so
a misspelt key is an error rather than a silently ignored setting. Values that do not fit
their field are all reported together, each with its line. Type names in messages are the
names the configuration schema gives its sections (`config.Simulation`, …) and its scalars
(`float64`, `time.Duration`, …).
-/

namespace CoSimBridge

open Yaml

namespace ConfigSchema

/-- Stepping parameters. -/
def simulation : Decoder Simulation := recordDecoder "config.Simulation"
  [ field "step_size" floatDecoder (·.stepSize) fun v x => { v with stepSize := x },
    field "start" floatDecoder (·.start) fun v x => { v with start := x },
    field "stop" floatDecoder (·.stop) fun v x => { v with stop := x },
    field "synchronized" (optionalDecoder false boolDecoder) (·.synchronized)
      fun v x => { v with synchronized := x },
    field "realtime" boolDecoder (·.realtime) fun v x => { v with realtime := x } ]

/-- NATS settings. -/
def nats : Decoder NatsSettings := recordDecoder "config.NATS"
  [ field "url" stringDecoder (·.url) fun v x => { v with url := x },
    field "prefix" stringDecoder (·.subjectPrefix) fun v x => { v with subjectPrefix := x },
    field "max_reconnects" (intDecoder "int") (·.maxReconnects) fun v x => { v with maxReconnects := x },
    field "reconnect_wait" durationDecoder (·.reconnectWait) fun v x => { v with reconnectWait := x },
    field "timeout" durationDecoder (·.timeout) fun v x => { v with timeout := x } ]

/-- The bus section. -/
def bus : Decoder BusSettings := recordDecoder "config.Bus"
  [ field "kind" stringDecoder (·.kind) fun v x => { v with kind := x },
    field "name" stringDecoder (·.name) fun v x => { v with name := x },
    field "nats" nats (·.nats) fun v x => { v with nats := x } ]

/-- A struct member: its name and type token. -/
def member : Decoder (String × String) := recordDecoder "config.Member"
  [ field "name" stringDecoder (·.1) fun v x => (x, v.2),
    field "type" stringDecoder (·.2) fun v x => (v.1, x) ]

/-- A declared struct. -/
def struct : Decoder StructDecl := recordDecoder "config.Struct"
  [ field "name" stringDecoder (·.name) fun v x => { v with name := x },
    field "members" (listDecoder "[]config.Member" ("", "") member) (·.members)
      fun v x => { v with members := x } ]

/-- An enumeration literal. -/
def enumItem : Decoder EnumItem := recordDecoder "config.EnumItem"
  [ field "name" stringDecoder (·.name) fun v x => { v with name := x },
    field "value" (intDecoder "int64") (·.value) fun v x => { v with value := x } ]

/-- A declared enumeration. -/
def enum : Decoder EnumDecl := recordDecoder "config.Enum"
  [ field "name" stringDecoder (·.name) fun v x => { v with name := x },
    field "items" (listDecoder "[]config.EnumItem" ⟨"", 0⟩ enumItem) (·.items)
      fun v x => { v with items := x } ]

/-- The types section. -/
def types : Decoder TypesSection := recordDecoder "config.Types"
  [ field "structs" (listDecoder "[]config.Struct" {} struct) (·.structs)
      fun v x => { v with structs := x },
    field "enums" (listDecoder "[]config.Enum" {} enum) (·.enums) fun v x => { v with enums := x } ]

/-- A linear transformation. -/
def transform : Decoder Transform := recordDecoder "config.Transform"
  [ field "factor" (optionalDecoder 0 floatDecoder) (·.factor) fun v x => { v with factor := x },
    field "offset" (optionalDecoder 0 floatDecoder) (·.offset) fun v x => { v with offset := x },
    field "reverse" boolDecoder (·.reverse) fun v x => { v with reverse := x },
    field "transmission_type" stringDecoder (·.transmission)
      fun v x => { v with transmission := x } ]

/-- A variable override. -/
def variableOverride : Decoder VariableDecl := recordDecoder "config.Variable"
  [ field "name" stringDecoder (·.name) fun v x => { v with name := x },
    field "topic" stringDecoder (·.topic) fun v x => { v with topic := x },
    field "type" stringDecoder (·.type) fun v x => { v with type := x },
    field "skip" boolDecoder (·.skip) fun v x => { v with skip := x },
    field "transform" (optionalDecoder {} transform) (·.transform) fun v x => { v with transform := x } ]

/-- A structure override. -/
def structureOverride : Decoder StructureDecl := recordDecoder "config.Structure"
  [ field "name" stringDecoder (·.name) fun v x => { v with name := x },
    field "topic" stringDecoder (·.topic) fun v x => { v with topic := x },
    field "type" stringDecoder (·.type) fun v x => { v with type := x } ]

/-- A CAN controller binding. -/
def can : Decoder CanDecl := recordDecoder "config.CAN"
  [ field "controller" stringDecoder (·.controller) fun v x => { v with controller := x },
    field "tx" stringDecoder (·.tx) fun v x => { v with tx := x },
    field "tx_clock" stringDecoder (·.txClock) fun v x => { v with txClock := x },
    field "rx" stringDecoder (·.rx) fun v x => { v with rx := x },
    field "rx_clock" stringDecoder (·.rxClock) fun v x => { v with rxClock := x } ]

/-- A remote function binding. -/
def function : Decoder FunctionDecl := recordDecoder "config.RPCFunction"
  [ field "function" stringDecoder (·.function) fun v x => { v with function := x },
    field "args" stringDecoder (·.args) fun v x => { v with args := x },
    field "result" stringDecoder (·.result) fun v x => { v with result := x } ]

/-- The remote function section. -/
def rpc : Decoder RpcSection := recordDecoder "config.RPC"
  [ field "clients" (listDecoder "[]config.RPCFunction" {} function) (·.clients)
      fun v x => { v with clients := x },
    field "servers" (listDecoder "[]config.RPCFunction" {} function) (·.servers)
      fun v x => { v with servers := x } ]

/-- A loopback link. -/
def link : Decoder LinkDecl := recordDecoder "config.Link"
  [ field "from" stringDecoder (·.source) fun v x => { v with source := x },
    field "to" stringDecoder (·.target) fun v x => { v with target := x } ]

/-- The loopback section. -/
def loopback : Decoder LoopbackSection := recordDecoder "config.Loopback"
  [ field "links" (listDecoder "[]config.Link" {} link) (·.links) fun v x => { v with links := x },
    field "async" boolDecoder (·.async) fun v x => { v with async := x } ]

/-- A whole configuration. -/
def config : Decoder Config := recordDecoder "config.Config"
  [ field "model" stringDecoder (·.model) fun v x => { v with model := x },
    field "simulation" simulation (·.simulation) fun v x => { v with simulation := x },
    field "bus" bus (·.bus) fun v x => { v with bus := x },
    field "types" types (·.types) fun v x => { v with types := x },
    field "variables" (listDecoder "[]config.Variable" {} variableOverride) (·.variableDecls)
      fun v x => { v with variableDecls := x },
    field "structures" (listDecoder "[]config.Structure" {} structureOverride) (·.structures)
      fun v x => { v with structures := x },
    field "can" (listDecoder "[]config.CAN" {} can) (·.can) fun v x => { v with can := x },
    field "rpc" rpc (·.rpc) fun v x => { v with rpc := x },
    field "loopback" loopback (·.loopback) fun v x => { v with loopback := x } ]

end ConfigSchema

/-- Reads a configuration document. A text that is not YAML, or whose values do not fit, is
an invalid configuration of the subject `bridge config`. -/
def Config.parse (text : String) : Except Fault Config :=
  let fail (m : String) : Except Fault Config :=
    .error (Fault.configuration "bridge config"
      (.wrap "" (.condition .invalidConfig) (": parsing YAML: " ++ m)))
  match Node.ofText text with
  | .error e => fail e.message
  | .ok none => .ok {}
  | .ok (some n) =>
    match decodeDocument ConfigSchema.config {} n with
    | .ok c => .ok c
    | .error m => fail m

end CoSimBridge
