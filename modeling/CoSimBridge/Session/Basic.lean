import CoSimBridge.Config.Layout
import CoSimBridge.Layout.Pipeline
import CoSimBridge.Delivery.Buffer
import CoSimBridge.Delivery.Outbox
import CoSimBridge.Can.Record
import CoSimBridge.Metrics
/-!
Sessions: one FMU exchanging data with a bus.

A session is configured once, from a configuration with defaults applied: the configuration is
validated, its types are registered, the model is laid out, and every CAN controller and remote
function is bound to the variables and structures that serve it. A CAN controller needs a
binary output for transmitted operations with an output clock, a binary input for received
ones and optionally an input clock. A remote function needs an argument and a result structure,
each holding at least one clock and only variables and clocks of the right direction: a client
publishes arguments and receives results, a server the other way round.

A session goes from created to initialized (subscribed and attached) to running (stepping) and
ends terminated.
-/

namespace CoSimBridge

/-- The lifecycle phase of a session. -/
inductive Phase where
  | created
  | initialized
  | running
  | terminated
deriving Repr, DecidableEq, Inhabited

/-- The phase's name. -/
def Phase.name : Phase → String
  | .created => "created"
  | .initialized => "initialized"
  | .running => "running"
  | .terminated => "terminated"

/-- The name of the phase with a given number, counting from 0 for created; other numbers are
unknown. -/
def Phase.nameOfCode (i : Int) : String :=
  match i with
  | 0 => Phase.created.name
  | 1 => Phase.initialized.name
  | 2 => Phase.running.name
  | 3 => Phase.terminated.name
  | _ => "unknown"

namespace Session

open Layout

/-- The bound variable `name`, which must be of kind `k` and direction `dir`. -/
def lookupVariable (l : Layout) (subject name : String) (k : Kind) (dir : Direction) :
    Except Fault BoundVariable :=
  match l.findVariable name with
  | none => .error (Fault.configurationf subject .invalidConfig
      ("model has no exchanged variable " ++ Text.quote name))
  | some b =>
    if b.kind != k || b.direction != dir then
      .error (Fault.configurationf subject .invalidConfig ("variable " ++ Text.quote name ++
        " must be a " ++ k.name ++ " " ++ dir.name ++ ", got " ++ b.kind.name ++ " " ++ b.direction.name))
    else .ok b

/-- The structure rooted at `root`, which must hold a clock and only variables and clocks of
direction `dir`. -/
def lookupStructure (l : Layout) (subject root : String) (dir : Direction) : Except Fault Assembly := do
  let some s := l.findStructure root
    | throw (Fault.configurationf subject .invalidConfig ("model has no structure " ++ Text.quote root))
  if s.allClocks.isEmpty then
    throw (Fault.configurationf subject .invalidConfig ("structure " ++ Text.quote root ++ " has no clock"))
  for n in s.variableNames do
    if let some b := l.findVariable n then
      if b.direction != dir then
        throw (Fault.configurationf subject .invalidConfig ("structure " ++ Text.quote root ++
          " must only hold " ++ dir.name ++ " variables, " ++ b.name ++ " is " ++ b.direction.name))
  for n in s.allClocks do
    if let some b := l.findVariable n then
      if b.direction != dir then
        throw (Fault.configurationf subject .invalidConfig ("structure " ++ Text.quote root ++
          " must only hold " ++ dir.name ++ " clocks, " ++ b.name ++ " is " ++ b.direction.name))
  return s

end Session

/-- An input topic with the buffer its samples wait in and its subscription. -/
structure Inbound where
  topic : Layout.Topic
  buffer : Delivery.Buffer String Bytes
  subscription : Nat

/-- A CAN controller bound to its transmit and receive variables. `held` is set while the receive
buffer carries operations from an earlier step. -/
structure CanChannel where
  controller : String
  tx : Layout.BoundVariable
  txClock : Layout.BoundVariable
  rx : Layout.BoundVariable
  rxClock : Option Layout.BoundVariable
  endpoint : Option Nat := none
  inbox : Option (Delivery.Buffer (UInt32 × UInt32) Can.Operation) := none
  held : Bool := false

/-- A remote function the FMU calls: a call whenever a clock of the argument structure ticks,
results into the result structure. `pending` holds the correlation ids of calls awaiting their
result, with the time of the call. -/
structure ClientChannel where
  function : String
  args : Layout.Assembly
  result : Layout.Assembly
  endpoint : Option Nat := none
  inbox : Option (Delivery.Buffer String Bytes) := none
  pending : List (String × Float) := []

/-- A remote function the FMU serves, one call at a time: the next queued call is handed over
once the FMU answered the one in flight by ticking a clock of the result structure. Calls are
known by their handles. -/
structure ServerChannel where
  function : String
  args : Layout.Assembly
  result : Layout.Assembly
  endpoint : Option Nat := none
  inbox : Option (Delivery.Buffer String Bytes) := none
  queue : List (String × Bytes) := []
  inflight : Option (String × Bytes) := none

/-- A session's state apart from its FMU and its bus. -/
structure Session where
  config : Config
  layout : Layout
  phase : Phase := .created
  now : Float
  step : Float
  window : Delivery.Window
  inbound : List Inbound := []
  outbox : Delivery.Outbox String Bytes := {}
  cans : List CanChannel := []
  clients : List ClientChannel := []
  servers : List ServerChannel := []
  /-- The first failure raised while receiving; the next step answers it. -/
  failure : Option Fault := none
  metrics : Option Metrics := none

namespace Session

open Layout

/-- Binds CAN controller number `i`. -/
def canChannel (l : Layout) (i : Nat) (c : CanDecl) : Except Fault CanChannel := do
  let subject := "can[" ++ toString i ++ "]"
  let tx ← lookupVariable l (subject ++ ".tx") c.tx .binary .publish
  let txClock ← lookupVariable l (subject ++ ".tx_clock") c.txClock .clock .publish
  let rx ← lookupVariable l (subject ++ ".rx") c.rx .binary .subscribe
  let rxClock ← if c.rxClock != "" then
      some <$> lookupVariable l (subject ++ ".rx_clock") c.rxClock .clock .subscribe
    else pure none
  return { controller := c.controller, tx, txClock, rx, rxClock }

/-- Binds remote function client number `i`. -/
def clientChannel (l : Layout) (i : Nat) (fn : FunctionDecl) : Except Fault ClientChannel := do
  let subject := "rpc.clients[" ++ toString i ++ "]"
  let args ← lookupStructure l (subject ++ ".args") fn.args .publish
  let result ← lookupStructure l (subject ++ ".result") fn.result .subscribe
  return { function := fn.function, args, result }

/-- Binds remote function server number `i`. -/
def serverChannel (l : Layout) (i : Nat) (fn : FunctionDecl) : Except Fault ServerChannel := do
  let subject := "rpc.servers[" ++ toString i ++ "]"
  let args ← lookupStructure l (subject ++ ".args") fn.args .subscribe
  let result ← lookupStructure l (subject ++ ".result") fn.result .publish
  return { function := fn.function, args, result }

/-- Configures a session for a model from a configuration with defaults applied; with
`withMetrics` it records metrics. Every configuration problem is reported here. -/
def new (c : Config) (md : Fmu.ModelDescription) (withMetrics : Bool) : Except Fault Session := do
  c.validate
  let l ← c.layout md
  let s := c.simulation
  let cans ← c.can.zipIdx.mapM fun (x, i) => canChannel l i x
  let clients ← c.rpc.clients.zipIdx.mapM fun (x, i) => clientChannel l i x
  let servers ← c.rpc.servers.zipIdx.mapM fun (x, i) => serverChannel l i x
  return { config := c, layout := l, now := s.start, step := s.stepSize,
           window := ⟨s.start, s.start + s.stepSize⟩, cans, clients, servers,
           metrics := if withMetrics then some {} else none }

end Session

/-- A configured bridge: its in-memory FMU and its session, not yet on a bus. -/
structure Bridge where
  device : Fmu.Device
  session : Session

namespace Bridge

/-- Prepares a bridge for a model: applies the defaults, validates, builds the in-memory FMU
with the configured links and configures the session. -/
def prepare (c : Config) (md : Fmu.ModelDescription) (withMetrics : Bool) : Except Fault Bridge := do
  let c := c.withDefaults (some md)
  c.validate
  let links ← c.loopbackLinks md
  let fmu ← Fmu.Loopback.new md links c.loopback.async
  let session ← Session.new c md withMetrics
  return { device := { fmu }, session }

/-- The model, its FMI version and step, then the topics and their wire types. -/
def report (b : Bridge) : String :=
  let md := b.device.fmu.model
  "model: " ++ md.modelName ++ " (FMI " ++ md.fmiVersion ++ "), step " ++
    b.session.config.simulation.stepSize.render ++ "\n" ++ b.session.layout.report

end Bridge

end CoSimBridge
