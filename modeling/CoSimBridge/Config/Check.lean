import CoSimBridge.Config.Basic
import CoSimBridge.Fmu.Model
import CoSimBridge.Bus.Nats
import CoSimBridge.Text.Quote
/-!
Completing and checking a configuration.

Defaults fill what a configuration leaves at zero: the step, start and stop from the model
description (a step of 0.01 when neither gives one), synchronized delivery, the in-memory
bus, and the NATS settings of a local server. Validation then rejects what cannot work,
naming the offending entry as `section[index].field`: a step that is not a positive finite
number, a stop before the start, an unknown bus kind, unnamed types, structures, variables,
controllers or links, incomplete CAN or remote function bindings, names bound twice, and
transformation parameters that are not finite or scale by zero.
-/

namespace CoSimBridge

namespace Config

/-- The step size used when neither the configuration nor the model description gives one. -/
def defaultStepSize : Float := 0.01

/-- Fills unset values, taking stepping parameters from the model description when there is
one. -/
def withDefaults (c : Config) (md : Option Fmu.ModelDescription) : Config :=
  let s := c.simulation
  let s := if s.stepSize == 0 then { s with stepSize := (md.map (·.stepSize)).getD 0 } else s
  let s := if s.stepSize == 0 then { s with stepSize := defaultStepSize } else s
  let s := if s.start == 0 then { s with start := (md.map (·.startTime)).getD s.start } else s
  let s := if s.stop == 0 then { s with stop := (md.map (·.stopTime)).getD s.stop } else s
  let s := if s.synchronized.isNone then { s with synchronized := some true } else s
  let d := NatsConnection.default
  let n := c.bus.nats
  let n := if n.url == "" then { n with url := d.url } else n
  let n := if n.maxReconnects == 0 then { n with maxReconnects := d.maxReconnects } else n
  let n := if n.reconnectWait == 0 then { n with reconnectWait := d.reconnectWait } else n
  let n := if n.timeout == 0 then { n with timeout := d.timeout } else n
  { c with simulation := s,
           bus := { c.bus with kind := if c.bus.kind == "" then "memory" else c.bus.kind, nats := n } }

/-- Whether inbound delivery follows simulation time (unset means yes). -/
def isSynchronized (c : Config) : Bool := c.simulation.synchronized.getD true

/-- The NATS connection settings: the configured values over those of a local server. -/
def natsConnection (c : Config) : NatsConnection :=
  let d := NatsConnection.default
  let n := c.bus.nats
  { url := if n.url != "" then n.url else d.url
    subjectPrefix := n.subjectPrefix
    name := if c.bus.name != "" then c.bus.name else d.name
    maxReconnects := if n.maxReconnects != 0 then n.maxReconnects else d.maxReconnects
    reconnectWait := if n.reconnectWait != 0 then n.reconnectWait else d.reconnectWait
    timeout := if n.timeout != 0 then n.timeout else d.timeout }

/-- An invalid configuration entry. -/
def invalid (subject detail : String) : Fault := Fault.configurationf subject .invalidConfig detail

/-- Rejects a value that is NaN or infinite. -/
def requireFinite (subject : String) (x : Float) : Except Fault Unit :=
  if x.isNaN || x.isInf then .error (invalid subject ("must be a finite number, got " ++ x.render))
  else .ok ()

/-- `section[i]`. -/
def entry (section_ : String) (i : Nat) : String := section_ ++ "[" ++ toString i ++ "]"

/-- Checks one group of remote functions: each complete, none named twice. -/
def checkFunctions (group : String) (fns : List FunctionDecl) : Except Fault Unit := do
  let mut seen : List String := []
  for (fn, i) in fns.zipIdx do
    let at_ := entry group i
    if fn.function == "" || fn.args == "" || fn.result == "" then
      throw (invalid at_ "function, args and result are required")
    if seen.contains fn.function then
      throw (Fault.configurationf (at_ ++ ".function") .duplicateName
        ("function " ++ Text.quote fn.function ++ " configured twice"))
    seen := fn.function :: seen

/-- Checks the configuration for values that cannot work; the first problem found is the
answer. -/
def validate (c : Config) : Except Fault Unit := do
  let s := c.simulation
  requireFinite "simulation.step_size" s.stepSize
  if s.stepSize ≤ 0 then
    throw (invalid "simulation.step_size" ("must be positive, got " ++ s.stepSize.render))
  if s.stop != 0 && s.stop < s.start then
    throw (invalid "simulation.stop" (s.stop.render ++ " is before start " ++ s.start.render))
  if c.bus.kind != "memory" && c.bus.kind != "nats" then
    throw (invalid "bus.kind"
      ("unknown bus kind " ++ Text.quote c.bus.kind ++ "; valid: memory, nats"))
  for (st, i) in c.types.structs.zipIdx do
    let at_ := entry "types.structs" i
    if st.name == "" then throw (invalid (at_ ++ ".name") "must not be empty")
    for ((m, t), j) in st.members.zipIdx do
      if m == "" || t == "" then
        throw (invalid (entry (at_ ++ ".members") j) "name and type are required")
  for (e, i) in c.types.enums.zipIdx do
    let at_ := entry "types.enums" i
    if e.name == "" then throw (invalid (at_ ++ ".name") "must not be empty")
    if e.items.isEmpty then
      throw (invalid (at_ ++ ".items") ("enum " ++ Text.quote e.name ++ " has no items"))
  for (v, i) in c.variableDecls.zipIdx do
    let at_ := entry "variables" i
    if v.name == "" then throw (invalid (at_ ++ ".name") "must not be empty")
    match v.transform with
    | none => pure ()
    | some t =>
      match t.factor with
      | some f =>
        requireFinite (at_ ++ ".transform.factor") f
        if f == 0 then throw (invalid (at_ ++ ".transform.factor") "must not be zero")
      | none => pure ()
      match t.offset with
      | some o => requireFinite (at_ ++ ".transform.offset") o
      | none => pure ()
  for (st, i) in c.structures.zipIdx do
    if st.name == "" then throw (invalid (entry "structures" i ++ ".name") "must not be empty")
  let mut controllers : List String := []
  for (ch, i) in c.can.zipIdx do
    let at_ := entry "can" i
    if ch.controller == "" then throw (invalid (at_ ++ ".controller") "must not be empty")
    if controllers.contains ch.controller then
      throw (Fault.configurationf (at_ ++ ".controller") .duplicateName
        ("controller " ++ Text.quote ch.controller ++ " configured twice"))
    controllers := ch.controller :: controllers
    if ch.tx == "" || ch.txClock == "" || ch.rx == "" then
      throw (invalid at_ "tx, tx_clock and rx are required")
  checkFunctions "rpc.clients" c.rpc.clients
  checkFunctions "rpc.servers" c.rpc.servers
  for (l, i) in c.loopback.links.zipIdx do
    if l.source == "" || l.target == "" then
      throw (invalid (entry "loopback.links" i) "from and to are required")

/-- The variables and structures that CAN controllers and remote functions serve: each
controller's non-empty buffers and clocks, then the argument and result structures of every
client and server function. -/
def reserved (c : Config) : List String :=
  (c.can.flatMap fun ch => [ch.tx, ch.txClock, ch.rx, ch.rxClock].filter (· != "")) ++
    ((c.rpc.clients ++ c.rpc.servers).flatMap fun fn => [fn.args, fn.result])

/-- The loopback links as pairs of value references, each end looked up by name. -/
def loopbackLinks (c : Config) (md : Fmu.ModelDescription) : Except Fault (List (Nat × Nat)) :=
  c.loopback.links.zipIdx.mapM fun (l, i) =>
    let fail (what name : String) : Except Fault (Nat × Nat) :=
      .error (invalid (entry "loopback.links" i)
        ("link " ++ what ++ " " ++ Text.quote name ++ " is not a variable"))
    match md.variableNamed? l.source, md.variableNamed? l.target with
    | none, _ => fail "source" l.source
    | some _, none => fail "target" l.target
    | some f, some t => .ok (f.vr, t.vr)

end Config

end CoSimBridge
