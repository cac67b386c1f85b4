import CoSimBridge.Session.Basic
import CoSimBridge.Bus.Memory
import CoSimBridge.Duration
/-!
Sessions on an in-memory bus.

The world holds the network, the sessions with their FMUs (the peers), who handles what
arrives at each endpoint, what recording participants heard, and the log. Messages a session
receives wait in its delivery buffers: samples of input topics (refused when they are stamped
after the next step), CAN operations and remote function results and calls (kept for the step
they are due in). A failure while buffering is kept and answered by the session's next step.

A step of a session:

1. releases what is due at the current time into the FMU: topic samples, CAN operations into
   the receive variable (ticking its clock), remote function results (ticking the result
   structure's clocks), and the oldest queued call when no call is in flight (ticking the
   argument structure's clocks);
2. steps the FMU;
3. publishes every active output topic, sends the transmit operations of a CAN controller
   whose transmit clock ticked, calls a remote function whose argument clocks ticked, and
   answers the call in flight once the FMU ticked a clock of its result structure.

Running steps until the horizon is reached, up to a millionth of a step.
-/

namespace CoSimBridge

/-- Who handles what arrives at an endpoint. -/
inductive Handler where
  /-- Input topic `index` of peer `peer`. -/
  | inbound (peer index : Nat)
  | can (peer index : Nat)
  | client (peer index : Nat)
  | server (peer index : Nat)
  /-- A participant that records every message. -/
  | recorder
deriving Repr, DecidableEq, Inhabited

/-- A message a recording participant heard at one of its endpoints. -/
structure Heard where
  role : Bus.Role
  /-- The endpoint's topic, controller or function. -/
  name : String
  message : Bus.Message
deriving Inhabited

/-- A session with its FMU and its place on the bus. -/
structure Peer where
  session : Session
  device : Fmu.Device
  participant : Nat

/-- Sessions and other participants on one in-memory bus. -/
structure World where
  network : Bus.Network := {}
  handlers : List (Nat × Handler) := []
  peers : Array Peer := #[]
  heard : Array Heard := #[]
  log : Journal := #[]

/-- An action on the world; the world keeps its changes when the action fails. -/
abbrev Sim := ExceptT Fault (StateM World)

namespace World

open Layout Delivery

/-- Writes a log line. -/
def note (l : LogLine) : StateM World Unit := modify fun w => { w with log := w.log.push l }

/-- Peer `p`. -/
def peer (p : Nat) : Sim Peer := do
  match (← get).peers[p]? with
  | some x => pure x
  | none => throw (.text ("no peer " ++ toString p))

/-- The session of peer `p`. -/
def session (p : Nat) : Sim Session := return (← peer p).session

/-- Changes the session of peer `p`. -/
def modifySession (p : Nat) (f : Session → Session) : StateM World Unit :=
  modify fun w => { w with peers := w.peers.modify p fun x => { x with session := f x.session } }

/-- Raises the failure of a pure step. -/
def lift {α : Type} (r : Except Fault α) : Sim α :=
  match r with
  | .ok a => pure a
  | .error f => throw f

/-- Runs `act`, putting `ctx: ` in front of its failure. -/
def within {α : Type} (ctx : String) (act : Sim α) : Sim α :=
  tryCatch act fun f => throw (Fault.context ctx f)

/-- Runs a call on the FMU of peer `p`; its log lines join the world's log. -/
def onDevice {α : Type} (p : Nat) (act : Fmu.DeviceM α) : Sim α := do
  let x ← peer p
  let (r, d) := (act.run).run { x.device with log := #[] }
  modify fun w => { w with log := w.log ++ d.log,
                           peers := w.peers.modify p fun x => { x with device := { d with log := #[] } } }
  lift r

/-- Records a failure raised while buffering for peer `p`; only the first one counts. -/
def fail (p : Nat) (f : Fault) : StateM World Unit := do
  match (← get).peers[p]? with
  | some x =>
    if x.session.failure.isNone then
      note ⟨.error, "[bridge] " ++ f.message⟩
      modifySession p fun s => { s with failure := some f }
  | none => pure ()

/-- Feeds buffer reports of a channel into the metrics of peer `p`. -/
def observe (p : Nat) (channel : String) (rs : List Report) : StateM World Unit :=
  modifySession p fun s => { s with metrics := s.metrics.map (·.observeAll channel rs) }

/-- Counts messages sent by peer `p` on a channel, if any. -/
def published (p : Nat) (channel : String) (n : Nat) : StateM World Unit :=
  if n == 0 then pure ()
  else modifySession p fun s => { s with metrics := s.metrics.map (·.published channel n) }

/-- Inserts into a buffer of peer `p` in the session's current window, recording the reports
and a failure. Answers the new buffer. -/
def buffer {κ ν : Type} [BEq κ] (p : Nat) (b : Buffer κ ν) (ts : Float) (k : κ) (v : ν) :
    StateM World (Buffer κ ν) := do
  let w := match (← get).peers[p]? with
    | some x => x.session.window
    | none => {}
  let (r, b', rs) := b.insert w ts k v
  observe p b.name rs
  if let .error f := r then fail p f
  return b'

/-- Hands a message to the endpoint `e`. -/
def deliver (e : Nat) (m : Bus.Message) : StateM World Unit := do
  let w ← get
  let some ep := w.network.endpoint? e | return
  match w.handlers.lookup e, m with
  | some .recorder, _ => modify fun w => { w with heard := w.heard.push ⟨ep.role, ep.name, m⟩ }
  | some (.inbound p j), .data ts payload =>
    let some x := w.peers[p]? | return
    let some i := x.session.inbound[j]? | return
    let b ← buffer p i.buffer ts i.topic.name payload
    modifySession p fun s => { s with inbound := s.inbound.modify j fun i => { i with buffer := b } }
  | some (.can p j), .frame ts f => canInsert p j ts (.transmit f)
  | some (.can p j), .ack ts id => canInsert p j ts (.confirm id)
  | some (.client p j), .result ts correlation payload =>
    let some x := w.peers[p]? | return
    let some ch := x.session.clients[j]? | return
    let some b := ch.inbox | return
    let b ← buffer p b ts correlation payload
    modifySession p fun s => { s with clients := s.clients.modify j fun c => { c with inbox := some b } }
  | some (.server p j), .call ts handle args =>
    let some x := w.peers[p]? | return
    let some ch := x.session.servers[j]? | return
    let some b := ch.inbox | return
    let b ← buffer p b ts handle args
    modifySession p fun s => { s with servers := s.servers.modify j fun c => { c with inbox := some b } }
  | _, _ => pure ()
where
  canInsert (p j : Nat) (ts : Float) (op : Can.Operation) : StateM World Unit := do
    let some x := (← get).peers[p]? | return
    let some ch := x.session.cans[j]? | return
    let some b := ch.inbox | return
    let b ← buffer p b ts op.key op
    modifySession p fun s => { s with cans := s.cans.modify j fun c => { c with inbox := some b } }

/-- Carries out what a bus operation caused, in order. -/
def perform (effects : List Bus.Effect) : StateM World Unit :=
  effects.forM fun e => match e with
    | .deliver ep m => deliver ep m
    | .note l => note l

/-- Attaches an endpoint for a participant, handled by `h`. -/
def attach (part : Nat) (role : Bus.Role) (name : String) (h : Handler) : Sim Nat := do
  let (n, id) ← lift ((← get).network.attach part role name)
  modify fun w => { w with network := n, handlers := w.handlers ++ [(id, h)] }
  return id

/-- The endpoint with an id. -/
def endpoint (id : Nat) : Sim Bus.Endpoint := do
  match (← get).network.endpoint? id with
  | some e => pure e
  | none => throw Bus.closedFault

/-- Adds a participant to the network. -/
def join (name : String) : StateM World Nat := do
  let (n, p) := (← get).network.join name
  modify fun w => { w with network := n }
  return p

/-- Makes a participant leave the network. -/
def close (part : Nat) : StateM World Unit :=
  modify fun w => { w with network := w.network.close part }

/-- Ends a subscription. -/
def unsubscribe (id : Nat) : StateM World Unit :=
  modify fun w => { w with network := w.network.detach id }

/-- Publishes a sample from a participant. -/
def publish (part : Nat) (topic : String) (ts : Float) (payload : Bytes) : Sim Unit := do
  let effects ← lift ((← get).network.publish part topic ts payload)
  perform effects

/-- Sends a frame from a controller endpoint. -/
def sendFrame (ctrl : Nat) (ts : Float) (f : Can.Frame) : Sim Unit := do
  let e ← endpoint ctrl
  let effects ← lift ((← get).network.send e ts f)
  perform effects

/-- Calls a function from a client endpoint under a correlation id. -/
def callFunction (client : Nat) (ts : Float) (correlation : String) (args : Bytes) : Sim Unit := do
  let e ← endpoint client
  let (n, effects) ← lift ((← get).network.call e ts correlation args)
  modify fun w => { w with network := n }
  perform effects

/-- Submits the result of a call from a server endpoint. -/
def submitResult (server : Nat) (ts : Float) (handle : String) (payload : Bytes) : Sim Unit := do
  let e ← endpoint server
  let (n, effects) ← lift ((← get).network.submit e ts handle payload)
  modify fun w => { w with network := n }
  perform effects

/-- Issues a fresh identifier. -/
def freshId : StateM World String := do
  let (n, id) := (← get).network.fresh
  modify fun w => { w with network := n }
  return id

/-- Adds a prepared bridge as a peer joined under `name`. -/
def addPeer (b : Bridge) (name : String) : StateM World Nat := do
  let part ← join name
  let p := (← get).peers.size
  modify fun w => { w with peers := w.peers.push { session := b.session, device := b.device, participant := part } }
  return p

/-- A world whose peers are the bridges, in order, each joined under its name. -/
def ofBridges (bs : List (Bridge × String)) : World :=
  bs.foldl (fun w (b, name) => ((addPeer b name).run w).2) {}

/-- A delivery buffer of peer `p`'s session. -/
def newBuffer {κ ν : Type} (s : Session) (name : String) (policy : Policy) : Buffer κ ν :=
  { name, policy, synchronized := s.config.isSynchronized }

/-- Subscribes peer `p` to its input topics and attaches its CAN controllers and remote
functions. -/
def connect (p : Nat) : Sim Unit := do
  let x ← peer p
  let s := x.session
  if s.phase != .created then throw (.text ("initialize session in state " ++ s.phase.name))
  for t in s.layout.subscriptions do
    let j := (← session p).inbound.length
    let id ← within ("subscribe " ++ t.name) (attach x.participant .subscription t.name (.inbound p j))
    modifySession p fun s => { s with inbound := s.inbound ++
      [{ topic := t, buffer := newBuffer s ("data:" ++ t.name) .rejectFuture, subscription := id }] }
  for (ch, j) in s.cans.zipIdx do
    let id ← within ("open CAN controller " ++ ch.controller)
      (attach x.participant .controller ch.controller (.can p j))
    modifySession p fun s => { s with cans := s.cans.modify j fun c =>
      { c with endpoint := some id, inbox := some (newBuffer s ("can:" ++ c.controller) .deferFuture) } }
  for (ch, j) in s.clients.zipIdx do
    let id ← within ("open RPC client " ++ ch.function)
      (attach x.participant .client ch.function (.client p j))
    modifySession p fun s => { s with clients := s.clients.modify j fun c =>
      { c with endpoint := some id,
               inbox := some (newBuffer s ("rpc:" ++ c.function ++ ":results") .deferFuture) } }
  for (ch, j) in s.servers.zipIdx do
    let id ← within ("open RPC server " ++ ch.function)
      (attach x.participant .server ch.function (.server p j))
    modifySession p fun s => { s with servers := s.servers.modify j fun c =>
      { c with endpoint := some id,
               inbox := some (newBuffer s ("rpc:" ++ c.function ++ ":calls") .deferFuture) } }
  modifySession p fun s => { s with phase := .initialized }
  note ⟨.info, "[bridge] initialized at t=" ++ s.now.render ++ ": " ++
    toString s.layout.publications.length ++ " publication(s), " ++
    toString s.layout.subscriptions.length ++ " subscription(s), " ++ toString s.cans.length ++
    " CAN channel(s), " ++ toString s.clients.length ++ " RPC client(s), " ++
    toString s.servers.length ++ " RPC server(s)"⟩

/-- Drains a buffer of peer `p` in window `w`, recording the reports. -/
def drain {κ ν : Type} [BEq κ] (p : Nat) (b : Buffer κ ν) (w : Window) :
    StateM World (Except Fault (List (Item κ ν)) × Buffer κ ν) := do
  let (r, b', rs) := b.drain w
  observe p b.name rs
  return (r, b')

/-- Releases the due CAN operations of channel `j` into its receive variable. -/
def canReceive (p j : Nat) (w : Window) : Sim Unit := do
  let s ← session p
  let some ch := s.cans[j]? | return
  let some inbox := ch.inbox | return
  let (r, b) ← drain p inbox w
  modifySession p fun s => { s with cans := s.cans.modify j fun c => { c with inbox := some b } }
  let items ← lift r
  if items.isEmpty then
    if ch.rxClock.isSome || !ch.held then return
    modifySession p fun s => { s with cans := s.cans.modify j fun c => { c with held := false } }
    onDevice p (writeBinary s.layout ch.rx [])
    return
  let ops := items.map (·.value)
  let payload ← lift (Can.encode ops)
  note ⟨.debug, "[bridge] " ++ inbox.name ++ ": " ++ toString ops.length ++ " operation(s) into " ++
    ch.rx.name⟩
  onDevice p (writeBinary s.layout ch.rx payload)
  modifySession p fun s => { s with cans := s.cans.modify j fun c => { c with held := true } }
  if let some c := ch.rxClock then onDevice p (tick s.layout [c.name])

/-- Imports the due results of calls client `j` made. -/
def clientReceive (p j : Nat) (w : Window) : Sim Unit := do
  let s ← session p
  let some ch := s.clients[j]? | return
  let some inbox := ch.inbox | return
  let (r, b) ← drain p inbox w
  modifySession p fun s => { s with clients := s.clients.modify j fun c => { c with inbox := some b } }
  for it in ← lift r do
    let pending := ((← session p).clients[j]?.map (·.pending)).getD []
    if (pending.lookup it.key).isNone then
      note ⟨.warning, "[bridge] rpc " ++ ch.function ++ ": dropping result for unknown call " ++ it.key⟩
      continue
    modifySession p fun s => { s with clients := s.clients.modify j fun c =>
      { c with pending := c.pending.filter (·.1 != it.key) } }
    within ("rpc " ++ ch.function ++ " result") (onDevice p (importStructure s.layout ch.result it.value))
    onDevice p (tick s.layout ch.result.allClocks)

/-- Queues the due calls of server `j` and hands the oldest to the FMU when none is in
flight. -/
def serverReceive (p j : Nat) (w : Window) : Sim Unit := do
  let s ← session p
  let some ch := s.servers[j]? | return
  let some inbox := ch.inbox | return
  let (r, b) ← drain p inbox w
  modifySession p fun s => { s with servers := s.servers.modify j fun c => { c with inbox := some b } }
  let items ← lift r
  modifySession p fun s => { s with servers := s.servers.modify j fun c =>
    { c with queue := c.queue ++ items.map fun it => (it.key, it.value) } }
  let some ch := (← session p).servers[j]? | return
  if ch.inflight.isSome then return
  let next :: rest := ch.queue | return
  modifySession p fun s => { s with servers := s.servers.modify j fun c => { c with queue := rest } }
  within ("rpc " ++ ch.function ++ " args") (onDevice p (importStructure s.layout ch.args next.2))
  onDevice p (tick s.layout ch.args.allClocks)
  modifySession p fun s => { s with servers := s.servers.modify j fun c => { c with inflight := some next } }
  note ⟨.debug, "[bridge] rpc " ++ ch.function ++ ": serving call " ++ next.1 ++ ", " ++
    toString rest.length ++ " queued"⟩

/-- Writes everything due at `w.now` into the FMU of peer `p`. -/
def receive (p : Nat) (w : Window) : Sim Unit := do
  let s ← session p
  for (i, j) in s.inbound.zipIdx do
    let some cur := (← session p).inbound[j]? | continue
    let (r, b) ← drain p cur.buffer w
    modifySession p fun s => { s with inbound := s.inbound.modify j fun i => { i with buffer := b } }
    for it in ← lift r do
      within ("import " ++ i.topic.name ++ " at t=" ++ it.ts.render)
        (onDevice p (importTopic s.layout i.topic it.value))
  for j in List.range s.cans.length do canReceive p j w
  for j in List.range s.clients.length do clientReceive p j w
  for j in List.range s.servers.length do serverReceive p j w

/-- Sends the transmit operations of CAN channel `j` when its transmit clock ticked. -/
def canTransmit (p j : Nat) (ts : Float) : Sim Unit := do
  let s ← session p
  let some ch := s.cans[j]? | return
  if !(← onDevice p (clockActive ch.txClock)) then return
  let payload ← onDevice p (readBinary ch.tx)
  let ops ← lift ((Can.decode payload).mapError (Fault.context ("CAN controller " ++ ch.controller)))
  let mut sent := 0
  for op in ops do
    match op with
    | .transmit f =>
      sendFrame (ch.endpoint.getD 0) ts f
      sent := sent + 1
    | _ => pure ()
  published p ("can:" ++ ch.controller) sent

/-- Calls the function of client `j` when a clock of its argument structure ticked. -/
def clientCall (p j : Nat) (ts : Float) : Sim Unit := do
  let s ← session p
  let some ch := s.clients[j]? | return
  if !(← onDevice p (anyTicked s.layout ch.args.allClocks)) then return
  let payload ← within ("rpc " ++ ch.function ++ " args") (onDevice p (exportStructure s.layout ch.args))
  let id ← freshId
  modifySession p fun s => { s with clients := s.clients.modify j fun c =>
    { c with pending := c.pending ++ [(id, ts)] } }
  tryCatch (callFunction (ch.endpoint.getD 0) ts id payload) fun f => do
    modifySession p fun s => { s with clients := s.clients.modify j fun c =>
      { c with pending := c.pending.filter (·.1 != id) } }
    throw f
  note ⟨.debug, "[bridge] rpc " ++ ch.function ++ ": call " ++ id ++ " at " ++ ts.render⟩
  published p ("rpc:" ++ ch.function ++ ":calls") 1

/-- Answers the call in flight at server `j` once a clock of its result structure ticked. -/
def serverRespond (p j : Nat) (ts : Float) : Sim Unit := do
  let s ← session p
  let some ch := s.servers[j]? | return
  let some (handle, _) := ch.inflight | return
  if !(← onDevice p (anyTicked s.layout ch.result.allClocks)) then return
  let payload ← within ("rpc " ++ ch.function ++ " result")
    (onDevice p (exportStructure s.layout ch.result))
  modifySession p fun s => { s with servers := s.servers.modify j fun c => { c with inflight := none } }
  submitResult (ch.endpoint.getD 0) ts handle payload
  published p ("rpc:" ++ ch.function ++ ":results") 1

/-- Publishes the active output topics of peer `p` and the CAN and remote function traffic its
FMU produced, all stamped `ts`. -/
def send (p : Nat) (ts : Float) : Sim Unit := do
  let x ← peer p
  let l := x.session.layout
  for t in l.publications do
    if !(← onDevice p (active l t)) then continue
    let payload ← within ("export " ++ t.name ++ " at t=" ++ ts.render) (onDevice p (exportTopic l t))
    modifySession p fun s => { s with outbox := (s.outbox.put t.name payload).1 }
  let queued := (← session p).outbox.entries
  modifySession p fun s => { s with outbox := {} }
  for (topic, payload) in queued do
    within ("publish " ++ topic) (publish x.participant topic ts payload)
    published p ("data:" ++ topic) 1
  for j in List.range x.session.cans.length do canTransmit p j ts
  for j in List.range x.session.clients.length do clientCall p j ts
  for j in List.range x.session.servers.length do serverRespond p j ts

/-- One step of peer `p` by its step size. -/
def step (p : Nat) : Sim Unit := do
  let s ← session p
  match s.phase with
  | .terminated => throw (.condition .terminated)
  | .created => throw (.text ("step in state " ++ s.phase.name))
  | _ => pure ()
  if let some f := s.failure then throw f
  let w : Window := ⟨s.now, s.now + s.step⟩
  modifySession p fun s => { s with phase := .running, window := w }
  receive p w
  let reached ← onDevice p (Fmu.Device.doStep s.now s.step)
  modifySession p fun s => { s with now := reached, window := ⟨reached, reached + s.step⟩ }
  send p reached
  modifySession p fun s => { s with metrics := s.metrics.map (·.stepCompleted reached) }
  note ⟨.debug, "[bridge] step to t=" ++ reached.render ++ " took " ++ Duration.render 0⟩
  if let some f := (← session p).failure then throw f

/-- Steps peer `p` at most `fuel` times while the horizon is more than a millionth of a step
ahead. -/
def stepUntil (p : Nat) (horizon : Float) : Nat → Sim Unit
  | 0 => pure ()
  | fuel + 1 => do
    let s ← session p
    if horizon - s.now > s.step * 1e-6 then
      step p
      stepUntil p horizon fuel

/-- The number of steps from `now` to `horizon`, with room for rounding. -/
def stepsTo (now horizon step : Float) : Nat :=
  let n := (horizon - now) / step
  if n.isNaN || n ≤ 0 then 1 else (if n > 1e9 then 1e9 else n).toUInt64.toNat + 3

/-- Steps peer `p` until `horizon`; the last step ends at or just past it. -/
def run (p : Nat) (horizon : Float) : Sim Unit := do
  let s ← session p
  note ⟨.info, "[bridge] running from t=" ++ s.now.render ++ " to t=" ++ horizon.render ++ ", step " ++
    s.step.render⟩
  stepUntil p horizon (stepsTo s.now horizon s.step)
  note ⟨.info, "[bridge] reached t=" ++ (← session p).now.render⟩

/-- Ends peer `p`'s session: unsubscribes, drops everything buffered and terminates the FMU.
Terminating twice does nothing. -/
def terminate (p : Nat) : Sim Unit := do
  let s ← session p
  if s.phase == .terminated then return
  modifySession p fun s => { s with phase := .terminated }
  for i in s.inbound do unsubscribe i.subscription
  modifySession p fun s => { s with
    inbound := s.inbound.map fun i => { i with buffer := i.buffer.terminate },
    cans := s.cans.map fun c => { c with inbox := c.inbox.map (·.terminate) },
    clients := s.clients.map fun c => { c with inbox := c.inbox.map (·.terminate) },
    servers := s.servers.map fun c => { c with inbox := c.inbox.map (·.terminate) } }
  note ⟨.info, "[bridge] terminated at t=" ++ s.now.render⟩
  onDevice p Fmu.Device.terminate

/-- Connects every peer in order; the first failure, with its peer's number. -/
def connectAll (w : World) : Except (Nat × Fault) World :=
  (List.range w.peers.size).foldlM (fun w i => match ((connect i).run).run w with
    | (.ok _, w) => .ok w
    | (.error f, _) => .error (i, f)) w

end World

end CoSimBridge
