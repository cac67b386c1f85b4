import CoSimBridge.Can.Record
import CoSimBridge.Log
import CoSimBridge.Text.Quote
import CoSimBridge.Number.Text
/-!
The in-memory bus.

Participants joined to one network exchange topic samples, CAN frames and remote function calls
at once, in the sender's own call. A participant never receives what it sent itself, and a
closed participant neither sends nor receives.

Everything a participant attaches is an endpoint: a subscription to a topic, a CAN controller,
or a client or server of a remote function. Sending hands messages to endpoints:

* a sample goes to every subscription of its topic;
* a frame goes to every controller of the same name, and its acknowledgement to the sending
  controller;
* a call goes to every server of the function, each under a fresh call handle; submitting the
  result for a handle sends it to the calling client under the caller's correlation id, once.

The network is plain data. Its operations answer the deliveries and log lines they cause, in
order; whoever owns the endpoints carries the deliveries out.
-/

namespace CoSimBridge.Bus

/-- What an endpoint is for. -/
inductive Role where
  | subscription
  | controller
  | client
  | server
deriving Repr, DecidableEq, Inhabited

/-- An endpoint of a participant; `name` is its topic, controller or function. -/
structure Endpoint where
  id : Nat
  owner : Nat
  role : Role
  name : String
deriving Repr, Inhabited

/-- A message handed to an endpoint, stamped with the sender's time. -/
inductive Message where
  | data (ts : Float) (payload : Bytes)
  | frame (ts : Float) (f : Can.Frame)
  | ack (ts : Float) (id : UInt32)
  | call (ts : Float) (handle : String) (args : Bytes)
  | result (ts : Float) (correlation : String) (payload : Bytes)
deriving Inhabited

/-- What sending causes: a delivery to an endpoint, or a log line. -/
inductive Effect where
  | deliver (endpoint : Nat) (m : Message)
  | note (line : LogLine)
deriving Inhabited

/-- A participant: its name and whether it left. -/
structure Participant where
  name : String
  closed : Bool := false
deriving Inhabited

/-- The network. -/
structure Network where
  participants : Array Participant := #[]
  /-- Endpoints in the order they were attached. -/
  endpoints : List Endpoint := []
  nextEndpoint : Nat := 0
  /-- Calls awaiting their result: handle, calling client endpoint and correlation id. -/
  pending : List (String × Nat × String) := []
  /-- The number of identifiers issued. -/
  issued : Nat := 0
deriving Inhabited

/-- The failure of an operation on a closed participant. -/
def closedFault : Fault := .condition .closed

/-- An identifier in the 8-4-4-4-12 hexadecimal form of a UUID, unique for `k`. -/
def identifier (k : Nat) : String :=
  "00000000-0000-4000-8000-" ++ Text.hexFixed k 12

namespace Network

/-- Issues a fresh identifier. -/
def fresh (n : Network) : Network × String := ({ n with issued := n.issued + 1 }, identifier n.issued)

/-- Adds a participant; an empty name is replaced by a fresh identifier. -/
def join (n : Network) (name : String) : Network × Nat :=
  let (n, name) := if name == "" then n.fresh else (n, name)
  ({ n with participants := n.participants.push { name } }, n.participants.size)

/-- Whether a participant has left (an unknown one counts as gone). -/
def isClosed (n : Network) (p : Nat) : Bool := (n.participants[p]?.map (·.closed)).getD true

/-- A participant's name. -/
def nameOf (n : Network) (p : Nat) : String := (n.participants[p]?.map (·.name)).getD ""

/-- Makes a participant leave; later operations of it fail and nothing reaches it. -/
def close (n : Network) (p : Nat) : Network :=
  { n with participants := n.participants.modify p fun x => { x with closed := true } }

/-- The endpoint with an id. -/
def endpoint? (n : Network) (id : Nat) : Option Endpoint := n.endpoints.find? (·.id == id)

/-- Attaches an endpoint for a participant. -/
def attach (n : Network) (p : Nat) (role : Role) (name : String) : Except Fault (Network × Nat) :=
  if n.isClosed p then .error closedFault
  else .ok ({ n with endpoints := n.endpoints ++ [⟨n.nextEndpoint, p, role, name⟩],
                     nextEndpoint := n.nextEndpoint + 1 }, n.nextEndpoint)

/-- Removes an endpoint (ending a subscription). -/
def detach (n : Network) (id : Nat) : Network :=
  { n with endpoints := n.endpoints.filter (·.id != id) }

/-- The endpoints of a role and name whose owners are open and not `p`. -/
def others (n : Network) (p : Nat) (role : Role) (name : String) : List Endpoint :=
  n.endpoints.filter fun e => e.role == role && e.name == name && e.owner != p && !n.isClosed e.owner

/-- Publishes a sample of `topic` from participant `p`. -/
def publish (n : Network) (p : Nat) (topic : String) (ts : Float) (payload : Bytes) :
    Except Fault (List Effect) :=
  if n.isClosed p then .error closedFault
  else .ok ((n.others p .subscription topic).map (fun e => .deliver e.id (.data ts payload)) ++
    [.note ⟨.debug, "[membus] " ++ n.nameOf p ++ " published " ++ topic ++ " at " ++ ts.render ++
      " (" ++ toString payload.length ++ " bytes)"⟩])

/-- Sends a frame from a controller: to the other participants' controllers of its name, then
the acknowledgement back to it. -/
def send (n : Network) (ctrl : Endpoint) (ts : Float) (f : Can.Frame) : Except Fault (List Effect) :=
  if n.isClosed ctrl.owner then .error closedFault
  else .ok ((n.others ctrl.owner .controller ctrl.name).map (fun e => .deliver e.id (.frame ts f)) ++
    [.deliver ctrl.id (.ack ts f.id)])

/-- Calls a function from a client: every server gets the call under a fresh handle. -/
def call (n : Network) (client : Endpoint) (ts : Float) (correlation : String) (args : Bytes) :
    Except Fault (Network × List Effect) :=
  if n.isClosed client.owner then .error closedFault
  else
    let targets := n.others client.owner .server client.name
    let (n, handles) := targets.foldl (fun (n, hs) _ =>
      let (n, h) := n.fresh
      (n, hs ++ [h])) (n, [])
    let n := { n with pending := n.pending ++ handles.map fun h => (h, client.id, correlation) }
    let warning := if targets.isEmpty then
        [Effect.note ⟨.warning, "[membus] " ++ n.nameOf client.owner ++ ": call " ++ correlation ++
          " to " ++ client.name ++ " has no server"⟩]
      else []
    .ok (n, warning ++ (targets.zip handles).map fun (e, h) => .deliver e.id (.call ts h args))

/-- Submits the result of the call with a handle from a server; the handle is used up. -/
def submit (n : Network) (server : Endpoint) (ts : Float) (handle : String) (payload : Bytes) :
    Except Fault (Network × List Effect) :=
  if n.isClosed server.owner then .error closedFault
  else
    match n.pending.find? (·.1 == handle) with
    | none => .error (.text ("rpc " ++ server.name ++ ": unknown call handle " ++ Text.quote handle))
    | some (_, client, correlation) =>
      let n := { n with pending := n.pending.filter (·.1 != handle) }
      match n.endpoint? client with
      | some c => if n.isClosed c.owner then .ok (n, []) else .ok (n, [.deliver client (.result ts correlation payload)])
      | none => .ok (n, [])

end Network

end CoSimBridge.Bus
