import CoSimBridge.Session.World
/-!
A bus monitor: a participant that records everything arriving at its endpoints.

It subscribes to topics, opens CAN controllers, serves and calls remote functions like any
participant, but every message it receives is only recorded. Calls it receives are numbered in
arrival order, from 0, and a result is submitted by that number. Its inbox is what it heard
since the inbox was last collected.
-/

namespace CoSimBridge

/-- A recording participant and its endpoints, each by topic, controller or function (the
latest endpoint of a name first). -/
structure Monitor where
  participant : Nat
  subscriptions : List (String × Nat) := []
  controllers : List (String × Nat) := []
  clients : List (String × Nat) := []
  servers : List (String × Nat) := []
  /-- How many recorded messages were already collected. -/
  collected : Nat := 0
deriving Inhabited

namespace Monitor

/-- Joins a monitor called `name`. -/
def join (name : String) : StateM World Monitor := do
  return { participant := ← World.join name }

/-- The endpoint of a name, opening one if there is none yet. -/
def endpointFor (m : Monitor) (role : Bus.Role) (name : String) (known : List (String × Nat)) :
    Sim Nat := do
  match known.lookup name with
  | some id => pure id
  | none => World.attach m.participant role name .recorder

/-- Subscribes to a topic. -/
def subscribe (m : Monitor) (topic : String) : Sim Monitor := do
  let id ← World.attach m.participant .subscription topic .recorder
  return { m with subscriptions := (topic, id) :: m.subscriptions }

/-- Ends the latest subscription to a topic. -/
def unsubscribe (m : Monitor) (topic : String) : StateM World Monitor := do
  match m.subscriptions.lookup topic with
  | some id =>
    World.unsubscribe id
    return { m with subscriptions := m.subscriptions.filter (·.2 != id) }
  | none => return m

/-- Opens a CAN controller. -/
def openController (m : Monitor) (name : String) : Sim Monitor := do
  let id ← World.attach m.participant .controller name .recorder
  return { m with controllers := (name, id) :: m.controllers }

/-- Sends a frame on a controller. -/
def sendFrame (m : Monitor) (name : String) (ts : Float) (f : Can.Frame) : Sim Unit := do
  World.sendFrame (← m.endpointFor .controller name m.controllers) ts f

/-- Serves a remote function. -/
def serve (m : Monitor) (function : String) : Sim Monitor := do
  let id ← World.attach m.participant .server function .recorder
  return { m with servers := (function, id) :: m.servers }

/-- Calls to a remote function. -/
def client (m : Monitor) (function : String) : Sim Monitor := do
  let id ← World.attach m.participant .client function .recorder
  return { m with clients := (function, id) :: m.clients }

/-- Calls a remote function under a correlation id. -/
def call (m : Monitor) (function : String) (ts : Float) (correlation : String) (args : Bytes) :
    Sim Unit := do
  World.callFunction (← m.endpointFor .client function m.clients) ts correlation args

/-- The handles of the calls received so far, in arrival order. -/
def handles (w : World) : List String :=
  w.heard.toList.filterMap fun h => match h.message with
    | .call _ handle _ => some handle
    | _ => none

/-- The handle a result for call number `index` is submitted under; an unknown number has a
handle no call has. -/
def handleOf (w : World) (index : Nat) : String := (handles w)[index]?.getD "unknown-handle"

/-- Submits the result of call number `index` of a function. -/
def answer (m : Monitor) (function : String) (index : Nat) (ts : Float) (payload : Bytes) :
    Sim Unit := do
  let server ← m.endpointFor .server function m.servers
  World.submitResult server ts (handleOf (← get) index) payload

/-- What was heard since the last collection, each with its position among everything heard;
marks it collected. -/
def collect (m : Monitor) : StateM World (Monitor × List (Nat × Heard)) := do
  let all := (← get).heard.toList.zipIdx
  return ({ m with collected := all.length }, (all.drop m.collected).map fun (h, i) => (i, h))

/-- The number of calls among the first `n` messages heard. -/
def callsBefore (w : World) (n : Nat) : Nat :=
  (w.heard.toList.take n).countP fun h => match h.message with
    | .call .. => true
    | _ => false

end Monitor

end CoSimBridge
