import CoSimBridge.Duration
import CoSimBridge.Bus.Url
import CoSimBridge.Number.Read
import CoSimBridge.Text.Space
/-!
Connection settings of the NATS bus adapter.

The adapter connects to one server URL under a participant name, reconnecting a bounded number
of times with a pause between attempts, and gives up on a request after a timeout. Subjects
are placed below an optional prefix.

Every message carries its sender's simulation time in the header `Fmubridge-Time` (header names
are matched exactly), written as the shortest text that reads back as the same double.

The URL setting may list several servers separated by commas. Each is trimmed, loses one
trailing slash, gets the scheme `nats://` if it names none and the port 4222 (80 for `ws`, 443
for `wss`) if it gives none. No server can be reached from here, so connecting always fails:
with no server listed, with the first server whose URL does not parse, or when dialing the
first server.
-/

namespace CoSimBridge

/-- How to reach a NATS server. -/
structure NatsConnection where
  url : String
  subjectPrefix : String := ""
  name : String
  maxReconnects : Int
  reconnectWait : Duration
  timeout : Duration
deriving Inhabited

/-- Settings for a local server: `nats://127.0.0.1:4222`, name `fmubridge`, ten reconnects
two seconds apart, a five second timeout. -/
def NatsConnection.default : NatsConnection :=
  { url := "nats://127.0.0.1:4222", name := "fmubridge", maxReconnects := 10,
    reconnectWait := 2000000000, timeout := 5000000000 }

/-- The header that carries a message's simulation time. -/
def timeHeader : String := "Fmubridge-Time"

namespace Nats

/-- The subject of a sequence of tokens: joined by dots, below the prefix if there is one. -/
def subject (subjectPrefix : String) (tokens : List String) : String :=
  ".".intercalate (if subjectPrefix == "" then tokens else subjectPrefix :: tokens)

/-- The simulation time a message carries, read from its headers; an absent or empty time
header is a failure naming the subject. -/
def timestamp (subject : String) (headers : List (String × String)) : Except String Float :=
  match (headers.lookup timeHeader).getD "" with
  | "" => .error ("message on " ++ subject ++ " has no " ++ timeHeader ++ " header")
  | v => (Float.readText v).mapError (·.message)

/-- The servers a URL setting lists. -/
def servers (url : String) : List String :=
  (url.splitOn ",").filterMap fun s =>
    let t := Text.trim s
    let t := if t.endsWith "/" then (t.dropEnd 1).toString else t
    if t.isEmpty then none else some t

/-- The port a server URL gets when it gives none. -/
def defaultPort (scheme : String) : String :=
  if scheme == "ws" then "80" else if scheme == "wss" then "443" else "4222"

/-- The host and port to dial for a server URL, or why its URL does not parse. -/
def address (server : String) : Except String String := do
  let u := if (server.splitOn "://").length > 1 then server else "nats://" ++ server
  let p ← Url.check u
  if p.hasPort then return p.host
  let u := (if u.endsWith ":" then u else u ++ ":") ++ defaultPort p.scheme
  let p ← Url.check u
  return p.host

/-- The server connected to when a setting lists none. -/
def defaultServer : String := "nats://127.0.0.1:4222"

/-- Why connecting with a setting fails: the first server URL that does not parse, or else
dialing the first server (the default one when none is listed). -/
def connectFailure (c : NatsConnection) : String :=
  let listed := match servers c.url with
    | [] => [defaultServer]
    | ss => ss
  let reason := match listed.mapM address with
    | .error m => m
    | .ok hosts => "dial tcp " ++ hosts.headD "" ++ ": connect: network is unreachable"
  "connect to NATS at " ++ c.url ++ ": " ++ reason

end Nats

end CoSimBridge
