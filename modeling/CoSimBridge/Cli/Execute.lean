import CoSimBridge.Cli.Command
import CoSimBridge.Cli.Files
import CoSimBridge.Session.World
import CoSimBridge.Bus.Nats
import CoSimBridge.Config.Read
import CoSimBridge.Fmu.Model.Xml
/-!
Running the program on a list of arguments.

The program finds its command and reads the command's flags; a command that only shows help,
or any command given `--help`, prints its help. `help` prints the help of the command its
arguments name.

`validate` and `run` first set the log threshold from `--log` and load their inputs: the
configuration (whose relative model path is taken from the configuration's directory), the model
path from `--model` if given, and the model description. For `run`, `--bus`, `--nats-url` and
`--realtime` override the configuration. Then the defaults are filled in and the configuration
is checked.

`validate` then prepares the bridge and prints its report. `run` takes the horizon from
`--horizon`, or from the configured stop time when that is zero, and refuses a horizon that is
not after the start time; it builds the in-memory FMU, opens the bus (a NATS bus cannot be
reached from here), configures the session with metrics, connects it (terminating it again
when that fails), steps it to the horizon and terminates it.

A failure is a fatal log line that ends the program with exit status 1. Only log lines at or
above the threshold are kept. Reading files is left to the caller, so the same program runs on
a real file system or on files held in memory.
-/

namespace CoSimBridge.Cli

/-- What a run of the program printed, the log lines it kept and its exit status. -/
structure Outcome where
  exit : Nat := 0
  stdout : String := ""
  stderr : String := ""
  log : Journal := #[]
deriving Inhabited

section Loading

variable {m : Type → Type} [Monad m]

/-- Reads the configuration at `path`; a relative model path in it is taken from the
configuration's directory. -/
def readConfig (read : String → m (Except FileFailure String)) (path : String) :
    ExceptT Fault m Config := do
  match ← read path with
  | .error e => throw (Fault.context "reading bridge config" (.text e.message))
  | .ok text =>
    let c ← ExceptT.mk (pure (Config.parse text))
    if c.model != "" && !Path.isAbsolute c.model then
      return { c with model := Path.join (Path.dir path) c.model }
    return c

/-- Reads the model description at `path`. -/
def readModel (read : String → m (Except FileFailure String)) (path : String) :
    ExceptT Fault m Fmu.ModelDescription := do
  match ← read path with
  | .error (.opening msg) => throw (Fault.context "open model description" (.text msg))
  | .error (.reading msg) =>
    throw (Fault.context path (Fault.context "parse model description" (.text msg)))
  | .ok text => ExceptT.mk (pure ((Fmu.ModelDescription.ofXml text).mapError (Fault.context path)))

/-- Loads the configuration and the model description the settings name, applies the
overrides and the defaults and checks the result. -/
def load (read : String → m (Except FileFailure String)) (s : Settings) :
    ExceptT Fault m (Config × Fmu.ModelDescription) := do
  let c ← if s.config != "" then readConfig read s.config else pure {}
  let c := if s.model != "" then { c with model := s.model } else c
  if c.model == "" then
    throw (.text "no model description: set model in the configuration or pass --model")
  let md ← readModel read c.model
  let c := if s.bus != "" then { c with bus := { c.bus with kind := s.bus } } else c
  let c := if s.natsUrl != "" then
      { c with bus := { c.bus with nats := { c.bus.nats with url := s.natsUrl } } }
    else c
  let c := if s.realtime then { c with simulation := { c.simulation with realtime := true } } else c
  let c := c.withDefaults (some md)
  ExceptT.mk (pure (c.validate.map fun _ => (c, md)))

end Loading

/-- The end of a run: `--horizon`, or the configured stop time when that is zero. -/
def horizonOf (c : Config) (s : Settings) : Float :=
  if s.horizon == 0 then c.simulation.stop else s.horizon

/-- A bridge session on the configured bus, from the start time to `horizon`: the log lines
written and whether it failed. -/
def runBridge (c : Config) (md : Fmu.ModelDescription) (horizon : Float) :
    Journal × Except Fault Unit :=
  let sim := c.simulation
  if horizon ≤ sim.start then
    (#[], .error (.text ("horizon " ++ horizon.render ++ " is not after start time " ++
      sim.start.render ++ ": pass --horizon or set simulation.stop")))
  else
    let prepared : Except Fault Fmu.Loopback := do
      Fmu.Loopback.new md (← c.loopbackLinks md) c.loopback.async
    match prepared with
    | .error f => (#[], .error f)
    | .ok fmu =>
      if c.bus.kind == "nats" then
        let n := c.natsConnection
        (#[⟨.info, "Connecting to NATS at " ++ n.url ++ " (prefix " ++ Text.quote n.subjectPrefix ++ ")"⟩],
          .error (.text (Nats.connectFailure n)))
      else
        match Session.new c md true with
        | .error f => (#[], .error f)
        | .ok session =>
          let session : Sim Unit := do
            let p ← World.addPeer { device := { fmu }, session } c.bus.name
            World.note ⟨.info, "Starting bridge for " ++ md.modelName ++ " on the " ++ c.bus.kind ++
              " bus, step=" ++ sim.stepSize.render ++ ", t=" ++ sim.start.render ++ ".." ++
              horizon.render⟩
            try World.connect p
            catch f => do
              try World.terminate p catch _ => pure ()
              throw f
            let ran ← tryCatch (do World.run p horizon; pure none) fun f => pure (some f)
            let ended ← tryCatch (do World.terminate p; pure none) fun f => pure (some f)
            match ran.orElse fun _ => ended with
            | some f => throw f
            | none => pure ()
          let (r, w) := (session.run).run {}
          (w.log, r)

/-- The help of the command that `help`'s arguments name. -/
def helpTopic (words : List String) : Outcome :=
  match Command.find words with
  | .ok (c, _) => { stdout := c.helpText }
  | .error _ =>
    { stderr := "Unknown help topic [" ++ " ".intercalate (words.map fun w => "\x60" ++ w ++ "\x60") ++
        "]\n" ++ Command.program.usage }

/-- Ends with a fatal log line after the lines so far. -/
def fatal (journal : Journal) (message : String) : Outcome :=
  { exit := 1, log := journal.push ⟨.fatal, message⟩ }

/-- Keeps the log lines that pass a threshold. -/
def Outcome.within (o : Outcome) (threshold : Severity) : Outcome :=
  { o with log := o.log.filter fun l => threshold.passes l.severity }

/-- Runs `validate` or `run` with its settings. -/
def session {m : Type → Type} [Monad m] (read : String → m (Except FileFailure String))
    (c : Command) (s : Settings) : m Outcome := do
  match Severity.ofName? s.log with
  | none => return fatal #[] ("Invalid log level: " ++ s.log)
  | some threshold =>
    let loaded ← (load read s).run
    let outcome : Outcome := match c, loaded with
      | .validate, .ok (cfg, md) =>
        match Bridge.prepare cfg md false with
        | .ok b => { stdout := b.report }
        | .error f => fatal #[] ("Invalid configuration: " ++ f.message)
      | .validate, .error f => fatal #[] ("Invalid configuration: " ++ f.message)
      | _, .error f => fatal #[] ("Bridge failed: " ++ f.message)
      | _, .ok (cfg, md) =>
        match runBridge cfg md (horizonOf cfg s) with
        | (journal, .ok ()) => { log := journal.push ⟨.info, "Bridge session complete."⟩ }
        | (journal, .error f) => fatal journal ("Bridge failed: " ++ f.message)
    return outcome.within threshold

/-- Runs the program on its arguments, reading files with `read`. -/
def execute {m : Type → Type} [Monad m] (read : String → m (Except FileFailure String))
    (args : List String) : m Outcome :=
  match Command.find args with
  | .error msg =>
    pure { exit := 1, stderr := "Error: " ++ msg ++ "\nRun 'fmubridge --help' for usage.\n" }
  | .ok (c, rest) =>
    match scanFlags c.flags rest with
    | .error msg => pure { exit := 1, stderr := "Error: " ++ msg ++ "\n" ++ c.usage ++ "\n" }
    | .ok (s, words) =>
      if s.help || !c.runnable then pure { stdout := c.helpText }
      else if c == .help then pure (helpTopic words)
      else session read c s

end CoSimBridge.Cli
