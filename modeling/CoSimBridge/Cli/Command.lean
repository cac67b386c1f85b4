import CoSimBridge.Cli.Flags
import CoSimBridge.Text.Case
/-!
The commands of the `fmubridge` program and their help.

The program has `run` and `validate`, `help` (help about a command) and `completion` (shell
completion scripts, whose own subcommands are only listed). The program itself and `completion`
do nothing but show their help.

Help is the command's description, a blank line and its usage: how to call it, its
subcommands, its flags in a table sorted by name, and a pointer to the subcommands' help. The
flag table aligns the help texts three columns after the longest flag head.

Finding the command walks down from the program by the first command word (see the flags
module); an unknown first word is an error that suggests the commands within two edits of it
or starting with it.
-/

namespace CoSimBridge.Cli

/-- A command of the program. -/
inductive Command where
  | program
  | run
  | validate
  | help
  | completion
deriving DecidableEq, Inhabited

namespace Command

/-- The name a command is called by. -/
def name : Command → String
  | .program => "fmubridge"
  | .run => "run"
  | .validate => "validate"
  | .help => "help"
  | .completion => "completion"

/-- How a command is written from the program on. -/
def path (c : Command) : String := if c == .program then c.name else "fmubridge " ++ c.name

/-- A command's one-line description. -/
def short : Command → String
  | .program => "Exchange FMU inputs and outputs with a simulation bus"
  | .run => "Run a bridge session"
  | .validate => "Check a bridge configuration and print its topics"
  | .help => "Help about any command"
  | .completion => "Generate the autocompletion script for the specified shell"

/-- A command's full description, where it has one beyond the short one. -/
def long : Command → Option String
  | .help => some ("Help provides help for any command in the application.\n" ++
      "Simply type fmubridge help [path to command] for full details.")
  | .completion => some ("Generate the autocompletion script for fmubridge for the specified shell.\n" ++
      "See each sub-command's help for details on how to use the generated script.")
  | _ => none

/-- The flags shared by `run` and `validate`. -/
def sessionFlags : List Flag :=
  [ { name := "config", kind := .text, usage := "Path to the bridge YAML configuration" },
    { name := "model", kind := .text,
      usage := "Path to modelDescription.xml (overrides the configuration)" },
    { name := "log", kind := .text, default := "info",
      usage := "Log level (trace, debug, info, warn, error, fatal, panic)" } ]

/-- A command's flags. -/
def flags (c : Command) : List Flag :=
  Flag.help c.name :: match c with
  | .run => sessionFlags ++
      [ { name := "bus", kind := .text,
          usage := "Bus adapter: memory or nats (overrides the configuration)" },
        { name := "nats-url", kind := .text, usage := "NATS server URL (overrides the configuration)" },
        { name := "horizon", kind := .number,
          usage := "Simulation end time in seconds (default: configured stop time)" },
        { name := "metrics-addr", kind := .text,
          usage := "Serve Prometheus metrics on this address, e.g. :9090" },
        { name := "realtime", kind := .switch, usage := "Pace steps to wall-clock time" } ]
  | .validate => sessionFlags
  | _ => []

/-- The commands below a command, by name. -/
def children : Command → List Command
  | .program => [.completion, .help, .run, .validate]
  | _ => []

/-- The subcommands a command lists in its help, with their descriptions. -/
def listing : Command → List (String × String)
  | .program => children .program |>.map fun c => (c.name, c.short)
  | .completion => ["bash", "fish", "powershell", "zsh"].map fun s =>
      (s, "Generate the autocompletion script for " ++ s)
  | _ => []

/-- Whether a command does something beyond showing its help. -/
def runnable : Command → Bool
  | .run | .validate | .help => true
  | _ => false

/-- How a command is called, as its usage shows it. -/
def useLine : Command → String
  | .help => "fmubridge help [command] [flags]"
  | c => c.path ++ " [flags]"

end Command

/-- `n` spaces. -/
def spaces (n : Nat) : String := String.ofList (List.replicate n ' ')

/-- The head of a flag's line in the table: letter, name and the kind of value. -/
def Flag.head (f : Flag) : String :=
  let letter := match f.shorthand with
    | some c => "  -" ++ c.toString ++ ", --"
    | none => "      --"
  let kind := match f.kind with
    | .text => " string"
    | .number => " float"
    | .switch => ""
  letter ++ f.name ++ kind

/-- The help text of a flag's line, with its default when that is not the zero value. -/
def Flag.tail (f : Flag) : String :=
  if f.default == "" then f.usage
  else if f.kind == .text then f.usage ++ " (default " ++ Text.quote f.default ++ ")"
  else f.usage ++ " (default " ++ f.default ++ ")"

/-- The flag table: one line per flag, sorted by name, help texts aligned three columns after
the longest head. -/
def flagTable (flags : List Flag) : String :=
  let sorted := flags.mergeSort fun a b => a.name ≤ b.name
  let width := sorted.foldl (fun w f => max w f.head.length) 0
  "\n".intercalate (sorted.map fun f => f.head ++ spaces (width - f.head.length + 3) ++ f.tail)

/-- A command's usage: calls, subcommands, flags and the pointer to more help. -/
def Command.usage (c : Command) : String :=
  let subs := c.listing
  let pad := subs.foldl (fun w (n, _) => max w n.length) 11
  "Usage:" ++
    (if c.runnable then "\n  " ++ c.useLine else "") ++
    (if subs.isEmpty then "" else "\n  " ++ c.path ++ " [command]") ++
    (if subs.isEmpty then "" else "\n\nAvailable Commands:" ++
      String.join (subs.map fun (n, s) => "\n  " ++ n ++ spaces (pad - n.length) ++ " " ++ s)) ++
    "\n\nFlags:\n" ++ flagTable c.flags ++
    (if subs.isEmpty then "" else
      "\n\nUse \"" ++ c.path ++ " [command] --help\" for more information about a command.") ++
    "\n"

/-- A command's help: its description, then its usage. -/
def Command.helpText (c : Command) : String :=
  (c.long.getD c.short) ++ "\n\n" ++ c.usage

/-- The edit distance of two texts in lower case, counted in bytes of their UTF-8 forms. -/
def editDistance (a b : String) : Nat :=
  let xs := Utf8.encode (Text.lower a)
  let ys := Utf8.encode (Text.lower b)
  let first := List.range (ys.length + 1)
  let last := xs.foldl (fun (row : List Nat) x =>
    let start := row.headD 0 + 1
    let (_, built) := (ys.zip (row.zip row.tail)).foldl (fun (left, acc) (y, diag, up) =>
      let v := min (min (up + 1) (left + 1)) (diag + if x == y then 0 else 1)
      (v, acc ++ [v])) (start, [start])
    built) first
  last.getLastD 0

/-- The message for an unknown command word under the program, with suggestions. -/
def unknownCommand (word : String) : String :=
  let offered := (Command.program.children.filter fun c => c != .help).filter fun c =>
    editDistance word c.name ≤ 2 || (Text.lower c.name).startsWith (Text.lower word)
  "unknown command " ++ Text.quote word ++ " for \"fmubridge\"" ++
    (if offered.isEmpty then "" else
      "\n\nDid you mean this?\n" ++ String.join (offered.map fun c => "\t" ++ c.name ++ "\n"))

/-- The command a word list calls and the words left for it; an unknown command word under the
program is an error. -/
def Command.find (words : List String) : Except String (Command × List String) :=
  match commandWords Command.program.flags words with
  | [] => .ok (.program, words)
  | first :: _ =>
    match Command.program.children.find? (·.name == first) with
    | some c => .ok (c, dropCommandWord Command.program.flags first words)
    | none => .error (unknownCommand first)

end CoSimBridge.Cli
