import CoSimBridge.Text.Quote
import CoSimBridge.Number.Read
/-!
Command-line flags.

A flag is written `--name=value`, `--name value`, or, for a switch, `--name` alone (which sets
it); a flag with a one-letter shorthand may also be written `-x`, and shorthand switches may be
run together (`-hh`). The value after a flag is taken as it is, even when it starts with `-`.
A lone `--` ends the flags: everything after it is an argument. Anything else is an argument.

Finding the command comes before the flags are read, and only the enclosing command's flags are
known then. At that point every `--name` without `=` that is not a known switch, and every
two-letter `-x` that is not a known shorthand switch, is taken to have its value in the next
word.
-/

namespace CoSimBridge.Cli

/-- What a flag takes: a text, a number, or nothing (a switch; `--name=false` still sets it). -/
inductive FlagKind where
  | text
  | number
  | switch
deriving DecidableEq, Inhabited

/-- A flag: name, kind, the line of help about it, an optional shorthand letter and the default
shown in help (empty when the default is the zero value). -/
structure Flag where
  name : String
  kind : FlagKind
  usage : String
  shorthand : Option Char := none
  default : String := ""
deriving Inhabited

/-- The help switch every command has. -/
def Flag.help (command : String) : Flag :=
  { name := "help", kind := .switch, usage := "help for " ++ command, shorthand := some 'h' }

/-- How a flag is named in a message about its value: `-x, --name` or `--name`. -/
def Flag.spelled (f : Flag) : String :=
  match f.shorthand with
  | some c => "-" ++ c.toString ++ ", --" ++ f.name
  | none => "--" ++ f.name

/-- The values of the flags of `run` and `validate`. -/
structure Settings where
  config : String := ""
  model : String := ""
  bus : String := ""
  natsUrl : String := ""
  /-- The end time; zero takes the configured stop time. -/
  horizon : Float := 0
  metricsAddr : String := ""
  realtime : Bool := false
  log : String := "info"
  help : Bool := false
deriving Inhabited

/-- Reads a switch value: `1 t T TRUE true True` or `0 f F FALSE false False`. -/
def readSwitch (v : String) : Except String Bool :=
  if ["1", "t", "T", "TRUE", "true", "True"].contains v then .ok true
  else if ["0", "f", "F", "FALSE", "false", "False"].contains v then .ok false
  else .error ("strconv.ParseBool: parsing " ++ Text.quote v ++ ": invalid syntax")

/-- Sets a flag from the text of its value. -/
def Settings.set (s : Settings) (f : Flag) (v : String) : Except String Settings :=
  let bad (why : String) : Except String Settings :=
    .error ("invalid argument " ++ Text.quote v ++ " for " ++ Text.quote f.spelled ++ " flag: " ++ why)
  let switch (k : Bool → Settings) : Except String Settings :=
    match readSwitch v with
    | .ok b => .ok (k b)
    | .error m => bad m
  match f.name with
  | "config" => .ok { s with config := v }
  | "model" => .ok { s with model := v }
  | "bus" => .ok { s with bus := v }
  | "nats-url" => .ok { s with natsUrl := v }
  | "metrics-addr" => .ok { s with metricsAddr := v }
  | "log" => .ok { s with log := v }
  | "horizon" =>
    match Float.readText v with
    | .ok x => .ok { s with horizon := x }
    | .error e => bad e.message
  | "realtime" => switch fun b => { s with realtime := b }
  | "help" => switch fun b => { s with help := b }
  | _ => .ok s

/-- Where scanning stands: the settings so far, the arguments so far (latest first), a flag
waiting for its value (with the message if none comes), and whether `--` was seen. -/
structure Scan where
  settings : Settings := {}
  arguments : List String := []
  pending : Option (Flag × String) := none
  ended : Bool := false

/-- The flag of a name. -/
def named (flags : List Flag) (name : String) : Option Flag := flags.find? (·.name == name)

/-- The flag of a shorthand letter. -/
def lettered (flags : List Flag) (c : Char) : Option Flag := flags.find? (·.shorthand == some c)

/-- Reads a run of shorthand letters (`word` is the whole word, for messages). -/
def scanLetters (flags : List Flag) (word : String) (st : Scan) : List Char → Except String Scan
  | [] => .ok st
  | c :: rest =>
    match lettered flags c with
    | none => .error ("unknown shorthand flag: '" ++ c.toString ++ "' in " ++ word)
    | some f =>
      match rest with
      | '=' :: value@(_ :: _) => do
        return { st with settings := ← st.settings.set f (String.ofList value) }
      | _ =>
        if f.kind == .switch then do
          scanLetters flags word { st with settings := ← st.settings.set f "true" } rest
        else if !rest.isEmpty then do
          return { st with settings := ← st.settings.set f (String.ofList rest) }
        else
          .ok { st with pending := some (f, "flag needs an argument: '" ++ c.toString ++ "' in " ++ word) }

/-- Reads one word. -/
def scanWord (flags : List Flag) (st : Scan) (word : String) : Except String Scan :=
  match st.pending with
  | some (f, _) => do return { st with settings := ← st.settings.set f word, pending := none }
  | none =>
    if st.ended then .ok { st with arguments := word :: st.arguments }
    else if word == "--" then .ok { st with ended := true }
    else if word.startsWith "--" then
      let body := (word.drop 2).toString
      if body.startsWith "-" || body.startsWith "=" then .error ("bad flag syntax: " ++ word)
      else
        let name := (body.splitOn "=").headD ""
        match named flags name with
        | none => .error ("unknown flag: --" ++ name)
        | some f =>
          if (body.splitOn "=").length > 1 then do
            return { st with settings := ← st.settings.set f (body.drop (name.length + 1)).toString }
          else if f.kind == .switch then do
            return { st with settings := ← st.settings.set f "true" }
          else .ok { st with pending := some (f, "flag needs an argument: " ++ word) }
    else if word.startsWith "-" && word.length > 1 then
      scanLetters flags word st (word.drop 1).toString.toList
    else .ok { st with arguments := word :: st.arguments }

/-- Reads the flags of a word list: the settings and the arguments that are not flags. -/
def scanFlags (flags : List Flag) (words : List String) : Except String (Settings × List String) := do
  let st ← words.foldlM (scanWord flags) {}
  match st.pending with
  | some (_, message) => throw message
  | none => return (st.settings, st.arguments.reverse)

/-- Whether a word, as seen while finding the command, takes the next word as its value. -/
def takesValue (flags : List Flag) (word : String) : Bool :=
  let switchNamed (n : String) := (named flags n).any (·.kind == .switch)
  let chars := word.toList
  if chars.contains '=' then false
  else if word.startsWith "--" then !switchNamed (word.drop 2).toString
  else match chars with
    | ['-', c] => !(lettered flags c).any (·.kind == .switch)
    | _ => false

/-- The words that name commands: not flags, not flag values, none after `--`. A flag that takes
a value with at most one word after it ends the search. -/
def commandWords (flags : List Flag) (words : List String) : List String :=
  let count := words.length
  -- the state: whether the next word is a flag's value, whether the search ended, the names
  let step (st : Bool × Bool × List String) (at_ : String × Nat) : Bool × Bool × List String :=
    let (skip, ended, names) := st
    let (word, i) := at_
    if ended then st
    else if skip then (false, false, names)
    else if word == "--" then (false, true, names)
    else if takesValue flags word then
      if count - (i + 1) ≤ 1 then (false, true, names) else (true, false, names)
    else if word != "" && !word.startsWith "-" then (false, false, word :: names)
    else st
  let (_, _, names) := words.zipIdx.foldl step (false, false, [])
  names.reverse

/-- The words without the first occurrence of `name` as a command word. -/
def dropCommandWord (flags : List Flag) (name : String) : List String → List String
  | [] => []
  | word :: rest =>
    if word == "--" then word :: rest
    else if takesValue flags word then
      match rest with
      | value :: more => word :: value :: dropCommandWord flags name more
      | [] => [word]
    else if !word.startsWith "-" && word == name then rest
    else word :: dropCommandWord flags name rest

end CoSimBridge.Cli
