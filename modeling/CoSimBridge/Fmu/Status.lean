import CoSimBridge.Text.Quote
import CoSimBridge.Fault
/-!
Status codes of FMU calls and causalities of FMU variables.

A call succeeds when it answers `ok` or `pending`; `warning` and `discard` are tolerable. Codes
outside the standard ones are kept as they are and named by number.
-/

namespace CoSimBridge.Fmu

/-- The status an FMU call answers. -/
inductive Status where
  | ok
  | warning
  | discard
  | error
  | fatal
  | pending
  | other (code : Int)
deriving Repr, DecidableEq, Inhabited

namespace Status

/-- The status of a numeric code. -/
def ofCode : Int → Status
  | 0 => .ok
  | 1 => .warning
  | 2 => .discard
  | 3 => .error
  | 4 => .fatal
  | 5 => .pending
  | c => .other c

/-- The status's name. -/
def name : Status → String
  | .ok => "OK"
  | .warning => "Warning"
  | .discard => "Discard"
  | .error => "Error"
  | .fatal => "Fatal"
  | .pending => "Pending"
  | .other c => "Status(" ++ toString c ++ ")"

/-- Whether the call succeeded. -/
def succeeded : Status → Bool
  | .ok | .pending => true
  | _ => false

/-- Whether the call failed in a way the caller may tolerate. -/
def tolerable : Status → Bool
  | .warning | .discard => true
  | _ => false

end Status

/-- The role of a variable in the model. -/
inductive Causality where
  | local
  | input
  | output
  | parameter
  | calculatedParameter
  | structuralParameter
  | independent
  | other (code : Int)
deriving Repr, DecidableEq, Inhabited

namespace Causality

/-- The causality's code. -/
def code : Causality → Int
  | .local => 0
  | .input => 1
  | .output => 2
  | .parameter => 3
  | .calculatedParameter => 4
  | .structuralParameter => 5
  | .independent => 6
  | .other c => c

/-- The causality of a code. -/
def ofCode : Int → Causality
  | 0 => .local
  | 1 => .input
  | 2 => .output
  | 3 => .parameter
  | 4 => .calculatedParameter
  | 5 => .structuralParameter
  | 6 => .independent
  | c => .other c

/-- The causality's name, as model descriptions write it. -/
def name : Causality → String
  | .local => "local"
  | .input => "input"
  | .output => "output"
  | .parameter => "parameter"
  | .calculatedParameter => "calculatedParameter"
  | .structuralParameter => "structuralParameter"
  | .independent => "independent"
  | .other c => "Causality(" ++ toString c ++ ")"

/-- Reads a causality name; the empty name is `local`. -/
def parse (s : String) : Except Fault Causality :=
  match s with
  | "" | "local" => .ok .local
  | "input" => .ok .input
  | "output" => .ok .output
  | "parameter" => .ok .parameter
  | "calculatedParameter" => .ok .calculatedParameter
  | "structuralParameter" => .ok .structuralParameter
  | "independent" => .ok .independent
  | _ => .error (.text ("unknown causality " ++ Text.quote s))

end Causality

end CoSimBridge.Fmu
