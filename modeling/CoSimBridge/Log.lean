import CoSimBridge.Text.Case
/-!
Log lines.

Components report what they do as log lines of a severity, kept in the order they were written.
Which of them are shown is decided only where they are printed: a threshold lets through the
lines at least as severe as itself.
-/

namespace CoSimBridge

/-- How severe a log line is, most severe first. -/
inductive Severity where
  | panic
  | fatal
  | error
  | warning
  | info
  | debug
  | trace
deriving Repr, DecidableEq, Inhabited

namespace Severity

/-- The severity's name. -/
def name : Severity → String
  | .panic => "panic"
  | .fatal => "fatal"
  | .error => "error"
  | .warning => "warning"
  | .info => "info"
  | .debug => "debug"
  | .trace => "trace"

/-- The rank of a severity: 0 for the most severe. -/
def rank : Severity → Nat
  | .panic => 0
  | .fatal => 1
  | .error => 2
  | .warning => 3
  | .info => 4
  | .debug => 5
  | .trace => 6

/-- The severity a level name stands for, ignoring case; `warn` is another name of `warning`. -/
def ofName? (s : String) : Option Severity :=
  match Text.lower s with
  | "panic" => some .panic
  | "fatal" => some .fatal
  | "error" => some .error
  | "warn" | "warning" => some .warning
  | "info" => some .info
  | "debug" => some .debug
  | "trace" => some .trace
  | _ => none

/-- Whether a line of severity `s` passes the threshold `t`. -/
def passes (t s : Severity) : Bool := s.rank ≤ t.rank

end Severity

/-- One log line. -/
structure LogLine where
  severity : Severity
  message : String
deriving Repr, Inhabited

/-- The line as printed: `severity: message`. -/
def LogLine.render (l : LogLine) : String := l.severity.name ++ ": " ++ l.message

/-- Log lines, oldest first. -/
abbrev Journal := Array LogLine

end CoSimBridge
