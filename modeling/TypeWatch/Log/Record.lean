import TypeWatch.Text.Basic

/-! Records of what happens, each on one line with its severity in colour, and how much of it is logged. -/
namespace TypeWatch.Log
set_option autoImplicit false

/-! ## Severities -/

inductive Severity where
  | error | warn | info | debug | trace
  deriving DecidableEq, Repr

namespace Severity

def all : List Severity := [.error, .warn, .info, .debug, .trace]

def name : Severity → String
  | error => "ERROR"
  | warn => "WARN"
  | info => "INFO"
  | debug => "DEBUG"
  | trace => "TRACE"

def rank : Severity → Nat
  | error => 1
  | warn => 2
  | info => 3
  | debug => 4
  | trace => 5

end Severity

/-- The least grave records that are logged, if any are. -/
abbrev Threshold := Option Severity

namespace Threshold

def name : Threshold → String
  | none => "OFF"
  | some s => s.name

def admits : Threshold → Severity → Bool
  | none, _ => false
  | some least, s => s.rank ≤ least.rank

/-- The threshold with a name, in letters of any case and with blanks around it. -/
def ofText? (text : String) : Option Threshold :=
  let word := String.ofList ((Text.trim text.toList).map Char.toUpper)
  (none :: Severity.all.map some).find? fun t => t.name = word

/-- The threshold if nothing is said, or nothing that can be understood. -/
def standard : Threshold := some .warn

/-- The threshold that is asked for, or else the one that the environment asks for. -/
def resolve (asked environment : Option String) : Threshold :=
  ((asked <|> environment).bind ofText?).getD standard

end Threshold

/-! ## Records -/

/-- The sequence for terminals that begins the colour of a severity. -/
def Severity.colour : Severity → String
  | error => "\x1b[31m"
  | warn => "\x1b[33m"
  | info => "\x1b[32m"
  | debug => "\x1b[36m"
  | trace => "\x1b[35m"

structure Record where
  severity : Severity
  /-- The part of the program that the record comes from. -/
  target : String
  message : String
  deriving DecidableEq, Repr

namespace Record

def line (r : Record) : String :=
  r.severity.colour ++ String.ofList (Text.alignLeft ' ' 5 r.severity.name.toList) ++ "\x1b[0m [" ++
    r.target ++ "] " ++ r.message ++ "\n"

end Record

def lines (t : Threshold) (records : List Record) : String :=
  String.join ((records.filter fun r => t.admits r.severity).map Record.line)

end TypeWatch.Log
