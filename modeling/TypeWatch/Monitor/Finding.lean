import TypeWatch.Comment.Basic
import TypeWatch.Monitor.Event
import TypeWatch.Scope.Table
import TypeWatch.Typing.Check

/-! What is found when the local names of a frame are checked against their declared types. -/
namespace TypeWatch
set_option autoImplicit false

structure Finding where
  file : String
  line : Nat
  name : String
  value : Value
  /-- The type expression that the name is declared with. -/
  type : String
  verdict : Verdict

namespace Finding

def outcome (f : Finding) : Outcome := f.verdict.outcome

def isConformant (f : Finding) : Bool := f.outcome.isConformant

def text (f : Finding) : String :=
  f.file ++ ":" ++ toString f.line ++ ": " ++ f.name ++ ": " ++ f.type ++ " = " ++ f.value.text ++
    ": " ++ f.outcome.text

/-- The findings that tell of a failure on a line where none is expected. -/
def unexpected (comments : Comments) (findings : List Finding) : List Finding :=
  findings.filter fun f => !f.isConformant && !Comment.expectsFailure comments f.line

end Finding

namespace Frame

def environment (f : Frame) : Environment := ⟨f.locals, f.globals⟩

/-- What is found about a local name with a declared type. Nothing is, as long as a name in its type
has no value. -/
def findingOf (f : Frame) (name : String) (value : Value) (type : String) : Option Finding :=
  match value.verdict f.environment type with
  | .ok verdict => some ⟨f.file, f.line, name, value, type, verdict⟩
  | .error _ => none

/-- What is found about a binding, given what is known on the line of the frame. -/
def findingIn (f : Frame) (types : LineTypes) (binding : String × Value) : Option Finding :=
  match (types.lookup binding.1).join with
  | some type => f.findingOf binding.1 binding.2 type
  | none => none

def findings (f : Frame) (types : LineTypes) : List Finding :=
  f.locals.bindings.filterMap (f.findingIn types)

/-- What is found in the module that the frame belongs to. -/
def findingsIn (f : Frame) (table : TypeTable) : List Finding :=
  match table.typesAt? f.line with
  | some types => f.findings types
  | none => []

end Frame
end TypeWatch
