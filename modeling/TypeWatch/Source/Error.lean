import TypeWatch.Source.Position
import TypeWatch.Text.Escaped

/-! What can be wrong with a source file, and how it is told. -/
namespace TypeWatch
set_option autoImplicit false

inductive Fault where
  | unrecognised (text : String)
  | unterminatedString
  | inconsistentIndentation
  | unexpected (token : String)
  /-- A token in a place where something else has to stand. -/
  | unexpectedFor (token : String) (expectation : String)
  | unexpectedIndent
  | missingBlock
  | invalidTarget (target : String)
  | unreadable (path : String) (reason : String)
  deriving DecidableEq, Repr

namespace Fault

def name : Fault → String
  | unrecognised _ => "UnrecognisedToken"
  | unterminatedString => "UnterminatedString"
  | inconsistentIndentation => "InconsistentIndentation"
  | unexpected _ => "UnexpectedToken"
  | unexpectedFor _ _ => "UnexpectedTokenDetailed"
  | unexpectedIndent => "UnexpectedIndent"
  | missingBlock => "ExpectedIndentedBlock"
  | invalidTarget _ => "InvalidTarget"
  | unreadable _ _ => "FileReadError"

/-- The fault as one phrase, in which pieces of the source are quoted. -/
def message : Fault → String
  | unrecognised text => "unrecognised token: " ++ Text.escaped text
  | unterminatedString => "unterminated string literal"
  | inconsistentIndentation => "inconsistent indentation"
  | unexpected token => "unexpected token: " ++ Text.escaped token
  | unexpectedFor token expectation =>
    "unexpected token (" ++ Text.escaped expectation ++ "): " ++ Text.escaped token
  | unexpectedIndent => "unexpected indent"
  | missingBlock => "expected an indented block"
  | invalidTarget target => "invalid assignment target " ++ Text.escaped target
  | unreadable path reason => "failed to read " ++ Text.escaped path ++ ": " ++ reason

/-- What is said to the author of the source, if there is more to say than the name. -/
def tip : Fault → Option String
  | unrecognised _ => none
  | unterminatedString => some "String literal is never closed"
  | inconsistentIndentation => some "Unindent does not match any outer indentation level"
  | unexpected token => some ("Unexpected token: `" ++ token ++ "`")
  | unexpectedFor token expectation => some ("Unexpected token: `" ++ token ++ "`, " ++ expectation)
  | unexpectedIndent => some "Indented line outside of a block"
  | missingBlock => some "Expected an indented block after `:`"
  | invalidTarget target => some ("Cannot assign to `" ++ target ++ "`")
  | unreadable path reason => some ("Failed to read `" ++ path ++ "`: " ++ reason)

end Fault

structure SyntaxError where
  fault : Fault
  position : Position
  deriving DecidableEq, Repr

/-- A fault and its place in a named file. -/
structure SourceError extends SyntaxError where
  file : String
  deriving DecidableEq, Repr

namespace SyntaxError

def inFile (e : SyntaxError) (file : String) : SourceError := ⟨e, file⟩

end SyntaxError

namespace SourceError

/-- A file that could not be read at all has no place to point at. -/
def unreadable (file reason : String) : SourceError :=
  ⟨⟨.unreadable file reason, ⟨0, 0⟩⟩, file⟩

/-- The error on one line: file, line and fault. -/
def message (e : SourceError) : String :=
  e.file ++ ":" ++ toString e.position.line ++ ": " ++ e.fault.message

end SourceError

/-- What is done in a file gives its errors the file's name. -/
def inFile {α : Type} (file : String) (r : Except SyntaxError α) : Except SourceError α :=
  r.mapError fun e => e.inFile file

end TypeWatch
