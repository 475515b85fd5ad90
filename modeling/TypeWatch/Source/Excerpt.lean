import TypeWatch.Source.Error
import TypeWatch.Text.Basic

/-! An error shown in its source: a heading, the file, and the line of the error without its
indentation, with a caret below it. -/
namespace TypeWatch.Excerpt
set_option autoImplicit false

def isIndentation (c : Char) : Bool := c == ' ' || c == '\t'

def indentation (line : List Char) : Nat := (line.takeWhile isIndentation).length

/-- The row of a caret that stands after so many columns. -/
def caretRow (margin columns : Nat) : List Char :=
  Text.alignRight ' ' margin ['|'] ++ [' '] ++ Text.alignRight '-' (columns + 1) ['^'] ++ ['\n']

/-- The rows that show a line and a caret at its place. -/
def rows (found : Text.LineAt) : List Char :=
  let number := (toString found.number).toList
  let margin := number.length + 2
  let shown := Text.trimEnd (found.line.dropWhile isIndentation)
  Text.alignRight ' ' margin ['|'] ++ ['\n'] ++ number ++ " | ".toList ++ shown ++ ['\n'] ++
    caretRow margin (found.column - indentation found.line)

def heading (fault : Fault) : String :=
  match fault.tip with
  | none => "Error: " ++ fault.name ++ "\n"
  | some tip => "Error: " ++ fault.name ++ " (" ++ tip ++ ")\n"

/-- The error shown in the source that it arose in, under the name of the file. -/
def render (e : SyntaxError) (source : String) (file : String) : String :=
  let top := heading e.fault ++ "-> " ++ file ++ "\n"
  match Text.lineAt source e.position.offset with
  | none => top
  | some found => top ++ String.ofList (rows found)

end TypeWatch.Excerpt
