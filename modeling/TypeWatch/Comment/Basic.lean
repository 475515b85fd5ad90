import TypeWatch.Token.Layout
import TypeWatch.Text.Basic

/-! The comments of a source text, and those that are commands: a tag and, after it, the command. -/
namespace TypeWatch
set_option autoImplicit false

/-- The comments of a text, each with its line, in order. -/
abbrev Comments := List (Nat × String)

namespace Comments

/-- The comments among pieces of which the first begins on the given line. -/
def ofPieces (line : Nat) : List Piece → Comments
  | [] => []
  | p :: ps =>
    let rest := ofPieces (line + Text.lineFeeds p.chars) ps
    if p.lexeme = .comment then (line, String.ofList p.chars) :: rest else rest

/-- The comments of a source text that has tokens. -/
def ofText (source : String) : Except SyntaxError Comments := do
  let _ ← tokenize source
  return ofPieces 1 (Piece.split source.toList).1

/-- Puts a comment on a line, in the order of the lines and in place of one that is there. -/
def put (line : Nat) (comment : String) : Comments → Comments
  | [] => [(line, comment)]
  | (l, c) :: rest =>
    if line < l then (line, comment) :: (l, c) :: rest
    else if line = l then (line, comment) :: rest
    else (l, c) :: put line comment rest

/-- Some comments in the order of their lines, of which the last one on a line counts. -/
def ofList (cs : List (Nat × String)) : Comments := cs.foldl (fun acc c => acc.put c.1 c.2) []

def at? (comments : Comments) (line : Nat) : Option String := comments.lookup line

end Comments

/-! ## Commands -/

namespace Comment

def tag : List Char := "pydytype:".toList

/-- The text after a beginning, if a text has it. -/
def after? : List Char → List Char → Option (List Char)
  | [], cs => some cs
  | _ :: _, [] => none
  | p :: ps, c :: cs => if p = c then after? ps cs else none

/-- The command that a comment gives. It is one line, and not empty. -/
def command? (comment : String) : Option String :=
  match Text.trimEnd comment.toList with
  | '#' :: cs =>
    match after? tag (Text.trimStart cs) with
    | none => none
    | some rest =>
      let command := Text.trimStart rest
      if command.isEmpty || command.contains '\n' then none else some (String.ofList command)
  | _ => none

/-- The command on lines where a check is expected to fail. -/
def failureCommand : String := "test_assert_fail"

/-- Whether a check is expected to fail on a line. -/
def expectsFailure (comments : Comments) (line : Nat) : Bool :=
  (comments.at? line).bind command? = some failureCommand

end Comment
end TypeWatch
