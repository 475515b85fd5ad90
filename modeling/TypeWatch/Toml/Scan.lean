/-! Readers of the beginning of a text, and the blanks, comments and line ends between the parts of a
TOML text. -/
namespace TypeWatch.Toml
set_option autoImplicit false

/-! ## Readers -/

/-- Reads a thing at the beginning of a text, and gives it with what is left of the text. -/
abbrev Scan (α : Type) := List Char → Option (α × List Char)

def exactly (c : Char) : Scan Unit
  | d :: cs => if d = c then some ((), cs) else none
  | [] => none

/-- Reads as many things as there are. One that takes nothing is not read. -/
def many {α : Type} (item : Scan α) (cs : List Char) : List α × List Char :=
  match item cs with
  | none => ([], cs)
  | some (a, rest) =>
    if _h : rest.length < cs.length then
      let (as, last) := many item rest
      (a :: as, last)
    else ([], cs)
termination_by cs.length

/-- Takes steps until nothing is left. A step has to take something. -/
def untilEnd {σ : Type} (step : σ → Scan σ) (s : σ) (cs : List Char) : Option σ :=
  if cs.isEmpty then some s
  else match step s cs with
    | none => none
    | some (next, rest) => if _h : rest.length < cs.length then untilEnd step next rest else none
termination_by cs.length

/-! ## Between the parts -/

def isBlank (c : Char) : Bool := c == ' ' || c == '\t'

/-- The characters of comments and literal strings. -/
def isPlain (c : Char) : Bool := c == '\t' || (' ' ≤ c && c ≤ '~') || '\x80' ≤ c

def skipBlanks (cs : List Char) : List Char := cs.dropWhile isBlank

def skipComment : List Char → List Char
  | '#' :: cs => cs.dropWhile isPlain
  | cs => cs

def newline : Scan Unit
  | '\n' :: cs => some ((), cs)
  | '\r' :: '\n' :: cs => some ((), cs)
  | _ => none

/-- Reads what may follow at the end of a line. -/
def lineEnd (cs : List Char) : Option (Unit × List Char) :=
  match skipComment (skipBlanks cs) with
  | [] => some ((), [])
  | rest => newline rest

/-- Reads the end of a line that is not the last one. -/
def brokenLine (cs : List Char) : Option (Unit × List Char) := newline (skipComment (skipBlanks cs))

/-- Passes over blanks, comments and the ends of lines. -/
def skipGap (cs : List Char) : List Char := skipBlanks (many brokenLine cs).2

end TypeWatch.Toml
