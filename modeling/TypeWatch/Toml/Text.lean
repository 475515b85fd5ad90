import TypeWatch.Decimal.Reading
import TypeWatch.Toml.Scan

/-! Strings of a TOML text: in single quotes as they are, in double quotes with escapes, and both on
several lines if the quotes are three. -/
namespace TypeWatch.Toml
set_option autoImplicit false

/-! ## Pieces -/

/-- The character with a number that is written in hexadecimal digits. -/
def numbered? (digits : List Char) : Option Char := do
  let n ← Decimal.natural? 16 digits
  if n.isValidChar then some (Char.ofNat n) else none

/-- Reads the digits of a number of a character. -/
def characterNumber (count : Nat) : Scan (List Char) := fun cs =>
  if cs.length < count then none
  else (numbered? (cs.take count)).map fun c => ([c], cs.drop count)

/-- What stands for a character after a backslash. -/
def shortEscape? : Char → Option Char
  | 'b' => some '\x08'
  | 't' => some '\t'
  | 'n' => some '\n'
  | 'f' => some '\x0c'
  | 'r' => some '\r'
  | '"' => some '"'
  | '\\' => some '\\'
  | _ => none

def escape : Scan (List Char)
  | '\\' :: 'u' :: cs => characterNumber 4 cs
  | '\\' :: 'U' :: cs => characterNumber 8 cs
  | '\\' :: c :: cs => (shortEscape? c).map fun e => ([e], cs)
  | _ => none

/-- Reads a character that stands for itself between the given quotes. -/
def plainPiece (quote : Char) : Scan (List Char)
  | c :: cs => if isPlain c && c != quote then some ([c], cs) else none
  | [] => none

/-- Reads a backslash at the end of a line, with all blanks and line ends after it. -/
def foldedPiece : Scan (List Char)
  | '\\' :: cs => (newline (skipBlanks cs)).map fun r => ([], skipBlanks (many brokenBlank r.2).2)
  | _ => none
where
  brokenBlank (cs : List Char) : Option (Unit × List Char) := newline (skipBlanks cs)

def quotes (quote : Char) (cs : List Char) : Nat := (cs.takeWhile (· == quote)).length

/-- Reads one or two quotes that do not end a string on several lines. -/
def quotePiece (quote : Char) (cs : List Char) : Option (List Char × List Char) :=
  let n := quotes quote cs
  if n = 1 ∨ n = 2 then some (cs.take n, cs.drop n) else none

def newlinePiece (cs : List Char) : Option (List Char × List Char) :=
  (newline cs).map fun r => (['\n'], r.2)

/-- Reads a piece of a string in double quotes. -/
def basicPiece (cs : List Char) : Option (List Char × List Char) :=
  match cs with
  | '\\' :: _ => escape cs
  | _ => plainPiece '"' cs

def literalPiece (cs : List Char) : Option (List Char × List Char) := plainPiece '\'' cs

/-- Reads a piece of a string on several lines. -/
def longPiece (quote : Char) (piece : Scan (List Char)) (cs : List Char) :
    Option (List Char × List Char) :=
  piece cs <|> newlinePiece cs <|> quotePiece quote cs

def longBasicPiece (cs : List Char) : Option (List Char × List Char) :=
  foldedPiece cs <|> longPiece '"' basicPiece cs

/-! ## Strings -/

/-- Reads the rest of a string on one line. -/
def shortString (quote : Char) (piece : Scan (List Char)) (cs : List Char) :
    Option (String × List Char) := do
  let (pieces, rest) := many piece cs
  let (_, rest) ← exactly quote rest
  some (String.ofList pieces.flatten, rest)

/-- Reads the rest of a string on several lines. A line end right after the opening quotes is left out,
and up to two quotes may stand before the closing ones. -/
def longString (quote : Char) (piece : Scan (List Char)) (cs : List Char) :
    Option (String × List Char) :=
  let cs := ((newline cs).map Prod.snd).getD cs
  let (pieces, rest) := many piece cs
  let n := quotes quote rest
  if 3 ≤ n ∧ n ≤ 5 then
    some (String.ofList (pieces.flatten ++ List.replicate (n - 3) quote), rest.drop n)
  else none

def lineString : Scan String
  | '"' :: cs => shortString '"' basicPiece cs
  | '\'' :: cs => shortString '\'' literalPiece cs
  | _ => none

def anyString : Scan String
  | '"' :: '"' :: '"' :: cs => longString '"' longBasicPiece cs
  | '\'' :: '\'' :: '\'' :: cs => longString '\'' (longPiece '\'' literalPiece) cs
  | cs => lineString cs

end TypeWatch.Toml
