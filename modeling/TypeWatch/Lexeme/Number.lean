/-! Number literals: how many characters of a text they take. -/
namespace TypeWatch.Lexeme
set_option autoImplicit false

/-- The length of the longest beginning with the property. -/
def runLength (p : Char → Bool) (cs : List Char) : Nat := (cs.takeWhile p).length

def isDigitOrUnderscore (c : Char) : Bool := c.isDigit || c == '_'

def isHexDigit (c : Char) : Bool :=
  c.isDigit || ('a' ≤ c && c ≤ 'f') || ('A' ≤ c && c ≤ 'F')

/-- The digits of a base that is marked by a letter after a zero. -/
def markedDigit? : Char → Option (Char → Bool)
  | 'x' | 'X' => some isHexDigit
  | 'o' | 'O' => some fun c => '0' ≤ c && c ≤ '7'
  | 'b' | 'B' => some fun c => c == '0' || c == '1'
  | _ => none

/-- An integer in base sixteen, eight or two: a zero, a letter for the base, and digits and
underscores, of which there is at least one. -/
def markedLength? : List Char → Option Nat
  | '0' :: mark :: cs =>
    match markedDigit? mark with
    | none => none
    | some isDigit =>
      match runLength (fun c => isDigit c || c == '_') cs with
      | 0 => none
      | n + 1 => some (n + 3)
  | _ => none

/-- Digits with at most one point, which a digit has to stand before or after. An underscore may
stand wherever a digit is not the first one after such a point or the first of all. -/
def mantissaLength? : List Char → Option Nat
  | '.' :: c :: cs => if c.isDigit then some (2 + runLength isDigitOrUnderscore cs) else none
  | c :: cs =>
    if c.isDigit then
      let whole := runLength isDigitOrUnderscore cs
      match cs.drop whole with
      | '.' :: fraction => some (2 + whole + runLength isDigitOrUnderscore fraction)
      | _ => some (1 + whole)
    else none
  | [] => none

/-- Digits that begin with a digit proper. -/
def digitsLength? : List Char → Option Nat
  | c :: cs => if c.isDigit then some (1 + runLength isDigitOrUnderscore cs) else none
  | [] => none

/-- The length of an exponent, zero if there is none. -/
def exponentLength : List Char → Nat
  | mark :: cs =>
    if mark == 'e' || mark == 'E' then
      match cs with
      | sign :: rest =>
        if sign == '+' || sign == '-' then ((digitsLength? rest).map (· + 2)).getD 0
        else ((digitsLength? cs).map (· + 1)).getD 0
      | [] => 0
    else 0
  | [] => 0

/-- The length of the mark of an imaginary number, zero if there is none. -/
def imaginaryLength : List Char → Nat
  | 'j' :: _ | 'J' :: _ => 1
  | _ => 0

def numberLength? (cs : List Char) : Option Nat :=
  match markedLength? cs with
  | some n => some n
  | none =>
    match mantissaLength? cs with
    | none => none
    | some m =>
      let e := exponentLength (cs.drop m)
      some (m + e + imaginaryLength (cs.drop (m + e)))

end TypeWatch.Lexeme
