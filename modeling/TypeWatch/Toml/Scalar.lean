import TypeWatch.Decimal.Reading
import TypeWatch.Toml.Scan

/-! The numbers, truth values, dates and times of a TOML text. Each is one word, but that a blank may
stand between a date and a time. -/
namespace TypeWatch.Toml
set_option autoImplicit false

/-! ## Numbers -/

/-- Whether a text is digits, between which single underscores may stand. The flag tells whether a digit
comes before. -/
def isDigits (isDigit : Char → Bool) : Bool → List Char → Bool
  | afterDigit, [] => afterDigit
  | afterDigit, c :: cs =>
    if c = '_' then afterDigit && isDigits isDigit false cs else isDigit c && isDigits isDigit true cs

def withoutSign : List Char → List Char
  | '+' :: cs | '-' :: cs => cs
  | cs => cs

/-- Whether a text is digits without a needless zero before them. -/
def isWhole (cs : List Char) : Bool :=
  isDigits Char.isDigit false cs && (cs.length == 1 || cs.head? != some '0')

def withoutUnderscores (cs : List Char) : List Char := cs.filter (· ≠ '_')

/-- Whether a text is an integer that has a place in 64 bits. -/
def fits (base : Nat) (cs : List Char) : Bool :=
  (Decimal.integer? base (withoutUnderscores cs)).any fun n => (Int64.ofInt n).toInt == n

def isMarkedInteger (base : Nat) (cs : List Char) : Bool :=
  isDigits (fun c => Decimal.digitValue c < base) false cs && fits base cs

def isInteger : List Char → Bool
  | '0' :: 'x' :: cs => isMarkedInteger 16 cs
  | '0' :: 'o' :: cs => isMarkedInteger 8 cs
  | '0' :: 'b' :: cs => isMarkedInteger 2 cs
  | cs => isWhole (withoutSign cs) && fits 10 cs

def isExponent : List Char → Bool
  | mark :: cs => (mark == 'e' || mark == 'E') && isDigits Char.isDigit false (withoutSign cs)
  | [] => false

/-- Whether a text is what follows the whole part of a number with a point or an exponent. -/
def isFraction : List Char → Bool
  | '.' :: cs =>
    let digits := cs.takeWhile fun c => c.isDigit || c == '_'
    let rest := cs.drop digits.length
    isDigits Char.isDigit false digits && (rest.isEmpty || isExponent rest)
  | cs => isExponent cs

/-- Whether a text is a number with a point or an exponent, and not too large. -/
def isFloat (cs : List Char) : Bool :=
  let unsigned := withoutSign cs
  let whole := unsigned.takeWhile fun c => c.isDigit || c == '_'
  isWhole whole && isFraction (unsigned.drop whole.length) &&
    (Decimal.float? (withoutUnderscores cs)).any (· != 1.0 / 0.0)

/-! ## Dates and times -/

def digitPair : Scan Nat
  | a :: b :: cs =>
    if a.isDigit && b.isDigit then (Decimal.natural? 10 [a, b]).map fun n => (n, cs) else none
  | _ => none

/-- Reads two digits of a number within bounds. -/
def pairWithin (low high : Nat) (cs : List Char) : Option (Nat × List Char) := do
  let (n, rest) ← digitPair cs
  if low ≤ n ∧ n ≤ high then some (n, rest) else none

def isLeap (year : Nat) : Bool := year % 4 == 0 && (year % 100 != 0 || year % 400 == 0)

def daysIn (year month : Nat) : Nat :=
  if month = 2 then if isLeap year then 29 else 28
  else if month = 4 ∨ month = 6 ∨ month = 9 ∨ month = 11 then 30
  else 31

def date (cs : List Char) : Option (Unit × List Char) := do
  let (century, rest) ← digitPair cs
  let (year, rest) ← digitPair rest
  let (_, rest) ← exactly '-' rest
  let (month, rest) ← pairWithin 1 12 rest
  let (_, rest) ← exactly '-' rest
  let (_, rest) ← pairWithin 1 (daysIn (100 * century + year) month) rest
  some ((), rest)

/-- Reads digits after a point, if there is a point. -/
def secondsFraction : Scan Unit
  | '.' :: cs => if (cs.head?.map Char.isDigit).getD false then some ((), cs.dropWhile Char.isDigit) else none
  | cs => some ((), cs)

def time (cs : List Char) : Option (Unit × List Char) := do
  let (_, rest) ← pairWithin 0 23 cs
  let (_, rest) ← exactly ':' rest
  let (_, rest) ← pairWithin 0 59 rest
  let (_, rest) ← exactly ':' rest
  let (_, rest) ← pairWithin 0 60 rest
  secondsFraction rest

def offset : Scan Unit
  | 'Z' :: cs | 'z' :: cs => some ((), cs)
  | '+' :: cs | '-' :: cs => do
    let (_, rest) ← pairWithin 0 23 cs
    let (_, rest) ← exactly ':' rest
    let (_, rest) ← pairWithin 0 59 rest
    some ((), rest)
  | cs => some ((), cs)

def isAll {α : Type} (r : Option (α × List Char)) : Bool := r.any fun x => x.2.isEmpty

def isDate (cs : List Char) : Bool := isAll (date cs)

/-- Whether a text is a time, perhaps with an offset. -/
def isZonedTime (cs : List Char) : Bool := isAll ((time cs).bind fun r => offset r.2)

def isDateTime (cs : List Char) : Bool :=
  match date cs with
  | some (_, 'T' :: rest) | some (_, 't' :: rest) => isZonedTime rest
  | _ => false

/-! ## Words -/

def isWordChar (c : Char) : Bool := c.isAlphanum || "+-_.:".toList.contains c

def words : List (List Char) := ["true", "false", "inf", "+inf", "-inf", "nan", "+nan", "-nan"].map String.toList

def isScalar (word : List Char) : Bool :=
  words.contains word || isInteger word || isFloat word || isDate word || isDateTime word ||
    isAll (time word)

def word (cs : List Char) : List Char := cs.takeWhile isWordChar

def scalar (cs : List Char) : Option (Unit × List Char) :=
  let first := word cs
  let rest := cs.drop first.length
  if isScalar first then
    match rest with
    | ' ' :: more =>
      if isDate first && isZonedTime (word more) then some ((), more.drop (word more).length)
      else some ((), rest)
    | _ => some ((), rest)
  else none

end TypeWatch.Toml
