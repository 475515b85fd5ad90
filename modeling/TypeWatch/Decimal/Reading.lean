/-! Numbers read from text: integers in a base, and floating-point numbers, which are the nearest to the
number that is written. Both may have a sign. -/
namespace TypeWatch.Decimal
set_option autoImplicit false

/-! ## Integers -/

def digitValue (c : Char) : Nat :=
  if c.isDigit then c.toNat - '0'.toNat
  else if 'a' ≤ c ∧ c ≤ 'f' then c.toNat - 'a'.toNat + 10
  else if 'A' ≤ c ∧ c ≤ 'F' then c.toNat - 'A'.toNat + 10
  else 16

/-- The number that digits make after those that made `acc`. -/
def digitsValue? (base : Nat) (acc : Nat) : List Char → Option Nat
  | [] => some acc
  | c :: cs =>
    if digitValue c < base then digitsValue? base (acc * base + digitValue c) cs else none

/-- The number of a text that is digits and nothing else. -/
def natural? (base : Nat) (cs : List Char) : Option Nat :=
  if cs.isEmpty then none else digitsValue? base 0 cs

/-- The number of a text that is digits, perhaps with a sign before them. -/
def integer? (base : Nat) : List Char → Option Int
  | '-' :: cs => (natural? base cs).map fun n => -(n : Int)
  | '+' :: cs => (natural? base cs).map fun n => (n : Int)
  | cs => (natural? base cs).map fun n => (n : Int)

/-! ## Floating-point numbers -/

/-- The exponent that a text is after its mark, and zero for no text. -/
def exponent? : List Char → Option Int
  | [] => some 0
  | mark :: cs => if mark = 'e' ∨ mark = 'E' then integer? 10 cs else none

/-- The floating-point number nearest to `digits · 10 ^ exponent`. -/
def nearestFloat (digits : Nat) (exponent : Int) : Float :=
  Float.ofScientific digits (decide (exponent < 0)) exponent.natAbs

/-- The number of digits, perhaps with a point among them, and an exponent. -/
def unsignedFloat? (cs : List Char) : Option Float :=
  let whole := cs.takeWhile Char.isDigit
  let rest := cs.drop whole.length
  let fraction := match rest with
    | '.' :: ds => ds.takeWhile Char.isDigit
    | _ => []
  let rest := match rest with
    | '.' :: ds => ds.drop fraction.length
    | _ => rest
  match natural? 10 (whole ++ fraction), exponent? rest with
  | some digits, some exponent => some (nearestFloat digits (exponent - fraction.length))
  | _, _ => none

/-- The number that a word stands for. -/
def wordFloat? (cs : List Char) : Option Float :=
  let word := String.ofList (cs.map Char.toLower)
  if word = "inf" ∨ word = "infinity" then some (1.0 / 0.0)
  else if word = "nan" then some (0.0 / 0.0)
  else none

def float? (cs : List Char) : Option Float :=
  let (negative, unsigned) := match cs with
    | '-' :: rest => (true, rest)
    | '+' :: rest => (false, rest)
    | _ => (false, cs)
  ((unsignedFloat? unsigned) <|> (wordFloat? unsigned)).map fun x => if negative then -x else x

end TypeWatch.Decimal
