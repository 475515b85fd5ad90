import TypeWatch.Decimal.Shortest

/-! Floating-point numbers as text: the fewest digits that are read back, positional from a ten
thousandth up to below ten to the power of sixteen and with an exponent of at least two digits
beyond. A number in positional form has a digit after the point. -/
namespace TypeWatch.Decimal
set_option autoImplicit false

/-- Digits with a point after so many of them. -/
def positional (digits : List Char) (point : Int) : List Char :=
  if point ≤ 0 then ['0', '.'] ++ List.replicate (-point).toNat '0' ++ digits
  else if (digits.length : Int) ≤ point then
    digits ++ List.replicate (point.toNat - digits.length) '0' ++ ['.', '0']
  else digits.take point.toNat ++ ['.'] ++ digits.drop point.toNat

/-- An exponent with its sign and at least two digits. -/
def exponentText (e : Int) : List Char :=
  let digits := Nat.toDigits 10 e.natAbs
  [if e < 0 then '-' else '+'] ++ List.replicate (2 - digits.length) '0' ++ digits

/-- Digits with the point after the first one, and the exponent that this takes. -/
def scientific (digits : List Char) (point : Int) : List Char :=
  let mantissa := match digits with
    | [d] => [d]
    | d :: ds => d :: '.' :: ds
    | [] => []
  mantissa ++ ['e'] ++ exponentText (point - 1)

/-- The least and the first too great position of the point in positional form. -/
def isPositional (point : Int) : Bool := decide (-3 ≤ point) && decide (point ≤ 16)

def magnitudeText (d : Scaled) : List Char :=
  let digits := Nat.toDigits 10 d.coefficient
  let point := digits.length + d.place
  if isPositional point then positional digits point else scientific digits point

def floatText (x : Float) : String :=
  let p := Parts.ofFloat x
  let sign := if p.negative then ['-'] else []
  if p.isNaN then "nan"
  else if !p.isFinite then String.ofList (sign ++ ['i', 'n', 'f'])
  else if p.isZero then String.ofList (sign ++ ['0', '.', '0'])
  else String.ofList (sign ++ magnitudeText p.shortest)

end TypeWatch.Decimal
