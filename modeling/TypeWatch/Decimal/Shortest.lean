/-! The shortest decimal number that is read back as a given number, and of these the nearest. A number
is given with the bounds of what is read back as it. Decimal numbers with few digits lie on a coarse
grid; the first grid, from the coarsest, that has a point between the bounds has it next to the
number itself. -/
namespace TypeWatch.Decimal
set_option autoImplicit false

/-- The number `num / den`, which is positive, and the bounds `low / den` and `high / den` of the
numbers that are read back as it. -/
structure Target where
  num : Nat
  low : Nat
  high : Nat
  den : Nat
  /-- Whether the bounds themselves are read back. -/
  closed : Bool

/-- The number `coefficient · 10 ^ place`. -/
structure Scaled where
  coefficient : Nat
  place : Int
  deriving DecidableEq, Repr

namespace Target

/-! ## Grids -/

/-- Whether `c · 10 ^ place` is read back as the number. -/
def admits (t : Target) (c : Nat) (place : Int) : Bool :=
  let x := c * Nat.pow 10 place.toNat * t.den
  let down := Nat.pow 10 (-place).toNat
  if t.closed then decide (t.low * down ≤ x) && decide (x ≤ t.high * down)
  else decide (t.low * down < x) && decide (x < t.high * down)

/-- The point of the grid of multiples of `10 ^ place` that is read back as the number and is nearest
to it. Of two as near, it is the greater. -/
def nearest? (t : Target) (place : Int) : Option Nat :=
  let unit := Nat.pow 10 place.toNat * t.den
  let scaled := t.num * Nat.pow 10 (-place).toNat
  let c := scaled / unit
  match t.admits c place, t.admits (c + 1) place with
  | true, true => if 2 * (scaled % unit) < unit then some c else some (c + 1)
  | true, false => some c
  | false, true => some (c + 1)
  | false, false => none

/-! ## Digits -/

/-- The least power of ten that brings `num / den` to one or more. -/
def powerToOne (den : Nat) : Nat → Nat → Nat
  | 0, _ => 0
  | fuel + 1, num => if den ≤ num then 0 else powerToOne den fuel (num * 10) + 1

def leadingPlace (t : Target) : Int :=
  if t.den ≤ t.num then ((Nat.toDigits 10 (t.num / t.den)).length : Int) - 1
  else -(powerToOne t.den (t.den.log2 + 1) t.num : Int)

/-- A number without trailing zeros in its coefficient. -/
def trimZeros : Nat → Scaled → Scaled
  | 0, d => d
  | fuel + 1, d =>
    if d.coefficient % 10 = 0 then trimZeros fuel ⟨d.coefficient / 10, d.place + 1⟩ else d

/-- The shortest number, tried with up to so many digits. -/
def shortestWithin (t : Target) (digits : Nat) : Option Scaled :=
  (List.range digits).findSome? fun (n : Nat) =>
    let place := t.leadingPlace - (n : Int)
    (t.nearest? place).map fun c => trimZeros 20 ⟨c, place⟩

end Target

/-! ## Binary numbers -/

/-- The parts of a binary number in the format with 64 bits. -/
structure Parts where
  negative : Bool
  exponent : Nat
  fraction : Nat
  deriving DecidableEq, Repr

namespace Parts

def ofFloat (x : Float) : Parts :=
  let bits := x.toBits.toNat
  ⟨decide (Nat.pow 2 63 ≤ bits), bits / Nat.pow 2 52 % Nat.pow 2 11, bits % Nat.pow 2 52⟩

def isFinite (p : Parts) : Bool := p.exponent < 2047

def isNaN (p : Parts) : Bool := p.exponent = 2047 && p.fraction ≠ 0

def isZero (p : Parts) : Bool := p.exponent = 0 && p.fraction = 0

/-- A finite number without its sign is `mantissa · 2 ^ (shift - 1074)`. -/
def mantissa (p : Parts) : Nat := if p.exponent = 0 then p.fraction else p.fraction + Nat.pow 2 52

def shift (p : Parts) : Nat := p.exponent - 1

/-- The number without its sign, and the bounds half way to its neighbours. The neighbour below a
power of two is nearer, unless it is the least one with a full mantissa. -/
def target (p : Parts) : Target :=
  let below := if p.fraction = 0 ∧ 1 < p.exponent then 1 else 2
  let up := Nat.pow 2 (p.shift - 1074)
  { num := 4 * p.mantissa * up
    low := (4 * p.mantissa - below) * up
    high := (4 * p.mantissa + 2) * up
    den := 4 * Nat.pow 2 (1074 - p.shift)
    closed := p.mantissa % 2 = 0 }

/-- The shortest number that is read back, which never takes more than seventeen digits. -/
def shortest (p : Parts) : Scaled := (p.target.shortestWithin 17).getD ⟨0, 0⟩

end Parts
end TypeWatch.Decimal
