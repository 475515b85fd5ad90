import TypeWatch.Decimal.Reading
import TypeWatch.Reading.Expr
import TypeWatch.Value.Equality

/-! Literal values: what the text of a literal stands for. Names, calls and operators have no place in
a literal, but for the empty set, signs of numbers, and sums and differences that make a complex
number. -/
namespace TypeWatch
set_option autoImplicit false

/-- Why a text stands for no literal value. -/
inductive LiteralError where
  | unreadable (error : SourceError)
  | notALiteral (expression : String)
  | invalidNumber (literal : String)
  | unhashable (typeName : String)
  deriving DecidableEq, Repr

def LiteralError.message : LiteralError → String
  | unreadable error => error.message
  | notALiteral expression => "not a literal: " ++ expression
  | invalidNumber literal => "invalid number literal: " ++ literal
  | unhashable typeName => "unhashable type: '" ++ typeName ++ "'"

namespace Literal

/-- The name that is given to a source without a file. -/
def anonymous : String := "<string>"

/-! ## Numbers -/

/-- The integer as a value, if it has a place in 64 bits. -/
def integerValue? (n : Int) : Option Value :=
  if (Int64.ofInt n).toInt = n then some (.int (Int64.ofInt n)) else none

/-- The base that a number is marked with by its second character. -/
def markedBase? : List Char → Option (Nat × List Char)
  | '0' :: 'x' :: digits => some (16, digits)
  | '0' :: 'o' :: digits => some (8, digits)
  | '0' :: 'b' :: digits => some (2, digits)
  | _ => none

/-- A decimal integer. Zeros before its first other digit are no digits of it. -/
def decimalInteger? (cs : List Char) : Option Value :=
  if cs.head? = some '0' ∧ cs.any (· ≠ '0') then none
  else (Decimal.integer? 10 cs).bind integerValue?

/-- The value of a number in lower case and without underscores. -/
def plainNumber? (cs : List Char) : Option Value :=
  match markedBase? cs with
  | some (base, digits) => (Decimal.integer? base digits).bind integerValue?
  | none =>
    if cs.getLast? = some 'j' then (Decimal.float? cs.dropLast).map (.complex 0.0)
    else if cs.contains '.' || cs.contains 'e' then (Decimal.float? cs).map .float
    else decimalInteger? cs

def number (literal : String) : Except LiteralError Value :=
  match plainNumber? ((literal.toList.filter (· ≠ '_')).map Char.toLower) with
  | some v => .ok v
  | none => .error (.invalidNumber literal)

/-! ## Constants and operators -/

def notALiteral {α : Type} (e : Expr) : Except LiteralError α := .error (.notALiteral e.written)

/-- The bytes with the numbers of some characters. -/
def octets? : List Char → Option (List UInt8)
  | [] => some []
  | c :: cs => if c.toNat < 256 then (octets? cs).map (c.toNat.toUInt8 :: ·) else none

def constant (e : Expr) : Constant → Except LiteralError Value
  | .noneWord => .ok .none
  | .trueWord => .ok (.bool true)
  | .falseWord => .ok (.bool false)
  | .number literal => number literal
  | .string text => .ok (.str text)
  | .bytes text =>
    match octets? text.toList with
    | some bs => .ok (.bytes bs)
    | none => notALiteral e
  | .ellipsis | .formatString _ => notALiteral e

/-- A number with a sign. The least integer cannot be negated. -/
def signed (e : Expr) : UnaryOp → Value → Except LiteralError Value
  | .keep, v@(.int _) | .keep, v@(.float _) | .keep, v@(.complex _ _) => .ok v
  | .negate, .int n => if n = Int64.minValue then notALiteral e else .ok (.int (-n))
  | .negate, .float x => .ok (.float (-x))
  | .negate, .complex re im => .ok (.complex (-re) (-im))
  | _, _ => notALiteral e

/-- The real part of a complex number that is written as a sum. -/
def realPart (e : Expr) : Value → Except LiteralError Float
  | .int n => .ok (Value.nearestFloat n)
  | .float x => .ok x
  | _ => notALiteral e

def complexSum (e : Expr) (re : Float) (op : BinaryOp) : Value → Except LiteralError Value
  | .complex _ im =>
    match op with
    | .add => .ok (.complex re im)
    | .subtract => .ok (.complex re (-im))
    | _ => notALiteral e
  | _ => notALiteral e

/-- The values, if all may be in a set. -/
def hashable (items : List Value) : Except LiteralError Unit :=
  match items.find? fun v => !v.isHashable with
  | some v => .error (.unhashable v.classOf.name)
  | none => .ok ()

/-! ## Literals -/

mutual

def value : Expr → Except LiteralError Value
  | e@(.constant _ c) => constant e c
  | .list _ elements => do return .list (← values elements)
  | .tuple _ elements => do return .tuple (← values elements)
  | .set _ elements => do
    let items ← values elements
    hashable items
    return Value.setOf items
  | e@(.dict _ es) => do return Value.dictOf (← entries e es)
  | e@(.call _ callee arguments) =>
    match callee, arguments with
    | .name _ "set", [] => .ok (.set [])
    | _, _ => notALiteral e
  | e@(.unary _ op operand) => do signed e op (← value operand)
  | e@(.binary _ left op right) => do
    let re ← realPart e (← value left)
    complexSum e re op (← value right)
  | e => notALiteral e

def values : List Expr → Except LiteralError (List Value)
  | [] => .ok []
  | e :: es => do
    let v ← value e
    return v :: (← values es)

/-- The entries of the dictionary `whole`. -/
def entries (whole : Expr) : List Entry → Except LiteralError (List (Value × Value))
  | [] => .ok []
  | .unpack _ :: _ => notALiteral whole
  | .pair k v :: es => do
    let key ← value k
    hashable [key]
    let v ← value v
    return (key, v) :: (← entries whole es)

end

end Literal

def Value.ofText (text : String) : Except LiteralError Value :=
  match inFile Literal.anonymous (Expr.ofText text) with
  | .error e => .error (.unreadable e)
  | .ok e => Literal.value e

end TypeWatch
