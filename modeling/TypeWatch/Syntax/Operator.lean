import TypeWatch.Token.Basic

/-! The operators of expressions, and how tightly they bind. -/
namespace TypeWatch
set_option autoImplicit false

/-! ## Binding power -/

/-- How tightly an operator holds its operands, from the weakest. -/
inductive Power where
  | least | named | conditional | disjunction | conjunction | negation | comparison
  | bitOr | bitXor | bitAnd | shift | sum | product | sign | power | await | trailer
  deriving DecidableEq, Repr

namespace Power

def rank : Power → Nat
  | least => 0
  | named => 1
  | conditional => 2
  | disjunction => 3
  | conjunction => 4
  | negation => 5
  | comparison => 6
  | bitOr => 7
  | bitXor => 8
  | bitAnd => 9
  | shift => 10
  | sum => 11
  | product => 12
  | sign => 13
  | power => 14
  | await => 15
  | trailer => 16

instance : LT Power := ⟨fun a b => a.rank < b.rank⟩

instance (a b : Power) : Decidable (a < b) := inferInstanceAs (Decidable (a.rank < b.rank))

end Power

/-! ## Operators with two operands -/

inductive BinaryOp where
  | or | and | less | lessEqual | greater | greaterEqual | equal | notEqual | isIn | notIn
  | same | notSame | bitOr | bitXor | bitAnd | shiftLeft | shiftRight | add | subtract
  | multiply | divide | floorDivide | remainder | matrixMultiply | power
  deriving DecidableEq, Repr

namespace BinaryOp

def symbol : BinaryOp → String
  | or => "or"
  | and => "and"
  | less => "<"
  | lessEqual => "<="
  | greater => ">"
  | greaterEqual => ">="
  | equal => "=="
  | notEqual => "!="
  | isIn => "in"
  | notIn => "not in"
  | same => "is"
  | notSame => "is not"
  | bitOr => "|"
  | bitXor => "^"
  | bitAnd => "&"
  | shiftLeft => "<<"
  | shiftRight => ">>"
  | add => "+"
  | subtract => "-"
  | multiply => "*"
  | divide => "/"
  | floorDivide => "//"
  | remainder => "%"
  | matrixMultiply => "@"
  | power => "**"

def binds : BinaryOp → Power
  | or => .disjunction
  | and => .conjunction
  | less | lessEqual | greater | greaterEqual | equal | notEqual => .comparison
  | isIn | notIn | same | notSame => .comparison
  | bitOr => .bitOr
  | bitXor => .bitXor
  | bitAnd => .bitAnd
  | shiftLeft | shiftRight => .shift
  | add | subtract => .sum
  | multiply | divide | floorDivide | remainder | matrixMultiply => .product
  | power => .power

/-- The operator that one token makes. The operators of two words are not among them, nor is the
first word of one. -/
def ofToken? : TokenKind → Option BinaryOp
  | .word .kwOr => some or
  | .word .kwAnd => some and
  | .op .less => some less
  | .op .lessEqual => some lessEqual
  | .op .greater => some greater
  | .op .greaterEqual => some greaterEqual
  | .op .equal => some equal
  | .op .notEqual => some notEqual
  | .word .kwIn => some isIn
  | .op .pipe => some bitOr
  | .op .caret => some bitXor
  | .op .ampersand => some bitAnd
  | .op .shiftLeft => some shiftLeft
  | .op .shiftRight => some shiftRight
  | .op .plus => some add
  | .op .minus => some subtract
  | .op .star => some multiply
  | .op .slash => some divide
  | .op .doubleSlash => some floorDivide
  | .op .percent => some remainder
  | .op .atSign => some matrixMultiply
  | .op .doubleStar => some power
  | _ => none

/-- The operation that an assignment of its result to the left operand is written with. -/
def ofAugmented? : TokenKind → Option BinaryOp
  | .op .plusAssign => some add
  | .op .minusAssign => some subtract
  | .op .starAssign => some multiply
  | .op .slashAssign => some divide
  | .op .doubleSlashAssign => some floorDivide
  | .op .percentAssign => some remainder
  | .op .atAssign => some matrixMultiply
  | .op .ampersandAssign => some bitAnd
  | .op .pipeAssign => some bitOr
  | .op .caretAssign => some bitXor
  | .op .shiftLeftAssign => some shiftLeft
  | .op .shiftRightAssign => some shiftRight
  | .op .doubleStarAssign => some power
  | _ => none

end BinaryOp

/-! ## Operators with one operand -/

inductive UnaryOp where
  | negate | keep | invert | not
  deriving DecidableEq, Repr

namespace UnaryOp

def symbol : UnaryOp → String
  | negate => "-"
  | keep => "+"
  | invert => "~"
  | not => "not"

/-- What is written before the operand. -/
def lead : UnaryOp → String
  | not => "not "
  | o => o.symbol

def binds : UnaryOp → Power
  | not => .negation
  | _ => .sign

def ofToken? : TokenKind → Option UnaryOp
  | .op .minus => some negate
  | .op .plus => some keep
  | .op .tilde => some invert
  | .word .kwNot => some not
  | _ => none

end UnaryOp
end TypeWatch
