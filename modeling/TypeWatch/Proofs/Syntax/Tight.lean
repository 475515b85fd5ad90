import TypeWatch.Proofs.Token.Spelling
import TypeWatch.Reading.Expr

/-! # Expressions that need no parentheses

The written form of an expression has no parentheses around operands. It is read as the same expression if
all operands bind tightly enough for the places where they stand (`Expr.isTight`). -/
namespace TypeWatch
set_option autoImplicit false

/-! ## Words -/

def Constant.word : Constant → Word
  | noneWord => keyWord .kwNone
  | trueWord => keyWord .kwTrue
  | falseWord => keyWord .kwFalse
  | ellipsis => opWord .ellipsis
  | number literal => (.number, literal)
  | string text => (.string, text)
  | bytes text => (.bytes, text)
  | formatString text => (.formatString, text)

def BinaryOp.words : BinaryOp → List Word
  | or => [keyWord .kwOr]
  | and => [keyWord .kwAnd]
  | less => [opWord .less]
  | lessEqual => [opWord .lessEqual]
  | greater => [opWord .greater]
  | greaterEqual => [opWord .greaterEqual]
  | equal => [opWord .equal]
  | notEqual => [opWord .notEqual]
  | isIn => [keyWord .kwIn]
  | notIn => [keyWord .kwNot, keyWord .kwIn]
  | same => [keyWord .kwIs]
  | notSame => [keyWord .kwIs, keyWord .kwNot]
  | bitOr => [opWord .pipe]
  | bitXor => [opWord .caret]
  | bitAnd => [opWord .ampersand]
  | shiftLeft => [opWord .shiftLeft]
  | shiftRight => [opWord .shiftRight]
  | add => [opWord .plus]
  | subtract => [opWord .minus]
  | multiply => [opWord .star]
  | divide => [opWord .slash]
  | floorDivide => [opWord .doubleSlash]
  | remainder => [opWord .percent]
  | matrixMultiply => [opWord .atSign]
  | power => [opWord .doubleStar]

def UnaryOp.word : UnaryOp → Word
  | negate => opWord .minus
  | keep => opWord .plus
  | invert => opWord .tilde
  | not => keyWord .kwNot

namespace Expr

/-- The words of a tuple without parentheses. -/
def tupleWords : List (List Word) → List Word
  | [item] => item ++ [opWord .comma]
  | items => commaBetween items

/-- The words of a tuple as the index of a subscript. -/
def indexWords : List (List Word) → List Word
  | [] => [opWord .openParen, opWord .closeParen]
  | items => tupleWords items

def opening : ComprehensionKind → Operator
  | .list => .openBracket
  | .set | .dict => .openBrace
  | .generator => .openParen

def closing : ComprehensionKind → Operator
  | .list => .closeBracket
  | .set | .dict => .closeBrace
  | .generator => .closeParen

def parameterMark : ParameterKind → List Word
  | .variadic => [opWord .star]
  | .variadicKeywords => [opWord .doubleStar]
  | _ => []

mutual

/-- The words of the written form. -/
def words : Expr → List Word
  | name _ id => [(.name, id)]
  | constant _ value => [value.word]
  | member _ value attr => value.words ++ [opWord .dot, (.name, attr)]
  | subscript _ value (tuple _ elements) =>
    value.words ++ opWord .openBracket :: (indexWords (wordsList elements) ++ [opWord .closeBracket])
  | subscript _ value index =>
    value.words ++ opWord .openBracket :: (index.words ++ [opWord .closeBracket])
  | slice _ lower upper step =>
    wordsOption lower ++ opWord .colon :: (wordsOption upper ++ wordsStep step)
  | tuple _ elements => opWord .openParen :: (tupleWords (wordsList elements) ++ [opWord .closeParen])
  | list _ elements =>
    opWord .openBracket :: (commaBetween (wordsList elements) ++ [opWord .closeBracket])
  | set _ elements => opWord .openBrace :: (commaBetween (wordsList elements) ++ [opWord .closeBrace])
  | dict _ entries => opWord .openBrace :: (commaBetween (wordsEntries entries) ++ [opWord .closeBrace])
  | call _ callee arguments =>
    callee.words ++ opWord .openParen :: (commaBetween (wordsList arguments) ++ [opWord .closeParen])
  | keyword _ (some label) value => (.name, label) :: opWord .assign :: value.words
  | keyword _ none value => opWord .doubleStar :: value.words
  | starred _ value => opWord .star :: value.words
  | binary _ left op right => left.words ++ (op.words ++ right.words)
  | unary _ op operand => op.word :: operand.words
  | lambda _ parameters body =>
    keyWord .kwLambda :: (commaBetween (wordsParameters parameters) ++ opWord .colon :: body.words)
  | conditional _ test body orelse =>
    body.words ++ keyWord .kwIf :: (test.words ++ keyWord .kwElse :: orelse.words)
  | comprehension _ kind element none clauses =>
    opWord (opening kind) :: (element.words ++ (wordsClauses clauses ++ [opWord (closing kind)]))
  | comprehension _ kind element (some value) clauses =>
    opWord (opening kind) :: (element.words ++ opWord .colon ::
      (value.words ++ (wordsClauses clauses ++ [opWord (closing kind)])))
  | named _ target value =>
    opWord .openParen :: (target.words ++ opWord .walrus :: (value.words ++ [opWord .closeParen]))
  | await _ value => keyWord .kwAwait :: value.words
  | yield _ (some value) true =>
    opWord .openParen :: keyWord .kwYield :: keyWord .kwFrom :: (value.words ++ [opWord .closeParen])
  | yield _ (some value) false =>
    opWord .openParen :: keyWord .kwYield :: (value.words ++ [opWord .closeParen])
  | yield _ none _ => [opWord .openParen, keyWord .kwYield, opWord .closeParen]

def wordsOption : Option Expr → List Word
  | none => []
  | some e => e.words

def wordsStep : Option Expr → List Word
  | none => []
  | some e => opWord .colon :: e.words

def wordsList : List Expr → List (List Word)
  | [] => []
  | e :: es => e.words :: wordsList es

def wordsEntries : List Entry → List (List Word)
  | [] => []
  | .pair key value :: es => (key.words ++ opWord .colon :: value.words) :: wordsEntries es
  | .unpack value :: es => (opWord .doubleStar :: value.words) :: wordsEntries es

def wordsConditions : List Expr → List Word
  | [] => []
  | e :: es => keyWord .kwIf :: (e.words ++ wordsConditions es)

def wordsClauses : List Clause → List Word
  | [] => []
  | .mk target iter conditions isAsync :: cs =>
    (if isAsync then [keyWord .kwAsync] else []) ++ keyWord .kwFor :: (target.words ++ keyWord .kwIn ::
      (iter.words ++ (wordsConditions conditions ++ wordsClauses cs)))

def wordsParameters : List Parameter → List (List Word)
  | [] => []
  | .mk _ kind id _ none :: ps => (parameterMark kind ++ [(.name, id)]) :: wordsParameters ps
  | .mk _ kind id _ (some standard) :: ps =>
    (parameterMark kind ++ (.name, id) :: opWord .assign :: standard.words) :: wordsParameters ps

end

/-! ## Spelling -/

mutual

/-- Whether all names are names, all numbers are number literals, and all comprehensions have a loop. -/
def Spelled : Expr → Prop
  | name _ id => IsName id
  | constant _ (.number literal) => Lexeme.IsNumber literal.toList
  | constant _ _ => True
  | member _ value attr => value.Spelled ∧ IsName attr
  | subscript _ value index => value.Spelled ∧ index.Spelled
  | slice _ lower upper step => spelledOption lower ∧ spelledOption upper ∧ spelledOption step
  | tuple _ elements | list _ elements | set _ elements => spelledList elements
  | dict _ entries => spelledEntries entries
  | call _ callee arguments => callee.Spelled ∧ spelledList arguments
  | keyword _ label value => (∀ name ∈ label, IsName name) ∧ value.Spelled
  | starred _ value | await _ value | unary _ _ value => value.Spelled
  | binary _ left _ right => left.Spelled ∧ right.Spelled
  | lambda _ parameters body => spelledParameters parameters ∧ body.Spelled
  | conditional _ test body orelse => test.Spelled ∧ body.Spelled ∧ orelse.Spelled
  | comprehension _ _ element value clauses =>
    element.Spelled ∧ spelledOption value ∧ clauses ≠ [] ∧ spelledClauses clauses
  | named _ target value => target.Spelled ∧ value.Spelled
  | yield _ value _ => spelledOption value

def spelledOption : Option Expr → Prop
  | none => True
  | some e => e.Spelled

def spelledList : List Expr → Prop
  | [] => True
  | e :: es => e.Spelled ∧ spelledList es

def spelledEntries : List Entry → Prop
  | [] => True
  | .pair key value :: es => (key.Spelled ∧ value.Spelled) ∧ spelledEntries es
  | .unpack value :: es => value.Spelled ∧ spelledEntries es

def spelledClauses : List Clause → Prop
  | [] => True
  | .mk target iter conditions _ :: cs =>
    (target.Spelled ∧ iter.Spelled ∧ spelledList conditions) ∧ spelledClauses cs

def spelledParameters : List Parameter → Prop
  | [] => True
  | .mk _ _ id hint standard :: ps =>
    (IsName id ∧ spelledOption hint ∧ spelledOption standard) ∧ spelledParameters ps

end

/-! ## Binding -/

/-- The rank of the weakest operator that is open on the left side. -/
def head : Expr → Nat
  | binary _ left op _ => min op.binds.rank left.head
  | conditional _ _ body _ => min Power.conditional.rank body.head
  | _ => Power.trailer.rank

/-- The rank of the weakest operator that is open on the right side. -/
def tail : Expr → Nat
  | binary _ _ op right => min (Reading.rightLevel op).rank right.tail
  | unary _ op operand => min op.binds.rank operand.tail
  | await _ value => min Power.await.rank value.tail
  | starred _ value => min Power.comparison.rank value.tail
  | conditional _ _ _ orelse => min Power.named.rank orelse.tail
  | lambda _ _ body => min Power.named.rank body.tail
  | _ => Power.trailer.rank

/-- Whether the first word of the written form is of the kind. -/
def beginsWith (kind : TokenKind) (e : Expr) : Bool := e.words.head?.any (·.1 == kind)

def isNumber : Expr → Bool
  | constant _ (.number _) => true
  | _ => false

/-- Whether the parameters of a lambda are read with their kinds again: the marks that have no parameter
are not written. -/
def keepsKinds (kind : ParameterKind) : List Parameter → Bool
  | [] => true
  | .mk _ .variadic _ _ standard :: ps => standard.isNone && keepsKinds .keywordOnly ps
  | .mk _ .variadicKeywords _ _ standard :: ps => standard.isNone && keepsKinds kind ps
  | .mk _ k _ _ _ :: ps => k == kind && keepsKinds kind ps

mutual

/-- Whether all operands bind tightly enough to be written without parentheses, and nothing that the
written form leaves out is needed. -/
def isTight : Expr → Bool
  | name _ _ | constant _ _ => true
  | member _ value _ =>
    value.isTight && value.tail == Power.trailer.rank && !value.isNumber
  | subscript _ value (tuple _ elements) =>
    value.isTight && value.tail == Power.trailer.rank && tightIndices elements
  | subscript _ value (slice _ lower upper step) =>
    value.isTight && value.tail == Power.trailer.rank &&
      (tightOption lower && tightOption upper && tightOption step)
  | subscript _ value index => value.isTight && value.tail == Power.trailer.rank && index.isTight
  | slice _ _ _ _ | keyword _ _ _ => false
  | tuple _ elements | list _ elements => tightList elements
  | set _ elements => !elements.isEmpty && tightList elements
  | dict _ entries => tightEntries entries
  | call _ callee arguments =>
    callee.isTight && callee.tail == Power.trailer.rank && tightArguments arguments
  | starred _ value =>
    value.isTight && decide (Power.comparison.rank < value.head) && !value.beginsWith (.op .star)
  | binary _ left op right =>
    left.isTight && right.isTight && decide (op.binds.rank ≤ left.tail) &&
      decide ((Reading.rightLevel op).rank < right.head) &&
      !(op == .same && right.beginsWith (.word .kwNot))
  | unary _ op operand => operand.isTight && decide (op.binds.rank < operand.head)
  | await _ value => value.isTight && decide (Power.await.rank < value.head)
  | lambda _ parameters body =>
    keepsKinds .regular parameters && tightParameters parameters && body.isTight
  | conditional _ test body orelse =>
    body.isTight && decide (Power.conditional.rank ≤ body.tail) && test.isTight &&
      decide (Power.conditional.rank < test.head) && orelse.isTight
  | comprehension _ kind element none clauses =>
    kind != .dict && element.isTight && !clauses.isEmpty && tightClauses clauses
  | comprehension _ kind element (some value) clauses =>
    kind == .dict && element.isTight && value.isTight && !clauses.isEmpty && tightClauses clauses
  | named _ (name _ _) value => value.isTight
  | named _ _ _ => false
  | yield _ (some value) _ => value.isTight
  | yield _ none delegates => !delegates

def tightOption : Option Expr → Bool
  | none => true
  | some e => e.isTight

def tightList : List Expr → Bool
  | [] => true
  | e :: es => e.isTight && tightList es

/-- Among indices there may be slices. -/
def tightIndices : List Expr → Bool
  | [] => true
  | slice _ lower upper step :: es =>
    (tightOption lower && tightOption upper && tightOption step) && tightIndices es
  | e :: es => e.isTight && tightIndices es

/-- An argument that begins with a star is read up to an operator that binds weakly. -/
def tightArguments : List Expr → Bool
  | [] => true
  | keyword _ _ value :: es => value.isTight && tightArguments es
  | starred _ value :: es =>
    (value.isTight && decide (Power.comparison.rank < value.head) && !value.beginsWith (.op .star)) &&
      tightArguments es
  | e :: es => e.isTight && !e.beginsWith (.op .star) && tightArguments es

def tightEntries : List Entry → Bool
  | [] => true
  | .pair key value :: es => key.isTight && value.isTight && tightEntries es
  | .unpack value :: es =>
    value.isTight && decide (Power.comparison.rank < value.head) && tightEntries es

/-- Conditions of a loop, each of which another one may follow. -/
def tightConditions : List Expr → Bool
  | [] => true
  | e :: es =>
    e.isTight && decide (Power.conditional.rank < e.head) &&
      (es.isEmpty || decide (Power.conditional.rank ≤ e.tail)) && tightConditions es

def tightClauses : List Clause → Bool
  | [] => true
  | .mk target iter conditions _ :: cs =>
    target.isTight && decide (Power.comparison.rank < target.head) &&
      decide (Power.comparison.rank ≤ target.tail) &&
      (iter.isTight && decide (Power.conditional.rank < iter.head) &&
        (conditions.isEmpty || decide (Power.conditional.rank ≤ iter.tail))) &&
      tightConditions conditions && tightClauses cs

def tightParameters : List Parameter → Bool
  | [] => true
  | .mk _ _ _ hint standard :: ps => hint.isNone && tightOption standard && tightParameters ps

end

end Expr
end TypeWatch
