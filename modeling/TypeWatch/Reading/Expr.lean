import TypeWatch.Reading.Operand
import TypeWatch.Reading.Trailer
import TypeWatch.Syntax.Written
import TypeWatch.Text.Basic
import TypeWatch.Token.Layout

/-! Expressions: an operand and the operators after it. An operator belongs to the expression that is
being read if it binds more tightly than the level of that expression; its right operand is read at
the level of the operator, so that operators of one level group to the left. -/
namespace TypeWatch.Reading
set_option autoImplicit false

/-! ## Operators after an expression -/

/-- How tightly a token binds as an operator after an expression. -/
def infixLevel : TokenKind → Power
  | .op .walrus => .named
  | .word .kwIf => .conditional
  | .word .kwIs | .word .kwNot => .comparison
  | .op .openParen | .op .openBracket | .op .dot => .trailer
  | kind => ((BinaryOp.ofToken? kind).map BinaryOp.binds).getD .least

/-- The level of a right operand. A power groups to the right and takes a sign before its right
operand. -/
def rightLevel (op : BinaryOp) : Power := if op = .power then .sign else op.binds

/-- An operation whose operator has been read. -/
def binary {n : Nat} (sub : Below n) (left : Expr) (op : BinaryOp) (c : Cursor) (h : c.size < n) :
    Read Expr c := do
  let ⟨right, c1, h1⟩ ← sub (rightLevel op) c h
  return ⟨.binary ⟨left.span.start, right.span.stop⟩ left op right, c1, h1⟩

def invalidTarget {α : Type} (target : Expr) : Except SyntaxError α :=
  .error ⟨.invalidTarget target.written, target.span.start⟩

def named {n : Nat} (sub : Below n) (left : Expr) (c : Cursor) (h : c.size < n) : Read Expr c :=
  match left with
  | .name _ _ => do
    let ⟨value, c1, h1⟩ ← sub .named c h
    return ⟨.named ⟨left.span.start, value.span.stop⟩ left value, c1, h1⟩
  | _ => invalidTarget left

def conditional {n : Nat} (sub : Below n) (body : Expr) (c : Cursor) (h : c.size < n) :
    Read Expr c := do
  let ⟨test, c1, h1⟩ ← sub .conditional c h
  let ⟨_, c2, h2⟩ ← (c1.expect (.word .kwElse)).since h1
  let ⟨orelse, c3, h3⟩ ← (sub .named c2 (below_of_lt h2 h)).since h2
  return ⟨.conditional ⟨body.span.start, orelse.span.stop⟩ test body orelse, c3, h3⟩

def identity {n : Nat} (sub : Below n) (left : Expr) (c : Cursor) (h : c.size < n) : Read Expr c :=
  match c.accept? (.word .kwNot) with
  | some ⟨_, c1, h1⟩ => (binary sub left .notSame c1 (below_of_lt h1 h)).since h1
  | none => binary sub left .same c h

def absence {n : Nat} (sub : Below n) (left : Expr) (c : Cursor) (h : c.size < n) : Read Expr c := do
  let fault := .unexpectedFor c.token.text "expected `in` after `not`"
  let ⟨_, c1, h1⟩ ← c.demand (.word .kwIn) fault
  (binary sub left .notIn c1 (below_of_lt h1 h)).since h1

/-- An expression that goes on after `left` with the operator `t`, at the place after that token. -/
def extendAfter {n : Nat} (sub : Below n) (left : Expr) (t : Token) (c : Cursor) (h : c.size < n) :
    Read Expr c :=
  match t.kind with
  | .op .walrus => named sub left c h
  | .word .kwIf => conditional sub left c h
  | .word .kwIs => identity sub left c h
  | .word .kwNot => absence sub left c h
  | .op .dot => do
    let ⟨attr, c1, h1⟩ ← c.expectName
    return ⟨.member (c1.spanFrom left.span.start) left attr, c1, h1⟩
  | .op .openBracket => do
    let ⟨key, c1, h1⟩ ← indices sub c h
    let ⟨_, c2, h2⟩ ← (c1.expect (.op .closeBracket)).since h1
    return ⟨.subscript (c2.spanFrom left.span.start) left key, c2, h2⟩
  | .op .openParen => do
    let ⟨items, c1, h1⟩ ← anyItems (argument sub) (.op .closeParen) c h
    let ⟨_, c2, h2⟩ ← (c1.expect (.op .closeParen)).from h1
    return ⟨.call (c2.spanFrom left.span.start) left items, c2, h2⟩
  | kind =>
    match BinaryOp.ofToken? kind with
    | some op => binary sub left op c h
    | none => .error ⟨.unexpected t.shown, t.span.start⟩

/-- The expression that `left` and the operators after it make at a level. -/
def extend {n : Nat} (sub : Below n) (level : Power) (left : Expr) (c : Cursor) (h : c.size < n) :
    MayRead Expr c :=
  if level < infixLevel c.kind then
    match c.next? with
    | none => .ok (.here left c)
    | some ⟨t, c1, h1⟩ => do
      let ⟨longer, c2, h2⟩ ← (extendAfter sub left t c1 (below_of_lt h1 h)).since h1
      let ⟨e, c3, h3⟩ ← (extend sub level longer c2 (below_of_lt h2 h)).since h2
      return .past e c3 h3
  else .ok (.here left c)
termination_by c.size

/-! ## Expressions -/

/-- The expression at a place, up to the first operator that does not bind more tightly than the
level. -/
def expr (level : Power) (c : Cursor) : Read Expr c := do
  let ⟨left, c1, h1⟩ ← operand (n := c.size) (fun l c' _ => expr l c') c c.size_upTo
  (extend (n := c.size) (fun l c' _ => expr l c') level left c1 h1).since h1
termination_by c.size

def exprBelow (n : Nat) : Below n := fun level c _ => expr level c

end TypeWatch.Reading

namespace TypeWatch

namespace Expr

/-- The expression that some tokens are, and nothing else but line ends. -/
def ofTokens (tokens : List Token) : Except SyntaxError Expr := do
  let c := Reading.Cursor.ofTokens tokens
  let ⟨e, c1, _⟩ ← Reading.exprList (Reading.exprBelow (c.size + 1)) .least c c.size_below
  let c2 := c1.skipNewlines
  if c2.rest.isEmpty then return e else c2.unexpected

/-- The expression that a text is, blanks around it aside. -/
def ofText (text : String) : Except SyntaxError Expr := do
  ofTokens (← tokenize (Text.trimmed text))

end Expr
end TypeWatch
