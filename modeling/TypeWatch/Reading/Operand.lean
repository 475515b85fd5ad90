import TypeWatch.Reading.Display
import TypeWatch.Reading.Parameter

/-! Operands: the expressions that begin with a token of their own, not with another expression. -/
namespace TypeWatch.Reading
set_option autoImplicit false

/-! ## Literals -/

/-- The constant of a string literal of a kind. -/
def stringConstant (kind : TokenKind) (text : String) : Constant :=
  match kind with
  | .bytes => .bytes text
  | .formatString => .formatString text
  | _ => .string text

/-- String literals side by side are one. It is a format string if one of them is, and else of the
kind of the first. -/
def moreStrings (kind : TokenKind) (text : String) (c : Cursor) : Moved (TokenKind × String) c :=
  if c.kind.isString then
    match c.next? with
    | none => .here (kind, text) c
    | some ⟨t, c1, h1⟩ =>
      let kind := if t.kind = .formatString then .formatString else kind
      let ⟨value, c2, h2⟩ := (moreStrings kind (text ++ t.text) c1).since h1
      .past value c2 h2
  else .here (kind, text) c
termination_by c.size

def strings (first : Token) (c : Cursor) : Moved Expr c :=
  let ⟨(kind, text), c1, h1⟩ := moreStrings first.kind first.text c
  ⟨.constant (c1.spanFrom first.span.start) (stringConstant kind text), c1, h1⟩

/-! ## Operands that begin with a word -/

/-- A lambda after its first word. -/
def lambda {n : Nat} (sub : Below n) (start : Position) (c : Cursor) (h : c.size < n) :
    Read Expr c := do
  let ⟨list, c1, h1⟩ ← parameters sub (.op .colon) false c h
  let ⟨_, c2, h2⟩ ← (c1.expect (.op .colon)).from h1
  let ⟨body, c3, h3⟩ ← (sub .named c2 (below_of_lt h2 h)).since h2
  return ⟨.lambda ⟨start, body.span.stop⟩ list body, c3, h3⟩

/-- What is yielded, after the first word. -/
def yielded {n : Nat} (sub : Below n) (start : Position) (c : Cursor) (h : c.size < n) :
    MayRead Expr c :=
  match c.accept? (.word .kwFrom) with
  | some ⟨_, c1, h1⟩ => do
    let ⟨value, c2, h2⟩ ← (sub .least c1 (below_of_lt h1 h)).since h1
    return .past (.yield (c2.spanFrom start) (some value) true) c2 h2
  | none =>
    if opensExpr c.kind then do
      let ⟨value, c1, h1⟩ ← exprList sub .least c h
      return .past (.yield (c1.spanFrom start) (some value) false) c1 h1
    else .ok (.here (.yield (c.spanFrom start) none false) c)

/-! ## Operands -/

/-- An operand whose first token is `t`, at the place after that token. -/
def operandAfter {n : Nat} (sub : Below n) (t : Token) (c : Cursor) (h : c.size < n) :
    MayRead Expr c :=
  let start := t.span.start
  match t.kind with
  | .name => .ok (.here (.name t.span t.text) c)
  | .number => .ok (.here (.constant t.span (.number t.text)) c)
  | .word .kwNone => .ok (.here (.constant t.span .noneWord) c)
  | .word .kwTrue => .ok (.here (.constant t.span .trueWord) c)
  | .word .kwFalse => .ok (.here (.constant t.span .falseWord) c)
  | .op .ellipsis => .ok (.here (.constant t.span .ellipsis) c)
  | .string | .formatString | .bytes => .ok (strings t c)
  | .op .openParen => (parenthesized sub start c h).moved
  | .op .openBracket => (listDisplay sub start c h).moved
  | .op .openBrace => (braceDisplay sub start c h).moved
  | .op .star => do
    let ⟨value, c1, h1⟩ ← sub .comparison c h
    return .past (.starred ⟨start, value.span.stop⟩ value) c1 h1
  | .word .kwAwait => do
    let ⟨value, c1, h1⟩ ← sub .await c h
    return .past (.await ⟨start, value.span.stop⟩ value) c1 h1
  | .word .kwLambda => (lambda sub start c h).moved
  | .word .kwYield => yielded sub start c h
  | kind =>
    match UnaryOp.ofToken? kind with
    | some op => do
      let ⟨operand, c1, h1⟩ ← sub op.binds c h
      return .past (.unary ⟨start, operand.span.stop⟩ op operand) c1 h1
    | none => .error ⟨.unexpected t.shown, start⟩

/-- An operand. -/
def operand {n : Nat} (sub : Below n) (c : Cursor) (h : c.size ≤ n) : Read Expr c :=
  match c.next? with
  | none => c.unexpected
  | some ⟨t, c1, h1⟩ => (operandAfter sub t c1 (below_upTo h1 h)).since h1

end TypeWatch.Reading
