import TypeWatch.Reading.Cursor
import TypeWatch.Syntax.Expr

/-! Readers of expressions, and lists of things between commas. -/
namespace TypeWatch.Reading
set_option autoImplicit false

/-- A reader of the expressions at places with less than `n` tokens ahead. It reads as far as
operators bind more tightly than the given level. -/
abbrev Below (n : Nat) := (level : Power) → (c : Cursor) → c.size < n → Read Expr c

/-- A reader of items at places with less than `n` tokens ahead. -/
abbrev ItemBelow (α : Type) (n : Nat) := (c : Cursor) → c.size < n → Read α c

/-- Whether an expression can begin with a token. -/
def opensExpr : TokenKind → Bool
  | .number | .string | .formatString | .bytes | .name => true
  | .op o =>
    match o with
    | .ellipsis | .minus | .plus | .tilde | .star | .openParen | .openBracket | .openBrace => true
    | _ => false
  | .word k =>
    match k with
    | .kwNone | .kwTrue | .kwFalse | .kwNot | .kwAwait | .kwLambda | .kwYield => true
    | _ => false
  | _ => false

/-! ## Lists -/

/-- The items that follow an item, each after a comma. After a comma the list may end, if it ends
where `ends` says. -/
def followers {α : Type} {n : Nat} (item : ItemBelow α n) (ends : TokenKind → Bool) (c : Cursor)
    (h : c.size < n) : MayRead (List α) c :=
  match c.accept? (.op .comma) with
  | none => .ok (.here [] c)
  | some ⟨_, c1, h1⟩ =>
    if ends c1.kind then .ok (.past [] c1 h1)
    else do
      let ⟨x, c2, h2⟩ ← (item c1 (below_of_lt h1 h)).since h1
      let ⟨xs, c3, h3⟩ ← (followers item ends c2 (below_of_lt h2 h)).since h2
      return .past (x :: xs) c3 h3
termination_by c.size

def someItems {α : Type} {n : Nat} (item : ItemBelow α n) (ends : TokenKind → Bool) (c : Cursor)
    (h : c.size < n) : Read (List α) c := do
  let ⟨x, c1, h1⟩ ← item c h
  let ⟨xs, c2, h2⟩ ← (followers item ends c1 (below_of_lt h1 h)).since h1
  return ⟨x :: xs, c2, h2⟩

def anyItems {α : Type} {n : Nat} (item : ItemBelow α n) (closing : TokenKind) (c : Cursor)
    (h : c.size < n) : MayRead (List α) c :=
  if c.kind = closing then .ok (.here [] c) else (someItems item (· = closing) c h).moved

/-! ## Expressions -/

/-- An expression, or a tuple of expressions between commas. -/
def exprList {n : Nat} (sub : Below n) (level : Power) (c : Cursor) (h : c.size < n) :
    Read Expr c := do
  let ⟨first, c1, h1⟩ ← sub level c h
  if c1.kind = .op .comma then
    let ⟨others, c2, h2⟩ ←
      (followers (sub level) (fun k => !opensExpr k) c1 (below_of_lt h1 h)).since h1
    return ⟨.tuple (c2.spanFrom first.span.start) (first :: others), c2, h2⟩
  else return ⟨first, c1, h1⟩

/-- An expression, unless a token stands at its place that cannot begin one. -/
def exprUnless {n : Nat} (sub : Below n) (ends : TokenKind → Bool) (c : Cursor) (h : c.size < n) :
    MayRead (Option Expr) c :=
  if ends c.kind then .ok (.here none c)
  else do
    let ⟨e, c1, h1⟩ ← sub .least c h
    return .past (some e) c1 h1

/-- An expression after a token that announces it. -/
def exprAfter {n : Nat} (sub : Below n) (mark : TokenKind) (level : Power) (c : Cursor)
    (h : c.size < n) : MayRead (Option Expr) c :=
  match c.accept? mark with
  | none => .ok (.here none c)
  | some ⟨_, c1, h1⟩ => do
    let ⟨e, c2, h2⟩ ← (sub level c1 (below_of_lt h1 h)).since h1
    return .past (some e) c2 h2

end TypeWatch.Reading
