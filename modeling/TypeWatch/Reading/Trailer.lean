import TypeWatch.Reading.Comprehension

/-! What follows an expression without a blank: arguments, indices and attributes. -/
namespace TypeWatch.Reading
set_option autoImplicit false

/-! ## Arguments -/

/-- An argument that is an expression, or a generator that lacks parentheses of its own. -/
def plainArgument {n : Nat} (sub : Below n) : ItemBelow Expr n :=
  fun c h => do
    let ⟨e, c1, h1⟩ ← sub .least c h
    if opensClause c1 then
      let ⟨loops, c2, h2⟩ ← (clauses sub c1 (below_of_lt h1 h)).since h1
      return ⟨.comprehension (c2.spanFrom c.position) .generator e none loops, c2, h2⟩
    else return ⟨e, c1, h1⟩

/-- The name of an argument and the sign after it, if they begin the argument. -/
def argumentName? (c : Cursor) : TryRead String c :=
  match c.accept? .name with
  | none => none
  | some ⟨t, c1, h1⟩ =>
    match (c1.accept? (.op .assign)).since h1 with
    | none => none
    | some ⟨_, c2, h2⟩ => some ⟨t.text, c2, h2⟩

def argument {n : Nat} (sub : Below n) : ItemBelow Expr n :=
  fun c h =>
    match c.accept? (.op .star) with
    | some ⟨t, c1, h1⟩ => do
      let ⟨value, c2, h2⟩ ← (sub .comparison c1 (below_of_lt h1 h)).since h1
      return ⟨.starred ⟨t.span.start, value.span.stop⟩ value, c2, h2⟩
    | none =>
    match c.accept? (.op .doubleStar) with
    | some ⟨_, c1, h1⟩ => do
      let ⟨value, c2, h2⟩ ← (sub .named c1 (below_of_lt h1 h)).since h1
      return ⟨.keyword (c2.spanFrom c.position) none value, c2, h2⟩
    | none =>
    match argumentName? c with
    | some ⟨name, c1, h1⟩ => do
      let ⟨value, c2, h2⟩ ← (sub .named c1 (below_of_lt h1 h)).since h1
      return ⟨.keyword (c2.spanFrom c.position) (some name) value, c2, h2⟩
    | none => plainArgument sub c h

/-- Arguments, with the parentheses around them. -/
def arguments {n : Nat} (sub : Below n) (c : Cursor) (h : c.size < n) : Read (List Expr) c := do
  let ⟨_, c1, h1⟩ ← c.expect (.op .openParen)
  let ⟨items, c2, h2⟩ ←
    (anyItems (argument sub) (.op .closeParen) c1 (below_of_lt h1 h)).since h1
  let ⟨_, c3, h3⟩ ← (c2.expect (.op .closeParen)).since h2
  return ⟨items, c3, h3⟩

/-! ## Indices -/

/-- Whether a part of a slice is left out before a token. -/
def endsSlicePart : TokenKind → Bool
  | .op .colon | .op .comma | .op .closeBracket => true
  | _ => false

def sliceRest {n : Nat} (sub : Below n) (start : Position) (lower : Option Expr) (c : Cursor)
    (h : c.size < n) : Read Expr c := do
  let ⟨_, c1, h1⟩ ← c.expect (.op .colon)
  let ⟨upper, c2, h2⟩ ← (exprUnless sub endsSlicePart c1 (below_of_lt h1 h)).since h1
  match (c2.accept? (.op .colon)).since h2 with
  | none => return ⟨.slice (c2.spanFrom start) lower upper none, c2, h2⟩
  | some ⟨_, c3, h3⟩ =>
    let ⟨step, c4, h4⟩ ← (exprUnless sub endsSlicePart c3 (below_of_lt h3 h)).since h3
    return ⟨.slice (c4.spanFrom start) lower upper step, c4, h4⟩

/-- An index: an expression or a slice. -/
def index {n : Nat} (sub : Below n) : ItemBelow Expr n :=
  fun c h =>
    if c.kind = .op .colon then sliceRest sub c.position none c h
    else do
      let ⟨lower, c1, h1⟩ ← sub .least c h
      if c1.kind = .op .colon then
        (sliceRest sub c.position (some lower) c1 (below_of_lt h1 h)).since h1
      else return ⟨lower, c1, h1⟩

/-- Several indices make a tuple. -/
def indices {n : Nat} (sub : Below n) (c : Cursor) (h : c.size < n) : Read Expr c := do
  let ⟨first, c1, h1⟩ ← index sub c h
  if c1.kind = .op .comma then
    let ⟨others, c2, h2⟩ ←
      (followers (index sub) (· = .op .closeBracket) c1 (below_of_lt h1 h)).since h1
    return ⟨.tuple (c2.spanFrom first.span.start) (first :: others), c2, h2⟩
  else return ⟨first, c1, h1⟩

end TypeWatch.Reading
