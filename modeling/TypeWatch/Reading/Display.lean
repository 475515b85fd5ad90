import TypeWatch.Reading.Comprehension

/-! Expressions in brackets: groups, tuples, lists, sets, dictionaries and comprehensions. Every reader
here begins after the opening bracket, and `start` is where the bracket stands. -/
namespace TypeWatch.Reading
set_option autoImplicit false

/-! ## What follows the first element -/

/-- After the first element of a display come loops or more elements. -/
inductive Filling where
  | loops (clauses : List Clause)
  | alone
  | elements (others : List Expr)

/-- The rest of a display, with its closing bracket. -/
def filling {n : Nat} (sub : Below n) (closing : TokenKind) (c : Cursor) (h : c.size < n) :
    Read Filling c := do
  if opensClause c then
    let ⟨loops, c1, h1⟩ ← clauses sub c h
    let ⟨_, c2, h2⟩ ← (c1.expect closing).from h1
    return ⟨.loops loops, c2, h2⟩
  else if c.kind = .op .comma then
    let ⟨others, c1, h1⟩ ← followers (sub .least) (· = closing) c h
    let ⟨_, c2, h2⟩ ← (c1.expect closing).from h1
    return ⟨.elements others, c2, h2⟩
  else
    let ⟨_, c1, h1⟩ ← c.expect closing
    return ⟨.alone, c1, h1⟩

/-! ## Parentheses and brackets -/

/-- A group is the expression in it, with the place that it has without the parentheses. -/
def parenthesized {n : Nat} (sub : Below n) (start : Position) (c : Cursor) (h : c.size < n) :
    Read Expr c :=
  match c.accept? (.op .closeParen) with
  | some ⟨_, c1, h1⟩ => .ok ⟨.tuple (c1.spanFrom start) [], c1, h1⟩
  | none => do
    let ⟨first, c1, h1⟩ ← sub .least c h
    let ⟨rest, c2, h2⟩ ← (filling sub (.op .closeParen) c1 (below_of_lt h1 h)).since h1
    let span := c2.spanFrom start
    match rest with
    | .loops loops => return ⟨.comprehension span .generator first none loops, c2, h2⟩
    | .alone => return ⟨first, c2, h2⟩
    | .elements others => return ⟨.tuple span (first :: others), c2, h2⟩

def listDisplay {n : Nat} (sub : Below n) (start : Position) (c : Cursor) (h : c.size < n) :
    Read Expr c :=
  match c.accept? (.op .closeBracket) with
  | some ⟨_, c1, h1⟩ => .ok ⟨.list (c1.spanFrom start) [], c1, h1⟩
  | none => do
    let ⟨first, c1, h1⟩ ← sub .least c h
    let ⟨rest, c2, h2⟩ ← (filling sub (.op .closeBracket) c1 (below_of_lt h1 h)).since h1
    let span := c2.spanFrom start
    match rest with
    | .loops loops => return ⟨.comprehension span .list first none loops, c2, h2⟩
    | .alone => return ⟨.list span [first], c2, h2⟩
    | .elements others => return ⟨.list span (first :: others), c2, h2⟩

/-! ## Braces -/

def entry {n : Nat} (sub : Below n) : ItemBelow Entry n :=
  fun c h =>
    match c.accept? (.op .doubleStar) with
    | some ⟨_, c1, h1⟩ => do
      let ⟨value, c2, h2⟩ ← (sub .comparison c1 (below_of_lt h1 h)).since h1
      return ⟨.unpack value, c2, h2⟩
    | none => do
      let ⟨key, c1, h1⟩ ← sub .least c h
      let ⟨_, c2, h2⟩ ← (c1.expect (.op .colon)).since h1
      let ⟨value, c3, h3⟩ ← (sub .least c2 (below_of_lt h2 h)).since h2
      return ⟨.pair key value, c3, h3⟩

def dictRest {n : Nat} (sub : Below n) (start : Position) (first : Entry) (c : Cursor)
    (h : c.size < n) : Read Expr c := do
  let ⟨others, c1, h1⟩ ← followers (entry sub) (· = .op .closeBrace) c h
  let ⟨_, c2, h2⟩ ← (c1.expect (.op .closeBrace)).from h1
  return ⟨.dict (c2.spanFrom start) (first :: others), c2, h2⟩

def dictAfterKey {n : Nat} (sub : Below n) (start : Position) (key : Expr) (c : Cursor)
    (h : c.size < n) : Read Expr c := do
  let ⟨value, c1, h1⟩ ← sub .least c h
  if opensClause c1 then
    let ⟨loops, c2, h2⟩ ← (clauses sub c1 (below_of_lt h1 h)).since h1
    let ⟨_, c3, h3⟩ ← (c2.expect (.op .closeBrace)).since h2
    return ⟨.comprehension (c3.spanFrom start) .dict key (some value) loops, c3, h3⟩
  else (dictRest sub start (.pair key value) c1 (below_of_lt h1 h)).since h1

def braceDisplay {n : Nat} (sub : Below n) (start : Position) (c : Cursor) (h : c.size < n) :
    Read Expr c :=
  match c.accept? (.op .closeBrace) with
  | some ⟨_, c1, h1⟩ => .ok ⟨.dict (c1.spanFrom start) [], c1, h1⟩
  | none =>
  match c.accept? (.op .doubleStar) with
  | some ⟨_, c1, h1⟩ => do
    let ⟨value, c2, h2⟩ ← (sub .comparison c1 (below_of_lt h1 h)).since h1
    (dictRest sub start (.unpack value) c2 (below_of_lt h2 h)).since h2
  | none => do
    let ⟨first, c1, h1⟩ ← sub .least c h
    match (c1.accept? (.op .colon)).since h1 with
    | some ⟨_, c2, h2⟩ => (dictAfterKey sub start first c2 (below_of_lt h2 h)).since h2
    | none =>
      let ⟨rest, c2, h2⟩ ← (filling sub (.op .closeBrace) c1 (below_of_lt h1 h)).since h1
      let span := c2.spanFrom start
      match rest with
      | .loops loops => return ⟨.comprehension span .set first none loops, c2, h2⟩
      | .alone => return ⟨.set span [first], c2, h2⟩
      | .elements others => return ⟨.set span (first :: others), c2, h2⟩

end TypeWatch.Reading
