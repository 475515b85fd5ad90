import TypeWatch.Reading.Sequence

/-! Parameter lists. A slash makes the parameters before it positional only, a star or a parameter
with one makes those after it keyword only. -/
namespace TypeWatch.Reading
set_option autoImplicit false

/-! ## Entries of a list -/

/-- What stands between two commas of a parameter list. -/
inductive ParameterItem where
  | slash
  | star
  | plain (span : Span) (name : String) (hint standard : Option Expr)
  | variadic (span : Span) (name : String) (hint : Option Expr)
  | variadicKeywords (span : Span) (name : String) (hint : Option Expr)

def positionalOnly : Parameter → Parameter
  | .mk span .regular name hint standard =>
    .mk span .positionalOnly name hint standard
  | p => p

/-- The parameters of a list, given those before it and the kind of a parameter without stars. -/
def parametersOf (kind : ParameterKind) (before : List Parameter) :
    List ParameterItem → List Parameter
  | [] => before
  | .slash :: items => parametersOf kind (before.map positionalOnly) items
  | .star :: items => parametersOf .keywordOnly before items
  | .plain span name hint standard :: items =>
    parametersOf kind (before ++ [.mk span kind name hint standard]) items
  | .variadic span name hint :: items =>
    parametersOf .keywordOnly (before ++ [.mk span .variadic name hint none]) items
  | .variadicKeywords span name hint :: items =>
    parametersOf kind (before ++ [.mk span .variadicKeywords name hint none]) items

/-! ## Reading -/

/-- The annotation of a parameter, where parameters may have one. -/
def hintAfter {n : Nat} (sub : Below n) (annotated : Bool) (c : Cursor) (h : c.size < n) :
    MayRead (Option Expr) c :=
  if annotated then exprAfter sub (.op .colon) .named c h else .ok (.here none c)

def parameterItem {n : Nat} (sub : Below n) (annotated : Bool) : ItemBelow ParameterItem n :=
  fun c h =>
    match c.accept? (.op .slash) with
    | some ⟨_, c1, h1⟩ => .ok ⟨.slash, c1, h1⟩
    | none =>
    match c.accept? (.op .star) with
    | some ⟨_, c1, h1⟩ =>
      match (c1.accept? .name).since h1 with
      | none => .ok ⟨.star, c1, h1⟩
      | some ⟨t, c2, h2⟩ => do
        let ⟨hint, c3, h3⟩ ← (hintAfter sub annotated c2 (below_of_lt h2 h)).since h2
        return ⟨.variadic (c3.spanFrom c.position) t.text hint, c3, h3⟩
    | none =>
    match c.accept? (.op .doubleStar) with
    | some ⟨_, c1, h1⟩ => do
      let ⟨name, c2, h2⟩ ← c1.expectName.since h1
      let ⟨hint, c3, h3⟩ ← (hintAfter sub annotated c2 (below_of_lt h2 h)).since h2
      return ⟨.variadicKeywords (c3.spanFrom c.position) name hint, c3, h3⟩
    | none => do
      let ⟨name, c1, h1⟩ ← c.expectName
      let ⟨hint, c2, h2⟩ ← (hintAfter sub annotated c1 (below_of_lt h1 h)).since h1
      let ⟨standard, c3, h3⟩ ← (exprAfter sub (.op .assign) .named c2 (below_of_lt h2 h)).since h2
      return ⟨.plain (c3.spanFrom c.position) name hint standard, c3, h3⟩

/-- The parameters before the token that closes their list, which is not read. -/
def parameters {n : Nat} (sub : Below n) (closing : TokenKind) (annotated : Bool) (c : Cursor)
    (h : c.size < n) : MayRead (List Parameter) c := do
  let ⟨items, c1, h1⟩ ← anyItems (parameterItem sub annotated) closing c h
  return ⟨parametersOf .regular [] items, c1, h1⟩

end TypeWatch.Reading
