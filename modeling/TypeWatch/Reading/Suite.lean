import TypeWatch.Reading.SimpleStmt

/-! Suites, and the statements that own one. -/
namespace TypeWatch.Reading
set_option autoImplicit false

/-- A reader of the statements of a line, or of the one statement with suites, at places with less
than `n` tokens ahead. -/
abbrev StmtsBelow (n : Nat) := ItemBelow (List Stmt) n

/-! ## Suites -/

/-- The statements of an indented suite, up to where its indentation ends. -/
def suiteStmts {n : Nat} (sub : StmtsBelow n) (c : Cursor) (h : c.size < n) :
    MayRead (List Stmt) c :=
  match c.kind with
  | .dedent | .endOfInput => .ok (.here [] c)
  | .indent => c.fail .unexpectedIndent
  | _ => do
    let ⟨ss, c1, h1⟩ ← sub c h
    let ⟨rest, c2, h2⟩ ← (suiteStmts sub c1 (below_of_lt h1 h)).since h1
    return .past (ss ++ rest) c2 h2
termination_by c.size

/-- The end of the indentation of a suite, which may also be the end of the stream. -/
def closeSuite (c : Cursor) : Moved Unit c :=
  match c.accept? .dedent with
  | some ⟨_, c1, h1⟩ => .past () c1 h1
  | none => .here () c

/-- A suite with the colon before it: the rest of the line, or an indented block. -/
def suite {n : Nat} (sub : StmtsBelow n) (c : Cursor) (h : c.size < n) : Read (List Stmt) c := do
  let ⟨_, c1, h1⟩ ← c.expect (.op .colon)
  match (c1.accept? .newline).since h1 with
  | none => (simpleLine c1).since h1
  | some ⟨_, c2, h2⟩ =>
    let ⟨_, c3, h3⟩ ← (c2.demand .indent .missingBlock).since h2
    let ⟨ss, c4, h4⟩ ← (suiteStmts sub c3 (below_of_lt h3 h)).since h3
    let ⟨_, c5, h5⟩ := (closeSuite c4).since h4
    return ⟨ss, c5, h5⟩

def suiteAfter {n : Nat} (sub : StmtsBelow n) (word : Keyword) (c : Cursor) (h : c.size < n) :
    MayRead (List Stmt) c :=
  match c.accept? (.word word) with
  | none => .ok (.here [] c)
  | some ⟨_, c1, h1⟩ => ((suite sub c1 (below_of_lt h1 h)).since h1).moved

/-! ## Branches and loops -/

/-- A branch after its first word. A further condition is a branch in place of the alternative. -/
def branch {n : Nat} (sub : StmtsBelow n) (start : Position) (c : Cursor) (h : c.size < n) :
    Read Stmt c := do
  let ⟨test, c1, h1⟩ ← single .least c
  let ⟨body, c2, h2⟩ ← (suite sub c1 (below_of_lt h1 h)).since h1
  match (c2.accept? (.word .kwElif)).since h2 with
  | some ⟨t, c3, h3⟩ =>
    let ⟨further, c4, h4⟩ ← (branch sub t.span.start c3 (below_of_lt h3 h)).since h3
    return ⟨.branch (c4.spanFrom start) test body [further], c4, h4⟩
  | none =>
    let ⟨orelse, c3, h3⟩ ← (suiteAfter sub .kwElse c2 (below_of_lt h2 h)).since h2
    return ⟨.branch (c3.spanFrom start) test body orelse, c3, h3⟩
termination_by c.size

def whileLoop {n : Nat} (sub : StmtsBelow n) (start : Position) (c : Cursor) (h : c.size < n) :
    Read Stmt c := do
  let ⟨test, c1, h1⟩ ← single .least c
  let ⟨body, c2, h2⟩ ← (suite sub c1 (below_of_lt h1 h)).since h1
  let ⟨orelse, c3, h3⟩ ← (suiteAfter sub .kwElse c2 (below_of_lt h2 h)).since h2
  return ⟨.whileLoop (c3.spanFrom start) test body orelse, c3, h3⟩

def forLoop {n : Nat} (sub : StmtsBelow n) (start : Position) (isAsync : Bool) (c : Cursor)
    (h : c.size < n) : Read Stmt c := do
  let ⟨target, c1, h1⟩ ← several .comparison c
  checkTarget target
  let ⟨_, c2, h2⟩ ← (c1.expect (.word .kwIn)).since h1
  let ⟨iter, c3, h3⟩ ← (several .least c2).since h2
  let ⟨body, c4, h4⟩ ← (suite sub c3 (below_of_lt h3 h)).since h3
  let ⟨orelse, c5, h5⟩ ← (suiteAfter sub .kwElse c4 (below_of_lt h4 h)).since h4
  return ⟨.forLoop (c5.spanFrom start) target iter body orelse isAsync, c5, h5⟩

/-! ## Exceptions -/

/-- The exceptions that a handler is for, and their name. -/
def caught (c : Cursor) : MayRead (Option Expr × Option String) c :=
  if c.kind = .op .colon then .ok (.here (none, none) c)
  else do
    let ⟨type, c1, h1⟩ ← several .named c
    let ⟨name, c2, h2⟩ ← (givenName c1).since h1
    return .past (some type, name) c2 h2

/-- The star of a handler for groups of exceptions, which may be absent. -/
def groupMark (c : Cursor) : Moved Unit c :=
  match c.accept? (.op .star) with
  | some ⟨_, c1, h1⟩ => .past () c1 h1
  | none => .here () c

def handlers {n : Nat} (sub : StmtsBelow n) (c : Cursor) (h : c.size < n) :
    MayRead (List Handler) c :=
  match c.accept? (.word .kwExcept) with
  | none => .ok (.here [] c)
  | some ⟨_, c1, h1⟩ => do
    let ⟨_, c2, h2⟩ := (groupMark c1).since h1
    let ⟨(type, name), c3, h3⟩ ← (caught c2).since h2
    let ⟨body, c4, h4⟩ ← (suite sub c3 (below_of_lt h3 h)).since h3
    let ⟨hs, c5, h5⟩ ← (handlers sub c4 (below_of_lt h4 h)).since h4
    return .past (.mk type name body :: hs) c5 h5
termination_by c.size

/-- A guarded suite after its first word. It has a handler or a suite that is always done. -/
def tryBlock {n : Nat} (sub : StmtsBelow n) (start : Position) (c : Cursor) (h : c.size < n) :
    Read Stmt c := do
  let ⟨body, c1, h1⟩ ← suite sub c h
  let ⟨hs, c2, h2⟩ ← (handlers sub c1 (below_of_lt h1 h)).since h1
  let ⟨orelse, c3, h3⟩ ← (suiteAfter sub .kwElse c2 (below_of_lt h2 h)).since h2
  let ⟨finalbody, c4, h4⟩ ← (suiteAfter sub .kwFinally c3 (below_of_lt h3 h)).since h3
  if hs.isEmpty && finalbody.isEmpty then c4.unexpected
  else return ⟨.tryBlock (c4.spanFrom start) body hs orelse finalbody, c4, h4⟩

/-! ## Contexts -/

/-- Whether the brackets that are open at some depth are closed within the line and a colon follows. -/
def closesBeforeColon : Nat → List Token → Bool
  | _, [] => false
  | depth, t :: ts =>
    match t.kind with
    | .newline | .endOfInput => false
    | .op o =>
      if o.opens then closesBeforeColon (depth + 1) ts
      else if o.closes then
        if depth ≤ 1 then (ts.head?.map Token.kind) = some (.op .colon)
        else closesBeforeColon (depth - 1) ts
      else closesBeforeColon depth ts
    | _ => closesBeforeColon depth ts

/-- Whether a parenthesis opens that holds all contexts of a statement. -/
def opensContexts (c : Cursor) : Bool := c.kind = .op .openParen && closesBeforeColon 0 c.rest

def withItem {n : Nat} : ItemBelow WithItem n :=
  fun c _ => do
    let ⟨context, c1, h1⟩ ← single .named c
    let ⟨target, c2, h2⟩ ← (singleAfter (.word .kwAs) .comparison c1).since h1
    target.forM checkTarget
    return ⟨⟨context, target⟩, c2, h2⟩

def withItems (c : Cursor) : Read (List WithItem) c :=
  if opensContexts c then do
    let ⟨_, c1, h1⟩ ← c.expect (.op .openParen)
    let ⟨items, c2, h2⟩ ← (someItems withItem (· = .op .closeParen) c1 c1.size_below).since h1
    let ⟨_, c3, h3⟩ ← (c2.expect (.op .closeParen)).since h2
    return ⟨items, c3, h3⟩
  else someItems withItem (· = .op .colon) c c.size_below

def withBlock {n : Nat} (sub : StmtsBelow n) (start : Position) (isAsync : Bool) (c : Cursor)
    (h : c.size < n) : Read Stmt c := do
  let ⟨items, c1, h1⟩ ← withItems c
  let ⟨body, c2, h2⟩ ← (suite sub c1 (below_of_lt h1 h)).since h1
  return ⟨.withBlock (c2.spanFrom start) items body isAsync, c2, h2⟩

/-! ## Definitions -/

def functionDef {n : Nat} (sub : StmtsBelow n) (start : Position) (decorators : List Expr)
    (isAsync : Bool) (c : Cursor) (h : c.size < n) : Read Stmt c := do
  let ⟨name, c1, h1⟩ ← c.expectName
  let ⟨_, c2, h2⟩ ← (c1.expect (.op .openParen)).since h1
  let ⟨list, c3, h3⟩ ←
    (parameters (exprBelow (c2.size + 1)) (.op .closeParen) true c2 c2.size_below).since h2
  let ⟨_, c4, h4⟩ ← (c3.expect (.op .closeParen)).since h3
  let ⟨returns, c5, h5⟩ ← (singleAfter (.op .arrow) .named c4).since h4
  let ⟨body, c6, h6⟩ ← (suite sub c5 (below_of_lt h5 h)).since h5
  return ⟨.functionDef (c6.spanFrom start) name decorators list returns body isAsync, c6, h6⟩

/-- The bases of a class, whose parentheses may be absent. -/
def bases (c : Cursor) : MayRead (List Expr) c :=
  if c.kind = .op .openParen then
    (arguments (exprBelow (c.size + 1)) c c.size_below).moved
  else .ok (.here [] c)

def classDef {n : Nat} (sub : StmtsBelow n) (start : Position) (decorators : List Expr) (c : Cursor)
    (h : c.size < n) : Read Stmt c := do
  let ⟨name, c1, h1⟩ ← c.expectName
  let ⟨parents, c2, h2⟩ ← (bases c1).since h1
  let ⟨body, c3, h3⟩ ← (suite sub c2 (below_of_lt h2 h)).since h2
  return ⟨.classDef (c3.spanFrom start) name decorators parents body, c3, h3⟩

/-- The decorators at a place, each on a line of its own. -/
def decoratorLines (c : Cursor) : MayRead (List Expr) c :=
  match c.accept? (.op .atSign) with
  | none => .ok (.here [] c)
  | some ⟨_, c1, h1⟩ => do
    let ⟨e, c2, h2⟩ ← (single .named c1).since h1
    let ⟨_, c3, h3⟩ ← (c2.expect .newline).since h2
    let ⟨es, c4, h4⟩ ← (decoratorLines c3).since h3
    return .past (e :: es) c4 h4
termination_by c.size

def decorated {n : Nat} (sub : StmtsBelow n) (decorators : List Expr) (c : Cursor) (h : c.size ≤ n) :
    Read Stmt c :=
  match c.next? with
  | none => c.unexpected
  | some ⟨t, c1, h1⟩ =>
    match t.kind with
    | .word .kwDef =>
      (functionDef sub t.span.start decorators false c1 (below_upTo h1 h)).since h1
    | .word .kwClass => (classDef sub t.span.start decorators c1 (below_upTo h1 h)).since h1
    | .word .kwAsync => do
      let ⟨_, c2, h2⟩ ← (c1.expect (.word .kwDef)).since h1
      (functionDef sub t.span.start decorators true c2 (below_upTo h2 h)).since h2
    | _ => c.unexpected

def asyncStmt {n : Nat} (sub : StmtsBelow n) (start : Position) (c : Cursor) (h : c.size < n) :
    Read Stmt c :=
  match c.next? with
  | none => c.unexpected
  | some ⟨t, c1, h1⟩ =>
    match t.kind with
    | .word .kwDef => (functionDef sub start [] true c1 (below_of_lt h1 h)).since h1
    | .word .kwFor => (forLoop sub start true c1 (below_of_lt h1 h)).since h1
    | .word .kwWith => (withBlock sub start true c1 (below_of_lt h1 h)).since h1
    | _ => c.unexpected

/-! ## Statements with suites -/

/-- The statement with suites whose first token is `t`, at the place after it, or none if no such
statement begins with the token. -/
def compound? {n : Nat} (sub : StmtsBelow n) (t : Token) (c : Cursor) (h : c.size < n) :
    Option (Read Stmt c) :=
  let start := t.span.start
  match t.kind with
  | .word .kwIf => some (branch sub start c h)
  | .word .kwWhile => some (whileLoop sub start c h)
  | .word .kwFor => some (forLoop sub start false c h)
  | .word .kwTry => some (tryBlock sub start c h)
  | .word .kwWith => some (withBlock sub start false c h)
  | .word .kwDef => some (functionDef sub start [] false c h)
  | .word .kwClass => some (classDef sub start [] c h)
  | .word .kwAsync => some (asyncStmt sub start c h)
  | _ => none

/-- A function or class after its decorators, of which there is at least one. -/
def decoratedStmt {n : Nat} (sub : StmtsBelow n) (c : Cursor) (h : c.size ≤ n) : Read Stmt c := do
  let ⟨decorators, c1, h1⟩ ← decoratorLines c
  (decorated sub decorators c1 (upTo_of_le h1 h)).from h1

/-- The statements of a line, or the one statement with suites, at a place. -/
def stmtsWith {n : Nat} (sub : StmtsBelow n) (c : Cursor) (h : c.size ≤ n) : Read (List Stmt) c :=
  match c.next? with
  | none => simpleLine c
  | some ⟨t, c1, h1⟩ =>
    if t.kind = .op .atSign then do
      let ⟨s, c2, h2⟩ ← decoratedStmt sub c h
      return ⟨[s], c2, h2⟩
    else match compound? sub t c1 (below_upTo h1 h) with
      | some read => do
        let ⟨s, c2, h2⟩ ← read.since h1
        return ⟨[s], c2, h2⟩
      | none => simpleLine c

def stmts (c : Cursor) : Read (List Stmt) c :=
  stmtsWith (n := c.size) (fun c' _ => stmts c') c c.size_upTo
termination_by c.size

/-! ## Modules -/

/-- The statements of a module, up to the end of the stream. -/
def moduleStmts (c : Cursor) : MayRead (List Stmt) c :=
  match c.kind with
  | .endOfInput => .ok (.here [] c)
  | .indent => c.fail .unexpectedIndent
  | .newline =>
    match c.next? with
    | none => .ok (.here [] c)
    | some ⟨_, c1, h1⟩ => ((moduleStmts c1).since h1).moved
  | _ => do
    let ⟨ss, c1, h1⟩ ← stmts c
    let ⟨rest, c2, h2⟩ ← (moduleStmts c1).since h1
    return .past (ss ++ rest) c2 h2
termination_by c.size

end TypeWatch.Reading

namespace TypeWatch

namespace Module

def ofTokens (tokens : List Token) : Except SyntaxError Module := do
  let ⟨body, c, _⟩ ← Reading.moduleStmts (Reading.Cursor.ofTokens tokens)
  return ⟨⟨.first, c.lastEnd⟩, body⟩

def ofText (text : String) : Except SyntaxError Module := do ofTokens (← tokenize text)

end Module
end TypeWatch
