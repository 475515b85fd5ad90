import TypeWatch.Reading.Expr
import TypeWatch.Reading.Import
import TypeWatch.Syntax.Expr

/-! Statements that fit in one line, and lines of them. -/
namespace TypeWatch.Reading
set_option autoImplicit false

/-! ## Expressions and targets -/

def single (level : Power) (c : Cursor) : Read Expr c := expr level c

def several (level : Power) (c : Cursor) : Read Expr c :=
  exprList (exprBelow (c.size + 1)) level c c.size_below

/-- An expression after a token that announces it. -/
def singleAfter (mark : TokenKind) (level : Power) (c : Cursor) : MayRead (Option Expr) c :=
  exprAfter (exprBelow (c.size + 1)) mark level c c.size_below

/-- Expressions between commas after a token that announces them. -/
def severalAfter (mark : TokenKind) (c : Cursor) : MayRead (Option Expr) c :=
  match c.accept? mark with
  | none => .ok (.here none c)
  | some ⟨_, c1, h1⟩ => do
    let ⟨e, c2, h2⟩ ← (several .least c1).since h1
    return .past (some e) c2 h2

/-- Allows an expression that values can be assigned to. -/
def checkTarget (e : Expr) : Except SyntaxError Unit :=
  match e.nonTarget? with
  | none => .ok ()
  | some part => invalidTarget part

/-- Allows an expression that one value can be assigned to. -/
def checkSingleTarget (e : Expr) : Except SyntaxError Unit :=
  if e.isSingleTarget then .ok () else invalidTarget e

/-! ## Assignments -/

/-- What follows each of some signs of assignment. -/
def assigned (c : Cursor) : MayRead (List Expr) c :=
  match c.accept? (.op .assign) with
  | none => .ok (.here [] c)
  | some ⟨_, c1, h1⟩ => do
    let ⟨e, c2, h2⟩ ← (several .least c1).since h1
    let ⟨es, c3, h3⟩ ← (assigned c2).since h2
    return .past (e :: es) c3 h3
termination_by c.size

def annotatedTarget (start : Position) (target : Expr) (c : Cursor) : Read Stmt c := do
  checkSingleTarget target
  let ⟨hint, c1, h1⟩ ← single .named c
  let ⟨value, c2, h2⟩ ← (severalAfter (.op .assign) c1).since h1
  return ⟨.annotated (c2.spanFrom start) target hint value, c2, h2⟩

/-- An operation that is assigned to its left operand, after the operator. -/
def augmentedTarget (start : Position) (target : Expr) (op : BinaryOp) (c : Cursor) :
    Read Stmt c := do
  let ⟨value, c1, h1⟩ ← several .least c
  return ⟨.augmented (c1.spanFrom start) target op value, c1, h1⟩

/-- The statement that begins with an expression, at the place after that expression. -/
def stmtAfter (start : Position) (first : Expr) (c : Cursor) : MayRead Stmt c :=
  match c.next? with
  | none => .ok (.here (.expression first.span first) c)
  | some ⟨t, c1, h1⟩ =>
    match t.kind with
    | .op .colon => ((annotatedTarget start first c1).since h1).moved
    | .op .assign => do
      let ⟨others, c2, h2⟩ ← assigned c
      match others.reverse with
      | [] => c2.unexpected
      | value :: targets =>
        let targets := first :: targets.reverse
        targets.forM checkTarget
        return ⟨.assign (c2.spanFrom start) targets value, c2, h2⟩
    | kind =>
      match BinaryOp.ofAugmented? kind with
      | some op => do
        checkSingleTarget first
        ((augmentedTarget start first op c1).since h1).moved
      | none => .ok (.here (.expression first.span first) c)

def exprStmt (c : Cursor) : Read Stmt c := do
  let ⟨first, c1, h1⟩ ← several .least c
  (stmtAfter c.position first c1).since h1

/-! ## Statements with a first word -/

def returnStmt (start : Position) (c : Cursor) : MayRead Stmt c :=
  if opensExpr c.kind then do
    let ⟨e, c1, h1⟩ ← several .least c
    return .past (.returned (c1.spanFrom start) (some e)) c1 h1
  else .ok (.here (.returned (c.spanFrom start) none) c)

def raiseStmt (start : Position) (c : Cursor) : MayRead Stmt c :=
  if opensExpr c.kind then do
    let ⟨e, c1, h1⟩ ← single .named c
    let ⟨cause, c2, h2⟩ ← (singleAfter (.word .kwFrom) .named c1).since h1
    return .past (.raised (c2.spanFrom start) (some e) cause) c2 h2
  else .ok (.here (.raised (c.spanFrom start) none none) c)

def outerStmt (start : Position) (isNonlocal : Bool) (c : Cursor) : Read Stmt c := do
  let ⟨names, c1, h1⟩ ←
    someItems (fun c' _ => c'.expectName) (fun _ => false) c c.size_below
  return ⟨.outer (c1.spanFrom start) names isNonlocal, c1, h1⟩

def deletedTarget {n : Nat} : ItemBelow Expr n :=
  fun c _ => do
    let ⟨e, c1, h1⟩ ← single .comparison c
    checkTarget e
    return ⟨e, c1, h1⟩

def deleteStmt (start : Position) (c : Cursor) : Read Stmt c := do
  let ⟨targets, c1, h1⟩ ←
    someItems deletedTarget (fun k => !opensExpr k) c c.size_below
  return ⟨.deleted (c1.spanFrom start) targets, c1, h1⟩

def assertStmt (start : Position) (c : Cursor) : Read Stmt c := do
  let ⟨test, c1, h1⟩ ← single .named c
  let ⟨message, c2, h2⟩ ← (singleAfter (.op .comma) .named c1).since h1
  return ⟨.asserted (c2.spanFrom start) test message, c2, h2⟩

/-- The statement whose first word is the token `t`, at the place after it, or none if statements do
not begin with the token. -/
def wordStmt? (t : Token) (c : Cursor) : Option (MayRead Stmt c) :=
  let start := t.span.start
  match t.kind with
  | .word .kwPass => some (.ok (.here (.word t.span .kwPass) c))
  | .word .kwBreak => some (.ok (.here (.word t.span .kwBreak) c))
  | .word .kwContinue => some (.ok (.here (.word t.span .kwContinue) c))
  | .word .kwReturn => some (returnStmt start c)
  | .word .kwRaise => some (raiseStmt start c)
  | .word .kwGlobal => some ((outerStmt start false c).moved)
  | .word .kwNonlocal => some ((outerStmt start true c).moved)
  | .word .kwDel => some ((deleteStmt start c).moved)
  | .word .kwAssert => some ((assertStmt start c).moved)
  | .word .kwImport => some ((importModules start c).moved)
  | .word .kwFrom => some ((importNames start c).moved)
  | _ => none

/-! ## Lines -/

def simpleStmt (c : Cursor) : Read Stmt c :=
  match c.next? with
  | none => exprStmt c
  | some ⟨t, c1, h1⟩ =>
    match wordStmt? t c1 with
    | some read => read.since h1
    | none => exprStmt c

/-- The statements after the first one of a line, each after a semicolon, which may also stand last. -/
def moreSimple (c : Cursor) : MayRead (List Stmt) c :=
  match c.accept? (.op .semicolon) with
  | none => .ok (.here [] c)
  | some ⟨_, c1, h1⟩ =>
    if c1.kind = .newline then .ok (.past [] c1 h1)
    else do
      let ⟨s, c2, h2⟩ ← (simpleStmt c1).since h1
      let ⟨ss, c3, h3⟩ ← (moreSimple c2).since h2
      return .past (s :: ss) c3 h3
termination_by c.size

/-- A line of simple statements. -/
def simpleLine (c : Cursor) : Read (List Stmt) c := do
  let ⟨s, c1, h1⟩ ← simpleStmt c
  let ⟨ss, c2, h2⟩ ← (moreSimple c1).since h1
  let ⟨_, c3, h3⟩ ← (c2.expect .newline).since h2
  return ⟨s :: ss, c3, h3⟩

end TypeWatch.Reading
