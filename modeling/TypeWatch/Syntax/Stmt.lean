import TypeWatch.Syntax.Expr

/-! Statements. A suite is the list of statements that an indented block or the rest of a line
holds. -/
namespace TypeWatch
set_option autoImplicit false

/-! ## Nodes -/

structure WithItem where
  context : Expr
  target : Option Expr

/-- A name that is imported, and the name that it is given. -/
structure ImportedName where
  name : String
  boundAs : Option String
  deriving DecidableEq, Repr

mutual

inductive Stmt where
  | block (span : Span) (body : List Stmt)
  | expression (span : Span) (value : Expr)
  | functionDef (span : Span) (name : String) (decorators : List Expr) (parameters : List Parameter)
      (returns : Option Expr) (body : List Stmt) (isAsync : Bool)
  | classDef (span : Span) (name : String) (decorators bases : List Expr) (body : List Stmt)
  | assign (span : Span) (targets : List Expr) (value : Expr)
  | annotated (span : Span) (target hint : Expr) (value : Option Expr)
  | augmented (span : Span) (target : Expr) (op : BinaryOp) (value : Expr)
  | returned (span : Span) (value : Option Expr)
  /-- A further condition is the only statement of `orelse`. -/
  | branch (span : Span) (test : Expr) (body orelse : List Stmt)
  | whileLoop (span : Span) (test : Expr) (body orelse : List Stmt)
  | forLoop (span : Span) (target iter : Expr) (body orelse : List Stmt) (isAsync : Bool)
  | withBlock (span : Span) (items : List WithItem) (body : List Stmt) (isAsync : Bool)
  | tryBlock (span : Span) (body : List Stmt) (handlers : List Handler)
      (orelse finalbody : List Stmt)
  | raised (span : Span) (error cause : Option Expr)
  | outer (span : Span) (names : List String) (isNonlocal : Bool)
  | deleted (span : Span) (targets : List Expr)
  | asserted (span : Span) (test : Expr) (message : Option Expr)
  /-- The module is given where names are taken from one, with the dots before it. -/
  | imported (span : Span) (origin : Option String) (names : List ImportedName)
  /-- `pass`, `break` and `continue`. -/
  | word (span : Span) (keyword : Keyword)

/-- What is done on an exception of a type. -/
inductive Handler where
  | mk (type : Option Expr) (name : Option String) (body : List Stmt)

end

instance : Inhabited Stmt := ⟨.block default []⟩

/-! ## Parts -/

namespace Stmt

def span : Stmt → Span
  | block s _ | expression s _ | functionDef s _ _ _ _ _ _ | classDef s _ _ _ _ | assign s _ _
  | annotated s _ _ _ | augmented s _ _ _ | returned s _ | branch s _ _ _ | whileLoop s _ _ _
  | forLoop s _ _ _ _ _ | withBlock s _ _ _ | tryBlock s _ _ _ _ | raised s _ _ | outer s _ _
  | deleted s _ | asserted s _ _ | imported s _ _ | word s _ => s

end Stmt

structure Module where
  span : Span
  body : List Stmt

end TypeWatch
