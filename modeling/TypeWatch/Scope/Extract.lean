import TypeWatch.Reading.Suite
import TypeWatch.Scope.Table
import TypeWatch.Text.Line

/-! What the statements of a module declare, and where. The body of a function is a scope of its own, in
which its parameters are declared from the first line on; the body of a class is not. Only names are
declared: by assignments without a type, by annotated assignments with theirs. The parameters of
lambdas are known, without types, in the scope around. -/
namespace TypeWatch
set_option autoImplicit false

/-! ## Expressions -/

/-- The parameters of the lambda that an expression is. -/
def Expr.ownParameters : Expr → List String
  | .lambda _ parameters _ => parameters.map Parameter.name
  | _ => []

/-- The parameters of all lambdas in an expression. -/
def Expr.lambdaParameters (e : Expr) : List String := e.preorder.flatMap Expr.ownParameters

namespace Scope

/-- Makes the parameters of lambdas in an expression known. -/
def addLambdas (s : Scope) (e : Expr) : Scope :=
  e.lambdaParameters.foldl (fun s name => s.add name none none) s

def addAllLambdas (s : Scope) (es : List Expr) : Scope := es.foldl addLambdas s

def addParameter (s : Scope) (p : Parameter) : Scope := s.add p.name (p.hint.map Expr.written) none

/-- Makes the name known that a target is. -/
def addTarget (line : Nat) (s : Scope) (target : Expr) : Scope :=
  match target with
  | .name _ id => (s.add id none (some line)).addLambdas target
  | _ => s.addLambdas target

/-- Declares the name that an annotated target is. -/
def addHinted (line : Nat) (s : Scope) (target hint : Expr) : Scope :=
  match target with
  | .name _ id => s.add id (some hint.written) (some line)
  | _ => s

/-! ## Statements -/

/-- The expressions of a parameter that belong to the scope around its function. -/
def outerParts (p : Parameter) : List Expr := p.hint.toList ++ p.standard.toList

def itemParts (i : WithItem) : List Expr := i.context :: i.target.toList

mutual

/-- A scope with what a statement of it declares. -/
def visit (s : Scope) : Stmt → Scope
  | .block _ body => visitAll s body
  | .expression _ value => s.addLambdas value
  | .functionDef span _ decorators parameters returns body _ =>
    let around := s.addAllLambdas (decorators ++ parameters.flatMap outerParts ++ returns.toList)
    let own := parameters.foldl addParameter (ofLines span.start.line span.stop.line)
    around.addChild (visitAll own body)
  | .classDef _ _ decorators bases body => visitAll (s.addAllLambdas (decorators ++ bases)) body
  | .assign span targets value =>
    (targets.foldl (addTarget span.start.line) s).addLambdas value
  | .annotated span target hint value =>
    (addHinted span.start.line s target hint).addAllLambdas (target :: hint :: value.toList)
  | .augmented _ target _ value => s.addAllLambdas [target, value]
  | .returned _ value => s.addAllLambdas value.toList
  | .branch _ test body orelse => visitAll (visitAll (s.addLambdas test) body) orelse
  | .whileLoop _ test body orelse => visitAll (visitAll (s.addLambdas test) body) orelse
  | .forLoop _ target iter body orelse _ =>
    visitAll (visitAll (s.addAllLambdas [target, iter]) body) orelse
  | .withBlock _ items body _ => visitAll (s.addAllLambdas (items.flatMap itemParts)) body
  | .tryBlock _ body handlers orelse finalbody =>
    visitAll (visitAll (visitHandlers (visitAll s body) handlers) orelse) finalbody
  | .raised _ error cause => s.addAllLambdas (error.toList ++ cause.toList)
  | .deleted _ targets => s.addAllLambdas targets
  | .asserted _ test message => s.addAllLambdas (test :: message.toList)
  | .outer _ _ _ | .imported _ _ _ | .word _ _ => s

def visitAll (s : Scope) : List Stmt → Scope
  | [] => s
  | stmt :: stmts => visitAll (visit s stmt) stmts

def visitHandlers (s : Scope) : List Handler → Scope
  | [] => s
  | .mk type _ body :: handlers => visitHandlers (visitAll (s.addAllLambdas type.toList) body) handlers

end

/-- The scope of a module whose source has so many lines. -/
def ofModule (m : Module) (lines : Nat) : Scope := visitAll (ofLines 1 lines) m.body

def ofText (source : String) : Except SyntaxError Scope := do
  let m ← Module.ofText source
  return ofModule m (Text.lineCount source.toList)

end Scope

def TypeTable.ofText (source : String) : Except SyntaxError TypeTable := do
  return ofRoot (← Scope.ofText source)

end TypeWatch
