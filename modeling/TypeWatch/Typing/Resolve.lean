import TypeWatch.Reading.Expr
import TypeWatch.Typing.Descriptor
import TypeWatch.Value.Namespace
import TypeWatch.Value.Written

/-! Type expressions resolved to descriptors in the environment in which they stand. A name without a
binding is told before anything else that is wrong with an expression. -/
namespace TypeWatch
set_option autoImplicit false

/-! ## Environments and errors -/

/-- The names that can be seen at a place. -/
structure Environment where
  locals : Namespace
  globals : Namespace

/-- The value of a name: a local one, a global one, or one that is bound everywhere. -/
def Environment.get? (env : Environment) (name : String) : Option Value :=
  env.locals.get? name <|> env.globals.get? name <|> Namespace.builtins.get? name

theorem Environment.get?_eq_none_iff (env : Environment) (name : String) : env.get? name = none ↔
    name ∉ env.locals.names ∧ name ∉ env.globals.names ∧ name ∉ Namespace.builtins.names := by
  simp only [get?, Option.orElse_eq_orElse, Option.orElse_eq_or, Option.or_eq_none_iff,
    Namespace.get?_eq_none_iff]

/-- Why a type expression has no descriptor. -/
inductive ResolveError where
  /-- A dotted name has no value. -/
  | unresolved (name : String)
  /-- The expression stands for something that is no type. -/
  | malformed (reason : String)
  /-- The expression stands for a type whose values are not checked. -/
  | unsupported (reason : String)
  deriving DecidableEq, Repr

namespace ResolveError

def message : ResolveError → String
  | unresolved name => "name " ++ Text.escaped name ++ " is not defined"
  | malformed reason => "malformed type: " ++ reason
  | unsupported reason => "unsupported type: " ++ reason

def isUnresolved : ResolveError → Bool
  | unresolved _ => true
  | _ => false

end ResolveError

abbrev Resolved := Except ResolveError Descriptor

/-! ## Values as types -/

namespace Value

mutual

def descriptor : Value → Resolved
  | none => .ok (.ofBuiltin .noneType)
  | type cls =>
    match cls.builtin?.bind Container.ofBuiltin? with
    | some origin => .ok (.bare origin)
    | Option.none => .ok (.primitive cls)
  | form f =>
    match Container.ofForm? f, f.builtin? with
    | some origin, _ => .ok (.bare origin)
    | Option.none, some b => .ok (.ofBuiltin b)
    | Option.none, Option.none => .error (.unsupported ("`typing." ++ f.name ++ "` is not checked"))
  | v@(applied cls args) =>
    match cls.builtin?.bind Container.ofBuiltin? with
    | some origin => do return .generic origin (← descriptors args)
    | Option.none => .error (.unsupported ("`" ++ v.typeText ++ "` is not checked"))
  | v => .error (.malformed (v.text ++ " is not a type"))

def descriptors : List Value → Except ResolveError (List Descriptor)
  | [] => .ok []
  | v :: vs => do
    let d ← v.descriptor
    return d :: (← descriptors vs)

end

/-- The container that a value makes types of, if it is given arguments. -/
def container? : Value → Option Container
  | type (.builtin b) => Container.ofBuiltin? b
  | form f => Container.ofForm? f
  | _ => Option.none

/-- What is wrong with arguments for a value that makes no types that are checked. -/
def argumentError : Value → ResolveError
  | v@(type (.builtin b)) =>
    if b.isSubscriptable then .unsupported ("`" ++ b.name ++ "[...]` is not checked")
    else .malformed ("`" ++ v.typeText ++ "` is not subscriptable")
  | form f => .unsupported ("`typing." ++ f.name ++ "[...]` is not checked")
  | v => .malformed ("`" ++ v.typeText ++ "` is not subscriptable")

end Value

/-! ## Expressions as types -/

namespace Expr

def notAType {α : Type} (e : Expr) : Except ResolveError α :=
  .error (.malformed ("`" ++ e.written ++ "` is not a type"))

def evaluate (env : Environment) : Expr → Except ResolveError Value
  | name _ id =>
    match env.get? id with
    | some v => .ok v
    | none => .error (.unresolved id)
  | e@(member _ value attr) => do
    match ← evaluate env value with
    | .module _ bindings =>
      match bindings.lookup attr with
      | some v => .ok v
      | none => .error (.unresolved e.written)
    | _ => .error (.unresolved e.written)
  | e => e.notAType

/-- The error that an unresolved name is, if one is. -/
def unresolved? (r : Resolved) : Option ResolveError :=
  match r with
  | .error e => if e.isUnresolved then some e else none
  | .ok _ => none

/-- Passes over all errors but those of unresolved names. -/
def demandNames (results : List Resolved) : Except ResolveError Unit :=
  match results.findSome? unresolved? with
  | some e => .error e
  | none => .ok ()

/-- The descriptors of all arguments, or the first error. -/
def all : List Resolved → Except ResolveError (List Descriptor)
  | [] => .ok []
  | r :: rs => do
    let d ← r
    return d :: (← all rs)

/-- The type that a value makes of arguments. -/
def apply (target : Value) (arguments : List Resolved) : Resolved := do
  demandNames arguments
  match target.container? with
  | some origin => return .generic origin (← all arguments)
  | none => .error target.argumentError

/-- The type of a constant, where `quoted` gives those of the texts of string literals. -/
def constantType (quoted : String → Resolved) (e : Expr) : Constant → Resolved
  | .noneWord => .ok (.ofBuiltin .noneType)
  | .string text => quoted text
  | _ => e.notAType

/-- The error of an operation, given what its operands are as types. -/
def operationType (e : Expr) (op : BinaryOp) (left right : Resolved) : Resolved :=
  if op = .bitOr then do
    demandNames [left, right]
    .error (.unsupported ("union `" ++ e.written ++ "`"))
  else e.notAType

/-- A slice is no argument of a type. -/
def argumentResult (e : Expr) (r : Resolved) : Resolved :=
  match e with
  | slice _ _ _ _ => .error (.malformed ("slice `" ++ e.written ++ "` is not a type"))
  | _ => r

mutual

/-- The descriptor of a type expression, where `quoted` gives those of the texts of string literals. -/
def resolveWith (quoted : String → Resolved) (env : Environment) (e : Expr) : Resolved :=
  match e with
  | name _ _ | member _ _ _ => do (← evaluate env e).descriptor
  | constant _ value => constantType quoted e value
  | subscript _ value (tuple _ elements) => do
    apply (← evaluate env value) (resolveAll quoted env elements)
  | subscript _ value index => do
    apply (← evaluate env value) [argumentResult index (resolveWith quoted env index)]
  | binary _ left op right =>
    operationType e op (resolveWith quoted env left) (resolveWith quoted env right)
  | _ => e.notAType

def resolveAll (quoted : String → Resolved) (env : Environment) : List Expr → List Resolved
  | [] => []
  | e :: es => argumentResult e (resolveWith quoted env e) :: resolveAll quoted env es

end

end Expr

namespace Typing

/-- The error of a type expression that cannot be read. -/
def invalidSyntax (text : String) (e : SyntaxError) : ResolveError :=
  .malformed ("invalid syntax in `" ++ text ++ "`: " ++ e.fault.message)

/-- The descriptor of a type expression that is given as text, where `quoted` gives those of the texts
of string literals in it. -/
def resolveTextWith (quoted : String → Resolved) (env : Environment) (text : String) : Resolved :=
  match Expr.ofText text with
  | .error e => .error (invalidSyntax text e)
  | .ok e => e.resolveWith quoted env

/-- The descriptor of a type expression that is given as text. A string literal in it stands for the
type expression that is its text. That text is shorter than the one in which the literal stands with
its quotes, which is why this ends. -/
def resolve (env : Environment) (text : String) : Resolved :=
  resolveTextWith
    (fun inner =>
      if _h : inner.utf8ByteSize < text.utf8ByteSize then resolve env inner
      else .error (.malformed ("`" ++ Constant.quoted inner ++ "` is not a type")))
    env text
termination_by text.utf8ByteSize
decreasing_by assumption

end Typing

def Expr.resolve (env : Environment) (e : Expr) : Resolved := e.resolveWith (Typing.resolve env) env

end TypeWatch
