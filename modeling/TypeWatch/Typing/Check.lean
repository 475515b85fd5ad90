import TypeWatch.Typing.Resolve

/-! Values checked against types. Whether a type has the right numbers of arguments is decided before
the value is looked at. -/
namespace TypeWatch
set_option autoImplicit false

/-! ## Arities -/

/-- A container with a wrong number of arguments. -/
structure ArityError where
  origin : Container
  found : Nat
  deriving DecidableEq, Repr

def ArityError.message (e : ArityError) : String :=
  "malformed type: " ++ e.origin.name ++ " takes " ++ toString e.origin.arity ++
    " type argument(s), " ++ toString e.found ++ " given"

namespace Descriptor

mutual

/-- Allows a descriptor in which every container has its number of arguments. -/
def validate : Descriptor → Except ArityError Unit
  | generic origin args =>
    if args.length = origin.arity then validateAll args else .error ⟨origin, args.length⟩
  | primitive _ | bare _ => .ok ()

def validateAll : List Descriptor → Except ArityError Unit
  | [] => .ok ()
  | d :: ds => do
    d.validate
    validateAll ds

end

/-! ## Conformance -/

/-- Whether a value is of the type. A container with a wrong number of arguments has no values. -/
def accepts : Descriptor → Value → Bool
  | primitive cls, v => v.isInstance cls
  | bare .list, v => v.listItems?.isSome
  | bare .set, v => v.setItems?.isSome
  | bare .dict, v => v.dictEntries?.isSome
  | generic .list [element], v => v.listItems?.any fun items => items.all element.accepts
  | generic .set [element], v => v.setItems?.any fun items => items.all element.accepts
  | generic .dict [key, value], v =>
    v.dictEntries?.any fun entries => entries.all fun e => key.accepts e.1 && value.accepts e.2
  | generic _ _, _ => false

/-- Whether a value is of the type, if the type is one. -/
def check (d : Descriptor) (v : Value) : Except ArityError Bool := do
  d.validate
  return d.accepts v

end Descriptor

/-! ## Verdicts -/

/-- What is found about a value and the type expression of its name. -/
inductive Outcome where
  | conformant
  | mismatch
  /-- The type expression is wrong. -/
  | malformed (reason : String)
  /-- Values of the type are not checked. -/
  | unsupported (reason : String)
  deriving DecidableEq, Repr

namespace Outcome

def isConformant : Outcome → Bool
  | conformant => true
  | _ => false

def text : Outcome → String
  | conformant => "ok"
  | mismatch => "mismatch"
  | malformed reason => "malformed (" ++ reason ++ ")"
  | unsupported reason => "unsupported (" ++ reason ++ ")"

def ofCheck : Except ArityError Bool → Outcome
  | .ok true => conformant
  | .ok false => mismatch
  | .error e => malformed e.message

end Outcome

/-- The outcome, and the type if the type expression stands for one. -/
structure Verdict where
  descriptor : Option Descriptor
  outcome : Outcome

structure UnresolvedName where
  name : String
  deriving DecidableEq, Repr

/-- The verdict on a value and a type expression. There is none if a name in the expression has no
value: the name may come to be bound later. -/
def Value.verdict (v : Value) (env : Environment) (typeText : String) :
    Except UnresolvedName Verdict :=
  match Typing.resolve env typeText with
  | .ok d => .ok ⟨some d, .ofCheck (d.check v)⟩
  | .error (.malformed reason) => .ok ⟨Option.none, .malformed reason⟩
  | .error (.unsupported reason) => .ok ⟨Option.none, .unsupported reason⟩
  | .error (.unresolved name) => .error ⟨name⟩

end TypeWatch
