import TypeWatch.Value.Basic

/-! Types in the form in which values are checked against them. -/
namespace TypeWatch
set_option autoImplicit false

/-! ## Containers -/

/-- The containers whose elements are checked. -/
inductive Container where
  | list | set | dict
  deriving DecidableEq, Repr

namespace Container

def builtin : Container → Builtin
  | list => .list
  | set => .set
  | dict => .dict

def name (c : Container) : String := c.builtin.name

/-- The number of arguments that a container takes. -/
def arity : Container → Nat
  | list => 1
  | set => 1
  | dict => 2

def ofBuiltin? : Builtin → Option Container
  | .list => some list
  | .set => some set
  | .dict => some dict
  | _ => none

def ofForm? : TypingForm → Option Container
  | .list => some list
  | .set => some set
  | .dict => some dict
  | _ => none

end Container

/-! ## Descriptors -/

inductive Descriptor where
  | primitive (cls : ClassType)
  /-- The containers with elements of some types. The number of arguments may be wrong. -/
  | generic (origin : Container) (args : List Descriptor)
  /-- The containers with elements of any types. -/
  | bare (origin : Container)

namespace Descriptor

instance : Inhabited Descriptor := ⟨.primitive default⟩

mutual

def text : Descriptor → String
  | primitive cls => cls.name
  | generic origin args => origin.name ++ "[" ++ ", ".intercalate (texts args) ++ "]"
  | bare origin => origin.name

def texts : List Descriptor → List String
  | [] => []
  | d :: ds => d.text :: texts ds

end

def ofBuiltin (b : Builtin) : Descriptor := primitive (.builtin b)

end Descriptor
end TypeWatch
