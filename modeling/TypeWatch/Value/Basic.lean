import TypeWatch.Value.Class

/-! Values as a watched program has them. Sets and dictionaries keep the order in which their elements
came. -/
namespace TypeWatch
set_option autoImplicit false

/-! ## Special forms -/

inductive TypingForm where
  | list | set | dict | frozenset | tuple | optional | union | any | callable
  deriving DecidableEq, Repr

namespace TypingForm

def all : List TypingForm := [
  .list, .set, .dict, .frozenset, .tuple, .optional, .union, .any, .callable]

def name : TypingForm → String
  | list => "List"
  | set => "Set"
  | dict => "Dict"
  | frozenset => "FrozenSet"
  | tuple => "Tuple"
  | optional => "Optional"
  | union => "Union"
  | any => "Any"
  | callable => "Callable"

/-- The class that a form is another name of. -/
def builtin? : TypingForm → Option Builtin
  | list => some .list
  | set => some .set
  | dict => some .dict
  | frozenset => some .frozenset
  | tuple => some .tuple
  | _ => none

end TypingForm

/-! ## Values -/

inductive Value where
  | none
  | bool (b : Bool)
  | int (n : Int64)
  | float (x : Float)
  | complex (re im : Float)
  | str (text : String)
  | bytes (octets : List UInt8)
  | list (items : List Value)
  | tuple (items : List Value)
  | set (items : List Value)
  | frozenset (items : List Value)
  | dict (entries : List (Value × Value))
  | slice (start stop step : Value)
  /-- An object of a class of the program. If the class is below a container, the payload is what the
  object contains. -/
  | object (cls : ClassType) (payload : Option Value)
  | type (cls : ClassType)
  /-- A class with arguments. -/
  | applied (origin : ClassType) (args : List Value)
  | form (f : TypingForm)
  | module (name : String) (bindings : List (String × Value))
  | function (name : String)

namespace Value

instance : Inhabited Value := ⟨.none⟩

def classOf : Value → ClassType
  | none => .builtin .noneType
  | bool _ => .builtin .bool
  | int _ => .builtin .int
  | float _ => .builtin .float
  | complex _ _ => .builtin .complex
  | str _ => .builtin .str
  | bytes _ => .builtin .bytes
  | list _ => .builtin .list
  | tuple _ => .builtin .tuple
  | set _ => .builtin .set
  | frozenset _ => .builtin .frozenset
  | dict _ => .builtin .dict
  | slice _ _ _ => .builtin .slice
  | object cls _ => cls
  | type _ => .builtin .type
  | applied _ _ => .builtin .genericAlias
  | form _ => .builtin .specialForm
  | module _ _ => .builtin .module
  | function _ => .builtin .function

def isInstance (v : Value) (cls : ClassType) : Bool := v.classOf.isSubtype cls

/-! ## Contents -/

/-- The elements of a list, or of an object that contains one. -/
def listItems? : Value → Option (List Value)
  | list items => some items
  | object _ (some payload) => payload.listItems?
  | _ => Option.none

/-- The elements of a set or frozen set, or of an object that contains one. -/
def setItems? : Value → Option (List Value)
  | set items | frozenset items => some items
  | object _ (some payload) => payload.setItems?
  | _ => Option.none

/-- The entries of a dictionary, or of an object that contains one. -/
def dictEntries? : Value → Option (List (Value × Value))
  | dict entries => some entries
  | object _ (some payload) => payload.dictEntries?
  | _ => Option.none

mutual

/-- Whether a value may be an element of a set or a key of a dictionary. -/
def isHashable : Value → Bool
  | list _ | set _ | dict _ | slice _ _ _ => false
  | tuple items => allHashable items
  | object _ (some payload) => payload.isHashable
  | _ => true

def allHashable : List Value → Bool
  | [] => true
  | v :: vs => v.isHashable && allHashable vs

end

end Value
end TypeWatch
