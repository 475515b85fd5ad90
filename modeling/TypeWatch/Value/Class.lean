/-! Classes: the built-in ones, and those that a program defines on top of them. Two classes of a
program with one name and the same bases are the same. -/
namespace TypeWatch
set_option autoImplicit false

/-! ## Built-in classes -/

inductive Builtin where
  | object | noneType | bool | int | float | complex | str | bytes | list | tuple | set | frozenset
  | dict | slice | type | genericAlias | specialForm | module | function
  deriving DecidableEq, Repr

namespace Builtin

def all : List Builtin := [
  .object, .noneType, .bool, .int, .float, .complex, .str, .bytes, .list, .tuple, .set, .frozenset,
  .dict, .slice, .type, .genericAlias, .specialForm, .module, .function]

def name : Builtin → String
  | object => "object"
  | noneType => "NoneType"
  | bool => "bool"
  | int => "int"
  | float => "float"
  | complex => "complex"
  | str => "str"
  | bytes => "bytes"
  | list => "list"
  | tuple => "tuple"
  | set => "set"
  | frozenset => "frozenset"
  | dict => "dict"
  | slice => "slice"
  | type => "type"
  | genericAlias => "types.GenericAlias"
  | specialForm => "typing._SpecialForm"
  | module => "module"
  | function => "function"

def base? : Builtin → Option Builtin
  | object => none
  | bool => some int
  | _ => some object

/-- Whether a type can be made of the class and arguments. -/
def isSubscriptable : Builtin → Bool
  | list | tuple | set | frozenset | dict | type => true
  | _ => false

/-- Every class is below itself and below `object`, and there is one more pair. -/
def isSubtype (a b : Builtin) : Bool := a == b || b == object || (a == bool && b == int)

end Builtin

/-! ## Classes -/

inductive ClassType where
  | builtin (b : Builtin)
  /-- A class of a program, with the bases that it is defined with. -/
  | user (name : String) (bases : List ClassType)

namespace ClassType

instance : Inhabited ClassType := ⟨.builtin .object⟩

mutual

def same : ClassType → ClassType → Bool
  | builtin a, builtin b => a == b
  | user m as, user n bs => m == n && sameList as bs
  | _, _ => false

def sameList : List ClassType → List ClassType → Bool
  | [], [] => true
  | a :: as, b :: bs => a.same b && sameList as bs
  | _, _ => false

end

instance : BEq ClassType := ⟨same⟩

mutual

theorem eq_of_same : ∀ a b : ClassType, a.same b = true → a = b
  | builtin _, builtin _, h => by simp only [same, beq_iff_eq] at h; rw [h]
  | user _ as, user _ bs, h => by
    simp only [same, Bool.and_eq_true, beq_iff_eq] at h
    rw [h.1, eq_of_sameList as bs h.2]
  | builtin _, user _ _, h => by simp [same] at h
  | user _ _, builtin _, h => by simp [same] at h

theorem eq_of_sameList : ∀ as bs : List ClassType, sameList as bs = true → as = bs
  | [], [], _ => rfl
  | a :: as, b :: bs, h => by
    simp only [sameList, Bool.and_eq_true] at h
    rw [eq_of_same a b h.1, eq_of_sameList as bs h.2]
  | [], _ :: _, h => by simp [sameList] at h
  | _ :: _, [], h => by simp [sameList] at h

end

mutual

theorem same_self : ∀ a : ClassType, a.same a = true
  | builtin _ => by simp [same]
  | user _ as => by simp [same, sameList_self as]

theorem sameList_self : ∀ as : List ClassType, sameList as as = true
  | [] => rfl
  | a :: as => by simp [sameList, same_self a, sameList_self as]

end

instance : LawfulBEq ClassType where
  eq_of_beq h := eq_of_same _ _ h
  rfl := same_self _

instance : DecidableEq ClassType := fun a b =>
  if h : a.same b then .isTrue (eq_of_same a b h)
  else .isFalse fun e => h (e ▸ same_self a)

def name : ClassType → String
  | builtin b => b.name
  | user n _ => n

/-- The classes right above. A class that is defined without bases is below `object`. -/
def bases : ClassType → List ClassType
  | builtin b => (b.base?.map builtin).toList
  | user _ [] => [builtin .object]
  | user _ bs => bs

def builtin? : ClassType → Option Builtin
  | builtin b => some b
  | user _ _ => none

mutual

/-- Whether a class is the other one or below it. -/
def isSubtype : ClassType → ClassType → Bool
  | builtin a, other => other.builtin?.any fun b => a.isSubtype b
  | user n bs, other => user n bs == other || other == builtin .object || anySubtype bs other

def anySubtype : List ClassType → ClassType → Bool
  | [], _ => false
  | b :: bs, other => b.isSubtype other || anySubtype bs other

end

end ClassType
end TypeWatch
