/-! Scopes: the regions of a source in which names are declared, with the scopes within them. A region is
a range of lines, and what is declared holds from a line of it to its end. -/
namespace TypeWatch
set_option autoImplicit false

/-! ## What is known on a line -/

/-- The names that are known on a line, with the type expressions that they are declared with. A name
that is only assigned has none. -/
abbrev LineTypes := List (String × Option String)

namespace LineTypes

def declare (name type : String) : LineTypes → LineTypes
  | [] => [(name, some type)]
  | (n, t) :: rest => if n = name then (n, some type) :: rest else (n, t) :: declare name type rest

/-- Makes a name known, without a change if it is known. -/
def mention (name : String) (types : LineTypes) : LineTypes :=
  if (types.lookup name).isSome then types else types ++ [(name, none)]

end LineTypes

/-! ## Scopes -/

/-- A declaration of a name, and the lines from the first to the last on which it holds. -/
structure TypeRecord where
  name : String
  type : Option String
  first : Nat
  last : Nat
  deriving DecidableEq, Repr

inductive Scope where
  | mk (first last : Nat) (records : List TypeRecord) (children : List Scope)

namespace Scope

instance : Inhabited Scope := ⟨mk 1 0 [] []⟩

def first : Scope → Nat
  | mk f _ _ _ => f

/-- The last line, which is before the first one in a scope without lines. -/
def last : Scope → Nat
  | mk _ l _ _ => l

def records : Scope → List TypeRecord
  | mk _ _ rs _ => rs

def children : Scope → List Scope
  | mk _ _ _ cs => cs

def ofLines (first last : Nat) : Scope := mk first last [] []

/-- Declares a name from a line to the end of the scope, or in the whole scope if no line is given. -/
def add (s : Scope) (name : String) (type : Option String) (line : Option Nat) : Scope :=
  mk s.first s.last (s.records ++ [⟨name, type, line.getD s.first, s.last⟩]) s.children

def addChild (s child : Scope) : Scope := mk s.first s.last s.records (s.children ++ [child])

def size (s : Scope) : Nat := s.last + 1 - s.first

def isEmpty (s : Scope) : Bool := s.size == 0

/-- Whether the lines of the other scope lie within those of a scope. -/
def contains (s other : Scope) : Bool := decide (s.first ≤ other.first) && decide (other.last ≤ s.last)

/-! ## Lines -/

/-- What a record makes known on a line. -/
def applyRecord (line : Nat) (types : LineTypes) (r : TypeRecord) : LineTypes :=
  if r.first ≤ line ∧ line ≤ r.last then
    match r.type with
    | some type => types.declare r.name type
    | none => types.mention r.name
  else types

/-- What the scope itself makes known on a line. -/
def ownTypesAt (s : Scope) (line : Nat) : LineTypes := s.records.foldl (applyRecord line) []

/-- What the scope itself makes known on each of its lines. -/
def ownTypes (s : Scope) : List LineTypes :=
  (List.range s.size).map fun i => s.ownTypesAt (s.first + i)

end Scope

/-! ## Scopes under construction -/

/-- The scopes that are open while a tree is built: the innermost one, and those around it from the
innermost out. -/
structure OpenScopes where
  current : Scope
  outer : List Scope

namespace OpenScopes

def start (root : Scope) : OpenScopes := ⟨root, []⟩

def depth (s : OpenScopes) : Nat := s.outer.length + 1

def push (s : OpenScopes) (first last : Nat) : OpenScopes :=
  ⟨Scope.ofLines first last, s.current :: s.outer⟩

/-- Closes the innermost scope, unless it is the root. -/
def pop (s : OpenScopes) : OpenScopes :=
  match s.outer with
  | [] => s
  | parent :: rest => ⟨parent.addChild s.current, rest⟩

def add (s : OpenScopes) (name : String) (type : Option String) (line : Option Nat) : OpenScopes :=
  { s with current := s.current.add name type line }

/-- The root, with all scopes closed. -/
def finish (s : OpenScopes) : Scope := s.outer.foldl (fun child parent => parent.addChild child) s.current

end OpenScopes
end TypeWatch
