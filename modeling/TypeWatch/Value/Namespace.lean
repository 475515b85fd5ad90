import TypeWatch.Value.Basic

/-! Names and the values that they are bound to, in the order in which the names were first bound. -/
namespace TypeWatch
set_option autoImplicit false

structure Namespace where
  bindings : List (String × Value)

namespace Namespace

instance : Inhabited Namespace := ⟨⟨[]⟩⟩

def empty : Namespace := ⟨[]⟩

/-! ## Operations -/

/-- Binds a name among some bindings. A bound name keeps its place. -/
def put (name : String) (v : Value) : List (String × Value) → List (String × Value)
  | [] => [(name, v)]
  | (bound, w) :: rest => if bound = name then (bound, v) :: rest else (bound, w) :: put name v rest

/-- Takes the first binding of a name out of some bindings, and gives its value if there is one. -/
def extract (name : String) : List (String × Value) → Option Value × List (String × Value)
  | [] => (none, [])
  | (bound, w) :: rest =>
    if bound = name then (some w, rest) else (extract name rest).map id ((bound, w) :: ·)

def insert (ns : Namespace) (name : String) (v : Value) : Namespace := ⟨put name v ns.bindings⟩

/-- Removes a name. Its value is given with the namespace that is left. -/
def pop (ns : Namespace) (name : String) : Option Value × Namespace :=
  (extract name ns.bindings).map id Namespace.mk

def remove (ns : Namespace) (name : String) : Namespace := (ns.pop name).2

def get? (ns : Namespace) (name : String) : Option Value := ns.bindings.lookup name

def contains (ns : Namespace) (name : String) : Bool := (ns.get? name).isSome

def names (ns : Namespace) : List String := ns.bindings.map Prod.fst

theorem get?_eq_none_iff (ns : Namespace) (name : String) : ns.get? name = none ↔ name ∉ ns.names := by
  simp only [get?, names, List.lookup_eq_none_iff, List.mem_map, bne_iff_ne, not_exists, not_and, ne_eq]
  exact forall₂_congr fun b _ => not_congr eq_comm

def size (ns : Namespace) : Nat := ns.bindings.length

def isEmpty (ns : Namespace) : Bool := ns.bindings.isEmpty

/-- The namespace in which some names are bound one after the other. -/
def ofList (bindings : List (String × Value)) : Namespace :=
  bindings.foldl (fun ns b => ns.insert b.1 b.2) empty

/-! ## Namespaces that are always there -/

/-- The names that are bound everywhere. -/
def builtins : Namespace :=
  ofList ([Builtin.int, .float, .complex, .str, .bytes, .bool, .list, .tuple, .set, .frozenset, .dict,
    .object, .type, .slice].map fun b => (b.name, .type (.builtin b)))

def typingNames : Namespace := ofList (TypingForm.all.map fun f => (f.name, .form f))

def typingModule : Value := .module "typing" typingNames.bindings

/-- The names of a module that imports `typing` and all its names. -/
def typingGlobals : Namespace := ofList (("typing", typingModule) :: typingNames.bindings)

end Namespace
end TypeWatch
