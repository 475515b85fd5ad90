import TypeWatch.Scope.Basic

/-! Tables of what is known on each line of a source. A scope hides what the scopes around it declare on
the lines that it covers. -/
namespace TypeWatch
set_option autoImplicit false

/-- What is known on the lines from the first one on. -/
structure TypeTable where
  lines : List LineTypes

namespace TypeTable

/-! ## Look-up -/

def lineEnd (t : TypeTable) : Nat := t.lines.length

/-- What is known on a line, if there is such a line. -/
def typesAt? (t : TypeTable) (line : Nat) : Option LineTypes :=
  if line = 0 then none else t.lines[line - 1]?

/-- The type that a name is declared with, where it is known on a line. -/
def get? (t : TypeTable) (line : Nat) (name : String) : Option String :=
  ((t.typesAt? line).bind fun types => types.lookup name).join

/-! ## Construction -/

/-- Lines that begin at the line `start`, with the lines of `inner` in the places of those that they
have in common. -/
def overlay (start : Nat) (lines : List LineTypes) (innerStart : Nat) (inner : List LineTypes) :
    List LineTypes :=
  lines.mapIdx fun i types =>
    if start + i < innerStart then types else inner[start + i - innerStart]?.getD types

mutual

/-- What is known on each line of a scope, and of the scopes in it. -/
def ofScope : Scope → List LineTypes
  | .mk first last records children =>
    overlayAll first (Scope.mk first last records []).ownTypes children

/-- The lines with those of some scopes in their places, one after the other. -/
def overlayAll (start : Nat) (lines : List LineTypes) : List Scope → List LineTypes
  | [] => lines
  | child :: rest => overlayAll start (overlay start lines child.first (ofScope child)) rest

end

/-- The table of a whole source, whose lines before the first one of the scope are empty. -/
def ofRoot (root : Scope) : TypeTable :=
  ⟨List.replicate (root.first - 1) [] ++ ofScope root⟩

end TypeTable
end TypeWatch
