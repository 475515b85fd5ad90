import TypeWatch.Source.Position
import TypeWatch.Syntax.Operator

/-! Expressions. Every node has its place in the source; `bare` forgets the places, so that two
expressions with the same bare form differ in their places alone. -/
namespace TypeWatch
set_option autoImplicit false

/-! ## Nodes -/

inductive Constant where
  | noneWord
  | trueWord
  | falseWord
  | ellipsis
  /-- A number as it is written. -/
  | number (literal : String)
  | string (text : String)
  | bytes (text : String)
  | formatString (text : String)
  deriving DecidableEq, Repr

/-- How a parameter takes its argument. -/
inductive ParameterKind where
  | positionalOnly | regular | variadic | keywordOnly | variadicKeywords
  deriving DecidableEq, Repr

inductive ComprehensionKind where
  | list | set | dict | generator
  deriving DecidableEq, Repr

mutual

inductive Expr where
  | name (span : Span) (id : String)
  | constant (span : Span) (value : Constant)
  | member (span : Span) (value : Expr) (attr : String)
  | subscript (span : Span) (value index : Expr)
  | slice (span : Span) (lower upper step : Option Expr)
  | tuple (span : Span) (elements : List Expr)
  | list (span : Span) (elements : List Expr)
  | set (span : Span) (elements : List Expr)
  | dict (span : Span) (entries : List Entry)
  | call (span : Span) (callee : Expr) (arguments : List Expr)
  /-- An argument with a name, or a mapping of arguments. -/
  | keyword (span : Span) (name : Option String) (value : Expr)
  | starred (span : Span) (value : Expr)
  | binary (span : Span) (left : Expr) (op : BinaryOp) (right : Expr)
  | unary (span : Span) (op : UnaryOp) (operand : Expr)
  | lambda (span : Span) (parameters : List Parameter) (body : Expr)
  | conditional (span : Span) (test body orelse : Expr)
  /-- The value is there in a dictionary only. -/
  | comprehension (span : Span) (kind : ComprehensionKind) (element : Expr) (value : Option Expr)
      (clauses : List Clause)
  | named (span : Span) (target value : Expr)
  | await (span : Span) (value : Expr)
  | yield (span : Span) (value : Option Expr) (delegates : Bool)

/-- An entry of a dictionary display: a key and a value, or a mapping whose entries are taken over. -/
inductive Entry where
  | pair (key value : Expr)
  | unpack (value : Expr)

/-- One loop of a comprehension, with the conditions on its target. -/
inductive Clause where
  | mk (target iter : Expr) (conditions : List Expr) (isAsync : Bool)

inductive Parameter where
  | mk (span : Span) (kind : ParameterKind) (name : String) (hint standard : Option Expr)

end

instance : Inhabited Expr := ⟨.name default ""⟩

/-! ## Parts -/

namespace Parameter

def span : Parameter → Span
  | mk s _ _ _ _ => s

def kind : Parameter → ParameterKind
  | mk _ k _ _ _ => k

def name : Parameter → String
  | mk _ _ n _ _ => n

def hint : Parameter → Option Expr
  | mk _ _ _ a _ => a

/-- The value of a parameter that no argument is given for. -/
def standard : Parameter → Option Expr
  | mk _ _ _ _ d => d

end Parameter

namespace Clause

def parts : Clause → List Expr
  | mk target iter conditions _ => target :: iter :: conditions

end Clause

namespace Entry

def parts : Entry → List Expr
  | pair key value => [key, value]
  | unpack value => [value]

end Entry

namespace Expr

def span : Expr → Span
  | name s _ | constant s _ | member s _ _ | subscript s _ _ | slice s _ _ _ | tuple s _
  | list s _ | set s _ | dict s _ | call s _ _ | keyword s _ _ | starred s _ | binary s _ _ _
  | unary s _ _ | lambda s _ _ | conditional s _ _ _ | comprehension s _ _ _ _ | named s _ _
  | await s _ | yield s _ _ => s

/-- The expressions directly below, the test of a conditional before what depends on it. Annotations
of parameters are not among them. -/
def children : Expr → List Expr
  | name _ _ | constant _ _ => []
  | member _ value _ => [value]
  | subscript _ value index => [value, index]
  | slice _ lower upper step => lower.toList ++ upper.toList ++ step.toList
  | tuple _ elements | list _ elements | set _ elements => elements
  | dict _ entries => entries.flatMap Entry.parts
  | call _ callee arguments => callee :: arguments
  | keyword _ _ value => [value]
  | starred _ value => [value]
  | binary _ left _ right => [left, right]
  | unary _ _ operand => [operand]
  | lambda _ parameters body => parameters.filterMap Parameter.standard ++ [body]
  | conditional _ test body orelse => [test, body, orelse]
  | comprehension _ _ element value clauses =>
    element :: value.toList ++ clauses.flatMap Clause.parts
  | named _ target value => [target, value]
  | await _ value => [value]
  | yield _ value _ => value.toList

/-! ## Size of children -/

theorem sizeOf_option_mem {x : Expr} {o : Option Expr} (h : x ∈ o.toList) : sizeOf x < sizeOf o := by
  cases o with
  | none => simp at h
  | some y =>
    simp only [Option.toList_some, List.mem_singleton] at h
    subst h
    simp

theorem sizeOf_entry_part {x : Expr} {e : Entry} (h : x ∈ e.parts) : sizeOf x < sizeOf e := by
  cases e with
  | pair key value =>
    simp only [Entry.parts, List.mem_cons, List.not_mem_nil, or_false] at h
    rw [Entry.pair.sizeOf_spec]
    rcases h with rfl | rfl <;> omega
  | unpack value =>
    simp only [Entry.parts, List.mem_singleton] at h
    subst h
    simp

theorem sizeOf_clause_part {x : Expr} {c : Clause} (h : x ∈ c.parts) : sizeOf x < sizeOf c := by
  cases c with
  | mk target iter conditions isAsync =>
    simp only [Clause.parts, List.mem_cons] at h
    rcases h with h | h | h
    · subst h; simp; omega
    · subst h; simp; omega
    · have := List.sizeOf_lt_of_mem h
      simp; omega

theorem sizeOf_standard {x : Expr} {p : Parameter} (h : p.standard = some x) :
    sizeOf x < sizeOf p := by
  cases p with
  | mk s k n a d =>
    simp only [Parameter.standard] at h
    subst h
    simp; omega

theorem sizeOf_child {x e : Expr} (h : x ∈ e.children) : sizeOf x < sizeOf e := by
  cases e with
  | name | constant => simp [children] at h
  | member | keyword | starred | unary | await =>
    simp only [children, List.mem_singleton] at h
    subst h
    simp only [member.sizeOf_spec, keyword.sizeOf_spec, starred.sizeOf_spec, unary.sizeOf_spec,
      await.sizeOf_spec]
    omega
  | subscript | binary | named =>
    simp only [children, List.mem_cons, List.not_mem_nil, or_false] at h
    simp only [subscript.sizeOf_spec, binary.sizeOf_spec, named.sizeOf_spec]
    rcases h with rfl | rfl <;> omega
  | conditional =>
    simp only [children, List.mem_cons, List.not_mem_nil, or_false] at h
    rw [conditional.sizeOf_spec]
    rcases h with rfl | rfl | rfl <;> omega
  | slice _ lower upper step =>
    simp only [children, List.mem_append] at h
    have hoption := h.imp (Or.imp sizeOf_option_mem sizeOf_option_mem) sizeOf_option_mem
    rw [slice.sizeOf_spec]
    rcases hoption with (hlt | hlt) | hlt <;> omega
  | tuple _ elements | list _ elements | set _ elements =>
    simp only [children] at h
    have := List.sizeOf_lt_of_mem h
    simp; omega
  | dict _ entries =>
    simp only [children, List.mem_flatMap] at h
    obtain ⟨entry, he, hx⟩ := h
    have h1 := List.sizeOf_lt_of_mem he
    have h2 := sizeOf_entry_part hx
    simp; omega
  | call _ callee arguments =>
    simp only [children, List.mem_cons] at h
    rcases h with h | h
    · subst h; simp; omega
    · have := List.sizeOf_lt_of_mem h
      simp; omega
  | lambda _ parameters body =>
    simp only [children, List.mem_append, List.mem_filterMap, List.mem_singleton] at h
    rcases h with ⟨p, hp, hx⟩ | h
    · have h1 := List.sizeOf_lt_of_mem hp
      have h2 := sizeOf_standard hx
      simp; omega
    · subst h
      simp only [lambda.sizeOf_spec]
      omega
  | comprehension _ _ element value clauses =>
    simp only [children, List.cons_append, List.mem_cons, List.mem_append, List.mem_flatMap] at h
    rcases h with h | h | ⟨clause, hc, hx⟩
    · subst h; simp; omega
    · have := sizeOf_option_mem h
      simp; omega
    · have h1 := List.sizeOf_lt_of_mem hc
      have h2 := sizeOf_clause_part hx
      simp; omega
  | yield _ value =>
    simp only [children] at h
    have := sizeOf_option_mem h
    simp; omega

/-- An expression and all expressions below it, each before those below it, in the order of the
children. -/
def preorder (e : Expr) : List Expr :=
  e :: e.children.attach.flatMap fun ⟨x, _⟩ => x.preorder
termination_by sizeOf e
decreasing_by rename_i h; exact sizeOf_child h

theorem preorder_eq (e : Expr) : e.preorder = e :: e.children.flatMap preorder := by
  rw [preorder, List.flatMap_subtype (fun _ _ => rfl), List.unattach_attach]

/-! ## Targets

What may be assigned to: names, attributes and subscripts, and where several targets may stand, also
tuples and lists of targets and targets with a star. -/

/-- Targets that take one value as it is. -/
def isSingleTarget : Expr → Bool
  | name _ _ | member _ _ _ | subscript _ _ _ => true
  | _ => false

mutual

/-- The first part that is no target, if the expression is none. -/
def nonTarget? : Expr → Option Expr
  | name _ _ | member _ _ _ | subscript _ _ _ => none
  | tuple _ elements | list _ elements => nonTargetIn? elements
  | starred _ value => value.nonTarget?
  | e => some e

def nonTargetIn? : List Expr → Option Expr
  | [] => none
  | e :: es => e.nonTarget? <|> nonTargetIn? es

end

/-! ## Expressions without places -/

mutual

/-- The expression with all places forgotten. -/
def bare : Expr → Expr
  | name _ id => name default id
  | constant _ value => constant default value
  | member _ value attr => member default value.bare attr
  | subscript _ value index => subscript default value.bare index.bare
  | slice _ lower upper step => slice default (bareOption lower) (bareOption upper) (bareOption step)
  | tuple _ elements => tuple default (bareList elements)
  | list _ elements => list default (bareList elements)
  | set _ elements => set default (bareList elements)
  | dict _ entries => dict default (bareEntries entries)
  | call _ callee arguments => call default callee.bare (bareList arguments)
  | keyword _ label value => keyword default label value.bare
  | starred _ value => starred default value.bare
  | binary _ left op right => binary default left.bare op right.bare
  | unary _ op operand => unary default op operand.bare
  | lambda _ parameters body => lambda default (bareParameters parameters) body.bare
  | conditional _ test body orelse => conditional default test.bare body.bare orelse.bare
  | comprehension _ kind element value clauses =>
    comprehension default kind element.bare (bareOption value) (bareClauses clauses)
  | named _ target value => named default target.bare value.bare
  | await _ value => await default value.bare
  | yield _ value delegates => yield default (bareOption value) delegates

def bareOption : Option Expr → Option Expr
  | none => none
  | some e => some e.bare

def bareList : List Expr → List Expr
  | [] => []
  | e :: es => e.bare :: bareList es

def bareEntries : List Entry → List Entry
  | [] => []
  | .pair key value :: es => .pair key.bare value.bare :: bareEntries es
  | .unpack value :: es => .unpack value.bare :: bareEntries es

def bareClauses : List Clause → List Clause
  | [] => []
  | .mk target iter conditions isAsync :: cs =>
    .mk target.bare iter.bare (bareList conditions) isAsync :: bareClauses cs

def bareParameters : List Parameter → List Parameter
  | [] => []
  | .mk _ kind id hint standard :: ps =>
    .mk default kind id (bareOption hint) (bareOption standard) :: bareParameters ps

end

end Expr
end TypeWatch
