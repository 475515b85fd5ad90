import TypeWatch.Syntax.Expr

/-! Expressions written out as source text. The text is canonical: it does not keep the spacing, the
parentheses or the spelling of string literals that the expression was read from. -/
namespace TypeWatch
set_option autoImplicit false

/-! ## Literals -/

namespace Constant

/-- The form of one character between single quotes. -/
def quotedChar (c : Char) : List Char :=
  if c = '\'' then ['\\', '\'']
  else if c = '\\' then ['\\', '\\']
  else if c = '\n' then ['\\', 'n']
  else if c = '\t' then ['\\', 't']
  else if c = '\r' then ['\\', 'r']
  else [c]

/-- A string literal for the text. -/
def quoted (text : String) : String :=
  String.ofList (['\''] ++ text.toList.flatMap quotedChar ++ ['\''])

def written : Constant → String
  | noneWord => "None"
  | trueWord => "True"
  | falseWord => "False"
  | ellipsis => "..."
  | number literal => literal
  | string text => quoted text
  | bytes text => "b" ++ quoted text
  | formatString text => "f" ++ quoted text

end Constant

namespace Parameter

/-- The mark of a parameter that takes several arguments. -/
def mark : ParameterKind → String
  | .variadic => "*"
  | .variadicKeywords => "**"
  | _ => ""

end Parameter

/-! ## Expressions -/

namespace Expr

def commaSeparated (parts : List String) : String := ", ".intercalate parts

/-- A tuple in parentheses; one element takes a comma after it. -/
def parenthesized : List String → String
  | [part] => "(" ++ part ++ ",)"
  | parts => "(" ++ commaSeparated parts ++ ")"

/-- A tuple as the index of a subscript, where it has its parentheses only if it is empty. -/
def unparenthesized : List String → String
  | [] => "()"
  | [part] => part ++ ","
  | parts => commaSeparated parts

def braced (inner : String) : String := "\x7b" ++ inner ++ "\x7d"

/-- An entry, a keyword argument or a parameter that takes over a mapping. -/
def unpacked (inner : String) : String := "**" ++ inner

/-- The brackets that belong to a kind of comprehension. -/
def enclosed (kind : ComprehensionKind) (inner : String) : String :=
  match kind with
  | .list => "[" ++ inner ++ "]"
  | .set | .dict => braced inner
  | .generator => "(" ++ inner ++ ")"

mutual

def written : Expr → String
  | name _ id => id
  | constant _ value => value.written
  | member _ value attr => value.written ++ "." ++ attr
  | subscript _ value (tuple _ elements) =>
    value.written ++ "[" ++ unparenthesized (writtenList elements) ++ "]"
  | subscript _ value index => value.written ++ "[" ++ index.written ++ "]"
  | slice _ lower upper step =>
    writtenOption lower ++ ":" ++ writtenOption upper ++ writtenStep step
  | tuple _ elements => parenthesized (writtenList elements)
  | list _ elements => "[" ++ commaSeparated (writtenList elements) ++ "]"
  | set _ elements => braced (commaSeparated (writtenList elements))
  | dict _ entries => braced (commaSeparated (writtenEntries entries))
  | call _ callee arguments =>
    callee.written ++ "(" ++ commaSeparated (writtenList arguments) ++ ")"
  | keyword _ (some label) value => label ++ "=" ++ value.written
  | keyword _ none value => unpacked value.written
  | starred _ value => "*" ++ value.written
  | binary _ left op right => left.written ++ " " ++ op.symbol ++ " " ++ right.written
  | unary _ op operand => op.lead ++ operand.written
  | lambda _ parameters body =>
    let listed := commaSeparated (writtenParameters parameters)
    if listed.isEmpty then "lambda: " ++ body.written
    else "lambda " ++ listed ++ ": " ++ body.written
  | conditional _ test body orelse =>
    body.written ++ " if " ++ test.written ++ " else " ++ orelse.written
  | comprehension _ kind element none clauses =>
    enclosed kind (element.written ++ writtenClauses clauses)
  | comprehension _ kind element (some value) clauses =>
    enclosed kind (element.written ++ ": " ++ value.written ++ writtenClauses clauses)
  | named _ target value => "(" ++ target.written ++ " := " ++ value.written ++ ")"
  | await _ value => "await " ++ value.written
  | yield _ (some value) true => "(yield from " ++ value.written ++ ")"
  | yield _ (some value) false => "(yield " ++ value.written ++ ")"
  | yield _ none _ => "(yield)"

def writtenOption : Option Expr → String
  | none => ""
  | some e => e.written

def writtenStep : Option Expr → String
  | none => ""
  | some e => ":" ++ e.written

def writtenList : List Expr → List String
  | [] => []
  | e :: es => e.written :: writtenList es

def writtenEntries : List Entry → List String
  | [] => []
  | .pair key value :: es => (key.written ++ ": " ++ value.written) :: writtenEntries es
  | .unpack value :: es => unpacked value.written :: writtenEntries es

def writtenConditions : List Expr → String
  | [] => ""
  | e :: es => " if " ++ e.written ++ writtenConditions es

def writtenClauses : List Clause → String
  | [] => ""
  | .mk target iter conditions isAsync :: cs =>
    (if isAsync then " async for " else " for ") ++ target.written ++ " in " ++ iter.written ++
      writtenConditions conditions ++ writtenClauses cs

def writtenParameters : List Parameter → List String
  | [] => []
  | .mk _ kind id none none :: ps => (Parameter.mark kind ++ id) :: writtenParameters ps
  | .mk _ kind id (some hint) none :: ps =>
    (Parameter.mark kind ++ id ++ ": " ++ hint.written) :: writtenParameters ps
  | .mk _ kind id none (some standard) :: ps =>
    (Parameter.mark kind ++ id ++ "=" ++ standard.written) :: writtenParameters ps
  | .mk _ kind id (some hint) (some standard) :: ps =>
    (Parameter.mark kind ++ id ++ ": " ++ hint.written ++ " = " ++ standard.written) ::
      writtenParameters ps

end

theorem writtenList_eq_map (es : List Expr) : writtenList es = es.map written := by
  induction es with
  | nil => rfl
  | cons e es ih => simp [writtenList, ih]

end Expr

namespace Parameter

def written (p : Parameter) : String := String.join (Expr.writtenParameters [p])

end Parameter
end TypeWatch
