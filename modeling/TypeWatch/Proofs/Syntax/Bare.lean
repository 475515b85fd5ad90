import TypeWatch.Syntax.Written

/-! # Written forms without places

The written form of an expression does not depend on the places of its parts (`written_bare`). -/
namespace TypeWatch.Expr
set_option autoImplicit false

mutual

theorem written_bare : ∀ e : Expr, e.bare.written = e.written
  | name _ _ | constant _ _ => rfl
  | member s value attr => by simp only [bare, written, written_bare value]
  | subscript s value index => by
    have hindex := written_bare index
    cases index with
    | tuple s' elements => simp only [bare, written, written_bare value, writtenList_bare elements]
    | _ =>
      rw [bare, written, written, written_bare value, hindex]
      all_goals exact nofun
  | slice s lower upper step => by
    simp only [bare, written, writtenOption_bare lower, writtenOption_bare upper, writtenStep_bare step]
  | tuple s elements => by simp only [bare, written, writtenList_bare elements]
  | list s elements => by simp only [bare, written, writtenList_bare elements]
  | set s elements => by simp only [bare, written, writtenList_bare elements]
  | dict s entries => by simp only [bare, written, writtenEntries_bare entries]
  | call s callee arguments => by simp only [bare, written, written_bare callee, writtenList_bare arguments]
  | keyword s none value | keyword s (some label) value => by simp only [bare, written, written_bare value]
  | starred s value => by simp only [bare, written, written_bare value]
  | binary s left op right => by simp only [bare, written, written_bare left, written_bare right]
  | unary s op operand => by simp only [bare, written, written_bare operand]
  | lambda s parameters body => by
    simp only [bare, written, writtenParameters_bare parameters, written_bare body]
  | conditional s test body orelse => by
    simp only [bare, written, written_bare test, written_bare body, written_bare orelse]
  | comprehension s kind element none clauses => by
    simp only [bare, bareOption, written, written_bare element, writtenClauses_bare clauses]
  | comprehension s kind element (some value) clauses => by
    simp only [bare, bareOption, written, written_bare element, written_bare value, writtenClauses_bare clauses]
  | named s target value => by simp only [bare, written, written_bare target, written_bare value]
  | await s value => by simp only [bare, written, written_bare value]
  | yield s (some value) true | yield s (some value) false => by
    simp only [bare, bareOption, written, written_bare value]
  | yield s none delegates => by simp only [bare, bareOption, written]

theorem writtenOption_bare : ∀ o : Option Expr, writtenOption (bareOption o) = writtenOption o
  | none => rfl
  | some e => written_bare e

theorem writtenStep_bare : ∀ o : Option Expr, writtenStep (bareOption o) = writtenStep o
  | none => rfl
  | some e => by simp only [bareOption, writtenStep, written_bare e]

theorem writtenList_bare : ∀ es : List Expr, writtenList (bareList es) = writtenList es
  | [] => rfl
  | e :: es => by simp only [bareList, writtenList, written_bare e, writtenList_bare es]

theorem writtenEntries_bare : ∀ es : List Entry, writtenEntries (bareEntries es) = writtenEntries es
  | [] => rfl
  | .pair key value :: es => by
    simp only [bareEntries, writtenEntries, written_bare key, written_bare value, writtenEntries_bare es]
  | .unpack value :: es => by
    simp only [bareEntries, writtenEntries, written_bare value, writtenEntries_bare es]

theorem writtenConditions_bare : ∀ es : List Expr, writtenConditions (bareList es) = writtenConditions es
  | [] => rfl
  | e :: es => by simp only [bareList, writtenConditions, written_bare e, writtenConditions_bare es]

theorem writtenClauses_bare : ∀ cs : List Clause, writtenClauses (bareClauses cs) = writtenClauses cs
  | [] => rfl
  | .mk target iter conditions isAsync :: cs => by
    simp only [bareClauses, writtenClauses, written_bare target, written_bare iter,
      writtenConditions_bare conditions, writtenClauses_bare cs]

theorem writtenParameters_bare : ∀ ps : List Parameter, writtenParameters (bareParameters ps) = writtenParameters ps
  | [] => rfl
  | .mk s kind id none none :: ps => by
    simp only [bareParameters, bareOption, writtenParameters, writtenParameters_bare ps]
  | .mk s kind id (some hint) none :: ps => by
    simp only [bareParameters, bareOption, writtenParameters, written_bare hint, writtenParameters_bare ps]
  | .mk s kind id none (some standard) :: ps => by
    simp only [bareParameters, bareOption, writtenParameters, written_bare standard, writtenParameters_bare ps]
  | .mk s kind id (some hint) (some standard) :: ps => by
    simp only [bareParameters, bareOption, writtenParameters, written_bare hint, written_bare standard,
      writtenParameters_bare ps]

end

end TypeWatch.Expr
