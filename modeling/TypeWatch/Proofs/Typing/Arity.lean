import Mathlib.Data.List.Basic
import TypeWatch.Typing.Check

/-! # Numbers of arguments

Validation stops at the first container in a type that has a wrong number of arguments, whatever the value is
(`Descriptor.validate_eq`). If there is none, no value is ever held against such a container
(`Descriptor.accepts?_eq`). So a check tells that number or has an answer (`Descriptor.check_arity`). -/
namespace TypeWatch
set_option autoImplicit false

namespace Descriptor

variable {d : Descriptor}

/-! ## Parts of a type -/

mutual

/-- A type and the types in it, each before its arguments. -/
def nodes : Descriptor → List Descriptor
  | generic origin args => generic origin args :: nodesOfAll args
  | primitive cls => [primitive cls]
  | bare origin => [bare origin]

def nodesOfAll : List Descriptor → List Descriptor
  | [] => []
  | d :: ds => d.nodes ++ nodesOfAll ds

end

/-- The error of a type apart from those of its arguments. -/
def arityError? : Descriptor → Option ArityError
  | generic origin args => if args.length = origin.arity then none else some ⟨origin, args.length⟩
  | primitive _ | bare _ => none

theorem arityError?_eq_some {e : ArityError} : d.arityError? = some e ↔
    ∃ origin args, d = generic origin args ∧ args.length ≠ origin.arity ∧ e = ⟨origin, args.length⟩ := by
  cases d with
  | generic origin args =>
    rw [arityError?]
    split
    case isTrue h => simp [h]
    case isFalse h =>
      constructor
      · exact fun he => ⟨origin, args, rfl, h, (Option.some.inj he).symm⟩
      · rintro ⟨origin', args', hd, -, rfl⟩
        cases hd
        rfl
  | primitive cls => simp [arityError?]
  | bare origin => simp [arityError?]

theorem arityError?_eq_none : d.arityError? = none ↔
    ∀ origin args, d = generic origin args → args.length = origin.arity := by
  rw [Option.eq_none_iff_forall_ne_some]
  constructor
  · intro h origin args hd
    exact Decidable.byContradiction fun hne => h _ (arityError?_eq_some.mpr ⟨origin, args, hd, hne, rfl⟩)
  · intro h e he
    obtain ⟨origin, args, hd, hne, -⟩ := arityError?_eq_some.mp he
    exact hne (h origin args hd)

/-! ## Validation -/

/-- The first error of some types. -/
def firstError (ds : List Descriptor) : Except ArityError Unit :=
  match ds.findSome? arityError? with
  | some e => .error e
  | none => .ok ()

theorem firstError_append (ds es : List Descriptor) :
    firstError (ds ++ es) = (do firstError ds; firstError es) := by
  rw [firstError, firstError, List.findSome?_append]
  cases ds.findSome? arityError? <;> rfl

mutual

/-- Validation tells the first error in a type. -/
theorem validate_eq : ∀ d : Descriptor, d.validate = firstError d.nodes
  | primitive _ | bare _ => rfl
  | generic origin args => by
    rw [validate, nodes, firstError, List.findSome?_cons, arityError?]
    split
    · exact validateAll_eq args
    · rfl

theorem validateAll_eq : ∀ ds : List Descriptor, validateAll ds = firstError (nodesOfAll ds)
  | [] => rfl
  | d :: ds => by rw [validateAll, nodesOfAll, firstError_append, validate_eq d, validateAll_eq ds]

end

theorem validate_eq_error {e : ArityError} :
    d.validate = .error e ↔ d.nodes.findSome? arityError? = some e := by
  rw [validate_eq, firstError]
  cases d.nodes.findSome? arityError? <;> simp

theorem validate_eq_ok : d.validate = .ok () ↔ ∀ x ∈ d.nodes, x.arityError? = none := by
  rw [validate_eq, firstError, ← List.findSome?_eq_none_iff]
  cases d.nodes.findSome? arityError? <;> simp

theorem check_eq_error {v : Value} {e : ArityError} : d.check v = .error e ↔ d.validate = .error e := by
  rw [check]
  cases d.validate <;> simp [bind, Except.bind, pure, Except.pure]

theorem check_eq_ok {v : Value} {b : Bool} :
    d.check v = .ok b ↔ d.validate = .ok () ∧ d.accepts v = b := by
  rw [check]
  cases d.validate <;> simp [bind, Except.bind, pure, Except.pure]

theorem validateAll_eq_ok {ds : List Descriptor} : validateAll ds = .ok () ↔ ∀ d ∈ ds, d.validate = .ok () := by
  induction ds with
  | nil => simp [validateAll]
  | cons d ds ih =>
    rw [validateAll, List.forall_mem_cons, ← ih]
    cases d.validate <;> simp [bind, Except.bind]

theorem validate_generic {origin : Container} {args : List Descriptor} : (generic origin args).validate = .ok () ↔
    args.length = origin.arity ∧ ∀ d ∈ args, d.validate = .ok () := by
  rw [validate, ← validateAll_eq_ok]
  split <;> simp [*]

/-! ## Types that are allowed -/

/-- A type in which every container has its number of arguments. -/
inductive Valid : Descriptor → Prop
  | primitive (cls : ClassType) : Valid (primitive cls)
  | bare (origin : Container) : Valid (bare origin)
  | list {element : Descriptor} (h : Valid element) : Valid (generic .list [element])
  | set {element : Descriptor} (h : Valid element) : Valid (generic .set [element])
  | dict {key value : Descriptor} (hkey : Valid key) (hvalue : Valid value) : Valid (generic .dict [key, value])

theorem valid_of_validate : ∀ d : Descriptor, d.validate = .ok () → d.Valid
  | .primitive cls, _ => .primitive cls
  | .bare origin, _ => .bare origin
  | generic origin args, h => by
    obtain ⟨hlength, hargs⟩ := validate_generic.mp h
    have ih (d : Descriptor) (hd : d ∈ args) : d.Valid := valid_of_validate d (hargs d hd)
    cases origin with
    | list =>
      obtain ⟨element, rfl⟩ := List.length_eq_one_iff.mp hlength
      exact .list (ih _ (by simp))
    | set =>
      obtain ⟨element, rfl⟩ := List.length_eq_one_iff.mp hlength
      exact .set (ih _ (by simp))
    | dict =>
      obtain ⟨key, value, rfl⟩ := List.length_eq_two.mp hlength
      exact .dict (ih _ (by simp)) (ih _ (by simp))

/-! ## No value is held against a wrong container -/

/-- Acceptance step by step: members one after the other up to the first that is refused, and no answer once a container
with a wrong number of arguments comes up. -/
def accepts? : Descriptor → Value → Option Bool
  | primitive cls, v => some (v.isInstance cls)
  | bare .list, v => some v.listItems?.isSome
  | bare .set, v => some v.setItems?.isSome
  | bare .dict, v => some v.dictEntries?.isSome
  | generic .list [element], v => match v.listItems? with
    | some items => items.allM element.accepts?
    | none => some false
  | generic .set [element], v => match v.setItems? with
    | some items => items.allM element.accepts?
    | none => some false
  | generic .dict [key, value], v => match v.dictEntries? with
    | some entries => entries.allM fun e => do
      if ← key.accepts? e.1 then value.accepts? e.2 else some false
    | none => some false
  | generic _ _, _ => none

theorem allM_eq {α : Type} {p : α → Option Bool} {q : α → Bool} (xs : List α) (h : ∀ x, p x = some (q x)) :
    xs.allM p = some (xs.all q) := by
  induction xs with
  | nil => rfl
  | cons x xs ih =>
    rw [List.allM, h x, List.all_cons]
    cases q x with
    | true => exact ih
    | false => rfl

theorem accepts?_eq (h : d.Valid) (v : Value) : d.accepts? v = some (d.accepts v) := by
  induction h generalizing v with
  | primitive cls => rfl
  | bare origin => cases origin <;> rfl
  | list h ih =>
    rw [accepts?, accepts]
    cases v.listItems? with
    | some items => exact allM_eq items ih
    | none => rfl
  | set h ih =>
    rw [accepts?, accepts]
    cases v.setItems? with
    | some items => exact allM_eq items ih
    | none => rfl
  | @dict key value hkey hvalue ihkey ihvalue =>
    rw [accepts?, accepts]
    cases v.dictEntries? with
    | some entries =>
      refine allM_eq entries fun e => ?_
      rw [ihkey, ihvalue]
      cases key.accepts e.1 <;> rfl
    | none => rfl

theorem exists_error_iff {v : Value} : (∃ e, d.check v = .error e) ↔
    ∃ origin args, generic origin args ∈ d.nodes ∧ args.length ≠ origin.arity := by
  constructor
  · rintro ⟨e, h⟩
    obtain ⟨x, hx, he⟩ := List.exists_of_findSome?_eq_some (validate_eq_error.mp (check_eq_error.mp h))
    obtain ⟨origin, args, rfl, hne, -⟩ := arityError?_eq_some.mp he
    exact ⟨origin, args, hx, hne⟩
  · rintro ⟨origin, args, hmem, hne⟩
    cases h : d.validate with
    | ok => exact absurd (arityError?_eq_none.mp (validate_eq_ok.mp h _ hmem) _ _ rfl) hne
    | error e => exact ⟨e, check_eq_error.mpr h⟩

/-- A check fails just if some container in the type has a wrong number of arguments, be there values for it or not. It
tells the first one, with the number that it takes and the number that it has, whatever the value is. Otherwise there is
an answer, and on the way to it no value is held against a container with a wrong number of arguments. -/
theorem check_arity (d : Descriptor) (v : Value) :
    ((∃ e, d.check v = .error e) ↔ ∃ origin args, generic origin args ∈ d.nodes ∧ args.length ≠ origin.arity) ∧
    (∀ e, d.check v = .error e ↔ ∃ before origin args after, d.nodes = before ++ generic origin args :: after ∧
      (∀ o as, generic o as ∈ before → as.length = o.arity) ∧ args.length ≠ origin.arity ∧
      e = ⟨origin, args.length⟩ ∧ e.message = "malformed type: " ++ origin.name ++ " takes " ++
        toString origin.arity ++ " type argument(s), " ++ toString args.length ++ " given") ∧
    (∀ e, d.check v = .error e → ∀ w, d.check w = .error e) ∧
    ((∀ origin args, generic origin args ∈ d.nodes → args.length = origin.arity) →
      d.check v = .ok (d.accepts v) ∧ d.accepts? v = some (d.accepts v)) := by
  refine ⟨exists_error_iff, fun e => ?_, fun e h w => check_eq_error.mpr (check_eq_error.mp h), fun h => ?_⟩
  · rw [check_eq_error, validate_eq_error, List.findSome?_eq_some_iff]
    constructor
    · rintro ⟨before, x, after, hnodes, he, hbefore⟩
      obtain ⟨origin, args, rfl, hne, rfl⟩ := arityError?_eq_some.mp he
      exact ⟨before, origin, args, after, hnodes,
        fun o as hmem => arityError?_eq_none.mp (hbefore _ hmem) o as rfl, hne, rfl, rfl⟩
    · rintro ⟨before, origin, args, after, hnodes, hbefore, hne, rfl, -⟩
      refine ⟨before, _, after, hnodes, arityError?_eq_some.mpr ⟨origin, args, rfl, hne, rfl⟩, fun x hx => ?_⟩
      exact arityError?_eq_none.mpr fun o as hx' => hbefore o as (hx' ▸ hx)
  · have hvalid : d.validate = .ok () := validate_eq_ok.mpr fun x hx =>
      arityError?_eq_none.mpr fun o as hx' => h o as (hx' ▸ hx)
    exact ⟨check_eq_ok.mpr ⟨hvalid, rfl⟩, accepts?_eq (valid_of_validate d hvalid) v⟩

def misusedKeys : Descriptor := generic .list [generic .dict [ofBuiltin .int]]

/-- A type with two containers that have a wrong number of arguments, the first of them two levels down. -/
def misused : Descriptor := generic .dict [misusedKeys, generic .set []]

theorem check_arity_misused : misused.check (.dict []) = .error ⟨.dict, 1⟩ ∧
    misused.check .none = .error ⟨.dict, 1⟩ ∧
    (generic .list [ofBuiltin .int]).accepts? (.list [.none, .bool true]) = some false := by
  obtain ⟨-, htold, hsame, -⟩ := check_arity misused (.dict [])
  have hbefore (o : Container) (as : List Descriptor) (h : generic o as ∈ [misused, misusedKeys]) :
      as.length = o.arity := by
    simp only [misused, misusedKeys, List.mem_cons, generic.injEq, List.not_mem_nil, or_false] at h
    rcases h with ⟨rfl, rfl⟩ | ⟨rfl, rfl⟩ <;> rfl
  have hfirst : misused.check (.dict []) = .error ⟨.dict, 1⟩ :=
    (htold ⟨.dict, 1⟩).mpr ⟨[misused, misusedKeys], .dict, [ofBuiltin .int], [ofBuiltin .int, generic .set []], rfl,
      hbefore, by decide, rfl, rfl⟩
  obtain ⟨-, -, -, hanswer⟩ := check_arity (generic .list [ofBuiltin .int]) (.list [.none, .bool true])
  refine ⟨hfirst, hsame _ hfirst .none, (hanswer fun origin args h => ?_).2⟩
  simp only [nodes, nodesOfAll, ofBuiltin, List.append_nil, List.mem_cons, generic.injEq, reduceCtorEq,
    List.not_mem_nil, or_false] at h
  obtain ⟨rfl, rfl⟩ := h
  rfl

end Descriptor
end TypeWatch
