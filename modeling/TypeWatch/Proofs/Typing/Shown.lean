import TypeWatch.Proofs.Typing.Resolution

/-! # Types that are values

A value that is a type shows itself as the text of an annotation. The text is the written form of an expression
(`Value.typeTree`), and the expression is resolved part by part as the value is, so that value and text denote the
same type (`Value.resolve_typeText`). -/
namespace TypeWatch
set_option autoImplicit false

/-! ## Arguments -/

namespace Expr

/-- Arguments as the index of a subscript. One stands alone, more than one are a tuple. -/
def indexOf : List Expr → Expr
  | [e] => e
  | es => tuple default es

section Index

variable {value : Expr} {es : List Expr}

theorem written_indexOf (hne : es ≠ []) (h : ∀ e ∈ es, ∀ s fs, e ≠ tuple s fs) :
    (subscript default value (indexOf es)).written =
      value.written ++ "[" ++ commaSeparated (es.map written) ++ "]" := by
  cases es with
  | nil => exact absurd rfl hne
  | cons e es =>
    cases es with
    | nil =>
      rw [indexOf, written]
      · rfl
      · exact h e List.mem_cons_self
    | cons e' es =>
      rw [indexOf, written, writtenList_eq_map]
      · rfl
      · rintro x ⟨⟩

theorem resolveWith_indexOf {quoted : String → Resolved} {env : Environment}
    (h : ∀ e ∈ es, ∀ s fs, e ≠ tuple s fs) :
    (subscript default value (indexOf es)).resolveWith quoted env =
      (do apply (← evaluate env value) (resolveAll quoted env es)) := by
  cases es with
  | nil => rw [indexOf, resolveWith]; rintro x ⟨⟩
  | cons e es =>
    cases es with
    | nil =>
      rw [indexOf, resolveWith]
      · rfl
      · exact h e List.mem_cons_self
    | cons e' es =>
      rw [indexOf, resolveWith]
      rintro x ⟨⟩

theorem isPlain_indexOf (h : ∀ e ∈ es, e.isPlain = true) : (indexOf es).isPlain = true := by
  unfold indexOf
  split
  · exact h _ List.mem_cons_self
  · rw [isPlain, plainList_iff]
    exact h

theorem spelledList_iff : spelledList es ↔ ∀ e ∈ es, e.Spelled := by
  induction es with
  | nil => simp [spelledList]
  | cons e es ih => simp [spelledList, ih]

theorem spelled_indexOf (h : ∀ e ∈ es, e.Spelled) : (indexOf es).Spelled := by
  unfold indexOf
  split
  · exact h _ List.mem_cons_self
  · rw [Spelled, spelledList_iff]
    exact h

end Index

theorem demandNames_of_ok {results : List Resolved} (h : ∀ r ∈ results, ∃ d, r = .ok d) :
    demandNames results = .ok () := by
  have hnone : results.findSome? unresolved? = none := by
    refine List.findSome?_eq_none_iff.mpr fun r hr => ?_
    obtain ⟨d, rfl⟩ := h r hr
    rfl
  rw [demandNames, hnone]

theorem exists_all {results : List Resolved} (h : ∀ r ∈ results, ∃ d, r = .ok d) :
    ∃ ds, all results = .ok ds := by
  induction results with
  | nil => exact ⟨[], rfl⟩
  | cons r rs ih =>
    obtain ⟨hr, hrs⟩ := List.forall_mem_cons.mp h
    obtain ⟨d, rfl⟩ := hr
    obtain ⟨ds, hds⟩ := ih hrs
    exact ⟨d :: ds, by rw [all, hds]; rfl⟩

/-- A container makes a type of arguments that all are types. -/
theorem apply_of_container {target : Value} {origin : Container} (horigin : target.container? = some origin)
    {results : List Resolved} (h : ∀ r ∈ results, ∃ d, r = .ok d) :
    apply target results = (do return .generic origin (← all results)) := by
  rw [apply, demandNames_of_ok h, horigin]
  rfl

end Expr

/-! ## Values -/

namespace Value

/-- Whether a value is a type that annotations can name: `None`, a class that is bound everywhere, a form that is
another name of a class, or a checked container with arguments of this kind, whatever their number. -/
inductive IsType : Value → Prop
  | none : IsType none
  | type {b : Builtin} (h : b.name ∈ Namespace.builtins.names) : IsType (type (.builtin b))
  | form {f : TypingForm} (h : f ∈ [TypingForm.list, .set, .dict, .frozenset, .tuple]) : IsType (form f)
  | applied (origin : Container) {args : List Value} (hne : args ≠ []) (h : ∀ a ∈ args, IsType a) :
    IsType (applied (.builtin origin.builtin) args)

mutual

/-- The expression that a type is shown as. -/
def typeTree : Value → Expr
  | type cls => .name default cls.name
  | form f => .member default (.name default "typing") f.name
  | applied origin args => .subscript default (.name default origin.name) (Expr.indexOf (typeTrees args))
  | _ => .constant default .noneWord

def typeTrees : List Value → List Expr
  | [] => []
  | v :: vs => v.typeTree :: typeTrees vs

end

theorem typeTrees_eq_map (vs : List Value) : typeTrees vs = vs.map typeTree := by
  induction vs with
  | nil => rfl
  | cons v vs ih => rw [typeTrees, ih, List.map_cons]

theorem textsIn_eq_map (inType : Bool) (vs : List Value) : textsIn inType vs = vs.map (textIn inType) := by
  induction vs with
  | nil => rfl
  | cons v vs ih => rw [textsIn, ih, List.map_cons]

theorem descriptors_eq_all (vs : List Value) : descriptors vs = Expr.all (vs.map descriptor) := by
  induction vs with
  | nil => rfl
  | cons v vs ih => rw [descriptors, List.map_cons, Expr.all, ih]

theorem isName_of_builtin {b : Builtin} (h : b.name ∈ Namespace.builtins.names) : IsName b.name := by
  cases b
  case noneType | genericAlias | specialForm | module | function => exact absurd h (by decide)
  all_goals exact ⟨⟨_, _, rfl, by decide⟩, Lexeme.forall_of_all (by decide), by decide⟩

theorem isName_form (f : TypingForm) : IsName "typing" ∧ IsName f.name := by
  refine ⟨⟨⟨_, _, rfl, by decide⟩, Lexeme.forall_of_all (by decide), by decide⟩, ?_⟩
  cases f <;> exact ⟨⟨_, _, rfl, by decide⟩, Lexeme.forall_of_all (by decide), by decide⟩

theorem container_mem_builtins (origin : Container) : origin.builtin.name ∈ Namespace.builtins.names := by
  cases origin <;> decide

/-! ## Expressions of types -/

namespace IsType

variable {v : Value}

theorem typeTree_ne (h : v.IsType) (s : Span) (es : List Expr) : v.typeTree ≠ .tuple s es := by
  cases h <;> rintro ⟨⟩

theorem typeTrees_ne {vs : List Value} (h : ∀ v ∈ vs, v.IsType) :
    ∀ e ∈ typeTrees vs, ∀ s es, e ≠ .tuple s es := by
  rw [typeTrees_eq_map]
  exact List.forall_mem_map.mpr fun v hv => (h v hv).typeTree_ne

/-- A type is shown as its expression is written. -/
theorem written_typeTree (h : v.IsType) : v.typeTree.written = v.typeText := by
  induction h with
  | none | type | form => rfl
  | @applied origin args hne h ih =>
    have htrees : (typeTrees args).map Expr.written = textsIn true args := by
      rw [typeTrees_eq_map, textsIn_eq_map, List.map_map]
      exact List.map_congr_left ih
    have hsome : typeTrees args ≠ [] := by rwa [typeTrees_eq_map, ne_eq, List.map_eq_nil_iff]
    rw [typeTree, Expr.written_indexOf hsome (typeTrees_ne h), htrees, Expr.written]
    rfl

theorem isPlain_typeTree (h : v.IsType) : v.typeTree.isPlain = true := by
  induction h with
  | none | type | form => rfl
  | applied origin hne h ih =>
    rw [typeTree, Expr.isPlain, Expr.isPlain, typeTrees_eq_map, Expr.isPlain_indexOf, Bool.and_self]
    exact List.forall_mem_map.mpr ih

theorem spelled_typeTree (h : v.IsType) : v.typeTree.Spelled := by
  induction h with
  | none => trivial
  | type h => exact isName_of_builtin h
  | @form f h => exact isName_form f
  | applied origin hne h ih =>
    rw [typeTree, typeTrees_eq_map]
    exact ⟨isName_of_builtin (container_mem_builtins origin), Expr.spelled_indexOf (List.forall_mem_map.mpr ih)⟩

end IsType

end Value

/-! ## Environments -/

/-- Environments in which the names of the classes that are bound everywhere mean these classes, and `typing` means
the module of that name. -/
structure Environment.IsStandard (env : Environment) : Prop where
  unbound : ∀ name ∈ Namespace.builtins.names, env.locals.get? name = none ∧ env.globals.get? name = none
  typing : env.get? "typing" = some Namespace.typingModule

namespace Value

section Resolution

variable {env : Environment} {quoted : String → Resolved} {v : Value}

theorem get?_builtin (henv : env.IsStandard) {b : Builtin} (h : b.name ∈ Namespace.builtins.names) :
    env.get? b.name = some (type (.builtin b)) := by
  have hbound : Namespace.builtins.get? b.name = some (type (.builtin b)) := by
    cases b
    case noneType | genericAlias | specialForm | module | function => exact absurd h (by decide)
    all_goals rfl
  obtain ⟨hlocals, hglobals⟩ := henv.unbound _ h
  rw [Environment.get?, hlocals, hglobals, hbound]
  rfl

theorem evaluate_form (henv : env.IsStandard) (f : TypingForm) :
    (Expr.member default (.name default "typing") f.name).evaluate env = .ok (form f) := by
  have hbound : Namespace.typingNames.bindings.lookup f.name = some (form f) := by cases f <;> rfl
  rw [Expr.evaluate, Expr.evaluate, henv.typing]
  simp only [Namespace.typingModule, bind, Except.bind, hbound]

/-- A container with arguments is the type that they make. -/
theorem descriptor_applied (origin : Container) (args : List Value) :
    (applied (.builtin origin.builtin) args).descriptor =
      (do return .generic origin (← Expr.all (args.map descriptor))) := by
  have horigin : (ClassType.builtin origin.builtin).builtin?.bind Container.ofBuiltin? = some origin := by
    cases origin <;> rfl
  rw [descriptor, horigin, descriptors_eq_all]

theorem resolveAll_typeTrees {vs : List Value} (htypes : ∀ v ∈ vs, v.IsType)
    (h : ∀ v ∈ vs, v.typeTree.resolveWith quoted env = v.descriptor) :
    Expr.resolveAll quoted env (typeTrees vs) = vs.map descriptor := by
  induction vs with
  | nil => rfl
  | cons v vs ih =>
    obtain ⟨hv, hvs⟩ := List.forall_mem_cons.mp h
    obtain ⟨htype, htypes⟩ := List.forall_mem_cons.mp htypes
    rw [typeTrees, Expr.resolveAll, hv, ih htypes hvs, List.map_cons]
    -- the expression of a type is no slice
    cases htype <;> rfl

namespace IsType

theorem exists_descriptor (h : v.IsType) : ∃ d, v.descriptor = .ok d := by
  induction h with
  | none => exact ⟨_, rfl⟩
  | @type b h => cases b <;> exact ⟨_, rfl⟩
  | @form f h =>
    cases f
    case optional | union | any | callable => exact absurd h (by decide)
    all_goals exact ⟨_, rfl⟩
  | @applied origin args hne h ih =>
    obtain ⟨ds, hds⟩ := Expr.exists_all (List.forall_mem_map.mpr ih)
    exact ⟨.generic origin ds, by rw [descriptor_applied, hds]; rfl⟩

/-- The expression of a type is resolved to what the value is as a type. -/
theorem resolveWith_typeTree (henv : env.IsStandard) (h : v.IsType) :
    v.typeTree.resolveWith quoted env = v.descriptor := by
  induction h with
  | none => rfl
  | @type b h =>
    rw [typeTree, Expr.resolveWith, Expr.evaluate, ClassType.name, get?_builtin henv h]
    rfl
  | @form f h =>
    rw [typeTree, Expr.resolveWith, evaluate_form henv]
    rfl
  | @applied origin args hne h ih =>
    have hname : (Expr.name default origin.name).evaluate env = .ok (Value.type (.builtin origin.builtin)) := by
      rw [Expr.evaluate, Container.name, get?_builtin henv (container_mem_builtins origin)]
    have htarget : (Value.type (.builtin origin.builtin)).container? = some origin := by cases origin <;> rfl
    have hok : ∀ r ∈ args.map descriptor, ∃ d, r = .ok d :=
      List.forall_mem_map.mpr fun a ha => (h a ha).exists_descriptor
    rw [typeTree, Expr.resolveWith_indexOf (typeTrees_ne h), resolveAll_typeTrees h ih, descriptor_applied,
      ← Expr.apply_of_container htarget hok]
    exact congrArg (fun target => target >>= fun v => Expr.apply v (args.map descriptor)) hname

end IsType

end Resolution

/-- The text that a type shows itself as denotes the type that the value is. -/
theorem resolve_typeText {v : Value} (h : v.IsType) {env : Environment} (henv : env.IsStandard) :
    ∃ d, Typing.resolve env v.typeText = .ok d ∧ v.descriptor = .ok d := by
  obtain ⟨d, hd⟩ := h.exists_descriptor
  refine ⟨d, ?_, hd⟩
  calc Typing.resolve env v.typeText = Typing.resolve env v.typeTree.written := by rw [h.written_typeTree]
    _ = v.typeTree.resolve env := Expr.resolve_written h.spelled_typeTree h.isPlain_typeTree
    _ = v.descriptor := h.resolveWith_typeTree henv
    _ = .ok d := hd

/-- Containers with too many and with too few arguments, a bare one, a form that is no container, and `None`. -/
def nestedType : Value :=
  applied (.builtin .dict) [
    applied (.builtin .list) [none, form .set],
    applied (.builtin .dict) [applied (.builtin .set) [type (.builtin .dict)]],
    form .tuple]

theorem isType_nestedType : nestedType.IsType := by
  have hset : (applied (.builtin .set) [type (.builtin .dict)]).IsType :=
    .applied .set (List.cons_ne_nil _ _) (List.forall_mem_singleton.mpr (.type (by decide)))
  have hlist : (applied (.builtin .list) [none, form .set]).IsType :=
    .applied .list (List.cons_ne_nil _ _)
      (List.forall_mem_cons.mpr ⟨.none, List.forall_mem_singleton.mpr (.form (by decide))⟩)
  have hdict : (applied (.builtin .dict) [applied (.builtin .set) [type (.builtin .dict)]]).IsType :=
    .applied .dict (List.cons_ne_nil _ _) (List.forall_mem_singleton.mpr hset)
  exact .applied .dict (List.cons_ne_nil _ _) (List.forall_mem_cons.mpr ⟨hlist, List.forall_mem_cons.mpr
    ⟨hdict, List.forall_mem_singleton.mpr (.form (by decide))⟩⟩)

theorem isStandard_typingGlobals : (Environment.mk .empty .typingGlobals).IsStandard :=
  ⟨by decide, rfl⟩

theorem resolve_nestedTypeText : nestedType.IsType ∧ (Environment.mk .empty .typingGlobals).IsStandard ∧
    nestedType.typeText = "dict[list[None, typing.Set], dict[set[dict]], typing.Tuple]" ∧
    ∃ d, Typing.resolve ⟨.empty, .typingGlobals⟩ nestedType.typeText = .ok d ∧ nestedType.descriptor = .ok d :=
  ⟨isType_nestedType, isStandard_typingGlobals, by decide, resolve_typeText isType_nestedType isStandard_typingGlobals⟩

end Value

end TypeWatch
