import TypeWatch.Proofs.Reading.Annotation
import TypeWatch.Proofs.Reading.PlainText
import TypeWatch.Proofs.Syntax.Bare
import TypeWatch.Proofs.Typing.Grounded

/-! # Resolution of written forms

A type expression denotes the same type as its written form (`resolve_iff_written`). Only plain expressions have
types, and a plain expression is read again from its written form, other places aside. Conversely, a written form
that has a type is clean, and only plain expressions have clean written forms. -/
namespace TypeWatch
set_option autoImplicit false

namespace Expr

/-! ## Places do not matter -/

theorem notAType_bare {α : Type} (e : Expr) : (e.bare.notAType : Except ResolveError α) = e.notAType := by
  rw [notAType, written_bare, notAType]

theorem evaluate_bare (env : Environment) (e : Expr) : e.bare.evaluate env = e.evaluate env := by
  have hno : (e.bare.notAType : Except ResolveError Value) = e.notAType := notAType_bare e
  cases e with
  | name => rfl
  | member s value attr =>
    have hwritten := written_bare (member s value attr)
    rw [bare] at hwritten
    rw [bare, evaluate, evaluate, evaluate_bare env value, hwritten]
  | _ => exact hno

section Quoted

variable {quoted : String → Resolved} {env : Environment}

theorem argumentResult_bare (e : Expr) (r : Resolved) : argumentResult e.bare r = argumentResult e r := by
  cases e with
  | slice s lower upper step =>
    have hwritten := written_bare (slice s lower upper step)
    rw [bare] at hwritten
    rw [bare, argumentResult, argumentResult, hwritten]
  | _ => rfl

mutual

theorem resolveWith_bare (e : Expr) : e.bare.resolveWith quoted env = e.resolveWith quoted env := by
  have hno : (e.bare.notAType : Resolved) = e.notAType := notAType_bare e
  have hwritten := written_bare e
  cases e with
  | name => rfl
  | member s value attr =>
    have hvalue := evaluate_bare env (member s value attr)
    rw [bare] at hvalue
    rw [bare, resolveWith, resolveWith, hvalue]
  | constant s value => cases value <;> rfl
  | subscript s value index =>
    have hindex := resolveWith_bare index
    cases index with
    | tuple s' elements => simp only [bare, resolveWith, evaluate_bare env value, resolveAll_bare elements]
    | _ =>
      rw [bare, resolveWith, resolveWith, evaluate_bare, hindex, argumentResult_bare]
      all_goals exact nofun
  | binary s left op right =>
    rw [bare] at hno hwritten
    rw [bare, resolveWith, resolveWith, resolveWith_bare left, resolveWith_bare right, operationType, operationType,
      hno, hwritten]
  | _ => exact hno

theorem resolveAll_bare : ∀ es : List Expr, resolveAll quoted env (bareList es) = resolveAll quoted env es
  | [] => rfl
  | e :: es => by
    rw [bareList, resolveAll, resolveAll, resolveWith_bare e, argumentResult_bare, resolveAll_bare es]

end

/-! ## Only plain expressions have types -/

theorem isPlain_of_evaluate {env : Environment} : ∀ {e : Expr} {v : Value}, evaluate env e = .ok v →
    e.isPlain = true
  | name .., _, _ => rfl
  | member s value attr, v, h => by
    obtain ⟨w, hw, -⟩ := exists_of_bind_ok h
    rw [isPlain]
    exact isPlain_of_evaluate hw
  | constant .., _, h | subscript .., _, h | slice .., _, h | tuple .., _, h | list .., _, h | set .., _, h
  | dict .., _, h | call .., _, h | keyword .., _, h | starred .., _, h | binary .., _, h | unary .., _, h
  | lambda .., _, h | conditional .., _, h | comprehension .., _, h | named .., _, h | await .., _, h
  | yield .., _, h => absurd h nofun

/-- A type has arguments that all are types. -/
theorem all_of_apply {target : Value} {arguments : List Resolved} {d : Descriptor}
    (h : apply target arguments = .ok d) : ∃ ds, all arguments = .ok ds := by
  obtain ⟨u, -, h⟩ := exists_of_bind_ok h
  split at h
  · obtain ⟨ds, hds, -⟩ := exists_of_bind_ok h
    exact ⟨ds, hds⟩
  · exact absurd h nofun

theorem of_argumentResult {e : Expr} {r : Resolved} {d : Descriptor} (h : argumentResult e r = .ok d) :
    r = .ok d := by
  cases e with
  | slice => exact absurd h nofun
  | _ => exact h

theorem operationType_ne {e : Expr} {op : BinaryOp} {left right : Resolved} {d : Descriptor} :
    operationType e op left right ≠ .ok d := by
  intro h
  unfold operationType at h
  split at h
  · obtain ⟨u, -, h⟩ := exists_of_bind_ok h
    exact absurd h nofun
  · exact absurd h nofun

mutual

theorem isPlain_of_resolveWith (e : Expr) {d : Descriptor} (h : e.resolveWith quoted env = .ok d) :
    e.isPlain = true := by
  cases e with
  | name => rfl
  | constant s value =>
    cases value with
    | number => exact absurd h nofun
    | _ => rfl
  | member s value attr =>
    rw [resolveWith] at h
    obtain ⟨v, hv, -⟩ := exists_of_bind_ok h
    exact isPlain_of_evaluate hv
  | subscript s value index =>
    have hindex {d' : Descriptor} : index.resolveWith quoted env = .ok d' → index.isPlain = true :=
      isPlain_of_resolveWith index
    cases index with
    | tuple s' elements =>
      rw [resolveWith] at h
      obtain ⟨v, hv, h⟩ := exists_of_bind_ok h
      obtain ⟨ds, hds⟩ := all_of_apply h
      rw [isPlain, isPlain_of_evaluate hv, isPlain, plainList_of_resolveAll elements hds]
      rfl
    | _ =>
      rw [resolveWith] at h
      · obtain ⟨v, hv, h⟩ := exists_of_bind_ok h
        obtain ⟨ds, hds⟩ := all_of_apply h
        obtain ⟨d', hd, -⟩ := exists_of_bind_ok hds
        rw [isPlain, isPlain_of_evaluate hv, hindex (of_argumentResult hd)]
        rfl
      · exact nofun
  | binary s left op right =>
    rw [resolveWith] at h
    exact absurd h operationType_ne
  | _ => exact absurd h nofun

theorem plainList_of_resolveAll (es : List Expr) {ds : List Descriptor}
    (h : all (resolveAll quoted env es) = .ok ds) : plainList es = true := by
  cases es with
  | nil => rfl
  | cons e es =>
    rw [resolveAll, all] at h
    obtain ⟨d, hd, h⟩ := exists_of_bind_ok h
    obtain ⟨ds', hds, -⟩ := exists_of_bind_ok h
    rw [plainList, isPlain_of_resolveWith e (of_argumentResult hd), plainList_of_resolveAll es hds]
    rfl

end

/-! ## Written forms -/

/-- The written form of a plain expression denotes what the expression does, or fails for the same reason. -/
theorem resolve_written {e : Expr} (hs : e.Spelled) (hp : e.isPlain = true) :
    Typing.resolve env e.written = e.resolve env := by
  obtain ⟨e', hread, hbare⟩ := ofText_written hs (isTight_of_isPlain e hp)
  calc Typing.resolve env e.written = e'.resolve env := Typing.resolve_of_ofText hread
    _ = e'.bare.resolve env := (resolveWith_bare e').symm
    _ = e.bare.resolve env := by rw [hbare]
    _ = e.resolve env := resolveWith_bare e

/-- An expression with a written form that has a type is plain. -/
theorem isPlain_of_resolve_written {e : Expr} (hs : e.Spelled) {d : Descriptor}
    (h : Typing.resolve env e.written = .ok d) : e.isPlain = true := by
  rw [Typing.resolve, Typing.resolveTextWith] at h
  split at h
  · cases h
  · rename_i e' hread
    have hclean := (Reading.ofText_shows hread).2 (isPlain_of_resolveWith e' h)
    rw [trimmed_written hs] at hclean
    exact plain_of_clean e hs [] Lexeme.edge_nil (by rwa [List.append_nil])

/-- An expression denotes a type if and only if its written form denotes it. -/
theorem resolve_iff_written {e : Expr} (hs : e.Spelled) (d : Descriptor) :
    e.resolve env = .ok d ↔ Typing.resolve env e.written = .ok d := by
  constructor
  · intro h
    rwa [resolve_written hs (isPlain_of_resolveWith e h)]
  · intro h
    rwa [← resolve_written hs (isPlain_of_resolve_written hs h)]

end Quoted

end Expr

/-! ## Sources -/

/-- An expression that is read from a source: an annotation of the module, or the source as a whole. -/
def Annotates (source : String) (e : Expr) : Prop :=
  (∃ m, Module.ofText source = .ok m ∧ e ∈ m.annotations) ∨ Expr.ofText source = .ok e

theorem Annotates.spelled {source : String} {e : Expr} (h : Annotates source e) : e.Spelled := by
  rcases h with ⟨m, hread, he⟩ | hread
  · exact Reading.ofText_annotations hread e he
  · exact (Reading.ofText_shows hread).1

/-- What an annotation of a source denotes is what the text denotes as which it is written. -/
theorem Annotates.denotes_written {source : String} {e : Expr} (h : Annotates source e) (env : Environment)
    (d : Descriptor) : e.resolve env = .ok d ↔ Typing.resolve env e.written = .ok d :=
  Expr.resolve_iff_written h.spelled d

/-- Annotations with parentheses, commas and quotes that the written form has in another way or not at all. -/
def annotatedSource : String :=
  "def f(a: (dict)[str, ((list[int])),], *b: t.T[()]) -> \"list[int]\":\n    x: int | 3 = a\n"

def annotatedTexts : List String := ["dict[str, list[int]]", "t.T[()]", "'list[int]'", "int | 3"]

theorem exists_annotated : ∃ m, Module.ofText annotatedSource = .ok m ∧ m.annotations.map Expr.written = annotatedTexts := by
  have hread : (Module.ofText annotatedSource).toOption.map (fun m => m.annotations.map Expr.written) =
      some annotatedTexts := by decide +kernel
  obtain ⟨m, hm, htexts⟩ := Option.map_eq_some_iff.mp hread
  cases h : Module.ofText annotatedSource with
  | ok m' =>
    rw [h] at hm
    obtain rfl := Option.some.inj hm
    exact ⟨m', rfl, htexts⟩
  | error e =>
    rw [h] at hm
    exact absurd hm nofun

theorem annotated_denotes_written : ∃ m, Module.ofText annotatedSource = .ok m ∧
    m.annotations.map Expr.written = annotatedTexts ∧ ∀ e ∈ m.annotations, ∀ env d,
      e.resolve env = .ok d ↔ Typing.resolve env e.written = .ok d := by
  obtain ⟨m, hm, htexts⟩ := exists_annotated
  exact ⟨m, hm, htexts, fun e he => Annotates.denotes_written (Or.inl ⟨m, hm, he⟩)⟩

end TypeWatch
