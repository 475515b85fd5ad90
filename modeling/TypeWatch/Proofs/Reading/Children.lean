import TypeWatch.Proofs.Reading.NestedStmt

/-! # The children of an expression that is read

The children of an expression are what it holds (`Expr.mem_children_iff`), the annotations of a lambda's
parameters aside, which are never there in an expression that is read. Each is a child once, and the
children stand one after the other in the source unless the expression is a conditional, which has its
test before its body (`Expr.children_read`). -/
namespace TypeWatch
set_option autoImplicit false

/-! ## What a node holds -/

namespace Entry

inductive Holds : Entry → Expr → Prop
  | key {key value : Expr} : Holds (.pair key value) key
  | value {key value : Expr} : Holds (.pair key value) value
  | unpacked {value : Expr} : Holds (.unpack value) value

theorem mem_parts_iff {entry : Entry} {x : Expr} : x ∈ entry.parts ↔ entry.Holds x := by
  constructor
  · intro h
    cases entry with
    | pair key value =>
      simp only [parts, List.mem_cons, List.not_mem_nil, or_false] at h
      rcases h with rfl | rfl
      · exact .key
      · exact .value
    | unpack value =>
      obtain rfl := List.mem_singleton.mp h
      exact .unpacked
  · intro h
    cases h <;> simp [parts]

end Entry

namespace Clause

inductive Holds : Clause → Expr → Prop
  | target {target iter : Expr} {conditions : List Expr} {isAsync : Bool} :
      Holds (.mk target iter conditions isAsync) target
  | iter {target iter : Expr} {conditions : List Expr} {isAsync : Bool} :
      Holds (.mk target iter conditions isAsync) iter
  | condition {target iter x : Expr} {conditions : List Expr} {isAsync : Bool} :
      x ∈ conditions → Holds (.mk target iter conditions isAsync) x

theorem mem_parts_iff {clause : Clause} {x : Expr} : x ∈ clause.parts ↔ clause.Holds x := by
  constructor
  · intro h
    obtain ⟨target, iter, conditions, isAsync⟩ := clause
    simp only [parts, List.mem_cons] at h
    rcases h with rfl | rfl | h
    · exact .target
    · exact .iter
    · exact .condition h
  · intro h
    cases h with
    | condition h => simp [parts, h]
    | _ => simp [parts]

end Clause

namespace Expr

/-- An expression is an operand of another one, an element, a key, an argument, or in whatever other part
of it there is a place for an expression. -/
inductive Holds : Expr → Expr → Prop
  | object {s : Span} {value : Expr} {attr : String} : Holds (.member s value attr) value
  | container {s : Span} {value index : Expr} : Holds (.subscript s value index) value
  | index {s : Span} {value index : Expr} : Holds (.subscript s value index) index
  | lower {s : Span} {x : Expr} {upper step : Option Expr} : Holds (.slice s (some x) upper step) x
  | upper {s : Span} {x : Expr} {lower step : Option Expr} : Holds (.slice s lower (some x) step) x
  | step {s : Span} {x : Expr} {lower upper : Option Expr} : Holds (.slice s lower upper (some x)) x
  | inTuple {s : Span} {x : Expr} {elements : List Expr} : x ∈ elements → Holds (.tuple s elements) x
  | inList {s : Span} {x : Expr} {elements : List Expr} : x ∈ elements → Holds (.list s elements) x
  | inSet {s : Span} {x : Expr} {elements : List Expr} : x ∈ elements → Holds (.set s elements) x
  | inDict {s : Span} {x : Expr} {entries : List Entry} {entry : Entry} :
      entry ∈ entries → entry.Holds x → Holds (.dict s entries) x
  | callee {s : Span} {callee : Expr} {arguments : List Expr} : Holds (.call s callee arguments) callee
  | argument {s : Span} {callee x : Expr} {arguments : List Expr} :
      x ∈ arguments → Holds (.call s callee arguments) x
  | keyword {s : Span} {name : Option String} {value : Expr} : Holds (.keyword s name value) value
  | starred {s : Span} {value : Expr} : Holds (.starred s value) value
  | left {s : Span} {left right : Expr} {op : BinaryOp} : Holds (.binary s left op right) left
  | right {s : Span} {left right : Expr} {op : BinaryOp} : Holds (.binary s left op right) right
  | operand {s : Span} {operand : Expr} {op : UnaryOp} : Holds (.unary s op operand) operand
  | hint {s : Span} {parameters : List Parameter} {body x : Expr} {p : Parameter} :
      p ∈ parameters → p.hint = some x → Holds (.lambda s parameters body) x
  | standard {s : Span} {parameters : List Parameter} {body x : Expr} {p : Parameter} :
      p ∈ parameters → p.standard = some x → Holds (.lambda s parameters body) x
  | lambdaBody {s : Span} {parameters : List Parameter} {body : Expr} :
      Holds (.lambda s parameters body) body
  | test {s : Span} {test body orelse : Expr} : Holds (.conditional s test body orelse) test
  | body {s : Span} {test body orelse : Expr} : Holds (.conditional s test body orelse) body
  | orelse {s : Span} {test body orelse : Expr} : Holds (.conditional s test body orelse) orelse
  | element {s : Span} {kind : ComprehensionKind} {element : Expr} {value : Option Expr}
      {clauses : List Clause} : Holds (.comprehension s kind element value clauses) element
  | entryValue {s : Span} {kind : ComprehensionKind} {element x : Expr} {clauses : List Clause} :
      Holds (.comprehension s kind element (some x) clauses) x
  | inClause {s : Span} {kind : ComprehensionKind} {element x : Expr} {value : Option Expr}
      {clauses : List Clause} {clause : Clause} :
      clause ∈ clauses → clause.Holds x → Holds (.comprehension s kind element value clauses) x
  | target {s : Span} {target value : Expr} : Holds (.named s target value) target
  | namedValue {s : Span} {target value : Expr} : Holds (.named s target value) value
  | awaited {s : Span} {value : Expr} : Holds (.await s value) value
  | yielded {s : Span} {x : Expr} {delegates : Bool} : Holds (.yield s (some x) delegates) x

theorem Holds.of_mem {e x : Expr} (h : x ∈ e.children) : e.Holds x := by
  cases e with
  | name | constant => exact absurd h List.not_mem_nil
  | member | keyword | starred | unary | await =>
    obtain rfl := List.mem_singleton.mp h
    constructor
  | subscript | binary | named | conditional =>
    simp only [children, List.mem_cons, List.not_mem_nil, or_false] at h
    rcases h with rfl | rfl | rfl <;> constructor
  | slice s lower upper step =>
    simp only [children, List.mem_append, Option.mem_toList] at h
    rcases h with (rfl | rfl) | rfl
    · exact .lower
    · exact .upper
    · exact .step
  | tuple => exact .inTuple h
  | list => exact .inList h
  | set => exact .inSet h
  | dict s entries =>
    obtain ⟨entry, hentry, h⟩ := List.mem_flatMap.mp h
    exact .inDict hentry (Entry.mem_parts_iff.mp h)
  | call =>
    rcases List.mem_cons.mp h with rfl | h
    · exact .callee
    · exact .argument h
  | lambda s parameters body =>
    rcases List.mem_append.mp h with h | h
    · obtain ⟨p, hp, h⟩ := List.mem_filterMap.mp h
      exact .standard hp h
    · obtain rfl := List.mem_singleton.mp h
      exact .lambdaBody
  | comprehension s kind element value clauses =>
    simp only [children, List.cons_append, List.mem_cons, List.mem_append, Option.mem_toList,
      List.mem_flatMap] at h
    rcases h with rfl | rfl | ⟨clause, hclause, h⟩
    · exact .element
    · exact .entryValue
    · exact .inClause hclause (Clause.mem_parts_iff.mp h)
  | yield s value delegates =>
    obtain rfl := Option.mem_toList.mp h
    exact .yielded

/-- The annotations of a lambda's parameters are the only expressions in another one that are no children. -/
theorem Holds.mem {e x : Expr} (h : e.Holds x) (hplain : (Node.expr e).Plain) : x ∈ e.children := by
  cases h with
  | hint hp hhint => rw [hplain _ hp] at hhint; contradiction
  | standard hp hstandard =>
    exact List.mem_append_left _ (List.mem_filterMap.mpr ⟨_, hp, hstandard⟩)
  | inDict hentry h => exact List.mem_flatMap.mpr ⟨_, hentry, Entry.mem_parts_iff.mpr h⟩
  | inClause hclause h =>
    exact List.mem_append_right _ (List.mem_flatMap.mpr ⟨_, hclause, Clause.mem_parts_iff.mpr h⟩)
  | _ => simp_all [children]

/-- The children of an expression without annotated lambdas are what it holds. -/
theorem mem_children_iff {e x : Expr} (h : (Node.expr e).Plain) : x ∈ e.children ↔ e.Holds x :=
  ⟨Holds.of_mem, fun hx => hx.mem h⟩

/-! ## Their order -/

/-- One expression ends before another one begins. -/
def Precedes (a b : Expr) : Prop := a.span.stop ≤ b.span.start

section Tidy

variable {tokens : List Token} {e : Expr}

theorem child_nonempty (h : Node.Tidy tokens (.expr e)) {x : Expr} (hx : x ∈ e.children) :
    x.span.start < x.span.stop := (h.of_has (Node.has_child hx)).1.marked.lt

/-- Expressions apart from each other are different, as none of them is empty. -/
theorem nodup_children (h : Node.Tidy tokens (.expr e)) : e.children.Nodup := by
  refine h.children_apart.imp_of_mem ?_
  rintro a b ha - hapart rfl
  have hlt := child_nonempty h ha
  have hle : a.span.stop ≤ a.span.start := by
    rcases hapart with hle | hle <;> exact hle
  exact Position.lt_irrefl _ (Position.lt_of_lt_of_le hlt hle)

/-- The test of a conditional is its first child, and its body stands before the test. -/
theorem children_precede_iff (h : Node.Tidy tokens (.expr e)) :
    e.children.Pairwise Precedes ↔ e.isConditional = false := by
  constructor
  · intro hordered
    cases e with
    | conditional s test body orelse =>
      have hbody := child_nonempty h (x := body) (List.mem_cons_of_mem _ List.mem_cons_self)
      have htest := child_nonempty h (x := test) List.mem_cons_self
      have hforth : test.span.stop ≤ body.span.start :=
        (List.pairwise_cons.mp hordered).1 body List.mem_cons_self
      have hback : body.span.stop ≤ test.span.start :=
        (List.pairwise_cons.mp h.conditional_ordered).1 test List.mem_cons_self
      have hround : test.span.stop < test.span.stop :=
        Position.lt_of_le_of_lt hforth
          (Position.lt_of_lt_of_le hbody (Position.le_trans hback (Position.le_of_lt htest)))
      exact absurd hround (Position.lt_irrefl _)
    | _ => rfl
  · exact h.children_ordered

end Tidy

/-! ## Expressions that are read -/

/-- An expression is read if a text is that expression or one with it somewhere below, or if it is
somewhere in the module that a text is. -/
inductive IsRead (e : Expr) : Prop
  | alone {source : String} {root : Expr} :
      ofText source = .ok root → Node.Has (.expr root) (.expr e) → IsRead e
  | inModule {source : String} {m : Module} :
      Module.ofText source = .ok m → Node.Has m.node (.expr e) → IsRead e

end Expr

namespace Node

theorem Unhinted.of_has {n k : Node} (h : n.Unhinted) (hk : n.Has k) : k.Unhinted := by
  induction hk with
  | self => exact h
  | within hm _ ih => exact ih (h.part hm)

end Node

namespace Reading

variable {tokens : List Token} {c d : Cursor}

/-- What is laid is tidy and has no lambda with annotations, and so is all that is below it. -/
theorem Lays.of_has {ns : List Node} {n k : Node} (h : Lays tokens c ns d) (hc : c.Among tokens) (hn : n ∈ ns)
    (hk : n.Has k) : k.Tidy tokens ∧ k.Unhinted :=
  ⟨((h.tidy hc n hn).of_has hk).1, (h.unhinted n hn).of_has hk⟩

theorem among_ofTokens {source : String} (h : tokenize source = .ok tokens) :
    (Cursor.ofTokens tokens).Among tokens :=
  ⟨Cursor.ofTokens_sound (tokenize_placed h), fun _ ht => (Cursor.ofTokens_prefix tokens).subset ht⟩

end Reading

namespace Expr

open Reading

theorem ofTokens_lays {tokens : List Token} {e : Expr} (h : ofTokens tokens = .ok e) :
    ∃ d, LaysExpr tokens (Cursor.ofTokens tokens) e d := by
  obtain ⟨⟨root, d, hlt⟩, hread, h⟩ := exists_of_bind_ok h
  have hlays := exprList_lays (laysExprs_exprBelow tokens _) _ _ _ _ hread
  dsimp only at h
  split at h
  · obtain rfl := Except.ok.inj h
    exact ⟨d, hlays⟩
  · contradiction

theorem IsRead.tidy {e : Expr} (h : e.IsRead) :
    ∃ tokens, Node.Tidy tokens (.expr e) ∧ (Node.expr e).Unhinted := by
  cases h with
  | alone hroot hhas =>
    obtain ⟨tokens, htokens, hroot⟩ := exists_of_bind_ok hroot
    obtain ⟨d, hlays⟩ := ofTokens_lays hroot
    exact ⟨tokens, hlays.lays.of_has (among_ofTokens htokens) (List.mem_singleton.mpr rfl) hhas⟩
  | inModule hm hhas =>
    obtain ⟨tokens, htokens, hm⟩ := exists_of_bind_ok hm
    obtain ⟨d, hlays⟩ := Reading.ofTokens_lays hm
    cases hhas with
    | within hpart hhas => exact ⟨tokens, hlays.of_has (among_ofTokens htokens) hpart hhas⟩

/-- The children of an expression that is read are all that it holds, each of them once, and they stand in
the order of the source unless it is a conditional. A conditional has its test first, and the order of the
source is body, test and alternative. -/
theorem children_read {e : Expr} (h : e.IsRead) :
    (∀ x, x ∈ e.children ↔ e.Holds x) ∧ e.children.Nodup ∧
      (∀ x ∈ e.children, x.span.start < x.span.stop) ∧
      (e.children.Pairwise Precedes ↔ e.isConditional = false) ∧
      ∀ s test body orelse, e = .conditional s test body orelse →
        e.children = [test, body, orelse] ∧ [body, test, orelse].Pairwise Precedes := by
  obtain ⟨tokens, htidy, hunhinted⟩ := h.tidy
  refine ⟨fun x => mem_children_iff hunhinted.plain, nodup_children htidy, fun x => child_nonempty htidy,
    children_precede_iff htidy, ?_⟩
  rintro s test body orelse rfl
  exact ⟨rfl, htidy.conditional_ordered⟩

/-- A comprehension with two clauses has all its parts as children, in their order. -/
theorem children_read_comprehension : ∃ e, ofText "{k: v for k, v in d if k for x in k if x if v}" = .ok e ∧
    e.children.length = 9 ∧ e.children.Pairwise Precedes := by
  have hshape : ((ofText "{k: v for k, v in d if k for x in k if x if v}").toOption.map fun e =>
      (e.isConditional, e.children.length)) = some (false, 9) := by decide +kernel
  cases hread : ofText "{k: v for k, v in d if k for x in k if x if v}" with
  | error e => simp [hread, Except.toOption] at hshape
  | ok e =>
    simp only [hread, Except.toOption, Option.map_some, Option.some.injEq, Prod.mk.injEq] at hshape
    exact ⟨e, rfl, hshape.2, (children_read (.alone hread .self)).2.2.2.1.mpr hshape.1⟩

/-- The body of a conditional stands before its first child. -/
theorem conditional_read_unordered : ∃ e, ofText "a if b else c" = .ok e ∧ ¬e.children.Pairwise Precedes := by
  have hspans : ((ofText "a if b else c").toOption.map fun e => e.children.map Expr.span) =
      some [⟨⟨5, 1⟩, ⟨6, 1⟩⟩, ⟨⟨0, 1⟩, ⟨1, 1⟩⟩, ⟨⟨12, 1⟩, ⟨13, 1⟩⟩] := by decide +kernel
  cases hread : ofText "a if b else c" with
  | error e => simp [hread, Except.toOption] at hspans
  | ok e =>
    simp only [hread, Except.toOption, Option.map_some, Option.some.injEq] at hspans
    refine ⟨e, rfl, fun hordered => ?_⟩
    have hplaces : (e.children.map span).Pairwise fun a b => a.stop ≤ b.start := List.pairwise_map.mpr hordered
    rw [hspans] at hplaces
    have hfirst := (List.pairwise_cons.mp hplaces).1 _ List.mem_cons_self
    exact absurd hfirst.1 (by decide)

end Expr

end TypeWatch
