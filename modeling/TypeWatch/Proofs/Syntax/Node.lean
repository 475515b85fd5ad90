import TypeWatch.Proofs.Source.Place
import TypeWatch.Syntax.Stmt
import TypeWatch.Token.Basic

/-! # Nodes and their places

Expressions, parameters and statements are nodes with places in a source. The parts of a node are the nodes
directly below it, in the order of the source (`Node.parts`). A node is tidy if it stands from the beginning
of a token to the end of one, its parts stand in it one after the other, and the nodes below it are tidy
(`Node.Tidy`). -/
namespace TypeWatch
set_option autoImplicit false

/-! ## Parts -/

inductive Node where
  | expr (e : Expr)
  | parameter (p : Parameter)
  | stmt (s : Stmt)

/-- The decorators of a function or class, which stand before it. -/
def Stmt.decorators : Stmt → List Expr
  | functionDef _ _ decorators _ _ _ _ | classDef _ _ decorators _ _ => decorators
  | _ => []

def Expr.isConditional : Expr → Bool
  | .conditional _ _ _ _ => true
  | _ => false

namespace Node

def span : Node → Span
  | expr e => e.span
  | parameter p => p.span
  | stmt s => s.span

/-- Statements, each with its decorators before it. -/
def ofSuite (ss : List Stmt) : List Node := ss.flatMap fun s => s.decorators.map expr ++ [stmt s]

/-- The conditional stands between its results in the source. -/
def ofExpr : Expr → List Node
  | .lambda _ parameters body => parameters.map parameter ++ [expr body]
  | .conditional _ test body orelse => [expr body, expr test, expr orelse]
  | e => e.children.map expr

def ofParameter (p : Parameter) : List Node := p.hint.toList.map expr ++ p.standard.toList.map expr

def ofItem (i : WithItem) : List Node := expr i.context :: i.target.toList.map expr

def ofHandler : Handler → List Node
  | .mk type _ body => type.toList.map expr ++ ofSuite body

/-- The nodes directly below a statement. Decorators are not below the function or class that they belong
to. -/
def ofStmt : Stmt → List Node
  | .block _ body => ofSuite body
  | .expression _ value => [expr value]
  | .functionDef _ _ _ parameters returns body _ =>
    parameters.map parameter ++ returns.toList.map expr ++ ofSuite body
  | .classDef _ _ _ bases body => bases.map expr ++ ofSuite body
  | .assign _ targets value => targets.map expr ++ [expr value]
  | .annotated _ target hint value => expr target :: expr hint :: value.toList.map expr
  | .augmented _ target _ value => [expr target, expr value]
  | .returned _ value => value.toList.map expr
  | .branch _ test body orelse | .whileLoop _ test body orelse =>
    expr test :: (ofSuite body ++ ofSuite orelse)
  | .forLoop _ target iter body orelse _ => expr target :: expr iter :: (ofSuite body ++ ofSuite orelse)
  | .withBlock _ items body _ => items.flatMap ofItem ++ ofSuite body
  | .tryBlock _ body handlers orelse finalbody =>
    ofSuite body ++ handlers.flatMap ofHandler ++ ofSuite orelse ++ ofSuite finalbody
  | .raised _ error cause => error.toList.map expr ++ cause.toList.map expr
  | .deleted _ targets => targets.map expr
  | .asserted _ test message => expr test :: message.toList.map expr
  | .outer _ _ _ | .imported _ _ _ | .word _ _ => []

/-- The nodes directly below a node. -/
def parts : Node → List Node
  | expr e => ofExpr e
  | parameter p => ofParameter p
  | stmt s => ofStmt s

/-- A node is below another one. -/
inductive Below : Node → Node → Prop
  | part {n k : Node} : k ∈ n.parts → Below n k
  | within {n m k : Node} : m ∈ n.parts → Below m k → Below n k

/-- What is below a node is a part of it or of a node below it. -/
theorem Below.exists_around {n k : Node} (h : Below n k) : ∃ p, (p = n ∨ Below n p) ∧ k ∈ p.parts := by
  induction h with
  | part hk => exact ⟨_, Or.inl rfl, hk⟩
  | @within n m k hm _ ih =>
    obtain ⟨p, hp, hk⟩ := ih
    rcases hp with rfl | hp
    · exact ⟨p, Or.inr (.part hm), hk⟩
    · exact ⟨p, Or.inr (.within hm hp), hk⟩

/-- A node, and one that is it or is below it. -/
inductive Has : Node → Node → Prop
  | self {n : Node} : Has n n
  | within {n m k : Node} : m ∈ n.parts → Has m k → Has n k

theorem Below.has {n k : Node} (h : Below n k) : Has n k := by
  induction h with
  | part hk => exact .within hk .self
  | within hm _ ih => exact .within hm ih

theorem Has.trans {n m k : Node} (h : Has n m) (h' : Has m k) : Has n k := by
  induction h with
  | self => exact h'
  | within hm _ ih => exact .within hm (ih h')

theorem has_part {n k : Node} (h : k ∈ n.parts) : Has n k := .within h .self

/-- An expression directly below another one. The default of a parameter is a part of the parameter. -/
theorem has_child {e x : Expr} (hx : x ∈ e.children) : Has (expr e) (expr x) := by
  have hall : expr x ∈ e.children.map expr := List.mem_map_of_mem hx
  cases e with
  | lambda s parameters body =>
    rcases List.mem_append.mp hx with hx | hx
    · obtain ⟨p, hp, hstandard⟩ := List.mem_filterMap.mp hx
      refine .within (m := parameter p) (List.mem_append_left _ (List.mem_map_of_mem hp)) (has_part ?_)
      exact List.mem_append_right _ (List.mem_map_of_mem (Option.mem_toList.mpr hstandard))
    · obtain rfl := List.mem_singleton.mp hx
      exact has_part (List.mem_append_right _ (List.mem_singleton.mpr rfl))
  | conditional s test body orelse =>
    refine has_part ?_
    simp only [Expr.children, List.mem_cons, List.not_mem_nil, or_false] at hx
    rcases hx with rfl | rfl | rfl <;> simp [parts, ofExpr]
  | _ => exact has_part hall

/-! ## Places -/

/-- Nodes one after the other between two places. -/
def Strung : Position → List Node → Position → Prop
  | p, [], q => p ≤ q
  | p, n :: ns, q => p ≤ n.span.start ∧ n.span.start < n.span.stop ∧ Strung n.span.stop ns q

section Strung

variable {p q r : Position} {n : Node} {ns ms : List Node}

theorem Strung.le (h : Strung p ns q) : p ≤ q := by
  induction ns generalizing p with
  | nil => exact h
  | cons n ns ih => exact Position.le_trans h.1 (Position.le_trans (Position.le_of_lt h.2.1) (ih h.2.2))

theorem Strung.after (h : Strung q ns r) (hpq : p ≤ q) : Strung p ns r := by
  cases ns with
  | nil => exact Position.le_trans hpq h
  | cons n ns => exact ⟨Position.le_trans hpq h.1, h.2⟩

theorem Strung.append (h : Strung p ns q) (h' : Strung q ms r) : Strung p (ns ++ ms) r := by
  induction ns generalizing p with
  | nil => exact h'.after h
  | cons n ns ih => exact ⟨h.1, h.2.1, ih h.2.2⟩

theorem Strung.within (h : Strung p ns q) (hn : n ∈ ns) : p ≤ n.span.start ∧ n.span.stop ≤ q := by
  induction ns generalizing p with
  | nil => exact absurd hn List.not_mem_nil
  | cons k ns ih =>
    rcases List.mem_cons.mp hn with rfl | hn
    · exact ⟨h.1, h.2.2.le⟩
    · have hrest := ih h.2.2 hn
      exact ⟨Position.le_trans (Position.le_trans h.1 (Position.le_of_lt h.2.1)) hrest.1, hrest.2⟩

theorem Strung.lt (h : Strung p ns q) (hn : n ∈ ns) : p < q := by
  induction ns generalizing p with
  | nil => exact absurd hn List.not_mem_nil
  | cons k ns _ => exact Position.lt_of_le_of_lt h.1 (Position.lt_of_lt_of_le h.2.1 h.2.2.le)

theorem Strung.ordered (h : Strung p ns q) : ns.Pairwise fun a b => a.span.stop ≤ b.span.start := by
  induction ns generalizing p with
  | nil => exact .nil
  | cons n ns ih => exact .cons (fun k hk => (h.2.2.within hk).1) (ih h.2.2)

/-- A string of nodes begins no earlier than its first node. -/
theorem Strung.from_first (h : Strung p ns q) (hn : ns.head? = some n) : Strung n.span.start ns q := by
  cases ns with
  | nil => exact absurd hn nofun
  | cons k ns =>
    obtain rfl := Option.some.inj hn
    exact ⟨Position.le_refl _, h.2⟩

/-- A string of nodes ends no later than its last node. -/
theorem Strung.to_last (h : Strung p ns q) (hn : ns.getLast? = some n) : Strung p ns n.span.stop := by
  induction ns generalizing p with
  | nil => exact absurd hn nofun
  | cons k ns ih =>
    refine ⟨h.1, h.2.1, ?_⟩
    cases ns with
    | nil =>
      obtain rfl := Option.some.inj hn
      exact Position.le_refl _
    | cons m ns =>
      rw [List.getLast?_cons_cons] at hn
      exact ih h.2.2 hn

end Strung

/-- A node begins where a token begins, and ends after that where a token ends. -/
structure Marked (tokens : List Token) (n : Node) : Prop where
  start : ∃ t ∈ tokens, t.span.start = n.span.start
  stop : ∃ t ∈ tokens, t.span.stop = n.span.stop
  lt : n.span.start < n.span.stop

inductive Tidy (tokens : List Token) : Node → Prop
  | mk {n : Node} : n.Marked tokens → Strung n.span.start n.parts n.span.stop →
      (∀ k ∈ n.parts, Tidy tokens k) → Tidy tokens n

namespace Tidy

variable {tokens : List Token} {n k : Node}

theorem marked (h : Tidy tokens n) : n.Marked tokens := by
  cases h with
  | mk hmarked _ _ => exact hmarked

theorem strung (h : Tidy tokens n) : Strung n.span.start n.parts n.span.stop := by
  cases h with
  | mk _ hstrung _ => exact hstrung

theorem part (h : Tidy tokens n) (hk : k ∈ n.parts) : Tidy tokens k := by
  cases h with
  | mk _ _ hparts => exact hparts k hk

/-- A tidy node, and what is below it, is tidy and stands in it. -/
theorem of_has (h : Tidy tokens n) (hk : Has n k) :
    Tidy tokens k ∧ n.span.start ≤ k.span.start ∧ k.span.stop ≤ n.span.stop := by
  induction hk with
  | self => exact ⟨h, Position.le_refl _, Position.le_refl _⟩
  | within hm _ ih =>
    obtain ⟨htidy, hstart, hstop⟩ := ih (h.part hm)
    have hwithin := h.strung.within hm
    exact ⟨htidy, Position.le_trans hwithin.1 hstart, Position.le_trans hstop hwithin.2⟩

theorem of_below (h : Tidy tokens n) (hk : Below n k) :
    Tidy tokens k ∧ n.span.start ≤ k.span.start ∧ k.span.stop ≤ n.span.stop := h.of_has hk.has

end Tidy

/-! ## Children and suites -/

/-- Two stretches of a source without a common character. -/
def Apart (a b : Span) : Prop := a.stop ≤ b.start ∨ b.stop ≤ a.start

/-- The children of an expression stand in the order of the source, except those of a conditional. -/
theorem Tidy.children_ordered {tokens : List Token} {e : Expr} (h : Tidy tokens (expr e))
    (hno : e.isConditional = false) : e.children.Pairwise fun a b => a.span.stop ≤ b.span.start := by
  have hordered := h.strung.ordered
  cases e with
  | lambda span ps body =>
    obtain ⟨hps, -, hbody⟩ := List.pairwise_append.mp hordered
    -- a default stands in its parameter
    have hin {p : Parameter} (hp : p ∈ ps) {x : Expr} (hx : p.standard = some x) :
        p.span.start ≤ x.span.start ∧ x.span.stop ≤ p.span.stop := by
      have hpart : expr x ∈ (parameter p).parts :=
        List.mem_append_right _ (List.mem_map_of_mem (Option.mem_toList.mpr hx))
      exact (h.part (List.mem_append_left _ (List.mem_map_of_mem hp))).strung.within hpart
    refine List.pairwise_append.mpr ⟨?_, List.pairwise_singleton _ _, ?_⟩
    · refine List.pairwise_filterMap.mpr ((List.pairwise_map.mp hps).imp_of_mem ?_)
      intro p q hp hq hpq x hx y hy
      exact Position.le_trans (hin hp hx).2 (Position.le_trans hpq (hin hq hy).1)
    · intro x hx y hy
      obtain ⟨p, hp, hx⟩ := List.mem_filterMap.mp hx
      obtain rfl := List.mem_singleton.mp hy
      have hlast := hbody _ (List.mem_map_of_mem hp) _ (List.mem_singleton.mpr rfl)
      exact Position.le_trans (hin hp hx).2 hlast
  | conditional => exact absurd hno (by simp [Expr.isConditional])
  | _ => exact List.pairwise_map.mp hordered

/-- The body of a conditional stands before its test. -/
theorem Tidy.conditional_ordered {tokens : List Token} {s : Span} {test body orelse : Expr}
    (h : Tidy tokens (expr (.conditional s test body orelse))) :
    [body, test, orelse].Pairwise fun a b => a.span.stop ≤ b.span.start := by
  have hordered : ([body, test, orelse].map expr).Pairwise fun a b => a.span.stop ≤ b.span.start :=
    h.strung.ordered
  exact List.pairwise_map.mp hordered

/-- The children of an expression stand apart from each other. -/
theorem Tidy.children_apart {tokens : List Token} {e : Expr} (h : Tidy tokens (expr e)) :
    e.children.Pairwise fun a b => Apart a.span b.span := by
  cases hkind : e.isConditional with
  | false => exact (h.children_ordered hkind).imp Or.inl
  | true =>
    cases e with
    | conditional span test body orelse =>
      obtain ⟨hbody, hrest⟩ := List.pairwise_cons.mp h.conditional_ordered
      have hbodyTest := hbody test List.mem_cons_self
      have hbodyElse := hbody orelse (List.mem_cons_of_mem _ List.mem_cons_self)
      have htestElse := List.pairwise_pair.mp hrest
      refine .cons (List.forall_mem_cons.mpr ⟨Or.inr hbodyTest, ?_⟩) (List.pairwise_pair.mpr (Or.inl hbodyElse))
      exact List.forall_mem_singleton.mpr (Or.inl htestElse)
    | _ => exact absurd hkind (by simp [Expr.isConditional])

/-- The statements of a handler. -/
def bodyOf : Handler → List Stmt
  | .mk _ _ body => body

/-- The suites of a statement. -/
def suites : Stmt → List (List Stmt)
  | .block _ body | .functionDef _ _ _ _ _ body _ | .classDef _ _ _ _ body | .withBlock _ _ body _ => [body]
  | .branch _ _ body orelse | .whileLoop _ _ body orelse | .forLoop _ _ _ body orelse _ => [body, orelse]
  | .tryBlock _ body handlers orelse finalbody => body :: handlers.map bodyOf ++ [orelse, finalbody]
  | _ => []

theorem sublist_handlers {ss : List Stmt} {handlers : List Handler} (h : ss ∈ handlers.map bodyOf) :
    (ofSuite ss).Sublist (handlers.flatMap ofHandler) := by
  obtain ⟨handler, hmem, rfl⟩ := List.mem_map.mp h
  have hwhole : (ofHandler handler).Sublist (handlers.flatMap ofHandler) := by
    rw [List.flatMap_def]
    exact List.sublist_flatten_of_mem (List.mem_map_of_mem hmem)
  obtain ⟨type, name, body⟩ := handler
  exact (List.sublist_append_right _ _).trans hwhole

/-- The statements of a suite are parts of the statement that it belongs to, in their order. -/
theorem sublist_of_suite {s : Stmt} {ss : List Stmt} (h : ss ∈ suites s) : (ofSuite ss).Sublist (ofStmt s) := by
  have hpair {body orelse : List Stmt} (h : ss ∈ [body, orelse]) :
      (ofSuite ss).Sublist (ofSuite body ++ ofSuite orelse) := by
    rcases List.mem_cons.mp h with rfl | h
    · exact List.sublist_append_left _ _
    · obtain rfl := List.mem_singleton.mp h
      exact List.sublist_append_right _ _
  cases s with
  | block =>
    obtain rfl := List.mem_singleton.mp h
    exact List.Sublist.refl _
  | functionDef | classDef | withBlock =>
    obtain rfl := List.mem_singleton.mp h
    exact List.sublist_append_right _ _
  | branch | whileLoop => exact (hpair h).cons _
  | forLoop => exact ((hpair h).cons _).cons _
  | tryBlock span body handlers orelse finalbody =>
    rw [ofStmt, List.append_assoc]
    rcases List.mem_append.mp h with h | h
    · rcases List.mem_cons.mp h with rfl | h
      · exact (List.sublist_append_left _ _).trans (List.sublist_append_left _ _)
      · exact ((sublist_handlers h).trans (List.sublist_append_right _ _)).trans (List.sublist_append_left _ _)
    · exact (hpair h).trans (List.sublist_append_right _ _)
  | _ => exact absurd h List.not_mem_nil

theorem mem_ofSuite {ss : List Stmt} {s : Stmt} : stmt s ∈ ofSuite ss ↔ s ∈ ss := by simp [ofSuite]

theorem mem_ofHandler {handler : Handler} {s : Stmt} : stmt s ∈ ofHandler handler ↔ s ∈ bodyOf handler := by
  obtain ⟨type, name, body⟩ := handler
  simp [ofHandler, bodyOf, mem_ofSuite]

theorem has_suite {s : Stmt} {ss : List Stmt} (h : ss ∈ suites s) {k : Node} (hk : ∃ t ∈ ss, Has (stmt t) k) :
    Has (stmt s) k := by
  obtain ⟨t, ht, hk⟩ := hk
  exact .within ((sublist_of_suite h).subset (mem_ofSuite.mpr ht)) hk

/-- A statement is a part only as one of a suite. -/
theorem exists_suite {n : Node} {s : Stmt} (h : stmt s ∈ n.parts) :
    ∃ around, n = stmt around ∧ ∃ ss ∈ suites around, s ∈ ss := by
  cases n with
  | expr e => cases e <;> simp [parts, ofExpr] at h
  | parameter p => simp [parts, ofParameter] at h
  | stmt around =>
    refine ⟨around, rfl, ?_⟩
    cases around with
    | tryBlock span body handlers orelse finalbody =>
      simp only [parts, ofStmt, List.mem_append, List.mem_flatMap, mem_ofSuite, mem_ofHandler] at h
      rcases h with ((h | ⟨handler, hhandler, h⟩) | h) | h
      · exact ⟨body, by simp [suites], h⟩
      · exact ⟨bodyOf handler, by simpa [suites] using Or.inr (Or.inl ⟨handler, hhandler, rfl⟩), h⟩
      · exact ⟨orelse, by simp [suites], h⟩
      · exact ⟨finalbody, by simp [suites], h⟩
    | block | functionDef | classDef | branch | whileLoop | forLoop | withBlock =>
      simpa [parts, ofStmt, suites, ofItem, mem_ofSuite] using h
    | _ => simp [parts, ofStmt] at h

/-- Statements of a suite in their order, each after its decorators. -/
theorem pairwise_ofSuite {ss : List Stmt} (h : (ofSuite ss).Pairwise fun a b => a.span.stop ≤ b.span.start) :
    (ss.Pairwise fun a b => a.span.stop ≤ b.span.start) ∧
      ∀ s ∈ ss, ∀ e ∈ s.decorators, e.span.stop ≤ s.span.start := by
  obtain ⟨hwithin, hbetween⟩ := List.pairwise_flatMap.mp h
  refine ⟨hbetween.imp fun {a b} hab => ?_, fun s hs e he => ?_⟩
  · exact hab (stmt a) (List.mem_append_right _ List.mem_cons_self) (stmt b)
      (List.mem_append_right _ List.mem_cons_self)
  obtain ⟨-, -, hlast⟩ := List.pairwise_append.mp (hwithin s hs)
  exact hlast _ (List.mem_map_of_mem he) _ (List.mem_singleton.mpr rfl)

/-! ## Lambdas -/

/-- Whether a node is no lambda with annotations. -/
def Plain : Node → Prop
  | expr (.lambda _ parameters _) => ∀ p ∈ parameters, p.hint = none
  | _ => True

/-- Neither a node nor one below it is a lambda with annotations. -/
inductive Unhinted : Node → Prop
  | mk {n : Node} : n.Plain → (∀ k ∈ n.parts, Unhinted k) → Unhinted n

theorem Unhinted.plain {n : Node} (h : Unhinted n) : n.Plain := by
  cases h with
  | mk hplain _ => exact hplain

theorem Unhinted.part {n k : Node} (h : Unhinted n) (hk : k ∈ n.parts) : Unhinted k := by
  cases h with
  | mk _ hparts => exact hparts k hk

end Node

/-- The block that a module is. -/
def Module.node (m : Module) : Node := .stmt (.block m.span m.body)

end TypeWatch
