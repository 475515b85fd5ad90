import TypeWatch.Proofs.Reading.NestedStmt
import TypeWatch.Proofs.Scope.Growth

/-! # What is recorded in a scope

The records of a scope are those of the parameters of its function, in their order, and those that the
statements of its region declare: a name for each assignment to it, and the parameters of each lambda in an
expression of theirs (`Region.Declares`). Each of them is there as often as it is declared. -/
namespace TypeWatch
set_option autoImplicit false

/-! ## Lambdas -/

namespace Expr

mutual

/-- The names of the parameters of all lambdas in an expression. -/
def lambdaNames : Expr → List String
  | name _ _ | constant _ _ => []
  | member _ value _ | keyword _ _ value | starred _ value | unary _ _ value | await _ value => value.lambdaNames
  | subscript _ left right | binary _ left _ right | named _ left right => left.lambdaNames ++ right.lambdaNames
  | slice _ lower upper step => namesOfOption lower ++ namesOfOption upper ++ namesOfOption step
  | tuple _ elements | list _ elements | set _ elements => namesOfList elements
  | dict _ entries => namesOfEntries entries
  | call _ callee arguments => callee.lambdaNames ++ namesOfList arguments
  | lambda _ parameters body =>
    parameters.map Parameter.name ++ namesOfParameters parameters ++ body.lambdaNames
  | conditional _ test body orelse => test.lambdaNames ++ body.lambdaNames ++ orelse.lambdaNames
  | comprehension _ _ element value clauses =>
    element.lambdaNames ++ namesOfOption value ++ namesOfClauses clauses
  | yield _ value _ => namesOfOption value

def namesOfOption : Option Expr → List String
  | none => []
  | some e => e.lambdaNames

def namesOfList : List Expr → List String
  | [] => []
  | e :: es => e.lambdaNames ++ namesOfList es

def namesOfEntries : List Entry → List String
  | [] => []
  | .pair key value :: entries => key.lambdaNames ++ value.lambdaNames ++ namesOfEntries entries
  | .unpack value :: entries => value.lambdaNames ++ namesOfEntries entries

def namesOfClauses : List Clause → List String
  | [] => []
  | .mk target iter conditions _ :: clauses =>
    target.lambdaNames ++ iter.lambdaNames ++ namesOfList conditions ++ namesOfClauses clauses

def namesOfParameters : List Parameter → List String
  | [] => []
  | .mk _ _ _ hint standard :: parameters =>
    namesOfOption hint ++ namesOfOption standard ++ namesOfParameters parameters

end

theorem namesOfOption_eq (e : Option Expr) : namesOfOption e = e.toList.flatMap lambdaNames := by
  cases e with
  | none => rfl
  | some e => simp [namesOfOption]

theorem namesOfList_eq (es : List Expr) : namesOfList es = es.flatMap lambdaNames := by
  induction es with
  | nil => rfl
  | cons e es ih => rw [namesOfList, ih, List.flatMap_cons]

theorem namesOfEntries_eq (entries : List Entry) :
    namesOfEntries entries = (entries.flatMap Entry.parts).flatMap lambdaNames := by
  induction entries with
  | nil => rfl
  | cons entry entries ih => cases entry <;> simp [namesOfEntries, ih, Entry.parts]

theorem namesOfClauses_eq (clauses : List Clause) :
    namesOfClauses clauses = (clauses.flatMap Clause.parts).flatMap lambdaNames := by
  induction clauses with
  | nil => rfl
  | cons clause clauses ih =>
    obtain ⟨target, iter, conditions, isAsync⟩ := clause
    simp [namesOfClauses, ih, Clause.parts, namesOfList_eq]

/-- Parameters without annotations have lambdas in their defaults only. -/
theorem namesOfParameters_eq {parameters : List Parameter} (h : ∀ p ∈ parameters, p.hint = none) :
    namesOfParameters parameters = (parameters.filterMap Parameter.standard).flatMap lambdaNames := by
  induction parameters with
  | nil => rfl
  | cons p parameters ih =>
    obtain ⟨span, kind, name, hint, standard⟩ := p
    obtain ⟨hfirst, hrest⟩ := List.forall_mem_cons.mp h
    have hnone : hint = none := hfirst
    cases standard <;>
      simp [namesOfParameters, ih hrest, hnone, namesOfOption, Parameter.standard, List.filterMap_cons]

theorem lambdaNames_eq {e : Expr} (h : (Node.expr e).Plain) :
    e.lambdaNames = e.ownParameters ++ e.children.flatMap lambdaNames := by
  cases e with
  | lambda span parameters body =>
    simp [lambdaNames, ownParameters, children, namesOfParameters_eq h]
  | _ => simp [lambdaNames, ownParameters, children, namesOfOption_eq, namesOfList_eq, namesOfEntries_eq,
      namesOfClauses_eq]

end Expr

/-- The children of an expression without annotations in lambdas are such expressions. -/
theorem Node.Unhinted.child {e x : Expr} (h : Unhinted (.expr e)) (hx : x ∈ e.children) : Unhinted (.expr x) := by
  cases e with
  | lambda span parameters body =>
    rcases List.mem_append.mp hx with hx | hx
    · obtain ⟨p, hp, hx⟩ := List.mem_filterMap.mp hx
      have hparameter : Unhinted (.parameter p) := h.part (List.mem_append_left _ (List.mem_map_of_mem hp))
      exact hparameter.part (List.mem_append_right _ (List.mem_map_of_mem (Option.mem_toList.mpr hx)))
    · obtain rfl := List.mem_singleton.mp hx
      exact h.part (List.mem_append_right _ (List.mem_singleton.mpr rfl))
  | conditional span test body orelse =>
    refine h.part ?_
    simpa [Node.parts, Node.ofExpr, Expr.children, or_left_comm] using hx
  | _ => exact h.part (List.mem_map_of_mem hx)

/-- The parameters of a lambda come before those of the lambdas below it. -/
theorem Expr.lambdaParameters_cons (e : Expr) :
    e.lambdaParameters = e.ownParameters ++ e.children.flatMap lambdaParameters := by
  rw [lambdaParameters, preorder_eq, List.flatMap_cons, List.flatMap_assoc]
  rfl

/-- The lambdas that a walk over all children meets are all that there are. -/
theorem Expr.lambdaParameters_eq (e : Expr) (h : (Node.expr e).Unhinted) : e.lambdaParameters = e.lambdaNames := by
  have hchildren : e.children.flatMap lambdaParameters = e.children.flatMap lambdaNames :=
    List.flatMap_congr fun x hx => lambdaParameters_eq x (h.child hx)
  rw [lambdaNames_eq h.plain, ← hchildren, lambdaParameters_cons]
termination_by sizeOf e
decreasing_by exact sizeOf_child hx

/-! ## Statements -/

namespace Stmt

def typeOf : Handler → Option Expr
  | .mk type _ _ => type

/-- The expressions of a statement that are not those of a statement in its suites. -/
def expressions : Stmt → List Expr
  | block _ _ | outer _ _ _ | imported _ _ _ | word _ _ => []
  | expression _ value => [value]
  | functionDef _ _ decorators parameters returns _ _ =>
    decorators ++ parameters.flatMap (fun p => p.hint.toList ++ p.standard.toList) ++ returns.toList
  | classDef _ _ decorators bases _ => decorators ++ bases
  | assign _ targets value => targets ++ [value]
  | annotated _ target hint value => target :: hint :: value.toList
  | augmented _ target _ value => [target, value]
  | returned _ value => value.toList
  | branch _ test _ _ | whileLoop _ test _ _ => [test]
  | forLoop _ target iter _ _ _ => [target, iter]
  | withBlock _ items _ _ => items.flatMap fun i => i.context :: i.target.toList
  | tryBlock _ _ handlers _ _ => handlers.flatMap fun handler => (typeOf handler).toList
  | raised _ error cause => error.toList ++ cause.toList
  | deleted _ targets => targets
  | asserted _ test message => test :: message.toList

/-- What is recorded for a target that is assigned to on a line. -/
def targetRecord? (line last : Nat) : Expr → Option TypeRecord
  | .name _ id => some ⟨id, none, line, last⟩
  | _ => none

/-- What is recorded for the names that a statement assigns to, up to a last line. -/
def assigned (last : Nat) : Stmt → List TypeRecord
  | assign span targets _ => targets.filterMap (targetRecord? span.start.line last)
  | annotated span (.name _ id) hint _ => [⟨id, some hint.written, span.start.line, last⟩]
  | _ => []

end Stmt

/-- What is recorded for names without types on all lines of a region. -/
def untyped (first last : Nat) (names : List String) : List TypeRecord :=
  names.map fun name => ⟨name, none, first, last⟩

namespace Region

/-- What is recorded for the parameters of a function. -/
def taken (r : Region) : List TypeRecord :=
  r.parameters.map fun p => ⟨p.name, p.hint.map Expr.written, r.first, r.last⟩

/-- What is recorded in a region for a statement: the names that it assigns to, and the parameters of its
lambdas. -/
def declared (r : Region) (s : Stmt) : List TypeRecord :=
  s.assigned r.last ++ untyped r.first r.last (s.expressions.flatMap Expr.lambdaNames)

end Region

/-! ## Additions -/

namespace Scope

/-- Some records are added to a scope, in any order. -/
structure Adds (s : Scope) (rs : List TypeRecord) (s' : Scope) : Prop where
  first : s'.first = s.first
  last : s'.last = s.last
  records : ∃ added, s'.records = s.records ++ added ∧ added.Perm rs

namespace Adds

variable {s s1 s' : Scope} {rs rs' : List TypeRecord}

theorem refl (s : Scope) : Adds s [] s := ⟨rfl, rfl, [], (List.append_nil _).symm, .refl _⟩

theorem append (h : Adds s rs s1) (h' : Adds s1 rs' s') : Adds s (rs ++ rs') s' := by
  obtain ⟨added, heq, hperm⟩ := h.records
  obtain ⟨added', heq', hperm'⟩ := h'.records
  refine ⟨h'.first.trans h.first, h'.last.trans h.last, added ++ added', ?_, hperm.append hperm'⟩
  rw [heq', heq, List.append_assoc]

theorem perm (h : Adds s rs s') (hperm : rs.Perm rs') : Adds s rs' s' := by
  obtain ⟨added, heq, hadded⟩ := h.records
  exact ⟨h.first, h.last, added, heq, hadded.trans hperm⟩

end Adds

theorem adds_add (s : Scope) (name : String) (type : Option String) (line : Option Nat) :
    Adds s [⟨name, type, line.getD s.first, s.last⟩] (s.add name type line) :=
  ⟨rfl, rfl, _, rfl, .refl _⟩

/-- The parameters of the lambdas in some expressions, as a walk over their children meets them. -/
def walked (s : Scope) (es : List Expr) : List TypeRecord :=
  untyped s.first s.last (es.flatMap Expr.lambdaParameters)

theorem walked_append (s : Scope) (a b : List Expr) : s.walked (a ++ b) = s.walked a ++ s.walked b := by
  rw [walked, walked, walked, untyped, untyped, untyped, List.flatMap_append, List.map_append]

theorem Adds.walked_eq {s s' : Scope} {rs : List TypeRecord} (h : Adds s rs s') (es : List Expr) :
    s'.walked es = s.walked es := by
  rw [walked, walked, h.first, h.last]

theorem adds_addLambdas (s : Scope) (e : Expr) : Adds s (s.walked [e]) (s.addLambdas e) := by
  rw [walked, List.flatMap_singleton, addLambdas]
  induction e.lambdaParameters generalizing s with
  | nil => exact .refl s
  | cons name names ih => exact (adds_add s name none none).append (ih (s.add name none none))

theorem adds_addAllLambdas (s : Scope) (es : List Expr) : Adds s (s.walked es) (s.addAllLambdas es) := by
  induction es generalizing s with
  | nil => exact .refl s
  | cons e es ih =>
    have hfirst := adds_addLambdas s e
    have hrest := ih (s.addLambdas e)
    rw [hfirst.walked_eq] at hrest
    have hall := hfirst.append hrest
    rwa [← walked_append] at hall

theorem perm_middle (a b c d : List TypeRecord) : ((a ++ b) ++ (c ++ d)).Perm ((a ++ c) ++ (b ++ d)) := by
  rw [List.append_assoc, List.append_assoc, ← List.append_assoc b, ← List.append_assoc c]
  exact (List.perm_append_comm.append_right d).append_left a

theorem adds_addTarget (s : Scope) (line : Nat) (target : Expr) :
    Adds s ((Stmt.targetRecord? line s.last target).toList ++ s.walked [target]) (addTarget line s target) := by
  cases target with
  | name span id =>
    exact (adds_add s id none (some line)).append (adds_addLambdas (s.add id none (some line)) (.name span id))
  | _ => exact adds_addLambdas s _

theorem adds_addTargets (s : Scope) (line : Nat) (targets : List Expr) :
    Adds s (targets.filterMap (Stmt.targetRecord? line s.last) ++ s.walked targets)
      (targets.foldl (addTarget line) s) := by
  induction targets generalizing s with
  | nil => exact .refl s
  | cons target targets ih =>
    have hfirst := adds_addTarget s line target
    have hrest := ih (addTarget line s target)
    rw [hfirst.walked_eq, hfirst.last] at hrest
    have heq : (target :: targets).filterMap (Stmt.targetRecord? line s.last) =
        (Stmt.targetRecord? line s.last target).toList ++ targets.filterMap (Stmt.targetRecord? line s.last) := by
      cases h : Stmt.targetRecord? line s.last target <;> simp [h]
    have hwalked : s.walked (target :: targets) = s.walked [target] ++ s.walked targets :=
      s.walked_append [target] targets
    rw [heq, hwalked]
    exact (hfirst.append hrest).perm (perm_middle _ _ _ _)

theorem adds_addHinted (s : Scope) (span : Span) (target hint : Expr) (value : Option Expr) :
    Adds s (Stmt.assigned s.last (.annotated span target hint value)) (addHinted span.start.line s target hint) := by
  cases target with
  | name _ id => exact adds_add s id (some hint.written) (some span.start.line)
  | _ => exact .refl s

/-! ## Visits -/

/-- What a statement adds to the scope of its region. -/
def visited (s : Scope) (st : Stmt) : List TypeRecord := st.assigned s.last ++ s.walked st.expressions

/-- What a visit of some expressions and statements adds to the scope of their region. -/
def Visits (s : Scope) (es : List Expr) (own : List Stmt) (s' : Scope) : Prop :=
  Adds s (s.walked es ++ own.flatMap s.visited) s'

namespace Visits

variable {s s1 s' : Scope} {es es' : List Expr} {own own' : List Stmt} {st : Stmt}

theorem refl (s : Scope) : Visits s [] [] s := Adds.refl s

theorem of_adds (h : Adds s (s.walked es) s') : Visits s es [] s' := by
  rw [Visits, List.flatMap_nil, List.append_nil]
  exact h

theorem append (h : Visits s es own s1) (h' : Visits s1 es' own' s') :
    Visits s (es ++ es') (own ++ own') s' := by
  have hvisited : s1.visited = s.visited := by
    funext st
    rw [visited, visited, Adds.last h, Adds.walked_eq h]
  rw [Visits, Adds.walked_eq h, hvisited] at h'
  rw [Visits, walked_append, List.flatMap_append]
  exact (Adds.append h h').perm (perm_middle _ _ _ _)

theorem suite (h : Visits s es own s1) (h' : Visits s1 [] own' s') : Visits s es (own ++ own') s' := by
  have hall := h.append h'
  rwa [List.append_nil] at hall

/-- A statement that assigns to no name, with what its suites add. -/
theorem around (h : Visits s st.expressions own s') (hassigned : st.assigned s.last = []) :
    Visits s [] (st :: own) s' := by
  rw [Visits, List.flatMap_cons, visited, hassigned]
  exact h

theorem single (h : Adds s (s.visited st) s') : Visits s [] [st] s' := by
  rw [Visits, List.flatMap_singleton]
  exact h

end Visits

theorem visits_addLambdas (s : Scope) (e : Expr) : Visits s [e] [] (s.addLambdas e) :=
  .of_adds (adds_addLambdas s e)

theorem visits_addAllLambdas (s : Scope) (es : List Expr) : Visits s es [] (s.addAllLambdas es) :=
  .of_adds (adds_addAllLambdas s es)

theorem visits_addChild (s child : Scope) : Visits s [] [] (s.addChild child) :=
  ⟨rfl, rfl, [], (List.append_nil _).symm, .refl _⟩

theorem visits_assign (s : Scope) (span : Span) (targets : List Expr) (value : Expr) :
    Visits s [] [.assign span targets value]
      ((targets.foldl (addTarget span.start.line) s).addLambdas value) := by
  have htargets := adds_addTargets s span.start.line targets
  have hvalue := adds_addLambdas (targets.foldl (addTarget span.start.line) s) value
  rw [htargets.walked_eq] at hvalue
  refine .single ?_
  rw [visited, Stmt.expressions, walked_append, ← List.append_assoc]
  exact htargets.append hvalue

theorem visits_annotated (s : Scope) (span : Span) (target hint : Expr) (value : Option Expr) :
    Visits s [] [.annotated span target hint value]
      ((addHinted span.start.line s target hint).addAllLambdas (target :: hint :: value.toList)) := by
  have hhinted := adds_addHinted s span target hint value
  have hparts := adds_addAllLambdas (addHinted span.start.line s target hint) (target :: hint :: value.toList)
  rw [hhinted.walked_eq] at hparts
  exact .single (hhinted.append hparts)

mutual

theorem visit_visits (s : Scope) : (st : Stmt) → Visits s [] (st :: st.inner) (visit s st)
  | .block _ body => (visitAll_visits s body).around rfl
  | .expression _ value => (visits_addLambdas s value).around rfl
  | .functionDef _ _ _ _ _ _ _ => ((visits_addAllLambdas s _).suite (visits_addChild _ _)).around rfl
  | .classDef _ _ _ _ body => ((visits_addAllLambdas s _).suite (visitAll_visits _ body)).around rfl
  | .assign span targets value => visits_assign s span targets value
  | .annotated span target hint value => visits_annotated s span target hint value
  | .augmented _ _ _ _ => (visits_addAllLambdas s _).around rfl
  | .returned _ _ => (visits_addAllLambdas s _).around rfl
  | .branch _ test body orelse =>
    (((visits_addLambdas s test).suite (visitAll_visits _ body)).suite (visitAll_visits _ orelse)).around rfl
  | .whileLoop _ test body orelse =>
    (((visits_addLambdas s test).suite (visitAll_visits _ body)).suite (visitAll_visits _ orelse)).around rfl
  | .forLoop _ _ _ body orelse _ =>
    (((visits_addAllLambdas s _).suite (visitAll_visits _ body)).suite (visitAll_visits _ orelse)).around rfl
  | .withBlock _ _ body _ => ((visits_addAllLambdas s _).suite (visitAll_visits _ body)).around rfl
  | .tryBlock _ body handlers orelse finalbody =>
    ((((visitAll_visits s body).append (visitHandlers_visits _ handlers)).suite
      (visitAll_visits _ orelse)).suite (visitAll_visits _ finalbody)).around rfl
  | .raised _ _ _ => (visits_addAllLambdas s _).around rfl
  | .outer _ _ _ => (Visits.refl s).around rfl
  | .deleted _ _ => (visits_addAllLambdas s _).around rfl
  | .asserted _ _ _ => (visits_addAllLambdas s _).around rfl
  | .imported _ _ _ => (Visits.refl s).around rfl
  | .word _ _ => (Visits.refl s).around rfl

theorem visitAll_visits (s : Scope) : (ss : List Stmt) → Visits s [] (Stmt.ownAll ss) (visitAll s ss)
  | [] => .refl s
  | st :: ss => (visit_visits s st).suite (visitAll_visits _ ss)

theorem visitHandlers_visits (s : Scope) : (hs : List Handler) →
    Visits s (hs.flatMap fun handler => (Stmt.typeOf handler).toList) (Stmt.ownHandlers hs) (visitHandlers s hs)
  | [] => .refl s
  | .mk type _ body :: hs =>
    ((visits_addAllLambdas s type.toList).suite (visitAll_visits _ body)).append (visitHandlers_visits _ hs)

end

/-- The parameters of a function come first, in their order. -/
theorem records_addParameters (s : Scope) (ps : List Parameter) :
    (ps.foldl addParameter s).records =
      s.records ++ ps.map fun p => ⟨p.name, p.hint.map Expr.written, s.first, s.last⟩ := by
  induction ps generalizing s with
  | nil => exact (List.append_nil _).symm
  | cons p ps ih =>
    rw [List.foldl_cons, ih, List.map_cons, List.append_cons]
    rfl

end Scope

/-! ## Regions without annotations in lambdas -/

namespace Stmt

/-- Neither a statement nor its decorators hold a lambda with annotations. -/
def Unhinted (s : Stmt) : Prop := ∀ n ∈ Node.ofSuite [s], n.Unhinted

theorem unhinted_of_suite {s t : Stmt} (h : s.Unhinted) {ss : List Stmt} (hss : ss ∈ Node.suites s) (ht : t ∈ ss) :
    t.Unhinted := by
  have hs : (Node.stmt s).Unhinted := h _ (Node.mem_ofSuite.mpr List.mem_cons_self)
  intro n hn
  have hmem : n ∈ Node.ofSuite ss := by
    rw [Node.ofSuite, List.flatMap_singleton] at hn
    exact List.mem_flatMap.mpr ⟨t, ht, hn⟩
  exact hs.part ((Node.sublist_of_suite hss).subset hmem)

theorem Unhinted.expression {s : Stmt} (h : s.Unhinted) {e : Expr} (he : e ∈ s.expressions) :
    (Node.expr e).Unhinted := by
  have hs : (Node.stmt s).Unhinted := h _ (Node.mem_ofSuite.mpr List.mem_cons_self)
  have hdecorator (he : e ∈ s.decorators) : (Node.expr e).Unhinted := by
    refine h _ ?_
    rw [Node.ofSuite, List.flatMap_singleton]
    exact List.mem_append_left _ (List.mem_map_of_mem he)
  cases s with
  | functionDef span name decorators parameters returns body isAsync =>
    rcases List.mem_append.mp he with he | he
    · rcases List.mem_append.mp he with he | he
      · exact hdecorator he
      · obtain ⟨p, hp, he⟩ := List.mem_flatMap.mp he
        have hparameter : (Node.parameter p).Unhinted := hs.part (by simp [Node.parts, Node.ofStmt, hp])
        exact hparameter.part (by simpa [Node.parts, Node.ofParameter] using he)
    · exact hs.part (List.mem_append_left _ (List.mem_append_right _ (List.mem_map_of_mem he)))
  | classDef span name decorators bases body =>
    rcases List.mem_append.mp he with he | he
    · exact hdecorator he
    · exact hs.part (List.mem_append_left _ (List.mem_map_of_mem he))
  | tryBlock span body handlers orelse finalbody =>
    obtain ⟨⟨type, name, suite⟩, hhandler, he⟩ := List.mem_flatMap.mp he
    have hmem : Node.expr e ∈ Node.ofHandler (.mk type name suite) :=
      List.mem_append_left _ (List.mem_map_of_mem he)
    refine hs.part ?_
    simp only [Node.parts, Node.ofStmt, List.mem_append, List.mem_flatMap]
    exact Or.inl (Or.inl (Or.inr ⟨_, hhandler, hmem⟩))
  | withBlock span items body isAsync =>
    obtain ⟨item, hitem, he⟩ := List.mem_flatMap.mp he
    have hmem : Node.expr e ∈ Node.ofItem item := by simpa [Node.ofItem] using he
    exact hs.part (List.mem_append_left _ (List.mem_flatMap.mpr ⟨item, hitem, hmem⟩))
  | branch span test body orelse | whileLoop span test body orelse =>
    obtain rfl := List.mem_singleton.mp he
    exact hs.part List.mem_cons_self
  | forLoop span target iter body orelse isAsync =>
    rcases List.mem_cons.mp he with rfl | he
    · exact hs.part List.mem_cons_self
    · obtain rfl := List.mem_singleton.mp he
      exact hs.part (List.mem_cons_of_mem _ List.mem_cons_self)
  | block | outer | imported | word => exact absurd he List.not_mem_nil
  | _ => exact hs.part (by simpa [Node.parts, Node.ofStmt, expressions] using he)

mutual

theorem unhinted_inner : (s : Stmt) → s.Unhinted → ∀ t ∈ s.inner, t.Unhinted
  | .block _ body, h => unhinted_ownAll body fun _ ht => unhinted_of_suite h List.mem_cons_self ht
  | .classDef _ _ _ _ body, h => unhinted_ownAll body fun _ ht => unhinted_of_suite h List.mem_cons_self ht
  | .withBlock _ _ body _, h => unhinted_ownAll body fun _ ht => unhinted_of_suite h List.mem_cons_self ht
  | .branch _ _ body orelse, h => List.forall_mem_append.mpr
    ⟨unhinted_ownAll body fun _ ht => unhinted_of_suite h List.mem_cons_self ht,
      unhinted_ownAll orelse fun _ ht => unhinted_of_suite h (List.mem_cons_of_mem _ List.mem_cons_self) ht⟩
  | .whileLoop _ _ body orelse, h => List.forall_mem_append.mpr
    ⟨unhinted_ownAll body fun _ ht => unhinted_of_suite h List.mem_cons_self ht,
      unhinted_ownAll orelse fun _ ht => unhinted_of_suite h (List.mem_cons_of_mem _ List.mem_cons_self) ht⟩
  | .forLoop _ _ _ body orelse _, h => List.forall_mem_append.mpr
    ⟨unhinted_ownAll body fun _ ht => unhinted_of_suite h List.mem_cons_self ht,
      unhinted_ownAll orelse fun _ ht => unhinted_of_suite h (List.mem_cons_of_mem _ List.mem_cons_self) ht⟩
  | .tryBlock _ body handlers orelse finalbody, h => by
    have hsuites {ss : List Stmt} (hss : ss ∈ Node.suites (.tryBlock _ body handlers orelse finalbody)) :
        ∀ t ∈ ss, t.Unhinted := fun _ ht => unhinted_of_suite h hss ht
    simp only [inner, List.forall_mem_append]
    refine ⟨⟨⟨unhinted_ownAll body (hsuites (by simp [Node.suites])), ?_⟩,
      unhinted_ownAll orelse (hsuites (by simp [Node.suites]))⟩,
      unhinted_ownAll finalbody (hsuites (by simp [Node.suites]))⟩
    exact unhinted_ownHandlers handlers fun handler hmem =>
      hsuites (by simp only [Node.suites, List.mem_append, List.mem_cons]
                  exact Or.inl (Or.inr (List.mem_map_of_mem hmem)))
  | .expression _ _, _ | .functionDef _ _ _ _ _ _ _, _ | .assign _ _ _, _ | .annotated _ _ _ _, _
  | .augmented _ _ _ _, _ | .returned _ _, _ | .raised _ _ _, _ | .outer _ _ _, _ | .deleted _ _, _
  | .asserted _ _ _, _ | .imported _ _ _, _ | .word _ _, _ => nofun

theorem unhinted_ownAll : (ss : List Stmt) → (∀ s ∈ ss, s.Unhinted) → ∀ t ∈ ownAll ss, t.Unhinted
  | [], _ => nofun
  | s :: ss, h => by
    obtain ⟨hs, hss⟩ := List.forall_mem_cons.mp h
    rw [ownAll, List.cons_append, List.forall_mem_cons, List.forall_mem_append]
    exact ⟨hs, unhinted_inner s hs, unhinted_ownAll ss hss⟩

theorem unhinted_ownHandlers : (hs : List Handler) → (∀ h ∈ hs, ∀ s ∈ Node.bodyOf h, s.Unhinted) →
    ∀ t ∈ ownHandlers hs, t.Unhinted
  | [], _ => nofun
  | .mk _ _ body :: hs, h => by
    obtain ⟨hbody, hrest⟩ := List.forall_mem_cons.mp h
    rw [ownHandlers, List.forall_mem_append]
    exact ⟨unhinted_ownAll body hbody, unhinted_ownHandlers hs hrest⟩

end

end Stmt

/-- The statements of functions in a region are as free of annotations in lambdas as those of the region. -/
theorem Inside.unhinted {own : List Stmt} {f : Region} (hf : Inside own f) (h : ∀ s ∈ own, s.Unhinted) :
    ∀ s ∈ f.own, s.Unhinted := by
  have hbody {s : Stmt} (hs : s.Unhinted) {f : Region} (hf : s.function? = some f) : ∀ t ∈ f.own, t.Unhinted := by
    cases s with
    | functionDef span name decorators parameters returns body isAsync =>
      obtain rfl := Option.some.inj hf
      exact Stmt.unhinted_ownAll body fun t ht => Stmt.unhinted_of_suite hs List.mem_cons_self ht
    | _ => exact absurd hf nofun
  induction hf with
  | here hs hf => exact hbody (h _ hs) hf
  | within hs hf _ ih => exact ih (hbody (h _ hs) hf)

/-! ## Scopes of modules -/

/-- A scope is that of a region: it has the lines of the region, a scope for each function that belongs to it,
the records of the parameters in their order, and each record that is declared by a statement of the region. -/
structure Scope.Declares (s : Scope) (r : Region) : Prop where
  first : s.first = r.first
  last : s.last = r.last
  children : s.children = r.functions.map Region.scope
  records : ∃ rest, s.records = r.taken ++ rest ∧ rest.Perm (r.own.flatMap r.declared)

theorem Region.scope_declares (r : Region) (h : ∀ s ∈ r.own, s.Unhinted) : r.scope.Declares r := by
  refine ⟨r.scope_first, r.scope_last, r.scope_children, ?_⟩
  have htaken := Scope.records_addParameters (Scope.ofLines r.first r.last) r.parameters
  have hvisits := Scope.visitAll_visits (r.parameters.foldl Scope.addParameter (Scope.ofLines r.first r.last)) r.body
  obtain ⟨rest, hrest, hperm⟩ := hvisits.records
  refine ⟨rest, ?_, hperm.trans (List.Perm.of_eq (List.flatMap_congr fun s hs => ?_))⟩
  · rw [Region.scope, hrest, htaken]
    rfl
  · have hnames : s.expressions.flatMap Expr.lambdaParameters = s.expressions.flatMap Expr.lambdaNames :=
      List.flatMap_congr fun e he => e.lambdaParameters_eq ((h s hs).expression he)
    rw [Scope.visited, Scope.walked, hnames, r.scope_takes.first, r.scope_takes.last]
    rfl

theorem Reading.unhinted_ofTokens {tokens : List Token} {m : Module} (h : Module.ofTokens tokens = .ok m)
    (lines : Nat) : ∀ s ∈ (m.region lines).own, s.Unhinted := by
  obtain ⟨d, hlays⟩ := ofTokens_lays h
  refine Stmt.unhinted_ownAll m.body fun s hs n hn => hlays.unhinted n ?_
  rw [Node.ofSuite, List.flatMap_singleton] at hn
  exact List.mem_flatMap.mpr ⟨s, hs, hn⟩

/-- All that is declared in a module is recorded once, in the scope of the innermost function around it. A block
is not a scope. -/
theorem records_declared {tokens : List Token} {m : Module} (h : Module.ofTokens tokens = .ok m) (lines : Nat) :
    (Scope.ofModule m lines).Declares (m.region lines) ∧
    (∀ f, Inside (m.region lines).own f → f.scope.Declares f) ∧
    Scope.ofModule ⟨m.span, [.block m.span m.body]⟩ lines = Scope.ofModule m lines := by
  have hunhinted := Reading.unhinted_ofTokens h lines
  refine ⟨(m.region lines).scope_declares hunhinted, fun f hf => f.scope_declares (hf.unhinted hunhinted), ?_⟩
  rw [Scope.ofModule, Scope.ofModule, Scope.visitAll, Scope.visit, Scope.visitAll]

/-- A function with lambdas in its decorator, its parameter and its annotation, and one with a lambda in the
default of its parameter. -/
def lambdasSource : String :=
  "@d(lambda q: 1)\ndef f(a: int = (lambda b: b)) -> [lambda e: e]: x = y = 1\nz: int = {lambda c=(lambda d: d): c}\n"

theorem lambdasSource_declared : ∃ tokens m, Module.ofTokens tokens = .ok m ∧
    (Scope.ofModule m 3).Declares (m.region 3) ∧
      ∀ f, Inside (m.region 3).own f → f.scope.Declares f := by
  have hok : ((tokenize lambdasSource).bind Module.ofTokens).isOk = true := by decide +kernel
  cases htokens : tokenize lambdasSource with
  | error e => rw [htokens] at hok; exact absurd hok nofun
  | ok tokens =>
    rw [htokens] at hok
    cases hm : Module.ofTokens tokens with
    | error e => rw [Except.bind, hm] at hok; exact absurd hok nofun
    | ok m => exact ⟨tokens, m, hm, (records_declared hm 3).1, (records_declared hm 3).2.1⟩

example : (Scope.ofText lambdasSource).toOption.map (fun s => (s.records, s.children.map Scope.records)) = some
    ([⟨"q", none, 1, 3⟩, ⟨"b", none, 1, 3⟩, ⟨"e", none, 1, 3⟩, ⟨"z", some "int", 3, 3⟩, ⟨"c", none, 1, 3⟩,
        ⟨"d", none, 1, 3⟩],
      [[⟨"a", some "int", 2, 2⟩, ⟨"x", none, 2, 2⟩, ⟨"y", none, 2, 2⟩]]) := by
  decide +kernel

end TypeWatch
