import TypeWatch.Proofs.Reading.Annotation
import TypeWatch.Proofs.Reading.Gathered
import TypeWatch.Proofs.Scope.Appended
import TypeWatch.Proofs.Scope.Declared
import TypeWatch.Proofs.Token.Returns

/-! # Tables of texts with carriage returns

Statements that are moved on their lines declare what they declared if their annotations are written the same way
(`Scope.visit_moved`). Hence a text has the table that it has with a carriage return before each line feed, unless
a string literal in one quote on each side goes on after a line break: then there is none
(`TypeTable.ofText_returned`). -/
namespace TypeWatch
set_option autoImplicit false

/-! ## Statements on their lines -/

/-- Whether places stay on their lines. -/
structure Motion.Level (μ : Motion) : Prop where
  start : ∀ p, (μ.start p).line = p.line
  stop : ∀ p, (μ.stop p).line = p.line

variable {μ : Motion}

namespace Expr

theorem ownParameters_moved (e : Expr) : (e.moved μ).ownParameters = e.ownParameters := by
  cases e with
  | lambda span parameters body =>
    have hname (p : Parameter) : (p.moved μ).name = p.name := by
      obtain ⟨span, kind, name, hint, standard⟩ := p
      rfl
    simp [moved, ownParameters, hname]
  | _ => rfl

theorem lambdaParameters_moved (e : Expr) : (e.moved μ).lambdaParameters = e.lambdaParameters := by
  have hchildren : (e.children.map (moved μ)).flatMap lambdaParameters = e.children.flatMap lambdaParameters := by
    rw [List.flatMap_map]
    exact List.flatMap_congr fun x hx => lambdaParameters_moved x
  rw [lambdaParameters_cons, Node.children_moved, hchildren, ownParameters_moved, ← lambdaParameters_cons]
termination_by sizeOf e
decreasing_by exact sizeOf_child hx

/-- Whether some expressions are written the same way where they are moved. -/
def WrittenAlike (μ : Motion) (es : List Expr) : Prop := ∀ e ∈ es, (e.moved μ).written = e.written

theorem WrittenAlike.append {a b : List Expr} (h : WrittenAlike μ (a ++ b)) : WrittenAlike μ a ∧ WrittenAlike μ b :=
  List.forall_mem_append.mp h

end Expr

namespace Scope

theorem addLambdas_moved (s : Scope) (e : Expr) : s.addLambdas (e.moved μ) = s.addLambdas e := by
  rw [addLambdas, addLambdas, e.lambdaParameters_moved]

theorem addAllLambdas_moved (s : Scope) (es : List Expr) :
    s.addAllLambdas (es.map (Expr.moved μ)) = s.addAllLambdas es := by
  rw [addAllLambdas, List.foldl_map]
  simp only [addLambdas_moved]
  rfl

theorem outerParts_moved (ps : List Parameter) :
    (ps.map (Parameter.moved μ)).flatMap outerParts = (ps.flatMap outerParts).map (Expr.moved μ) := by
  rw [List.flatMap_map, List.map_flatMap]
  refine congrArg (List.flatMap · ps) (funext fun p => ?_)
  obtain ⟨span, kind, name, hint, standard⟩ := p
  simp [Parameter.moved, outerParts, Parameter.hint, Parameter.standard, Option.toList_map]

theorem itemParts_moved (items : List WithItem) :
    (items.map (WithItem.moved μ)).flatMap itemParts = (items.flatMap itemParts).map (Expr.moved μ) := by
  rw [List.flatMap_map, List.map_flatMap]
  refine congrArg (List.flatMap · items) (funext fun item => ?_)
  simp [WithItem.moved, itemParts, Option.toList_map]

theorem addParameters_moved (s : Scope) {ps : List Parameter} (h : Expr.WrittenAlike μ (ps.filterMap Parameter.hint)) :
    (ps.map (Parameter.moved μ)).foldl addParameter s = ps.foldl addParameter s := by
  induction ps generalizing s with
  | nil => rfl
  | cons p ps ih =>
    obtain ⟨span, kind, name, hint, standard⟩ := p
    cases hint with
    | none => exact ih _ h
    | some e =>
      obtain ⟨he, hps⟩ := List.forall_mem_cons.mp h
      have hfirst : addParameter s (Parameter.moved μ ⟨span, kind, name, some e, standard⟩) =
          addParameter s ⟨span, kind, name, some e, standard⟩ := congrArg (fun type => s.add name (some type) none) he
      rw [List.map_cons, List.foldl_cons, List.foldl_cons, hfirst, ih _ hps]

theorem addTarget_moved (line : Nat) (s : Scope) (target : Expr) :
    addTarget line s (target.moved μ) = addTarget line s target := by
  cases target with
  | name span id => exact addLambdas_moved _ (.name span id)
  | _ => exact addLambdas_moved s _

theorem addTargets_moved (line : Nat) (s : Scope) (targets : List Expr) :
    (targets.map (Expr.moved μ)).foldl (addTarget line) s = targets.foldl (addTarget line) s := by
  simp only [List.foldl_map, addTarget_moved]

theorem addHinted_moved (line : Nat) (s : Scope) (target : Expr) {hint : Expr}
    (h : (hint.moved μ).written = hint.written) :
    addHinted line s (target.moved μ) (hint.moved μ) = addHinted line s target hint := by
  cases target with
  | name span id => exact congrArg (fun type => s.add id (some type) (some line)) h
  | _ => rfl

mutual

/-- A statement that is moved on its lines declares what it declared. -/
theorem visit_moved (hμ : μ.Level) : ∀ (st : Stmt) (s : Scope), Expr.WrittenAlike μ st.annotations →
    visit s (st.moved μ) = visit s st
  | .block _ body, s, h => visitAll_moved hμ body s h
  | .expression _ value, s, _ => addLambdas_moved s value
  | .functionDef span _ decorators parameters returns body _, s, h => by
    obtain ⟨hheader, hbody⟩ := h.append
    have hparts : decorators.map (Expr.moved μ) ++ (parameters.map (Parameter.moved μ)).flatMap outerParts ++
        (returns.map (Expr.moved μ)).toList =
          (decorators ++ parameters.flatMap outerParts ++ returns.toList).map (Expr.moved μ) := by
      rw [outerParts_moved, Option.toList_map, List.map_append, List.map_append]
    simp only [Stmt.moved, visit, hparts, addAllLambdas_moved, Span.moved, hμ.start, hμ.stop,
      addParameters_moved _ hheader.append.1, visitAll_moved hμ body _ hbody]
  | .classDef _ _ decorators bases body, s, h => by
    simp only [Stmt.moved, visit, ← List.map_append, addAllLambdas_moved, visitAll_moved hμ body _ h]
  | .assign span targets value, s, _ => by
    simp only [Stmt.moved, visit, addTargets_moved, addLambdas_moved, Span.moved, hμ.start]
  | .annotated span target hint value, s, h => by
    have hparts : target.moved μ :: hint.moved μ :: (value.map (Expr.moved μ)).toList =
        (target :: hint :: value.toList).map (Expr.moved μ) := by
      rw [Option.toList_map, List.map_cons, List.map_cons]
    simp only [Stmt.moved, visit, hparts, addAllLambdas_moved, Span.moved, hμ.start,
      addHinted_moved _ s target (h hint List.mem_cons_self)]
  | .augmented _ target _ value, s, _ => addAllLambdas_moved s [target, value]
  | .returned _ value, s, _ => by
    simp only [Stmt.moved, visit, Option.toList_map, addAllLambdas_moved]
  | .branch _ test body orelse, s, h | .whileLoop _ test body orelse, s, h => by
    simp only [Stmt.moved, visit, addLambdas_moved, visitAll_moved hμ body _ h.append.1,
      visitAll_moved hμ orelse _ h.append.2]
  | .forLoop _ target iter body orelse _, s, h => by
    have hparts := addAllLambdas_moved (μ := μ) s [target, iter]
    simp only [List.map_cons, List.map_nil] at hparts
    simp only [Stmt.moved, visit, hparts, visitAll_moved hμ body _ h.append.1, visitAll_moved hμ orelse _ h.append.2]
  | .withBlock _ items body _, s, h => by
    simp only [Stmt.moved, visit, itemParts_moved, addAllLambdas_moved, visitAll_moved hμ body _ h]
  | .tryBlock _ body handlers orelse finalbody, s, h => by
    obtain ⟨h, hfinal⟩ := h.append
    obtain ⟨h, horelse⟩ := h.append
    obtain ⟨hbody, hhandlers⟩ := h.append
    simp only [Stmt.moved, visit, visitAll_moved hμ body _ hbody, visitHandlers_moved hμ handlers _ hhandlers,
      visitAll_moved hμ orelse _ horelse, visitAll_moved hμ finalbody _ hfinal]
  | .raised _ error cause, s, _ => by
    simp only [Stmt.moved, visit, Option.toList_map, ← List.map_append, addAllLambdas_moved]
  | .deleted _ targets, s, _ => addAllLambdas_moved s targets
  | .asserted _ test message, s, _ => by
    simp only [Stmt.moved, visit, Option.toList_map, ← List.map_cons, addAllLambdas_moved]
  | .outer _ _ _, _, _ | .imported _ _ _, _, _ | .word _ _, _, _ => rfl

theorem visitAll_moved (hμ : μ.Level) : ∀ (ss : List Stmt) (s : Scope), Expr.WrittenAlike μ (Stmt.annotationsAll ss) →
    visitAll s (Stmt.movedList μ ss) = visitAll s ss
  | [], _, _ => rfl
  | st :: ss, s, h => by
    rw [Stmt.movedList, visitAll, visitAll, visit_moved hμ st s h.append.1, visitAll_moved hμ ss _ h.append.2]

theorem visitHandlers_moved (hμ : μ.Level) : ∀ (hs : List Handler) (s : Scope),
    Expr.WrittenAlike μ (Stmt.annotationsHandlers hs) → visitHandlers s (Handler.movedList μ hs) = visitHandlers s hs
  | [], _, _ => rfl
  | .mk type _ body :: hs, s, h => by
    rw [Handler.movedList, Handler.moved, visitHandlers, visitHandlers, Option.toList_map, addAllLambdas_moved,
      visitAll_moved hμ body _ h.append.1, visitHandlers_moved hμ hs _ h.append.2]

end

end Scope

/-! ## Annotations -/

/-- Whether each string literal in an annotation of a module is on one line. -/
def Module.OneLined (m : Module) (tokens : List Token) : Prop :=
  ∀ e ∈ m.annotations, ∀ t ∈ tokens, t.kind.isString = true → e.span.Holds t → t.span.start.line = t.span.stop.line

instance (m : Module) (tokens : List Token) : Decidable (m.OneLined tokens) :=
  inferInstanceAs (Decidable (∀ e ∈ m.annotations, ∀ t ∈ tokens, t.kind.isString = true → e.span.Holds t →
    t.span.start.line = t.span.stop.line))

namespace Reading

variable {source : String} {tokens tokens' : List Token} {m : Module}

/-- The motion of a text to the one with carriage returns. -/
def returning (tokens' : List Token) : Motion := .gathering Position.widened Position.widened tokens'

theorem level_returning (tokens' : List Token) : (returning tokens').Level := ⟨fun _ => rfl, fun _ => rfl⟩

/-- Literals in an annotation stand for what they stood for if each of them is on one line. -/
theorem annotation_keeps (htokens : tokenize source = .ok tokens) (hm : Module.ofText source = .ok m)
    (hreturned : List.Forall₂ Token.Returned tokens tokens') (hlines : m.OneLined tokens) :
    ∀ e ∈ m.annotations, Node.Keeps (returning tokens') (.expr e) := by
  intro e he s value hconstant
  have hordered := (tokenize_placed htokens).inOrder
  have hofTokens : Module.ofTokens tokens = .ok m := by
    rw [← hm, Module.ofText, htokens]
    rfl
  obtain ⟨st, hst, hin⟩ := Stmt.exists_of_annotationsAll m.body e he
  obtain ⟨htidy, -⟩ := (tidy_body htokens hofTokens st hst).of_has hin
  obtain ⟨htidy', hwithin⟩ := htidy.of_has hconstant
  obtain ⟨first, hfirst, hstart⟩ := htidy'.marked.start
  obtain ⟨last, hlast, hstop⟩ := htidy'.marked.stop
  have hsame : Token.gathered tokens' ⟨s.start.widened, s.stop.widened⟩ = Token.gathered tokens s := by
    have hstart : first.span.start = s.start := hstart
    have hstop : last.span.stop = s.stop := hstop
    refine Token.gathered_returned hreturned (fun t ht => ?_) (fun t ht => ?_) fun t ht hstring hholds => ?_
    · exact hstart ▸ hordered.start_total hfirst ht
    · exact hstop ▸ hordered.stop_total ht hlast
    · exact hlines e he t ht hstring
        ⟨Position.le_trans hwithin.1 hholds.1, Position.le_trans hholds.2 hwithin.2⟩
  have hkeeps := keeps_ofText htokens hm st hst s value (hin.trans hconstant)
  calc value.moved (returning tokens') s
      = value.moved (gatheringAt tokens) s := by
        cases value <;> first | rfl | exact congrArg _ hsame
    _ = value := hkeeps

end Reading

/-! ## Tables -/

namespace TypeTable

/-- A text with a carriage return before each line feed has the table and the comments that it has without them, if
the string literals in its annotations are on one line each. Only where a literal in one quote on each side goes on
after a line break there is no table: the carriage return takes the place of what is escaped. -/
theorem ofText_returned {source : String} (hreturn : '\r' ∉ source.toList) {tokens : List Token} {m : Module}
    {t : TypeTable} (htokens : tokenize source = .ok tokens) (hm : Module.ofText source = .ok m)
    (h : ofText source = .ok t) (hlines : m.OneLined tokens) :
    ((∀ p ∈ (Piece.split source.toList).1, p.continues = false) →
      ofText (Text.returned source) = .ok t ∧ Comments.ofText (Text.returned source) = Comments.ofText source) ∧
    ((∃ p ∈ (Piece.split source.toList).1, p.continues = true) → ∃ e, ofText (Text.returned source) = .error e) := by
  obtain ⟨hkept, hlost⟩ := tokenize_returned hreturn htokens
  refine ⟨fun hall => ?_, fun hsome => ?_⟩
  · obtain ⟨tokens', htokens', hreturned⟩ := hkept hall
    have hanswers : List.Forall₂ (Token.Answers Position.widened Position.widened) tokens tokens' :=
      hreturned.imp fun _ _ => Token.Returned.toAnswers
    obtain ⟨m', hm', hbody⟩ := Reading.ofText_gathering htokens htokens' hanswers rfl hm
    have hwritten : Expr.WrittenAlike (Reading.returning tokens') m.annotations := fun e he =>
      Expr.written_moved (Reading.annotation_keeps htokens hm hreturned hlines e he)
    have hscope : (m'.region (Text.lineCount (Text.returned source).toList)).scope =
        (m.region (Text.lineCount source.toList)).scope := by
      rw [Region.scope_of_module, Region.scope_of_module, Scope.ofModule, Scope.ofModule, hbody, Text.returned,
        String.toList_ofList, Text.lineCount_withReturns, ← Stmt.movedList_eq]
      exact Scope.visitAll_moved (Reading.level_returning tokens') m.body _ hwritten
    have htable : ofText (Text.returned source) = ofText source := by
      rw [ofText_eq, ofText_eq, hm, hm']
      exact congrArg (fun s => Except.ok (ofRoot s)) hscope
    exact ⟨htable.trans h, Comments.ofText_of_returned hreturn htokens htokens' hall⟩
  · obtain ⟨e, he⟩ := hlost hsome
    refine ⟨e, ?_⟩
    rw [ofText_eq, Module.ofText, he]
    rfl

/-- Whether a text can be read and the string literals in its annotations are on one line each. -/
def oneLined (source : String) : Bool :=
  match tokenize source, Module.ofText source with
  | .ok tokens, .ok m => decide (m.OneLined tokens)
  | _, _ => false

theorem exists_of_oneLined {source : String} (h : oneLined source = true) : ∃ tokens m t,
    tokenize source = .ok tokens ∧ Module.ofText source = .ok m ∧ ofText source = .ok t ∧ m.OneLined tokens := by
  unfold oneLined at h
  split at h
  · rename_i tokens m htokens hm
    exact ⟨tokens, m, _, htokens, hm, by rw [ofText_eq, hm]; rfl, of_decide_eq_true h⟩
  · cases h

/-- A text with line breaks in brackets, in a literal in three quotes, after a comment and after a backslash. -/
def brokenPart : String :=
  "def f(a: int,\n      b: \"str\"):  # two\n    c: bytes = \"\"\"x\ny\"\"\"\n    return a + \\\n      b\n"

theorem returned_brokenPart : ∃ t, ofText brokenPart = .ok t ∧ ofText (Text.returned brokenPart) = .ok t ∧
    Comments.ofText (Text.returned brokenPart) = Comments.ofText brokenPart ∧ t.get? 6 "c" = some "bytes" := by
  have hreturn : '\r' ∉ brokenPart.toList := by decide +kernel
  have hlines : oneLined brokenPart = true := by decide +kernel
  have hcontinues : ∀ p ∈ (Piece.split brokenPart.toList).1, p.continues = false := by decide +kernel
  have hvalue : (ofText brokenPart).toOption.bind (fun t => t.get? 6 "c") = some "bytes" := by decide +kernel
  obtain ⟨tokens, m, t, htokens, hm, ht, hlines⟩ := exists_of_oneLined hlines
  obtain ⟨hkept, -⟩ := ofText_returned hreturn htokens hm ht hlines
  obtain ⟨htable, hcomments⟩ := hkept hcontinues
  rw [ht] at hvalue
  exact ⟨t, ht, htable, hcomments, hvalue⟩

/-- A text whose literal goes on after an escaped line break. -/
def continuedPart : String := "x: int = \"a\\\nb\"\n"

theorem not_returned_continued : ¬∀ (source : String) (tokens : List Token) (m : Module) (t : TypeTable),
    '\r' ∉ source.toList → tokenize source = .ok tokens → Module.ofText source = .ok m → ofText source = .ok t →
    m.OneLined tokens →
      ofText (Text.returned source) = .ok t ∧ Comments.ofText (Text.returned source) = Comments.ofText source := by
  intro hall
  have hlines : oneLined continuedPart = true := by decide +kernel
  have hrefused : (ofText (Text.returned continuedPart)).isOk = false := by decide +kernel
  obtain ⟨tokens, m, t, htokens, hm, ht, hlines⟩ := exists_of_oneLined hlines
  have hboth := hall continuedPart tokens m t (by decide +kernel) htokens hm ht hlines
  rw [hboth.1] at hrefused
  exact absurd hrefused nofun

end TypeTable
end TypeWatch
