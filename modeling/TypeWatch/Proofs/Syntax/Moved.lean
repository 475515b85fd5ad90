import TypeWatch.Proofs.Syntax.Bare
import TypeWatch.Proofs.Syntax.Node
import TypeWatch.Syntax.Expr
import TypeWatch.Token.Basic

/-! # Nodes that are moved

A node that is moved has its places elsewhere, and its string literals may stand for other texts. It is the same
otherwise: it is written the same way if its literals stand for what they stood for (`Expr.written_moved`), and is
a target if it was one (`Expr.nonTarget?_moved`). -/
namespace TypeWatch
set_option autoImplicit false

/-- Where places go: those where something begins, and those where something ends. The string literals of a
stretch may stand for another text. -/
structure Motion where
  start : Position → Position
  stop : Position → Position
  literal : Span → String → String := fun _ text => text

/-- Whether literals stand for what they stood for. -/
def Motion.Plain (μ : Motion) : Prop := ∀ s text, μ.literal s text = text

def Span.moved (μ : Motion) (s : Span) : Span := ⟨μ.start s.start, μ.stop s.stop⟩

/-! ## Tokens -/

def Token.moved (μ : Motion) (t : Token) : Token :=
  ⟨t.kind, if t.kind.isString then μ.literal t.span t.text else t.text, t.span.moved μ⟩

section Tokens

variable {μ : Motion} {t : Token}

theorem Token.text_moved (h : t.kind.isString = false) : (t.moved μ).text = t.text := by
  rw [moved, h]
  rfl

theorem Token.literal_moved (h : t.kind.isString = true) : (t.moved μ).text = μ.literal t.span t.text := by
  rw [moved, h]
  rfl

theorem Motion.Plain.moved (h : μ.Plain) (t : Token) : t.moved μ = ⟨t.kind, t.text, t.span.moved μ⟩ := by
  rw [Token.moved, h, ite_self]

/-- Whether the string literals ahead, together with those of a stretch, stand for what their texts stand for one
by one. -/
def Motion.Joins (μ : Motion) (p q : Position) (text : String) : List Token → Prop
  | [] => True
  | t :: ts => t.kind.isString = true →
    μ.literal ⟨p, t.span.stop⟩ (text ++ t.text) = μ.literal ⟨p, q⟩ text ++ μ.literal t.span t.text ∧
      μ.Joins p t.span.stop (text ++ t.text) ts

theorem Motion.Plain.joins (h : μ.Plain) (p q : Position) (text : String) (ts : List Token) : μ.Joins p q text ts := by
  induction ts generalizing q text with
  | nil => trivial
  | cons t ts ih => exact fun _ => ⟨by rw [h, h, h], ih t.span.stop (text ++ t.text)⟩

end Tokens

/-! ## Expressions -/

/-- A constant of a stretch. -/
def Constant.moved (μ : Motion) (s : Span) : Constant → Constant
  | .string text => .string (μ.literal s text)
  | .bytes text => .bytes (μ.literal s text)
  | .formatString text => .formatString (μ.literal s text)
  | .noneWord => .noneWord
  | .trueWord => .trueWord
  | .falseWord => .falseWord
  | .ellipsis => .ellipsis
  | .number literal => .number literal

mutual

def Expr.moved (μ : Motion) : Expr → Expr
  | .name s id => .name (s.moved μ) id
  | .constant s value => .constant (s.moved μ) (value.moved μ s)
  | .member s value attr => .member (s.moved μ) (value.moved μ) attr
  | .subscript s value index => .subscript (s.moved μ) (value.moved μ) (index.moved μ)
  | .slice s lower upper step =>
    .slice (s.moved μ) (Expr.movedOption μ lower) (Expr.movedOption μ upper) (Expr.movedOption μ step)
  | .tuple s elements => .tuple (s.moved μ) (Expr.movedList μ elements)
  | .list s elements => .list (s.moved μ) (Expr.movedList μ elements)
  | .set s elements => .set (s.moved μ) (Expr.movedList μ elements)
  | .dict s entries => .dict (s.moved μ) (Entry.movedList μ entries)
  | .call s callee arguments => .call (s.moved μ) (callee.moved μ) (Expr.movedList μ arguments)
  | .keyword s label value => .keyword (s.moved μ) label (value.moved μ)
  | .starred s value => .starred (s.moved μ) (value.moved μ)
  | .binary s left op right => .binary (s.moved μ) (left.moved μ) op (right.moved μ)
  | .unary s op operand => .unary (s.moved μ) op (operand.moved μ)
  | .lambda s parameters body => .lambda (s.moved μ) (Parameter.movedList μ parameters) (body.moved μ)
  | .conditional s test body orelse => .conditional (s.moved μ) (test.moved μ) (body.moved μ) (orelse.moved μ)
  | .comprehension s kind element value clauses =>
    .comprehension (s.moved μ) kind (element.moved μ) (Expr.movedOption μ value) (Clause.movedList μ clauses)
  | .named s target value => .named (s.moved μ) (target.moved μ) (value.moved μ)
  | .await s value => .await (s.moved μ) (value.moved μ)
  | .yield s value delegates => .yield (s.moved μ) (Expr.movedOption μ value) delegates

def Expr.movedOption (μ : Motion) : Option Expr → Option Expr
  | none => none
  | some e => some (e.moved μ)

def Expr.movedList (μ : Motion) : List Expr → List Expr
  | [] => []
  | e :: es => e.moved μ :: Expr.movedList μ es

def Entry.moved (μ : Motion) : Entry → Entry
  | .pair key value => .pair (key.moved μ) (value.moved μ)
  | .unpack value => .unpack (value.moved μ)

def Entry.movedList (μ : Motion) : List Entry → List Entry
  | [] => []
  | e :: es => e.moved μ :: Entry.movedList μ es

def Clause.moved (μ : Motion) : Clause → Clause
  | .mk target iter conditions isAsync =>
    .mk (target.moved μ) (iter.moved μ) (Expr.movedList μ conditions) isAsync

def Clause.movedList (μ : Motion) : List Clause → List Clause
  | [] => []
  | c :: cs => c.moved μ :: Clause.movedList μ cs

def Parameter.moved (μ : Motion) : Parameter → Parameter
  | .mk s kind name hint standard =>
    .mk (s.moved μ) kind name (Expr.movedOption μ hint) (Expr.movedOption μ standard)

def Parameter.movedList (μ : Motion) : List Parameter → List Parameter
  | [] => []
  | p :: ps => p.moved μ :: Parameter.movedList μ ps

end

section Lists

variable (μ : Motion)

@[simp] theorem Expr.movedOption_eq (o : Option Expr) : Expr.movedOption μ o = o.map (Expr.moved μ) := by
  cases o <;> rfl

@[simp] theorem Expr.movedList_eq (es : List Expr) : Expr.movedList μ es = es.map (Expr.moved μ) := by
  induction es with
  | nil => rfl
  | cons e es ih => rw [Expr.movedList, ih, List.map_cons]

@[simp] theorem Entry.movedList_eq (es : List Entry) : Entry.movedList μ es = es.map (Entry.moved μ) := by
  induction es with
  | nil => rfl
  | cons e es ih => rw [Entry.movedList, ih, List.map_cons]

@[simp] theorem Clause.movedList_eq (cs : List Clause) : Clause.movedList μ cs = cs.map (Clause.moved μ) := by
  induction cs with
  | nil => rfl
  | cons c cs ih => rw [Clause.movedList, ih, List.map_cons]

@[simp] theorem Parameter.movedList_eq (ps : List Parameter) :
    Parameter.movedList μ ps = ps.map (Parameter.moved μ) := by
  induction ps with
  | nil => rfl
  | cons p ps ih => rw [Parameter.movedList, ih, List.map_cons]

end Lists

/-! ## Constants that are kept -/

/-- Whether the string literals of a node and of those below it stand for what they stood for. -/
def Node.Keeps (μ : Motion) (n : Node) : Prop :=
  ∀ s value, n.Has (.expr (.constant s value)) → value.moved μ s = value

section Keeps

variable {μ : Motion} {n k : Node}

theorem Node.Keeps.has (h : n.Keeps μ) (hk : n.Has k) : k.Keeps μ := fun s value hs => h s value (hk.trans hs)

theorem Node.Keeps.part (h : n.Keeps μ) (hk : k ∈ n.parts) : k.Keeps μ := h.has (has_part hk)

theorem Node.Keeps.constant {s : Span} {value : Constant} (h : Node.Keeps μ (.expr (.constant s value))) :
    value.moved μ s = value := h s value .self

theorem Node.Keeps.child {e x : Expr} (h : Node.Keeps μ (.expr e)) (hx : x ∈ e.children) :
    Node.Keeps μ (.expr x) := h.has (has_child hx)

theorem Motion.Plain.constant (h : μ.Plain) (s : Span) (value : Constant) : value.moved μ s = value := by
  cases value <;> simp only [Constant.moved, h s]

theorem Motion.Plain.keeps (h : μ.Plain) (n : Node) : n.Keeps μ := fun s value _ => h.constant s value

end Keeps

namespace Expr

variable (μ : Motion)

@[simp] theorem span_moved (e : Expr) : (e.moved μ).span = e.span.moved μ := by
  cases e <;> rfl

/-! ## Written forms -/

mutual

theorem bare_moved : ∀ e : Expr, Node.Keeps μ (.expr e) → (e.moved μ).bare = e.bare
  | name _ _, _ => rfl
  | constant s value, h => by simp only [moved, bare, h.constant]
  | member _ value _, h | keyword _ _ value, h | starred _ value, h | unary _ _ value, h | await _ value, h => by
    simp only [moved, bare, bare_moved value (h.child List.mem_cons_self)]
  | subscript _ value index, h => by
    simp only [moved, bare, bare_moved value (h.child (by simp [children])),
      bare_moved index (h.child (by simp [children]))]
  | slice _ lower upper step, h => by
    simp only [moved, bare,
      bareOption_moved lower fun e he => h.child (List.mem_append_left _ (List.mem_append_left _ he)),
      bareOption_moved upper fun e he => h.child (List.mem_append_left _ (List.mem_append_right _ he)),
      bareOption_moved step fun e he => h.child (List.mem_append_right _ he)]
  | tuple _ elements, h | list _ elements, h | set _ elements, h => by
    simp only [moved, bare, bareList_moved elements fun e he => h.child he]
  | dict _ entries, h => by simp only [moved, bare, bareEntries_moved entries fun e he => h.child he]
  | call _ callee arguments, h => by
    simp only [moved, bare, bare_moved callee (h.child List.mem_cons_self),
      bareList_moved arguments fun e he => h.child (List.mem_cons_of_mem _ he)]
  | binary _ left _ right, h => by
    simp only [moved, bare, bare_moved left (h.child (by simp [children])),
      bare_moved right (h.child (by simp [children]))]
  | lambda _ parameters body, h => by
    simp only [moved, bare, bareParameters_moved parameters fun p hp => h.part (by simp [Node.parts, Node.ofExpr, hp]),
      bare_moved body (h.part (by simp [Node.parts, Node.ofExpr]))]
  | conditional _ test body orelse, h => by
    simp only [moved, bare, bare_moved test (h.part (by simp [Node.parts, Node.ofExpr])),
      bare_moved body (h.part (by simp [Node.parts, Node.ofExpr])),
      bare_moved orelse (h.part (by simp [Node.parts, Node.ofExpr]))]
  | comprehension _ _ element value clauses, h => by
    simp only [moved, bare, bare_moved element (h.child List.mem_cons_self),
      bareOption_moved value fun e he => h.child (List.mem_cons_of_mem _ (List.mem_append_left _ he)),
      bareClauses_moved clauses fun e he => h.child (List.mem_cons_of_mem _ (List.mem_append_right _ he))]
  | named _ target value, h => by
    simp only [moved, bare, bare_moved target (h.child (by simp [children])),
      bare_moved value (h.child (by simp [children]))]
  | yield _ value _, h => by simp only [moved, bare, bareOption_moved value fun e he => h.child he]

theorem bareOption_moved : ∀ o : Option Expr, (∀ e ∈ o.toList, Node.Keeps μ (.expr e)) →
    bareOption (movedOption μ o) = bareOption o
  | none, _ => rfl
  | some e, h => congrArg some (bare_moved e (h e List.mem_cons_self))

theorem bareList_moved : ∀ es : List Expr, (∀ e ∈ es, Node.Keeps μ (.expr e)) →
    bareList (movedList μ es) = bareList es
  | [], _ => rfl
  | e :: es, h => by
    obtain ⟨he, hes⟩ := List.forall_mem_cons.mp h
    simp only [movedList, bareList, bare_moved e he, bareList_moved es hes]

theorem bareEntries_moved : ∀ es : List Entry, (∀ e ∈ es.flatMap Entry.parts, Node.Keeps μ (.expr e)) →
    bareEntries (Entry.movedList μ es) = bareEntries es
  | [], _ => rfl
  | .pair key value :: es, h => by
    obtain ⟨hpair, hes⟩ := List.forall_mem_append.mp h
    simp only [Entry.movedList, Entry.moved, bareEntries, bare_moved key (hpair key (by simp [Entry.parts])),
      bare_moved value (hpair value (by simp [Entry.parts])), bareEntries_moved es hes]
  | .unpack value :: es, h => by
    obtain ⟨hvalue, hes⟩ := List.forall_mem_append.mp h
    simp only [Entry.movedList, Entry.moved, bareEntries, bare_moved value (hvalue value (by simp [Entry.parts])),
      bareEntries_moved es hes]

theorem bareClauses_moved : ∀ cs : List Clause, (∀ e ∈ cs.flatMap Clause.parts, Node.Keeps μ (.expr e)) →
    bareClauses (Clause.movedList μ cs) = bareClauses cs
  | [], _ => rfl
  | .mk target iter conditions _ :: cs, h => by
    obtain ⟨hclause, hcs⟩ := List.forall_mem_append.mp h
    obtain ⟨htarget, hclause⟩ := List.forall_mem_cons.mp hclause
    obtain ⟨hiter, hconditions⟩ := List.forall_mem_cons.mp hclause
    simp only [Clause.movedList, Clause.moved, bareClauses, bare_moved target htarget, bare_moved iter hiter,
      bareList_moved conditions hconditions, bareClauses_moved cs hcs]

theorem bareParameters_moved : ∀ ps : List Parameter, (∀ p ∈ ps, Node.Keeps μ (.parameter p)) →
    bareParameters (Parameter.movedList μ ps) = bareParameters ps
  | [], _ => rfl
  | .mk _ _ _ hint standard :: ps, h => by
    obtain ⟨hp, hps⟩ := List.forall_mem_cons.mp h
    simp only [Parameter.movedList, Parameter.moved, bareParameters,
      bareOption_moved hint fun e he => hp.part (List.mem_append_left _ (List.mem_map_of_mem he)),
      bareOption_moved standard fun e he => hp.part (List.mem_append_right _ (List.mem_map_of_mem he)),
      bareParameters_moved ps hps]

end

variable {μ}

theorem written_moved {e : Expr} (h : Node.Keeps μ (.expr e)) : (e.moved μ).written = e.written := by
  rw [← written_bare, bare_moved μ e h, written_bare]

variable (μ)

/-! ## Targets -/

theorem isSingleTarget_moved (e : Expr) : (e.moved μ).isSingleTarget = e.isSingleTarget := by
  cases e <;> rfl

mutual

theorem nonTarget?_moved : ∀ e : Expr, (e.moved μ).nonTarget? = e.nonTarget?.map (moved μ)
  | name _ _ | member _ _ _ | subscript _ _ _ => rfl
  | tuple _ elements | list _ elements => nonTargetIn?_moved elements
  | starred _ value => nonTarget?_moved value
  | constant _ _ | slice _ _ _ _ | set _ _ | dict _ _ | call _ _ _ | keyword _ _ _ | binary _ _ _ _ | unary _ _ _
  | lambda _ _ _ | conditional _ _ _ _ | comprehension _ _ _ _ _ | named _ _ _ | await _ _ | yield _ _ _ => rfl

theorem nonTargetIn?_moved : ∀ es : List Expr, nonTargetIn? (movedList μ es) = (nonTargetIn? es).map (moved μ)
  | [] => rfl
  | e :: es => by
    rw [movedList, nonTargetIn?, nonTargetIn?, nonTarget?_moved e, nonTargetIn?_moved es]
    cases e.nonTarget? <;> rfl

end

end Expr

/-! ## Statements -/

def WithItem.moved (μ : Motion) (i : WithItem) : WithItem := ⟨i.context.moved μ, i.target.map (Expr.moved μ)⟩

mutual

def Stmt.moved (μ : Motion) : Stmt → Stmt
  | .block s body => .block (s.moved μ) (Stmt.movedList μ body)
  | .expression s value => .expression (s.moved μ) (value.moved μ)
  | .functionDef s name decorators parameters returns body isAsync =>
    .functionDef (s.moved μ) name (decorators.map (Expr.moved μ)) (parameters.map (Parameter.moved μ))
      (returns.map (Expr.moved μ)) (Stmt.movedList μ body) isAsync
  | .classDef s name decorators bases body =>
    .classDef (s.moved μ) name (decorators.map (Expr.moved μ)) (bases.map (Expr.moved μ)) (Stmt.movedList μ body)
  | .assign s targets value => .assign (s.moved μ) (targets.map (Expr.moved μ)) (value.moved μ)
  | .annotated s target hint value =>
    .annotated (s.moved μ) (target.moved μ) (hint.moved μ) (value.map (Expr.moved μ))
  | .augmented s target op value => .augmented (s.moved μ) (target.moved μ) op (value.moved μ)
  | .returned s value => .returned (s.moved μ) (value.map (Expr.moved μ))
  | .branch s test body orelse =>
    .branch (s.moved μ) (test.moved μ) (Stmt.movedList μ body) (Stmt.movedList μ orelse)
  | .whileLoop s test body orelse =>
    .whileLoop (s.moved μ) (test.moved μ) (Stmt.movedList μ body) (Stmt.movedList μ orelse)
  | .forLoop s target iter body orelse isAsync =>
    .forLoop (s.moved μ) (target.moved μ) (iter.moved μ) (Stmt.movedList μ body) (Stmt.movedList μ orelse) isAsync
  | .withBlock s items body isAsync =>
    .withBlock (s.moved μ) (items.map (WithItem.moved μ)) (Stmt.movedList μ body) isAsync
  | .tryBlock s body handlers orelse finalbody =>
    .tryBlock (s.moved μ) (Stmt.movedList μ body) (Handler.movedList μ handlers) (Stmt.movedList μ orelse)
      (Stmt.movedList μ finalbody)
  | .raised s error cause => .raised (s.moved μ) (error.map (Expr.moved μ)) (cause.map (Expr.moved μ))
  | .outer s names isNonlocal => .outer (s.moved μ) names isNonlocal
  | .deleted s targets => .deleted (s.moved μ) (targets.map (Expr.moved μ))
  | .asserted s test message => .asserted (s.moved μ) (test.moved μ) (message.map (Expr.moved μ))
  | .imported s origin names => .imported (s.moved μ) origin names
  | .word s keyword => .word (s.moved μ) keyword

def Stmt.movedList (μ : Motion) : List Stmt → List Stmt
  | [] => []
  | s :: ss => s.moved μ :: Stmt.movedList μ ss

def Handler.moved (μ : Motion) : Handler → Handler
  | .mk type name body => .mk (type.map (Expr.moved μ)) name (Stmt.movedList μ body)

def Handler.movedList (μ : Motion) : List Handler → List Handler
  | [] => []
  | h :: hs => h.moved μ :: Handler.movedList μ hs

end

section Lists

variable (μ : Motion)

@[simp] theorem Stmt.movedList_eq (ss : List Stmt) : Stmt.movedList μ ss = ss.map (Stmt.moved μ) := by
  induction ss with
  | nil => rfl
  | cons s ss ih => rw [Stmt.movedList, ih, List.map_cons]

@[simp] theorem Handler.movedList_eq (hs : List Handler) : Handler.movedList μ hs = hs.map (Handler.moved μ) := by
  induction hs with
  | nil => rfl
  | cons h hs ih => rw [Handler.movedList, ih, List.map_cons]

end Lists

end TypeWatch
