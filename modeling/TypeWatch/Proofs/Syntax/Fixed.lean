import Mathlib.Data.List.Basic
import TypeWatch.Proofs.Syntax.Moved

/-! # Nodes that a motion leaves as they are

The parts of a moved node are its parts, moved (`Node.parts_moved`). Where a motion leaves a node as it is, it
leaves every node below it as it is (`Node.fixed_of_has`), and with them the texts of the string literals. -/
namespace TypeWatch
set_option autoImplicit false

variable {μ : Motion}

namespace Node

def moved (μ : Motion) : Node → Node
  | expr e => expr (e.moved μ)
  | parameter p => parameter (p.moved μ)
  | stmt s => stmt (s.moved μ)

theorem map_expr_moved (es : List Expr) : (es.map (Expr.moved μ)).map expr = (es.map expr).map (moved μ) := by
  rw [List.map_map, List.map_map]
  rfl

theorem entries_moved (entries : List Entry) : (entries.map (Entry.moved μ)).flatMap Entry.parts =
    (entries.flatMap Entry.parts).map (Expr.moved μ) := by
  rw [List.map_flatMap, List.flatMap_map]
  refine congrArg (List.flatMap · entries) (funext fun entry => ?_)
  cases entry <;> rfl

theorem clauses_moved (clauses : List Clause) : (clauses.map (Clause.moved μ)).flatMap Clause.parts =
    (clauses.flatMap Clause.parts).map (Expr.moved μ) := by
  rw [List.map_flatMap, List.flatMap_map]
  refine congrArg (List.flatMap · clauses) (funext fun clause => ?_)
  obtain ⟨target, iter, conditions, isAsync⟩ := clause
  simp only [Clause.moved, Clause.parts, Expr.movedList_eq, List.map_cons]

theorem children_moved (e : Expr) : (e.moved μ).children = e.children.map (Expr.moved μ) := by
  cases e with
  | lambda span parameters body =>
    have hstandard : (parameters.map (Parameter.moved μ)).filterMap Parameter.standard =
        (parameters.filterMap Parameter.standard).map (Expr.moved μ) := by
      rw [List.filterMap_map, List.map_filterMap]
      refine List.filterMap_congr fun p _ => ?_
      obtain ⟨span, kind, name, hint, standard⟩ := p
      exact Expr.movedOption_eq μ standard
    rw [Expr.moved, Expr.children, Expr.children, Parameter.movedList_eq, hstandard, List.map_append, List.map_singleton]
  | _ => simp [Expr.moved, Expr.children, Option.toList_map, entries_moved, clauses_moved]

theorem ofExpr_moved (e : Expr) : ofExpr (e.moved μ) = (ofExpr e).map (moved μ) := by
  cases e with
  | lambda | conditional => simp [Expr.moved, ofExpr, moved, Function.comp_def]
  | _ => exact (congrArg (List.map expr) (children_moved _)).trans (map_expr_moved _)

theorem ofParameter_moved (p : Parameter) : ofParameter (p.moved μ) = (ofParameter p).map (moved μ) := by
  obtain ⟨span, kind, name, hint, standard⟩ := p
  simp [Parameter.moved, ofParameter, Parameter.hint, Parameter.standard, moved, Function.comp_def, Option.toList_map]

theorem decorators_moved (s : Stmt) : (s.moved μ).decorators = s.decorators.map (Expr.moved μ) := by
  cases s <;> rfl

theorem ofSuite_moved (ss : List Stmt) : ofSuite (ss.map (Stmt.moved μ)) = (ofSuite ss).map (moved μ) := by
  rw [ofSuite, ofSuite, List.map_flatMap, List.flatMap_map]
  refine congrArg (List.flatMap · ss) (funext fun s => ?_)
  simp [decorators_moved, moved, Function.comp_def]

theorem items_moved (items : List WithItem) : (items.map (WithItem.moved μ)).flatMap ofItem =
    (items.flatMap ofItem).map (moved μ) := by
  rw [List.map_flatMap, List.flatMap_map]
  refine congrArg (List.flatMap · items) (funext fun item => ?_)
  simp [WithItem.moved, ofItem, moved, Function.comp_def, Option.toList_map]

theorem handlers_moved (handlers : List Handler) : (handlers.map (Handler.moved μ)).flatMap ofHandler =
    (handlers.flatMap ofHandler).map (moved μ) := by
  rw [List.map_flatMap, List.flatMap_map]
  refine congrArg (List.flatMap · handlers) (funext fun handler => ?_)
  obtain ⟨type, name, body⟩ := handler
  simp [Handler.moved, ofHandler, moved, Function.comp_def, Option.toList_map, ofSuite_moved]

theorem ofStmt_moved (s : Stmt) : ofStmt (s.moved μ) = (ofStmt s).map (moved μ) := by
  cases s <;> simp [Stmt.moved, ofStmt, moved, Function.comp_def, Option.toList_map, ofSuite_moved, items_moved,
    handlers_moved]

theorem parts_moved (n : Node) : (n.moved μ).parts = n.parts.map (moved μ) := by
  cases n with
  | expr e => exact ofExpr_moved e
  | parameter p => exact ofParameter_moved p
  | stmt s => exact ofStmt_moved s

theorem fixed_of_has {n k : Node} (hn : n.moved μ = n) (h : n.Has k) : k.moved μ = k := by
  induction h with
  | self => exact hn
  | @within n m k hm _ ih =>
    have hparts : n.parts.map (moved μ) = n.parts := by rw [← parts_moved, hn]
    exact ih (List.map_inj_left.mp (hparts.trans (List.map_id _).symm) m hm)

/-- What a motion leaves as it is keeps its string literals. -/
theorem keeps_of_fixed {n : Node} (hn : n.moved μ = n) : n.Keeps μ := by
  intro s value h
  have hfixed := fixed_of_has hn h
  injection hfixed with hfixed
  injection hfixed

end Node

end TypeWatch
