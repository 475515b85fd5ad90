import TypeWatch.Proofs.Reading.Spelled
import TypeWatch.Proofs.Reading.Suite
import TypeWatch.Proofs.Syntax.Node

/-! # Annotations of modules

The annotations of a module are the type expressions of its annotated assignments, of the parameters of its
functions and of their results, at any depth. All of them are spelled (`ofText_annotations`). -/
namespace TypeWatch
set_option autoImplicit false

/-! ## Annotations -/

namespace Stmt

mutual

/-- The annotations in a statement, those in its suites and in functions included. -/
def annotations : Stmt → List Expr
  | annotated _ _ hint _ => [hint]
  | functionDef _ _ _ parameters returns body _ =>
    parameters.filterMap Parameter.hint ++ returns.toList ++ annotationsAll body
  | block _ body | classDef _ _ _ _ body | withBlock _ _ body _ => annotationsAll body
  | branch _ _ body orelse | whileLoop _ _ body orelse | forLoop _ _ _ body orelse _ =>
    annotationsAll body ++ annotationsAll orelse
  | tryBlock _ body handlers orelse finalbody =>
    annotationsAll body ++ annotationsHandlers handlers ++ annotationsAll orelse ++ annotationsAll finalbody
  | expression _ _ | assign _ _ _ | augmented _ _ _ _ | returned _ _ | raised _ _ _ | outer _ _ _
  | deleted _ _ | asserted _ _ _ | imported _ _ _ | word _ _ => []

def annotationsAll : List Stmt → List Expr
  | [] => []
  | s :: ss => annotations s ++ annotationsAll ss

def annotationsHandlers : List Handler → List Expr
  | [] => []
  | .mk _ _ body :: handlers => annotationsAll body ++ annotationsHandlers handlers

end

theorem annotationsAll_append (a b : List Stmt) :
    annotationsAll (a ++ b) = annotationsAll a ++ annotationsAll b := by
  induction a with
  | nil => rfl
  | cons s a ih => simp [annotationsAll, ih]

theorem annotationsAll_singleton (s : Stmt) : annotationsAll [s] = s.annotations :=
  List.append_nil _

mutual

/-- An annotation in a statement is a node below it. -/
theorem has_of_annotations : ∀ s : Stmt, ∀ e ∈ s.annotations, Node.Has (.stmt s) (.expr e)
  | annotated _ _ hint _, e, he => by
    obtain rfl := List.mem_singleton.mp he
    exact Node.has_part (List.mem_cons_of_mem _ List.mem_cons_self)
  | functionDef _ _ _ parameters returns body _, e, he => by
    rcases List.mem_append.mp he with he | he
    · rcases List.mem_append.mp he with he | he
      · obtain ⟨p, hp, hhint⟩ := List.mem_filterMap.mp he
        have hpart : Node.expr e ∈ (Node.parameter p).parts :=
          List.mem_append_left _ (List.mem_map_of_mem (Option.mem_toList.mpr hhint))
        exact .within (by simp [Node.parts, Node.ofStmt, hp]) (Node.has_part hpart)
      · exact Node.has_part (List.mem_append_left _ (List.mem_append_right _ (List.mem_map_of_mem he)))
    · exact Node.has_suite List.mem_cons_self (exists_of_annotationsAll body e he)
  | block _ body, e, he | classDef _ _ _ _ body, e, he | withBlock _ _ body _, e, he =>
    Node.has_suite List.mem_cons_self (exists_of_annotationsAll body e he)
  | branch _ _ body orelse, e, he | whileLoop _ _ body orelse, e, he | forLoop _ _ _ body orelse _, e, he => by
    rcases List.mem_append.mp he with he | he
    · exact Node.has_suite List.mem_cons_self (exists_of_annotationsAll body e he)
    · exact Node.has_suite (List.mem_cons_of_mem _ List.mem_cons_self) (exists_of_annotationsAll orelse e he)
  | tryBlock _ body handlers orelse finalbody, e, he => by
    rcases List.mem_append.mp he with he | he
    · rcases List.mem_append.mp he with he | he
      · rcases List.mem_append.mp he with he | he
        · exact Node.has_suite List.mem_cons_self (exists_of_annotationsAll body e he)
        · obtain ⟨handler, hhandler, hin⟩ := exists_of_annotationsHandlers handlers e he
          exact Node.has_suite (by simpa [Node.suites] using Or.inr (Or.inl ⟨handler, hhandler, rfl⟩)) hin
      · exact Node.has_suite (by simp [Node.suites]) (exists_of_annotationsAll orelse e he)
    · exact Node.has_suite (by simp [Node.suites]) (exists_of_annotationsAll finalbody e he)

theorem exists_of_annotationsAll : ∀ ss : List Stmt, ∀ e ∈ annotationsAll ss, ∃ s ∈ ss, Node.Has (.stmt s) (.expr e)
  | s :: ss, e, he => by
    rcases List.mem_append.mp he with he | he
    · exact ⟨s, List.mem_cons_self, has_of_annotations s e he⟩
    · obtain ⟨t, ht, hin⟩ := exists_of_annotationsAll ss e he
      exact ⟨t, List.mem_cons_of_mem s ht, hin⟩

theorem exists_of_annotationsHandlers : ∀ hs : List Handler, ∀ e ∈ annotationsHandlers hs,
    ∃ handler ∈ hs, ∃ s ∈ Node.bodyOf handler, Node.Has (.stmt s) (.expr e)
  | .mk type name body :: hs, e, he => by
    rcases List.mem_append.mp he with he | he
    · exact ⟨_, List.mem_cons_self, exists_of_annotationsAll body e he⟩
    · obtain ⟨handler, hhandler, hin⟩ := exists_of_annotationsHandlers hs e he
      exact ⟨handler, List.mem_cons_of_mem _ hhandler, hin⟩

end

end Stmt

def Module.annotations (m : Module) : List Expr := Stmt.annotationsAll m.body

namespace Reading

/-! ## What is spelled between two places -/

/-- Expressions are spelled, and so are the tokens of a later place, if those of a place are. -/
def Spells (c : Cursor) (es : List Expr) (d : Cursor) : Prop :=
  (∀ t ∈ c.rest, t.Spelled) → (∀ e ∈ es, e.Spelled) ∧ ∀ t ∈ d.rest, t.Spelled

namespace Spells

variable {c c1 d : Cursor} {es fs : List Expr}

theorem append (h : Spells c es c1) (h' : Spells c1 fs d) : Spells c (es ++ fs) d := by
  intro hc
  obtain ⟨hes, hc1⟩ := h hc
  obtain ⟨hfs, hd⟩ := h' hc1
  exact ⟨List.forall_mem_append.mpr ⟨hes, hfs⟩, hd⟩

/-- Nothing stands between two places that could be annotated. -/
theorem skip (h : Reaches c d) : Spells c [] d :=
  fun hc => ⟨nofun, fun t ht => hc t (h.suffix.subset ht)⟩

theorem after (h : Reaches c c1) (h' : Spells c1 es d) : Spells c es d := (skip h).append h'

theorem reaching (h : Spells c es c1) (h' : Reaches c1 d) : Spells c es d := by
  have hall := h.append (skip h')
  rwa [List.append_nil] at hall

end Spells

theorem ShowsExpr.spells {c d : Cursor} {e : Expr} (h : ShowsExpr c e d) : Spells c [e] d := by
  intro hc
  obtain ⟨he, hd⟩ := h.spelled hc
  exact ⟨List.forall_mem_singleton.mpr he, hd⟩

theorem ShowsOption.spells {c d : Cursor} {o : Option Expr} (h : ShowsOption c o d) : Spells c o.toList d := by
  intro hc
  obtain ⟨ho, hd⟩ := h.spelled hc
  cases o with
  | none => exact ⟨nofun, hd⟩
  | some e =>
    rw [Expr.spelledOption] at ho
    exact ⟨List.forall_mem_singleton.mpr ho, hd⟩

theorem spelled_hints {ps : List Parameter} (h : Expr.spelledParameters ps) :
    ∀ e ∈ ps.filterMap Parameter.hint, e.Spelled := by
  induction ps with
  | nil => exact nofun
  | cons p ps ih =>
    obtain ⟨s, kind, id, hint, standard⟩ := p
    simp only [Expr.spelledParameters] at h
    cases hint with
    | none => exact ih h.2
    | some e =>
      have he := h.1.2.1
      rw [Expr.spelledOption] at he
      exact List.forall_mem_cons.mpr ⟨he, ih h.2⟩

/-- What is said of a reader of one statement. -/
def SpellsStmt (c : Cursor) (s : Stmt) (d : Cursor) : Prop := Spells c s.annotations d

/-- What is said of a reader of several statements. -/
def SpellsAll (c : Cursor) (ss : List Stmt) (d : Cursor) : Prop := Spells c (Stmt.annotationsAll ss) d

theorem SpellsAll.append {c c1 d : Cursor} {ss rest : List Stmt} (h : SpellsAll c ss c1)
    (h' : SpellsAll c1 rest d) : SpellsAll c (ss ++ rest) d := by
  rw [SpellsAll, Stmt.annotationsAll_append]
  exact Spells.append h h'

theorem SpellsStmt.single {c d : Cursor} {s : Stmt} (h : SpellsStmt c s d) : SpellsAll c [s] d := by
  rw [SpellsAll, Stmt.annotationsAll_singleton]
  exact h

/-- A statement without annotations. -/
theorem SimpleFrom.spells {start : Position} {c d : Cursor} {s : Stmt} (h : SimpleFrom start c s d)
    (hs : s.annotations = []) : SpellsStmt c s d := by
  rw [SpellsStmt, hs]
  exact .skip h.reaches

/-! ## Statements of a line -/

/-- Statements that begin with a word of their own have no annotations. -/
theorem wordStmt?_unannotated {t : Token} {c : Cursor} {r : MayRead Stmt c} (h : wordStmt? t c = some r) :
    r.Gives fun s _ => s.annotations = [] := by
  have hany {α : Type} {c' : Cursor} (r' : Read α c') : r'.Gives fun _ _ => True := fun _ _ => trivial
  unfold wordStmt? at h
  dsimp only at h
  split at h
  case h_12 => exact absurd h nofun
  all_goals obtain rfl := Option.some.inj h
  case h_1 | h_2 | h_3 => exact gives_ok rfl
  case h_4 =>
    unfold returnStmt
    split
    · exact Read.gives_bind (hany _) fun _ _ _ _ => gives_ok rfl
    · exact gives_ok rfl
  case h_5 =>
    unfold raiseStmt
    split
    · refine Read.gives_bind (expr_gives .named c) ?_
      intro e c1 h1 _
      refine Read.gives_bind (MayRead.gives_since (singleAfter_gives _ .named c1) h1) ?_
      exact fun _ _ _ _ => gives_ok rfl
    · exact gives_ok rfl
  case h_6 | h_7 | h_8 | h_10 =>
    refine Read.gives_moved (Read.gives_bind (hany _) fun _ _ _ _ => ?_)
    exact gives_ok rfl
  case h_9 =>
    refine Read.gives_moved (Read.gives_bind (expr_gives .named c) ?_)
    intro test c1 h1 _
    refine Read.gives_bind (MayRead.gives_since (singleAfter_gives _ .named c1) h1) ?_
    exact fun _ _ _ _ => gives_ok rfl
  case h_11 =>
    refine Read.gives_moved (MayRead.gives_bind (origin_gives c) fun _ _ _ _ => ?_)
    refine Read.gives_bind (hany _) fun _ _ _ _ => ?_
    refine Read.gives_bind (hany _) fun _ _ _ _ => ?_
    exact gives_ok rfl

theorem wordStmt?_spells {t : Token} {c : Cursor} {r : MayRead Stmt c} (h : wordStmt? t c = some r) :
    r.Gives (SpellsStmt c) :=
  fun a ha => ((wordStmt?_gives h).2 a ha).spells (wordStmt?_unannotated h a ha)

theorem annotatedTarget_spells (start : Position) (target : Expr) (c : Cursor) :
    (annotatedTarget start target c).Gives (SpellsStmt c) := by
  refine gives_bind_check fun _ => ?_
  refine Read.gives_bind (expr_shows .named c) ?_
  intro hint c1 h1 hhint
  refine Read.gives_bind (MayRead.gives_since (severalAfter_gives _ c1) h1) ?_
  intro value d h2 hvalue
  exact gives_ok (hhint.spells.reaching hvalue)

theorem stmtAfter_spells (start : Position) (first : Expr) (c : Cursor) :
    (stmtAfter start first c).Gives (SpellsStmt c) := by
  have hnone : SpellsStmt c (.expression first.span first) c := .skip (.refl c)
  unfold stmtAfter
  split
  · exact gives_ok hnone
  · rename_i t c1 h1 hnext
    have hpass := (Cursor.next?_passes hnext).reaches
    split
    · refine MayRead.gives_imp (Read.gives_moved (Read.gives_since (annotatedTarget_spells start first c1) h1)) ?_
      exact fun a ha => Spells.after hpass ha
    · refine MayRead.gives_bind (assigned_gives c) ?_
      intro others c2 h2 hothers
      dsimp only
      split
      · exact gives_unexpected c2
      · exact gives_bind_check fun _ => gives_ok (Spells.skip hothers)
    · split
      · rename_i op _
        refine gives_bind_check fun _ => ?_
        refine Read.gives_moved (Read.gives_since ?_ h1)
        refine Read.gives_bind (several_reaches .least c1) ?_
        intro value d h2 hvalue
        exact gives_ok (Spells.skip (hpass.trans hvalue))
      · exact gives_ok hnone

theorem exprStmt_spells (c : Cursor) : (exprStmt c).Gives (SpellsStmt c) := by
  refine Read.gives_bind (several_reaches .least c) ?_
  intro first c1 h1 hfirst
  refine Read.gives_imp (MayRead.gives_since (stmtAfter_spells _ first c1) h1) ?_
  exact fun a ha => Spells.after hfirst ha

theorem simpleStmt_spells (c : Cursor) : (simpleStmt c).Gives (SpellsStmt c) := by
  unfold simpleStmt
  split
  · exact exprStmt_spells c
  · rename_i t c1 h1 hnext
    have hpass := (Cursor.next?_passes hnext).reaches
    split
    · rename_i r hr
      refine Read.gives_imp (MayRead.gives_since (wordStmt?_spells hr) h1) ?_
      exact fun a ha => Spells.after hpass ha
    · exact exprStmt_spells c

theorem moreSimple_spells (c : Cursor) : (moreSimple c).Gives (SpellsAll c) := by
  rw [moreSimple]
  split
  · exact gives_ok (Spells.skip (.refl c))
  · rename_i t c1 h1 hsemicolon
    have hpass := (Cursor.accept?_passes hsemicolon).2.reaches
    split
    · exact gives_ok (Spells.skip hpass)
    · refine Read.gives_bind (Read.gives_since (simpleStmt_spells c1) h1) ?_
      intro s c2 h2 hs
      refine Read.gives_bind (MayRead.gives_since (moreSimple_spells c2) h2) ?_
      intro ss d h3 hss
      exact gives_ok (Spells.after hpass (Spells.append hs hss))
termination_by c.size

theorem simpleLine_spells (c : Cursor) : (simpleLine c).Gives (SpellsAll c) := by
  refine Read.gives_bind (simpleStmt_spells c) ?_
  intro s c1 h1 hs
  refine Read.gives_bind (MayRead.gives_since (moreSimple_spells c1) h1) ?_
  intro ss c2 h2 hss
  refine Read.gives_bind (Read.gives_since (c2.expect_gives .newline) h2) ?_
  intro t d h3 hnewline
  exact gives_ok ((Spells.append hs hss).reaching hnewline.2.reaches)

/-! ## Suites -/

section Stmts

variable {n : Nat} {sub : StmtsBelow n}

/-- What is said of a reader of whole lines. -/
def SpellsLines (sub : StmtsBelow n) : Prop := ∀ c h, (sub c h).Gives (SpellsAll c)

theorem suiteStmts_spells (hsub : SpellsLines sub) (c : Cursor) (h : c.size < n) :
    (suiteStmts sub c h).Gives (SpellsAll c) := by
  rw [suiteStmts]
  split
  · exact gives_ok (Spells.skip (.refl c))
  · exact gives_ok (Spells.skip (.refl c))
  · exact gives_fail c _
  · refine Read.gives_bind (hsub c h) ?_
    intro ss c1 h1 hss
    refine Read.gives_bind (MayRead.gives_since (suiteStmts_spells hsub c1 _) h1) ?_
    intro rest d h2 hrest
    exact gives_ok (hss.append hrest)
termination_by c.size

theorem suite_spells (hsub : SpellsLines sub) (c : Cursor) (h : c.size < n) :
    (suite sub c h).Gives (SpellsAll c) := by
  refine Read.gives_bind (c.expect_gives _) ?_
  intro t c1 h1 hcolon
  have hpass := hcolon.2.reaches
  dsimp only
  split
  · refine Read.gives_imp (Read.gives_since (simpleLine_spells c1) h1) ?_
    exact fun a ha => Spells.after hpass ha
  · rename_i t' c2 h2 hnewline
    have hpass' := (Cursor.accept?_since_passes hnewline).2.reaches
    refine Read.gives_bind (Read.gives_since (c2.demand_gives _ _) h2) ?_
    intro t'' c3 h3 hindent
    refine Read.gives_bind (MayRead.gives_since (suiteStmts_spells hsub c3 _) h3) ?_
    intro ss c4 h4 hss
    have hreach : Reaches c c3 := (hpass.trans hpass').trans hindent.2.reaches
    exact gives_ok ((Spells.after hreach hss).reaching (closeSuite_reaches c4).1)

theorem suiteAfter_spells (hsub : SpellsLines sub) (word : Keyword) (c : Cursor) (h : c.size < n) :
    (suiteAfter sub word c h).Gives (SpellsAll c) := by
  unfold suiteAfter
  split
  · exact gives_ok (Spells.skip (.refl c))
  · rename_i t c1 h1 hword
    have hpass := (Cursor.accept?_passes hword).2.reaches
    refine MayRead.gives_imp (Read.gives_moved (Read.gives_since (suite_spells hsub c1 _) h1)) ?_
    exact fun a ha => Spells.after hpass ha

/-! ## Statements with suites -/

theorem branch_spells (hsub : SpellsLines sub) (start : Position) (c : Cursor) (h : c.size < n) :
    (branch sub start c h).Gives (SpellsStmt c) := by
  rw [branch]
  refine Read.gives_bind (expr_gives .least c) ?_
  intro test c1 h1 htest
  refine Read.gives_bind (Read.gives_since (suite_spells hsub c1 _) h1) ?_
  intro body c2 h2 hbody
  have hbefore := Spells.after htest.reaches hbody
  dsimp only
  split
  · rename_i t c3 h3 helif
    have hpass := (Cursor.accept?_since_passes helif).2.reaches
    refine Read.gives_bind (Read.gives_since (branch_spells hsub t.span.start c3 _) h3) ?_
    intro further d h4 hfurther
    exact gives_ok (hbefore.append (Spells.after hpass hfurther.single))
  · refine Read.gives_bind (MayRead.gives_since (suiteAfter_spells hsub _ c2 _) h2) ?_
    intro orelse d h3 horelse
    exact gives_ok (hbefore.append horelse)
termination_by c.size

theorem whileLoop_spells (hsub : SpellsLines sub) (start : Position) (c : Cursor) (h : c.size < n) :
    (whileLoop sub start c h).Gives (SpellsStmt c) := by
  refine Read.gives_bind (expr_gives .least c) ?_
  intro test c1 h1 htest
  refine Read.gives_bind (Read.gives_since (suite_spells hsub c1 _) h1) ?_
  intro body c2 h2 hbody
  refine Read.gives_bind (MayRead.gives_since (suiteAfter_spells hsub _ c2 _) h2) ?_
  intro orelse d h3 horelse
  exact gives_ok (Spells.after htest.reaches (Spells.append hbody horelse))

theorem forLoop_spells (hsub : SpellsLines sub) (start : Position) (isAsync : Bool) (c : Cursor)
    (h : c.size < n) : (forLoop sub start isAsync c h).Gives (SpellsStmt c) := by
  refine Read.gives_bind (several_reaches .comparison c) ?_
  intro target c1 h1 htarget
  refine gives_bind_check fun _ => ?_
  refine Read.gives_bind (Read.gives_since (c1.expect_gives _) h1) ?_
  intro t c2 h2 hin
  refine Read.gives_bind (Read.gives_since (several_reaches .least c2) h2) ?_
  intro iter c3 h3 hiter
  refine Read.gives_bind (Read.gives_since (suite_spells hsub c3 _) h3) ?_
  intro body c4 h4 hbody
  refine Read.gives_bind (MayRead.gives_since (suiteAfter_spells hsub _ c4 _) h4) ?_
  intro orelse d h5 horelse
  have hreach := (htarget.trans hin.2.reaches).trans hiter
  exact gives_ok (Spells.after hreach (Spells.append hbody horelse))

theorem handlers_spells (hsub : SpellsLines sub) (c : Cursor) (h : c.size < n) :
    (handlers sub c h).Gives fun hs d => Spells c (Stmt.annotationsHandlers hs) d := by
  rw [handlers]
  split
  · exact gives_ok (.skip (.refl c))
  · rename_i t c1 h1 hexcept
    have hpass := (Cursor.accept?_passes hexcept).2.reaches
    have hmark := groupMark_reaches c1
    generalize groupMark c1 = mark at hmark ⊢
    obtain ⟨_, c2, h2⟩ := mark
    refine Read.gives_bind (MayRead.gives_since (caught_gives c2) _) ?_
    intro type c3 h3 htype
    refine Read.gives_bind (Read.gives_since (suite_spells hsub c3 _) h3) ?_
    intro body c4 h4 hbody
    refine Read.gives_bind (MayRead.gives_since (handlers_spells hsub c4 _) h4) ?_
    intro hs d h5 hhs
    have hreach := (hpass.trans hmark).trans htype
    exact gives_ok (.after hreach (Spells.append hbody hhs))
termination_by c.size

theorem tryBlock_spells (hsub : SpellsLines sub) (start : Position) (c : Cursor) (h : c.size < n) :
    (tryBlock sub start c h).Gives (SpellsStmt c) := by
  refine Read.gives_bind (suite_spells hsub c h) ?_
  intro body c1 h1 hbody
  refine Read.gives_bind (MayRead.gives_since (handlers_spells hsub c1 _) h1) ?_
  intro hs c2 h2 hhs
  refine Read.gives_bind (MayRead.gives_since (suiteAfter_spells hsub _ c2 _) h2) ?_
  intro orelse c3 h3 horelse
  refine Read.gives_bind (MayRead.gives_since (suiteAfter_spells hsub _ c3 _) h3) ?_
  intro finalbody d h4 hfinal
  have hall := ((Spells.append hbody hhs).append horelse).append hfinal
  dsimp only
  split
  · exact gives_unexpected d
  · exact gives_ok hall

theorem withBlock_spells (hsub : SpellsLines sub) (start : Position) (isAsync : Bool) (c : Cursor)
    (h : c.size < n) : (withBlock sub start isAsync c h).Gives (SpellsStmt c) := by
  refine Read.gives_bind (withItems_gives c) ?_
  intro items c1 h1 hitems
  refine Read.gives_bind (Read.gives_since (suite_spells hsub c1 _) h1) ?_
  intro body d h2 hbody
  exact gives_ok (Spells.after hitems hbody)

/-! ## Definitions -/

theorem functionDef_spells (hsub : SpellsLines sub) (start : Position) (decorators : List Expr)
    (isAsync : Bool) (c : Cursor) (h : c.size < n) :
    (functionDef sub start decorators isAsync c h).Gives (SpellsStmt c) := by
  refine Read.gives_bind c.expectName_gives ?_
  intro name c1 h1 hname
  refine Read.gives_bind (Read.gives_since (c1.expect_gives _) h1) ?_
  intro t c2 h2 hopen
  have hlist := parameters_shows (showsExprs_exprBelow _) (.op .closeParen) true c2 c2.size_below
  refine Read.gives_bind (MayRead.gives_since hlist h2) ?_
  intro ps c3 h3 hps
  refine Read.gives_bind (Read.gives_since (c3.expect_gives _) h3) ?_
  intro t' c4 h4 hclose
  have hresult := exprAfter_shows (showsExprs_exprBelow _) (.op .arrow) .named c4 c4.size_below
  refine Read.gives_bind (MayRead.gives_since hresult h4) ?_
  intro returns c5 h5 hreturns
  refine Read.gives_bind (Read.gives_since (suite_spells hsub c5 _) h5) ?_
  intro body d h6 hbody
  have hhints : Spells c2 (ps.filterMap Parameter.hint) c3 := fun hc => (hps.spelled hc).imp_left spelled_hints
  have hheader := (hhints.reaching hclose.2.reaches).append hreturns.spells
  exact gives_ok (.after (hname.trans hopen.2.reaches) (hheader.append hbody))

theorem classDef_spells (hsub : SpellsLines sub) (start : Position) (decorators : List Expr) (c : Cursor)
    (h : c.size < n) : (classDef sub start decorators c h).Gives (SpellsStmt c) := by
  refine Read.gives_bind c.expectName_gives ?_
  intro name c1 h1 hname
  refine Read.gives_bind (MayRead.gives_since (bases_gives c1) h1) ?_
  intro parents c2 h2 hparents
  refine Read.gives_bind (Read.gives_since (suite_spells hsub c2 _) h2) ?_
  intro body d h3 hbody
  exact gives_ok (Spells.after (hname.trans hparents) hbody)

theorem decorated_spells (hsub : SpellsLines sub) (decorators : List Expr) (c : Cursor) (h : c.size ≤ n) :
    (decorated sub decorators c h).Gives (SpellsStmt c) := by
  unfold decorated
  split
  · exact gives_unexpected c
  · rename_i t c1 h1 hnext
    have hpass : Reaches c c1 := (Cursor.next?_passes hnext).reaches
    dsimp only
    split
    · refine Read.gives_imp (Read.gives_since (functionDef_spells hsub _ _ _ c1 _) h1) ?_
      exact fun a ha => Spells.after hpass ha
    · refine Read.gives_imp (Read.gives_since (classDef_spells hsub _ _ c1 _) h1) ?_
      exact fun a ha => Spells.after hpass ha
    · refine Read.gives_bind (Read.gives_since (c1.expect_gives _) h1) ?_
      intro t' c2 h2 hdef
      refine Read.gives_imp (Read.gives_since (functionDef_spells hsub _ _ _ c2 _) h2) ?_
      exact fun a ha => Spells.after (hpass.trans hdef.2.reaches) ha
    · exact gives_unexpected c

theorem asyncStmt_spells (hsub : SpellsLines sub) (start : Position) (c : Cursor) (h : c.size < n) :
    (asyncStmt sub start c h).Gives (SpellsStmt c) := by
  unfold asyncStmt
  split
  · exact gives_unexpected c
  · rename_i t c1 h1 hnext
    have hpass : Reaches c c1 := (Cursor.next?_passes hnext).reaches
    split
    · refine Read.gives_imp (Read.gives_since (functionDef_spells hsub _ _ _ c1 _) h1) ?_
      exact fun a ha => Spells.after hpass ha
    · refine Read.gives_imp (Read.gives_since (forLoop_spells hsub _ _ c1 _) h1) ?_
      exact fun a ha => Spells.after hpass ha
    · refine Read.gives_imp (Read.gives_since (withBlock_spells hsub _ _ c1 _) h1) ?_
      exact fun a ha => Spells.after hpass ha
    · exact gives_unexpected c

theorem compound?_spells (hsub : SpellsLines sub) (t : Token) (c : Cursor) (h : c.size < n) {read : Read Stmt c}
    (hread : compound? sub t c h = some read) : read.Gives (SpellsStmt c) := by
  unfold compound? at hread
  dsimp only at hread
  split at hread
  case h_9 => exact absurd hread nofun
  all_goals obtain rfl := Option.some.inj hread
  · exact branch_spells hsub _ c h
  · exact whileLoop_spells hsub _ c h
  · exact forLoop_spells hsub _ _ c h
  · exact tryBlock_spells hsub _ c h
  · exact withBlock_spells hsub _ _ c h
  · exact functionDef_spells hsub _ _ _ c h
  · exact classDef_spells hsub _ _ c h
  · exact asyncStmt_spells hsub _ c h

theorem stmtsWith_spells (hsub : SpellsLines sub) (c : Cursor) (h : c.size ≤ n) :
    (stmtsWith sub c h).Gives (SpellsAll c) := by
  unfold stmtsWith
  split
  · exact simpleLine_spells c
  · rename_i t c1 h1 hnext
    have hpass : Reaches c c1 := (Cursor.next?_passes hnext).reaches
    dsimp only
    split
    · -- a definition after its decorators
      have hdecorated : (decoratedStmt sub c h).Gives (SpellsStmt c) := by
        refine MayRead.gives_bind (decoratorLines_gives c) ?_
        intro decorators c2 h2 hdecorators
        refine Read.gives_imp (Read.gives_from (decorated_spells hsub decorators c2 _) h2) ?_
        exact fun a ha => Spells.after hdecorators ha
      refine Read.gives_bind hdecorated ?_
      exact fun s d _ hs => gives_ok hs.single
    · split
      · rename_i read hread
        refine Read.gives_bind (Read.gives_since (compound?_spells hsub t c1 _ hread) h1) ?_
        exact fun s d _ hs => gives_ok (Spells.after hpass hs.single)
      · exact simpleLine_spells c

end Stmts

theorem stmts_spells (c : Cursor) : (stmts c).Gives (SpellsAll c) := by
  have hsub : SpellsLines (n := c.size) fun c' _ => stmts c' := fun c' h => stmts_spells c'
  rw [stmts]
  exact stmtsWith_spells hsub c c.size_upTo
termination_by c.size

/-! ## Modules -/

theorem moduleStmts_spells (c : Cursor) : (moduleStmts c).Gives (SpellsAll c) := by
  rw [moduleStmts]
  split
  · exact gives_ok (Spells.skip (.refl c))
  · exact gives_fail c _
  · split
    · exact gives_ok (Spells.skip (.refl c))
    · rename_i t c1 h1 hnext
      have hpass := (Cursor.next?_passes hnext).reaches
      refine MayRead.gives_imp (Read.gives_moved (MayRead.gives_since (moduleStmts_spells c1) h1)) ?_
      exact fun a ha => Spells.after hpass ha
  · refine Read.gives_bind (stmts_spells c) ?_
    intro ss c1 h1 hss
    refine Read.gives_bind (MayRead.gives_since (moduleStmts_spells c1) h1) ?_
    intro rest d h2 hrest
    exact gives_ok (hss.append hrest)
termination_by c.size

theorem ofText_annotations {source : String} {m : Module} (h : Module.ofText source = .ok m) :
    ∀ e ∈ m.annotations, e.Spelled := by
  obtain ⟨tokens, htokens, h⟩ := exists_of_bind_ok h
  obtain ⟨⟨body, d, hle⟩, hread, h⟩ := exists_of_bind_ok h
  obtain rfl := Except.ok.inj h
  have hpre := Cursor.ofTokens_prefix tokens
  exact (moduleStmts_spells _ _ hread fun t ht => tokenize_spelled htokens t (hpre.subset ht)).1

end Reading
end TypeWatch
