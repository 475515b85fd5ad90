import TypeWatch.Proofs.Reading.NestedExpr
import TypeWatch.Proofs.Reading.Suite

/-! # Statements are nested

Readers of statements lay them, each after its decorators (`stmts_lays`). So the nodes of a source text stand
within each other and one after the other (`spans_nest`). -/
namespace TypeWatch.Reading
set_option autoImplicit false

variable {tokens : List Token} {c c0 c1 d : Cursor} {start : Position}

/-! ## Expressions -/

theorem several_lays (tokens : List Token) (level : Power) (c : Cursor) : (several level c).Gives (LaysExpr tokens c) :=
  exprList_lays (laysExprs_exprBelow tokens _) level c c.size_below

theorem singleAfter_lays (tokens : List Token) (mark : TokenKind) (level : Power) (c : Cursor) :
    (singleAfter mark level c).Gives (LaysOption tokens c) :=
  exprAfter_lays (laysExprs_exprBelow tokens _) mark level c c.size_below

theorem severalAfter_lays (tokens : List Token) (mark : TokenKind) (c : Cursor) :
    (severalAfter mark c).Gives (LaysOption tokens c) := by
  unfold severalAfter
  split
  · exact gives_ok (.nil (.refl c))
  · rename_i t c1 h1 hmark
    refine Read.gives_bind (Read.gives_since (several_lays tokens .least c1) h1) ?_
    intro e d h2 he
    exact gives_ok (.after (Cursor.accept?_passes hmark).2.reaches he.lays)

theorem assigned_lays (tokens : List Token) (c : Cursor) : (assigned c).Gives fun es d => Lays tokens c (es.map .expr) d := by
  rw [assigned]
  split
  · exact gives_ok (.nil (.refl c))
  · rename_i t c1 h1 hassign
    refine Read.gives_bind (Read.gives_since (several_lays tokens .least c1) h1) ?_
    intro e c2 h2 he
    refine Read.gives_bind (MayRead.gives_since (assigned_lays tokens c2) h2) ?_
    intro es d h3 hes
    exact gives_ok (.after (Cursor.accept?_passes hassign).2.reaches (he.lays.append hes))
termination_by c.size

/-! ## Statements without suites -/

/-- Statements that are read one after the other, each after its decorators. -/
def LaysSuite (tokens : List Token) (c : Cursor) (ss : List Stmt) (d : Cursor) : Prop :=
  Lays tokens c (Node.ofSuite ss) d

/-- What is said of a reader of one statement. -/
def LaysStmt (tokens : List Token) (c : Cursor) (s : Stmt) (d : Cursor) : Prop := LaysSuite tokens c [s] d

/-- A statement that begins with the first token, and has its parts after it. -/
theorem Opens.stmt {s : Stmt} (hopen : Opens c0 s.span.start c) (h : Lays tokens c (Node.stmt s).parts d)
    (hstop : EndsAt (Node.stmt s).parts s.span.stop d) : Lays tokens c0 [.stmt s] d :=
  .node (.after hopen.reaches h) trivial (Or.inr (hopen.reaching h.reaches)) hstop

theorem annotatedTarget_lays (target : Expr) (c : Cursor) (hopen : Opens c0 start c)
    (htarget : Lays tokens c0 [.expr target] c) :
    (annotatedTarget start target c).Gives (LaysStmt tokens c0) := by
  refine gives_bind_check fun _ => ?_
  refine Read.gives_bind (expr_lays tokens .named c) ?_
  intro hint c1 h1 hhint
  refine Read.gives_bind (MayRead.gives_since (severalAfter_lays tokens _ c1) h1) ?_
  intro value d h2 hvalue
  have hopened := (hopen.reaching hhint.lays.reaches).reaching hvalue.reaches
  exact gives_ok (.node (n := .stmt (.annotated _ target hint value)) ((htarget.append hhint.lays).append hvalue)
    trivial (Or.inr hopened) (Or.inr rfl))

theorem augmentedTarget_lays (target : Expr) (op : BinaryOp) (c : Cursor) (hopen : Opens c0 start c)
    (htarget : Lays tokens c0 [.expr target] c) :
    (augmentedTarget start target op c).Gives (LaysStmt tokens c0) := by
  refine Read.gives_bind (several_lays tokens .least c) ?_
  intro value d h1 hvalue
  exact gives_ok (.node (n := .stmt (.augmented _ target op value)) (htarget.append hvalue.lays) trivial
    (Or.inr (hopen.reaching hvalue.lays.reaches)) (Or.inr rfl))

/-- A statement that begins with an expression. -/
theorem stmtAfter_lays (first : Expr) (c : Cursor) (hopen : Opens c0 start c)
    (hfirst : Lays tokens c0 [.expr first] c) :
    (stmtAfter start first c).Gives (LaysStmt tokens c0) := by
  have hexpression : LaysStmt tokens c0 (.expression first.span first) c :=
    .node (n := .stmt (.expression _ first)) hfirst trivial (Or.inl rfl) (Or.inl rfl)
  unfold stmtAfter
  split
  · exact gives_ok hexpression
  · rename_i t c1 h1 hnext
    have hpass := (Cursor.next?_passes hnext).reaches
    have hopen' := hopen.reaching hpass
    have hfirst' := hfirst.reaching hpass
    split
    · exact Read.gives_moved (Read.gives_since (annotatedTarget_lays first c1 hopen' hfirst') h1)
    · refine MayRead.gives_bind (assigned_lays tokens c) ?_
      intro others c2 h2 hothers
      dsimp only
      split
      · exact gives_unexpected c2
      · rename_i value targets hreverse
        refine gives_bind_check fun _ => ?_
        have hparts := hfirst.append hothers
        rw [List.reverse_eq_cons_iff.mp hreverse, List.map_append] at hparts
        exact gives_ok (.node (n := .stmt (.assign _ (first :: targets.reverse) value)) hparts trivial
          (Or.inr (hopen.reaching hothers.reaches)) (Or.inr rfl))
    · split
      · rename_i op _
        refine gives_bind_check fun _ => ?_
        exact Read.gives_moved (Read.gives_since (augmentedTarget_lays first op c1 hopen' hfirst') h1)
      · exact gives_ok hexpression

theorem exprStmt_lays (tokens : List Token) (c : Cursor) : (exprStmt c).Gives (LaysStmt tokens c) := by
  refine Read.gives_bind (several_lays tokens .least c) ?_
  intro first c1 h1 hfirst
  exact MayRead.gives_since (stmtAfter_lays first c1 hfirst.opens hfirst.lays) h1

theorem returnStmt_lays (c : Cursor) (hopen : Opens c0 start c) :
    (returnStmt start c).Gives (LaysStmt tokens c0) := by
  unfold returnStmt
  split
  · refine Read.gives_bind (several_lays tokens .least c) ?_
    intro e d h1 he
    exact gives_ok (hopen.stmt (s := .returned _ (some e)) he.lays (Or.inr rfl))
  · exact gives_ok (hopen.stmt (s := .returned _ none) (.nil (.refl c)) (Or.inr rfl))

theorem raiseStmt_lays (c : Cursor) (hopen : Opens c0 start c) :
    (raiseStmt start c).Gives (LaysStmt tokens c0) := by
  unfold raiseStmt
  split
  · refine Read.gives_bind (expr_lays tokens .named c) ?_
    intro e c1 h1 he
    refine Read.gives_bind (MayRead.gives_since (singleAfter_lays tokens _ .named c1) h1) ?_
    intro cause d h2 hcause
    exact gives_ok (hopen.stmt (s := .raised _ (some e) cause) (he.lays.append hcause) (Or.inr rfl))
  · exact gives_ok (hopen.stmt (s := .raised _ none none) (.nil (.refl c)) (Or.inr rfl))

theorem outerStmt_lays (isNonlocal : Bool) (c : Cursor) (hopen : Opens c0 start c) :
    (outerStmt start isNonlocal c).Gives (LaysStmt tokens c0) := by
  have hname : ∀ (c' : Cursor) (_ : c'.size < c.size + 1), c'.expectName.Gives fun _ d => Reaches c' d :=
    fun c' _ => c'.expectName_gives
  refine Read.gives_bind (someItems_gives hname (fun _ => false) c c.size_below) ?_
  intro names d h1 hnames
  exact gives_ok (hopen.stmt (s := .outer _ names isNonlocal) (.nil (hnames.reaches id)) (Or.inr rfl))

theorem importModules_lays (c : Cursor) (hopen : Opens c0 start c) :
    (importModules start c).Gives (LaysStmt tokens c0) := by
  refine Read.gives_bind (someItems_gives importedModule_gives (fun _ => false) c c.size_below) ?_
  intro names d h1 hnames
  exact gives_ok (hopen.stmt (s := .imported _ none names) (.nil (hnames.reaches id)) (Or.inr rfl))

theorem importNames_lays (c : Cursor) (hopen : Opens c0 start c) :
    (importNames start c).Gives (LaysStmt tokens c0) := by
  refine MayRead.gives_bind (origin_gives c) ?_
  intro module c1 h1 horigin
  refine Read.gives_bind (Read.gives_from (c1.expect_gives _) h1) ?_
  intro t c2 h2 himport
  refine Read.gives_bind (Read.gives_since (takenNames_gives c2) h2) ?_
  intro names d h3 hnames
  have hreach := (horigin.trans himport.2.reaches).trans hnames
  exact gives_ok (hopen.stmt (s := .imported _ (some module) names) (.nil hreach) (Or.inr rfl))

theorem deletedTarget_lays (tokens : List Token) {n : Nat} (c : Cursor) (h : c.size < n) :
    (deletedTarget c h).Gives (LaysExpr tokens c) := by
  refine Read.gives_bind (expr_lays tokens .comparison c) ?_
  intro e d h1 he
  exact gives_bind_check fun _ => gives_ok he

theorem deleteStmt_lays (c : Cursor) (hopen : Opens c0 start c) :
    (deleteStmt start c).Gives (LaysStmt tokens c0) := by
  refine Read.gives_bind (someItems_gives (deletedTarget_lays tokens) (fun k => !opensExpr k) c c.size_below) ?_
  intro targets d h1 htargets
  exact gives_ok (hopen.stmt (s := .deleted _ targets) htargets.laysExprs (Or.inr rfl))

theorem assertStmt_lays (c : Cursor) (hopen : Opens c0 start c) :
    (assertStmt start c).Gives (LaysStmt tokens c0) := by
  refine Read.gives_bind (expr_lays tokens .named c) ?_
  intro test c1 h1 htest
  refine Read.gives_bind (MayRead.gives_since (singleAfter_lays tokens _ .named c1) h1) ?_
  intro message d h2 hmessage
  exact gives_ok (hopen.stmt (s := .asserted _ test message) (htest.lays.append hmessage) (Or.inr rfl))

theorem wordStmt?_lays {t : Token} {r : MayRead Stmt c} (hpass : Passes c0 t c)
    (h : wordStmt? t c = some r) : r.Gives (LaysStmt tokens c0) := by
  have hno := (wordStmt?_gives h).1
  have hopen : Opens c0 t.span.start c := hpass.opens hno
  have hword (keyword : Keyword) : LaysStmt tokens c0 (.word t.span keyword) c :=
    hopen.stmt (s := .word _ keyword) (.nil (.refl c)) (Or.inr (hpass.lastEnd_eq hno))
  unfold wordStmt? at h
  dsimp only at h
  split at h
  case h_12 => exact absurd h nofun
  all_goals obtain rfl := Option.some.inj h
  · exact gives_ok (hword _)
  · exact gives_ok (hword _)
  · exact gives_ok (hword _)
  · exact returnStmt_lays c hopen
  · exact raiseStmt_lays c hopen
  · exact Read.gives_moved (outerStmt_lays _ c hopen)
  · exact Read.gives_moved (outerStmt_lays _ c hopen)
  · exact Read.gives_moved (deleteStmt_lays c hopen)
  · exact Read.gives_moved (assertStmt_lays c hopen)
  · exact Read.gives_moved (importModules_lays c hopen)
  · exact Read.gives_moved (importNames_lays c hopen)

/-! ## Lines -/

theorem LaysSuite.append {ss rest : List Stmt} (h : LaysSuite tokens c ss c1) (h' : LaysSuite tokens c1 rest d) :
    LaysSuite tokens c (ss ++ rest) d := by
  rw [LaysSuite, Node.ofSuite, List.flatMap_append]
  exact Lays.append h h'

theorem LaysSuite.reaching {ss : List Stmt} (h : LaysSuite tokens c ss c1) (h' : Reaches c1 d) :
    LaysSuite tokens c ss d := Lays.reaching h h'

theorem LaysSuite.after {ss : List Stmt} (h : Reaches c c1) (h' : LaysSuite tokens c1 ss d) :
    LaysSuite tokens c ss d := Lays.after h h'

theorem simpleStmt_lays (tokens : List Token) (c : Cursor) : (simpleStmt c).Gives (LaysStmt tokens c) := by
  unfold simpleStmt
  split
  · exact exprStmt_lays tokens c
  · rename_i t c1 h1 hnext
    split
    · rename_i r hr
      exact MayRead.gives_since (wordStmt?_lays (Cursor.next?_passes hnext) hr) h1
    · exact exprStmt_lays tokens c

theorem moreSimple_lays (tokens : List Token) (c : Cursor) : (moreSimple c).Gives (LaysSuite tokens c) := by
  rw [moreSimple]
  split
  · exact gives_ok (.nil (.refl c))
  · rename_i t c1 h1 hsemicolon
    have hpass := (Cursor.accept?_passes hsemicolon).2.reaches
    split
    · exact gives_ok (.nil hpass)
    · refine Read.gives_bind (Read.gives_since (simpleStmt_lays tokens c1) h1) ?_
      intro s c2 h2 hs
      refine Read.gives_bind (MayRead.gives_since (moreSimple_lays tokens c2) h2) ?_
      intro ss d h3 hss
      exact gives_ok (.after hpass (LaysSuite.append hs hss))
termination_by c.size

theorem simpleLine_lays (tokens : List Token) (c : Cursor) : (simpleLine c).Gives (LaysSuite tokens c) := by
  refine Read.gives_bind (simpleStmt_lays tokens c) ?_
  intro s c1 h1 hs
  refine Read.gives_bind (MayRead.gives_since (moreSimple_lays tokens c1) h1) ?_
  intro ss c2 h2 hss
  refine Read.gives_bind (Read.gives_since (c2.expect_gives _) h2) ?_
  intro t d h3 hnewline
  exact gives_ok ((LaysSuite.append hs hss).reaching hnewline.2.reaches)

/-! ## Suites -/

section Stmts

variable {n : Nat} {sub : StmtsBelow n}

/-- What is said of a reader of lines. -/
def LaysLines (tokens : List Token) (sub : StmtsBelow n) : Prop := ∀ c h, (sub c h).Gives (LaysSuite tokens c)

theorem suiteStmts_lays (hsub : LaysLines tokens sub) (c : Cursor) (h : c.size < n) :
    (suiteStmts sub c h).Gives (LaysSuite tokens c) := by
  rw [suiteStmts]
  split
  · exact gives_ok (.nil (.refl c))
  · exact gives_ok (.nil (.refl c))
  · exact gives_fail c _
  · refine Read.gives_bind (hsub c h) ?_
    intro ss c1 h1 hss
    refine Read.gives_bind (MayRead.gives_since (suiteStmts_lays hsub c1 _) h1) ?_
    intro rest d h2 hrest
    exact gives_ok (hss.append hrest)
termination_by c.size

theorem suite_lays (hsub : LaysLines tokens sub) (c : Cursor) (h : c.size < n) :
    (suite sub c h).Gives (LaysSuite tokens c) := by
  refine Read.gives_bind (c.expect_gives _) ?_
  intro t c1 h1 hcolon
  dsimp only
  split
  · refine Read.gives_imp (Read.gives_since (simpleLine_lays tokens c1) h1) ?_
    exact fun a ha => .after hcolon.2.reaches ha
  · rename_i t' c2 h2 hnewline
    have hline := (Cursor.accept?_since_passes hnewline).2.reaches
    refine Read.gives_bind (Read.gives_since (c2.demand_gives _ _) h2) ?_
    intro t'' c3 h3 hindent
    refine Read.gives_bind (MayRead.gives_since (suiteStmts_lays hsub c3 _) h3) ?_
    intro ss c4 h4 hss
    have hreach := (hcolon.2.reaches.trans hline).trans hindent.2.reaches
    exact gives_ok (.after hreach (hss.reaching (closeSuite_reaches c4).1))

theorem suiteAfter_lays (hsub : LaysLines tokens sub) (word : Keyword) (c : Cursor) (h : c.size < n) :
    (suiteAfter sub word c h).Gives (LaysSuite tokens c) := by
  unfold suiteAfter
  split
  · exact gives_ok (.nil (.refl c))
  · rename_i t c1 h1 hword
    refine MayRead.gives_imp (Read.gives_moved (Read.gives_since (suite_lays hsub c1 _) h1)) ?_
    exact fun a ha => .after (Cursor.accept?_passes hword).2.reaches ha

theorem branch_lays (hsub : LaysLines tokens sub) (start : Position) (c c0 : Cursor) (h : c.size < n)
    (hopen : Opens c0 start c) : (branch sub start c h).Gives (LaysStmt tokens c0) := by
  rw [branch]
  refine Read.gives_bind (expr_lays tokens .least c) ?_
  intro test c1 h1 htest
  refine Read.gives_bind (Read.gives_since (suite_lays hsub c1 _) h1) ?_
  intro body c2 h2 hbody
  dsimp only
  split
  · rename_i t c3 h3 helif
    have hpass := Cursor.accept?_since_passes helif
    have hopen' : Opens c2 t.span.start c3 := Passes.opens_of_kind hpass rfl
    refine Read.gives_bind (Read.gives_since (branch_lays hsub t.span.start c3 c2 _ hopen') h3) ?_
    intro further d h4 hfurther
    exact gives_ok (hopen.stmt (s := .branch _ test body [further]) (htest.lays.append (Lays.append hbody hfurther))
      (Or.inr rfl))
  · refine Read.gives_bind (MayRead.gives_since (suiteAfter_lays hsub _ c2 _) h2) ?_
    intro orelse d h3 horelse
    exact gives_ok (hopen.stmt (s := .branch _ test body orelse) (htest.lays.append (Lays.append hbody horelse))
      (Or.inr rfl))
termination_by c.size

theorem whileLoop_lays (hsub : LaysLines tokens sub) (c : Cursor) (h : c.size < n) (hopen : Opens c0 start c) :
    (whileLoop sub start c h).Gives (LaysStmt tokens c0) := by
  refine Read.gives_bind (expr_lays tokens .least c) ?_
  intro test c1 h1 htest
  refine Read.gives_bind (Read.gives_since (suite_lays hsub c1 _) h1) ?_
  intro body c2 h2 hbody
  refine Read.gives_bind (MayRead.gives_since (suiteAfter_lays hsub _ c2 _) h2) ?_
  intro orelse d h3 horelse
  have hparts := htest.lays.append (Lays.append hbody horelse)
  exact gives_ok (hopen.stmt (s := .whileLoop _ test body orelse) hparts (Or.inr rfl))

theorem forLoop_lays (hsub : LaysLines tokens sub) (isAsync : Bool) (c : Cursor) (h : c.size < n)
    (hopen : Opens c0 start c) : (forLoop sub start isAsync c h).Gives (LaysStmt tokens c0) := by
  refine Read.gives_bind (several_lays tokens .comparison c) ?_
  intro target c1 h1 htarget
  refine gives_bind_check fun _ => ?_
  refine Read.gives_bind (Read.gives_since (c1.expect_gives _) h1) ?_
  intro t c2 h2 hin
  refine Read.gives_bind (Read.gives_since (several_lays tokens .least c2) h2) ?_
  intro iter c3 h3 hiter
  refine Read.gives_bind (Read.gives_since (suite_lays hsub c3 _) h3) ?_
  intro body c4 h4 hbody
  refine Read.gives_bind (MayRead.gives_since (suiteAfter_lays hsub _ c4 _) h4) ?_
  intro orelse d h5 horelse
  have hparts := (htarget.lays.reaching hin.2.reaches).append (hiter.lays.append (Lays.append hbody horelse))
  exact gives_ok (hopen.stmt (s := .forLoop _ target iter body orelse isAsync) hparts (Or.inr rfl))

theorem caught_lays (tokens : List Token) (c : Cursor) :
    (caught c).Gives fun x d => LaysOption tokens c x.1 d := by
  unfold caught
  split
  · exact gives_ok (.nil (.refl c))
  · refine Read.gives_bind (several_lays tokens .named c) ?_
    intro type c1 h1 htype
    refine Read.gives_bind (MayRead.gives_since (givenName_gives c1) h1) ?_
    intro name d h2 hname
    exact gives_ok (htype.lays.reaching hname)

theorem handlers_lays (hsub : LaysLines tokens sub) (c : Cursor) (h : c.size < n) :
    (handlers sub c h).Gives fun hs d => Lays tokens c (hs.flatMap Node.ofHandler) d := by
  rw [handlers]
  split
  · exact gives_ok (.nil (.refl c))
  · rename_i t c1 h1 hexcept
    have hpass := (Cursor.accept?_passes hexcept).2.reaches
    have hmark := groupMark_reaches c1
    generalize groupMark c1 = mark at hmark ⊢
    obtain ⟨_, c2, h2⟩ := mark
    refine Read.gives_bind (MayRead.gives_since (caught_lays tokens c2) _) ?_
    intro type c3 h3 htype
    refine Read.gives_bind (Read.gives_since (suite_lays hsub c3 _) h3) ?_
    intro body c4 h4 hbody
    refine Read.gives_bind (MayRead.gives_since (handlers_lays hsub c4 _) h4) ?_
    intro hs d h5 hhs
    have hhandler : Lays tokens c2 (Node.ofHandler (.mk type.1 type.2 body)) c4 := Lays.append htype hbody
    exact gives_ok (.after (hpass.trans hmark) (hhandler.append hhs))
termination_by c.size

theorem tryBlock_lays (hsub : LaysLines tokens sub) (c : Cursor) (h : c.size < n) (hopen : Opens c0 start c) :
    (tryBlock sub start c h).Gives (LaysStmt tokens c0) := by
  refine Read.gives_bind (suite_lays hsub c h) ?_
  intro body c1 h1 hbody
  refine Read.gives_bind (MayRead.gives_since (handlers_lays hsub c1 _) h1) ?_
  intro hs c2 h2 hhs
  refine Read.gives_bind (MayRead.gives_since (suiteAfter_lays hsub _ c2 _) h2) ?_
  intro orelse c3 h3 horelse
  refine Read.gives_bind (MayRead.gives_since (suiteAfter_lays hsub _ c3 _) h3) ?_
  intro finalbody d h4 hfinal
  dsimp only
  split
  · exact gives_unexpected d
  · have hparts := ((Lays.append hbody hhs).append horelse).append hfinal
    exact gives_ok (hopen.stmt (s := .tryBlock _ body hs orelse finalbody) hparts (Or.inr rfl))

theorem withItem_lays (tokens : List Token) (c : Cursor) (h : c.size < n) :
    (withItem c h).Gives fun i d => Lays tokens c (Node.ofItem i) d := by
  refine Read.gives_bind (expr_lays tokens .named c) ?_
  intro context c1 h1 hcontext
  refine Read.gives_bind (MayRead.gives_since (singleAfter_lays tokens _ _ c1) h1) ?_
  intro target d h2 htarget
  exact gives_bind_check fun _ => gives_ok (hcontext.lays.append htarget)

theorem contexts_lays (tokens : List Token) (ends : TokenKind → Bool) (c : Cursor) (h : c.size < n) :
    (someItems withItem ends c h).Gives fun items d => Lays tokens c (items.flatMap Node.ofItem) d := by
  have hchain := someItems_gives (withItem_lays tokens) ends c h
  exact fun a ha => (hchain a ha).lays

theorem withItems_lays (tokens : List Token) (c : Cursor) :
    (withItems c).Gives fun items d => Lays tokens c (items.flatMap Node.ofItem) d := by
  unfold withItems
  split
  · refine Read.gives_bind (c.expect_gives _) ?_
    intro t c1 h1 hopen
    refine Read.gives_bind (Read.gives_since (contexts_lays tokens _ c1 _) h1) ?_
    intro items c2 h2 hitems
    refine Read.gives_bind (Read.gives_since (c2.expect_gives _) h2) ?_
    intro t' d h3 hclose
    exact gives_ok (.after hopen.2.reaches (hitems.reaching hclose.2.reaches))
  · exact contexts_lays tokens _ c _

theorem withBlock_lays (hsub : LaysLines tokens sub) (isAsync : Bool) (c : Cursor) (h : c.size < n)
    (hopen : Opens c0 start c) : (withBlock sub start isAsync c h).Gives (LaysStmt tokens c0) := by
  refine Read.gives_bind (withItems_lays tokens c) ?_
  intro items c1 h1 hitems
  refine Read.gives_bind (Read.gives_since (suite_lays hsub c1 _) h1) ?_
  intro body d h2 hbody
  exact gives_ok (hopen.stmt (s := .withBlock _ items body isAsync) (Lays.append hitems hbody) (Or.inr rfl))

/-! ## Definitions -/

/-- What is said of a reader of a function or class whose decorators have been read. -/
def LaysDefined (tokens : List Token) (c : Cursor) (decorators : List Expr) (s : Stmt) (d : Cursor) : Prop :=
  s.decorators = decorators ∧ Lays tokens c [.stmt s] d

theorem LaysDefined.stmt {decorators : List Expr} {s : Stmt} (hdecorators : Lays tokens c (decorators.map .expr) c1)
    (h : LaysDefined tokens c1 decorators s d) : LaysStmt tokens c s d := by
  have hparts := hdecorators.append h.2
  rw [← h.1] at hparts
  rw [LaysStmt, LaysSuite, Node.ofSuite, List.flatMap_singleton]
  exact hparts

theorem functionDef_lays (hsub : LaysLines tokens sub) (decorators : List Expr) (isAsync : Bool) (c : Cursor)
    (h : c.size < n) (hopen : Opens c0 start c) :
    (functionDef sub start decorators isAsync c h).Gives (LaysDefined tokens c0 decorators) := by
  refine Read.gives_bind c.expectName_gives ?_
  intro name c1 h1 hname
  refine Read.gives_bind (Read.gives_since (c1.expect_gives _) h1) ?_
  intro t c2 h2 hparen
  refine Read.gives_bind (MayRead.gives_since (parameters_lays (laysExprs_exprBelow tokens _) _ true c2 _) h2) ?_
  intro ps c3 h3 hps
  refine Read.gives_bind (Read.gives_since (c3.expect_gives _) h3) ?_
  intro t' c4 h4 hclose
  refine Read.gives_bind (MayRead.gives_since (singleAfter_lays tokens _ _ c4) h4) ?_
  intro returns c5 h5 hreturns
  refine Read.gives_bind (Read.gives_since (suite_lays hsub c5 _) h5) ?_
  intro body d h6 hbody
  have hparts := (Lays.append (hps.1.reaching hclose.2.reaches) hreturns).append hbody
  have hopened := hopen.reaching (hname.trans hparen.2.reaches)
  exact gives_ok ⟨rfl, hopened.stmt (s := .functionDef _ name decorators ps returns body isAsync) hparts
    (Or.inr rfl)⟩

theorem bases_lays (tokens : List Token) (c : Cursor) :
    (bases c).Gives fun es d => Lays tokens c (es.map .expr) d := by
  unfold bases
  split
  · exact Read.gives_moved (arguments_lays (laysExprs_exprBelow tokens _) c _)
  · exact gives_ok (.nil (.refl c))

theorem classDef_lays (hsub : LaysLines tokens sub) (decorators : List Expr) (c : Cursor) (h : c.size < n)
    (hopen : Opens c0 start c) :
    (classDef sub start decorators c h).Gives (LaysDefined tokens c0 decorators) := by
  refine Read.gives_bind c.expectName_gives ?_
  intro name c1 h1 hname
  refine Read.gives_bind (MayRead.gives_since (bases_lays tokens c1) h1) ?_
  intro parents c2 h2 hparents
  refine Read.gives_bind (Read.gives_since (suite_lays hsub c2 _) h2) ?_
  intro body d h3 hbody
  have hopened := hopen.reaching hname
  exact gives_ok ⟨rfl, hopened.stmt (s := .classDef _ name decorators parents body)
    (Lays.append hparents hbody) (Or.inr rfl)⟩

theorem decoratorLines_lays (tokens : List Token) (c : Cursor) :
    (decoratorLines c).Gives fun es d => Lays tokens c (es.map .expr) d := by
  rw [decoratorLines]
  split
  · exact gives_ok (.nil (.refl c))
  · rename_i t c1 h1 hat
    refine Read.gives_bind (Read.gives_since (expr_lays tokens .named c1) h1) ?_
    intro e c2 h2 he
    refine Read.gives_bind (Read.gives_since (c2.expect_gives _) h2) ?_
    intro t' c3 h3 hnewline
    refine Read.gives_bind (MayRead.gives_since (decoratorLines_lays tokens c3) h3) ?_
    intro es d h4 hes
    have hfirst := he.lays.reaching hnewline.2.reaches
    exact gives_ok (.after (Cursor.accept?_passes hat).2.reaches (hfirst.append hes))
termination_by c.size

theorem Passes.opens_word {t : Token} {word : Keyword} (h : Passes c t d) (hkind : t.kind = .word word) :
    Opens c t.span.start d := Passes.opens_of_kind ⟨hkind, h⟩ rfl

theorem decorated_lays (hsub : LaysLines tokens sub) (decorators : List Expr) (c : Cursor) (h : c.size ≤ n) :
    (decorated sub decorators c h).Gives (LaysDefined tokens c decorators) := by
  unfold decorated
  split
  · exact gives_unexpected c
  · rename_i t c1 h1 hnext
    have hpass : Passes c t c1 := Cursor.next?_passes hnext
    dsimp only
    split
    · rename_i hdef
      exact Read.gives_since (functionDef_lays hsub _ _ c1 _ (hpass.opens_word hdef)) h1
    · rename_i hclass
      exact Read.gives_since (classDef_lays hsub _ c1 _ (hpass.opens_word hclass)) h1
    · rename_i hasync
      refine Read.gives_bind (Read.gives_since (c1.expect_gives _) h1) ?_
      intro t' c2 h2 hdef
      have hopen := (hpass.opens_word hasync).reaching hdef.2.reaches
      exact Read.gives_since (functionDef_lays hsub _ _ c2 _ hopen) h2
    · exact gives_unexpected c

/-- A function or class without decorators. -/
theorem laysStmt_of_defined {s : Stmt} (h : LaysDefined tokens c [] s d) : LaysStmt tokens c s d :=
  LaysDefined.stmt (.nil (.refl c)) h

theorem asyncStmt_lays (hsub : LaysLines tokens sub) (c : Cursor) (h : c.size < n) (hopen : Opens c0 start c) :
    (asyncStmt sub start c h).Gives (LaysStmt tokens c0) := by
  unfold asyncStmt
  split
  · exact gives_unexpected c
  · rename_i t c1 h1 hnext
    have hopen' := hopen.reaching (Cursor.next?_passes hnext).reaches
    split
    · refine Read.gives_imp (Read.gives_since (functionDef_lays hsub _ _ c1 _ hopen') h1) ?_
      exact fun a ha => laysStmt_of_defined ha
    · exact Read.gives_since (forLoop_lays hsub _ c1 _ hopen') h1
    · exact Read.gives_since (withBlock_lays hsub _ c1 _ hopen') h1
    · exact gives_unexpected c

theorem compound?_lays (hsub : LaysLines tokens sub) {t : Token} (c : Cursor) (h : c.size < n) {read : Read Stmt c}
    (hpass : Passes c0 t c) (hread : compound? sub t c h = some read) : read.Gives (LaysStmt tokens c0) := by
  unfold compound? at hread
  dsimp only at hread
  split at hread
  case h_9 => exact absurd hread nofun
  all_goals
    rename_i hword
    obtain rfl := Option.some.inj hread
    have hopen := hpass.opens_word hword
  · exact branch_lays hsub _ c c0 h hopen
  · exact whileLoop_lays hsub c h hopen
  · exact forLoop_lays hsub _ c h hopen
  · exact tryBlock_lays hsub c h hopen
  · exact withBlock_lays hsub _ c h hopen
  · exact Read.gives_imp (functionDef_lays hsub _ _ c h hopen) fun a ha => laysStmt_of_defined ha
  · exact Read.gives_imp (classDef_lays hsub _ c h hopen) fun a ha => laysStmt_of_defined ha
  · exact asyncStmt_lays hsub c h hopen

theorem decoratedStmt_lays (hsub : LaysLines tokens sub) (c : Cursor) (h : c.size ≤ n) :
    (decoratedStmt sub c h).Gives (LaysStmt tokens c) := by
  refine MayRead.gives_bind (decoratorLines_lays tokens c) ?_
  intro decorators c1 h1 hdecorators
  refine Read.gives_imp (Read.gives_from (decorated_lays hsub decorators c1 _) h1) ?_
  exact fun a ha => LaysDefined.stmt hdecorators ha

theorem stmtsWith_lays (hsub : LaysLines tokens sub) (c : Cursor) (h : c.size ≤ n) :
    (stmtsWith sub c h).Gives (LaysSuite tokens c) := by
  unfold stmtsWith
  split
  · exact simpleLine_lays tokens c
  · rename_i t c1 h1 hnext
    dsimp only
    split
    · refine Read.gives_bind (decoratedStmt_lays hsub c h) ?_
      exact fun s d _ hs => gives_ok hs
    · split
      · rename_i read hread
        have hgives := compound?_lays hsub c1 _ (Cursor.next?_passes hnext) hread
        refine Read.gives_bind (Read.gives_since hgives h1) ?_
        exact fun s d _ hs => gives_ok hs
      · exact simpleLine_lays tokens c

end Stmts

theorem stmts_lays (tokens : List Token) (c : Cursor) : (stmts c).Gives (LaysSuite tokens c) := by
  have hsub : LaysLines (n := c.size) tokens fun c' _ => stmts c' := fun c' h => stmts_lays tokens c'
  rw [stmts]
  exact stmtsWith_lays hsub c c.size_upTo
termination_by c.size

/-! ## Modules -/

theorem moduleStmts_lays (tokens : List Token) (c : Cursor) : (moduleStmts c).Gives (LaysSuite tokens c) := by
  rw [moduleStmts]
  split
  · exact gives_ok (.nil (.refl c))
  · exact gives_fail c _
  · split
    · exact gives_ok (.nil (.refl c))
    · rename_i t c1 h1 hnext
      have hpass := (Cursor.next?_passes hnext).reaches
      refine MayRead.gives_imp (Read.gives_moved (MayRead.gives_since (moduleStmts_lays tokens c1) h1)) ?_
      exact fun a ha => .after hpass ha
  · refine Read.gives_bind (stmts_lays tokens c) ?_
    intro ss c1 h1 hss
    refine Read.gives_bind (MayRead.gives_since (moduleStmts_lays tokens c1) h1) ?_
    intro rest d h2 hrest
    exact gives_ok (hss.append hrest)
termination_by c.size

theorem ofTokens_lays {tokens : List Token} {m : Module} (h : Module.ofTokens tokens = .ok m) :
    ∃ d, Lays tokens (Cursor.ofTokens tokens) m.node.parts d := by
  obtain ⟨⟨body, d, hle⟩, hread, h⟩ := exists_of_bind_ok h
  obtain rfl := Except.ok.inj h
  exact ⟨d, moduleStmts_lays tokens _ _ hread⟩

theorem tidy_body {source : String} {tokens : List Token} {m : Module} (htokens : tokenize source = .ok tokens)
    (hm : Module.ofTokens tokens = .ok m) : ∀ s ∈ m.body, Node.Tidy tokens (.stmt s) := by
  obtain ⟨d, hlays⟩ := ofTokens_lays hm
  have hamong : (Cursor.ofTokens tokens).Among tokens :=
    ⟨Cursor.ofTokens_sound (tokenize_placed htokens), fun t ht => (Cursor.ofTokens_prefix tokens).subset ht⟩
  exact fun s hs => hlays.tidy hamong _ (Node.mem_ofSuite.mpr hs)

end TypeWatch.Reading

namespace TypeWatch

open Reading

/-- The nodes of a source text begin and end with tokens. What is below a node stands in it, the children of
an expression stand apart from each other, and the parts of a node, as the statements of a suite, one after the
other. Decorators stand before what they belong to. -/
theorem spans_nest {source : String} {tokens : List Token} {m : Module} (htokens : tokenize source = .ok tokens)
    (hm : Module.ofTokens tokens = .ok m) :
    (∀ n, m.node.Below n →
      (∃ t ∈ tokens, t.span.start = n.span.start) ∧ (∃ t ∈ tokens, t.span.stop = n.span.stop) ∧
      n.span.start.offset ≤ n.span.stop.offset ∧
      (∀ k, n.Below k → n.span.start ≤ k.span.start ∧ k.span.stop ≤ n.span.stop) ∧
      (n.parts.Pairwise fun a b => a.span.stop ≤ b.span.start) ∧
      (∀ e, n = .expr e → e.children.Pairwise fun a b => Node.Apart a.span b.span) ∧
      ∀ s, n = .stmt s → (∀ ss ∈ Node.suites s, ss.Pairwise fun a b => a.span.stop ≤ b.span.start) ∧
        ∀ e ∈ s.decorators, e.span.stop ≤ s.span.start) ∧
    m.body.Pairwise fun a b => a.span.stop ≤ b.span.start := by
  obtain ⟨d, hlays⟩ := ofTokens_lays hm
  have hamong : (Cursor.ofTokens tokens).Among tokens :=
    ⟨Cursor.ofTokens_sound (tokenize_placed htokens), fun t ht => (Cursor.ofTokens_prefix tokens).subset ht⟩
  have htidy {n : Node} (hn : m.node.Below n) : n.Tidy tokens := by
    cases hn with
    | part hn => exact hlays.tidy hamong n hn
    | within hk hn => exact ((hlays.tidy hamong _ hk).of_below hn).1
  have hordered {n : Node} (hn : n = m.node ∨ m.node.Below n) :
      n.parts.Pairwise fun a b => a.span.stop ≤ b.span.start := by
    rcases hn with rfl | hn
    · exact (hlays.strung hamong).ordered
    · exact (htidy hn).strung.ordered
  have hsuite {s : Stmt} (hs : Node.stmt s = m.node ∨ m.node.Below (.stmt s)) {ss : List Stmt}
      (hss : ss ∈ Node.suites s) := Node.pairwise_ofSuite ((hordered hs).sublist (Node.sublist_of_suite hss))
  refine ⟨fun n hn => ?_, (hsuite (Or.inl rfl) List.mem_cons_self).1⟩
  have hmarked := (htidy hn).marked
  refine ⟨hmarked.start, hmarked.stop, Nat.le_of_lt hmarked.lt.1, fun k hk => ((htidy hn).of_below hk).2,
    hordered (Or.inr hn), ?_, ?_⟩
  · rintro e rfl
    exact (htidy hn).children_apart
  · rintro s rfl
    refine ⟨fun ss hss => (hsuite (Or.inr hn) hss).1, fun e he => ?_⟩
    obtain ⟨around, haround, hpart⟩ := hn.exists_around
    obtain ⟨st, rfl, ss, hss, hs⟩ := Node.exists_suite hpart
    exact (hsuite haround hss).2 s hs e he

/-- A decorated function in a class, with groups, a lambda and a conditional in it. -/
def spannedSource : String := "class A:\n    @(d)\n    def f(a=1, /, *b): return (lambda x=2: (x) if a else b,)[0:1]\n"

theorem spannedSource_nests : ∃ tokens m, tokenize spannedSource = .ok tokens ∧ Module.ofTokens tokens = .ok m ∧
    (∀ n, m.node.Below n →
      (∃ t ∈ tokens, t.span.start = n.span.start) ∧ (∃ t ∈ tokens, t.span.stop = n.span.stop) ∧
      n.span.start.offset ≤ n.span.stop.offset ∧
      (∀ k, n.Below k → n.span.start ≤ k.span.start ∧ k.span.stop ≤ n.span.stop) ∧
      (n.parts.Pairwise fun a b => a.span.stop ≤ b.span.start) ∧
      (∀ e, n = .expr e → e.children.Pairwise fun a b => Node.Apart a.span b.span) ∧
      ∀ s, n = .stmt s → (∀ ss ∈ Node.suites s, ss.Pairwise fun a b => a.span.stop ≤ b.span.start) ∧
        ∀ e ∈ s.decorators, e.span.stop ≤ s.span.start) ∧
    m.body.Pairwise fun a b => a.span.stop ≤ b.span.start := by
  have hok : ((tokenize spannedSource).bind Module.ofTokens).isOk = true := by decide +kernel
  cases htokens : tokenize spannedSource with
  | error e => rw [htokens] at hok; exact absurd hok nofun
  | ok tokens =>
    rw [htokens] at hok
    cases hm : Module.ofTokens tokens with
    | error e => rw [Except.bind, hm] at hok; exact absurd hok nofun
    | ok m => exact ⟨tokens, m, rfl, hm, spans_nest htokens hm⟩

end TypeWatch
