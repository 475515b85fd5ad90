import TypeWatch.Proofs.Reading.Blame
import TypeWatch.Proofs.Reading.NestedStmt

/-! # Where readers of statements fail

A statement fails at the beginning of a token as well. The target of an assignment that cannot be one is blamed at
its own beginning or at that of a part of it, which is tidy as the whole target is (`blames_target`). -/
namespace TypeWatch
set_option autoImplicit false

/-! ## Targets -/

namespace Expr

mutual

/-- What cannot be assigned to is the expression or below it. -/
theorem has_nonTarget? {part : Expr} : ∀ e : Expr, e.nonTarget? = some part → Node.Has (.expr e) (.expr part)
  | tuple _ elements, h => by
    obtain ⟨e, he, hhas⟩ := has_nonTargetIn? elements h
    exact .within (List.mem_map_of_mem he) hhas
  | list _ elements, h => by
    obtain ⟨e, he, hhas⟩ := has_nonTargetIn? elements h
    exact .within (List.mem_map_of_mem he) hhas
  | starred _ value, h => .within (List.mem_singleton.mpr rfl) (has_nonTarget? value h)
  | name _ _, h | member _ _ _, h | subscript _ _ _, h => by cases h
  | constant _ _, h | slice _ _ _ _, h | set _ _, h | dict _ _, h | call _ _ _, h | keyword _ _ _, h
  | binary _ _ _ _, h | unary _ _ _, h | lambda _ _ _, h | conditional _ _ _ _, h
  | comprehension _ _ _ _ _, h | named _ _ _, h | await _ _, h | yield _ _ _, h => by
    cases h
    exact .self

theorem has_nonTargetIn? {part : Expr} : ∀ es : List Expr, nonTargetIn? es = some part →
    ∃ e ∈ es, Node.Has (.expr e) (.expr part)
  | [], h => by cases h
  | e :: es, h => by
    rw [nonTargetIn?] at h
    rcases Option.or_eq_some_iff.mp (by rwa [Option.or_eq_orElse]) with he | ⟨-, hes⟩
    · exact ⟨e, List.mem_cons_self, has_nonTarget? e he⟩
    · obtain ⟨e', he', hhas⟩ := has_nonTargetIn? es hes
      exact ⟨e', List.mem_cons_of_mem e he', hhas⟩

end

end Expr

namespace Reading

variable {tokens : List Token} {c : Cursor}

theorem blames_target {e : Expr} (he : Node.Tidy tokens (.expr e)) : Blames tokens (checkTarget e) fun _ => True := by
  unfold checkTarget
  split
  · exact blames_ok trivial
  · rename_i part hpart
    exact (he.of_has (Expr.has_nonTarget? e hpart)).1.marked.start

theorem blames_singleTarget {e : Expr} (he : Node.Tidy tokens (.expr e)) :
    Blames tokens (checkSingleTarget e) fun _ => True := by
  unfold checkSingleTarget
  split
  · exact blames_ok trivial
  · exact he.marked.start

theorem blames_targets {es : List Expr} (h : ∀ e ∈ es, Node.Tidy tokens (.expr e)) :
    Blames tokens (es.forM checkTarget) fun _ => True := by
  induction es with
  | nil => exact blames_ok trivial
  | cons e es ih =>
    obtain ⟨he, hes⟩ := List.forall_mem_cons.mp h
    exact blames_bind_check (blames_target he) fun _ => ih hes

theorem LaysExpr.tidy {d : Cursor} {e : Expr} (h : LaysExpr tokens c e d) (hc : c.Within tokens) :
    Node.Tidy tokens (.expr e) := h.lays.tidy hc.among _ (List.mem_singleton.mpr rfl)

/-! ## Expressions and imports -/

theorem several_stays (level : Power) (c : Cursor) (hc : c.Within tokens) : (several level c).Stays tokens :=
  exprList_stays (staysExprs_exprBelow tokens _) level c c.size_below hc

theorem singleAfter_stays (mark : TokenKind) (level : Power) (c : Cursor) (hc : c.Within tokens) :
    (singleAfter mark level c).Stays tokens :=
  exprAfter_stays (staysExprs_exprBelow tokens _) mark level c c.size_below hc

theorem severalAfter_stays (mark : TokenKind) (c : Cursor) (hc : c.Within tokens) :
    (severalAfter mark c).Stays tokens := by
  unfold severalAfter
  split
  · exact blames_ok hc
  · rename_i t c1 h1 hmark
    apply ((several_stays .least c1 (Cursor.accept?_within hmark hc)).since h1).bind
    intro e d h2 hd
    exact blames_ok hd

theorem dottedRest_stays (text : String) (c : Cursor) (hc : c.Within tokens) : (dottedRest text c).Stays tokens := by
  rw [dottedRest]
  split
  · exact blames_ok hc
  · rename_i t c1 h1 hdot
    apply ((Cursor.accept?_within hdot hc).expectName.since h1).bind
    intro name c2 h2 hc2
    apply ((dottedRest_stays _ c2 hc2).since h2).bind
    intro whole d h3 hd
    exact blames_ok hd
termination_by c.size

theorem dottedName_stays (c : Cursor) (hc : c.Within tokens) : (dottedName c).Stays tokens := by
  apply hc.expectName.bind
  intro name c1 h1 hc1
  exact (dottedRest_stays _ c1 hc1).since h1

theorem givenName_stays (c : Cursor) (hc : c.Within tokens) : (givenName c).Stays tokens := by
  unfold givenName
  split
  · exact blames_ok hc
  · rename_i t c1 h1 has
    apply ((Cursor.accept?_within has hc).expectName.since h1).bind
    intro name d h2 hd
    exact blames_ok hd

theorem importedModule_stays {n : Nat} (c : Cursor) (h : c.size < n) (hc : c.Within tokens) :
    (importedModule c h).Stays tokens := by
  apply (dottedName_stays c hc).bind
  intro name c1 h1 hc1
  apply ((givenName_stays c1 hc1).since h1).bind
  intro given d h2 hd
  exact blames_ok hd

theorem importedName_stays {n : Nat} (c : Cursor) (h : c.size < n) (hc : c.Within tokens) :
    (importedName c h).Stays tokens := by
  apply hc.expectName.bind
  intro name c1 h1 hc1
  apply ((givenName_stays c1 hc1).since h1).bind
  intro given d h2 hd
  exact blames_ok hd

theorem origin_stays (c : Cursor) (hc : c.Within tokens) : (origin c).Stays tokens := by
  have hc1 := (leadingDots_reaches "" c).within hc
  unfold origin
  dsimp only
  split
  · refine ((dottedName_stays _ hc1).from (leadingDots "" c).le).bind ?_
    intro name d h2 hd
    exact blames_ok hd
  · split
    · exact blames_unexpected hc1
    · exact blames_ok hc1

theorem takenNames_stays (c : Cursor) (hc : c.Within tokens) : (takenNames c).Stays tokens := by
  unfold takenNames
  split
  · rename_i t c1 h1 hstar
    exact blames_ok (Cursor.accept?_within hstar hc)
  · split
    · exact someItems_stays importedName_stays _ c c.size_below hc
    · rename_i t c1 h1 hopen
      apply ((someItems_stays importedName_stays _ c1 c1.size_below (Cursor.accept?_within hopen hc)).since h1).bind
      intro names c2 h2 hc2
      apply ((hc2.expect _).since h2).bind
      intro t' d h3 hd
      exact blames_ok hd

theorem importModules_stays (start : Position) (c : Cursor) (hc : c.Within tokens) :
    (importModules start c).Stays tokens := by
  apply (someItems_stays importedModule_stays _ c c.size_below hc).bind
  intro names d h1 hd
  exact blames_ok hd

theorem importNames_stays (start : Position) (c : Cursor) (hc : c.Within tokens) :
    (importNames start c).Stays tokens := by
  apply (origin_stays c hc).bind
  intro module c1 h1 hc1
  apply ((hc1.expect _).from h1).bind
  intro t c2 h2 hc2
  apply ((takenNames_stays c2 hc2).since h2).bind
  intro names d h3 hd
  exact blames_ok hd

/-! ## Statements without suites -/

/-- What follows each sign of assignment is tidy, as it may be a target. -/
theorem assigned_tidy (c : Cursor) (hc : c.Within tokens) :
    (assigned c).Gives fun es _ => ∀ e ∈ es, Node.Tidy tokens (.expr e) :=
  MayRead.gives_imp (assigned_lays tokens c) fun _ ha _ he => ha.tidy hc.among _ (List.mem_map_of_mem he)

theorem assigned_stays (c : Cursor) (hc : c.Within tokens) : (assigned c).Stays tokens := by
  rw [assigned]
  split
  · exact blames_ok hc
  · rename_i t c1 h1 hassign
    apply ((several_stays .least c1 (Cursor.accept?_within hassign hc)).since h1).bind
    intro e c2 h2 hc2
    apply ((assigned_stays c2 hc2).since h2).bind
    intro es d h3 hd
    exact blames_ok hd
termination_by c.size

theorem annotatedTarget_stays (start : Position) {target : Expr} (htarget : Node.Tidy tokens (.expr target))
    (c : Cursor) (hc : c.Within tokens) : (annotatedTarget start target c).Stays tokens := by
  refine blames_bind_check (blames_singleTarget htarget) fun _ => ?_
  apply (expr_stays .named c hc).bind
  intro hint c1 h1 hc1
  apply ((severalAfter_stays _ c1 hc1).since h1).bind
  intro value d h2 hd
  exact blames_ok hd

theorem augmentedTarget_stays (start : Position) (target : Expr) (op : BinaryOp) (c : Cursor) (hc : c.Within tokens) :
    (augmentedTarget start target op c).Stays tokens := by
  apply (several_stays .least c hc).bind
  intro value d h1 hd
  exact blames_ok hd

theorem stmtAfter_stays (start : Position) {first : Expr} (hfirst : Node.Tidy tokens (.expr first)) (c : Cursor)
    (hc : c.Within tokens) : (stmtAfter start first c).Stays tokens := by
  unfold stmtAfter
  split
  · exact blames_ok hc
  · rename_i t c1 h1 hnext
    have hc1 := Cursor.next?_within hnext hc
    split
    · exact ((annotatedTarget_stays start hfirst c1 hc1).since h1).moved
    · refine (assigned_stays c hc).bind_of (assigned_tidy c hc) ?_
      intro others c2 h2 hothers hc2
      dsimp only
      split
      · exact blames_unexpected hc2
      · rename_i value targets hreverse
        have htargets : ∀ e ∈ first :: targets.reverse, Node.Tidy tokens (.expr e) := by
          refine List.forall_mem_cons.mpr ⟨hfirst, fun e he => hothers e ?_⟩
          rw [List.reverse_eq_cons_iff.mp hreverse]
          exact List.mem_append_left _ he
        exact blames_bind_check (blames_targets htargets) fun _ => blames_ok hc2
    · split
      · rename_i op _
        refine blames_bind_check (blames_singleTarget hfirst) fun _ => ?_
        exact ((augmentedTarget_stays start first op c1 hc1).since h1).moved
      · exact blames_ok hc

theorem exprStmt_stays (c : Cursor) (hc : c.Within tokens) : (exprStmt c).Stays tokens := by
  refine (several_stays .least c hc).bind_of (several_lays tokens .least c) ?_
  intro first c1 h1 hfirst hc1
  exact (stmtAfter_stays c.position (hfirst.tidy hc) c1 hc1).since h1

theorem returnStmt_stays (start : Position) (c : Cursor) (hc : c.Within tokens) : (returnStmt start c).Stays tokens := by
  unfold returnStmt
  split
  · refine (several_stays .least c hc).bind ?_
    intro e d h1 hd
    exact blames_ok hd
  · exact blames_ok hc

theorem raiseStmt_stays (start : Position) (c : Cursor) (hc : c.Within tokens) : (raiseStmt start c).Stays tokens := by
  unfold raiseStmt
  split
  · refine (expr_stays .named c hc).bind ?_
    intro e c1 h1 hc1
    apply ((singleAfter_stays _ .named c1 hc1).since h1).bind
    intro cause d h2 hd
    exact blames_ok hd
  · exact blames_ok hc

theorem outerStmt_stays (start : Position) (isNonlocal : Bool) (c : Cursor) (hc : c.Within tokens) :
    (outerStmt start isNonlocal c).Stays tokens := by
  apply (someItems_stays (fun c' _ hc' => hc'.expectName) _ c c.size_below hc).bind
  intro names d h1 hd
  exact blames_ok hd

theorem deletedTarget_stays {n : Nat} (c : Cursor) (h : c.size < n) (hc : c.Within tokens) :
    (deletedTarget c h).Stays tokens := by
  refine (expr_stays .comparison c hc).bind_of (expr_lays tokens .comparison c) ?_
  intro e d h1 he hd
  exact blames_bind_check (blames_target (he.tidy hc)) fun _ => blames_ok hd

theorem deleteStmt_stays (start : Position) (c : Cursor) (hc : c.Within tokens) : (deleteStmt start c).Stays tokens := by
  apply (someItems_stays deletedTarget_stays _ c c.size_below hc).bind
  intro targets d h1 hd
  exact blames_ok hd

theorem assertStmt_stays (start : Position) (c : Cursor) (hc : c.Within tokens) : (assertStmt start c).Stays tokens := by
  apply (expr_stays .named c hc).bind
  intro test c1 h1 hc1
  apply ((singleAfter_stays _ .named c1 hc1).since h1).bind
  intro message d h2 hd
  exact blames_ok hd

theorem wordStmt?_stays {t : Token} {r : MayRead Stmt c} (h : wordStmt? t c = some r) (hc : c.Within tokens) :
    r.Stays tokens := by
  unfold wordStmt? at h
  dsimp only at h
  split at h
  case h_1 | h_2 | h_3 =>
    obtain rfl := Option.some.inj h
    exact blames_ok hc
  case h_4 =>
    obtain rfl := Option.some.inj h
    exact returnStmt_stays _ c hc
  case h_5 =>
    obtain rfl := Option.some.inj h
    exact raiseStmt_stays _ c hc
  case h_6 | h_7 =>
    obtain rfl := Option.some.inj h
    exact (outerStmt_stays _ _ c hc).moved
  case h_8 =>
    obtain rfl := Option.some.inj h
    exact (deleteStmt_stays _ c hc).moved
  case h_9 =>
    obtain rfl := Option.some.inj h
    exact (assertStmt_stays _ c hc).moved
  case h_10 =>
    obtain rfl := Option.some.inj h
    exact (importModules_stays _ c hc).moved
  case h_11 =>
    obtain rfl := Option.some.inj h
    exact (importNames_stays _ c hc).moved
  case h_12 => cases h

theorem simpleStmt_stays (c : Cursor) (hc : c.Within tokens) : (simpleStmt c).Stays tokens := by
  unfold simpleStmt
  split
  · exact exprStmt_stays c hc
  · rename_i t c1 h1 hnext
    split
    · rename_i read hread
      exact (wordStmt?_stays hread (Cursor.next?_within hnext hc)).since h1
    · exact exprStmt_stays c hc

theorem moreSimple_stays (c : Cursor) (hc : c.Within tokens) : (moreSimple c).Stays tokens := by
  rw [moreSimple]
  split
  · exact blames_ok hc
  · rename_i t c1 h1 hsemicolon
    have hc1 := Cursor.accept?_within hsemicolon hc
    split
    · exact blames_ok hc1
    · refine ((simpleStmt_stays c1 hc1).since h1).bind ?_
      intro s c2 h2 hc2
      apply ((moreSimple_stays c2 hc2).since h2).bind
      intro ss d h3 hd
      exact blames_ok hd
termination_by c.size

theorem simpleLine_stays (c : Cursor) (hc : c.Within tokens) : (simpleLine c).Stays tokens := by
  apply (simpleStmt_stays c hc).bind
  intro s c1 h1 hc1
  apply ((moreSimple_stays c1 hc1).since h1).bind
  intro ss c2 h2 hc2
  apply ((hc2.expect _).since h2).bind
  intro t d h3 hd
  exact blames_ok hd

/-! ## Suites -/

section Suites

variable {n : Nat} {sub : StmtsBelow n}

/-- What is said of a reader of lines. -/
def StaysLines (tokens : List Token) {n : Nat} (sub : StmtsBelow n) : Prop :=
  ∀ c h, c.Within tokens → (sub c h).Stays tokens

theorem suiteStmts_stays (hsub : StaysLines tokens sub) (c : Cursor) (h : c.size < n) (hc : c.Within tokens) :
    (suiteStmts sub c h).Stays tokens := by
  rw [suiteStmts]
  split
  · exact blames_ok hc
  · exact blames_ok hc
  · exact blames_fail hc _
  · refine (hsub c h hc).bind ?_
    intro ss c1 h1 hc1
    apply ((suiteStmts_stays hsub c1 _ hc1).since h1).bind
    intro rest d h2 hd
    exact blames_ok hd
termination_by c.size

theorem suite_stays (hsub : StaysLines tokens sub) (c : Cursor) (h : c.size < n) (hc : c.Within tokens) :
    (suite sub c h).Stays tokens := by
  apply (hc.expect _).bind
  intro t c1 h1 hc1
  dsimp only
  split
  · exact (simpleLine_stays c1 hc1).since h1
  · rename_i t' c2 h2 hnewline
    have hc2 := Cursor.accept?_since_within hnewline hc1
    apply ((hc2.demand _ _).since h2).bind
    intro t'' c3 h3 hc3
    apply ((suiteStmts_stays hsub c3 _ hc3).since h3).bind
    intro ss c4 h4 hc4
    exact blames_ok ((closeSuite_reaches c4).1.within hc4)

theorem suiteAfter_stays (hsub : StaysLines tokens sub) (word : Keyword) (c : Cursor) (h : c.size < n)
    (hc : c.Within tokens) : (suiteAfter sub word c h).Stays tokens := by
  unfold suiteAfter
  split
  · exact blames_ok hc
  · rename_i t c1 h1 hword
    exact ((suite_stays hsub c1 _ (Cursor.accept?_within hword hc)).since h1).moved

theorem branch_stays (hsub : StaysLines tokens sub) (start : Position) (c : Cursor) (h : c.size < n)
    (hc : c.Within tokens) : (branch sub start c h).Stays tokens := by
  rw [branch]
  apply (expr_stays .least c hc).bind
  intro test c1 h1 hc1
  apply ((suite_stays hsub c1 _ hc1).since h1).bind
  intro body c2 h2 hc2
  dsimp only
  split
  · rename_i t c3 h3 helif
    apply ((branch_stays hsub _ c3 _ (Cursor.accept?_since_within helif hc2)).since h3).bind
    intro further d h4 hd
    exact blames_ok hd
  · refine ((suiteAfter_stays hsub _ c2 _ hc2).since h2).bind ?_
    intro orelse d h3 hd
    exact blames_ok hd
termination_by c.size

theorem whileLoop_stays (hsub : StaysLines tokens sub) (start : Position) (c : Cursor) (h : c.size < n)
    (hc : c.Within tokens) : (whileLoop sub start c h).Stays tokens := by
  apply (expr_stays .least c hc).bind
  intro test c1 h1 hc1
  apply ((suite_stays hsub c1 _ hc1).since h1).bind
  intro body c2 h2 hc2
  apply ((suiteAfter_stays hsub _ c2 _ hc2).since h2).bind
  intro orelse d h3 hd
  exact blames_ok hd

theorem forLoop_stays (hsub : StaysLines tokens sub) (start : Position) (isAsync : Bool) (c : Cursor) (h : c.size < n)
    (hc : c.Within tokens) : (forLoop sub start isAsync c h).Stays tokens := by
  refine (several_stays .comparison c hc).bind_of (several_lays tokens .comparison c) ?_
  intro target c1 h1 htarget hc1
  refine blames_bind_check (blames_target (htarget.tidy hc)) fun _ => ?_
  apply ((hc1.expect _).since h1).bind
  intro t c2 h2 hc2
  apply ((several_stays .least c2 hc2).since h2).bind
  intro iter c3 h3 hc3
  apply ((suite_stays hsub c3 _ hc3).since h3).bind
  intro body c4 h4 hc4
  apply ((suiteAfter_stays hsub _ c4 _ hc4).since h4).bind
  intro orelse d h5 hd
  exact blames_ok hd

theorem caught_stays (c : Cursor) (hc : c.Within tokens) : (caught c).Stays tokens := by
  unfold caught
  split
  · exact blames_ok hc
  · refine (several_stays .named c hc).bind ?_
    intro type c1 h1 hc1
    apply ((givenName_stays c1 hc1).since h1).bind
    intro name d h2 hd
    exact blames_ok hd

theorem handlers_stays (hsub : StaysLines tokens sub) (c : Cursor) (h : c.size < n) (hc : c.Within tokens) :
    (handlers sub c h).Stays tokens := by
  rw [handlers]
  split
  · exact blames_ok hc
  · rename_i t c1 h1 hexcept
    have hc2 := (groupMark_reaches c1).within (Cursor.accept?_within hexcept hc)
    apply ((caught_stays _ hc2).since _).bind
    intro head c3 h3 hc3
    apply ((suite_stays hsub c3 _ hc3).since h3).bind
    intro body c4 h4 hc4
    apply ((handlers_stays hsub c4 _ hc4).since h4).bind
    intro hs d h5 hd
    exact blames_ok hd
termination_by c.size

theorem tryBlock_stays (hsub : StaysLines tokens sub) (start : Position) (c : Cursor) (h : c.size < n)
    (hc : c.Within tokens) : (tryBlock sub start c h).Stays tokens := by
  apply (suite_stays hsub c h hc).bind
  intro body c1 h1 hc1
  apply ((handlers_stays hsub c1 _ hc1).since h1).bind
  intro hs c2 h2 hc2
  apply ((suiteAfter_stays hsub _ c2 _ hc2).since h2).bind
  intro orelse c3 h3 hc3
  apply ((suiteAfter_stays hsub _ c3 _ hc3).since h3).bind
  intro finalbody d h4 hd
  dsimp only
  split
  · exact blames_unexpected hd
  · exact blames_ok hd

theorem withItem_stays (c : Cursor) (h : c.size < n) (hc : c.Within tokens) : (withItem c h).Stays tokens := by
  apply (expr_stays .named c hc).bind
  intro context c1 h1 hc1
  refine ((singleAfter_stays _ .comparison c1 hc1).since h1).bind_of
    (MayRead.gives_since (singleAfter_lays tokens _ .comparison c1) h1) ?_
  intro target d h2 htarget hd
  refine blames_bind_check ?_ fun _ => blames_ok hd
  cases target with
  | none => exact blames_ok trivial
  | some e => exact blames_target (htarget.tidy hc1.among _ (List.mem_singleton.mpr rfl))

theorem withItems_stays (c : Cursor) (hc : c.Within tokens) : (withItems c).Stays tokens := by
  unfold withItems
  split
  · refine (hc.expect _).bind ?_
    intro t c1 h1 hc1
    apply ((someItems_stays withItem_stays _ c1 c1.size_below hc1).since h1).bind
    intro items c2 h2 hc2
    apply ((hc2.expect _).since h2).bind
    intro t' d h3 hd
    exact blames_ok hd
  · exact someItems_stays withItem_stays _ c c.size_below hc

theorem withBlock_stays (hsub : StaysLines tokens sub) (start : Position) (isAsync : Bool) (c : Cursor) (h : c.size < n)
    (hc : c.Within tokens) : (withBlock sub start isAsync c h).Stays tokens := by
  apply (withItems_stays c hc).bind
  intro items c1 h1 hc1
  apply ((suite_stays hsub c1 _ hc1).since h1).bind
  intro body d h2 hd
  exact blames_ok hd

/-! ## Definitions -/

theorem functionDef_stays (hsub : StaysLines tokens sub) (start : Position) (decorators : List Expr) (isAsync : Bool)
    (c : Cursor) (h : c.size < n) (hc : c.Within tokens) :
    (functionDef sub start decorators isAsync c h).Stays tokens := by
  apply hc.expectName.bind
  intro name c1 h1 hc1
  apply ((hc1.expect _).since h1).bind
  intro t c2 h2 hc2
  apply ((parameters_stays (staysExprs_exprBelow tokens _) _ true c2 c2.size_below hc2).since h2).bind
  intro list c3 h3 hc3
  apply ((hc3.expect _).since h3).bind
  intro t' c4 h4 hc4
  apply ((singleAfter_stays _ .named c4 hc4).since h4).bind
  intro returns c5 h5 hc5
  apply ((suite_stays hsub c5 _ hc5).since h5).bind
  intro body d h6 hd
  exact blames_ok hd

theorem bases_stays (c : Cursor) (hc : c.Within tokens) : (bases c).Stays tokens := by
  unfold bases
  split
  · exact (arguments_stays (staysExprs_exprBelow tokens _) c c.size_below hc).moved
  · exact blames_ok hc

theorem classDef_stays (hsub : StaysLines tokens sub) (start : Position) (decorators : List Expr) (c : Cursor)
    (h : c.size < n) (hc : c.Within tokens) : (classDef sub start decorators c h).Stays tokens := by
  apply hc.expectName.bind
  intro name c1 h1 hc1
  apply ((bases_stays c1 hc1).since h1).bind
  intro parents c2 h2 hc2
  apply ((suite_stays hsub c2 _ hc2).since h2).bind
  intro body d h3 hd
  exact blames_ok hd

theorem decoratorLines_stays (c : Cursor) (hc : c.Within tokens) : (decoratorLines c).Stays tokens := by
  rw [decoratorLines]
  split
  · exact blames_ok hc
  · rename_i t c1 h1 hat
    apply ((expr_stays .named c1 (Cursor.accept?_within hat hc)).since h1).bind
    intro e c2 h2 hc2
    apply ((hc2.expect _).since h2).bind
    intro t' c3 h3 hc3
    apply ((decoratorLines_stays c3 hc3).since h3).bind
    intro es d h4 hd
    exact blames_ok hd
termination_by c.size

theorem decorated_stays (hsub : StaysLines tokens sub) (decorators : List Expr) (c : Cursor) (h : c.size ≤ n)
    (hc : c.Within tokens) : (decorated sub decorators c h).Stays tokens := by
  unfold decorated
  split
  · exact blames_unexpected hc
  · rename_i t c1 h1 hnext
    have hc1 := Cursor.next?_within hnext hc
    split
    · exact (functionDef_stays hsub _ _ _ c1 _ hc1).since h1
    · exact (classDef_stays hsub _ _ c1 _ hc1).since h1
    · refine ((hc1.expect _).since h1).bind ?_
      intro t' c2 h2 hc2
      exact (functionDef_stays hsub _ _ _ c2 _ hc2).since h2
    · exact blames_unexpected hc

theorem asyncStmt_stays (hsub : StaysLines tokens sub) (start : Position) (c : Cursor) (h : c.size < n)
    (hc : c.Within tokens) : (asyncStmt sub start c h).Stays tokens := by
  unfold asyncStmt
  split
  · exact blames_unexpected hc
  · rename_i t c1 h1 hnext
    have hc1 := Cursor.next?_within hnext hc
    split
    · exact (functionDef_stays hsub _ _ _ c1 _ hc1).since h1
    · exact (forLoop_stays hsub _ _ c1 _ hc1).since h1
    · exact (withBlock_stays hsub _ _ c1 _ hc1).since h1
    · exact blames_unexpected hc

/-! ## Statements with suites -/

theorem compound?_stays (hsub : StaysLines tokens sub) {t : Token} (c : Cursor) (h : c.size < n) {read : Read Stmt c}
    (hread : compound? sub t c h = some read) (hc : c.Within tokens) : read.Stays tokens := by
  unfold compound? at hread
  dsimp only at hread
  split at hread
  case h_9 => cases hread
  all_goals obtain rfl := Option.some.inj hread
  case h_1 => exact branch_stays hsub _ c h hc
  case h_2 => exact whileLoop_stays hsub _ c h hc
  case h_3 => exact forLoop_stays hsub _ _ c h hc
  case h_4 => exact tryBlock_stays hsub _ c h hc
  case h_5 => exact withBlock_stays hsub _ _ c h hc
  case h_6 => exact functionDef_stays hsub _ _ _ c h hc
  case h_7 => exact classDef_stays hsub _ _ c h hc
  case h_8 => exact asyncStmt_stays hsub _ c h hc

theorem stmtsWith_stays (hsub : StaysLines tokens sub) (c : Cursor) (h : c.size ≤ n) (hc : c.Within tokens) :
    (stmtsWith sub c h).Stays tokens := by
  unfold stmtsWith
  split
  · exact simpleLine_stays c hc
  · rename_i t c1 h1 hnext
    split
    · have hstmt : (decoratedStmt sub c h).Stays tokens := by
        apply (decoratorLines_stays c hc).bind
        intro decorators c2 h2 hc2
        exact (decorated_stays hsub decorators c2 _ hc2).from h2
      apply hstmt.bind
      intro s d h2 hd
      exact blames_ok hd
    · split
      · rename_i read hread
        apply ((compound?_stays hsub c1 _ hread (Cursor.next?_within hnext hc)).since h1).bind
        intro s d h2 hd
        exact blames_ok hd
      · exact simpleLine_stays c hc

end Suites

theorem stmts_stays (c : Cursor) (hc : c.Within tokens) : (stmts c).Stays tokens := by
  rw [stmts]
  exact stmtsWith_stays (fun c' _ hc' => stmts_stays c' hc') c _ hc
termination_by c.size

theorem moduleStmts_stays (c : Cursor) (hc : c.Within tokens) : (moduleStmts c).Stays tokens := by
  rw [moduleStmts]
  split
  · exact blames_ok hc
  · exact blames_fail hc _
  · split
    · exact blames_ok hc
    · rename_i t c1 h1 hnext
      exact ((moduleStmts_stays c1 (Cursor.next?_within hnext hc)).since h1).moved
  · refine (stmts_stays c hc).bind ?_
    intro ss c1 h1 hc1
    apply ((moduleStmts_stays c1 hc1).since h1).bind
    intro rest d h2 hd
    exact blames_ok hd
termination_by c.size

end Reading

end TypeWatch
