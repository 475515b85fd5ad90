import TypeWatch.Proofs.Reading.Beside
import TypeWatch.Reading.Suite

/-! # Readers of statements side by side

A line of simple statements depends on its tokens alone, a statement with suites on those up to the end of its
blocks, and on the token after them only as far as it may go on with another suite there. The statements of a
stream are read on another one as they are (`moduleStmts_matches`), and reading goes on with what the other one
has after them. -/
namespace TypeWatch.Reading
set_option autoImplicit false

open Layout (depthAfter)

variable {o : Outlook} {blocks depth : Nat}

/-! ## Imports -/

theorem dottedRest_matches (text : String) {c d : Cursor} (hcd : Beside o true blocks depth c d) :
    (dottedRest text c).Matches (dottedRest text d) (o.Keeps true blocks depth id) := by
  rw [dottedRest, dottedRest]
  cases hcd.accept (.op .dot) rfl with
  | none hc hd =>
    rw [hc, hd]
    exact matches_ok ⟨rfl, hcd⟩
  | some _ hc hd hdot =>
    rw [hc, hd]
    refine Read.matches_bind (Read.matches_since hdot.expectName _ _) ?_
    rintro name c2 h2 _ d2 h2' ⟨rfl, hname⟩
    refine Read.matches_bind (MayRead.matches_since (dottedRest_matches _ hname) h2 h2') ?_
    rintro whole c3 h3 _ d3 h3' ⟨rfl, hwhole⟩
    exact matches_ok ⟨rfl, hwhole⟩
termination_by c.size

theorem dottedName_matches {c d : Cursor} (hcd : Beside o true blocks depth c d) :
    (dottedName c).Matches (dottedName d) (o.Keeps true blocks depth id) := by
  refine Read.matches_bind hcd.expectName ?_
  rintro name c1 h1 _ d1 h1' ⟨rfl, hname⟩
  exact MayRead.matches_since (dottedRest_matches _ hname) h1 h1'

theorem givenName_matches {c d : Cursor} (hcd : Beside o true blocks depth c d) :
    (givenName c).Matches (givenName d) (o.Keeps true blocks depth id) := by
  unfold givenName
  cases hcd.accept (.word .kwAs) rfl with
  | none hc hd =>
    rw [hc, hd]
    exact matches_ok ⟨rfl, hcd⟩
  | some _ hc hd has =>
    rw [hc, hd]
    refine Read.matches_bind (Read.matches_since has.expectName _ _) ?_
    rintro name c2 h2 _ d2 h2' ⟨rfl, hname⟩
    exact matches_ok ⟨rfl, hname⟩

theorem importedModule_matches (n n' : Nat) :
    KeepsItems o (importedModule (n := n)) (importedModule (n := n')) id := by
  intro blocks depth c d h h' hcd
  refine Read.matches_bind (dottedName_matches hcd) ?_
  rintro name c1 h1 _ d1 h1' ⟨rfl, hname⟩
  refine Read.matches_bind (MayRead.matches_since (givenName_matches hname) h1 h1') ?_
  rintro given c2 h2 _ d2 h2' ⟨rfl, hgiven⟩
  exact matches_ok ⟨rfl, hgiven⟩

theorem importedName_matches (n n' : Nat) :
    KeepsItems o (importedName (n := n)) (importedName (n := n')) id := by
  intro blocks depth c d h h' hcd
  refine Read.matches_bind hcd.expectName ?_
  rintro name c1 h1 _ d1 h1' ⟨rfl, hname⟩
  refine Read.matches_bind (MayRead.matches_since (givenName_matches hname) h1 h1') ?_
  rintro given c2 h2 _ d2 h2' ⟨rfl, hgiven⟩
  exact matches_ok ⟨rfl, hgiven⟩

theorem leadingDots_keeps (text : String) {c d : Cursor} (hcd : Beside o true blocks depth c d) :
    o.Keeps true blocks depth id (leadingDots text c).value (leadingDots text c).next (leadingDots text d).value
      (leadingDots text d).next := by
  rw [leadingDots, leadingDots]
  cases hcd.accept (.op .dot) rfl with
  | some _ hc hd hdot =>
    rw [hc, hd]
    exact leadingDots_keeps _ hdot
  | none hc hd =>
    rw [hc, hd]
    dsimp only
    cases hcd.accept (.op .ellipsis) rfl with
    | some _ hc hd hdots =>
      rw [hc, hd]
      exact leadingDots_keeps _ hdots
    | none hc hd =>
      rw [hc, hd]
      exact ⟨rfl, hcd⟩
termination_by c.size

theorem origin_matches {c d : Cursor} (hcd : Beside o true blocks depth c d) :
    (origin c).Matches (origin d) (o.Keeps true blocks depth id) := by
  have hdots := leadingDots_keeps "" hcd
  unfold origin
  generalize leadingDots "" c = dots at hdots ⊢
  generalize leadingDots "" d = dots' at hdots ⊢
  obtain ⟨dots, c1, h1⟩ := dots
  obtain ⟨_, d1, h1'⟩ := dots'
  obtain ⟨rfl, hnext⟩ := hdots
  dsimp only [id]
  rw [hnext.kind]
  split
  · refine Read.matches_bind (Read.matches_from (dottedName_matches hnext) h1 h1') ?_
    rintro name c2 h2 _ d2 h2' ⟨rfl, hname⟩
    exact matches_ok ⟨rfl, hname⟩
  · split
    · exact matches_error _ _ _
    · exact matches_ok ⟨rfl, hnext⟩

theorem takenNames_matches {c d : Cursor} (hcd : Beside o true blocks depth c d) :
    (takenNames c).Matches (takenNames d) (o.Keeps true blocks depth id) := by
  have hmap (names : List ImportedName) : names.map id = names := List.map_id names
  unfold takenNames
  cases hcd.accept (.op .star) rfl with
  | some _ hc hd hstar =>
    rw [hc, hd]
    exact matches_ok ⟨rfl, hstar⟩
  | none hc hd =>
    rw [hc, hd]
    dsimp only
    cases hcd.accept (.op .openParen) rfl with
    | none hc hd =>
      rw [hc, hd]
      refine Read.matches_imp (someItems_matches (importedName_matches _ _) _ hcd _ _) ?_
      rintro names c1 _ d1 ⟨rfl, hnames⟩
      exact ⟨hmap names, hnames⟩
    | @some t c1 d1 h1 h1' _ hc hd hopen =>
      rw [hc, hd]
      refine Read.matches_bind (Read.matches_since (someItems_matches (importedName_matches _ _) _ hopen _ _) h1 h1') ?_
      rintro names c2 h2 _ d2 h2' ⟨rfl, hnames⟩
      refine Read.matches_bind (Read.matches_since (hnames.expect rfl) h2 h2') ?_
      rintro t' c3 h3 _ d3 h3' ⟨rfl, -, hend⟩
      exact matches_ok ⟨hmap names, hend⟩

theorem importModules_matches (start : Position) {c d : Cursor} (hcd : Beside o true blocks depth c d) :
    (importModules start c).Matches (importModules (o.motion.start start) d)
      (o.Keeps true blocks depth (Stmt.moved o.motion)) := by
  refine Read.matches_bind (someItems_matches (importedModule_matches _ _) _ hcd _ _) ?_
  rintro names c1 h1 _ d1 h1' ⟨rfl, hnames⟩
  refine matches_ok ⟨?_, hnames⟩
  simp only [Stmt.moved, hnames.spanFrom, List.map_id]

theorem importNames_matches (start : Position) {c d : Cursor} (hcd : Beside o true blocks depth c d) :
    (importNames start c).Matches (importNames (o.motion.start start) d)
      (o.Keeps true blocks depth (Stmt.moved o.motion)) := by
  refine MayRead.matches_bind (origin_matches hcd) ?_
  rintro module c1 h1 _ d1 h1' ⟨rfl, hmodule⟩
  refine Read.matches_bind (Read.matches_from (hmodule.expect rfl) h1 h1') ?_
  rintro t c2 h2 _ d2 h2' ⟨rfl, -, himport⟩
  refine Read.matches_bind (Read.matches_since (takenNames_matches himport) h2 h2') ?_
  rintro names c3 h3 _ d3 h3' ⟨rfl, hnames⟩
  refine matches_ok ⟨?_, hnames⟩
  simp only [Stmt.moved, hnames.spanFrom]

/-! ## Expressions and targets -/

theorem several_matches (level : Power) {c d : Cursor} (hcd : Beside o true blocks depth c d) :
    (several level c).Matches (several level d) (o.Keeps true blocks depth (Expr.moved o.motion)) :=
  exprList_matches (keepsExprs_exprBelow o _ _) level hcd _ _

theorem singleAfter_matches {mark : TokenKind} (hmark : mark.isLayout = false)
    (hbracket : depthAfter depth mark = depth) (level : Power) {c d : Cursor}
    (hcd : Beside o true blocks depth c d) : (singleAfter mark level c).Matches (singleAfter mark level d)
      (o.Keeps true blocks depth (Option.map (Expr.moved o.motion))) :=
  exprAfter_matches (keepsExprs_exprBelow o _ _) hmark hbracket level hcd _ _

theorem severalAfter_matches {c d : Cursor} (hcd : Beside o true blocks depth c d) :
    (severalAfter (.op .assign) c).Matches (severalAfter (.op .assign) d)
      (o.Keeps true blocks depth (Option.map (Expr.moved o.motion))) := by
  unfold severalAfter
  cases hcd.accept (.op .assign) rfl with
  | none hc hd =>
    rw [hc, hd]
    exact matches_ok ⟨rfl, hcd⟩
  | some _ hc hd hassign =>
    rw [hc, hd]
    refine Read.matches_bind (Read.matches_since (several_matches .least hassign) _ _) ?_
    rintro e c2 h2 _ d2 h2' ⟨rfl, he⟩
    exact matches_ok ⟨rfl, he⟩

theorem checkTarget_matches (μ : Motion) (e : Expr) :
    Matches (checkTarget e) (checkTarget (e.moved μ)) fun _ _ => True := by
  unfold checkTarget
  rw [Expr.nonTarget?_moved]
  cases e.nonTarget? with
  | none => exact matches_ok trivial
  | some part => exact matches_error _ _ _

theorem checkTargets_matches (μ : Motion) (es : List Expr) :
    Matches (es.forM checkTarget) ((es.map (Expr.moved μ)).forM checkTarget) fun _ _ => True := by
  induction es with
  | nil => exact matches_ok trivial
  | cons e es ih => exact matches_bind_check (checkTarget_matches μ e) fun _ _ _ => ih

theorem checkSingleTarget_matches (μ : Motion) (e : Expr) :
    Matches (checkSingleTarget e) (checkSingleTarget (e.moved μ)) fun _ _ => True := by
  unfold checkSingleTarget
  rw [Expr.isSingleTarget_moved]
  split
  · exact matches_ok trivial
  · exact matches_error _ _ _

/-! ## Assignments -/

theorem assigned_matches {c d : Cursor} (hcd : Beside o true blocks depth c d) :
    (assigned c).Matches (assigned d) (o.Keeps true blocks depth (List.map (Expr.moved o.motion))) := by
  rw [assigned, assigned]
  cases hcd.accept (.op .assign) rfl with
  | none hc hd =>
    rw [hc, hd]
    exact matches_ok ⟨rfl, hcd⟩
  | some _ hc hd hassign =>
    rw [hc, hd]
    refine Read.matches_bind (Read.matches_since (several_matches .least hassign) _ _) ?_
    rintro e c2 h2 _ d2 h2' ⟨rfl, he⟩
    refine Read.matches_bind (MayRead.matches_since (assigned_matches he) h2 h2') ?_
    rintro es c3 h3 _ d3 h3' ⟨rfl, hes⟩
    exact matches_ok ⟨rfl, hes⟩
termination_by c.size

theorem annotatedTarget_matches (start : Position) (target : Expr) {c d : Cursor}
    (hcd : Beside o true blocks depth c d) : (annotatedTarget start target c).Matches
      (annotatedTarget (o.motion.start start) (target.moved o.motion) d)
      (o.Keeps true blocks depth (Stmt.moved o.motion)) := by
  refine matches_bind_check (checkSingleTarget_matches o.motion target) fun _ _ _ => ?_
  refine Read.matches_bind (expr_matches .named hcd) ?_
  rintro hint c1 h1 _ d1 h1' ⟨rfl, hhint⟩
  refine Read.matches_bind (MayRead.matches_since (severalAfter_matches hhint) h1 h1') ?_
  rintro value c2 h2 _ d2 h2' ⟨rfl, hvalue⟩
  refine matches_ok ⟨?_, hvalue⟩
  simp only [Stmt.moved, hvalue.spanFrom]

theorem augmentedTarget_matches (start : Position) (target : Expr) (op : BinaryOp) {c d : Cursor}
    (hcd : Beside o true blocks depth c d) : (augmentedTarget start target op c).Matches
      (augmentedTarget (o.motion.start start) (target.moved o.motion) op d)
      (o.Keeps true blocks depth (Stmt.moved o.motion)) := by
  refine Read.matches_bind (several_matches .least hcd) ?_
  rintro value c1 h1 _ d1 h1' ⟨rfl, hvalue⟩
  refine matches_ok ⟨?_, hvalue⟩
  simp only [Stmt.moved, hvalue.spanFrom]

theorem depthAfter_of_augmented {kind : TokenKind} {op : BinaryOp} (h : BinaryOp.ofAugmented? kind = some op)
    (depth : Nat) : depthAfter depth kind = depth := by
  unfold BinaryOp.ofAugmented? at h
  split at h <;> first | rfl | exact absurd h nofun

theorem stmtAfter_matches (start : Position) (first : Expr) {c d : Cursor} (hcd : Beside o true blocks depth c d) :
    (stmtAfter start first c).Matches (stmtAfter (o.motion.start start) (first.moved o.motion) d)
      (o.Keeps true blocks depth (Stmt.moved o.motion)) := by
  have hplain : MayRead.Matches (.ok (Moved.here (Stmt.expression first.span first) c))
      (.ok (Moved.here (Stmt.expression (first.moved o.motion).span (first.moved o.motion)) d))
      (o.Keeps true blocks depth (Stmt.moved o.motion)) := by
    refine matches_ok ⟨?_, hcd⟩
    simp only [Moved.here, Stmt.moved, Expr.span_moved]
  unfold stmtAfter
  cases hcd.next with
  | newline ht hc hd _ =>
    rw [hc, hd]
    simp only [Token.moved, ht, BinaryOp.ofAugmented?]
    exact hplain
  | @token t c1 d1 h1 h1' _ _ hc hd hnext =>
    have hsame : (t.moved o.motion).kind = t.kind := rfl
    rw [hc, hd]
    dsimp only
    rw [hsame]
    split
    case h_1 hkind =>
      rw [hkind] at hnext
      exact Read.matches_moved (Read.matches_since (annotatedTarget_matches start first hnext) h1 h1')
    case h_2 =>
      refine MayRead.matches_bind (assigned_matches hcd) ?_
      rintro others c2 h2 _ d2 h2' ⟨rfl, hothers⟩
      dsimp only
      rw [← List.map_reverse]
      cases others.reverse with
      | nil => exact matches_error _ _ _
      | cons value targets =>
        have hmap : first.moved o.motion :: (targets.map (Expr.moved o.motion)).reverse =
            (first :: targets.reverse).map (Expr.moved o.motion) := by
          rw [List.map_cons, List.map_reverse]
        simp only [List.map_cons, hmap]
        refine matches_bind_check (checkTargets_matches o.motion _) fun _ _ _ => ?_
        refine matches_ok ⟨?_, hothers⟩
        simp only [Stmt.moved, hothers.spanFrom, List.map_cons]
    case h_3 =>
      split
      · rename_i op hop
        rw [depthAfter_of_augmented hop] at hnext
        refine matches_bind_check (checkSingleTarget_matches o.motion first) fun _ _ _ => ?_
        exact Read.matches_moved (Read.matches_since (augmentedTarget_matches start first op hnext) h1 h1')
      · exact hplain

theorem exprStmt_matches {c d : Cursor} (hcd : Beside o true blocks depth c d) :
    (exprStmt c).Matches (exprStmt d) (o.Keeps true blocks depth (Stmt.moved o.motion)) := by
  refine Read.matches_bind (several_matches .least hcd) ?_
  rintro first c1 h1 _ d1 h1' ⟨rfl, hfirst⟩
  rw [hcd.position]
  exact MayRead.matches_since (stmtAfter_matches c.position first hfirst) h1 h1'

/-! ## Statements with a first word -/

theorem returnStmt_matches (start : Position) {c d : Cursor} (hcd : Beside o true blocks depth c d) :
    (returnStmt start c).Matches (returnStmt (o.motion.start start) d)
      (o.Keeps true blocks depth (Stmt.moved o.motion)) := by
  unfold returnStmt
  rw [hcd.kind]
  split
  · refine Read.matches_bind (several_matches .least hcd) ?_
    rintro e c1 h1 _ d1 h1' ⟨rfl, he⟩
    refine matches_ok ⟨?_, he⟩
    simp only [Moved.past, Stmt.moved, he.spanFrom, Option.map_some]
  · refine matches_ok ⟨?_, hcd⟩
    simp only [Moved.here, Stmt.moved, hcd.spanFrom, Option.map_none]

theorem raiseStmt_matches (start : Position) {c d : Cursor} (hcd : Beside o true blocks depth c d) :
    (raiseStmt start c).Matches (raiseStmt (o.motion.start start) d)
      (o.Keeps true blocks depth (Stmt.moved o.motion)) := by
  unfold raiseStmt
  rw [hcd.kind]
  split
  · refine Read.matches_bind (expr_matches .named hcd) ?_
    rintro e c1 h1 _ d1 h1' ⟨rfl, he⟩
    refine Read.matches_bind (MayRead.matches_since (singleAfter_matches rfl rfl .named he) h1 h1') ?_
    rintro cause c2 h2 _ d2 h2' ⟨rfl, hcause⟩
    refine matches_ok ⟨?_, hcause⟩
    simp only [Moved.past, Stmt.moved, hcause.spanFrom, Option.map_some]
  · refine matches_ok ⟨?_, hcd⟩
    simp only [Moved.here, Stmt.moved, hcd.spanFrom, Option.map_none]

theorem outerStmt_matches (start : Position) (isNonlocal : Bool) {c d : Cursor}
    (hcd : Beside o true blocks depth c d) :
    (outerStmt start isNonlocal c).Matches (outerStmt (o.motion.start start) isNonlocal d)
      (o.Keeps true blocks depth (Stmt.moved o.motion)) := by
  have hname : KeepsItems o (fun c' (_ : c'.size < c.size + 1) => c'.expectName)
      (fun d' (_ : d'.size < d.size + 1) => d'.expectName) id := fun _ _ hcd' => hcd'.expectName
  refine Read.matches_bind (someItems_matches hname _ hcd _ _) ?_
  rintro names c1 h1 _ d1 h1' ⟨rfl, hnames⟩
  refine matches_ok ⟨?_, hnames⟩
  simp only [Stmt.moved, hnames.spanFrom, List.map_id]

theorem deletedTarget_matches (n n' : Nat) :
    KeepsItems o (deletedTarget (n := n)) (deletedTarget (n := n')) (Expr.moved o.motion) := by
  intro blocks depth c d h h' hcd
  refine Read.matches_bind (expr_matches .comparison hcd) ?_
  rintro e c1 h1 _ d1 h1' ⟨rfl, he⟩
  exact matches_bind_check (checkTarget_matches o.motion e) fun _ _ _ => matches_ok ⟨rfl, he⟩

theorem deleteStmt_matches (start : Position) {c d : Cursor} (hcd : Beside o true blocks depth c d) :
    (deleteStmt start c).Matches (deleteStmt (o.motion.start start) d)
      (o.Keeps true blocks depth (Stmt.moved o.motion)) := by
  refine Read.matches_bind (someItems_matches (deletedTarget_matches _ _) _ hcd _ _) ?_
  rintro targets c1 h1 _ d1 h1' ⟨rfl, htargets⟩
  refine matches_ok ⟨?_, htargets⟩
  simp only [Stmt.moved, htargets.spanFrom]

theorem assertStmt_matches (start : Position) {c d : Cursor} (hcd : Beside o true blocks depth c d) :
    (assertStmt start c).Matches (assertStmt (o.motion.start start) d)
      (o.Keeps true blocks depth (Stmt.moved o.motion)) := by
  refine Read.matches_bind (expr_matches .named hcd) ?_
  rintro test c1 h1 _ d1 h1' ⟨rfl, htest⟩
  refine Read.matches_bind (MayRead.matches_since (singleAfter_matches rfl rfl .named htest) h1 h1') ?_
  rintro message c2 h2 _ d2 h2' ⟨rfl, hmessage⟩
  refine matches_ok ⟨?_, hmessage⟩
  simp only [Stmt.moved, hmessage.spanFrom]

/-- What statements with a first word are read after the same token of two streams. -/
inductive WordBeside (o : Outlook) (blocks depth : Nat) (t : Token) (c d : Cursor) : Prop
  | none : wordStmt? t c = none → wordStmt? (t.moved o.motion) d = none → WordBeside o blocks depth t c d
  | some {r : MayRead Stmt c} {r' : MayRead Stmt d} : wordStmt? t c = some r →
      wordStmt? (t.moved o.motion) d = some r' → r.Matches r' (o.Keeps true blocks depth (Stmt.moved o.motion)) →
      WordBeside o blocks depth t c d

theorem wordStmt_beside (t : Token) {c d : Cursor} (hcd : Beside o true blocks (depthAfter depth t.kind) c d) :
    WordBeside o blocks depth t c d := by
  have hplain {word : Keyword} (h : Beside o true blocks depth c d) :
      MayRead.Matches (.ok (Moved.here (Stmt.word t.span word) c))
        (.ok (Moved.here (Stmt.word (t.span.moved o.motion) word) d))
        (o.Keeps true blocks depth (Stmt.moved o.motion)) := matches_ok ⟨rfl, h⟩
  obtain ⟨kind, text, span⟩ := t
  cases kind with
  | word word =>
    cases word with
    | kwPass | kwBreak | kwContinue => exact .some rfl rfl (hplain hcd)
    | kwReturn => exact .some rfl rfl (returnStmt_matches _ hcd)
    | kwRaise => exact .some rfl rfl (raiseStmt_matches _ hcd)
    | kwGlobal | kwNonlocal => exact .some rfl rfl (Read.matches_moved (outerStmt_matches _ _ hcd))
    | kwDel => exact .some rfl rfl (Read.matches_moved (deleteStmt_matches _ hcd))
    | kwAssert => exact .some rfl rfl (Read.matches_moved (assertStmt_matches _ hcd))
    | kwImport => exact .some rfl rfl (Read.matches_moved (importModules_matches _ hcd))
    | kwFrom => exact .some rfl rfl (Read.matches_moved (importNames_matches _ hcd))
    | _ => exact .none rfl rfl
  | _ => exact .none rfl rfl

/-! ## Lines -/

theorem simpleStmt_matches {c d : Cursor} (hcd : Beside o true blocks depth c d) :
    (simpleStmt c).Matches (simpleStmt d) (o.Keeps true blocks depth (Stmt.moved o.motion)) := by
  unfold simpleStmt
  cases hcd.next with
  | newline ht hc hd hnext =>
    have hlayout : ∀ {t : Token} {e : Cursor}, t.kind = .newline → wordStmt? t e = none := by
      intro t e ht
      unfold wordStmt?
      rw [ht]
    rw [hc, hd]
    dsimp only
    rw [hlayout ht, hlayout (t := Token.moved o.motion _) ht]
    exact exprStmt_matches hcd
  | @token t c1 d1 h1 h1' _ _ hc hd hnext =>
    rw [hc, hd]
    dsimp only
    cases wordStmt_beside t hnext with
    | none hword hword' =>
      rw [hword, hword']
      exact exprStmt_matches hcd
    | some hword hword' hmatches =>
      rw [hword, hword']
      exact MayRead.matches_since hmatches h1 h1'

theorem moreSimple_matches {c d : Cursor} (hcd : Beside o true blocks depth c d) :
    (moreSimple c).Matches (moreSimple d) (o.Keeps true blocks depth (List.map (Stmt.moved o.motion))) := by
  rw [moreSimple, moreSimple]
  cases hcd.accept (.op .semicolon) rfl with
  | none hc hd =>
    rw [hc, hd]
    exact matches_ok ⟨rfl, hcd⟩
  | @some t c1 d1 h1 h1' _ hc hd hnext =>
    rw [hc, hd]
    dsimp only
    rw [hnext.kind]
    split
    · exact matches_ok ⟨rfl, hnext⟩
    · refine Read.matches_bind (Read.matches_since (simpleStmt_matches hnext) h1 h1') ?_
      rintro s c2 h2 _ d2 h2' ⟨rfl, hs⟩
      refine Read.matches_bind (MayRead.matches_since (moreSimple_matches hs) h2 h2') ?_
      rintro ss c3 h3 _ d3 h3' ⟨rfl, hss⟩
      exact matches_ok ⟨rfl, hss⟩
termination_by c.size

theorem simpleLine_matches {c d : Cursor} (hcd : Beside o true blocks depth c d) :
    (simpleLine c).Matches (simpleLine d) (o.Keeps false blocks depth (List.map (Stmt.moved o.motion))) := by
  refine Read.matches_bind (simpleStmt_matches hcd) ?_
  rintro s c1 h1 _ d1 h1' ⟨rfl, hs⟩
  refine Read.matches_bind (MayRead.matches_since (moreSimple_matches hs) h1 h1') ?_
  rintro ss c2 h2 _ d2 h2' ⟨rfl, hss⟩
  refine Read.matches_bind (Read.matches_since hss.expectNewline h2 h2') ?_
  intro _ c3 h3 _ d3 h3' hline
  exact matches_ok ⟨rfl, hline⟩

end TypeWatch.Reading
