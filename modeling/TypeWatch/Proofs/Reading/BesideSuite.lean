import TypeWatch.Proofs.Reading.BesideStmt

/-! # Readers of suites side by side

A statement with suites depends on the tokens up to the end of its blocks, and on the token after them only as
far as it may go on with another suite there. The statements of a stream are read on another one as they are,
and reading goes on with what the other one has after them (`moduleStmts_matches`). -/
namespace TypeWatch.Reading
set_option autoImplicit false

open Layout (depthAfter)

/-- Whether the statement before a token goes on with a suite of its own after it. -/
def continues : TokenKind → Bool
  | .word .kwElif | .word .kwElse | .word .kwExcept | .word .kwFinally => true
  | _ => false

/-- What the second stream has after the tokens of the first one does not go on with the statement there. -/
def Outlook.Fresh (o : Outlook) : Prop := ∀ t ∈ o.tail.head?, continues t.kind = false

/-- What is said of two readers of the statements of a line. -/
def KeepsStmts (o : Outlook) {n n' : Nat} (sub : StmtsBelow n) (sub' : StmtsBelow n') : Prop :=
  ∀ {blocks depth : Nat} {c d : Cursor} (h : c.size < n) (h' : d.size < n'), Beside o true blocks depth c d →
    (sub c h).Matches (sub' d h') (o.Keeps false blocks depth (List.map (Stmt.moved o.motion)))

variable {o : Outlook} {n n' : Nat} {sub : StmtsBelow n} {sub' : StmtsBelow n'} {blocks depth : Nat}

/-! ## Where a line begins -/

/-- Whether the statement goes on after its blocks is the same in both streams. -/
theorem Beside.acceptFurther {c d : Cursor} (hcd : Beside o false blocks depth c d) (hfresh : o.Fresh)
    (word : Keyword) (hword : continues (.word word) = true) : AcceptBeside o blocks depth (.word word) c d := by
  have hlayout {e e1 : Cursor} {t : Token} {h : e1.size < e.size} {kind : TokenKind} (ht : t.kind = kind)
      (hkind : kind.isLayout = true) (he : e.next? = some ⟨t, e1, h⟩) : e.accept? (.word word) = none := by
    refine (accept?_of_next? he _).trans (if_neg ?_)
    rintro hw
    rw [← ht, hw] at hkind
    cases hkind
  cases hcd.line with
  | ended _ _ hc hd =>
    refine .none ?_ ?_
    · rw [Cursor.accept?, next?_eq_none hc]
    · cases htail : o.tail with
      | nil => rw [Cursor.accept?, next?_eq_none (hd.trans htail)]
      | cons t ts =>
        obtain ⟨_, hnext⟩ := next?_eq_some (hd.trans htail)
        have hno : continues t.kind = false := hfresh t (by rw [htail]; rfl)
        refine (accept?_of_next? hnext _).trans (if_neg fun ht : t.kind = _ => ?_)
        rw [ht, hword] at hno
        cases hno
  | opened ht hu hc hd _ => exact .none (hlayout ht rfl hc) (hlayout hu rfl hd)
  | closed _ ht hu hc hd _ => exact .none (hlayout ht rfl hc) (hlayout hu rfl hd)
  | token _ hbegun => exact hbegun.accept _ rfl

/-! ## Suites -/

theorem suiteStmts_matches (hsub : KeepsStmts o sub sub') {c d : Cursor} (hcd : Beside o false (blocks + 1) depth c d)
    (h : c.size < n) (h' : d.size < n') : (suiteStmts sub c h).Matches (suiteStmts sub' d h') fun ss c1 ss' d1 =>
      o.Keeps false (blocks + 1) depth (List.map (Stmt.moved o.motion)) ss c1 ss' d1 ∧ c1.kind = .dedent := by
  rw [suiteStmts, suiteStmts]
  cases hcd.line with
  | ended hblocks => cases hblocks
  | opened ht _ hc _ _ =>
    rw [kind_of_next? hc, ht]
    exact matches_error _ _ _
  | closed _ ht hu hc hd _ =>
    have hkind := (kind_of_next? hc).trans ht
    rw [hkind, (kind_of_next? hd).trans hu]
    exact matches_ok ⟨⟨rfl, hcd⟩, hkind⟩
  | token hno hbegun =>
    rw [hbegun.kind]
    split
    case h_1 hkind | h_2 hkind =>
      rw [hkind] at hno
      cases hno
    case h_3 => exact matches_error _ _ _
    case h_4 =>
      refine Read.matches_bind (hsub h h' hbegun) ?_
      rintro ss c1 h1 _ d1 h1' ⟨rfl, hss⟩
      refine Read.matches_bind (MayRead.matches_since (suiteStmts_matches hsub hss _ _) h1 h1') ?_
      rintro rest c2 h2 _ d2 h2' ⟨⟨rfl, hrest⟩, hend⟩
      exact matches_ok ⟨⟨List.map_append.symm, hrest⟩, hend⟩
termination_by c.size

theorem closeSuite_keeps {c d : Cursor} (hcd : Beside o false (blocks + 1) depth c d) (hend : c.kind = .dedent) :
    Beside o false blocks depth (closeSuite c).next (closeSuite d).next := by
  unfold closeSuite
  cases hcd.line with
  | ended hblocks => exact absurd hblocks nofun
  | opened ht _ hc _ _ =>
    rw [kind_of_next? hc, ht] at hend
    exact absurd hend nofun
  | closed houter ht hu hc hd hnext =>
    obtain rfl := Nat.succ.inj houter
    rw [(accept?_of_next? hc _).trans (if_pos ht), (accept?_of_next? hd _).trans (if_pos hu)]
    exact hnext
  | token hno _ =>
    rw [hend] at hno
    exact absurd hno nofun

theorem demandIndent_matches {c d : Cursor} (hcd : Beside o false blocks depth c d) (fault fault' : Fault) :
    (c.demand .indent fault).Matches (d.demand .indent fault') fun _ c1 _ d1 =>
      Beside o false (blocks + 1) depth c1 d1 := by
  have herror (hne : c.kind ≠ .indent) : c.accept? .indent = none := by
    rw [Cursor.accept?]
    split
    · rename_i a hc
      exact if_neg (kind_of_next? hc ▸ hne)
    · rfl
  unfold Cursor.demand
  cases hcd.line with
  | ended _ _ hc _ =>
    rw [herror (by rw [hcd.kind_of_ended hc]; rintro ⟨⟩)]
    exact matches_error _ _ _
  | opened ht hu hc hd hnext =>
    rw [(accept?_of_next? hc _).trans (if_pos ht), (accept?_of_next? hd _).trans (if_pos hu)]
    exact matches_ok hnext
  | closed _ ht _ hc _ _ =>
    rw [herror (by rw [kind_of_next? hc, ht]; rintro ⟨⟩)]
    exact matches_error _ _ _
  | token hno _ =>
    rw [herror (by rintro hkind; rw [hkind] at hno; exact absurd hno (by rintro ⟨⟩))]
    exact matches_error _ _ _

theorem suite_matches (hsub : KeepsStmts o sub sub') {c d : Cursor} (hcd : Beside o true blocks depth c d)
    (h : c.size < n) (h' : d.size < n') : (suite sub c h).Matches (suite sub' d h')
      (o.Keeps false blocks depth (List.map (Stmt.moved o.motion))) := by
  refine Read.matches_bind (hcd.expect rfl) ?_
  rintro t c1 h1 _ d1 h1' ⟨rfl, -, hcolon⟩
  dsimp only
  rcases hcolon.lineEnd with ⟨hc, hd⟩ | ⟨_, c2, h2, d2, h2', hc, hd, hline⟩
  · rw [hc, hd]
    exact Read.matches_since (simpleLine_matches hcolon) h1 h1'
  · rw [hc, hd]
    refine Read.matches_bind (Read.matches_since (demandIndent_matches hline _ _) _ _) ?_
    intro _ c3 h3 _ d3 h3' hblock
    refine Read.matches_bind (MayRead.matches_since (suiteStmts_matches hsub hblock _ _) h3 h3') ?_
    rintro ss c4 h4 _ d4 h4' ⟨⟨rfl, hss⟩, hend⟩
    exact matches_ok ⟨rfl, closeSuite_keeps hss hend⟩

theorem suiteAfter_matches (hsub : KeepsStmts o sub sub') (hfresh : o.Fresh) (word : Keyword)
    (hword : continues (.word word) = true) {c d : Cursor} (hcd : Beside o false blocks depth c d)
    (h : c.size < n) (h' : d.size < n') : (suiteAfter sub word c h).Matches (suiteAfter sub' word d h')
      (o.Keeps false blocks depth (List.map (Stmt.moved o.motion))) := by
  unfold suiteAfter
  cases hcd.acceptFurther hfresh word hword with
  | none hc hd =>
    rw [hc, hd]
    exact matches_ok ⟨rfl, hcd⟩
  | some _ hc hd hnext =>
    rw [hc, hd]
    exact Read.matches_moved (Read.matches_since (suite_matches hsub hnext _ _) _ _)

/-! ## Branches and loops -/

theorem branch_matches (hsub : KeepsStmts o sub sub') (hfresh : o.Fresh) (start : Position) {c d : Cursor}
    (hcd : Beside o true blocks depth c d) (h : c.size < n) (h' : d.size < n') :
    (branch sub start c h).Matches (branch sub' (o.motion.start start) d h')
      (o.Keeps false blocks depth (Stmt.moved o.motion)) := by
  rw [branch, branch]
  refine Read.matches_bind (expr_matches .least hcd) ?_
  rintro test c1 h1 _ d1 h1' ⟨rfl, htest⟩
  refine Read.matches_bind (Read.matches_since (suite_matches hsub htest _ _) h1 h1') ?_
  rintro body c2 h2 _ d2 h2' ⟨rfl, hbody⟩
  dsimp only
  cases hbody.acceptFurther hfresh .kwElif rfl with
  | @some t c3 d3 h3 h3' _ hc hd hnext =>
    rw [hc, hd]
    refine Read.matches_bind (Read.matches_since (branch_matches hsub hfresh t.span.start hnext _ _) _ _) ?_
    rintro further c4 h4 _ d4 h4' ⟨rfl, hfurther⟩
    refine matches_ok ⟨?_, hfurther⟩
    simp only [Stmt.moved, hfurther.spanFrom, Stmt.movedList_eq, List.map_cons, List.map_nil]
  | none hc hd =>
    rw [hc, hd]
    refine Read.matches_bind (MayRead.matches_since (suiteAfter_matches hsub hfresh .kwElse rfl hbody _ _) h2 h2') ?_
    rintro orelse c3 h3 _ d3 h3' ⟨rfl, horelse⟩
    refine matches_ok ⟨?_, horelse⟩
    simp only [Stmt.moved, horelse.spanFrom, Stmt.movedList_eq]
termination_by c.size

theorem whileLoop_matches (hsub : KeepsStmts o sub sub') (hfresh : o.Fresh) (start : Position) {c d : Cursor}
    (hcd : Beside o true blocks depth c d) (h : c.size < n) (h' : d.size < n') :
    (whileLoop sub start c h).Matches (whileLoop sub' (o.motion.start start) d h')
      (o.Keeps false blocks depth (Stmt.moved o.motion)) := by
  refine Read.matches_bind (expr_matches .least hcd) ?_
  rintro test c1 h1 _ d1 h1' ⟨rfl, htest⟩
  refine Read.matches_bind (Read.matches_since (suite_matches hsub htest _ _) h1 h1') ?_
  rintro body c2 h2 _ d2 h2' ⟨rfl, hbody⟩
  refine Read.matches_bind (MayRead.matches_since (suiteAfter_matches hsub hfresh .kwElse rfl hbody _ _) h2 h2') ?_
  rintro orelse c3 h3 _ d3 h3' ⟨rfl, horelse⟩
  refine matches_ok ⟨?_, horelse⟩
  simp only [Stmt.moved, horelse.spanFrom, Stmt.movedList_eq]

theorem forLoop_matches (hsub : KeepsStmts o sub sub') (hfresh : o.Fresh) (start : Position) (isAsync : Bool)
    {c d : Cursor} (hcd : Beside o true blocks depth c d) (h : c.size < n) (h' : d.size < n') :
    (forLoop sub start isAsync c h).Matches (forLoop sub' (o.motion.start start) isAsync d h')
      (o.Keeps false blocks depth (Stmt.moved o.motion)) := by
  refine Read.matches_bind (several_matches .comparison hcd) ?_
  rintro target c1 h1 _ d1 h1' ⟨rfl, htarget⟩
  refine matches_bind_check (checkTarget_matches o.motion target) fun _ _ _ => ?_
  refine Read.matches_bind (Read.matches_since (htarget.expect rfl) h1 h1') ?_
  rintro t c2 h2 _ d2 h2' ⟨rfl, -, hin⟩
  refine Read.matches_bind (Read.matches_since (several_matches .least hin) h2 h2') ?_
  rintro iter c3 h3 _ d3 h3' ⟨rfl, hiter⟩
  refine Read.matches_bind (Read.matches_since (suite_matches hsub hiter _ _) h3 h3') ?_
  rintro body c4 h4 _ d4 h4' ⟨rfl, hbody⟩
  refine Read.matches_bind (MayRead.matches_since (suiteAfter_matches hsub hfresh .kwElse rfl hbody _ _) h4 h4') ?_
  rintro orelse c5 h5 _ d5 h5' ⟨rfl, horelse⟩
  refine matches_ok ⟨?_, horelse⟩
  simp only [Stmt.moved, horelse.spanFrom, Stmt.movedList_eq]

/-! ## Exceptions -/

theorem caught_matches {c d : Cursor} (hcd : Beside o true blocks depth c d) :
    (caught c).Matches (caught d)
      (o.Keeps true blocks depth fun p => (p.1.map (Expr.moved o.motion), p.2)) := by
  unfold caught
  rw [hcd.kind]
  split
  · exact matches_ok ⟨rfl, hcd⟩
  · refine Read.matches_bind (several_matches .named hcd) ?_
    rintro type c1 h1 _ d1 h1' ⟨rfl, htype⟩
    refine Read.matches_bind (MayRead.matches_since (givenName_matches htype) h1 h1') ?_
    rintro name c2 h2 _ d2 h2' ⟨rfl, hname⟩
    exact matches_ok ⟨rfl, hname⟩

theorem groupMark_keeps {c d : Cursor} (hcd : Beside o true blocks depth c d) :
    Beside o true blocks depth (groupMark c).next (groupMark d).next := by
  unfold groupMark
  cases hcd.accept (.op .star) rfl with
  | none hc hd =>
    rw [hc, hd]
    exact hcd
  | some _ hc hd hnext =>
    rw [hc, hd]
    exact hnext

theorem handlers_matches (hsub : KeepsStmts o sub sub') (hfresh : o.Fresh) {c d : Cursor}
    (hcd : Beside o false blocks depth c d) (h : c.size < n) (h' : d.size < n') :
    (handlers sub c h).Matches (handlers sub' d h')
      (o.Keeps false blocks depth (List.map (Handler.moved o.motion))) := by
  rw [handlers, handlers]
  cases hcd.acceptFurther hfresh .kwExcept rfl with
  | none hc hd =>
    rw [hc, hd]
    exact matches_ok ⟨rfl, hcd⟩
  | some _ hc hd hexcept =>
    rw [hc, hd]
    refine Read.matches_bind (MayRead.matches_since (caught_matches (groupMark_keeps hexcept)) _ _) ?_
    rintro ⟨type, name⟩ c3 h3 _ d3 h3' ⟨rfl, hcaught⟩
    refine Read.matches_bind (Read.matches_since (suite_matches hsub hcaught _ _) h3 h3') ?_
    rintro body c4 h4 _ d4 h4' ⟨rfl, hbody⟩
    refine Read.matches_bind (MayRead.matches_since (handlers_matches hsub hfresh hbody _ _) h4 h4') ?_
    rintro hs c5 h5 _ d5 h5' ⟨rfl, hhs⟩
    refine matches_ok ⟨?_, hhs⟩
    simp only [Moved.past, Handler.moved, Stmt.movedList_eq, List.map_cons]
termination_by c.size

theorem tryBlock_matches (hsub : KeepsStmts o sub sub') (hfresh : o.Fresh) (start : Position) {c d : Cursor}
    (hcd : Beside o true blocks depth c d) (h : c.size < n) (h' : d.size < n') :
    (tryBlock sub start c h).Matches (tryBlock sub' (o.motion.start start) d h')
      (o.Keeps false blocks depth (Stmt.moved o.motion)) := by
  refine Read.matches_bind (suite_matches hsub hcd _ _) ?_
  rintro body c1 h1 _ d1 h1' ⟨rfl, hbody⟩
  refine Read.matches_bind (MayRead.matches_since (handlers_matches hsub hfresh hbody _ _) h1 h1') ?_
  rintro hs c2 h2 _ d2 h2' ⟨rfl, hhs⟩
  refine Read.matches_bind (MayRead.matches_since (suiteAfter_matches hsub hfresh .kwElse rfl hhs _ _) h2 h2') ?_
  rintro orelse c3 h3 _ d3 h3' ⟨rfl, horelse⟩
  refine Read.matches_bind (MayRead.matches_since (suiteAfter_matches hsub hfresh .kwFinally rfl horelse _ _) h3 h3') ?_
  rintro finalbody c4 h4 _ d4 h4' ⟨rfl, hfinal⟩
  simp only [List.isEmpty_map]
  split
  · exact matches_error _ _ _
  · refine matches_ok ⟨?_, hfinal⟩
    simp only [Stmt.moved, hfinal.spanFrom, Stmt.movedList_eq, Handler.movedList_eq]

/-! ## Contexts -/

/-- Whether brackets are closed before a colon is seen on the line alone. -/
theorem closesBeforeColon_alongside {blocks depth : Nat} {ts us : List Token} (h : Alongside o true blocks depth ts us) (level : Nat) :
    closesBeforeColon level us = closesBeforeColon level ts := by
  have hhead {depth : Nat} {ts us : List Token} (h : Alongside o true blocks depth ts us) :
      us.head?.map Token.kind = ts.head?.map Token.kind := by
    cases h <;> rfl
  cases h with
  | newline ht _ =>
    have ht' : (Token.moved o.motion _).kind = .newline := ht
    rw [closesBeforeColon, closesBeforeColon, ht, ht']
  | @token _ _ _ t _ _ _ _ hrest =>
    have hsame : (t.moved o.motion).kind = t.kind := rfl
    simp only [closesBeforeColon, hsame, closesBeforeColon_alongside hrest, hhead hrest]
termination_by ts.length

theorem opensContexts_beside {c d : Cursor} (hcd : Beside o true blocks depth c d) :
    opensContexts d = opensContexts c := by
  rw [opensContexts, opensContexts, hcd.kind, closesBeforeColon_alongside hcd.rest]

theorem checkOption_matches (μ : Motion) (target : Option Expr) :
    Matches (target.forM checkTarget) ((target.map (Expr.moved μ)).forM checkTarget) fun _ _ => True := by
  cases target with
  | none => exact matches_ok trivial
  | some e => exact checkTarget_matches μ e

theorem withItem_matches (n n' : Nat) :
    KeepsItems o (withItem (n := n)) (withItem (n := n')) (WithItem.moved o.motion) := by
  intro blocks depth c d h h' hcd
  refine Read.matches_bind (expr_matches .named hcd) ?_
  rintro context c1 h1 _ d1 h1' ⟨rfl, hcontext⟩
  refine Read.matches_bind (MayRead.matches_since (singleAfter_matches rfl rfl .comparison hcontext) h1 h1') ?_
  rintro target c2 h2 _ d2 h2' ⟨rfl, htarget⟩
  exact matches_bind_check (checkOption_matches o.motion target) fun _ _ _ => matches_ok ⟨rfl, htarget⟩

theorem withItems_matches {c d : Cursor} (hcd : Beside o true blocks depth c d) :
    (withItems c).Matches (withItems d) (o.Keeps true blocks depth (List.map (WithItem.moved o.motion))) := by
  unfold withItems
  rw [opensContexts_beside hcd]
  split
  · refine Read.matches_bind (hcd.expect rfl) ?_
    rintro t c1 h1 _ d1 h1' ⟨rfl, -, hopen⟩
    refine Read.matches_bind (Read.matches_since (someItems_matches (withItem_matches _ _) _ hopen _ _) h1 h1') ?_
    rintro items c2 h2 _ d2 h2' ⟨rfl, hitems⟩
    refine Read.matches_bind (Read.matches_since (hitems.expect rfl) h2 h2') ?_
    rintro t' c3 h3 _ d3 h3' ⟨rfl, -, hclose⟩
    exact matches_ok ⟨rfl, hclose⟩
  · exact someItems_matches (withItem_matches _ _) _ hcd _ _

theorem withBlock_matches (hsub : KeepsStmts o sub sub') (start : Position) (isAsync : Bool) {c d : Cursor}
    (hcd : Beside o true blocks depth c d) (h : c.size < n) (h' : d.size < n') :
    (withBlock sub start isAsync c h).Matches (withBlock sub' (o.motion.start start) isAsync d h')
      (o.Keeps false blocks depth (Stmt.moved o.motion)) := by
  refine Read.matches_bind (withItems_matches hcd) ?_
  rintro items c1 h1 _ d1 h1' ⟨rfl, hitems⟩
  refine Read.matches_bind (Read.matches_since (suite_matches hsub hitems _ _) h1 h1') ?_
  rintro body c2 h2 _ d2 h2' ⟨rfl, hbody⟩
  refine matches_ok ⟨?_, hbody⟩
  simp only [Stmt.moved, hbody.spanFrom, Stmt.movedList_eq]

/-! ## Definitions -/

theorem functionDef_matches (hsub : KeepsStmts o sub sub') (start : Position) (decorators : List Expr)
    (isAsync : Bool) {c d : Cursor} (hcd : Beside o true blocks depth c d) (h : c.size < n) (h' : d.size < n') :
    (functionDef sub start decorators isAsync c h).Matches
      (functionDef sub' (o.motion.start start) (decorators.map (Expr.moved o.motion)) isAsync d h')
      (o.Keeps false blocks depth (Stmt.moved o.motion)) := by
  refine Read.matches_bind hcd.expectName ?_
  rintro name c1 h1 _ d1 h1' ⟨rfl, hname⟩
  refine Read.matches_bind (Read.matches_since (hname.expect rfl) h1 h1') ?_
  rintro t c2 h2 _ d2 h2' ⟨rfl, -, hopen⟩
  refine Read.matches_bind
    (MayRead.matches_since (parameters_matches (keepsExprs_exprBelow o _ _) _ true hopen _ _) h2 h2') ?_
  rintro list c3 h3 _ d3 h3' ⟨rfl, hlist⟩
  refine Read.matches_bind (Read.matches_since (hlist.expect rfl) h3 h3') ?_
  rintro t' c4 h4 _ d4 h4' ⟨rfl, -, hclose⟩
  refine Read.matches_bind (MayRead.matches_since (singleAfter_matches rfl rfl .named hclose) h4 h4') ?_
  rintro returns c5 h5 _ d5 h5' ⟨rfl, hreturns⟩
  refine Read.matches_bind (Read.matches_since (suite_matches hsub hreturns _ _) h5 h5') ?_
  rintro body c6 h6 _ d6 h6' ⟨rfl, hbody⟩
  refine matches_ok ⟨?_, hbody⟩
  simp only [Stmt.moved, hbody.spanFrom, Stmt.movedList_eq]

theorem bases_matches {c d : Cursor} (hcd : Beside o true blocks depth c d) :
    (bases c).Matches (bases d) (o.Keeps true blocks depth (List.map (Expr.moved o.motion))) := by
  unfold bases
  rw [hcd.kind]
  split
  · exact Read.matches_moved (arguments_matches (keepsExprs_exprBelow o _ _) hcd _ _)
  · exact matches_ok ⟨rfl, hcd⟩

theorem classDef_matches (hsub : KeepsStmts o sub sub') (start : Position) (decorators : List Expr) {c d : Cursor}
    (hcd : Beside o true blocks depth c d) (h : c.size < n) (h' : d.size < n') :
    (classDef sub start decorators c h).Matches
      (classDef sub' (o.motion.start start) (decorators.map (Expr.moved o.motion)) d h')
      (o.Keeps false blocks depth (Stmt.moved o.motion)) := by
  refine Read.matches_bind hcd.expectName ?_
  rintro name c1 h1 _ d1 h1' ⟨rfl, hname⟩
  refine Read.matches_bind (MayRead.matches_since (bases_matches hname) h1 h1') ?_
  rintro parents c2 h2 _ d2 h2' ⟨rfl, hparents⟩
  refine Read.matches_bind (Read.matches_since (suite_matches hsub hparents _ _) h2 h2') ?_
  rintro body c3 h3 _ d3 h3' ⟨rfl, hbody⟩
  refine matches_ok ⟨?_, hbody⟩
  simp only [Stmt.moved, hbody.spanFrom, Stmt.movedList_eq]

/-- After decorators the streams are side by side if a token stands on the next line. -/
theorem decoratorLines_beside {begun : Bool} {c d : Cursor} (hcd : Beside o begun blocks depth c d)
    {a : Moved (List Expr) c} (ha : decoratorLines c = .ok a) (hno : a.next.kind.isLayout = false) :
    ∃ b, decoratorLines d = .ok b ∧
      o.Keeps true blocks depth (List.map (Expr.moved o.motion)) a.value a.next b.value b.next := by
  rw [decoratorLines] at ha ⊢
  cases hat : c.accept? (.op .atSign) with
  | none =>
    rw [hat] at ha
    obtain rfl := Except.ok.inj ha
    have hbegun : Beside o true blocks depth c d := hcd.begun hno
    cases hbegun.accept (.op .atSign) rfl with
    | none hc hd =>
      rw [hd]
      exact ⟨_, rfl, rfl, hbegun⟩
    | some _ hc _ _ =>
      rw [hat] at hc
      cases hc
  | some mark =>
    have hkind : c.kind.isLayout = false := by
      obtain ⟨ht, hpass⟩ := Cursor.accept?_passes hat
      rw [Cursor.kind, Cursor.token, hpass.rest]
      exact congrArg TokenKind.isLayout ht
    cases (hcd.begun hkind).accept (.op .atSign) rfl with
    | none hc _ =>
      rw [hat] at hc
      cases hc
    | @some t c1 d1 h1 h1' _ hc hd hmark =>
      rw [hc] at ha
      rw [hd]
      obtain ⟨⟨e, c2, h2⟩, he, ha⟩ := exists_of_bind_ok ha
      obtain ⟨⟨t', c3, h3⟩, hline, ha⟩ := exists_of_bind_ok ha
      obtain ⟨⟨es, c4, h4⟩, hes, ha⟩ := exists_of_bind_ok ha
      obtain rfl := Except.ok.inj ha
      obtain ⟨⟨_, d2, h2'⟩, he', rfl, hexpr⟩ := Read.matches_since (expr_matches .named hmark) h1 h1' _ he
      obtain ⟨⟨u', d3, h3'⟩, hline', hbelow⟩ := Read.matches_since hexpr.expectNewline h2 h2' _ hline
      obtain ⟨_, hes⟩ := MayRead.exists_of_since hes
      obtain ⟨⟨_, d4, h4'⟩, hes', rfl, hnext⟩ := decoratorLines_beside hbelow hes hno
      exact ⟨_, bind_of_ok he' (bind_of_ok hline' (bind_of_ok (MayRead.since_of_ok hes' h3') rfl)), rfl, hnext⟩
termination_by c.size

/-- What is decorated begins with a token. -/
theorem decorated_begins {decorators : List Expr} {c : Cursor} {h : c.size ≤ n} {a : Advanced Stmt c}
    (ha : decorated sub decorators c h = .ok a) : c.kind.isLayout = false := by
  unfold decorated at ha
  split at ha
  · cases ha
  · rename_i hc
    rw [kind_of_next? hc]
    split at ha
    case h_1 hkind | h_2 hkind | h_3 hkind =>
      rw [hkind]
      rfl
    case h_4 => cases ha

theorem decorated_matches (hsub : KeepsStmts o sub sub') (decorators : List Expr) {c d : Cursor}
    (hcd : Beside o true blocks depth c d) (h : c.size ≤ n) (h' : d.size ≤ n') :
    (decorated sub decorators c h).Matches (decorated sub' (decorators.map (Expr.moved o.motion)) d h')
      (o.Keeps false blocks depth (Stmt.moved o.motion)) := by
  unfold decorated
  cases hcd.next with
  | newline ht hc _ _ =>
    rw [hc]
    simp only [ht]
    exact matches_error _ _ _
  | @token t c1 d1 h1 h1' _ _ hc hd hnext =>
    have hsame : (t.moved o.motion).kind = t.kind := rfl
    rw [hc, hd]
    dsimp only
    rw [hsame]
    split
    case h_1 hkind =>
      rw [hkind] at hnext
      exact Read.matches_since (functionDef_matches hsub t.span.start decorators false hnext _ _) h1 h1'
    case h_2 hkind =>
      rw [hkind] at hnext
      exact Read.matches_since (classDef_matches hsub t.span.start decorators hnext _ _) h1 h1'
    case h_3 hkind =>
      rw [hkind] at hnext
      refine Read.matches_bind (Read.matches_since (hnext.expect rfl) h1 h1') ?_
      rintro t' c2 h2 _ d2 h2' ⟨rfl, -, hdef⟩
      exact Read.matches_since (functionDef_matches hsub t.span.start decorators true hdef _ _) h2 h2'
    case h_4 => exact matches_error _ _ _

theorem decoratedStmt_matches (hsub : KeepsStmts o sub sub') {c d : Cursor} (hcd : Beside o true blocks depth c d)
    (h : c.size ≤ n) (h' : d.size ≤ n') : (decoratedStmt sub c h).Matches (decoratedStmt sub' d h')
      (o.Keeps false blocks depth (Stmt.moved o.motion)) := by
  intro s hs
  obtain ⟨⟨decorators, c1, h1⟩, hdecorators, hs⟩ := exists_of_bind_ok hs
  have hno : c1.kind.isLayout = false := by
    change (decorated sub decorators c1 (upTo_of_le h1 h)).from h1 = .ok s at hs
    cases hdecorated : decorated sub decorators c1 (upTo_of_le h1 h) with
    | error e =>
      rw [hdecorated] at hs
      exact absurd hs nofun
    | ok s' => exact decorated_begins hdecorated
  obtain ⟨⟨_, d1, h1'⟩, hdecorators', rfl, hnext⟩ := decoratorLines_beside hcd hdecorators hno
  obtain ⟨s', hs', hkeeps⟩ := Read.matches_from (decorated_matches hsub decorators hnext _ _) h1 h1' s hs
  exact ⟨s', bind_of_ok hdecorators' hs', hkeeps⟩

theorem asyncStmt_matches (hsub : KeepsStmts o sub sub') (hfresh : o.Fresh) (start : Position) {c d : Cursor}
    (hcd : Beside o true blocks depth c d) (h : c.size < n) (h' : d.size < n') :
    (asyncStmt sub start c h).Matches (asyncStmt sub' (o.motion.start start) d h')
      (o.Keeps false blocks depth (Stmt.moved o.motion)) := by
  unfold asyncStmt
  cases hcd.next with
  | newline ht hc _ _ =>
    rw [hc]
    simp only [ht]
    exact matches_error _ _ _
  | @token t c1 d1 h1 h1' _ _ hc hd hnext =>
    have hsame : (t.moved o.motion).kind = t.kind := rfl
    rw [hc, hd]
    dsimp only
    rw [hsame]
    split
    case h_1 hkind =>
      rw [hkind] at hnext
      exact Read.matches_since (functionDef_matches hsub start [] true hnext _ _) h1 h1'
    case h_2 hkind =>
      rw [hkind] at hnext
      exact Read.matches_since (forLoop_matches hsub hfresh start true hnext _ _) h1 h1'
    case h_3 hkind =>
      rw [hkind] at hnext
      exact Read.matches_since (withBlock_matches hsub start true hnext _ _) h1 h1'
    case h_4 => exact matches_error _ _ _

/-! ## Statements with suites -/

/-- What statements with suites are read after the same token of two streams. -/
inductive CompoundBeside (o : Outlook) {n n' : Nat} (sub : StmtsBelow n) (sub' : StmtsBelow n') (blocks depth : Nat)
    (t : Token) (c d : Cursor) (h : c.size < n) (h' : d.size < n') : Prop
  | none : compound? sub t c h = none → compound? sub' (t.moved o.motion) d h' = none →
      CompoundBeside o sub sub' blocks depth t c d h h'
  | some {r : Read Stmt c} {r' : Read Stmt d} : compound? sub t c h = some r →
      compound? sub' (t.moved o.motion) d h' = some r' →
      r.Matches r' (o.Keeps false blocks depth (Stmt.moved o.motion)) →
      CompoundBeside o sub sub' blocks depth t c d h h'

theorem compound_beside (hsub : KeepsStmts o sub sub') (hfresh : o.Fresh) (t : Token) {c d : Cursor}
    (hcd : Beside o true blocks (depthAfter depth t.kind) c d) (h : c.size < n) (h' : d.size < n') :
    CompoundBeside o sub sub' blocks depth t c d h h' := by
  obtain ⟨kind, text, span⟩ := t
  cases kind with
  | word word =>
    cases word with
    | kwIf => exact .some rfl rfl (branch_matches hsub hfresh _ hcd _ _)
    | kwWhile => exact .some rfl rfl (whileLoop_matches hsub hfresh _ hcd _ _)
    | kwFor => exact .some rfl rfl (forLoop_matches hsub hfresh _ false hcd _ _)
    | kwTry => exact .some rfl rfl (tryBlock_matches hsub hfresh _ hcd _ _)
    | kwWith => exact .some rfl rfl (withBlock_matches hsub _ false hcd _ _)
    | kwDef => exact .some rfl rfl (functionDef_matches hsub _ [] false hcd _ _)
    | kwClass => exact .some rfl rfl (classDef_matches hsub _ [] hcd _ _)
    | kwAsync => exact .some rfl rfl (asyncStmt_matches hsub hfresh _ hcd _ _)
    | _ => exact .none rfl rfl
  | _ => exact .none rfl rfl

theorem stmtsWith_matches (hsub : KeepsStmts o sub sub') (hfresh : o.Fresh) {c d : Cursor}
    (hcd : Beside o true blocks depth c d) (h : c.size ≤ n) (h' : d.size ≤ n') :
    (stmtsWith sub c h).Matches (stmtsWith sub' d h')
      (o.Keeps false blocks depth (List.map (Stmt.moved o.motion))) := by
  unfold stmtsWith
  cases hcd.next with
  | newline ht hc hd _ =>
    have hnone {n : Nat} {sub : StmtsBelow n} {t : Token} {e : Cursor} {h : e.size < n} (ht : t.kind = .newline) :
        compound? sub t e h = none := by
      unfold compound?
      rw [ht]
    have ht' : (Token.moved o.motion _).kind = .newline := ht
    rw [hc, hd]
    dsimp only
    rw [if_neg (by rw [ht]; nofun), if_neg (by rw [ht']; nofun), hnone ht, hnone ht']
    exact simpleLine_matches hcd
  | @token t c1 d1 h1 h1' _ _ hc hd hnext =>
    have hsame : (t.moved o.motion).kind = t.kind := rfl
    rw [hc, hd]
    dsimp only
    rw [hsame]
    split
    · refine Read.matches_bind (decoratedStmt_matches hsub hcd _ _) ?_
      rintro s c2 h2 _ d2 h2' ⟨rfl, hs⟩
      exact matches_ok ⟨rfl, hs⟩
    · cases compound_beside hsub hfresh t hnext (below_upTo h1 h) (below_upTo h1' h') with
      | none hword hword' =>
        rw [hword, hword']
        exact simpleLine_matches hcd
      | some hword hword' hmatches =>
        rw [hword, hword']
        refine Read.matches_bind (Read.matches_since hmatches h1 h1') ?_
        rintro s c2 h2 _ d2 h2' ⟨rfl, hs⟩
        exact matches_ok ⟨rfl, hs⟩

theorem stmts_matches {blocks depth : Nat} (hfresh : o.Fresh) {c d : Cursor} (hcd : Beside o true blocks depth c d) :
    (stmts c).Matches (stmts d) (o.Keeps false blocks depth (List.map (Stmt.moved o.motion))) := by
  have hsub : KeepsStmts o (fun c' (_ : c'.size < c.size) => stmts c') fun d' (_ : d'.size < d.size) => stmts d' :=
    fun _ _ hcd' => stmts_matches hfresh hcd'
  rw [stmts, stmts]
  exact stmtsWith_matches hsub hfresh hcd _ _
termination_by c.size

/-! ## Modules -/

theorem moduleStmts_of_ended {c : Cursor} (hkind : c.kind = .endOfInput) :
    moduleStmts c = .ok (.here [] c) := by
  rw [moduleStmts, hkind]

theorem moduleStmts_of_token {c : Cursor} (hno : c.kind.isLayout = false) : moduleStmts c = (do
    let ⟨ss, c1, h1⟩ ← stmts c
    let ⟨rest, c2, h2⟩ ← (moduleStmts c1).since h1
    return .past (ss ++ rest) c2 h2) := by
  rw [moduleStmts]
  split
  case h_1 hkind | h_2 hkind | h_3 hkind =>
    rw [hkind] at hno
    cases hno
  case h_4 => rfl

/-- A module is read on the second stream as on the first, and what that has further is read after it. -/
theorem moduleStmts_matches (hfresh : o.Fresh) (htail : ∀ p, ∃ e, moduleStmts ⟨o.tail, o.stop, p⟩ = .ok e)
    {c d : Cursor} (hcd : Beside o false 0 depth c d) :
    (moduleStmts c).Matches (moduleStmts d) fun ss c1 ss' d1 => depth = o.depth ∧
      ∃ e, moduleStmts ⟨o.tail, o.stop, o.motion.stop c1.lastEnd⟩ = .ok e ∧
        ss' = ss.map (Stmt.moved o.motion) ++ e.value ∧ d1 = e.next := by
  cases hcd.line with
  | ended _ hdepth hc hd =>
    obtain ⟨e, he⟩ := htail (o.motion.stop c.lastEnd)
    have hdcur : d = ⟨o.tail, o.stop, o.motion.stop c.lastEnd⟩ := by
      obtain ⟨rest, last, lastEnd⟩ := d
      obtain rfl : rest = o.tail := hd
      obtain rfl : last = o.stop := hcd.last
      obtain rfl : lastEnd = _ := hcd.lastEnd
      rfl
    subst hdcur
    rw [moduleStmts_of_ended (hcd.kind_of_ended hc), he]
    exact matches_ok ⟨hdepth, e, he, rfl, rfl⟩
  | opened ht _ hc _ _ =>
    rw [moduleStmts, kind_of_next? hc, ht]
    exact matches_error _ _ _
  | closed hblocks => exact absurd hblocks nofun
  | token hno hbegun =>
    rw [moduleStmts_of_token hno, moduleStmts_of_token (hbegun.kind ▸ hno)]
    refine Read.matches_bind (stmts_matches hfresh hbegun) ?_
    rintro ss c1 h1 _ d1 h1' ⟨rfl, hss⟩
    refine Read.matches_bind (MayRead.matches_since (moduleStmts_matches hfresh htail hss) h1 h1') ?_
    rintro rest c2 h2 _ d2 h2' ⟨hdepth, e, he, rfl, rfl⟩
    refine matches_ok ⟨hdepth, e, he, ?_, rfl⟩
    dsimp only [Moved.past]
    rw [List.map_append, List.append_assoc]
termination_by c.size

/-! ## First words -/

theorem cases_of_continues {kind : TokenKind} (h : continues kind = true) :
    kind = .word .kwElif ∨ kind = .word .kwElse ∨ kind = .word .kwExcept ∨ kind = .word .kwFinally := by
  unfold continues at h
  split at h <;> simp_all

/-- Nothing begins with a word that goes on with a statement. -/
def Begins {α : Type} {c : Cursor} (r : Read α c) : Prop := r.Gives fun _ _ => continues c.kind = false

theorem begins_of_next {α : Type} {c c1 : Cursor} {t : Token} {h : c1.size < c.size} {r : Read α c}
    (hnext : c.next? = some ⟨t, c1, h⟩) (hr : continues t.kind = true → ∃ e, r = .error e) : Begins r := by
  intro a ha
  cases hkind : continues c.kind with
  | false => rfl
  | true =>
    rw [kind_of_next? hnext] at hkind
    obtain ⟨e, he⟩ := hr hkind
    exact absurd (ha.symm.trans he) nofun

theorem begins_bind {α β : Type} {c : Cursor} {r : Read α c} (hr : Begins r) (f : Advanced α c → Read β c) :
    Begins (r >>= f : Read β c) := Read.gives_bind hr fun _ _ _ hc _ _ => hc

theorem operand_begins {c : Cursor} (h : c.size ≤ n) (sub : Below n) : Begins (operand sub c h) := by
  unfold operand
  split
  · exact gives_unexpected c
  · rename_i t c1 h1 hnext
    refine begins_of_next hnext fun hkind => ?_
    rcases cases_of_continues hkind with hkind | hkind | hkind | hkind <;>
      exact ⟨_, by simp only [operandAfter, hkind, UnaryOp.ofToken?]; rfl⟩

theorem expr_begins (level : Power) (c : Cursor) : Begins (expr level c) := by
  rw [expr]
  exact begins_bind (operand_begins _ _) _

theorem simpleStmt_begins (c : Cursor) : Begins (simpleStmt c) := by
  have hexpr : Begins (exprStmt c) := begins_bind (begins_bind (expr_begins _ _) _) _
  unfold simpleStmt
  split
  · exact hexpr
  · rename_i t c1 h1 hnext
    split
    · rename_i read hread
      refine begins_of_next hnext fun hkind => ?_
      rcases cases_of_continues hkind with hkind | hkind | hkind | hkind <;>
        simp only [wordStmt?, hkind] at hread <;> cases hread
    · exact hexpr

theorem stmts_begins (c : Cursor) : Begins (stmts c) := by
  have hline : Begins (simpleLine c) := begins_bind (simpleStmt_begins c) _
  rw [stmts]
  unfold stmtsWith
  split
  · exact hline
  · rename_i t c1 h1 hnext
    dsimp only
    split
    · rename_i hat
      refine begins_of_next hnext fun hkind => ?_
      rw [hat] at hkind
      cases hkind
    · split
      · rename_i read hread
        refine begins_of_next hnext fun hkind => ?_
        rcases cases_of_continues hkind with hkind | hkind | hkind | hkind <;>
          simp only [compound?, hkind] at hread <;> cases hread
      · exact hline

/-- A module does not begin with a word that goes on with a statement, nor with a deeper line. -/
theorem moduleStmts_begins {c : Cursor} {a : Moved (List Stmt) c} (ha : moduleStmts c = .ok a) :
    continues c.kind = false ∧ c.kind ≠ .indent := by
  rw [moduleStmts] at ha
  split at ha
  case h_1 hkind | h_3 hkind => exact ⟨by rw [hkind]; rfl, by rw [hkind]; rintro ⟨⟩⟩
  case h_2 => cases ha
  case h_4 hindent _ =>
    obtain ⟨b, hb, -⟩ := exists_of_bind_ok ha
    exact ⟨stmts_begins c b hb, hindent⟩

end TypeWatch.Reading
