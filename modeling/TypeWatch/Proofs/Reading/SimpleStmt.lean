import TypeWatch.Proofs.Reading.Expr
import TypeWatch.Proofs.Syntax.Region
import TypeWatch.Reading.SimpleStmt

/-! # Readers of lines

The statements of a line have no suites, they begin one after the other, and after them a line begins
(`simpleLine_gives`). -/
namespace TypeWatch.Reading
set_option autoImplicit false

/-! ## Imports -/

theorem dottedRest_gives (text : String) (c : Cursor) : (dottedRest text c).Gives fun _ d => Reaches c d := by
  rw [dottedRest]
  split
  · exact gives_ok (.refl c)
  · rename_i t c1 h1 hdot
    have hpass := (Cursor.accept?_passes hdot).2.reaches
    refine Read.gives_bind (Read.gives_since c1.expectName_gives h1) ?_
    intro name c2 h2 hname
    refine Read.gives_bind (MayRead.gives_since (dottedRest_gives _ c2) h2) ?_
    intro whole d h3 hwhole
    exact gives_ok ((hpass.trans hname).trans hwhole)
termination_by c.size

theorem dottedName_gives (c : Cursor) : (dottedName c).Gives fun _ d => Reaches c d := by
  refine Read.gives_bind c.expectName_gives ?_
  intro name c1 h1 hname
  refine Read.gives_imp (MayRead.gives_since (dottedRest_gives name c1) h1) ?_
  intro a ha
  exact hname.trans ha

theorem givenName_gives (c : Cursor) : (givenName c).Gives fun _ d => Reaches c d := by
  unfold givenName
  split
  · exact gives_ok (.refl c)
  · rename_i t c1 h1 has
    have hpass := (Cursor.accept?_passes has).2.reaches
    refine Read.gives_bind (Read.gives_since c1.expectName_gives h1) ?_
    intro name d h2 hname
    exact gives_ok (hpass.trans hname)

theorem importedModule_gives {n : Nat} (c : Cursor) (h : c.size < n) :
    (importedModule c h).Gives fun _ d => Reaches c d := by
  refine Read.gives_bind (dottedName_gives c) ?_
  intro name c1 h1 hname
  refine Read.gives_bind (MayRead.gives_since (givenName_gives c1) h1) ?_
  intro given d h2 hgiven
  exact gives_ok (hname.trans hgiven)

theorem importedName_gives {n : Nat} (c : Cursor) (h : c.size < n) :
    (importedName c h).Gives fun _ d => Reaches c d := by
  refine Read.gives_bind c.expectName_gives ?_
  intro name c1 h1 hname
  refine Read.gives_bind (MayRead.gives_since (givenName_gives c1) h1) ?_
  intro given d h2 hgiven
  exact gives_ok (hname.trans hgiven)

theorem leadingDots_reaches (text : String) (c : Cursor) : Reaches c (leadingDots text c).next := by
  rw [leadingDots]
  split
  · rename_i t c1 h1 hdot
    have hpass := (Cursor.accept?_passes hdot).2.reaches
    exact hpass.trans (leadingDots_reaches _ c1)
  · split
    · rename_i t c1 h1 hdots
      have hpass := (Cursor.accept?_passes hdots).2.reaches
      exact hpass.trans (leadingDots_reaches _ c1)
    · exact .refl c
termination_by c.size

theorem origin_gives (c : Cursor) : (origin c).Gives fun _ d => Reaches c d := by
  have hdots := leadingDots_reaches "" c
  unfold origin
  generalize leadingDots "" c = dots at hdots ⊢
  obtain ⟨text, c1, h1⟩ := dots
  dsimp only
  split
  · refine Read.gives_bind (Read.gives_from (dottedName_gives c1) h1) ?_
    intro name d h2 hname
    exact gives_ok (hdots.trans hname)
  · split
    · exact gives_unexpected c1
    · exact gives_ok hdots

theorem someNames_gives (ends : TokenKind → Bool) {n : Nat} (c : Cursor) (h : c.size < n) :
    (someItems importedName ends c h).Gives fun _ d => Reaches c d := by
  have hchain := someItems_gives importedName_gives ends c h
  exact fun a ha => (hchain a ha).reaches id

theorem takenNames_gives (c : Cursor) : (takenNames c).Gives fun _ d => Reaches c d := by
  unfold takenNames
  split
  · rename_i t c1 h1 hstar
    exact gives_ok (Cursor.accept?_passes hstar).2.reaches
  · split
    · exact someNames_gives _ c c.size_below
    · rename_i t c1 h1 hopen
      have hpass := (Cursor.accept?_passes hopen).2.reaches
      refine Read.gives_bind (Read.gives_since (someNames_gives _ c1 c1.size_below) h1) ?_
      intro names c2 h2 hnames
      refine Read.gives_bind (Read.gives_since (c2.expect_gives _) h2) ?_
      intro t' d h3 hclose
      exact gives_ok ((hpass.trans hnames).trans hclose.2.reaches)

/-! ## Statements after a first word -/

/-- A statement without suites that begins with a token before its reader. -/
structure SimpleFrom (start : Position) (c : Cursor) (s : Stmt) (d : Cursor) : Prop where
  reaches : Reaches c d
  start_eq : s.span.start = start
  simple : s.IsSimple

theorem importModules_gives (start : Position) (c : Cursor) :
    (importModules start c).Gives (SimpleFrom start c) := by
  have hchain := someItems_gives importedModule_gives (fun _ => false) c c.size_below
  refine Read.gives_bind hchain ?_
  intro names d h1 hnames
  exact gives_ok ⟨hnames.reaches id, rfl, rfl, rfl⟩

theorem importNames_gives (start : Position) (c : Cursor) :
    (importNames start c).Gives (SimpleFrom start c) := by
  refine MayRead.gives_bind (origin_gives c) ?_
  intro module c1 h1 horigin
  refine Read.gives_bind (Read.gives_from (c1.expect_gives _) h1) ?_
  intro t c2 h2 himport
  refine Read.gives_bind (Read.gives_since (takenNames_gives c2) h2) ?_
  intro names d h3 hnames
  exact gives_ok ⟨(horigin.trans himport.2.reaches).trans hnames, rfl, rfl, rfl⟩

theorem several_gives (level : Power) (c : Cursor) :
    (several level c).Gives fun e d => Reads c e.span.start d :=
  exprList_gives (readsExprs_exprBelow _) level c c.size_below

theorem several_reaches (level : Power) (c : Cursor) : (several level c).Gives fun _ d => Reaches c d :=
  fun a ha => (several_gives level c a ha).reaches

/-- The first token of some expressions is no layout. -/
theorem several_position (level : Power) (c : Cursor) :
    (several level c).Gives fun _ d => Reads c c.position d := by
  have hsub := readsExprs_exprBelow (c.size + 1)
  refine Read.gives_bind (expr_position level c) ?_
  intro first c1 h1 hfirst
  dsimp only
  split
  · refine Read.gives_bind (MayRead.gives_since (followers_reaches hsub level _ c1 _) h1) ?_
    intro others d h2 hothers
    exact gives_ok (hfirst.reaching hothers)
  · exact gives_ok hfirst

theorem singleAfter_gives (mark : TokenKind) (level : Power) (c : Cursor) :
    (singleAfter mark level c).Gives fun _ d => Reaches c d :=
  exprAfter_gives (readsExprs_exprBelow _) mark level c c.size_below

theorem severalAfter_gives (mark : TokenKind) (c : Cursor) :
    (severalAfter mark c).Gives fun _ d => Reaches c d := by
  unfold severalAfter
  split
  · exact gives_ok (.refl c)
  · rename_i t c1 h1 hmark
    have hpass := (Cursor.accept?_passes hmark).2.reaches
    refine Read.gives_bind (Read.gives_since (several_reaches .least c1) h1) ?_
    intro e d h2 he
    exact gives_ok (hpass.trans he)

theorem returnStmt_gives (start : Position) (c : Cursor) :
    (returnStmt start c).Gives (SimpleFrom start c) := by
  unfold returnStmt
  split
  · refine Read.gives_bind (several_reaches .least c) ?_
    intro e d h1 he
    exact gives_ok ⟨he, rfl, rfl, rfl⟩
  · exact gives_ok ⟨.refl c, rfl, rfl, rfl⟩

theorem raiseStmt_gives (start : Position) (c : Cursor) :
    (raiseStmt start c).Gives (SimpleFrom start c) := by
  unfold raiseStmt
  split
  · refine Read.gives_bind (expr_gives .named c) ?_
    intro e c1 h1 he
    refine Read.gives_bind (MayRead.gives_since (singleAfter_gives _ .named c1) h1) ?_
    intro cause d h2 hcause
    exact gives_ok ⟨he.reaches.trans hcause, rfl, rfl, rfl⟩
  · exact gives_ok ⟨.refl c, rfl, rfl, rfl⟩

theorem outerStmt_gives (start : Position) (isNonlocal : Bool) (c : Cursor) :
    (outerStmt start isNonlocal c).Gives (SimpleFrom start c) := by
  have hname : ∀ (c' : Cursor) (_ : c'.size < c.size + 1), c'.expectName.Gives fun _ d => Reaches c' d :=
    fun c' _ => c'.expectName_gives
  have hchain := someItems_gives hname (fun _ => false) c c.size_below
  refine Read.gives_bind hchain ?_
  intro names d h1 hnames
  exact gives_ok ⟨hnames.reaches id, rfl, rfl, rfl⟩

theorem deletedTarget_gives {n : Nat} (c : Cursor) (h : c.size < n) :
    (deletedTarget c h).Gives fun _ d => Reaches c d := by
  refine Read.gives_bind (expr_gives .comparison c) ?_
  intro e d h1 he
  exact gives_bind_check fun _ => gives_ok he.reaches

theorem deleteStmt_gives (start : Position) (c : Cursor) :
    (deleteStmt start c).Gives (SimpleFrom start c) := by
  have hchain := someItems_gives deletedTarget_gives (fun k => !opensExpr k) c c.size_below
  refine Read.gives_bind hchain ?_
  intro targets d h1 htargets
  exact gives_ok ⟨htargets.reaches id, rfl, rfl, rfl⟩

theorem assertStmt_gives (start : Position) (c : Cursor) :
    (assertStmt start c).Gives (SimpleFrom start c) := by
  refine Read.gives_bind (expr_gives .named c) ?_
  intro test c1 h1 htest
  refine Read.gives_bind (MayRead.gives_since (singleAfter_gives _ .named c1) h1) ?_
  intro message d h2 hmessage
  exact gives_ok ⟨htest.reaches.trans hmessage, rfl, rfl, rfl⟩

/-- A statement begins with its first word. -/
theorem wordStmt?_gives {t : Token} {c : Cursor} {r : MayRead Stmt c} (h : wordStmt? t c = some r) :
    t.kind.isLayout = false ∧ r.Gives (SimpleFrom t.span.start c) := by
  unfold wordStmt? at h
  dsimp only at h
  split at h
  case h_1 hkind =>
    obtain rfl := Option.some.inj h
    exact ⟨by rw [hkind]; rfl, gives_ok ⟨.refl c, rfl, rfl, rfl⟩⟩
  case h_2 hkind =>
    obtain rfl := Option.some.inj h
    exact ⟨by rw [hkind]; rfl, gives_ok ⟨.refl c, rfl, rfl, rfl⟩⟩
  case h_3 hkind =>
    obtain rfl := Option.some.inj h
    exact ⟨by rw [hkind]; rfl, gives_ok ⟨.refl c, rfl, rfl, rfl⟩⟩
  case h_4 hkind =>
    obtain rfl := Option.some.inj h
    exact ⟨by rw [hkind]; rfl, returnStmt_gives _ c⟩
  case h_5 hkind =>
    obtain rfl := Option.some.inj h
    exact ⟨by rw [hkind]; rfl, raiseStmt_gives _ c⟩
  case h_6 hkind =>
    obtain rfl := Option.some.inj h
    exact ⟨by rw [hkind]; rfl, Read.gives_moved (outerStmt_gives _ _ c)⟩
  case h_7 hkind =>
    obtain rfl := Option.some.inj h
    exact ⟨by rw [hkind]; rfl, Read.gives_moved (outerStmt_gives _ _ c)⟩
  case h_8 hkind =>
    obtain rfl := Option.some.inj h
    exact ⟨by rw [hkind]; rfl, Read.gives_moved (deleteStmt_gives _ c)⟩
  case h_9 hkind =>
    obtain rfl := Option.some.inj h
    exact ⟨by rw [hkind]; rfl, Read.gives_moved (assertStmt_gives _ c)⟩
  case h_10 hkind =>
    obtain rfl := Option.some.inj h
    exact ⟨by rw [hkind]; rfl, Read.gives_moved (importModules_gives _ c)⟩
  case h_11 hkind =>
    obtain rfl := Option.some.inj h
    exact ⟨by rw [hkind]; rfl, Read.gives_moved (importNames_gives _ c)⟩
  case h_12 => exact absurd h nofun

/-! ## Expressions and assignments -/

theorem assigned_gives (c : Cursor) : (assigned c).Gives fun _ d => Reaches c d := by
  rw [assigned]
  split
  · exact gives_ok (.refl c)
  · rename_i t c1 h1 hassign
    have hpass := (Cursor.accept?_passes hassign).2.reaches
    refine Read.gives_bind (Read.gives_since (several_reaches .least c1) h1) ?_
    intro e c2 h2 he
    refine Read.gives_bind (MayRead.gives_since (assigned_gives c2) h2) ?_
    intro es d h3 hes
    exact gives_ok ((hpass.trans he).trans hes)
termination_by c.size

theorem annotatedTarget_gives (start : Position) (target : Expr) (c : Cursor) :
    (annotatedTarget start target c).Gives (SimpleFrom start c) := by
  refine gives_bind_check fun _ => ?_
  refine Read.gives_bind (expr_gives .named c) ?_
  intro hint c1 h1 hhint
  refine Read.gives_bind (MayRead.gives_since (severalAfter_gives _ c1) h1) ?_
  intro value d h2 hvalue
  exact gives_ok ⟨hhint.reaches.trans hvalue, rfl, rfl, rfl⟩

theorem augmentedTarget_gives (start : Position) (target : Expr) (op : BinaryOp) (c : Cursor) :
    (augmentedTarget start target op c).Gives (SimpleFrom start c) := by
  refine Read.gives_bind (several_reaches .least c) ?_
  intro value d h1 hvalue
  exact gives_ok ⟨hvalue, rfl, rfl, rfl⟩

theorem SimpleFrom.after {start : Position} {c c1 d : Cursor} {s : Stmt} (h : Reaches c c1)
    (h' : SimpleFrom start c1 s d) : SimpleFrom start c s d :=
  ⟨h.trans h'.reaches, h'.start_eq, h'.simple⟩

/-- A statement that begins with an expression has the place of the expression, or begins where its reader
does. -/
theorem stmtAfter_gives (start : Position) (first : Expr) (c : Cursor) :
    (stmtAfter start first c).Gives fun s d =>
      SimpleFrom start c s d ∨ SimpleFrom first.span.start c s d := by
  have hexpression : SimpleFrom first.span.start c (.expression first.span first) c :=
    ⟨.refl c, rfl, rfl, rfl⟩
  unfold stmtAfter
  split
  · exact gives_ok (Or.inr hexpression)
  · rename_i t c1 h1 hnext
    have hpass := (Cursor.next?_passes hnext).reaches
    split
    · refine MayRead.gives_imp (Read.gives_moved (Read.gives_since (annotatedTarget_gives start first c1) h1)) ?_
      intro a ha
      exact Or.inl (.after hpass ha)
    · refine MayRead.gives_bind (assigned_gives c) ?_
      intro others c2 h2 hothers
      dsimp only
      split
      · exact gives_unexpected c2
      · refine gives_bind_check fun _ => ?_
        exact gives_ok (Or.inl ⟨hothers, rfl, rfl, rfl⟩)
    · split
      · rename_i op _
        refine gives_bind_check fun _ => ?_
        refine MayRead.gives_imp
          (Read.gives_moved (Read.gives_since (augmentedTarget_gives start first op c1) h1)) ?_
        intro a ha
        exact Or.inl (.after hpass ha)
      · exact gives_ok (Or.inr hexpression)

/-! ## Lines -/

/-- What is said of a reader of one statement without suites. -/
def ReadsSimple (c : Cursor) (s : Stmt) (d : Cursor) : Prop := Reads c s.span.start d ∧ s.IsSimple

theorem SimpleFrom.reads {start : Position} {c c1 d : Cursor} {s : Stmt} (h : Reads c start c1)
    (h' : SimpleFrom start c1 s d) : ReadsSimple c s d := by
  refine ⟨?_, h'.simple⟩
  rw [h'.start_eq]
  exact h.reaching h'.reaches

theorem exprStmt_gives (c : Cursor) : (exprStmt c).Gives (ReadsSimple c) := by
  have hboth : (several .least c).Gives fun e d => Reads c c.position d ∧ Reads c e.span.start d :=
    fun a ha => ⟨several_position .least c a ha, several_gives .least c a ha⟩
  refine Read.gives_bind hboth ?_
  intro first c1 h1 hfirst
  refine Read.gives_imp (MayRead.gives_since (stmtAfter_gives _ first c1) h1) ?_
  intro a ha
  rcases ha with ha | ha
  · exact ha.reads hfirst.1
  · exact ha.reads hfirst.2

theorem simpleStmt_gives (c : Cursor) : (simpleStmt c).Gives (ReadsSimple c) := by
  unfold simpleStmt
  split
  · exact exprStmt_gives c
  · rename_i t c1 h1 hnext
    have hpass := Cursor.next?_passes hnext
    split
    · rename_i r hr
      obtain ⟨hno, hgives⟩ := wordStmt?_gives hr
      refine Read.gives_imp (MayRead.gives_since hgives h1) ?_
      intro a ha
      exact ha.reads (hpass.reads hno)
    · exact exprStmt_gives c

/-- Statements without suites that are read one after the other. -/
structure ReadsLine (c : Cursor) (ss : List Stmt) (d : Cursor) : Prop where
  all : ReadsAll c (ss.map fun s => s.span.start) d
  simple : ∀ s ∈ ss, s.IsSimple

theorem ReadsSimple.cons {c c1 d : Cursor} {s : Stmt} {ss : List Stmt} (h : ReadsSimple c s c1)
    (h' : ReadsLine c1 ss d) : ReadsLine c (s :: ss) d := by
  refine ⟨h.1.all.append h'.all, ?_⟩
  intro t ht
  rcases List.mem_cons.mp ht with rfl | ht
  · exact h.2
  · exact h'.simple t ht

theorem ReadsLine.after {c c1 d : Cursor} {ss : List Stmt} (h : Reaches c c1) (h' : ReadsLine c1 ss d) :
    ReadsLine c ss d := ⟨(ReadsAll.nil h).append h'.all, h'.simple⟩

theorem moreSimple_gives (c : Cursor) : (moreSimple c).Gives (ReadsLine c) := by
  rw [moreSimple]
  split
  · exact gives_ok ⟨.nil (.refl c), List.forall_mem_nil _⟩
  · rename_i t c1 h1 hsemicolon
    have hpass := (Cursor.accept?_passes hsemicolon).2.reaches
    split
    · exact gives_ok ⟨.nil hpass, List.forall_mem_nil _⟩
    · refine Read.gives_bind (Read.gives_since (simpleStmt_gives c1) h1) ?_
      intro s c2 h2 hs
      refine Read.gives_bind (MayRead.gives_since (moreSimple_gives c2) h2) ?_
      intro ss d h3 hss
      exact gives_ok (.after hpass (hs.cons hss))
termination_by c.size

/-- After the statements of a line a line begins. -/
theorem simpleLine_gives (c : Cursor) :
    (simpleLine c).Gives fun ss d => ReadsLine c ss d ∧ (c.Sound → d.AtLineStart) := by
  refine Read.gives_bind (simpleStmt_gives c) ?_
  intro s c1 h1 hs
  refine Read.gives_bind (MayRead.gives_since (moreSimple_gives c1) h1) ?_
  intro ss c2 h2 hss
  refine Read.gives_bind (Read.gives_since (c2.expect_gives .newline) h2) ?_
  intro t d h3 hnewline
  have hline := hs.cons hss
  have hall := hline.all.append (.nil hnewline.2.reaches)
  rw [List.append_nil] at hall
  refine gives_ok ⟨⟨hall, hline.simple⟩, fun hc => ?_⟩
  exact hnewline.2.atLineStart (hline.all.reaches.sound hc) hnewline.1

end TypeWatch.Reading
