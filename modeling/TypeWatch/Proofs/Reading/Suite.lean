import TypeWatch.Proofs.Reading.SimpleStmt
import TypeWatch.Reading.Suite

/-! # Readers of suites

The statements of a suite are read in their order, and a function that is read among them ends on a line
before whatever follows it (`ReadsStmts`). This holds because a suite ends where a line begins. The
functions of a module are orderly then (`ofText_fits`). -/
namespace TypeWatch.Reading
set_option autoImplicit false

/-! ## Statements between two places -/

/-- A place that is reached by reading statements, of which those that belong together are given. -/
structure ReadsStmts (c : Cursor) (own : List Stmt) (d : Cursor) : Prop where
  all : ReadsAll c (own.map fun s => s.span.start) d
  within : c.Sound → ∀ s ∈ own, ∀ f, s.function? = some f → f.last ≤ d.lastEnd.line
  apart : c.Sound → own.Pairwise fun a b => ∀ f, a.function? = some f → f.last < b.span.start.line
  orderly : c.Sound → Orderly own

namespace ReadsStmts

variable {c c1 d : Cursor} {own own' : List Stmt}

theorem reaches (h : ReadsStmts c own d) : Reaches c d := h.all.reaches

theorem nil (h : Reaches c d) : ReadsStmts c [] d :=
  ⟨.nil h, fun _ => nofun, fun _ => .nil, fun _ => .mk nofun nofun⟩

theorem ahead (h : ReadsStmts c own d) {s : Stmt} (hs : s ∈ own) : c.Ahead s.span.start :=
  h.all.ahead _ (List.mem_map_of_mem hs)

theorem behind (h : ReadsStmts c own d) (hc : c.Sound) {s : Stmt} (hs : s ∈ own) :
    s.span.start < d.lastEnd :=
  h.all.behind hc _ (List.mem_map_of_mem hs)

theorem inOrder (h : ReadsStmts c own d) (hc : c.Sound) : InOrder own :=
  ⟨List.pairwise_map.mp (h.all.ordered hc), h.apart hc⟩

/-- Statements that follow others where a line begins. -/
theorem append (h : ReadsStmts c own c1) (hline : c.Sound → c1.AtLineStart) (h' : ReadsStmts c1 own' d) :
    ReadsStmts c (own ++ own') d where
  all := by
    rw [List.map_append]
    exact h.all.append h'.all
  within hc s hs f hf := by
    have hc1 := h.reaches.sound hc
    rcases List.mem_append.mp hs with hs | hs
    · exact Nat.le_trans (h.within hc s hs f hf) (h'.reaches.le hc1).2
    · exact h'.within hc1 s hs f hf
  apart hc := by
    have hc1 := h.reaches.sound hc
    refine List.pairwise_append.mpr ⟨h.apart hc, h'.apart hc1, fun a ha b hb f hf => ?_⟩
    exact Nat.lt_of_le_of_lt (h.within hc a ha f hf) ((hline hc).lt_of_ahead (h'.ahead hb))
  orderly hc := orderly_append (h.orderly hc) (h'.orderly (h.reaches.sound hc))

theorem after (h : Reaches c c1) (h' : ReadsStmts c1 own d) : ReadsStmts c own d where
  all := (ReadsAll.nil h).append h'.all
  within hc := h'.within (h.sound hc)
  apart hc := h'.apart (h.sound hc)
  orderly hc := h'.orderly (h.sound hc)

theorem reaching (h : ReadsStmts c own c1) (h' : Reaches c1 d) : ReadsStmts c own d where
  all := by
    have hall := h.all.append (.nil h')
    rwa [List.append_nil] at hall
  within hc s hs f hf := Nat.le_trans (h.within hc s hs f hf) (h'.le (h.reaches.sound hc)).2
  apart := h.apart
  orderly := h.orderly

end ReadsStmts

/-- The statements of a line are no functions. -/
theorem ReadsLine.stmts {c d : Cursor} {ss : List Stmt} (h : ReadsLine c ss d) :
    ReadsStmts c (Stmt.ownAll ss) d := by
  have hnone {s : Stmt} (hs : s ∈ ss) {f : Region} (hf : s.function? = some f) : False := by
    rw [(h.simple s hs).1] at hf
    exact absurd hf nofun
  rw [Stmt.ownAll_of_simple h.simple]
  refine ⟨h.all, fun _ s hs f hf => (hnone hs hf).elim, fun _ => ?_, fun _ => ?_⟩
  · exact List.pairwise_of_forall_mem_list fun a ha _ _ f hf => (hnone ha hf).elim
  · exact .mk (fun s hs f hf => (hnone hs hf).elim) fun s hs f hf => (hnone hs hf).elim

/-- A place where a line begins that is reached by reading statements. -/
def ReadsWhole (c : Cursor) (own : List Stmt) (d : Cursor) : Prop :=
  ReadsStmts c own d ∧ (c.Sound → d.AtLineStart)

/-- What is said of readers of whole lines. -/
def ReadsLines {n : Nat} (sub : StmtsBelow n) : Prop :=
  ∀ c h, (sub c h).Gives fun ss d => ReadsWhole c (Stmt.ownAll ss) d

/-- A statement with suites that begins with a token before its reader. If that token is behind, the
statement is a fitting one where it is a function. -/
structure Compound (start : Position) (c : Cursor) (s : Stmt) (d : Cursor) : Prop where
  start_eq : s.span.start = start
  inner : ReadsStmts c s.inner d
  line : c.Sound → d.AtLineStart
  fits : c.Sound → start < c.lastEnd → ∀ f, s.function? = some f →
    f.FitsFunction ∧ Orderly f.own ∧ f.last ≤ d.lastEnd.line

namespace Compound

variable {start : Position} {c c1 d : Cursor} {s : Stmt}

theorem after (h : Reaches c c1) (h' : Compound start c1 s d) : Compound start c s d where
  start_eq := h'.start_eq
  inner := .after h h'.inner
  line hc := h'.line (h.sound hc)
  fits hc hlt := h'.fits (h.sound hc) (Position.lt_of_lt_of_le hlt (h.le hc))

theorem reads (h : Reads c start c1) (h' : Compound start c1 s d) : ReadsWhole c (Stmt.ownAll [s]) d := by
  have hown : Stmt.ownAll [s] = s :: s.inner := by simp [Stmt.ownAll]
  have hfits (hc : c.Sound) := h'.fits (h.reaches.sound hc) (h.behind hc)
  rw [hown]
  refine ⟨⟨?_, ?_, ?_, ?_⟩, fun hc => h'.line (h.reaches.sound hc)⟩
  · rw [List.map_cons, h'.start_eq]
    exact h.all.append h'.inner.all
  · intro hc t ht f hf
    rcases List.mem_cons.mp ht with rfl | ht
    · exact (hfits hc f hf).2.2
    · exact h'.inner.within (h.reaches.sound hc) t ht f hf
  · intro hc
    refine List.pairwise_cons.mpr ⟨fun t ht f hf => ?_, h'.inner.apart (h.reaches.sound hc)⟩
    rw [Stmt.inner_of_function hf] at ht
    exact absurd ht List.not_mem_nil
  · intro hc
    have horderly := h'.inner.orderly (h.reaches.sound hc)
    have hall : ∀ t ∈ s :: s.inner, ∀ f, t.function? = some f → f.FitsFunction ∧ Orderly f.own := by
      intro t ht f hf
      rcases List.mem_cons.mp ht with rfl | ht
      · exact ⟨(hfits hc f hf).1, (hfits hc f hf).2.1⟩
      · exact horderly.fits ht hf
    exact .mk (fun t ht f hf => (hall t ht f hf).1) fun t ht f hf => (hall t ht f hf).2

end Compound

/-- A statement with suites that is no function. -/
theorem compound_of_inner {start : Position} {c c1 d : Cursor} {s : Stmt} (hstart : s.span.start = start)
    (hs : s.function? = none) (hreach : Reaches c c1) (hinner : ReadsWhole c1 s.inner d) :
    Compound start c s d := by
  refine ⟨hstart, .after hreach hinner.1, fun hc => hinner.2 (hreach.sound hc), fun _ _ f hf => ?_⟩
  rw [hs] at hf
  exact absurd hf nofun

section Stmts

variable {n : Nat} {sub : StmtsBelow n}

/-! ## Suites -/

/-- A place that is reached by reading statements, perhaps none, after which a line begins if one began
before. -/
def ReadsOptional (c : Cursor) (own : List Stmt) (d : Cursor) : Prop :=
  ReadsStmts c own d ∧ (c.Sound → c.AtLineStart → d.AtLineStart)

theorem readsOptional_nil (c : Cursor) : ReadsOptional c [] c := ⟨.nil (.refl c), fun _ => id⟩

theorem suiteStmts_gives (hsub : ReadsLines sub) (c : Cursor) (h : c.size < n) :
    (suiteStmts sub c h).Gives fun ss d => ReadsOptional c (Stmt.ownAll ss) d := by
  rw [suiteStmts]
  split
  · exact gives_ok (readsOptional_nil c)
  · exact gives_ok (readsOptional_nil c)
  · exact gives_fail c _
  · refine Read.gives_bind (hsub c h) ?_
    intro ss c1 h1 hss
    refine Read.gives_bind (MayRead.gives_since (suiteStmts_gives hsub c1 _) h1) ?_
    intro rest d h2 hrest
    have hall := hss.1.append hss.2 hrest.1
    rw [← Stmt.ownAll_append] at hall
    refine gives_ok ⟨hall, fun hc _ => ?_⟩
    exact hrest.2 (hss.1.reaches.sound hc) (hss.2 hc)
termination_by c.size

theorem closeSuite_reaches (c : Cursor) :
    Reaches c (closeSuite c).next ∧ (c.AtLineStart → (closeSuite c).next.AtLineStart) := by
  unfold closeSuite
  split
  · rename_i t c1 h1 hdedent
    obtain ⟨hkind, hpass⟩ := Cursor.accept?_passes hdedent
    exact ⟨hpass.reaches, hpass.atLineStart_of_layout (by rw [hkind]; rfl)⟩
  · exact ⟨.refl c, id⟩

/-- A suite ends where a line begins, and the functions in it begin on lines after the one of the colon. -/
def ReadsSuite (c : Cursor) (ss : List Stmt) (d : Cursor) : Prop :=
  ReadsWhole c (Stmt.ownAll ss) d ∧ (c.Sound → ∀ s ∈ Stmt.ownAll ss, ∀ f, s.function? = some f →
    c.lastEnd.line < f.first)

theorem suite_gives (hsub : ReadsLines sub) (c : Cursor) (h : c.size < n) :
    (suite sub c h).Gives (ReadsSuite c) := by
  refine Read.gives_bind (c.expect_gives _) ?_
  intro t c1 h1 hcolon
  have hpass := hcolon.2.reaches
  dsimp only
  split
  · -- the rest of the line, in which no function is
    refine Read.gives_imp (Read.gives_since (simpleLine_gives c1) h1) ?_
    intro a ha
    refine ⟨⟨.after hpass ha.1.stmts, fun hc => ha.2 (hpass.sound hc)⟩, ?_⟩
    intro _ s hs f hf
    rw [Stmt.ownAll_of_simple ha.1.simple] at hs
    rw [(ha.1.simple s hs).1] at hf
    cases hf
  · rename_i t' c2 h2 hnewline
    obtain ⟨hkind, hpass'⟩ := Cursor.accept?_since_passes hnewline
    refine Read.gives_bind (Read.gives_since (c2.demand_gives _ _) h2) ?_
    intro t'' c3 h3 hindent
    refine Read.gives_bind (MayRead.gives_since (suiteStmts_gives hsub c3 _) h3) ?_
    intro ss c4 h4 hss
    have hclose := closeSuite_reaches c4
    have hreach : Reaches c c3 := (hpass.trans hpass'.reaches).trans hindent.2.reaches
    have hline (hc : c.Sound) : c3.AtLineStart :=
      hindent.2.atLineStart_of_layout (by rw [hindent.1]; rfl) (hpass'.atLineStart (hpass.sound hc) hkind)
    refine gives_ok ⟨⟨.after hreach (hss.1.reaching hclose.1), fun hc => ?_⟩, fun hc s hs f hf => ?_⟩
    · exact hclose.2 (hss.2 (hreach.sound hc) (hline hc))
    · have hlt := (hline hc).lt_of_ahead (hss.1.ahead hs)
      rw [Stmt.first_of_function hf] at hlt
      exact Nat.lt_of_le_of_lt (hreach.le hc).2 hlt

theorem suiteAfter_gives (hsub : ReadsLines sub) (word : Keyword) (c : Cursor) (h : c.size < n) :
    (suiteAfter sub word c h).Gives fun ss d => ReadsOptional c (Stmt.ownAll ss) d := by
  unfold suiteAfter
  split
  · exact gives_ok (readsOptional_nil c)
  · rename_i t c1 h1 hword
    have hpass := (Cursor.accept?_passes hword).2.reaches
    refine MayRead.gives_imp (Read.gives_moved (Read.gives_since (suite_gives hsub c1 _) h1)) ?_
    intro a ha
    exact ⟨.after hpass ha.1.1, fun hc _ => ha.1.2 (hpass.sound hc)⟩

theorem ReadsWhole.optional {c c1 d : Cursor} {own own' : List Stmt} (h : ReadsWhole c own c1)
    (h' : ReadsOptional c1 own' d) : ReadsWhole c (own ++ own') d :=
  ⟨h.1.append h.2 h'.1, fun hc => h'.2 (h.1.reaches.sound hc) (h.2 hc)⟩

/-! ## Branches and loops -/

theorem branch_gives (hsub : ReadsLines sub) (start : Position) (c : Cursor) (h : c.size < n) :
    (branch sub start c h).Gives (Compound start c) := by
  rw [branch]
  refine Read.gives_bind (expr_gives .least c) ?_
  intro test c1 h1 htest
  refine Read.gives_bind (Read.gives_since (suite_gives hsub c1 _) h1) ?_
  intro body c2 h2 hbody
  dsimp only
  split
  · -- a further branch is the only statement of the alternative
    rename_i t c3 h3 helif
    obtain ⟨hkind, hpass⟩ := Cursor.accept?_since_passes helif
    refine Read.gives_bind (Read.gives_since (branch_gives hsub t.span.start c3 _) h3) ?_
    intro further d h4 hfurther
    have hreads := hfurther.reads (hpass.reads (by rw [hkind]; rfl))
    have hall := hbody.1.optional ⟨hreads.1, fun hc _ => hreads.2 hc⟩
    exact gives_ok (compound_of_inner rfl rfl htest.reaches hall)
  · refine Read.gives_bind (MayRead.gives_since (suiteAfter_gives hsub _ c2 _) h2) ?_
    intro orelse d h3 horelse
    have hall := hbody.1.optional horelse
    exact gives_ok (compound_of_inner rfl rfl htest.reaches hall)
termination_by c.size

theorem whileLoop_gives (hsub : ReadsLines sub) (start : Position) (c : Cursor) (h : c.size < n) :
    (whileLoop sub start c h).Gives (Compound start c) := by
  refine Read.gives_bind (expr_gives .least c) ?_
  intro test c1 h1 htest
  refine Read.gives_bind (Read.gives_since (suite_gives hsub c1 _) h1) ?_
  intro body c2 h2 hbody
  refine Read.gives_bind (MayRead.gives_since (suiteAfter_gives hsub _ c2 _) h2) ?_
  intro orelse d h3 horelse
  have hall := hbody.1.optional horelse
  exact gives_ok (compound_of_inner rfl rfl htest.reaches hall)

theorem forLoop_gives (hsub : ReadsLines sub) (start : Position) (isAsync : Bool) (c : Cursor)
    (h : c.size < n) : (forLoop sub start isAsync c h).Gives (Compound start c) := by
  refine Read.gives_bind (several_reaches .comparison c) ?_
  intro target c1 h1 htarget
  refine gives_bind_check fun _ => ?_
  refine Read.gives_bind (Read.gives_since (c1.expect_gives _) h1) ?_
  intro t c2 h2 hin
  refine Read.gives_bind (Read.gives_since (several_reaches .least c2) h2) ?_
  intro iter c3 h3 hiter
  refine Read.gives_bind (Read.gives_since (suite_gives hsub c3 _) h3) ?_
  intro body c4 h4 hbody
  refine Read.gives_bind (MayRead.gives_since (suiteAfter_gives hsub _ c4 _) h4) ?_
  intro orelse d h5 horelse
  have hreach := (htarget.trans hin.2.reaches).trans hiter
  have hall := hbody.1.optional horelse
  exact gives_ok (compound_of_inner rfl rfl hreach hall)

/-! ## Exceptions -/

theorem caught_gives (c : Cursor) : (caught c).Gives fun _ d => Reaches c d := by
  unfold caught
  split
  · exact gives_ok (.refl c)
  · refine Read.gives_bind (several_reaches .named c) ?_
    intro type c1 h1 htype
    refine Read.gives_bind (MayRead.gives_since (givenName_gives c1) h1) ?_
    intro name d h2 hname
    exact gives_ok (htype.trans hname)

theorem groupMark_reaches (c : Cursor) : Reaches c (groupMark c).next := by
  unfold groupMark
  split
  · rename_i t c1 h1 hstar
    exact (Cursor.accept?_passes hstar).2.reaches
  · exact .refl c

theorem handlers_gives (hsub : ReadsLines sub) (c : Cursor) (h : c.size < n) :
    (handlers sub c h).Gives fun hs d => ReadsOptional c (Stmt.ownHandlers hs) d := by
  rw [handlers]
  split
  · exact gives_ok (readsOptional_nil c)
  · rename_i t c1 h1 hexcept
    have hpass := (Cursor.accept?_passes hexcept).2.reaches
    have hmark := groupMark_reaches c1
    generalize groupMark c1 = mark at hmark ⊢
    obtain ⟨_, c2, h2⟩ := mark
    refine Read.gives_bind (MayRead.gives_since (caught_gives c2) _) ?_
    intro type c3 h3 htype
    refine Read.gives_bind (Read.gives_since (suite_gives hsub c3 _) h3) ?_
    intro body c4 h4 hbody
    refine Read.gives_bind (MayRead.gives_since (handlers_gives hsub c4 _) h4) ?_
    intro hs d h5 hhs
    have hreach := (hpass.trans hmark).trans htype
    have hall := hbody.1.optional hhs
    exact gives_ok ⟨.after hreach hall.1, fun hc _ => hall.2 (hreach.sound hc)⟩
termination_by c.size

theorem tryBlock_gives (hsub : ReadsLines sub) (start : Position) (c : Cursor) (h : c.size < n) :
    (tryBlock sub start c h).Gives (Compound start c) := by
  refine Read.gives_bind (suite_gives hsub c h) ?_
  intro body c1 h1 hbody
  refine Read.gives_bind (MayRead.gives_since (handlers_gives hsub c1 _) h1) ?_
  intro hs c2 h2 hhs
  refine Read.gives_bind (MayRead.gives_since (suiteAfter_gives hsub _ c2 _) h2) ?_
  intro orelse c3 h3 horelse
  refine Read.gives_bind (MayRead.gives_since (suiteAfter_gives hsub _ c3 _) h3) ?_
  intro finalbody d h4 hfinal
  have hall := ((hbody.1.optional hhs).optional horelse).optional hfinal
  dsimp only
  split
  · exact gives_unexpected d
  · exact gives_ok (compound_of_inner rfl rfl (.refl c) hall)

/-! ## Contexts -/

theorem withItem_gives (c : Cursor) (h : c.size < n) : (withItem c h).Gives fun _ d => Reaches c d := by
  refine Read.gives_bind (expr_gives .named c) ?_
  intro context c1 h1 hcontext
  refine Read.gives_bind (MayRead.gives_since (singleAfter_gives _ _ c1) h1) ?_
  intro target d h2 htarget
  exact gives_bind_check fun _ => gives_ok (hcontext.reaches.trans htarget)

theorem contexts_reaches (ends : TokenKind → Bool) (c : Cursor) (h : c.size < n) :
    (someItems withItem ends c h).Gives fun _ d => Reaches c d := by
  have hchain := someItems_gives withItem_gives ends c h
  exact fun a ha => (hchain a ha).reaches id

theorem withItems_gives (c : Cursor) : (withItems c).Gives fun _ d => Reaches c d := by
  unfold withItems
  split
  · refine Read.gives_bind (c.expect_gives _) ?_
    intro t c1 h1 hopen
    refine Read.gives_bind (Read.gives_since (contexts_reaches _ c1 _) h1) ?_
    intro items c2 h2 hitems
    refine Read.gives_bind (Read.gives_since (c2.expect_gives _) h2) ?_
    intro t' d h3 hclose
    exact gives_ok ((hopen.2.reaches.trans hitems).trans hclose.2.reaches)
  · exact contexts_reaches _ c _

theorem withBlock_gives (hsub : ReadsLines sub) (start : Position) (isAsync : Bool) (c : Cursor)
    (h : c.size < n) : (withBlock sub start isAsync c h).Gives (Compound start c) := by
  refine Read.gives_bind (withItems_gives c) ?_
  intro items c1 h1 hitems
  refine Read.gives_bind (Read.gives_since (suite_gives hsub c1 _) h1) ?_
  intro body d h2 hbody
  exact gives_ok (compound_of_inner rfl rfl hitems hbody.1)

/-! ## Definitions -/

/-- A function fits whose parameters and suite are read after its first word. -/
theorem ReadsSuite.fits {start : Position} {c c1 d : Cursor} {ps : List Parameter} {body : List Stmt}
    (hps : ReadsAll c (ps.map fun p => p.span.start) c1) (hbody : ReadsSuite c1 body d) (hc : c.Sound)
    (hlt : start < c.lastEnd) : (Region.mk start.line d.lastEnd.line ps body).FitsFunction := by
  have hc1 := hps.reaches.sound hc
  have hstart : start < c1.lastEnd := Position.lt_of_lt_of_le hlt (hps.reaches.le hc)
  refine ⟨⟨hbody.1.1.inOrder hc1, (hps.append hbody.1.1.all).ordered hc, ?_, ?_⟩, ?_, ?_⟩
  · intro s hs
    have hle := hc1.le_of_ahead (hbody.1.1.ahead hs)
    exact ⟨Nat.le_trans hstart.2 hle.2, (hbody.1.1.behind hc1 hs).2⟩
  · exact hbody.1.1.within hc1
  · exact Nat.le_trans hstart.2 (hbody.1.1.reaches.le hc1).2
  · intro s hs g hg
    exact Nat.lt_of_le_of_lt hstart.2 (hbody.2 hc1 s hs g hg)

theorem functionDef_gives (hsub : ReadsLines sub) (start : Position) (decorators : List Expr)
    (isAsync : Bool) (c : Cursor) (h : c.size < n) :
    (functionDef sub start decorators isAsync c h).Gives (Compound start c) := by
  refine Read.gives_bind c.expectName_gives ?_
  intro name c1 h1 hname
  refine Read.gives_bind (Read.gives_since (c1.expect_gives _) h1) ?_
  intro t c2 h2 hopen
  refine Read.gives_bind (MayRead.gives_since (parameters_gives (readsExprs_exprBelow _) _ true c2 _) h2) ?_
  intro ps c3 h3 hps
  refine Read.gives_bind (Read.gives_since (c3.expect_gives _) h3) ?_
  intro t' c4 h4 hclose
  refine Read.gives_bind (MayRead.gives_since (singleAfter_gives _ _ c4) h4) ?_
  intro returns c5 h5 hreturns
  refine Read.gives_bind (Read.gives_since (suite_gives hsub c5 _) h5) ?_
  intro body d h6 hbody
  have hbefore : Reaches c c2 := hname.trans hopen.2.reaches
  have hafter : Reaches c3 c5 := hclose.2.reaches.trans hreturns
  have hall : ReadsAll c (ps.map fun p => p.span.start) c5 := by
    have happend := ((ReadsAll.nil hbefore).append hps).append (.nil hafter)
    rwa [List.nil_append, List.append_nil] at happend
  have hreach : Reaches c d := hall.reaches.trans hbody.1.1.reaches
  refine gives_ok ⟨rfl, .nil hreach, fun hc => hbody.1.2 (hall.reaches.sound hc), ?_⟩
  intro hc hlt f hf
  obtain rfl := Option.some.inj hf
  exact ⟨hbody.fits hall hc hlt, hbody.1.1.orderly (hall.reaches.sound hc), Nat.le_refl _⟩

theorem bases_gives (c : Cursor) : (bases c).Gives fun _ d => Reaches c d := by
  unfold bases
  split
  · exact Read.gives_moved (arguments_gives (readsExprs_exprBelow _) c _)
  · exact gives_ok (.refl c)

theorem classDef_gives (hsub : ReadsLines sub) (start : Position) (decorators : List Expr) (c : Cursor)
    (h : c.size < n) : (classDef sub start decorators c h).Gives (Compound start c) := by
  refine Read.gives_bind c.expectName_gives ?_
  intro name c1 h1 hname
  refine Read.gives_bind (MayRead.gives_since (bases_gives c1) h1) ?_
  intro parents c2 h2 hparents
  refine Read.gives_bind (Read.gives_since (suite_gives hsub c2 _) h2) ?_
  intro body d h3 hbody
  exact gives_ok (compound_of_inner rfl rfl (hname.trans hparents) hbody.1)

theorem decoratorLines_gives (c : Cursor) : (decoratorLines c).Gives fun _ d => Reaches c d := by
  rw [decoratorLines]
  split
  · exact gives_ok (.refl c)
  · rename_i t c1 h1 hat
    refine Read.gives_bind (Read.gives_since (expr_gives .named c1) h1) ?_
    intro e c2 h2 he
    refine Read.gives_bind (Read.gives_since (c2.expect_gives _) h2) ?_
    intro t' c3 h3 hnewline
    refine Read.gives_bind (MayRead.gives_since (decoratorLines_gives c3) h3) ?_
    intro es d h4 hes
    have hat' := (Cursor.accept?_passes hat).2.reaches
    exact gives_ok (((hat'.trans he.reaches).trans hnewline.2.reaches).trans hes)
termination_by c.size

/-- What is said of readers of a single statement. -/
def ReadsStmt (c : Cursor) (s : Stmt) (d : Cursor) : Prop := ReadsWhole c (Stmt.ownAll [s]) d

theorem Passes.reads_word {c d : Cursor} {t : Token} {word : Keyword} (h : Passes c t d)
    (hkind : t.kind = .word word) : Reads c t.span.start d := h.reads (by rw [hkind]; rfl)

theorem decorated_gives (hsub : ReadsLines sub) (decorators : List Expr) (c : Cursor) (h : c.size ≤ n) :
    (decorated sub decorators c h).Gives (ReadsStmt c) := by
  unfold decorated
  split
  · exact gives_unexpected c
  · rename_i t c1 h1 hnext
    have hpass : Passes c t c1 := Cursor.next?_passes hnext
    dsimp only
    split
    · rename_i hdef
      refine Read.gives_imp (Read.gives_since (functionDef_gives hsub _ _ _ c1 _) h1) ?_
      exact fun a ha => ha.reads (hpass.reads_word hdef)
    · rename_i hclass
      refine Read.gives_imp (Read.gives_since (classDef_gives hsub _ _ c1 _) h1) ?_
      exact fun a ha => ha.reads (hpass.reads_word hclass)
    · rename_i hasync
      refine Read.gives_bind (Read.gives_since (c1.expect_gives _) h1) ?_
      intro t' c2 h2 hdef
      refine Read.gives_imp (Read.gives_since (functionDef_gives hsub _ _ _ c2 _) h2) ?_
      exact fun a ha => (ha.after hdef.2.reaches).reads (hpass.reads_word hasync)
    · exact gives_unexpected c

theorem asyncStmt_gives (hsub : ReadsLines sub) (start : Position) (c : Cursor) (h : c.size < n) :
    (asyncStmt sub start c h).Gives (Compound start c) := by
  unfold asyncStmt
  split
  · exact gives_unexpected c
  · rename_i t c1 h1 hnext
    have hpass : Passes c t c1 := Cursor.next?_passes hnext
    split
    · refine Read.gives_imp (Read.gives_since (functionDef_gives hsub _ _ _ c1 _) h1) ?_
      exact fun a ha => ha.after hpass.reaches
    · refine Read.gives_imp (Read.gives_since (forLoop_gives hsub _ _ c1 _) h1) ?_
      exact fun a ha => ha.after hpass.reaches
    · refine Read.gives_imp (Read.gives_since (withBlock_gives hsub _ _ c1 _) h1) ?_
      exact fun a ha => ha.after hpass.reaches
    · exact gives_unexpected c

theorem compound?_gives (hsub : ReadsLines sub) (t : Token) (c : Cursor) (h : c.size < n) {read : Read Stmt c}
    (hread : compound? sub t c h = some read) :
    (∃ word, t.kind = .word word) ∧ read.Gives (Compound t.span.start c) := by
  unfold compound? at hread
  dsimp only at hread
  split at hread
  case h_9 => exact absurd hread nofun
  all_goals
    rename_i hword
    obtain rfl := Option.some.inj hread
    refine ⟨⟨_, hword⟩, ?_⟩
  · exact branch_gives hsub _ c h
  · exact whileLoop_gives hsub _ c h
  · exact forLoop_gives hsub _ _ c h
  · exact tryBlock_gives hsub _ c h
  · exact withBlock_gives hsub _ _ c h
  · exact functionDef_gives hsub _ _ _ c h
  · exact classDef_gives hsub _ _ c h
  · exact asyncStmt_gives hsub _ c h

theorem decoratedStmt_gives (hsub : ReadsLines sub) (c : Cursor) (h : c.size ≤ n) :
    (decoratedStmt sub c h).Gives (ReadsStmt c) := by
  refine MayRead.gives_bind (decoratorLines_gives c) ?_
  intro decorators c1 h1 hdecorators
  refine Read.gives_imp (Read.gives_from (decorated_gives hsub decorators c1 _) h1) ?_
  exact fun a ha => ⟨.after hdecorators ha.1, fun hc => ha.2 (hdecorators.sound hc)⟩

theorem simpleLine_whole (c : Cursor) :
    (simpleLine c).Gives fun ss d => ReadsWhole c (Stmt.ownAll ss) d :=
  fun a ha => ⟨(simpleLine_gives c a ha).1.stmts, (simpleLine_gives c a ha).2⟩

theorem stmtsWith_gives (hsub : ReadsLines sub) (c : Cursor) (h : c.size ≤ n) :
    (stmtsWith sub c h).Gives fun ss d => ReadsWhole c (Stmt.ownAll ss) d := by
  unfold stmtsWith
  split
  · exact simpleLine_whole c
  · rename_i t c1 h1 hnext
    have hpass : Passes c t c1 := Cursor.next?_passes hnext
    dsimp only
    split
    · refine Read.gives_bind (decoratedStmt_gives hsub c h) ?_
      exact fun s d _ hs => gives_ok hs
    · split
      · rename_i read hread
        obtain ⟨⟨word, hword⟩, hgives⟩ := compound?_gives hsub t c1 _ hread
        refine Read.gives_bind (Read.gives_since hgives h1) ?_
        exact fun s d _ hs => gives_ok (hs.reads (hpass.reads_word hword))
      · exact simpleLine_whole c

end Stmts

theorem stmts_gives (c : Cursor) : (stmts c).Gives fun ss d => ReadsWhole c (Stmt.ownAll ss) d := by
  have hsub : ReadsLines (n := c.size) fun c' _ => stmts c' := fun c' h => stmts_gives c'
  rw [stmts]
  exact stmtsWith_gives hsub c c.size_upTo
termination_by c.size

/-! ## Modules -/

theorem moduleStmts_gives (c : Cursor) :
    (moduleStmts c).Gives fun ss d => ReadsStmts c (Stmt.ownAll ss) d := by
  rw [moduleStmts]
  split
  · exact gives_ok (.nil (.refl c))
  · exact gives_fail c _
  · split
    · exact gives_ok (.nil (.refl c))
    · rename_i t c1 h1 hnext
      have hpass := (Cursor.next?_passes hnext).reaches
      refine MayRead.gives_imp (Read.gives_moved (MayRead.gives_since (moduleStmts_gives c1) h1)) ?_
      exact fun a ha => .after hpass ha
  · refine Read.gives_bind (stmts_gives c) ?_
    intro ss c1 h1 hss
    refine Read.gives_bind (MayRead.gives_since (moduleStmts_gives c1) h1) ?_
    intro rest d h2 hrest
    have hall := hss.1.append hss.2 hrest
    rw [← Stmt.ownAll_append] at hall
    exact gives_ok hall
termination_by c.size

section Tokens

variable {lines : Nat} {tokens : List Token}

theorem Cursor.ofTokens_prefix (tokens : List Token) : (Cursor.ofTokens tokens).rest <+: tokens :=
  List.takeWhile_prefix _

theorem Cursor.ofTokens_sound (h : Token.InLines lines tokens) : (Cursor.ofTokens tokens).Sound := by
  have hpre := Cursor.ofTokens_prefix tokens
  exact ⟨h.ordered.sublist hpre.sublist, fun t ht => h.proper t (hpre.subset ht),
    fun t ht => h.from_le t (hpre.subset ht)⟩

/-- A source with a token has a line, and reading does not leave the lines. -/
theorem Reaches.line_le (h : Token.InLines lines tokens) {d : Cursor} (hd : Reaches (Cursor.ofTokens tokens) d)
    {p : Position} (hp : (Cursor.ofTokens tokens).Ahead p) : d.lastEnd.line ≤ lines := by
  have hpre := Cursor.ofTokens_prefix tokens
  rcases hd.stop with heq | ⟨t, ht, hno, hstop⟩
  · obtain ⟨t, ht, hno, _⟩ := hp
    have hfirst : Position.first.line ≤ t.span.start.line := (h.from_le t (hpre.subset ht)).2
    have hstop := (h.proper t (hpre.subset ht)).le.2
    have hlast := h.line_le t (hpre.subset ht) hno
    rw [heq]
    exact Nat.le_trans hfirst (Nat.le_trans hstop hlast)
  · rw [hstop]
    exact h.line_le t (hpre.subset ht) hno

end Tokens

/-- The region of a module fits, with all functions in it. -/
theorem ofText_fits {source : String} {m : Module} (h : Module.ofText source = .ok m) :
    (m.region (Text.lineCount source.toList)).Fits ∧
      Orderly (m.region (Text.lineCount source.toList)).own := by
  obtain ⟨tokens, htokens, h⟩ := exists_of_bind_ok h
  obtain ⟨⟨body, d, hle⟩, hread, h⟩ := exists_of_bind_ok h
  obtain rfl := Except.ok.inj h
  have hlines := tokenize_placed htokens
  have hsound := Cursor.ofTokens_sound hlines
  have hbody : ReadsStmts (Cursor.ofTokens tokens) (Stmt.ownAll body) d := moduleStmts_gives _ _ hread
  refine ⟨⟨hbody.inOrder hsound, hbody.all.ordered hsound, ?_, ?_⟩, hbody.orderly hsound⟩
  · intro s hs
    have hahead := hbody.ahead hs
    have hfirst : Position.first ≤ s.span.start := hsound.le_of_ahead hahead
    have hlast := (hbody.behind hsound hs).2
    exact ⟨hfirst.2, Nat.le_trans hlast (hbody.reaches.line_le hlines hahead)⟩
  · intro s hs f hf
    exact Nat.le_trans (hbody.within hsound s hs f hf) (hbody.reaches.line_le hlines (hbody.ahead hs))

end TypeWatch.Reading
