import TypeWatch.Proofs.Reading.Display
import TypeWatch.Reading.Expr

/-! # Readers of expressions

An expression begins with a token that is ahead of its reader and behind the reader then (`expr_gives`). A
group has the place that it has without its parentheses, so that the token need not be the first one. -/
namespace TypeWatch.Reading
set_option autoImplicit false

section Exprs

variable {n : Nat} {sub : Below n}

/-! ## Operands -/

theorem moreStrings_reaches (kind : TokenKind) (text : String) (c : Cursor) :
    Reaches c (moreStrings kind text c).next := by
  rw [moreStrings]
  split
  · split
    · exact .refl c
    · rename_i t c1 h1 hnext
      have hpass := (Cursor.next?_passes hnext).reaches
      exact hpass.trans (moreStrings_reaches _ _ c1)
  · exact .refl c
termination_by c.size

theorem lambda_gives (hsub : ReadsExprs sub) (start : Position) (c : Cursor) (h : c.size < n) :
    (lambda sub start c h).Gives fun e d => ReadsFrom start c e.span.start d := by
  refine MayRead.gives_bind (parameters_gives hsub _ _ c h) ?_
  intro list c1 h1 hlist
  refine Read.gives_bind (Read.gives_from (c1.expect_gives _) h1) ?_
  intro t c2 h2 hcolon
  refine Read.gives_bind (Read.gives_since (hsub .named c2 _) h2) ?_
  intro body d h3 hbody
  exact gives_ok (readsFrom_start ((hlist.reaches.trans hcolon.2.reaches).trans hbody.reaches))

theorem yielded_gives (hsub : ReadsExprs sub) (start : Position) (c : Cursor) (h : c.size < n) :
    (yielded sub start c h).Gives fun e d => ReadsFrom start c e.span.start d := by
  unfold yielded
  split
  · rename_i t c1 h1 hfrom
    have hpass := (Cursor.accept?_passes hfrom).2.reaches
    refine Read.gives_bind (Read.gives_since (hsub .least c1 _) h1) ?_
    intro value d h2 hvalue
    exact gives_ok (readsFrom_start (hpass.trans hvalue.reaches))
  · split
    · refine Read.gives_bind (exprList_gives hsub .least c h) ?_
      intro value d h1 hvalue
      exact gives_ok (readsFrom_start hvalue.reaches)
    · exact gives_ok (readsFrom_start (.refl c))

theorem isLayout_of_unary {kind : TokenKind} {op : UnaryOp} (h : UnaryOp.ofToken? kind = some op) :
    kind.isLayout = false := by
  cases kind <;> first | rfl | exact absurd h nofun

/-- An operand is no layout, and it begins with its first token or, if it is a group, in the group. -/
theorem operandAfter_gives (hsub : ReadsExprs sub) (t : Token) (c : Cursor) (h : c.size < n) :
    (operandAfter sub t c h).Gives fun e d =>
      t.kind.isLayout = false ∧ ReadsFrom t.span.start c e.span.start d := by
  have hhere {c' : Cursor} (h' : Reaches c c') : ReadsFrom t.span.start c t.span.start c' := readsFrom_start h'
  unfold operandAfter
  dsimp only
  split
  case h_1 hkind => exact gives_ok ⟨by rw [hkind]; rfl, hhere (.refl c)⟩
  case h_2 hkind => exact gives_ok ⟨by rw [hkind]; rfl, hhere (.refl c)⟩
  case h_3 hkind => exact gives_ok ⟨by rw [hkind]; rfl, hhere (.refl c)⟩
  case h_4 hkind => exact gives_ok ⟨by rw [hkind]; rfl, hhere (.refl c)⟩
  case h_5 hkind => exact gives_ok ⟨by rw [hkind]; rfl, hhere (.refl c)⟩
  case h_6 hkind => exact gives_ok ⟨by rw [hkind]; rfl, hhere (.refl c)⟩
  case h_7 hkind => exact gives_ok ⟨by rw [hkind]; rfl, hhere (moreStrings_reaches _ _ c)⟩
  case h_8 hkind => exact gives_ok ⟨by rw [hkind]; rfl, hhere (moreStrings_reaches _ _ c)⟩
  case h_9 hkind => exact gives_ok ⟨by rw [hkind]; rfl, hhere (moreStrings_reaches _ _ c)⟩
  case h_10 hkind =>
    refine Read.gives_map (parenthesized_gives hsub _ c h) ?_
    intro a ha
    exact ⟨by rw [hkind]; rfl, ha⟩
  case h_11 hkind =>
    refine Read.gives_map (listDisplay_gives hsub _ c h) ?_
    intro a ha
    exact ⟨by rw [hkind]; rfl, ha⟩
  case h_12 hkind =>
    refine Read.gives_map (braceDisplay_gives hsub _ c h) ?_
    intro a ha
    exact ⟨by rw [hkind]; rfl, ha⟩
  case h_13 hkind =>
    refine Read.gives_bind (hsub .comparison c h) ?_
    intro value d h1 hvalue
    exact gives_ok ⟨by rw [hkind]; rfl, hhere hvalue.reaches⟩
  case h_14 hkind =>
    refine Read.gives_bind (hsub .await c h) ?_
    intro value d h1 hvalue
    exact gives_ok ⟨by rw [hkind]; rfl, hhere hvalue.reaches⟩
  case h_15 hkind =>
    refine Read.gives_map (lambda_gives hsub _ c h) ?_
    intro a ha
    exact ⟨by rw [hkind]; rfl, ha⟩
  case h_16 hkind =>
    refine MayRead.gives_imp (yielded_gives hsub _ c h) ?_
    intro a ha
    exact ⟨by rw [hkind]; rfl, ha⟩
  case h_17 =>
    split
    · rename_i op hop
      refine Read.gives_bind (hsub op.binds c h) ?_
      intro value d h1 hvalue
      exact gives_ok ⟨isLayout_of_unary hop, hhere hvalue.reaches⟩
    · exact gives_error _

theorem operand_gives (hsub : ReadsExprs sub) (c : Cursor) (h : c.size ≤ n) :
    (operand sub c h).Gives fun e d => Reads c e.span.start d := by
  unfold operand
  split
  · exact gives_unexpected c
  · rename_i t c1 h1 hnext
    refine Read.gives_imp (MayRead.gives_since (operandAfter_gives hsub t c1 _) h1) ?_
    intro a ha
    exact (Cursor.next?_passes hnext).readsFrom ha.1 ha.2

theorem operand_position (hsub : ReadsExprs sub) (c : Cursor) (h : c.size ≤ n) :
    (operand sub c h).Gives fun _ d => Reads c c.position d := by
  unfold operand
  split
  · exact gives_unexpected c
  · rename_i t c1 h1 hnext
    have hpass := Cursor.next?_passes hnext
    refine Read.gives_imp (MayRead.gives_since (operandAfter_gives hsub t c1 _) h1) ?_
    intro a ha
    rw [hpass.position_eq]
    exact (hpass.reads ha.1).reaching ha.2.1

/-! ## Operators -/

/-- An expression that goes on after `left` begins where `left` does. -/
def GoesOn (left : Expr) (c : Cursor) (e : Expr) (d : Cursor) : Prop :=
  Reaches c d ∧ e.span.start = left.span.start

theorem binary_gives (hsub : ReadsExprs sub) (left : Expr) (op : BinaryOp) (c : Cursor) (h : c.size < n) :
    (binary sub left op c h).Gives (GoesOn left c) := by
  refine Read.gives_bind (hsub _ c h) ?_
  intro right d h1 hright
  exact gives_ok ⟨hright.reaches, rfl⟩

theorem named_gives (hsub : ReadsExprs sub) (left : Expr) (c : Cursor) (h : c.size < n) :
    (named sub left c h).Gives (GoesOn left c) := by
  unfold named
  split
  · refine Read.gives_bind (hsub .named c h) ?_
    intro value d h1 hvalue
    exact gives_ok ⟨hvalue.reaches, rfl⟩
  · exact gives_error _

theorem conditional_gives (hsub : ReadsExprs sub) (body : Expr) (c : Cursor) (h : c.size < n) :
    (conditional sub body c h).Gives (GoesOn body c) := by
  refine Read.gives_bind (hsub .conditional c h) ?_
  intro test c1 h1 htest
  refine Read.gives_bind (Read.gives_since (c1.expect_gives _) h1) ?_
  intro t c2 h2 helse
  refine Read.gives_bind (Read.gives_since (hsub .named c2 _) h2) ?_
  intro orelse d h3 horelse
  exact gives_ok ⟨(htest.reaches.trans helse.2.reaches).trans horelse.reaches, rfl⟩

theorem identity_gives (hsub : ReadsExprs sub) (left : Expr) (c : Cursor) (h : c.size < n) :
    (identity sub left c h).Gives (GoesOn left c) := by
  unfold identity
  split
  · rename_i t c1 h1 hnot
    have hpass := (Cursor.accept?_passes hnot).2.reaches
    refine Read.gives_imp (Read.gives_since (binary_gives hsub left _ c1 _) h1) ?_
    intro a ha
    exact ⟨hpass.trans ha.1, ha.2⟩
  · exact binary_gives hsub left _ c h

theorem absence_gives (hsub : ReadsExprs sub) (left : Expr) (c : Cursor) (h : c.size < n) :
    (absence sub left c h).Gives (GoesOn left c) := by
  refine Read.gives_bind (c.demand_gives _ _) ?_
  intro t c1 h1 hin
  refine Read.gives_imp (Read.gives_since (binary_gives hsub left _ c1 _) h1) ?_
  intro a ha
  exact ⟨hin.2.reaches.trans ha.1, ha.2⟩

theorem extendAfter_gives (hsub : ReadsExprs sub) (left : Expr) (t : Token) (c : Cursor) (h : c.size < n) :
    (extendAfter sub left t c h).Gives (GoesOn left c) := by
  unfold extendAfter
  split
  case h_1 => exact named_gives hsub left c h
  case h_2 => exact conditional_gives hsub left c h
  case h_3 => exact identity_gives hsub left c h
  case h_4 => exact absence_gives hsub left c h
  case h_5 =>
    refine Read.gives_bind c.expectName_gives ?_
    intro attr d h1 hattr
    exact gives_ok ⟨hattr, rfl⟩
  case h_6 =>
    refine Read.gives_bind (indices_gives hsub c h) ?_
    intro key c1 h1 hkey
    refine Read.gives_bind (Read.gives_since (c1.expect_gives _) h1) ?_
    intro t d h2 hclose
    exact gives_ok ⟨hkey.trans hclose.2.reaches, rfl⟩
  case h_7 =>
    refine MayRead.gives_bind (anyArguments_gives hsub _ c h) ?_
    intro items c1 h1 hitems
    refine Read.gives_bind (Read.gives_from (c1.expect_gives _) h1) ?_
    intro t d h2 hclose
    exact gives_ok ⟨hitems.trans hclose.2.reaches, rfl⟩
  case h_8 =>
    split
    · exact binary_gives hsub left _ c h
    · exact gives_error _

theorem extend_gives (hsub : ReadsExprs sub) (level : Power) (left : Expr) (c : Cursor) (h : c.size < n) :
    (extend sub level left c h).Gives (GoesOn left c) := by
  rw [extend]
  split
  · split
    · exact gives_ok ⟨.refl c, rfl⟩
    · rename_i t c1 h1 hnext
      have hpass := (Cursor.next?_passes hnext).reaches
      refine Read.gives_bind (Read.gives_since (extendAfter_gives hsub left t c1 _) h1) ?_
      intro longer c2 h2 hlonger
      refine Read.gives_bind (MayRead.gives_since (extend_gives hsub level longer c2 _) h2) ?_
      intro e d h3 he
      exact gives_ok ⟨(hpass.trans hlonger.1).trans he.1, he.2.trans hlonger.2⟩
  · exact gives_ok ⟨.refl c, rfl⟩
termination_by c.size

end Exprs

/-! ## Expressions -/

/-- An expression begins with a token that is ahead, and ends after it. -/
theorem expr_gives (level : Power) (c : Cursor) :
    (expr level c).Gives fun e d => Reads c e.span.start d := by
  have hsub : ReadsExprs (n := c.size) fun l c' _ => expr l c' := fun l c' h => expr_gives l c'
  rw [expr]
  refine Read.gives_bind (operand_gives hsub c _) ?_
  intro left c1 h1 hleft
  refine Read.gives_imp (MayRead.gives_since (extend_gives hsub level left c1 _) h1) ?_
  intro a ha
  have hreads := hleft.reaching ha.1
  rwa [← ha.2] at hreads
termination_by c.size

/-- The first token of an expression is no layout. -/
theorem expr_position (level : Power) (c : Cursor) :
    (expr level c).Gives fun _ d => Reads c c.position d := by
  have hsub : ReadsExprs (n := c.size) fun l c' _ => expr l c' := fun l c' _ => expr_gives l c'
  rw [expr]
  refine Read.gives_bind (operand_position hsub c _) ?_
  intro left c1 h1 hleft
  refine Read.gives_imp (MayRead.gives_since (extend_gives hsub level left c1 _) h1) ?_
  intro a ha
  exact hleft.reaching ha.1

theorem readsExprs_exprBelow (n : Nat) : ReadsExprs (exprBelow n) := fun level c _ => expr_gives level c

end TypeWatch.Reading
