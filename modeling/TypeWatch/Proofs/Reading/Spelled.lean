import TypeWatch.Proofs.Reading.Shape
import TypeWatch.Proofs.Token.Content

/-! # Expressions that are read from texts

The names and the numbers of an expression that is read from a text are names and numbers (`expr_shows`), and
if it is plain, so are all tokens of the text. -/
namespace TypeWatch.Reading
set_option autoImplicit false

section Exprs

variable {n : Nat} {sub : Below n}

/-! ## Operands -/

theorem moreStrings_shows (kind : TokenKind) (text : String) (c : Cursor) :
    Shows True True c.rest (moreStrings kind text c).next.rest := by
  rw [moreStrings]
  split
  · rename_i hstring
    split
    · exact .here _
    · rename_i t c1 h1 hnext
      have hpass := Cursor.next?_passes hnext
      have hplain : t.kind.isPlain = true := by
        rw [Cursor.kind, Cursor.token, hpass.rest] at hstring
        exact TokenKind.isPlain_of_isString hstring
      exact (hpass.shows.trans (moreStrings_shows _ _ c1)).imp (fun _ => trivial) fun _ => ⟨hplain, trivial⟩
  · exact .here _
termination_by c.size

theorem strings_shows (t : Token) (c : Cursor) : ShowsExpr c (strings t c).value (strings t c).next := by
  have hmore := moreStrings_shows t.kind t.text c
  unfold strings
  generalize moreStrings t.kind t.text c = more at hmore ⊢
  obtain ⟨⟨kind, text⟩, c1, h1⟩ := more
  have hvalue (s : Span) : (Expr.constant s (stringConstant kind text)).Spelled ∧
      (Expr.constant s (stringConstant kind text)).isPlain = true := by
    cases kind <;> exact ⟨trivial, rfl⟩
  exact hmore.imp (fun _ => (hvalue _).1) fun _ => trivial

theorem lambda_shows (hsub : ShowsExprs sub) (start : Position) (c : Cursor) (h : c.size < n) :
    (lambda sub start c h).Gives (ShowsUnplain True c) := by
  refine MayRead.gives_bind (parameters_shows hsub _ _ c h) ?_
  intro list c1 h1 hlist
  refine Read.gives_bind (Read.gives_from (c1.expect_gives _) h1) ?_
  intro t c2 h2 hcolon
  refine Read.gives_bind (Read.gives_since (hsub .named c2 _) h2) ?_
  intro body d h3 hbody
  refine gives_ok ⟨rfl, (hlist.trans (hcolon.2.any.trans hbody)).never fun hS _ => ?_⟩
  rw [Expr.Spelled]
  exact ⟨hS.1, hS.2.2⟩

theorem yielded_shows (hsub : ShowsExprs sub) (start : Position) (c : Cursor) (h : c.size < n) :
    (yielded sub start c h).Gives (ShowsUnplain True c) := by
  unfold yielded
  split
  · rename_i t c1 h1 hfrom
    have hpass := (Cursor.accept?_passes hfrom).2.any
    refine Read.gives_bind (Read.gives_since (hsub .least c1 _) h1) ?_
    intro value d h2 hvalue
    exact gives_ok ⟨rfl, (hpass.trans hvalue).never fun hS _ => hS.2⟩
  · split
    · refine Read.gives_bind (exprList_shows hsub .least c h) ?_
      intro value d h1 hvalue
      exact gives_ok ⟨rfl, hvalue.never fun hS _ => hS⟩
    · exact gives_ok ⟨rfl, (Shows.here _).never fun _ _ => trivial⟩

/-- What an operand shows of the tokens before a place, the first of which is known. -/
def ShowsAfter (t : Token) (c : Cursor) (e : Expr) (d : Cursor) : Prop :=
  Shows e.Spelled (e.isPlain = true) (t :: c.rest) d.rest

theorem ShowsExpr.marked {t : Token} {c d : Cursor} {e : Expr} (h : ShowsExpr c e d)
    (ht : t.kind.isPlain = true) : ShowsAfter t c e d :=
  ((Shows.token t c.rest).trans h).imp And.right fun hP => ⟨ht, hP⟩

theorem ShowsUnplain.marked {t : Token} {c d : Cursor} {e : Expr} (h : ShowsUnplain True c e d) :
    ShowsAfter t c e d :=
  ((Shows.token t c.rest).trans h.shows).imp (fun hS => hS.2 trivial) fun hP =>
    absurd (h.notPlain.symm.trans hP) nofun

theorem operandAfter_shows (hsub : ShowsExprs sub) (t : Token) (c : Cursor) (h : c.size < n) :
    (operandAfter sub t c h).Gives (ShowsAfter t c) := by
  have hhere {e : Expr} (hS : t.Spelled → e.Spelled) (hP : e.isPlain = true → t.kind.isPlain = true) :
      ShowsAfter t c e c := (Shows.token t c.rest).imp hS hP
  have hstrings (hkind : t.kind.isPlain = true) : ShowsAfter t c (strings t c).value (strings t c).next :=
    (strings_shows t c).marked hkind
  unfold operandAfter
  dsimp only
  split
  case h_1 hkind =>
    exact gives_ok (hhere (fun hS => hS.name hkind) fun _ => by rw [hkind]; rfl)
  case h_2 hkind =>
    exact gives_ok (hhere (fun hS => hS.number hkind) nofun)
  case h_3 hkind => exact gives_ok (hhere (fun _ => trivial) fun _ => by rw [hkind]; rfl)
  case h_4 hkind => exact gives_ok (hhere (fun _ => trivial) fun _ => by rw [hkind]; rfl)
  case h_5 hkind => exact gives_ok (hhere (fun _ => trivial) fun _ => by rw [hkind]; rfl)
  case h_6 hkind => exact gives_ok (hhere (fun _ => trivial) fun _ => by rw [hkind]; rfl)
  case h_7 hkind => exact gives_ok (hstrings (by rw [hkind]; rfl))
  case h_8 hkind => exact gives_ok (hstrings (by rw [hkind]; rfl))
  case h_9 hkind => exact gives_ok (hstrings (by rw [hkind]; rfl))
  case h_10 hkind =>
    refine Read.gives_map (parenthesized_shows hsub _ c h) ?_
    exact fun a ha => ShowsExpr.marked ha (by rw [hkind]; rfl)
  case h_11 hkind =>
    refine Read.gives_map (listDisplay_shows hsub _ c h) ?_
    exact fun a ha => ShowsExpr.marked ha (by rw [hkind]; rfl)
  case h_12 hkind =>
    refine Read.gives_map (braceDisplay_shows hsub _ c h) ?_
    exact fun a ha => ha.marked
  case h_13 hkind =>
    refine Read.gives_bind (hsub .comparison c h) ?_
    intro value d h1 hvalue
    exact gives_ok (ShowsUnplain.marked ⟨rfl, hvalue.never fun hS _ => hS⟩)
  case h_14 hkind =>
    refine Read.gives_bind (hsub .await c h) ?_
    intro value d h1 hvalue
    exact gives_ok (ShowsUnplain.marked ⟨rfl, hvalue.never fun hS _ => hS⟩)
  case h_15 hkind =>
    refine Read.gives_map (lambda_shows hsub _ c h) ?_
    exact fun a ha => ha.marked
  case h_16 hkind =>
    refine MayRead.gives_imp (yielded_shows hsub _ c h) ?_
    exact fun a ha => ha.marked
  case h_17 =>
    split
    · rename_i op hop
      refine Read.gives_bind (hsub op.binds c h) ?_
      intro value d h1 hvalue
      exact gives_ok (ShowsUnplain.marked ⟨rfl, hvalue.never fun hS _ => hS⟩)
    · exact gives_error _

theorem operand_shows (hsub : ShowsExprs sub) (c : Cursor) (h : c.size ≤ n) :
    (operand sub c h).Gives (ShowsExpr c) := by
  unfold operand
  split
  · exact gives_unexpected c
  · rename_i t c1 h1 hnext
    have hpass : Passes c t c1 := Cursor.next?_passes hnext
    refine Read.gives_imp (MayRead.gives_since (operandAfter_shows hsub t c1 _) h1) ?_
    intro a ha
    rw [ShowsExpr, hpass.rest]
    exact ha

/-! ## Operators -/

/-- What an expression shows that goes on after `left`. -/
structure ShowsOn (left : Expr) (ts : List Token) (e : Expr) (d : Cursor) : Prop where
  shows : Shows (left.Spelled → e.Spelled) (e.isPlain = true) ts d.rest
  plain : e.isPlain = true → left.isPlain = true

/-- An operation after its operator, which is no part of plain expressions. -/
theorem ShowsUnplain.goesOn {left e : Expr} {t : Token} {c d : Cursor} (h : ShowsUnplain left.Spelled c e d) :
    ShowsOn left (t :: c.rest) e d :=
  ⟨((Shows.token t c.rest).trans h.shows).imp And.right fun hP => absurd (h.notPlain.symm.trans hP) nofun,
    fun hP => absurd (h.notPlain.symm.trans hP) nofun⟩

theorem binary_shows (hsub : ShowsExprs sub) (left : Expr) (op : BinaryOp) (c : Cursor) (h : c.size < n) :
    (binary sub left op c h).Gives (ShowsUnplain left.Spelled c) := by
  refine Read.gives_bind (hsub _ c h) ?_
  intro right d h1 hright
  refine gives_ok ⟨rfl, hright.never fun hS hleft => ?_⟩
  rw [Expr.Spelled]
  exact ⟨hleft, hS⟩

theorem named_shows (hsub : ShowsExprs sub) (left : Expr) (c : Cursor) (h : c.size < n) :
    (named sub left c h).Gives (ShowsUnplain left.Spelled c) := by
  unfold named
  split
  · refine Read.gives_bind (hsub .named c h) ?_
    intro value d h1 hvalue
    refine gives_ok ⟨rfl, hvalue.never fun hS hleft => ?_⟩
    rw [Expr.Spelled]
    exact ⟨hleft, hS⟩
  · exact gives_error _

theorem conditional_shows (hsub : ShowsExprs sub) (body : Expr) (c : Cursor) (h : c.size < n) :
    (conditional sub body c h).Gives (ShowsUnplain body.Spelled c) := by
  refine Read.gives_bind (hsub .conditional c h) ?_
  intro test c1 h1 htest
  refine Read.gives_bind (Read.gives_since (c1.expect_gives _) h1) ?_
  intro t c2 h2 helse
  refine Read.gives_bind (Read.gives_since (hsub .named c2 _) h2) ?_
  intro orelse d h3 horelse
  refine gives_ok ⟨rfl, (htest.trans (helse.2.any.trans horelse)).never fun hS hbody => ?_⟩
  rw [Expr.Spelled]
  exact ⟨hS.1, hbody, hS.2.2⟩

theorem identity_shows (hsub : ShowsExprs sub) (left : Expr) (c : Cursor) (h : c.size < n) :
    (identity sub left c h).Gives (ShowsUnplain left.Spelled c) := by
  unfold identity
  split
  · rename_i t c1 h1 hnot
    have hpass := (Cursor.accept?_passes hnot).2.any
    refine Read.gives_imp (Read.gives_since (binary_shows hsub left _ c1 _) h1) ?_
    exact fun a ha => .after hpass ha fun hleft _ => hleft
  · exact binary_shows hsub left _ c h

theorem absence_shows (hsub : ShowsExprs sub) (left : Expr) (c : Cursor) (h : c.size < n) :
    (absence sub left c h).Gives (ShowsUnplain left.Spelled c) := by
  refine Read.gives_bind (c.demand_gives _ _) ?_
  intro t c1 h1 hin
  refine Read.gives_imp (Read.gives_since (binary_shows hsub left _ c1 _) h1) ?_
  exact fun a ha => .after hin.2.any ha fun hleft _ => hleft

theorem extendAfter_shows (hsub : ShowsExprs sub) (left : Expr) (t : Token) (c : Cursor) (h : c.size < n) :
    (extendAfter sub left t c h).Gives (ShowsOn left (t :: c.rest)) := by
  have hmark (hkind : t.kind.isPlain = true) : Shows True True (t :: c.rest) c.rest :=
    (Shows.token t c.rest).imp (fun _ => trivial) fun _ => hkind
  unfold extendAfter
  split
  case h_1 => exact Read.gives_imp (named_shows hsub left c h) fun a ha => ha.goesOn
  case h_2 => exact Read.gives_imp (conditional_shows hsub left c h) fun a ha => ha.goesOn
  case h_3 => exact Read.gives_imp (identity_shows hsub left c h) fun a ha => ha.goesOn
  case h_4 => exact Read.gives_imp (absence_shows hsub left c h) fun a ha => ha.goesOn
  case h_5 hkind =>
    refine Read.gives_bind (expectName_shows c) ?_
    intro attr d h1 hattr
    refine gives_ok ⟨((hmark (by rw [hkind]; rfl)).trans hattr).imp (fun hS hleft => ?_) fun _ => ⟨trivial, trivial⟩, ?_⟩
    · rw [Expr.Spelled]
      exact ⟨hleft, hS.2⟩
    · exact fun hP => by rwa [Expr.isPlain] at hP
  case h_6 hkind =>
    refine Read.gives_bind (indices_shows hsub c h) ?_
    intro key c1 h1 hkey
    refine Read.gives_bind (Read.gives_since (c1.expect_gives _) h1) ?_
    intro t' d h2 hclose
    have hclose' : Shows True True c1.rest d.rest := Passes.mark hclose rfl
    have hall := (hmark (by rw [hkind]; rfl)).trans (hkey.trans hclose')
    refine gives_ok ⟨hall.imp (fun hS hleft => ?_) fun hP => ?_, fun hP => ?_⟩
    · rw [Expr.Spelled]
      exact ⟨hleft, hS.2.1⟩
    · rw [Expr.isPlain, Bool.and_eq_true] at hP
      exact ⟨trivial, hP.2, trivial⟩
    · rw [Expr.isPlain, Bool.and_eq_true] at hP
      exact hP.1
  case h_7 hkind =>
    refine MayRead.gives_bind (anyItems_shows (argument_shows hsub) _ c h) ?_
    intro items c1 h1 hitems
    refine Read.gives_bind (Read.gives_from (c1.expect_gives _) h1) ?_
    intro t' d h2 hclose
    have hclose' : Shows True True c1.rest d.rest := Passes.mark hclose rfl
    have hall := (hmark (by rw [hkind]; rfl)).trans ((showsAll_of_items hitems).trans hclose')
    refine gives_ok ⟨hall.imp (fun hS hleft => ?_) fun hP => ?_, fun hP => ?_⟩
    · rw [Expr.Spelled]
      exact ⟨hleft, hS.2.1⟩
    · rw [Expr.isPlain, Bool.and_eq_true] at hP
      exact ⟨trivial, hP.2, trivial⟩
    · rw [Expr.isPlain, Bool.and_eq_true] at hP
      exact hP.1
  case h_8 =>
    split
    · exact Read.gives_imp (binary_shows hsub left _ c h) fun a ha => ha.goesOn
    · exact gives_error _

theorem extend_shows (hsub : ShowsExprs sub) (level : Power) (left : Expr) (c : Cursor) (h : c.size < n) :
    (extend sub level left c h).Gives (ShowsOn left c.rest) := by
  have hhere : ShowsOn left c.rest left c := ⟨(Shows.here _).imp (fun _ => id) fun _ => trivial, id⟩
  rw [extend]
  split
  · split
    · exact gives_ok hhere
    · rename_i t c1 h1 hnext
      have hpass : Passes c t c1 := Cursor.next?_passes hnext
      refine Read.gives_bind (Read.gives_since (extendAfter_shows hsub left t c1 _) h1) ?_
      intro longer c2 h2 hlonger
      refine Read.gives_bind (MayRead.gives_since (extend_shows hsub level longer c2 _) h2) ?_
      intro e d h3 he
      refine gives_ok ⟨?_, fun hP => hlonger.plain (he.plain hP)⟩
      rw [hpass.rest]
      exact (hlonger.shows.trans he.shows).imp (fun hS hleft => hS.2 (hS.1 hleft)) fun hP => ⟨he.plain hP, hP⟩
  · exact gives_ok hhere
termination_by c.size

end Exprs

/-! ## Expressions -/

/-- An expression that is read from spelled tokens is spelled, and a plain one from plain tokens. -/
theorem expr_shows (level : Power) (c : Cursor) : (expr level c).Gives (ShowsExpr c) := by
  have hsub : ShowsExprs (n := c.size) fun l c' _ => expr l c' := fun l c' _ => expr_shows l c'
  rw [expr]
  refine Read.gives_bind (operand_shows hsub c _) ?_
  intro left c1 h1 hleft
  refine Read.gives_imp (MayRead.gives_since (extend_shows hsub level left c1 _) h1) ?_
  exact fun a ha => (hleft.trans ha.shows).imp (fun hS => hS.2 hS.1) fun hP => ⟨ha.plain hP, hP⟩
termination_by c.size

theorem showsExprs_exprBelow (n : Nat) : ShowsExprs (exprBelow n) := fun level c _ => expr_shows level c

/-! ## Texts -/

theorem rest_ofTokens {body : List Token} {stop : Token} (hstop : stop.kind = .endOfInput)
    (hbody : ∀ t ∈ body, t.kind ≠ .endOfInput) : (Cursor.ofTokens (body ++ [stop])).rest = body := by
  rw [Cursor.ofTokens, List.takeWhile_append_of_pos (fun t ht => decide_eq_true (hbody t ht)),
    List.takeWhile_cons_of_neg (by simp [hstop]), List.append_nil]

/-- Where nothing but line ends is ahead. -/
theorem plain_of_skipNewlines {c : Cursor} (h : c.skipNewlines.rest.isEmpty = true) :
    ∀ t ∈ c.rest, t.kind.isPlain = true := by
  rw [Cursor.skipNewlines] at h
  split at h
  · rename_i t c1 h1 hnewline
    obtain ⟨hkind, hpass⟩ := Cursor.accept?_passes hnewline
    rw [hpass.rest]
    exact List.forall_mem_cons.mpr ⟨by rw [hkind]; rfl, plain_of_skipNewlines h⟩
  · rw [List.isEmpty_iff.mp h]
    exact List.forall_mem_nil _
termination_by c.size

/-- An expression that is the whole of a text is spelled, and if it is plain, the text is clean. -/
theorem ofText_shows {text : String} {e : Expr} (h : Expr.ofText text = .ok e) :
    e.Spelled ∧ (e.isPlain = true → Clean (Text.trimmed text).toList) := by
  obtain ⟨tokens, htokens, h⟩ := exists_of_bind_ok h
  obtain ⟨⟨e', c, hlt⟩, hread, h⟩ := exists_of_bind_ok h
  have hend : c.skipNewlines.rest.isEmpty = true ∧ e' = e := by
    dsimp only at h
    split at h
    · rename_i hempty
      exact ⟨hempty, Except.ok.inj h⟩
    · exact absurd h nofun
  obtain ⟨hempty, rfl⟩ := hend
  have hshows : ShowsExpr (Cursor.ofTokens tokens) e' c :=
    exprList_shows (showsExprs_exprBelow _) .least _ _ _ hread
  obtain ⟨body, stop, rfl, hstop, hbody⟩ := tokenize_ends htokens
  rw [ShowsExpr, rest_ofTokens hstop hbody] at hshows
  refine ⟨(hshows.spelled fun t ht => tokenize_spelled htokens t (List.mem_append_left _ ht)).1, fun hplain => ?_⟩
  refine clean_of_tokens htokens fun t ht hlayout => ?_
  rcases List.mem_append.mp ht with ht | ht
  · exact hshows.plain hplain (plain_of_skipNewlines hempty) t ht
  · rw [List.mem_singleton.mp ht, hstop]
    rfl

end TypeWatch.Reading
