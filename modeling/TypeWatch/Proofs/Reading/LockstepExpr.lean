import TypeWatch.Proofs.Reading.Lockstep

/-! # Readers of expressions in lockstep

One lemma for each reader of a part of expressions, each put together from those of the readers that it uses. What an
expression is depends on the tokens up to its border alone (`Lockstep.expr_matches`). -/
namespace TypeWatch.Reading
set_option autoImplicit false

open Layout (depthAfter)

/-! ## Parts that are moved -/

/-- A token that closes a bracket. -/
structure Closing (kind : TokenKind) : Prop where
  isLayout : kind.isLayout = false
  closes : ∀ depth, depthAfter (depth + 1) kind = depth

def Filling.moved (μ : Motion) : Filling → Filling
  | .loops clauses => .loops (clauses.map (Clause.moved μ))
  | .alone => .alone
  | .elements others => .elements (others.map (Expr.moved μ))

def ParameterItem.moved (μ : Motion) : ParameterItem → ParameterItem
  | .slash => .slash
  | .star => .star
  | .plain span name hint standard =>
    .plain (span.moved μ) name (hint.map (Expr.moved μ)) (standard.map (Expr.moved μ))
  | .variadic span name hint => .variadic (span.moved μ) name (hint.map (Expr.moved μ))
  | .variadicKeywords span name hint => .variadicKeywords (span.moved μ) name (hint.map (Expr.moved μ))

theorem positionalOnly_moved (μ : Motion) (p : Parameter) :
    positionalOnly (p.moved μ) = (positionalOnly p).moved μ := by
  obtain ⟨span, kind, name, hint, standard⟩ := p
  cases kind <;> rfl

theorem parametersOf_moved (μ : Motion) (kind : ParameterKind) (before : List Parameter)
    (items : List ParameterItem) : parametersOf kind (before.map (Parameter.moved μ)) (items.map (ParameterItem.moved μ)) =
      (parametersOf kind before items).map (Parameter.moved μ) := by
  induction items generalizing kind before with
  | nil => rfl
  | cons item items ih =>
    cases item with
    | slash =>
      have hbefore : (before.map (Parameter.moved μ)).map positionalOnly =
          (before.map positionalOnly).map (Parameter.moved μ) := by
        simp only [List.map_map, Function.comp_def, positionalOnly_moved]
      simp only [List.map_cons, ParameterItem.moved, parametersOf, hbefore, ih]
    | star => simp only [List.map_cons, ParameterItem.moved, parametersOf, ih]
    | plain | variadic | variadicKeywords =>
      simp only [List.map_cons, ParameterItem.moved, parametersOf, ← ih, List.map_append, List.map_nil,
        Parameter.moved, Expr.movedOption_eq, Option.map_none]

theorem stringConstant_moved (μ : Motion) (s : Span) (kind : TokenKind) (text : String) :
    (stringConstant kind text).moved μ s = stringConstant kind (μ.literal s text) := by
  unfold stringConstant
  split <;> rfl

/-- A token at which an expression begins, where a motion takes it together with the literals ahead. -/
structure FirstJoined (μ : Motion) (t : Token) (c : Cursor) : Prop where
  stop : c.lastEnd = t.span.stop
  joins : μ.Joins t.span.start c.lastEnd t.text c.rest

/-! ## Tokens that leave brackets as they are -/

theorem depthAfter_of_isString {kind : TokenKind} (h : kind.isString = true) (depth : Nat) :
    depthAfter depth kind = depth := by
  cases kind <;> first | rfl | exact absurd h nofun

theorem depthAfter_of_unary {kind : TokenKind} {op : UnaryOp} (h : UnaryOp.ofToken? kind = some op) (depth : Nat) :
    depthAfter depth kind = depth := by
  unfold UnaryOp.ofToken? at h
  split at h <;> first | rfl | exact absurd h nofun

theorem depthAfter_of_binary {kind : TokenKind} {op : BinaryOp} (h : BinaryOp.ofToken? kind = some op) (depth : Nat) :
    depthAfter depth kind = depth := by
  unfold BinaryOp.ofToken? at h
  split at h <;> first | rfl | exact absurd h nofun

/-- At a border there is no operand. -/
theorem operandAfter_border {n : Nat} {sub : Below n} {t : Token} (ht : isBorder t.kind = true) (c : Cursor)
    (h : c.size < n) : operandAfter sub t c h = .error ⟨.unexpected t.shown, t.span.start⟩ := by
  unfold operandAfter
  rcases isBorder_cases ht with ht | ht | ht | ht | ht <;> simp only [ht, UnaryOp.ofToken?]

/-- No string literal is a stop. -/
theorem isString_stop {kind : TokenKind} (h : isStop kind = true) : kind.isString = false :=
  of_isStop (p := fun k => k.isString = false) (by decide) h

/-- At a stop no operator follows. -/
theorem infixLevel_stop {kind : TokenKind} (h : isStop kind = true) : infixLevel kind = .least :=
  of_isStop (p := fun k => infixLevel k = .least) (by decide) h

/-- At a border there is no parameter. -/
theorem parameterItem_border {n : Nat} {sub : Below n} {annotated : Bool} {c : Cursor} {h : c.size < n}
    {a : Advanced ParameterItem c} (ha : parameterItem sub annotated c h = .ok a) : isBorder c.kind = false := by
  cases hborder : isBorder c.kind with
  | false => rfl
  | true =>
    have hne (kind : TokenKind) (hkind : isBorder kind = false) : c.kind ≠ kind := by
      rintro rfl
      cases hkind.symm.trans hborder
    rw [parameterItem, accept?_of_kind_ne (hne (.op .slash) rfl),
      accept?_of_kind_ne (hne (.op .star) rfl), accept?_of_kind_ne (hne (.op .doubleStar) rfl),
      Cursor.expectName, Cursor.expect, Cursor.demand, accept?_of_kind_ne (hne .name rfl)] at ha
    cases ha

namespace Lockstep

section Exprs

variable {L : Lockstep} {n n' : Nat} {sub : Below n} {sub' : Below n'} {depth : Nat}

/-! ## Comprehensions -/

theorem conditions_matches (hsub : L.KeepsExprs sub sub') {c d : Cursor} (hcd : L.At depth c d)
    (h : c.size < n) (h' : d.size < n') : (conditions sub c h).Matches (conditions sub' d h')
      (L.Keeps depth (List.map (Expr.moved L.motion))) := by
  rw [conditions, conditions]
  cases accept hcd (.word .kwIf) rfl with
  | none hc hd =>
    rw [hc, hd]
    exact matches_ok ⟨rfl, hcd⟩
  | @some t c1 d1 h1 h1' _ hc hd hif =>
    rw [hc, hd]
    refine Read.matches_bind (Read.matches_since (hsub .conditional _ _ _ hif) h1 h1') ?_
    rintro e c2 h2 _ d2 h2' ⟨rfl, he⟩
    refine Read.matches_bind (MayRead.matches_since (conditions_matches hsub he _ _) h2 h2') ?_
    rintro es c3 h3 _ d3 h3' ⟨rfl, hes⟩
    exact matches_ok ⟨rfl, hes⟩
termination_by c.size

theorem asyncMark_keeps {c d : Cursor} (hcd : L.At depth c d) :
    L.Keeps depth id (asyncMark c).value (asyncMark c).next (asyncMark d).value (asyncMark d).next := by
  unfold asyncMark
  cases accept hcd (.word .kwAsync) rfl with
  | none hc hd =>
    rw [hc, hd]
    exact ⟨rfl, hcd⟩
  | some _ hc hd hnext =>
    rw [hc, hd]
    exact ⟨rfl, hnext⟩

theorem clause_matches (hsub : L.KeepsExprs sub sub') {c d : Cursor} (hcd : L.At (depth + 1) c d)
    (h : c.size < n) (h' : d.size < n') : (clause sub c h).Matches (clause sub' d h')
      (L.Keeps (depth + 1) (Clause.moved L.motion)) := by
  have hasync := asyncMark_keeps hcd
  unfold clause
  generalize asyncMark c = mark at hasync ⊢
  generalize asyncMark d = mark' at hasync ⊢
  obtain ⟨isAsync, c1, h1⟩ := mark
  obtain ⟨isAsync', d1, h1'⟩ := mark'
  obtain ⟨rfl, hnext⟩ := hasync
  refine Read.matches_bind (Read.matches_from (expect hnext rfl) h1 h1') ?_
  rintro t c2 h2 _ d2 h2' ⟨rfl, -, hfor⟩
  refine Read.matches_bind (Read.matches_since (exprList_matches hsub (Or.inl depth.succ_pos) .comparison hfor _ _) h2 h2') ?_
  rintro target c3 h3 _ d3 h3' ⟨rfl, htarget⟩
  refine Read.matches_bind (Read.matches_since (expect htarget rfl) h3 h3') ?_
  rintro t' c4 h4 _ d4 h4' ⟨rfl, -, hin⟩
  refine Read.matches_bind (Read.matches_since (hsub .conditional _ _ _ hin) h4 h4') ?_
  rintro iter c5 h5 _ d5 h5' ⟨rfl, hiter⟩
  refine Read.matches_bind (MayRead.matches_since (conditions_matches hsub hiter _ _) h5 h5') ?_
  rintro tests c6 h6 _ d6 h6' ⟨rfl, htests⟩
  exact matches_ok ⟨by simp only [Clause.moved, Expr.movedList_eq], htests⟩

theorem clauses_matches (hsub : L.KeepsExprs sub sub') {c d : Cursor} (hcd : L.At (depth + 1) c d)
    (h : c.size < n) (h' : d.size < n') : (clauses sub c h).Matches (clauses sub' d h')
      (L.Keeps (depth + 1) (List.map (Clause.moved L.motion))) := by
  rw [clauses, clauses, opensClause hcd]
  split
  · refine Read.matches_bind (clause_matches hsub hcd h h') ?_
    rintro x c1 h1 _ d1 h1' ⟨rfl, hx⟩
    refine Read.matches_bind (MayRead.matches_since (clauses_matches hsub hx _ _) h1 h1') ?_
    rintro xs c2 h2 _ d2 h2' ⟨rfl, hxs⟩
    exact matches_ok ⟨rfl, hxs⟩
  · exact matches_ok ⟨rfl, hcd⟩
termination_by c.size

/-! ## Displays -/

theorem filling_matches (hsub : L.KeepsExprs sub sub') {closing : TokenKind} (hclosing : Closing closing) {c d : Cursor}
    (hcd : L.At (depth + 1) c d) (h : c.size < n) (h' : d.size < n') :
    (filling sub closing c h).Matches (filling sub' closing d h')
      (L.Keeps depth (Filling.moved L.motion)) := by
  have hclose {e f : Cursor} (hef : L.At (depth + 1) e f) :
      (e.expect closing).Matches (f.expect closing) fun _ e1 _ f1 => L.At depth e1 f1 :=
    Read.matches_imp (expect_inner hef hclosing.isLayout) fun _ _ _ _ hnext => hclosing.closes depth ▸ hnext.2.2
  unfold filling
  rw [opensClause hcd, kind_inner hcd]
  split
  · refine MayRead.matches_bind (clauses_matches hsub hcd h h') ?_
    rintro loops c1 h1 _ d1 h1' ⟨rfl, hloops⟩
    refine Read.matches_bind (Read.matches_from (hclose hloops) h1 h1') ?_
    intro t c2 h2 _ d2 h2' hend
    exact matches_ok ⟨rfl, hend⟩
  · split
    · refine MayRead.matches_bind (followers_inner (hsub .least _) _ hcd h h') ?_
      rintro others c1 h1 _ d1 h1' ⟨rfl, hothers⟩
      refine Read.matches_bind (Read.matches_from (hclose hothers) h1 h1') ?_
      intro t c2 h2 _ d2 h2' hend
      exact matches_ok ⟨rfl, hend⟩
    · refine Read.matches_bind (hclose hcd) ?_
      intro t c1 h1 _ d1 h1' hend
      exact matches_ok ⟨rfl, hend⟩

theorem parenthesized_matches (hsub : L.KeepsExprs sub sub') (start : Position) {c d : Cursor}
    (hcd : L.At (depth + 1) c d) (h : c.size < n) (h' : d.size < n') :
    (parenthesized sub start c h).Matches (parenthesized sub' (L.motion.start start) d h')
      (L.Keeps depth (Expr.moved L.motion)) := by
  unfold parenthesized
  cases accept_inner hcd (.op .closeParen) rfl with
  | some _ hc hd hend =>
    rw [hc, hd]
    refine matches_ok ⟨?_, hend⟩
    simp only [Expr.moved, spanFrom hend, Expr.movedList_eq, List.map_nil]
  | none hc hd =>
    rw [hc, hd]
    refine Read.matches_bind (hsub .least _ h h' hcd) ?_
    rintro first c1 h1 _ d1 h1' ⟨rfl, hfirst⟩
    refine Read.matches_bind (Read.matches_since (filling_matches hsub ⟨rfl, fun _ => rfl⟩ hfirst _ _) h1 h1') ?_
    rintro rest c2 h2 _ d2 h2' ⟨rfl, hrest⟩
    cases rest with
    | loops loops =>
      refine matches_ok ⟨?_, hrest⟩
      simp only [Expr.moved, spanFrom hrest, Expr.movedOption_eq, Option.map_none, Clause.movedList_eq]
    | alone => exact matches_ok ⟨rfl, hrest⟩
    | elements others =>
      refine matches_ok ⟨?_, hrest⟩
      simp only [Expr.moved, spanFrom hrest, Expr.movedList_eq, List.map_cons]

theorem listDisplay_matches (hsub : L.KeepsExprs sub sub') (start : Position) {c d : Cursor}
    (hcd : L.At (depth + 1) c d) (h : c.size < n) (h' : d.size < n') :
    (listDisplay sub start c h).Matches (listDisplay sub' (L.motion.start start) d h')
      (L.Keeps depth (Expr.moved L.motion)) := by
  unfold listDisplay
  cases accept_inner hcd (.op .closeBracket) rfl with
  | some _ hc hd hend =>
    rw [hc, hd]
    refine matches_ok ⟨?_, hend⟩
    simp only [Expr.moved, spanFrom hend, Expr.movedList_eq, List.map_nil]
  | none hc hd =>
    rw [hc, hd]
    refine Read.matches_bind (hsub .least _ h h' hcd) ?_
    rintro first c1 h1 _ d1 h1' ⟨rfl, hfirst⟩
    refine Read.matches_bind (Read.matches_since (filling_matches hsub ⟨rfl, fun _ => rfl⟩ hfirst _ _) h1 h1') ?_
    rintro rest c2 h2 _ d2 h2' ⟨rfl, hrest⟩
    cases rest with
    | loops loops =>
      refine matches_ok ⟨?_, hrest⟩
      simp only [Expr.moved, spanFrom hrest, Expr.movedOption_eq, Option.map_none, Clause.movedList_eq]
    | alone | elements others =>
      refine matches_ok ⟨?_, hrest⟩
      simp only [Expr.moved, spanFrom hrest, Expr.movedList_eq, List.map_cons, List.map_nil]

theorem entry_matches (hsub : L.KeepsExprs sub sub') :
    L.KeepsItems (depth + 1) (entry sub) (entry sub') (Entry.moved L.motion) := by
  intro c d h h' hcd
  unfold entry
  cases accept hcd (.op .doubleStar) rfl with
  | some _ hc hd hstars =>
    rw [hc, hd]
    refine Read.matches_bind (Read.matches_since (hsub .comparison _ _ _ hstars) _ _) ?_
    rintro value c1 h1 _ d1 h1' ⟨rfl, hvalue⟩
    exact matches_ok ⟨rfl, hvalue⟩
  | none hc hd =>
    rw [hc, hd]
    refine Read.matches_bind (hsub .least _ h h' hcd) ?_
    rintro key c1 h1 _ d1 h1' ⟨rfl, hkey⟩
    refine Read.matches_bind (Read.matches_since (expect_inner hkey rfl) h1 h1') ?_
    rintro t c2 h2 _ d2 h2' ⟨rfl, -, hcolon⟩
    refine Read.matches_bind (Read.matches_since (hsub .least _ _ _ hcolon) h2 h2') ?_
    rintro value c3 h3 _ d3 h3' ⟨rfl, hvalue⟩
    exact matches_ok ⟨rfl, hvalue⟩

theorem dictRest_matches (hsub : L.KeepsExprs sub sub') (start : Position) (first : Entry) {c d : Cursor}
    (hcd : L.At (depth + 1) c d) (h : c.size < n) (h' : d.size < n') :
    (dictRest sub start first c h).Matches (dictRest sub' (L.motion.start start) (first.moved L.motion) d h')
      (L.Keeps depth (Expr.moved L.motion)) := by
  refine MayRead.matches_bind (followers_inner (entry_matches hsub) _ hcd h h') ?_
  rintro others c1 h1 _ d1 h1' ⟨rfl, hothers⟩
  refine Read.matches_bind (Read.matches_from (expect_inner hothers rfl) h1 h1') ?_
  rintro t c2 h2 _ d2 h2' ⟨rfl, -, hend⟩
  refine matches_ok ⟨?_, hend⟩
  simp only [Expr.moved, spanFrom hend, Entry.movedList_eq, List.map_cons]

theorem dictAfterKey_matches (hsub : L.KeepsExprs sub sub') (start : Position) (key : Expr) {c d : Cursor}
    (hcd : L.At (depth + 1) c d) (h : c.size < n) (h' : d.size < n') :
    (dictAfterKey sub start key c h).Matches (dictAfterKey sub' (L.motion.start start) (key.moved L.motion) d h')
      (L.Keeps depth (Expr.moved L.motion)) := by
  refine Read.matches_bind (hsub .least _ h h' hcd) ?_
  rintro value c1 h1 _ d1 h1' ⟨rfl, hvalue⟩
  dsimp only
  rw [opensClause hvalue]
  split
  · refine Read.matches_bind (MayRead.matches_since (clauses_matches hsub hvalue _ _) h1 h1') ?_
    rintro loops c2 h2 _ d2 h2' ⟨rfl, hloops⟩
    refine Read.matches_bind (Read.matches_since (expect_inner hloops rfl) h2 h2') ?_
    rintro t c3 h3 _ d3 h3' ⟨rfl, -, hend⟩
    refine matches_ok ⟨?_, hend⟩
    simp only [Expr.moved, spanFrom hend, Expr.movedOption_eq, Option.map_some, Clause.movedList_eq]
  · exact Read.matches_since (dictRest_matches hsub start (.pair key value) hvalue _ _) h1 h1'

theorem braceDisplay_matches (hsub : L.KeepsExprs sub sub') (start : Position) {c d : Cursor}
    (hcd : L.At (depth + 1) c d) (h : c.size < n) (h' : d.size < n') :
    (braceDisplay sub start c h).Matches (braceDisplay sub' (L.motion.start start) d h')
      (L.Keeps depth (Expr.moved L.motion)) := by
  unfold braceDisplay
  cases accept_inner hcd (.op .closeBrace) rfl with
  | some _ hc hd hend =>
    rw [hc, hd]
    refine matches_ok ⟨?_, hend⟩
    simp only [Expr.moved, spanFrom hend, Entry.movedList_eq, List.map_nil]
  | none hc hd =>
    rw [hc, hd]
    dsimp only
    cases accept hcd (.op .doubleStar) rfl with
    | some _ hc hd hstars =>
      rw [hc, hd]
      refine Read.matches_bind (Read.matches_since (hsub .comparison _ _ _ hstars) _ _) ?_
      rintro value c1 h1 _ d1 h1' ⟨rfl, hvalue⟩
      exact Read.matches_since (dictRest_matches hsub start (.unpack value) hvalue _ _) h1 h1'
    | none hc hd =>
      rw [hc, hd]
      refine Read.matches_bind (hsub .least _ h h' hcd) ?_
      rintro first c1 h1 _ d1 h1' ⟨rfl, hfirst⟩
      dsimp only
      cases accept_inner hfirst (.op .colon) rfl with
      | @some t c2 d2 h2 h2' _ hc hd hcolon =>
        rw [hc, hd]
        exact Read.matches_since (dictAfterKey_matches hsub start first hcolon _ _) _ _
      | none hc hd =>
        rw [hc, hd]
        refine Read.matches_bind (Read.matches_since (filling_matches hsub ⟨rfl, fun _ => rfl⟩ hfirst _ _) h1 h1') ?_
        rintro rest c2 h2 _ d2 h2' ⟨rfl, hrest⟩
        cases rest with
        | loops loops =>
          refine matches_ok ⟨?_, hrest⟩
          simp only [Expr.moved, spanFrom hrest, Expr.movedOption_eq, Option.map_none, Clause.movedList_eq]
        | alone | elements others =>
          refine matches_ok ⟨?_, hrest⟩
          simp only [Expr.moved, spanFrom hrest, Expr.movedList_eq, List.map_cons, List.map_nil]

/-! ## Parameters -/

/-- What ends at a clear place after a mark begins at one, or was left out there. -/
theorem clear_of_exprAfter {mark : TokenKind} (hmark : isBorder mark = false) {level : Power} {c : Cursor}
    {h : c.size < n} {a : Moved (Option Expr) c} (ha : exprAfter sub mark level c h = .ok a)
    (hclear : L.Clear depth a.next) : L.Clear depth c := by
  by_cases hkind : c.kind = mark
  · exact clear_of_isBorder (hkind ▸ hmark)
  · rw [exprAfter, accept?_of_kind_ne hkind] at ha
    obtain rfl := Except.ok.inj ha
    exact hclear

theorem exprAfter_clear (hsub : L.KeepsExprs sub sub') {mark : TokenKind} (hmark : isBorder mark = false)
    (hbracket : depthAfter depth mark = depth) (level : Power) {c d : Cursor} (hcd : L.At depth c d) (h : c.size < n)
    (h' : d.size < n') {a : Moved (Option Expr) c} (ha : exprAfter sub mark level c h = .ok a)
    (hclear : L.Clear depth a.next) : ∃ b, exprAfter sub' mark level d h' = .ok b ∧
      L.Keeps depth (Option.map (Expr.moved L.motion)) a.value a.next b.value b.next := by
  have haccept := (clear_of_exprAfter hmark ha hclear).accept hcd mark (Or.inl hmark)
  exact exprAfter_matches hsub haccept hbracket level hcd h h' a ha

theorem hintAfter_clear (hsub : L.KeepsExprs sub sub') (annotated : Bool) {c d : Cursor} (hcd : L.At depth c d)
    (h : c.size < n) (h' : d.size < n') {a : Moved (Option Expr) c} (ha : hintAfter sub annotated c h = .ok a)
    (hclear : L.Clear depth a.next) : ∃ b, hintAfter sub' annotated d h' = .ok b ∧
      L.Keeps depth (Option.map (Expr.moved L.motion)) a.value a.next b.value b.next := by
  cases annotated with
  | true => exact exprAfter_clear hsub rfl rfl .named hcd h h' ha hclear
  | false =>
    obtain rfl := Except.ok.inj ha
    exact ⟨_, rfl, rfl, hcd⟩

/-- What an entry of a parameter list is, if it does not end where the streams differ. -/
theorem parameterItem_clear (hsub : L.KeepsExprs sub sub') (annotated : Bool) :
    L.KeepsClear depth (parameterItem sub annotated) (parameterItem sub' annotated) (ParameterItem.moved L.motion) := by
  intro c d h h' hcd a ha hclear
  refine ⟨parameterItem_border ha, ?_⟩
  unfold parameterItem at ha ⊢
  cases accept hcd (.op .slash) rfl with
  | some _ hc hd hslash =>
    rw [hc] at ha
    rw [hd]
    obtain rfl := Except.ok.inj ha
    exact ⟨_, rfl, rfl, hslash⟩
  | none hc hd =>
    rw [hc] at ha
    rw [hd]
    dsimp only at ha ⊢
    cases accept hcd (.op .star) rfl with
    | some _ hc hd hstar =>
      rw [hc] at ha
      rw [hd]
      dsimp only at ha ⊢
      cases accept hstar (.name) rfl with
      | none hc hd =>
        rw [hc] at ha
        rw [hd]
        obtain rfl := Except.ok.inj ha
        exact ⟨_, rfl, rfl, hstar⟩
      | some ht hc hd hname =>
        have hstring := congrArg TokenKind.isString ht
        rw [hc] at ha
        rw [hd]
        obtain ⟨⟨hint, c3, h3⟩, hhint, ha⟩ := exists_of_bind_ok ha
        obtain rfl := Except.ok.inj ha
        obtain ⟨_, hhint⟩ := MayRead.exists_of_since hhint
        obtain ⟨⟨_, d3, h3'⟩, hhint', rfl, hat⟩ := hintAfter_clear hsub annotated hname _ _ hhint hclear
        refine ⟨_, bind_of_ok (MayRead.since_of_ok hhint' _) rfl, ?_, hat⟩
        simp only [ParameterItem.moved, position hcd, Moved.since, spanFrom hat, Token.text_moved hstring]
    | none hc hd =>
      rw [hc] at ha
      rw [hd]
      dsimp only at ha ⊢
      cases accept hcd (.op .doubleStar) rfl with
      | @some t c1 d1 h1 h1' _ hc hd hstars =>
        rw [hc] at ha
        rw [hd]
        obtain ⟨⟨name, c2, h2⟩, hname, ha⟩ := exists_of_bind_ok ha
        obtain ⟨⟨hint, c3, h3⟩, hhint, ha⟩ := exists_of_bind_ok ha
        obtain rfl := Except.ok.inj ha
        obtain ⟨⟨_, d2, h2'⟩, hname', rfl, hat⟩ := Read.matches_since (expectName hstars) h1 h1' _ hname
        obtain ⟨_, hhint⟩ := MayRead.exists_of_since hhint
        obtain ⟨⟨_, d3, h3'⟩, hhint', rfl, hat⟩ := hintAfter_clear hsub annotated hat _ _ hhint hclear
        refine ⟨_, bind_of_ok hname' (bind_of_ok (MayRead.since_of_ok hhint' _) rfl), ?_, hat⟩
        simp only [ParameterItem.moved, position hcd, Moved.since, spanFrom hat]
      | none hc hd =>
        rw [hc] at ha
        rw [hd]
        obtain ⟨⟨name, c1, h1⟩, hname, ha⟩ := exists_of_bind_ok ha
        obtain ⟨⟨hint, c2, h2⟩, hhint, ha⟩ := exists_of_bind_ok ha
        obtain ⟨⟨standard, c3, h3⟩, hstandard, ha⟩ := exists_of_bind_ok ha
        obtain rfl := Except.ok.inj ha
        obtain ⟨_, hhint⟩ := MayRead.exists_of_since hhint
        obtain ⟨_, hstandard⟩ := MayRead.exists_of_since hstandard
        obtain ⟨⟨_, d1, h1'⟩, hname', rfl, hat⟩ := expectName hcd _ hname
        -- the annotation ends at a clear place, since the default does or is left out there
        have hbetween := clear_of_exprAfter rfl hstandard hclear
        obtain ⟨⟨_, d2, h2'⟩, hhint', rfl, hat⟩ := hintAfter_clear hsub annotated hat _ _ hhint hbetween
        obtain ⟨⟨_, d3, h3'⟩, hstandard', rfl, hat⟩ := exprAfter_clear hsub rfl rfl .named hat _ _ hstandard hclear
        refine ⟨_, bind_of_ok hname' (bind_of_ok (MayRead.since_of_ok hhint' _)
          (bind_of_ok (MayRead.since_of_ok hstandard' _) rfl)), ?_, hat⟩
        simp only [ParameterItem.moved, position hcd, Moved.since, spanFrom hat]

/-- The parameters before a clear place. -/
theorem parameters_clear (hsub : L.KeepsExprs sub sub') (closing : TokenKind) (annotated : Bool) {c d : Cursor}
    (hcd : L.At depth c d) (h : c.size < n) (h' : d.size < n') {a : Moved (List Parameter) c}
    (ha : parameters sub closing annotated c h = .ok a) (hclear : L.Clear depth a.next) :
    ∃ b, parameters sub' closing annotated d h' = .ok b ∧
      L.Keeps depth (List.map (Parameter.moved L.motion)) a.value a.next b.value b.next := by
  obtain ⟨⟨items, c1, h1⟩, hitems, ha⟩ := exists_of_bind_ok ha
  obtain rfl := Except.ok.inj ha
  obtain ⟨⟨_, d1, h1'⟩, hitems', rfl, hnext⟩ :=
    anyItems_clear (parameterItem_clear hsub annotated) closing hcd h h' hitems hclear
  exact ⟨_, bind_of_ok hitems' rfl, parametersOf_moved L.motion .regular [] items, hnext⟩

/-! ## Arguments and indices -/

theorem plainArgument_matches (hsub : L.KeepsExprs sub sub') :
    L.KeepsItems (depth + 1) (plainArgument sub) (plainArgument sub') (Expr.moved L.motion) := by
  intro c d h h' hcd
  refine Read.matches_bind (hsub .least _ h h' hcd) ?_
  rintro e c1 h1 _ d1 h1' ⟨rfl, he⟩
  dsimp only
  rw [opensClause he]
  split
  · refine Read.matches_bind (MayRead.matches_since (clauses_matches hsub he _ _) h1 h1') ?_
    rintro loops c2 h2 _ d2 h2' ⟨rfl, hloops⟩
    refine matches_ok ⟨?_, hloops⟩
    simp only [Expr.moved, position hcd, spanFrom hloops, Expr.movedOption_eq, Option.map_none, Clause.movedList_eq]
  · exact matches_ok ⟨rfl, he⟩

/-- What the names of arguments in two streams are, if they begin the arguments. -/
inductive NameAt (L : Lockstep) (depth : Nat) (c d : Cursor) : Prop
  | none : argumentName? c = none → argumentName? d = none → NameAt L depth c d
  | some {name : String} {c1 d1 : Cursor} {h : c1.size < c.size} {h' : d1.size < d.size} :
      argumentName? c = some ⟨name, c1, h⟩ → argumentName? d = some ⟨name, d1, h'⟩ →
      L.At depth c1 d1 → NameAt L depth c d

theorem argumentName {c d : Cursor} (hcd : L.At (depth + 1) c d) : NameAt L (depth + 1) c d := by
  cases accept hcd (.name) rfl with
  | none hc hd => exact .none (by rw [argumentName?, hc]) (by rw [argumentName?, hd])
  | @some t c1 d1 h1 h1' ht hc hd hname =>
    have htext : (t.moved L.motion).text = t.text := Token.text_moved (congrArg TokenKind.isString ht)
    have hname : L.At (depth + 1) c1 d1 := hname
    cases accept_inner hname (.op .assign) rfl with
    | none hc1 hd1 =>
      refine .none ?_ ?_
      · simp only [argumentName?, hc, hc1, TryRead.since, Option.map_none]
      · simp only [argumentName?, hd, hd1, TryRead.since, Option.map_none]
    | @some _ c2 d2 h2 h2' _ hc1 hd1 hassign =>
      refine @NameAt.some _ _ _ _ t.text _ _ (Nat.lt_trans h2 h1) (Nat.lt_trans h2' h1') ?_ ?_ hassign
      · simp only [argumentName?, hc, hc1, TryRead.since, Option.map_some]
      · simp only [argumentName?, hd, hd1, TryRead.since, Option.map_some, htext]

theorem argument_matches (hsub : L.KeepsExprs sub sub') :
    L.KeepsItems (depth + 1) (argument sub) (argument sub') (Expr.moved L.motion) := by
  intro c d h h' hcd
  unfold argument
  cases accept hcd (.op .star) rfl with
  | some _ hc hd hstar =>
    rw [hc, hd]
    refine Read.matches_bind (Read.matches_since (hsub .comparison _ _ _ hstar) _ _) ?_
    rintro value c1 h1 _ d1 h1' ⟨rfl, hvalue⟩
    refine matches_ok ⟨?_, hvalue⟩
    simp only [Expr.moved, Expr.span_moved]
    rfl
  | none hc hd =>
    rw [hc, hd]
    dsimp only
    cases accept hcd (.op .doubleStar) rfl with
    | some _ hc hd hstars =>
      rw [hc, hd]
      refine Read.matches_bind (Read.matches_since (hsub .named _ _ _ hstars) _ _) ?_
      rintro value c1 h1 _ d1 h1' ⟨rfl, hvalue⟩
      refine matches_ok ⟨?_, hvalue⟩
      simp only [Expr.moved, position hcd, spanFrom hvalue]
    | none hc hd =>
      rw [hc, hd]
      dsimp only
      cases argumentName hcd with
      | some hc hd hname =>
        rw [hc, hd]
        refine Read.matches_bind (Read.matches_since (hsub .named _ _ _ hname) _ _) ?_
        rintro value c1 h1 _ d1 h1' ⟨rfl, hvalue⟩
        refine matches_ok ⟨?_, hvalue⟩
        simp only [Expr.moved, position hcd, spanFrom hvalue]
      | none hc hd =>
        rw [hc, hd]
        exact plainArgument_matches hsub h h' hcd

theorem arguments_matches (hsub : L.KeepsExprs sub sub') {c d : Cursor} (hcd : L.At depth c d)
    (h : c.size < n) (h' : d.size < n') : (arguments sub c h).Matches (arguments sub' d h')
      (L.Keeps depth (List.map (Expr.moved L.motion))) := by
  refine Read.matches_bind (expect hcd rfl) ?_
  rintro t c1 h1 _ d1 h1' ⟨rfl, -, hopen⟩
  have hopen : L.At (depth + 1) c1 d1 := hopen
  refine Read.matches_bind (MayRead.matches_since (anyItems_inner (argument_matches hsub) _ hopen _ _) h1 h1') ?_
  rintro items c2 h2 _ d2 h2' ⟨rfl, hitems⟩
  refine Read.matches_bind (Read.matches_since (expect_inner hitems rfl) h2 h2') ?_
  rintro t' c3 h3 _ d3 h3' ⟨rfl, -, hend⟩
  exact matches_ok ⟨rfl, hend⟩

theorem sliceRest_matches (hsub : L.KeepsExprs sub sub') (start : Position) (lower : Option Expr) {c d : Cursor}
    (hcd : L.At (depth + 1) c d) (h : c.size < n) (h' : d.size < n') :
    (sliceRest sub start lower c h).Matches
      (sliceRest sub' (L.motion.start start) (lower.map (Expr.moved L.motion)) d h')
      (L.Keeps (depth + 1) (Expr.moved L.motion)) := by
  refine Read.matches_bind (expect_inner hcd rfl) ?_
  rintro t c1 h1 _ d1 h1' ⟨rfl, -, hcolon⟩
  have hcolon : L.At (depth + 1) c1 d1 := hcolon
  refine Read.matches_bind (MayRead.matches_since (exprUnless_matches hsub _ hcolon _ _) h1 h1') ?_
  rintro upper c2 h2 _ d2 h2' ⟨rfl, hupper⟩
  dsimp only
  cases accept_inner hupper (.op .colon) rfl with
  | none hc hd =>
    rw [hc, hd]
    refine matches_ok ⟨?_, hupper⟩
    simp only [Expr.moved, spanFrom hupper, Expr.movedOption_eq, Option.map_none]
  | @some _ c3 d3 _ _ _ hc hd hsecond =>
    have hsecond : L.At (depth + 1) c3 d3 := hsecond
    rw [hc, hd]
    refine Read.matches_bind (MayRead.matches_since (exprUnless_matches hsub _ hsecond _ _) _ _) ?_
    rintro step c4 h4 _ d4 h4' ⟨rfl, hstep⟩
    refine matches_ok ⟨?_, hstep⟩
    simp only [Expr.moved, spanFrom hstep, Expr.movedOption_eq]

theorem index_matches (hsub : L.KeepsExprs sub sub') :
    L.KeepsItems (depth + 1) (index sub) (index sub') (Expr.moved L.motion) := by
  intro c d h h' hcd
  unfold index
  rw [kind_inner hcd, position hcd]
  split
  · exact sliceRest_matches hsub _ none hcd h h'
  · refine Read.matches_bind (hsub .least _ h h' hcd) ?_
    rintro lower c1 h1 _ d1 h1' ⟨rfl, hlower⟩
    dsimp only
    rw [kind_inner hlower]
    split
    · exact Read.matches_since (sliceRest_matches hsub _ (some lower) hlower _ _) h1 h1'
    · exact matches_ok ⟨rfl, hlower⟩

theorem indices_matches (hsub : L.KeepsExprs sub sub') {c d : Cursor} (hcd : L.At (depth + 1) c d)
    (h : c.size < n) (h' : d.size < n') : (indices sub c h).Matches (indices sub' d h')
      (L.Keeps (depth + 1) (Expr.moved L.motion)) := by
  refine Read.matches_bind (index_matches hsub h h' hcd) ?_
  rintro first c1 h1 _ d1 h1' ⟨rfl, hfirst⟩
  dsimp only
  rw [kind_inner hfirst]
  split
  · refine Read.matches_bind (MayRead.matches_since (followers_inner (index_matches hsub) _ hfirst _ _) h1 h1') ?_
    rintro others c2 h2 _ d2 h2' ⟨rfl, hothers⟩
    refine matches_ok ⟨?_, hothers⟩
    simp only [spanFrom_expr hothers, Expr.moved, Expr.movedList_eq, List.map_cons]
  · exact matches_ok ⟨rfl, hfirst⟩

/-! ## Operands -/

/-- String literals ahead of others, where a motion takes them together as it takes them one by one. -/
theorem moreStrings_keeps (kind : TokenKind) (text : String) (p : Position) {c d : Cursor}
    (hcd : L.At depth c d) (hjoins : L.motion.Joins p c.lastEnd text c.rest) :
    (moreStrings kind (L.motion.literal ⟨p, c.lastEnd⟩ text) d).value = ((moreStrings kind text c).value.1,
      L.motion.literal ⟨p, (moreStrings kind text c).next.lastEnd⟩ (moreStrings kind text c).value.2) ∧
    L.At depth (moreStrings kind text c).next
      (moreStrings kind (L.motion.literal ⟨p, c.lastEnd⟩ text) d).next := by
  have hagrees : d.kind.isString = c.kind.isString := Blind.kind (blind fun k hk => isString_stop hk) hcd
  rw [moreStrings, moreStrings, hagrees]
  split
  · rename_i hstring
    cases L.next hcd with
    | @token t c1 d1 h1 h1' hno _ _ hc hd hnext =>
      rw [kind_of_next? hc] at hstring
      rw [depthAfter_of_isString hstring] at hnext
      rw [(Cursor.next?_passes hc).rest] at hjoins
      obtain ⟨htext, hjoins⟩ := hjoins hstring
      rw [(Cursor.next?_passes hc).lastEnd_eq hno] at htext hjoins
      rw [hc, hd]
      dsimp only
      rw [Token.literal_moved hstring, ← htext]
      exact moreStrings_keeps _ _ p hnext hjoins
    | border hmeets _ hc _ =>
      rw [kind_of_next? hc, isString_stop (isStop_of_isBorder hmeets.isBorder)] at hstring
      cases hstring
  · exact ⟨rfl, hcd⟩
termination_by c.size

theorem strings_keeps {first : Token} (hfirst : first.kind.isString = true) {c d : Cursor}
    (hcd : L.At depth c d) (hc : FirstJoined L.motion first c) :
    L.Keeps depth (Expr.moved L.motion) (strings first c).value (strings first c).next
      (strings (first.moved L.motion) d).value (strings (first.moved L.motion) d).next := by
  obtain ⟨hvalue, hnext⟩ := moreStrings_keeps first.kind first.text first.span.start hcd hc.joins
  rw [hc.stop] at hvalue hnext
  have hmoved : (first.moved L.motion).text = L.motion.literal ⟨first.span.start, first.span.stop⟩ first.text :=
    Token.literal_moved hfirst
  simp only [strings, hmoved]
  have hsame : (first.moved L.motion).kind = first.kind := rfl
  rw [hsame]
  generalize moreStrings first.kind first.text c = more at hvalue hnext ⊢
  generalize moreStrings first.kind (L.motion.literal ⟨first.span.start, first.span.stop⟩ first.text) d = more'
    at hvalue hnext ⊢
  obtain ⟨⟨kind, text⟩, c1, h1⟩ := more
  obtain ⟨value, d1, h1'⟩ := more'
  obtain rfl : value = _ := hvalue
  refine ⟨?_, hnext⟩
  simp only [Expr.moved, stringConstant_moved]
  exact congrArg (Expr.constant · _) (spanFrom hnext _)

theorem lambda_matches (hsub : L.KeepsExprs sub sub') (start : Position) {c d : Cursor}
    (hcd : L.At depth c d) (h : c.size < n) (h' : d.size < n') :
    (lambda sub start c h).Matches (lambda sub' (L.motion.start start) d h')
      (L.Keeps depth (Expr.moved L.motion)) := by
  intro a hlambda
  obtain ⟨⟨list, c1, h1⟩, hparameters, ha⟩ := exists_of_bind_ok hlambda
  -- the parameters end at a colon, at which the first stream has no border
  have hcolon : c1.kind = .op .colon := by
    obtain ⟨b, hb, -⟩ := exists_of_bind_ok ha
    obtain ⟨b', hb', -⟩ := exists_of_map_ok hb
    obtain ⟨hkind, hpass⟩ := c1.expect_gives _ _ hb'
    rw [Cursor.kind, Cursor.token, hpass.rest]
    exact hkind
  have hclear : L.Clear depth c1 := clear_of_isBorder (by rw [hcolon]; rfl)
  obtain ⟨⟨_, d1, h1'⟩, hparameters', rfl, hlist⟩ := parameters_clear hsub _ false hcd h h' hparameters hclear
  have hmark : (c1.expect (.op .colon)).Matches (d1.expect (.op .colon)) _ :=
    demand_of (hclear.accept hlist _ (Or.inl rfl)) _ _
  rw [lambda, hparameters']
  refine Read.matches_bind (P := fun (a : Advanced Expr c) (b : Advanced Expr d) =>
    L.Keeps depth (Expr.moved L.motion) a.value a.next b.value b.next) (Read.matches_from hmark h1 h1') ?_ a ha
  rintro t c2 h2 _ d2 h2' ⟨rfl, -, hcolon⟩
  refine Read.matches_bind (Read.matches_since (hsub .named _ _ _ hcolon) h2 h2') ?_
  rintro body c3 h3 _ d3 h3' ⟨rfl, hbody⟩
  refine matches_ok ⟨?_, hbody⟩
  simp only [Expr.moved, Expr.span_moved, Parameter.movedList_eq]
  rfl

theorem yielded_matches (hsub : L.KeepsExprs sub sub') (hsafe : 0 < depth ∨ ¬L.others (.op .comma)) (start : Position) {c d : Cursor}
    (hcd : L.At depth c d) (h : c.size < n) (h' : d.size < n') :
    (yielded sub start c h).Matches (yielded sub' (L.motion.start start) d h')
      (L.Keeps depth (Expr.moved L.motion)) := by
  have hopens : opensExpr d.kind = opensExpr c.kind := Blind.kind (blind fun k hk => opensExpr_stop hk) hcd
  unfold yielded
  cases accept hcd (.word .kwFrom) rfl with
  | some _ hc hd hfrom =>
    rw [hc, hd]
    refine Read.matches_bind (Read.matches_since (hsub .least _ _ _ hfrom) _ _) ?_
    rintro value c1 h1 _ d1 h1' ⟨rfl, hvalue⟩
    refine matches_ok ⟨?_, hvalue⟩
    simp only [Moved.past, Expr.moved, spanFrom hvalue, Expr.movedOption_eq, Option.map_some]
  | none hc hd =>
    rw [hc, hd]
    dsimp only
    rw [hopens]
    split
    · refine Read.matches_bind (exprList_matches hsub hsafe .least hcd h h') ?_
      rintro value c1 h1 _ d1 h1' ⟨rfl, hvalue⟩
      refine matches_ok ⟨?_, hvalue⟩
      simp only [Moved.past, Expr.moved, spanFrom hvalue, Expr.movedOption_eq, Option.map_some]
    · refine matches_ok ⟨?_, hcd⟩
      simp only [Moved.here, Expr.moved, spanFrom hcd, Expr.movedOption_eq, Option.map_none]

/-- An operand whose first token has been read, with the brackets that are open before that token. -/
theorem operandAfter_matches (hsub : L.KeepsExprs sub sub') (t : Token)
    (hsafe : t.kind = .word .kwYield → 0 < depth ∨ ¬L.others (.op .comma)) {c d : Cursor}
    (hcd : L.At (depthAfter depth t.kind) c d) (hc : FirstJoined L.motion t c) (h : c.size < n)
    (h' : d.size < n') :
    (operandAfter sub t c h).Matches (operandAfter sub' (t.moved L.motion) d h')
      (L.Keeps depth (Expr.moved L.motion)) := by
  have hkind : (t.moved L.motion).kind = t.kind := rfl
  unfold operandAfter
  dsimp only
  rw [hkind]
  split
  case h_1 hkind | h_2 hkind =>
    rw [hkind] at hcd
    rw [Token.text_moved (congrArg TokenKind.isString hkind)]
    exact matches_ok ⟨rfl, hcd⟩
  case h_3 hkind | h_4 hkind | h_5 hkind | h_6 hkind =>
    rw [hkind] at hcd
    exact matches_ok ⟨rfl, hcd⟩
  case h_7 hkind | h_8 hkind | h_9 hkind =>
    rw [hkind] at hcd
    exact matches_ok (strings_keeps (congrArg TokenKind.isString hkind) hcd hc)
  case h_10 hkind =>
    rw [hkind] at hcd
    exact Read.matches_moved (parenthesized_matches hsub _ hcd h h')
  case h_11 hkind =>
    rw [hkind] at hcd
    exact Read.matches_moved (listDisplay_matches hsub _ hcd h h')
  case h_12 hkind =>
    rw [hkind] at hcd
    exact Read.matches_moved (braceDisplay_matches hsub _ hcd h h')
  case h_13 hkind | h_14 hkind =>
    rw [hkind] at hcd
    refine Read.matches_bind (hsub _ _ h h' hcd) ?_
    rintro value c1 h1 _ d1 h1' ⟨rfl, hvalue⟩
    refine matches_ok ⟨?_, hvalue⟩
    simp only [Moved.past, Expr.moved, Expr.span_moved]
    rfl
  case h_15 hkind =>
    rw [hkind] at hcd
    exact Read.matches_moved (lambda_matches hsub _ hcd h h')
  case h_16 hkind =>
    rw [hkind] at hcd
    exact yielded_matches hsub (hsafe hkind) _ hcd h h'
  case h_17 =>
    split
    · rename_i op hop
      rw [depthAfter_of_unary hop] at hcd
      refine Read.matches_bind (hsub op.binds _ h h' hcd) ?_
      rintro operand c1 h1 _ d1 h1' ⟨rfl, hoperand⟩
      refine matches_ok ⟨?_, hoperand⟩
      simp only [Moved.past, Expr.moved, Expr.span_moved]
      rfl
    · exact matches_error _ _ _

theorem operand_matches (hsub : L.KeepsExprs sub sub') {c d : Cursor} (hcd : L.At depth c d)
    (h : c.size ≤ n) (h' : d.size ≤ n') : (operand sub c h).Matches (operand sub' d h')
      (L.Keeps depth (Expr.moved L.motion)) := by
  unfold operand
  cases L.next hcd with
  | token hno hsafe hjoins hc hd hnext =>
    have hfirst := FirstJoined.mk ((Cursor.next?_passes hc).lastEnd_eq hno).symm hjoins
    rw [hc, hd]
    exact MayRead.matches_since (operandAfter_matches hsub _ hsafe hnext hfirst _ _) _ _
  | border hmeets _ hc _ =>
    rw [hc]
    dsimp only
    rw [operandAfter_border hmeets.isBorder]
    exact matches_error _ _ _

/-! ## Operators -/

theorem binary_matches (hsub : L.KeepsExprs sub sub') (left : Expr) (op : BinaryOp) {c d : Cursor}
    (hcd : L.At depth c d) (h : c.size < n) (h' : d.size < n') :
    (binary sub left op c h).Matches (binary sub' (left.moved L.motion) op d h')
      (L.Keeps depth (Expr.moved L.motion)) := by
  refine Read.matches_bind (hsub _ _ h h' hcd) ?_
  rintro right c1 h1 _ d1 h1' ⟨rfl, hright⟩
  refine matches_ok ⟨?_, hright⟩
  simp only [Expr.moved, Expr.span_moved]
  rfl

theorem named_matches (hsub : L.KeepsExprs sub sub') (left : Expr) {c d : Cursor}
    (hcd : L.At depth c d) (h : c.size < n) (h' : d.size < n') :
    (named sub left c h).Matches (named sub' (left.moved L.motion) d h')
      (L.Keeps depth (Expr.moved L.motion)) := by
  unfold named
  cases left with
  | name s id =>
    refine Read.matches_bind (hsub .named _ h h' hcd) ?_
    rintro value c1 h1 _ d1 h1' ⟨rfl, hvalue⟩
    refine matches_ok ⟨?_, hvalue⟩
    simp only [Expr.moved, Expr.span_moved]
    rfl
  | _ => exact matches_error _ _ _

theorem conditional_matches (hsub : L.KeepsExprs sub sub') (body : Expr) {c d : Cursor}
    (hcd : L.At depth c d) (h : c.size < n) (h' : d.size < n') :
    (conditional sub body c h).Matches (conditional sub' (body.moved L.motion) d h')
      (L.Keeps depth (Expr.moved L.motion)) := by
  refine Read.matches_bind (hsub .conditional _ h h' hcd) ?_
  rintro test c1 h1 _ d1 h1' ⟨rfl, htest⟩
  refine Read.matches_bind (Read.matches_since (expect htest rfl) h1 h1') ?_
  rintro t c2 h2 _ d2 h2' ⟨rfl, -, helse⟩
  refine Read.matches_bind (Read.matches_since (hsub .named _ _ _ helse) h2 h2') ?_
  rintro orelse c3 h3 _ d3 h3' ⟨rfl, horelse⟩
  refine matches_ok ⟨?_, horelse⟩
  simp only [Expr.moved, Expr.span_moved]
  rfl

theorem identity_matches (hsub : L.KeepsExprs sub sub') (left : Expr) {c d : Cursor}
    (hcd : L.At depth c d) (h : c.size < n) (h' : d.size < n') :
    (identity sub left c h).Matches (identity sub' (left.moved L.motion) d h')
      (L.Keeps depth (Expr.moved L.motion)) := by
  unfold identity
  cases accept hcd (.word .kwNot) rfl with
  | some _ hc hd hnot =>
    rw [hc, hd]
    exact Read.matches_since (binary_matches hsub left .notSame hnot _ _) _ _
  | none hc hd =>
    rw [hc, hd]
    exact binary_matches hsub left .same hcd h h'

theorem absence_matches (hsub : L.KeepsExprs sub sub') (left : Expr) {c d : Cursor}
    (hcd : L.At depth c d) (h : c.size < n) (h' : d.size < n') :
    (absence sub left c h).Matches (absence sub' (left.moved L.motion) d h')
      (L.Keeps depth (Expr.moved L.motion)) := by
  refine Read.matches_bind (demand hcd rfl _ _) ?_
  rintro t c1 h1 _ d1 h1' ⟨rfl, -, hin⟩
  exact Read.matches_since (binary_matches hsub left .notIn hin _ _) h1 h1'

/-- An expression that goes on after an operator, with the brackets that are open before the operator. -/
theorem extendAfter_matches (hsub : L.KeepsExprs sub sub') (left : Expr) (t : Token) {c d : Cursor}
    (hcd : L.At (depthAfter depth t.kind) c d) (h : c.size < n) (h' : d.size < n') :
    (extendAfter sub left t c h).Matches (extendAfter sub' (left.moved L.motion) (t.moved L.motion) d h')
      (L.Keeps depth (Expr.moved L.motion)) := by
  have hsame : (t.moved L.motion).kind = t.kind := rfl
  unfold extendAfter
  rw [hsame]
  split
  case h_1 hkind =>
    rw [hkind] at hcd
    exact named_matches hsub left hcd h h'
  case h_2 hkind =>
    rw [hkind] at hcd
    exact conditional_matches hsub left hcd h h'
  case h_3 hkind =>
    rw [hkind] at hcd
    exact identity_matches hsub left hcd h h'
  case h_4 hkind =>
    rw [hkind] at hcd
    exact absence_matches hsub left hcd h h'
  case h_5 hkind =>
    rw [hkind] at hcd
    refine Read.matches_bind (expectName hcd) ?_
    rintro attr c1 h1 _ d1 h1' ⟨rfl, hattr⟩
    refine matches_ok ⟨?_, hattr⟩
    simp only [spanFrom_expr hattr, Expr.moved]
  case h_6 hkind =>
    rw [hkind] at hcd
    have hcd : L.At (depth + 1) c d := hcd
    refine Read.matches_bind (indices_matches hsub hcd h h') ?_
    rintro key c1 h1 _ d1 h1' ⟨rfl, hkey⟩
    refine Read.matches_bind (Read.matches_since (expect_inner hkey rfl) h1 h1') ?_
    rintro t' c2 h2 _ d2 h2' ⟨rfl, -, hend⟩
    refine matches_ok ⟨?_, hend⟩
    simp only [spanFrom_expr hend, Expr.moved]
  case h_7 hkind =>
    rw [hkind] at hcd
    have hcd : L.At (depth + 1) c d := hcd
    refine MayRead.matches_bind (anyItems_inner (argument_matches hsub) _ hcd h h') ?_
    rintro items c1 h1 _ d1 h1' ⟨rfl, hitems⟩
    refine Read.matches_bind (Read.matches_from (expect_inner hitems rfl) h1 h1') ?_
    rintro t' c2 h2 _ d2 h2' ⟨rfl, -, hend⟩
    refine matches_ok ⟨?_, hend⟩
    simp only [spanFrom_expr hend, Expr.moved, Expr.movedList_eq]
  case h_8 =>
    split
    · rename_i op hop
      rw [depthAfter_of_binary hop] at hcd
      exact binary_matches hsub left op hcd h h'
    · exact matches_error _ _ _

theorem extend_matches (hsub : L.KeepsExprs sub sub') (level : Power) (left : Expr) {c d : Cursor}
    (hcd : L.At depth c d) (h : c.size < n) (h' : d.size < n') :
    (extend sub level left c h).Matches (extend sub' level (left.moved L.motion) d h')
      (L.Keeps depth (Expr.moved L.motion)) := by
  have hlevel : infixLevel d.kind = infixLevel c.kind :=
    Blind.kind (blind fun _ hk => infixLevel_stop hk) hcd
  rw [extend, extend, hlevel]
  split
  · rename_i hlt
    cases L.next hcd with
    | token _ _ _ hc hd hnext =>
      rw [hc, hd]
      refine Read.matches_bind (Read.matches_since (extendAfter_matches hsub left _ hnext _ _) _ _) ?_
      rintro longer c2 h2 _ d2 h2' ⟨rfl, hlonger⟩
      refine Read.matches_bind (MayRead.matches_since (extend_matches hsub level longer hlonger _ _) h2 h2') ?_
      rintro e c3 h3 _ d3 h3' ⟨rfl, he⟩
      exact matches_ok ⟨rfl, he⟩
    | border hmeets _ hc _ =>
      rw [kind_of_next? hc, infixLevel_stop (isStop_of_isBorder hmeets.isBorder)] at hlt
      exact absurd hlt (Nat.not_lt_zero _)
  · exact matches_ok ⟨rfl, hcd⟩
termination_by c.size

end Exprs

/-! ## Expressions -/

/-- What an expression is depends on the tokens up to its border alone. -/
theorem expr_matches {L : Lockstep} {depth : Nat} (level : Power) {c d : Cursor}
    (hcd : L.At depth c d) :
    (expr level c).Matches (expr level d) (L.Keeps depth (Expr.moved L.motion)) := by
  have hsub : L.KeepsExprs (fun l c' (_ : c'.size < c.size) => expr l c')
      fun l d' (_ : d'.size < d.size) => expr l d' := fun l _ _ _ h _ hcd' => expr_matches l hcd'
  rw [expr, expr]
  refine Read.matches_bind (operand_matches hsub hcd _ _) ?_
  rintro left c1 h1 _ d1 h1' ⟨rfl, hleft⟩
  exact MayRead.matches_since (extend_matches hsub level left hleft _ _) h1 h1'
termination_by c.size

end Lockstep
end TypeWatch.Reading
