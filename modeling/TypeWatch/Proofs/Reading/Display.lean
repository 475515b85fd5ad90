import TypeWatch.Proofs.Reading.Sequence
import TypeWatch.Reading.Display
import TypeWatch.Reading.Parameter
import TypeWatch.Reading.Trailer

/-! # Readers of what stands in brackets

Comprehensions, displays, parameters, arguments and indices. -/
namespace TypeWatch.Reading
set_option autoImplicit false

section Exprs

variable {n : Nat} {sub : Below n}

/-! ## Comprehensions -/

theorem conditions_gives (hsub : ReadsExprs sub) (c : Cursor) (h : c.size < n) :
    (conditions sub c h).Gives fun _ d => Reaches c d := by
  rw [conditions]
  split
  · exact gives_ok (.refl c)
  · rename_i t c1 h1 hif
    have hpass := (Cursor.accept?_passes hif).2.reaches
    refine Read.gives_bind (Read.gives_since (hsub .conditional c1 _) h1) ?_
    intro e c2 h2 he
    refine Read.gives_bind (MayRead.gives_since (conditions_gives hsub c2 _) h2) ?_
    intro es d h3 hes
    exact gives_ok ((hpass.trans he.reaches).trans hes)
termination_by c.size

theorem asyncMark_reaches (c : Cursor) : Reaches c (asyncMark c).next := by
  unfold asyncMark
  split
  · rename_i t c1 h1 hasync
    exact (Cursor.accept?_passes hasync).2.reaches
  · exact .refl c

theorem clause_gives (hsub : ReadsExprs sub) (c : Cursor) (h : c.size < n) :
    (clause sub c h).Gives fun _ d => Reaches c d := by
  have hasync := asyncMark_reaches c
  unfold clause
  generalize asyncMark c = mark at hasync ⊢
  obtain ⟨isAsync, c1, h1⟩ := mark
  refine Read.gives_bind (Read.gives_from (c1.expect_gives _) h1) ?_
  intro t c2 h2 hfor
  refine Read.gives_bind (Read.gives_since (exprList_gives hsub .comparison c2 _) h2) ?_
  intro target c3 h3 htarget
  refine Read.gives_bind (Read.gives_since (c3.expect_gives _) h3) ?_
  intro t' c4 h4 hin
  refine Read.gives_bind (Read.gives_since (hsub .conditional c4 _) h4) ?_
  intro iter c5 h5 hiter
  refine Read.gives_bind (MayRead.gives_since (conditions_gives hsub c5 _) h5) ?_
  intro tests d h6 htests
  have hhead := (hasync.trans hfor.2.reaches).trans htarget.reaches
  exact gives_ok (((hhead.trans hin.2.reaches).trans hiter.reaches).trans htests)

theorem clauses_gives (hsub : ReadsExprs sub) (c : Cursor) (h : c.size < n) :
    (clauses sub c h).Gives fun _ d => Reaches c d := by
  rw [clauses]
  split
  · refine Read.gives_bind (clause_gives hsub c h) ?_
    intro x c1 h1 hx
    refine Read.gives_bind (MayRead.gives_since (clauses_gives hsub c1 _) h1) ?_
    intro xs d h2 hxs
    exact gives_ok (hx.trans hxs)
  · exact gives_ok (.refl c)
termination_by c.size

/-! ## Displays -/

theorem filling_gives (hsub : ReadsExprs sub) (closing : TokenKind) (c : Cursor) (h : c.size < n) :
    (filling sub closing c h).Gives fun _ d => Reaches c d := by
  unfold filling
  split
  · refine MayRead.gives_bind (clauses_gives hsub c h) ?_
    intro loops c1 h1 hloops
    refine Read.gives_bind (Read.gives_from (c1.expect_gives closing) h1) ?_
    intro t d h2 hclose
    exact gives_ok (hloops.trans hclose.2.reaches)
  · split
    · refine MayRead.gives_bind (followers_reaches hsub .least _ c h) ?_
      intro others c1 h1 hothers
      refine Read.gives_bind (Read.gives_from (c1.expect_gives closing) h1) ?_
      intro t d h2 hclose
      exact gives_ok (hothers.trans hclose.2.reaches)
    · refine Read.gives_bind (c.expect_gives closing) ?_
      intro t d h1 hclose
      exact gives_ok hclose.2.reaches

theorem parenthesized_gives (hsub : ReadsExprs sub) (start : Position) (c : Cursor) (h : c.size < n) :
    (parenthesized sub start c h).Gives fun e d => ReadsFrom start c e.span.start d := by
  unfold parenthesized
  split
  · rename_i t c1 h1 hclose
    exact gives_ok (readsFrom_start (Cursor.accept?_passes hclose).2.reaches)
  · refine Read.gives_bind (hsub .least c h) ?_
    intro first c1 h1 hfirst
    refine Read.gives_bind (Read.gives_since (filling_gives hsub _ c1 _) h1) ?_
    intro rest d h2 hrest
    have hreach := hfirst.reaches.trans hrest
    cases rest with
    | loops loops => exact gives_ok (readsFrom_start hreach)
    | alone => exact gives_ok ⟨hreach, Or.inr (hfirst.reaching hrest)⟩
    | elements others => exact gives_ok (readsFrom_start hreach)

theorem listDisplay_gives (hsub : ReadsExprs sub) (start : Position) (c : Cursor) (h : c.size < n) :
    (listDisplay sub start c h).Gives fun e d => ReadsFrom start c e.span.start d := by
  unfold listDisplay
  split
  · rename_i t c1 h1 hclose
    exact gives_ok (readsFrom_start (Cursor.accept?_passes hclose).2.reaches)
  · refine Read.gives_bind (hsub .least c h) ?_
    intro first c1 h1 hfirst
    refine Read.gives_bind (Read.gives_since (filling_gives hsub _ c1 _) h1) ?_
    intro rest d h2 hrest
    have hreach := hfirst.reaches.trans hrest
    cases rest <;> exact gives_ok (readsFrom_start hreach)

theorem entry_gives (hsub : ReadsExprs sub) (c : Cursor) (h : c.size < n) :
    (entry sub c h).Gives fun _ d => Reaches c d := by
  unfold entry
  split
  · rename_i t c1 h1 hstars
    have hpass := (Cursor.accept?_passes hstars).2.reaches
    refine Read.gives_bind (Read.gives_since (hsub .comparison c1 _) h1) ?_
    intro value d h2 hvalue
    exact gives_ok (hpass.trans hvalue.reaches)
  · refine Read.gives_bind (hsub .least c h) ?_
    intro key c1 h1 hkey
    refine Read.gives_bind (Read.gives_since (c1.expect_gives _) h1) ?_
    intro t c2 h2 hcolon
    refine Read.gives_bind (Read.gives_since (hsub .least c2 _) h2) ?_
    intro value d h3 hvalue
    exact gives_ok ((hkey.reaches.trans hcolon.2.reaches).trans hvalue.reaches)

theorem dictRest_gives (hsub : ReadsExprs sub) (start : Position) (first : Entry) (c : Cursor)
    (h : c.size < n) : (dictRest sub start first c h).Gives fun e d => ReadsFrom start c e.span.start d := by
  have hchain := followers_gives (entry_gives hsub) (· = .op .closeBrace) c h
  refine MayRead.gives_bind hchain ?_
  intro others c1 h1 hothers
  refine Read.gives_bind (Read.gives_from (c1.expect_gives _) h1) ?_
  intro t d h2 hclose
  exact gives_ok (readsFrom_start ((hothers.reaches id).trans hclose.2.reaches))

theorem dictAfterKey_gives (hsub : ReadsExprs sub) (start : Position) (key : Expr) (c : Cursor)
    (h : c.size < n) :
    (dictAfterKey sub start key c h).Gives fun e d => ReadsFrom start c e.span.start d := by
  refine Read.gives_bind (hsub .least c h) ?_
  intro value c1 h1 hvalue
  dsimp only
  split
  · refine Read.gives_bind (MayRead.gives_since (clauses_gives hsub c1 _) h1) ?_
    intro loops c2 h2 hloops
    refine Read.gives_bind (Read.gives_since (c2.expect_gives _) h2) ?_
    intro t d h3 hclose
    exact gives_ok (readsFrom_start ((hvalue.reaches.trans hloops).trans hclose.2.reaches))
  · refine Read.gives_imp (Read.gives_since (dictRest_gives hsub start _ c1 _) h1) ?_
    intro e he
    exact hvalue.reaches.readsFrom he

theorem braceDisplay_gives (hsub : ReadsExprs sub) (start : Position) (c : Cursor) (h : c.size < n) :
    (braceDisplay sub start c h).Gives fun e d => ReadsFrom start c e.span.start d := by
  unfold braceDisplay
  split
  · rename_i t c1 h1 hclose
    exact gives_ok (readsFrom_start (Cursor.accept?_passes hclose).2.reaches)
  · split
    · rename_i t c1 h1 hstars
      have hpass := (Cursor.accept?_passes hstars).2.reaches
      refine Read.gives_bind (Read.gives_since (hsub .comparison c1 _) h1) ?_
      intro value c2 h2 hvalue
      refine Read.gives_imp (Read.gives_since (dictRest_gives hsub start _ c2 _) h2) ?_
      intro e he
      exact (hpass.trans hvalue.reaches).readsFrom he
    · refine Read.gives_bind (hsub .least c h) ?_
      intro first c1 h1 hfirst
      dsimp only
      split
      · rename_i t c2 h2 hcolon
        have hpass := (Cursor.accept?_since_passes hcolon).2.reaches
        refine Read.gives_imp (Read.gives_since (dictAfterKey_gives hsub start first c2 _) h2) ?_
        intro e he
        exact (hfirst.reaches.trans hpass).readsFrom he
      · refine Read.gives_bind (Read.gives_since (filling_gives hsub _ c1 _) h1) ?_
        intro rest d h2 hrest
        have hreach := hfirst.reaches.trans hrest
        cases rest <;> exact gives_ok (readsFrom_start hreach)

/-! ## Parameters -/

/-- Where the parameter begins that an item of a list is, if it is one. -/
def ParameterItem.start? : ParameterItem → Option Position
  | slash | star => none
  | plain span _ _ _ | variadic span _ _ | variadicKeywords span _ _ => some span.start

theorem hintAfter_gives (hsub : ReadsExprs sub) (annotated : Bool) (c : Cursor) (h : c.size < n) :
    (hintAfter sub annotated c h).Gives fun _ d => Reaches c d := by
  unfold hintAfter
  split
  · exact exprAfter_gives hsub _ _ c h
  · exact gives_ok (.refl c)

theorem parameterItem_gives (hsub : ReadsExprs sub) (annotated : Bool) (c : Cursor) (h : c.size < n) :
    (parameterItem sub annotated c h).Gives fun x d => ReadsAll c x.start?.toList d := by
  have hstart {t : Token} {kind : TokenKind} {c1 d : Cursor} (hno : kind.isLayout = false)
      (ht : t.kind = kind ∧ Passes c t c1) (h' : Reaches c1 d) : ReadsAll c [c.position] d := by
    rw [ht.2.position_eq]
    exact ((ht.2.reads (by rw [ht.1, hno])).reaching h').all
  unfold parameterItem
  split
  · rename_i t c1 h1 hslash
    exact gives_ok (.nil (Cursor.accept?_passes hslash).2.reaches)
  · split
    · rename_i t c1 h1 hstar
      have hpass := Cursor.accept?_passes hstar
      split
      · exact gives_ok (.nil hpass.2.reaches)
      · rename_i name c2 h2 hname
        have hreach := (Cursor.accept?_since_passes hname).2.reaches
        refine Read.gives_bind (MayRead.gives_since (hintAfter_gives hsub annotated c2 _) h2) ?_
        intro hint d h3 hhint
        exact gives_ok (hstart rfl hpass (hreach.trans hhint))
    · split
      · rename_i t c1 h1 hstars
        have hpass := Cursor.accept?_passes hstars
        refine Read.gives_bind (Read.gives_since c1.expectName_gives h1) ?_
        intro name c2 h2 hname
        refine Read.gives_bind (MayRead.gives_since (hintAfter_gives hsub annotated c2 _) h2) ?_
        intro hint d h3 hhint
        exact gives_ok (hstart rfl hpass (hname.trans hhint))
      · refine Read.gives_bind c.expectName_reads ?_
        intro name c1 h1 hname
        refine Read.gives_bind (MayRead.gives_since (hintAfter_gives hsub annotated c1 _) h1) ?_
        intro hint c2 h2 hhint
        refine Read.gives_bind (MayRead.gives_since (exprAfter_gives hsub _ _ c2 _) h2) ?_
        intro standard d h3 hstandard
        exact gives_ok (hname.reaching (hhint.trans hstandard)).all

theorem start_positionalOnly (p : Parameter) : (positionalOnly p).span = p.span := by
  obtain ⟨span, kind, name, hint, standard⟩ := p
  cases kind <;> rfl

/-- The parameters of a list begin where its items do. -/
theorem starts_parametersOf (kind : ParameterKind) (before : List Parameter) (items : List ParameterItem) :
    (parametersOf kind before items).map (fun p => p.span.start) =
      before.map (fun p => p.span.start) ++ items.filterMap ParameterItem.start? := by
  induction items generalizing kind before with
  | nil => simp [parametersOf]
  | cons item items ih =>
    cases item with
    | slash =>
      rw [parametersOf, ih, List.map_map, List.filterMap_cons_none rfl]
      simp [Function.comp_def, start_positionalOnly]
    | star =>
      rw [parametersOf, ih]
      rfl
    | plain span name hint standard =>
      rw [parametersOf, ih]
      simp [ParameterItem.start?, Parameter.span]
    | variadic span name hint =>
      rw [parametersOf, ih]
      simp [ParameterItem.start?, Parameter.span]
    | variadicKeywords span name hint =>
      rw [parametersOf, ih]
      simp [ParameterItem.start?, Parameter.span]

theorem Chain.readsAll {c d : Cursor} {items : List ParameterItem}
    (h : Chain (fun c x d => ReadsAll c (ParameterItem.start? x).toList d) c items d) :
    ReadsAll c (items.filterMap ParameterItem.start?) d := by
  induction h with
  | nil h => exact .nil h
  | @cons c c1 c2 d x xs h hx _ ih =>
    have hall := (ReadsAll.nil h).append (hx.append ih)
    have heq : (x :: xs).filterMap ParameterItem.start? =
        [] ++ (x.start?.toList ++ xs.filterMap ParameterItem.start?) := by
      cases hx : x.start? <;> simp [hx]
    rw [heq]
    exact hall

/-- The parameters of a list begin one after the other. -/
theorem parameters_gives (hsub : ReadsExprs sub) (closing : TokenKind) (annotated : Bool) (c : Cursor)
    (h : c.size < n) : (parameters sub closing annotated c h).Gives fun ps d =>
      ReadsAll c (ps.map fun p => p.span.start) d := by
  have hitems := anyItems_gives (parameterItem_gives hsub annotated) closing c h
  refine MayRead.gives_bind hitems ?_
  intro items d h1 hchain
  have hall : ReadsAll c ((parametersOf .regular [] items).map fun p => p.span.start) d := by
    rw [starts_parametersOf]
    exact hchain.readsAll
  exact gives_ok hall

/-! ## Arguments and indices -/

theorem plainArgument_gives (hsub : ReadsExprs sub) (c : Cursor) (h : c.size < n) :
    (plainArgument sub c h).Gives fun _ d => Reaches c d := by
  refine Read.gives_bind (hsub .least c h) ?_
  intro e c1 h1 he
  dsimp only
  split
  · refine Read.gives_bind (MayRead.gives_since (clauses_gives hsub c1 _) h1) ?_
    intro loops d h2 hloops
    exact gives_ok (he.reaches.trans hloops)
  · exact gives_ok he.reaches

theorem argumentName?_reaches {c : Cursor} {a : Advanced String c} (h : argumentName? c = some a) :
    Reaches c a.next := by
  unfold argumentName? at h
  split at h
  · cases h
  · rename_i t c1 h1 hname
    have hpass := (Cursor.accept?_passes hname).2.reaches
    split at h
    · cases h
    · rename_i t' c2 h2 hassign
      obtain rfl := Option.some.inj h
      exact hpass.trans (Cursor.accept?_since_passes hassign).2.reaches

theorem argument_gives (hsub : ReadsExprs sub) (c : Cursor) (h : c.size < n) :
    (argument sub c h).Gives fun _ d => Reaches c d := by
  unfold argument
  split
  · rename_i t c1 h1 hstar
    have hpass := (Cursor.accept?_passes hstar).2.reaches
    refine Read.gives_bind (Read.gives_since (hsub .comparison c1 _) h1) ?_
    intro value d h2 hvalue
    exact gives_ok (hpass.trans hvalue.reaches)
  · split
    · rename_i t c1 h1 hstars
      have hpass := (Cursor.accept?_passes hstars).2.reaches
      refine Read.gives_bind (Read.gives_since (hsub .named c1 _) h1) ?_
      intro value d h2 hvalue
      exact gives_ok (hpass.trans hvalue.reaches)
    · split
      · rename_i name c1 h1 hname
        have hpass := argumentName?_reaches hname
        refine Read.gives_bind (Read.gives_since (hsub .named c1 _) h1) ?_
        intro value d h2 hvalue
        exact gives_ok (hpass.trans hvalue.reaches)
      · exact plainArgument_gives hsub c h

theorem anyArguments_gives (hsub : ReadsExprs sub) (closing : TokenKind) (c : Cursor) (h : c.size < n) :
    (anyItems (argument sub) closing c h).Gives fun _ d => Reaches c d := by
  have hchain := anyItems_gives (argument_gives hsub) closing c h
  exact fun a ha => (hchain a ha).reaches id

theorem arguments_gives (hsub : ReadsExprs sub) (c : Cursor) (h : c.size < n) :
    (arguments sub c h).Gives fun _ d => Reaches c d := by
  refine Read.gives_bind (c.expect_gives _) ?_
  intro t c1 h1 hopen
  refine Read.gives_bind (MayRead.gives_since (anyArguments_gives hsub _ c1 _) h1) ?_
  intro items c2 h2 hitems
  refine Read.gives_bind (Read.gives_since (c2.expect_gives _) h2) ?_
  intro t' d h3 hclose
  exact gives_ok ((hopen.2.reaches.trans hitems).trans hclose.2.reaches)

theorem sliceRest_gives (hsub : ReadsExprs sub) (start : Position) (lower : Option Expr) (c : Cursor)
    (h : c.size < n) : (sliceRest sub start lower c h).Gives fun _ d => Reaches c d := by
  refine Read.gives_bind (c.expect_gives _) ?_
  intro t c1 h1 hcolon
  refine Read.gives_bind (MayRead.gives_since (exprUnless_gives hsub _ c1 _) h1) ?_
  intro upper c2 h2 hupper
  have hreach := hcolon.2.reaches.trans hupper
  dsimp only
  split
  · exact gives_ok hreach
  · rename_i t' c3 h3 hcolon'
    have hpass := (Cursor.accept?_since_passes hcolon').2.reaches
    refine Read.gives_bind (MayRead.gives_since (exprUnless_gives hsub _ c3 _) h3) ?_
    intro step d h4 hstep
    exact gives_ok ((hreach.trans hpass).trans hstep)

theorem index_gives (hsub : ReadsExprs sub) (c : Cursor) (h : c.size < n) :
    (index sub c h).Gives fun _ d => Reaches c d := by
  unfold index
  split
  · exact sliceRest_gives hsub _ _ c h
  · refine Read.gives_bind (hsub .least c h) ?_
    intro lower c1 h1 hlower
    dsimp only
    split
    · refine Read.gives_imp (Read.gives_since (sliceRest_gives hsub _ _ c1 _) h1) ?_
      intro a ha
      exact hlower.reaches.trans ha
    · exact gives_ok hlower.reaches

theorem indices_gives (hsub : ReadsExprs sub) (c : Cursor) (h : c.size < n) :
    (indices sub c h).Gives fun _ d => Reaches c d := by
  refine Read.gives_bind (index_gives hsub c h) ?_
  intro first c1 h1 hfirst
  dsimp only
  split
  · have hchain := followers_gives (index_gives hsub) (· = .op .closeBracket) c1 (below_of_lt h1 h)
    refine Read.gives_bind (MayRead.gives_since hchain h1) ?_
    intro others d h2 hothers
    exact gives_ok (hfirst.trans (hothers.reaches id))
  · exact gives_ok hfirst

end Exprs

end TypeWatch.Reading
