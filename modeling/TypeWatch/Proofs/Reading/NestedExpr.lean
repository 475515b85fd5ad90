import Mathlib.Data.List.Basic
import TypeWatch.Proofs.Reading.Nested

/-! # Expressions are nested

Parameters, arguments, indices, operands and operators lay nodes where they are read, and so does the reader
of expressions (`expr_lays`). The parameters of a lambda have no annotations. -/
namespace TypeWatch.Reading
set_option autoImplicit false

/-! ## Parameters -/

/-- The parameter as one without stars. -/
def regular (p : Parameter) : Parameter := .mk p.span .regular p.name p.hint p.standard

/-- The parameter that an item of a list is, if it is one, as one without stars. -/
def ParameterItem.parameter? : ParameterItem → Option Parameter
  | slash | star => none
  | plain span name hint standard => some (.mk span .regular name hint standard)
  | variadic span name hint | variadicKeywords span name hint =>
    some (.mk span .regular name hint none)

/-- The node that an item of a list is, if it is a parameter. -/
def ParameterItem.laid (x : ParameterItem) : List Node := x.parameter?.toList.map .parameter

theorem regular_positionalOnly (p : Parameter) : regular (positionalOnly p) = regular p := by
  obtain ⟨span, kind, name, hint, standard⟩ := p
  cases kind <;> rfl

/-- The parameters of a list are its items, apart from their kinds. -/
theorem regular_parametersOf (kind : ParameterKind) (before : List Parameter) (items : List ParameterItem) :
    (parametersOf kind before items).map regular =
      before.map regular ++ items.filterMap ParameterItem.parameter? := by
  induction items generalizing kind before with
  | nil => simp [parametersOf]
  | cons item items ih =>
    cases item with
    | slash =>
      rw [parametersOf, ih, List.map_map, List.filterMap_cons_none rfl]
      simp [Function.comp_def, regular_positionalOnly]
    | star =>
      rw [parametersOf, ih]
      rfl
    | plain span name hint standard =>
      rw [parametersOf, ih, List.map_append, List.append_assoc]
      rfl
    | variadic span name hint =>
      rw [parametersOf, ih, List.map_append, List.append_assoc]
      rfl
    | variadicKeywords span name hint =>
      rw [parametersOf, ih, List.map_append, List.append_assoc]
      rfl

variable {tokens : List Token} {c c0 c1 d : Cursor} {start : Position} {ps : List Parameter}

theorem strung_regular {p q : Position} (h : Node.Strung p ((ps.map regular).map .parameter) q) :
    Node.Strung p (ps.map .parameter) q := by
  induction ps generalizing p with
  | nil => exact h
  | cons x ps ih => exact ⟨h.1, h.2.1, ih h.2.2⟩

/-- The kind of a parameter does not matter for its place. -/
theorem Lays.of_regular (h : Lays tokens c ((ps.map regular).map .parameter) d) :
    Lays tokens c (ps.map .parameter) d := by
  have hregular {p : Parameter} (hp : p ∈ ps) :
      Node.parameter (regular p) ∈ (ps.map regular).map Node.parameter :=
    List.mem_map_of_mem (List.mem_map_of_mem hp)
  refine ⟨h.reaches, ?_, ?_, fun hc => strung_regular (h.strung hc), ?_⟩
  · intro n hn
    obtain ⟨p, hp, rfl⟩ := List.mem_map.mp hn
    exact h.ahead (.parameter (regular p)) (hregular hp)
  · intro n hn
    obtain ⟨p, hp, rfl⟩ := List.mem_map.mp hn
    exact .mk trivial fun k hk => (h.unhinted _ (hregular hp)).part hk
  · intro hc n hn
    obtain ⟨p, hp, rfl⟩ := List.mem_map.mp hn
    have htidy := h.tidy hc _ (hregular hp)
    exact .mk ⟨htidy.marked.start, htidy.marked.stop, htidy.marked.lt⟩ htidy.strung fun k hk => htidy.part hk

section Exprs

variable {n : Nat} {sub : Below n}

theorem hintAfter_lays (hsub : LaysExprs tokens sub) (annotated : Bool) (c : Cursor) (h : c.size < n) :
    (hintAfter sub annotated c h).Gives fun e d =>
      LaysOption tokens c e d ∧ (annotated = false → e = none) := by
  unfold hintAfter
  split
  · rename_i hannotated
    refine MayRead.gives_imp (exprAfter_lays hsub _ _ c h) ?_
    exact fun a ha => ⟨ha, fun hno => absurd (hannotated.symm.trans hno) (by rintro ⟨⟩)⟩
  · exact gives_ok ⟨.nil (.refl c), fun _ => rfl⟩

/-- What is said of a reader of items of a parameter list. -/
def LaysItem (tokens : List Token) (annotated : Bool) (c : Cursor) (x : ParameterItem) (d : Cursor) : Prop :=
  Lays tokens c x.laid d ∧ (annotated = false → ∀ p ∈ x.parameter?, p.hint = none)

/-- A parameter that begins with the first token. -/
theorem Opens.parameter {p : Parameter} {annotated : Bool} {x : ParameterItem} (hopen : Opens c p.span.start c1)
    (hx : x.parameter? = some p) (hparts : Lays tokens c1 (Node.parameter p).parts d)
    (hstop : p.span.stop = d.lastEnd) (hhint : annotated = false → p.hint = none) :
    LaysItem tokens annotated c x d := by
  have hnode : Lays tokens c [.parameter p] d :=
    .node (.after hopen.reaches hparts) trivial (Or.inr (hopen.reaching hparts.reaches)) (Or.inr hstop)
  refine ⟨?_, fun hno q hq => ?_⟩
  · rw [ParameterItem.laid, hx]
    exact hnode
  · rw [hx] at hq
    obtain rfl := Option.some.inj hq
    exact hhint hno

theorem parameterItem_lays (hsub : LaysExprs tokens sub) (annotated : Bool) (c : Cursor) (h : c.size < n) :
    (parameterItem sub annotated c h).Gives (LaysItem tokens annotated c) := by
  unfold parameterItem
  split
  · rename_i t c1 h1 hslash
    exact gives_ok ⟨.nil (Cursor.accept?_passes hslash).2.reaches, fun _ _ => by rintro ⟨⟩⟩
  · split
    · rename_i t c1 h1 hstar
      have hpass := Cursor.accept?_passes hstar
      split
      · exact gives_ok ⟨.nil hpass.2.reaches, fun _ _ => by rintro ⟨⟩⟩
      · rename_i name c2 h2 hname
        have hreach := (Cursor.accept?_since_passes hname).2.reaches
        refine Read.gives_bind (MayRead.gives_since (hintAfter_lays hsub annotated c2 _) h2) ?_
        intro hint d h3 hhint
        have hopen := (Passes.opens_of_kind hpass rfl).here.reaching hreach
        have hparts := hhint.1.append (.nil (.refl d))
        exact gives_ok (hopen.parameter rfl hparts rfl hhint.2)
    · split
      · rename_i t c1 h1 hstars
        have hpass := Cursor.accept?_passes hstars
        refine Read.gives_bind (Read.gives_since c1.expectName_gives h1) ?_
        intro name c2 h2 hname
        refine Read.gives_bind (MayRead.gives_since (hintAfter_lays hsub annotated c2 _) h2) ?_
        intro hint d h3 hhint
        have hopen := (Passes.opens_of_kind hpass rfl).here.reaching hname
        have hparts := hhint.1.append (.nil (.refl d))
        exact gives_ok (hopen.parameter rfl hparts rfl hhint.2)
      · refine Read.gives_bind c.expectName_reads ?_
        intro name c1 h1 hname
        refine Read.gives_bind (MayRead.gives_since (hintAfter_lays hsub annotated c1 _) h1) ?_
        intro hint c2 h2 hhint
        refine Read.gives_bind (MayRead.gives_since (exprAfter_lays hsub _ _ c2 _) h2) ?_
        intro standard d h3 hstandard
        have hopen : Opens c c.position c1 := ⟨hname, rfl⟩
        exact gives_ok (hopen.parameter rfl (hhint.1.append hstandard) rfl hhint.2)

theorem Chain.forall_mem {α : Type} {P : Cursor → α → Cursor → Prop} {Q : α → Prop} {xs : List α}
    (hpq : ∀ {c x d}, P c x d → Q x) (h : Chain P c xs d) : ∀ x ∈ xs, Q x := by
  induction h with
  | nil _ => exact nofun
  | cons _ hx _ ih => exact List.forall_mem_cons.mpr ⟨hpq hx, ih⟩

/-- Where no annotations are allowed there are none. -/
theorem parameters_lays (hsub : LaysExprs tokens sub) (closing : TokenKind) (annotated : Bool) (c : Cursor)
    (h : c.size < n) : (parameters sub closing annotated c h).Gives fun ps d =>
      Lays tokens c (ps.map .parameter) d ∧ (annotated = false → ∀ p ∈ ps, p.hint = none) := by
  refine MayRead.gives_bind (anyItems_gives (parameterItem_lays hsub annotated) closing c h) ?_
  intro items d h1 hitems
  have hregular : (parametersOf .regular [] items).map regular = items.filterMap ParameterItem.parameter? :=
    regular_parametersOf .regular [] items
  have hlays := (hitems.imp (Q := fun c x d => Lays tokens c x.laid d) fun hx => hx.1).lays
  refine gives_ok ⟨.of_regular ?_, fun hno p hp => ?_⟩
  · rw [hregular, List.filterMap_eq_flatMap_toList, List.map_flatMap]
    exact hlays
  · have hmem : regular p ∈ items.filterMap ParameterItem.parameter? := hregular ▸ List.mem_map_of_mem hp
    obtain ⟨x, hx, heq⟩ := List.mem_filterMap.mp hmem
    have hhints := hitems.forall_mem (Q := fun x => annotated = false → ∀ p ∈ x.parameter?, p.hint = none)
      fun hx => hx.2
    exact hhints x hx hno (regular p) heq

/-! ## Arguments -/

theorem plainArgument_lays (hsub : LaysExprs tokens sub) (c : Cursor) (h : c.size < n) :
    (plainArgument sub c h).Gives (LaysExpr tokens c) := by
  refine Read.gives_bind (hsub .least c h) ?_
  intro e c1 h1 he
  dsimp only
  split
  · refine Read.gives_bind (MayRead.gives_since (clauses_lays hsub c1 _) h1) ?_
    intro loops d h2 hloops
    have hopen := he.opens.reaching hloops.reaches
    exact gives_ok ⟨hopen, .node (n := .expr (.comprehension _ .generator e none loops))
      (he.lays.append hloops) trivial (Or.inr hopen) (Or.inr rfl)⟩
  · exact gives_ok he

theorem argumentName?_opens {a : Advanced String c} (h : argumentName? c = some a) :
    Opens c c.position a.next := by
  unfold argumentName? at h
  split at h
  · cases h
  · rename_i t c1 h1 hname
    have hopen := (Passes.opens_of_kind (Cursor.accept?_passes hname) rfl).here
    split at h
    · cases h
    · rename_i t' c2 h2 hassign
      obtain rfl := Option.some.inj h
      exact hopen.reaching (Cursor.accept?_since_passes hassign).2.reaches

theorem argument_lays (hsub : LaysExprs tokens sub) (c : Cursor) (h : c.size < n) :
    (argument sub c h).Gives (LaysExpr tokens c) := by
  unfold argument
  split
  · rename_i t c1 h1 hstar
    refine Read.gives_bind (Read.gives_since (hsub .comparison c1 _) h1) ?_
    intro value d h2 hvalue
    have hopen := Passes.opens_of_kind (Cursor.accept?_passes hstar) rfl
    exact gives_ok (hopen.encloses hvalue.lays trivial (Or.inl rfl))
  · split
    · rename_i t c1 h1 hstars
      refine Read.gives_bind (Read.gives_since (hsub .named c1 _) h1) ?_
      intro value d h2 hvalue
      have hopen := (Passes.opens_of_kind (Cursor.accept?_passes hstars) rfl).here
      exact gives_ok (hopen.encloses hvalue.lays trivial (Or.inr rfl))
    · split
      · rename_i name c1 h1 hname
        refine Read.gives_bind (Read.gives_since (hsub .named c1 _) h1) ?_
        intro value d h2 hvalue
        exact gives_ok ((argumentName?_opens hname).encloses hvalue.lays trivial (Or.inr rfl))
      · exact plainArgument_lays hsub c h

theorem anyArguments_lays (hsub : LaysExprs tokens sub) (closing : TokenKind) (c : Cursor) (h : c.size < n) :
    (anyItems (argument sub) closing c h).Gives fun es d => Lays tokens c (es.map .expr) d := by
  have hchain := anyItems_gives (argument_lays hsub) closing c h
  exact fun a ha => (hchain a ha).laysExprs

theorem arguments_lays (hsub : LaysExprs tokens sub) (c : Cursor) (h : c.size < n) :
    (arguments sub c h).Gives fun es d => Lays tokens c (es.map .expr) d := by
  refine Read.gives_bind (c.expect_gives _) ?_
  intro t c1 h1 hopen
  refine Read.gives_bind (MayRead.gives_since (anyArguments_lays hsub _ c1 _) h1) ?_
  intro items c2 h2 hitems
  refine Read.gives_bind (Read.gives_since (c2.expect_gives _) h2) ?_
  intro t' d h3 hclose
  exact gives_ok (.after hopen.2.reaches (hitems.reaching hclose.2.reaches))

/-! ## Indices -/

/-- A slice begins with its lower part or with its first colon. -/
theorem sliceRest_lays (hsub : LaysExprs tokens sub) (lower : Option Expr) (c : Cursor) (h : c.size < n)
    (hlower : LaysOption tokens c0 lower c)
    (hopen : ∀ t d, t.kind = .op .colon ∧ Passes c t d → Opens c0 start d) :
    (sliceRest sub start lower c h).Gives fun e d => Lays tokens c0 [.expr e] d := by
  refine Read.gives_bind (c.expect_gives _) ?_
  intro t c1 h1 hcolon
  refine Read.gives_bind (MayRead.gives_since (exprUnless_lays hsub _ c1 _) h1) ?_
  intro upper c2 h2 hupper
  have hparts := (hlower.reaching hcolon.2.reaches).append hupper
  rw [← List.map_append] at hparts
  have hopened := (hopen t c1 hcolon).reaching hupper.reaches
  dsimp only
  split
  · have hall := hparts.append (.nil (.refl c2))
    exact gives_ok (.node (n := .expr (.slice _ lower upper none)) (by simpa [Node.parts, Node.ofExpr, Expr.children] using hall)
      trivial (Or.inr hopened)
      (Or.inr rfl))
  · rename_i t' c3 h3 hcolon'
    have hpass := (Cursor.accept?_since_passes hcolon').2.reaches
    refine Read.gives_bind (MayRead.gives_since (exprUnless_lays hsub _ c3 _) h3) ?_
    intro step d h4 hstep
    have hall := (hparts.reaching hpass).append hstep
    rw [← List.map_append] at hall
    exact gives_ok (.node (n := .expr (.slice _ lower upper step)) hall trivial
      (Or.inr ((hopened.reaching hpass).reaching hstep.reaches)) (Or.inr rfl))

theorem index_lays (hsub : LaysExprs tokens sub) (c : Cursor) (h : c.size < n) :
    (index sub c h).Gives fun e d => Lays tokens c [.expr e] d := by
  unfold index
  split
  · refine sliceRest_lays hsub none c h (.nil (.refl c)) ?_
    exact fun t d ht => (Passes.opens_of_kind ht rfl).here
  · refine Read.gives_bind (hsub .least c h) ?_
    intro lower c1 h1 hlower
    dsimp only
    split
    · refine Read.gives_since (sliceRest_lays hsub (some lower) c1 _ hlower.lays ?_) h1
      exact fun t d ht => hlower.opens.reaching ht.2.reaches
    · exact gives_ok hlower.lays

theorem Chain.laysIndices {es : List Expr} (h : Chain (fun c e d => Lays tokens c [Node.expr e] d) c es d) :
    Lays tokens c (es.map .expr) d := by
  have hlays := h.lays
  rwa [← List.map_eq_flatMap] at hlays

theorem indices_lays (hsub : LaysExprs tokens sub) (c : Cursor) (h : c.size < n) :
    (indices sub c h).Gives fun e d => Lays tokens c [.expr e] d := by
  refine Read.gives_bind (index_lays hsub c h) ?_
  intro first c1 h1 hfirst
  dsimp only
  split
  · refine Read.gives_bind (MayRead.gives_since (followers_gives (index_lays hsub) _ c1 _) h1) ?_
    intro others d h2 hothers
    exact gives_ok (.node (n := .expr (.tuple _ (first :: others))) (hfirst.append hothers.laysIndices) trivial
      (Or.inl rfl) (Or.inr rfl))
  · exact gives_ok hfirst

/-! ## Operands -/

theorem lambda_lays (hsub : LaysExprs tokens sub) (c : Cursor) (h : c.size < n) (hopen : Opens c0 start c) :
    (lambda sub start c h).Gives (LaysExpr tokens c0) := by
  refine MayRead.gives_bind (parameters_lays hsub _ _ c h) ?_
  intro list c1 h1 hlist
  refine Read.gives_bind (Read.gives_from (c1.expect_gives _) h1) ?_
  intro t c2 h2 hcolon
  refine Read.gives_bind (Read.gives_since (hsub .named c2 _) h2) ?_
  intro body d h3 hbody
  have hparts := (hlist.1.reaching hcolon.2.reaches).append hbody.lays
  refine gives_ok (hopen.encloses hparts (hlist.2 rfl) (Or.inl ?_))
  rw [Node.parts, Node.ofExpr, List.getLast?_concat]
  rfl

theorem yielded_lays (hsub : LaysExprs tokens sub) (c : Cursor) (h : c.size < n) (hopen : Opens c0 start c) :
    (yielded sub start c h).Gives (LaysExpr tokens c0) := by
  unfold yielded
  split
  · rename_i t c1 h1 hfrom
    refine Read.gives_bind (Read.gives_since (hsub .least c1 _) h1) ?_
    intro value d h2 hvalue
    have hpass := (Cursor.accept?_passes hfrom).2.reaches
    exact gives_ok ((hopen.reaching hpass).encloses hvalue.lays trivial (Or.inr rfl))
  · split
    · refine Read.gives_bind (exprList_lays hsub .least c h) ?_
      intro value d h1 hvalue
      exact gives_ok (hopen.encloses hvalue.lays trivial (Or.inr rfl))
    · exact gives_ok (hopen.encloses (.nil (.refl c)) trivial (Or.inr rfl))

/-- An operand begins with its first token. A group has the place that it has without its parentheses. -/
theorem operandAfter_lays (hsub : LaysExprs tokens sub) {t : Token} (c : Cursor) (h : c.size < n)
    (hpass : Passes c0 t c) : (operandAfter sub t c h).Gives (LaysExpr tokens c0) := by
  have hopen {kind : TokenKind} (hkind : t.kind = kind) (hno : kind.isLayout = false) :
      Opens c0 t.span.start c := Passes.opens_of_kind ⟨hkind, hpass⟩ hno
  have hstop {kind : TokenKind} (hkind : t.kind = kind) (hno : kind.isLayout = false) :
      t.span.stop = c.lastEnd := hpass.lastEnd_eq (by rw [hkind, hno])
  have hnil : Lays tokens c [] c := .nil (.refl c)
  have hstrings {kind : TokenKind} (hkind : t.kind = kind) (hno : kind.isLayout = false) :
      LaysExpr tokens c0 (strings t c).value (strings t c).next :=
    (hopen hkind hno).encloses (.nil (moreStrings_reaches _ _ c)) trivial (Or.inr rfl)
  unfold operandAfter
  dsimp only
  split
  case h_1 hkind => exact gives_ok ((hopen hkind rfl).encloses hnil trivial (Or.inr (hstop hkind rfl)))
  case h_2 hkind => exact gives_ok ((hopen hkind rfl).encloses hnil trivial (Or.inr (hstop hkind rfl)))
  case h_3 hkind => exact gives_ok ((hopen hkind rfl).encloses hnil trivial (Or.inr (hstop hkind rfl)))
  case h_4 hkind => exact gives_ok ((hopen hkind rfl).encloses hnil trivial (Or.inr (hstop hkind rfl)))
  case h_5 hkind => exact gives_ok ((hopen hkind rfl).encloses hnil trivial (Or.inr (hstop hkind rfl)))
  case h_6 hkind => exact gives_ok ((hopen hkind rfl).encloses hnil trivial (Or.inr (hstop hkind rfl)))
  case h_7 hkind => exact gives_ok (hstrings hkind rfl)
  case h_8 hkind => exact gives_ok (hstrings hkind rfl)
  case h_9 hkind => exact gives_ok (hstrings hkind rfl)
  case h_10 hkind => exact Read.gives_moved (parenthesized_lays hsub c h (hopen hkind rfl))
  case h_11 hkind => exact Read.gives_moved (listDisplay_lays hsub c h (hopen hkind rfl))
  case h_12 hkind => exact Read.gives_moved (braceDisplay_lays hsub c h (hopen hkind rfl))
  case h_13 hkind =>
    refine Read.gives_bind (hsub .comparison c h) ?_
    intro value d h1 hvalue
    exact gives_ok ((hopen hkind rfl).encloses hvalue.lays trivial (Or.inl rfl))
  case h_14 hkind =>
    refine Read.gives_bind (hsub .await c h) ?_
    intro value d h1 hvalue
    exact gives_ok ((hopen hkind rfl).encloses hvalue.lays trivial (Or.inl rfl))
  case h_15 hkind => exact Read.gives_moved (lambda_lays hsub c h (hopen hkind rfl))
  case h_16 hkind => exact yielded_lays hsub c h (hopen hkind rfl)
  case h_17 =>
    split
    · rename_i op hop
      refine Read.gives_bind (hsub op.binds c h) ?_
      intro value d h1 hvalue
      exact gives_ok ((hopen rfl (isLayout_of_unary hop)).encloses hvalue.lays trivial (Or.inl rfl))
    · exact gives_error _

theorem operand_lays (hsub : LaysExprs tokens sub) (c : Cursor) (h : c.size ≤ n) :
    (operand sub c h).Gives (LaysExpr tokens c) := by
  unfold operand
  split
  · exact gives_unexpected c
  · rename_i t c1 h1 hnext
    exact MayRead.gives_since (operandAfter_lays hsub c1 _ (Cursor.next?_passes hnext)) h1

/-! ## Operators -/

variable {left : Expr}

theorem binary_lays (hsub : LaysExprs tokens sub) (op : BinaryOp) (c : Cursor) (h : c.size < n)
    (hleft : Lays tokens c0 [.expr left] c) :
    (binary sub left op c h).Gives fun e d => Lays tokens c0 [.expr e] d := by
  refine Read.gives_bind (hsub _ c h) ?_
  intro right d h1 hright
  exact gives_ok (.node (n := .expr (.binary _ left op right)) (hleft.append hright.lays) trivial (Or.inl rfl)
    (Or.inl rfl))

theorem named_lays (hsub : LaysExprs tokens sub) (c : Cursor) (h : c.size < n)
    (hleft : Lays tokens c0 [.expr left] c) :
    (named sub left c h).Gives fun e d => Lays tokens c0 [.expr e] d := by
  unfold named
  split
  · rename_i span id
    refine Read.gives_bind (hsub .named c h) ?_
    intro value d h1 hvalue
    exact gives_ok (.node (n := .expr (.named _ (.name span id) value)) (hleft.append hvalue.lays) trivial
      (Or.inl rfl) (Or.inl rfl))
  · exact gives_error _

theorem conditional_lays (hsub : LaysExprs tokens sub) (c : Cursor) (h : c.size < n)
    (hleft : Lays tokens c0 [.expr left] c) :
    (conditional sub left c h).Gives fun e d => Lays tokens c0 [.expr e] d := by
  refine Read.gives_bind (hsub .conditional c h) ?_
  intro test c1 h1 htest
  refine Read.gives_bind (Read.gives_since (c1.expect_gives _) h1) ?_
  intro t c2 h2 helse
  refine Read.gives_bind (Read.gives_since (hsub .named c2 _) h2) ?_
  intro orelse d h3 horelse
  have hparts := (hleft.append (htest.lays.reaching helse.2.reaches)).append horelse.lays
  exact gives_ok (.node (n := .expr (.conditional _ test left orelse)) hparts trivial (Or.inl rfl) (Or.inl rfl))

theorem identity_lays (hsub : LaysExprs tokens sub) (c : Cursor) (h : c.size < n)
    (hleft : Lays tokens c0 [.expr left] c) :
    (identity sub left c h).Gives fun e d => Lays tokens c0 [.expr e] d := by
  unfold identity
  split
  · rename_i t c1 h1 hnot
    have hpass := (Cursor.accept?_passes hnot).2.reaches
    exact Read.gives_since (binary_lays hsub _ c1 _ (hleft.reaching hpass)) h1
  · exact binary_lays hsub _ c h hleft

theorem absence_lays (hsub : LaysExprs tokens sub) (c : Cursor) (h : c.size < n)
    (hleft : Lays tokens c0 [.expr left] c) :
    (absence sub left c h).Gives fun e d => Lays tokens c0 [.expr e] d := by
  refine Read.gives_bind (c.demand_gives _ _) ?_
  intro t c1 h1 hin
  exact Read.gives_since (binary_lays hsub _ c1 _ (hleft.reaching hin.2.reaches)) h1

/-- An expression that goes on after `left` begins where `left` does. -/
theorem extendAfter_lays (hsub : LaysExprs tokens sub) (t : Token) (c : Cursor) (h : c.size < n)
    (hleft : Lays tokens c0 [.expr left] c) :
    (extendAfter sub left t c h).Gives fun e d => Lays tokens c0 [.expr e] d := by
  unfold extendAfter
  split
  case h_1 => exact named_lays hsub c h hleft
  case h_2 => exact conditional_lays hsub c h hleft
  case h_3 => exact identity_lays hsub c h hleft
  case h_4 => exact absence_lays hsub c h hleft
  case h_5 =>
    refine Read.gives_bind c.expectName_gives ?_
    intro attr d h1 hattr
    exact gives_ok (.node (n := .expr (.member _ left attr)) (hleft.reaching hattr) trivial (Or.inl rfl)
      (Or.inr rfl))
  case h_6 =>
    refine Read.gives_bind (indices_lays hsub c h) ?_
    intro key c1 h1 hkey
    refine Read.gives_bind (Read.gives_since (c1.expect_gives _) h1) ?_
    intro t d h2 hclose
    have hparts := hleft.append (hkey.reaching hclose.2.reaches)
    exact gives_ok (.node (n := .expr (.subscript _ left key)) hparts trivial (Or.inl rfl) (Or.inr rfl))
  case h_7 =>
    refine MayRead.gives_bind (anyArguments_lays hsub _ c h) ?_
    intro items c1 h1 hitems
    refine Read.gives_bind (Read.gives_from (c1.expect_gives _) h1) ?_
    intro t d h2 hclose
    have hparts := hleft.append (hitems.reaching hclose.2.reaches)
    exact gives_ok (.node (n := .expr (.call _ left items)) hparts trivial (Or.inl rfl) (Or.inr rfl))
  case h_8 =>
    split
    · exact binary_lays hsub _ c h hleft
    · exact gives_error _

theorem extend_lays (hsub : LaysExprs tokens sub) (level : Power) (left : Expr) (c : Cursor) (h : c.size < n)
    (hleft : Lays tokens c0 [.expr left] c) :
    (extend sub level left c h).Gives fun e d => Lays tokens c0 [.expr e] d := by
  rw [extend]
  split
  · split
    · exact gives_ok hleft
    · rename_i t c1 h1 hnext
      have hpass := (Cursor.next?_passes hnext).reaches
      refine Read.gives_bind (Read.gives_since (extendAfter_lays hsub t c1 _ (hleft.reaching hpass)) h1) ?_
      intro longer c2 h2 hlonger
      refine Read.gives_bind (MayRead.gives_since (extend_lays hsub level longer c2 _ hlonger) h2) ?_
      exact fun e d h3 he => gives_ok he
  · exact gives_ok hleft
termination_by c.size

end Exprs

/-! ## Expressions -/

/-- An expression begins with the first token, or after it if that opens a group, and all that is in it is
tidy. -/
theorem expr_lays (tokens : List Token) (level : Power) (c : Cursor) :
    (expr level c).Gives (LaysExpr tokens c) := by
  have hsub : LaysExprs (n := c.size) tokens fun l c' _ => expr l c' := fun l c' h => expr_lays tokens l c'
  rw [expr]
  refine Read.gives_bind (operand_lays hsub c _) ?_
  intro left c1 h1 hleft
  have hextend := extend_lays hsub level left c1 h1 hleft.lays
  have hreads : ReadsExprs (n := c.size) fun l c' _ => expr l c' := fun l c' _ => expr_gives l c'
  have hreaches := extend_gives hreads level left c1 h1
  exact MayRead.gives_since (fun a ha => ⟨hleft.opens.reaching (hreaches a ha).1, hextend a ha⟩) h1
termination_by c.size

theorem laysExprs_exprBelow (tokens : List Token) (n : Nat) : LaysExprs tokens (exprBelow n) :=
  fun level c _ => expr_lays tokens level c

end TypeWatch.Reading
