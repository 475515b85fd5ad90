import TypeWatch.Proofs.Reading.Bracketed

/-! # Words of lambdas, yields and assignments in parentheses -/
namespace TypeWatch.Reading
set_option autoImplicit false

/-! ## Parameters -/

/-- An entry of a parameter list that gives the parameter, its place and kind aside. -/
inductive GivesParameter : ParameterItem → Parameter → Prop
  | plain {s s' : Span} {kind : ParameterKind} {id : String} {standard standard' : Option Expr} :
      kind ≠ .variadic → kind ≠ .variadicKeywords → Expr.bareOption standard = Expr.bareOption standard' →
      GivesParameter (.plain s id none standard) (.mk s' kind id none standard')
  | variadic {s s' : Span} {id : String} :
      GivesParameter (.variadic s id none) (.mk s' .variadic id none none)
  | variadicKeywords {s s' : Span} {id : String} :
      GivesParameter (.variadicKeywords s id none) (.mk s' .variadicKeywords id none none)

theorem bareParameters_append (ps qs : List Parameter) :
    Expr.bareParameters (ps ++ qs) = Expr.bareParameters ps ++ Expr.bareParameters qs := by
  induction ps with
  | nil => rfl
  | cons p ps ih =>
    obtain ⟨s, kind, id, hint, standard⟩ := p
    simp only [List.cons_append, Expr.bareParameters, ih]

/-- The kinds come back from the order of the parameters. -/
theorem bareParameters_parametersOf {items : List ParameterItem} {ps : List Parameter}
    (h : List.Forall₂ GivesParameter items ps) (kind : ParameterKind)
    (hkinds : Expr.keepsKinds kind ps = true) (before : List Parameter) :
    Expr.bareParameters (parametersOf kind before items) =
      Expr.bareParameters before ++ Expr.bareParameters ps := by
  induction h generalizing kind before with
  | nil => simp [parametersOf, Expr.bareParameters]
  | cons hitem _ ih =>
    cases hitem with
    | @plain s s' k id standard standard' hvariadic hkeywords hstandard =>
      rw [Expr.keepsKinds, Bool.and_eq_true, beq_iff_eq] at hkinds
      · obtain ⟨rfl, hkinds⟩ := hkinds
        rw [parametersOf, ih k hkinds, bareParameters_append]
        simp [Expr.bareParameters, hstandard]
      · exact hvariadic
      · exact hkeywords
    | variadic =>
      rw [Expr.keepsKinds, Option.isNone_none, Bool.true_and] at hkinds
      rw [parametersOf, ih _ hkinds, bareParameters_append]
      simp [Expr.bareParameters]
    | variadicKeywords =>
      rw [Expr.keepsKinds, Option.isNone_none, Bool.true_and] at hkinds
      rw [parametersOf, ih _ hkinds, bareParameters_append]
      simp [Expr.bareParameters]

/-- Words of a parameter without an annotation. -/
inductive ParameterStands : List Word → Parameter → Prop
  | plain {kind : ParameterKind} {ws : List Word} {standard : Option Expr} (s : Span) (id : String) :
      kind ≠ .variadic → kind ≠ .variadicKeywords → AfterMark .assign ws standard →
      ParameterStands ((.name, id) :: ws) (.mk s kind id none standard)
  | variadic (s : Span) (id : String) :
      ParameterStands [opWord .star, (.name, id)] (.mk s .variadic id none none)
  | variadicKeywords (s : Span) (id : String) :
      ParameterStands [opWord .doubleStar, (.name, id)] (.mk s .variadicKeywords id none none)

section Parameters

variable {n : Nat} {ws : List Word} {p : Parameter} {next : Word} {more : List Word}

theorem AfterMark.reads {o : Operator} {e : Option Expr} (he : AfterMark o ws e) (hstops : Stops next.1)
    (hmark : next.1 ≠ .op o) {c : Cursor} (h : c.size < n) (hc : c.words = ws ++ next :: more) :
    (exprAfter (exprBelow n) (.op o) .named c h).Finds fun x d =>
      Expr.bareOption x = Expr.bareOption e ∧ d.words = next :: more := by
  cases he with
  | absent =>
    rw [exprAfter, Cursor.accept?_eq_none hc hmark]
    exact finds_ok ⟨rfl, hc⟩
  | present he =>
    obtain ⟨t, c1, h1, haccept, -, hc1⟩ := Cursor.accept?_of_words hc
    rw [exprAfter, haccept]
    refine Read.finds_bind (Read.finds_since (he.named hstops hc1) h1) ?_
    rintro x d _ ⟨hx, hd⟩
    exact finds_ok ⟨congrArg some hx, hd⟩

theorem ParameterStands.reads (hp : ParameterStands ws p)
    (hnext : next.1 = .op .comma ∨ next.1 = .op .colon) {c : Cursor} (h : c.size < n)
    (hc : c.words = ws ++ next :: more) :
    (parameterItem (exprBelow n) false c h).Finds fun x d => GivesParameter x p ∧ d.words = next :: more := by
  cases hp with
  | plain s id hvariadic hkeywords hstandard =>
    have hstops : Stops next.1 := by
      rcases hnext with hkind | hkind <;> rw [hkind] <;> exact stops_op (by decide)
    have hassign : next.1 ≠ .op .assign := by rcases hnext with hkind | hkind <;> rw [hkind] <;> decide
    rw [parameterItem, Cursor.accept?_eq_none (k := .op .slash) hc (by rintro ⟨⟩)]
    simp only [Cursor.accept?_eq_none (k := .op .star) hc (by rintro ⟨⟩),
      Cursor.accept?_eq_none (k := .op .doubleStar) hc (by rintro ⟨⟩)]
    refine Read.finds_bind (Cursor.expectName_finds hc) ?_
    rintro _ c1 h1 ⟨rfl, hc1⟩
    have hhint : (hintAfter (exprBelow n) false c1 (below_of_lt h1 h)).Finds fun x d =>
        x = none ∧ d.words = c1.words := finds_ok ⟨rfl, rfl⟩
    refine Read.finds_bind (MayRead.finds_since hhint h1) ?_
    rintro _ c2 h2 ⟨rfl, hc2⟩
    have hread := hstandard.reads hstops hassign (below_of_lt h2 h) (hc2.trans hc1)
    refine Read.finds_bind (MayRead.finds_since hread h2) ?_
    rintro x d _ ⟨hx, hd⟩
    exact finds_ok ⟨.plain hvariadic hkeywords hx, hd⟩
  | variadic s id =>
    obtain ⟨t, c1, h1, hstar, -, hc1⟩ := Cursor.accept?_of_words hc
    obtain ⟨u, c2, h2, hname, hu, hc2⟩ := Cursor.accept?_of_words hc1
    have hsince : (c1.accept? .name).since h1 = some ⟨u, c2, Nat.lt_trans h2 h1⟩ := by
      rw [hname]
      rfl
    obtain rfl : u.text = id := congrArg Prod.snd hu
    rw [parameterItem, Cursor.accept?_eq_none (k := .op .slash) hc (by rintro ⟨⟩)]
    simp only [hstar, hsince]
    exact finds_ok ⟨.variadic, hc2⟩
  | variadicKeywords s id =>
    obtain ⟨t, c1, h1, hstar, -, hc1⟩ := Cursor.accept?_of_words hc
    rw [parameterItem, Cursor.accept?_eq_none (k := .op .slash) hc (by rintro ⟨⟩)]
    simp only [Cursor.accept?_eq_none (k := .op .star) hc (by rintro ⟨⟩), hstar]
    refine Read.finds_bind (Read.finds_since (Cursor.expectName_finds hc1) h1) ?_
    rintro _ c2 h2 ⟨rfl, hc2⟩
    exact finds_ok ⟨.variadicKeywords, hc2⟩

theorem ParameterStands.item (hp : ParameterStands ws p) (n : Nat) :
    ItemOn (parameterItem (exprBelow n) false) (· = .op .colon) GivesParameter ws p where
  opens := by
    cases hp with
    | plain => exact ⟨_, _, rfl, rfl⟩
    | variadic => exact ⟨_, _, rfl, rfl⟩
    | variadicKeywords => exact ⟨_, _, rfl, rfl⟩
  reads c h _ _ hc hnext := by
    refine hp.reads ?_ h hc
    rcases hnext with hcomma | hend
    · exact Or.inl hcomma
    · exact Or.inr (of_decide_eq_true hend)

theorem phrase_lambda (s : Span) {wss : List (List Word)} {ps : List Parameter}
    (hps : List.Forall₂ ParameterStands wss ps) (hkinds : Expr.keepsKinds .regular ps = true)
    {body : Expr} {head tail : Nat} (hbody : Phrase ws body head tail) (hhead : Power.named.rank < head) :
    Phrase (keyWord .kwLambda :: (commaBetween wss ++ opWord .colon :: ws)) (.lambda s ps body) closed
      (min Power.named.rank tail) := by
  refine phrase_of_operand rfl ?_
  rintro n ⟨_, _, span⟩ c h next more ht hnext hc
  obtain ⟨rfl, rfl⟩ := Prod.mk.inj ht
  rw [List.append_assoc, List.cons_append] at hc
  have hitems := hps.imp fun _ _ hstands => hstands.item n
  have hlist : (parameters (exprBelow n) (.op .colon) false c h).Finds fun xs d =>
      Expr.bareParameters xs = Expr.bareParameters ps ∧ d.words = opWord .colon :: (ws ++ next :: more) := by
    refine MayRead.finds_bind (anyItems_finds (by decide) hitems c h hc) ?_
    rintro items d _ ⟨hgives, hd⟩
    exact finds_ok ⟨bareParameters_parametersOf hgives .regular hkinds [], hd⟩
  refine Read.finds_moved ?_
  refine MayRead.finds_bind hlist ?_
  rintro xs c1 h1 ⟨hxs, hc1⟩
  refine Read.finds_bind (Read.finds_from (Cursor.expect_finds hc1) h1) ?_
  rintro _ c2 h2 ⟨-, hc2⟩
  have hlevel := Nat.le_trans hnext.level (Nat.min_le_left _ _)
  have hread := hbody.finds hhead (hnext.mono (Nat.min_le_right _ _)) hlevel hc2
  refine Read.finds_bind (Read.finds_since hread h2) ?_
  rintro x d _ ⟨hx, hd⟩
  refine finds_ok ⟨?_, hd⟩
  simp only [Expr.bare, hxs, hx]

end Parameters

/-! ## Yields -/

section Yields

variable {ws : List Word} {e : Expr}

/-- An operand before a word that does not go on with it. -/
theorem expr_of_operand {w next : Word} {more : List Word} {level : Power} {P : Expr → Prop}
    (hreads : ∀ n t c (h : c.size < n), t.word = w → c.words = ws →
      (operandAfter (exprBelow n) t c h).Finds fun x d => P x ∧ d.words = next :: more)
    (hlevel : (infixLevel next.1).rank ≤ level.rank) {c : Cursor} (hc : c.words = w :: ws) :
    (expr level c).Finds fun x d => P x ∧ d.words = next :: more := by
  obtain ⟨t, c1, h1, hnext, ht, hc1⟩ := Cursor.next?_of_words hc
  have hafter := hreads c.size t c1 (below_upTo h1 c.size_upTo) ht hc1
  have hoperand : (operand (exprBelow c.size) c c.size_upTo).Finds fun x d => P x ∧ d.words = next :: more := by
    rw [operand, hnext]
    exact MayRead.finds_since hafter h1
  rw [expr]
  refine Read.finds_bind hoperand ?_
  rintro x d h2 ⟨hx, hd⟩
  refine MayRead.finds_since (P := fun (x : Expr) d => P x ∧ d.words = next :: more) ?_ h2
  rw [extend_stops h2 x (by rw [Cursor.kind_of_words hd]; exact hlevel)]
  exact finds_ok ⟨hx, hd⟩

/-- An operand before a closing parenthesis. -/
theorem inner_of_operand {w : Word} (hopen : opensExpr w.1 = true)
    (hreads : ∀ n t c (h : c.size < n) more, t.word = w → c.words = ws ++ opWord .closeParen :: more →
      (operandAfter (exprBelow n) t c h).Finds fun e' d =>
        e'.bare = e.bare ∧ d.words = opWord .closeParen :: more) : Inner (w :: ws) e :=
  ⟨⟨w, ws, rfl, hopen⟩, fun _ more hc =>
    expr_of_operand (fun n t d h ht hd => hreads n t d h more ht hd) (Nat.le_refl _) hc⟩

theorem inner_yieldFrom (s : Span) (he : Stands ws e) :
    Inner (keyWord .kwYield :: keyWord .kwFrom :: ws) (.yield s (some e) true) := by
  refine inner_of_operand rfl ?_
  rintro n ⟨_, _, span⟩ c h more ht hc
  obtain ⟨rfl, rfl⟩ := Prod.mk.inj ht
  obtain ⟨t, c1, h1, haccept, -, hc1⟩ := Cursor.accept?_of_words hc
  change (yielded (exprBelow n) span.start c h).Finds _
  rw [yielded, haccept]
  refine Read.finds_bind (Read.finds_since (he.least stops_closeParen hc1) h1) ?_
  rintro x d _ ⟨hx, hd⟩
  refine finds_ok ⟨?_, hd⟩
  simp only [Moved.past, Expr.bare, Expr.bareOption, hx]

theorem inner_yield (s : Span) (he : Stands ws e) :
    Inner (keyWord .kwYield :: ws) (.yield s (some e) false) := by
  refine inner_of_operand rfl ?_
  rintro n ⟨_, _, span⟩ c h more ht hc
  obtain ⟨rfl, rfl⟩ := Prod.mk.inj ht
  obtain ⟨w, rest, hws, hopen⟩ := he.opens
  have hkind : c.kind = w.1 := Cursor.kind_of_words (hc.trans (by rw [hws, List.cons_append]))
  change (yielded (exprBelow n) span.start c h).Finds _
  rw [yielded, he.accept?_eq_none rfl hc]
  simp only [hkind, hopen, if_true]
  have hvalue : (exprList (exprBelow n) .least c h).Finds fun e' d =>
      e'.bare = e.bare ∧ d.words = opWord .closeParen :: more := by
    refine Read.finds_bind (he.least stops_closeParen hc) ?_
    rintro x d _ ⟨hx, hd⟩
    have hcomma : ¬d.kind = .op .comma := by
      rw [Cursor.kind_of_words hd]
      rintro ⟨⟩
    simp only [if_neg hcomma]
    exact finds_ok ⟨hx, hd⟩
  refine Read.finds_bind hvalue ?_
  rintro x d _ ⟨hx, hd⟩
  refine finds_ok ⟨?_, hd⟩
  simp only [Moved.past, Expr.bare, Expr.bareOption, hx]

theorem inner_yieldNothing (s : Span) : Inner [keyWord .kwYield] (.yield s none false) := by
  refine inner_of_operand rfl ?_
  rintro n ⟨_, _, span⟩ c h more ht hc
  obtain ⟨rfl, rfl⟩ := Prod.mk.inj ht
  change (yielded (exprBelow n) span.start c h).Finds _
  rw [yielded, Cursor.accept?_eq_none hc (by decide)]
  have hkind : c.kind = .op .closeParen := Cursor.kind_of_words hc
  simp only [hkind]
  exact finds_ok ⟨rfl, hc⟩

end Yields

/-! ## Names that are given values -/

theorem inner_named {ws : List Word} {e : Expr} (s s' : Span) (id : String) (he : Stands ws e) :
    Inner ((.name, id) :: opWord .walrus :: ws) (.named s (.name s' id) e) := by
  obtain ⟨head, tail, hhead, hp⟩ := he
  have hphrase : Phrase ([(.name, id)] ++ opWord .walrus :: ws) (.named s (.name s' id) e) Power.named.rank
      (min Power.named.rank tail) := by
    refine (phrase_name s' id).extended (by decide) (Nat.le_refl _) ⟨by decide, rfl⟩ ?_
    rintro n left ⟨_, _, span⟩ c h next more hleft ht hnext hc
    obtain ⟨rfl, rfl⟩ := Prod.mk.inj ht
    obtain ⟨s'', rfl⟩ : ∃ s'', left = .name s'' id := by
      cases left with
      | name s'' id' =>
        obtain rfl := (Expr.name.inj hleft).2
        exact ⟨s'', rfl⟩
      | _ => exact absurd hleft nofun
    have hlevel := Nat.le_trans hnext.level (Nat.min_le_left _ _)
    refine Read.finds_bind (hp.finds hhead (hnext.mono (Nat.min_le_right _ _)) hlevel hc) ?_
    rintro x d _ ⟨hx, hd⟩
    refine finds_ok ⟨?_, hd⟩
    simp only [Expr.bare, hx]
  exact ⟨hphrase.opens, fun c more hc => hphrase.whole (by decide) stops_closeParen hc⟩

end TypeWatch.Reading
