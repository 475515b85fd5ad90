import TypeWatch.Proofs.Reading.Phrase

/-! # Words of expressions with brackets

Groups, displays, comprehensions, subscripts, calls and lambdas are read from their words, if the
expressions in them are. -/
namespace TypeWatch.Reading
set_option autoImplicit false

/-! ## Expressions between brackets and commas -/

/-- Expressions that differ in places only. -/
def sameExpr (x y : Expr) : Prop := x.bare = y.bare

/-- Words that are read as an expression where no operator is open, or one that binds weakest. -/
def Stands (ws : List Word) (e : Expr) : Prop :=
  ∃ head tail, Power.named.rank < head ∧ Phrase ws e head tail

/-- Words of an expression after a sign that announces it, which may be left out with it. -/
inductive AfterMark (o : Operator) : List Word → Option Expr → Prop
  | absent : AfterMark o [] none
  | present {ws : List Word} {e : Expr} : Stands ws e → AfterMark o (opWord o :: ws) (some e)

theorem bareList_eq {xs ys : List Expr} (h : List.Forall₂ sameExpr xs ys) :
    Expr.bareList xs = Expr.bareList ys := by
  induction h with
  | nil => rfl
  | cons hx _ ih => rw [Expr.bareList, Expr.bareList, hx, ih]

section Elements

variable {ws : List Word} {e : Expr} {wss : List (List Word)} {es : List Expr} {n : Nat} {c : Cursor}
  {next : Word} {more : List Word}

theorem ne_of_opensExpr {k k' : TokenKind} (h : opensExpr k = true) (h' : opensExpr k' = false) :
    k ≠ k' := by
  rintro rfl
  exact absurd (h.symm.trans h') nofun

theorem Stands.opens (h : Stands ws e) : ∃ w rest, ws = w :: rest ∧ opensExpr w.1 = true := by
  obtain ⟨_, _, _, hp⟩ := h
  exact hp.opens

theorem Stands.least (h : Stands ws e) (hnext : Stops next.1) (hc : c.words = ws ++ next :: more) :
    (expr .least c).Finds fun e' d => e'.bare = e.bare ∧ d.words = next :: more := by
  obtain ⟨_, _, hhead, hp⟩ := h
  exact hp.whole (Nat.lt_trans Nat.zero_lt_one hhead) hnext hc

/-- An expression after a sign that gives a value. -/
theorem Stands.named (h : Stands ws e) (hnext : Stops next.1) (hc : c.words = ws ++ next :: more) :
    (expr .named c).Finds fun e' d => e'.bare = e.bare ∧ d.words = next :: more := by
  obtain ⟨_, _, hhead, hp⟩ := h
  exact hp.whole hhead hnext hc

theorem Stands.item (h : Stands ws e) {closing : TokenKind} (hclosing : Stops closing) (n : Nat) :
    ItemOn (exprBelow n .least) (· = closing) sameExpr ws e where
  opens := by
    obtain ⟨w, rest, hws, hopen⟩ := h.opens
    exact ⟨w, rest, hws, decide_eq_false (ne_of_opensExpr hopen hclosing.noOpening)⟩
  reads c _ next more hc hnext := by
    refine h.least ?_ hc
    rcases hnext with hcomma | hend
    · rw [hcomma]
      exact stops_op (Or.inl rfl)
    · rw [of_decide_eq_true hend]
      exact hclosing

theorem items_of_stands (h : List.Forall₂ Stands wss es) {closing : TokenKind} (hclosing : Stops closing)
    (n : Nat) : List.Forall₂ (ItemOn (exprBelow n .least) (· = closing) sameExpr) wss es :=
  h.imp fun _ _ hstands => hstands.item hclosing n

/-- The words after the first one of an expression are not those that end a list. -/
theorem Stands.accept?_eq_none (h : Stands ws e) {k : TokenKind} (hkind : opensExpr k = false)
    {more : List Word} (hc : c.words = ws ++ more) : c.accept? k = none := by
  obtain ⟨w, rest, rfl, hopen⟩ := h.opens
  exact Cursor.accept?_eq_none hc (ne_of_opensExpr hopen hkind)

theorem Stands.kind_ne (h : Stands ws e) {kind : TokenKind} (hkind : opensExpr kind = false)
    {more : List Word} (hc : c.words = ws ++ more) : c.kind ≠ kind := by
  obtain ⟨w, rest, rfl, hopen⟩ := h.opens
  rw [Cursor.kind_of_words hc]
  exact ne_of_opensExpr hopen hkind

end Elements

/-! ## Fillings -/

section Filling

variable {n : Nat} {c : Cursor} {o : Operator} {more : List Word}

theorem opensClause_eq_false {w : Word} {ws : List Word} (hc : c.words = w :: ws)
    (hfor : w.1 ≠ .word .kwFor) (hasync : w.1 ≠ .word .kwAsync) : opensClause c = false := by
  simp [opensClause, Cursor.kind_of_words hc, hfor, hasync]

theorem filling_alone (h : c.size < n) (ho : o ≠ .comma) (hc : c.words = opWord o :: more) :
    (filling (exprBelow n) (.op o) c h).Finds fun f d => f = .alone ∧ d.words = more := by
  have hkind : c.kind = .op o := Cursor.kind_of_words hc
  have hno : ¬c.kind = .op .comma := fun heq => ho (TokenKind.op.inj (hkind.symm.trans heq))
  rw [filling, if_neg (by simp [opensClause_eq_false hc nofun nofun]), if_neg hno]
  refine Read.finds_bind (Cursor.expect_finds hc) ?_
  rintro t d _ ⟨-, hd⟩
  exact finds_ok ⟨rfl, hd⟩

/-- More elements, or a comma that none follows. -/
theorem filling_elements (h : c.size < n) {w : List Word} (hc : c.words = opWord .comma :: w)
    {P : List Expr → Prop}
    (hfollow : (followers (exprBelow n .least) (· = .op o) c h).Finds fun xs d =>
      P xs ∧ d.words = opWord o :: more) :
    (filling (exprBelow n) (.op o) c h).Finds fun f d =>
      (∃ xs, f = .elements xs ∧ P xs) ∧ d.words = more := by
  have hkind : c.kind = .op .comma := Cursor.kind_of_words hc
  rw [filling, if_neg (by simp [opensClause_eq_false hc nofun nofun]), if_pos hkind]
  refine MayRead.finds_bind hfollow ?_
  rintro xs d h1 ⟨hxs, hd⟩
  refine Read.finds_bind (Read.finds_from (Cursor.expect_finds hd) h1) ?_
  rintro t d' _ ⟨-, hd'⟩
  exact finds_ok ⟨⟨xs, rfl, hxs⟩, hd'⟩

end Filling

/-! ## Groups -/

/-- Words that are read as an expression up to a closing parenthesis. -/
structure Inner (ws : List Word) (e : Expr) : Prop where
  opens : ∃ w rest, ws = w :: rest ∧ opensExpr w.1 = true
  reads : ∀ (c : Cursor) (more : List Word), c.words = ws ++ opWord .closeParen :: more →
    (expr .least c).Finds fun e' d => e'.bare = e.bare ∧ d.words = opWord .closeParen :: more

theorem stops_closeParen : Stops (opWord .closeParen).1 := ⟨rfl, rfl, rfl⟩

theorem Stands.inner {ws : List Word} {e : Expr} (h : Stands ws e) : Inner ws e :=
  ⟨h.opens, fun _ _ hc => h.least stops_closeParen hc⟩

theorem phrase_group {ws : List Word} {e : Expr} (h : Inner ws e) :
    Phrase (opWord .openParen :: (ws ++ [opWord .closeParen])) e closed closed := by
  refine phrase_of_operand rfl ?_
  rintro n ⟨_, _, span⟩ c hlt next more ht - hc
  obtain ⟨rfl, rfl⟩ := Prod.mk.inj ht
  rw [List.append_assoc, List.singleton_append] at hc
  obtain ⟨w, rest, rfl, hopen⟩ := h.opens
  have hnone : c.accept? (.op .closeParen) = none :=
    Cursor.accept?_eq_none hc (ne_of_opensExpr hopen rfl)
  refine Read.finds_moved ?_
  rw [parenthesized, hnone]
  refine Read.finds_bind (h.reads c _ hc) ?_
  rintro first c1 h1 ⟨hfirst, hc1⟩
  refine Read.finds_bind (Read.finds_since (filling_alone (below_of_lt h1 hlt) (by decide) hc1) h1) ?_
  rintro _ d h2 ⟨rfl, hd⟩
  exact finds_ok ⟨hfirst, hd⟩

/-! ## Displays -/

section Displays

variable {wss : List (List Word)} {es : List Expr}

/-- What follows the first of several elements, with the closing bracket. -/
theorem filling_finds {n : Nat} {c : Cursor} (h : c.size < n) {o : Operator} (ho : Stops (.op o))
    (hcomma : o ≠ .comma) {ws : List Word} {e : Expr} (hes : List.Forall₂ Stands (ws :: wss) (e :: es))
    {more : List Word} (hc : c.words = commaThen (ws :: wss) ++ opWord o :: more) :
    (filling (exprBelow n) (.op o) c h).Finds fun f d =>
      (∃ xs, f = .elements xs ∧ List.Forall₂ sameExpr xs (e :: es)) ∧ d.words = more := by
  refine filling_elements h (w := ws ++ (commaThen wss ++ opWord o :: more)) ?_ ?_
  · rw [hc, commaThen_cons, List.cons_append, List.append_assoc]
  · refine followers_finds (items_of_stands hes ho n) c h hc ?_ (decide_eq_true rfl)
    exact fun heq => hcomma (TokenKind.op.inj heq)

theorem filling_trailing {n : Nat} {c : Cursor} (h : c.size < n) {o : Operator} {more : List Word}
    (hc : c.words = opWord .comma :: opWord o :: more) :
    (filling (exprBelow n) (.op o) c h).Finds fun f d =>
      (∃ xs, f = .elements xs ∧ xs = []) ∧ d.words = more :=
  filling_elements h hc (listEnds_comma _ (decide_eq_true rfl) _ c h hc)

theorem phrase_tuple (s : Span) (hes : List.Forall₂ Stands wss es) :
    Phrase (opWord .openParen :: (Expr.tupleWords wss ++ [opWord .closeParen])) (.tuple s es)
      closed closed := by
  refine phrase_of_operand rfl ?_
  rintro n ⟨_, _, span⟩ c h next more ht - hc
  obtain ⟨rfl, rfl⟩ := Prod.mk.inj ht
  rw [List.append_assoc, List.singleton_append] at hc
  refine Read.finds_moved ?_
  cases hes with
  | nil =>
    obtain ⟨t, d, h1, haccept, -, hd⟩ := Cursor.accept?_of_words hc
    rw [parenthesized, haccept]
    exact finds_ok ⟨rfl, hd⟩
  | @cons ws e wss es he hes =>
    cases hes with
    | nil =>
      rw [Expr.tupleWords, List.append_assoc, List.singleton_append] at hc
      rw [parenthesized, he.accept?_eq_none rfl hc]
      refine Read.finds_bind (he.least (stops_op (Or.inl rfl)) hc) ?_
      rintro first c1 h1 ⟨hfirst, hc1⟩
      refine Read.finds_bind (Read.finds_since (filling_trailing (below_of_lt h1 h) hc1) h1) ?_
      rintro _ d h2 ⟨⟨_, rfl, rfl⟩, hd⟩
      refine finds_ok ⟨?_, hd⟩
      simp only [Expr.bare, Expr.bareList, hfirst]
    | @cons ws' e' wss es he' hes =>
      have hwords : Expr.tupleWords (ws :: ws' :: wss) = ws ++ commaThen (ws' :: wss) := rfl
      rw [hwords, List.append_assoc] at hc
      rw [parenthesized, he.accept?_eq_none rfl hc]
      refine Read.finds_bind (he.least (stops_op (Or.inl rfl)) hc) ?_
      rintro first c1 h1 ⟨hfirst, hc1⟩
      have hrest := filling_finds (below_of_lt h1 h) stops_closeParen (by decide) (.cons he' hes) hc1
      refine Read.finds_bind (Read.finds_since hrest h1) ?_
      rintro _ d h2 ⟨⟨xs, rfl, hxs⟩, hd⟩
      refine finds_ok ⟨?_, hd⟩
      simp only [Expr.bare, Expr.bareList, hfirst, bareList_eq hxs]

/-- What follows the first element of a display in which a comma after the last one is not needed. -/
theorem filling_others {n : Nat} {c : Cursor} (h : c.size < n) {o : Operator} (ho : Stops (.op o))
    (hcomma : o ≠ .comma) (hes : List.Forall₂ Stands wss es) {more : List Word}
    (hc : c.words = commaThen wss ++ opWord o :: more) :
    (filling (exprBelow n) (.op o) c h).Finds fun f d =>
      ((f = .alone ∧ es = []) ∨ ∃ xs, f = .elements xs ∧ List.Forall₂ sameExpr xs es) ∧ d.words = more := by
  cases hes with
  | nil =>
    refine (filling_alone h hcomma hc).imp ?_
    rintro a ⟨halone, hd⟩
    exact ⟨Or.inl ⟨halone, rfl⟩, hd⟩
  | cons he hes =>
    refine (filling_finds h ho hcomma (.cons he hes) hc).imp ?_
    rintro a ⟨helements, hd⟩
    exact ⟨Or.inr helements, hd⟩

theorem stops_closeBracket : Stops (opWord .closeBracket).1 := ⟨rfl, rfl, rfl⟩

theorem stops_closeBrace : Stops (opWord .closeBrace).1 := ⟨rfl, rfl, rfl⟩

/-- A comma or a bracket follows an element of a display. -/
theorem commaThen_append (wss : List (List Word)) {o : Operator} (ho : Stops (.op o)) (more : List Word) :
    ∃ next rest, commaThen wss ++ opWord o :: more = next :: rest ∧ Stops next.1 ∧
      (next = opWord .comma ∨ next = opWord o) := by
  cases wss with
  | nil => exact ⟨opWord o, more, rfl, ho, Or.inr rfl⟩
  | cons ws wss => exact ⟨opWord .comma, _, rfl, stops_op (Or.inl rfl), Or.inl rfl⟩

theorem phrase_list (s : Span) (hes : List.Forall₂ Stands wss es) :
    Phrase (opWord .openBracket :: (commaBetween wss ++ [opWord .closeBracket])) (.list s es)
      closed closed := by
  refine phrase_of_operand rfl ?_
  rintro n ⟨_, _, span⟩ c h next more ht - hc
  obtain ⟨rfl, rfl⟩ := Prod.mk.inj ht
  rw [List.append_assoc, List.singleton_append] at hc
  refine Read.finds_moved ?_
  cases hes with
  | nil =>
    obtain ⟨t, d, h1, haccept, -, hd⟩ := Cursor.accept?_of_words hc
    rw [listDisplay, haccept]
    exact finds_ok ⟨rfl, hd⟩
  | @cons ws e wss es he hes =>
    rw [commaBetween, List.append_assoc] at hc
    obtain ⟨v, rest, hv, hstops, -⟩ := commaThen_append wss stops_closeBracket (next :: more)
    rw [listDisplay, he.accept?_eq_none rfl hc]
    refine Read.finds_bind (he.least hstops (hc.trans (by rw [hv]))) ?_
    rintro first c1 h1 ⟨hfirst, hc1⟩
    have hrest := filling_others (below_of_lt h1 h) stops_closeBracket (by decide) hes (hc1.trans hv.symm)
    refine Read.finds_bind (Read.finds_since hrest h1) ?_
    rintro _ d h2 ⟨⟨rfl, rfl⟩ | ⟨xs, rfl, hxs⟩, hd⟩
    · refine finds_ok ⟨?_, hd⟩
      simp only [Expr.bare, Expr.bareList, hfirst]
    · refine finds_ok ⟨?_, hd⟩
      simp only [Expr.bare, Expr.bareList, hfirst, bareList_eq hxs]

theorem since_eq_none {c1 c : Cursor} {kind : TokenKind} (h : c1.accept? kind = none)
    (hlt : c1.size < c.size) : (c1.accept? kind).since hlt = none := by
  rw [h]
  rfl

theorem phrase_set (s : Span) {ws : List Word} {e : Expr} (hes : List.Forall₂ Stands (ws :: wss) (e :: es)) :
    Phrase (opWord .openBrace :: (commaBetween (ws :: wss) ++ [opWord .closeBrace])) (.set s (e :: es))
      closed closed := by
  refine phrase_of_operand rfl ?_
  rintro n ⟨_, _, span⟩ c h next more ht - hc
  obtain ⟨rfl, rfl⟩ := Prod.mk.inj ht
  obtain ⟨he, hes⟩ := List.forall₂_cons.mp hes
  rw [List.append_assoc, List.singleton_append, commaBetween, List.append_assoc] at hc
  refine Read.finds_moved ?_
  obtain ⟨v, rest, hv, hstops, hkind⟩ := commaThen_append wss stops_closeBrace (next :: more)
  rw [braceDisplay, he.accept?_eq_none rfl hc]
  simp only [he.accept?_eq_none (k := .op .doubleStar) rfl hc]
  refine Read.finds_bind (he.least hstops (hc.trans (by rw [hv]))) ?_
  rintro first c1 h1 ⟨hfirst, hc1⟩
  have hcolon : c1.accept? (.op .colon) = none := by
    refine Cursor.accept?_eq_none hc1 ?_
    rcases hkind with rfl | rfl <;> decide
  have hrest := filling_others (below_of_lt h1 h) stops_closeBrace (by decide) hes (hc1.trans hv.symm)
  simp only [since_eq_none hcolon h1]
  refine Read.finds_bind (Read.finds_since hrest h1) ?_
  rintro _ d h2 ⟨⟨rfl, rfl⟩ | ⟨xs, rfl, hxs⟩, hd⟩
  · refine finds_ok ⟨?_, hd⟩
    simp only [Expr.bare, Expr.bareList, hfirst]
  · refine finds_ok ⟨?_, hd⟩
    simp only [Expr.bare, Expr.bareList, hfirst, bareList_eq hxs]

end Displays

/-! ## Dictionaries -/

/-- Entries that differ in places only. -/
def sameEntry (x y : Entry) : Prop := Expr.bareEntries [x] = Expr.bareEntries [y]

theorem bareEntries_eq {xs ys : List Entry} (h : List.Forall₂ sameEntry xs ys) :
    Expr.bareEntries xs = Expr.bareEntries ys := by
  induction h with
  | nil => rfl
  | @cons x y xs ys hx _ ih =>
    have hcons (z : Entry) (zs : List Entry) :
        Expr.bareEntries (z :: zs) = Expr.bareEntries [z] ++ Expr.bareEntries zs := by
      cases z <;> simp only [Expr.bareEntries, List.singleton_append]
    rw [hcons, hcons y, hx, ih]

/-- Words that are read as an entry. -/
inductive EntryStands : List Word → Entry → Prop
  | pair {wk wv : List Word} {key value : Expr} : Stands wk key → Stands wv value →
      EntryStands (wk ++ opWord .colon :: wv) (.pair key value)
  | unpack {ws : List Word} {value : Expr} {head tail : Nat} : Power.comparison.rank < head →
      Phrase ws value head tail → EntryStands (opWord .doubleStar :: ws) (.unpack value)

section Dictionaries

variable {n : Nat}

theorem EntryStands.item {ws : List Word} {y : Entry} (h : EntryStands ws y) (n : Nat) :
    ItemOn (entry (exprBelow n)) (· = .op .closeBrace) sameEntry ws y := by
  have hstops {next : Word} (hnext : next.1 = .op .comma ∨ decide (next.1 = .op .closeBrace) = true) :
      Stops next.1 := by
    rcases hnext with hcomma | hend
    · rw [hcomma]
      exact stops_op (Or.inl rfl)
    · rw [of_decide_eq_true hend]
      exact stops_closeBrace
  cases h with
  | @pair wk wv key value hkey hvalue =>
    obtain ⟨w, rest, hwk, hopen⟩ := hkey.opens
    refine ⟨⟨w, rest ++ opWord .colon :: wv, by rw [hwk]; rfl,
      decide_eq_false (ne_of_opensExpr hopen rfl)⟩, ?_⟩
    intro c h next more hc hnext
    rw [List.append_assoc, List.cons_append] at hc
    rw [entry, hkey.accept?_eq_none rfl hc]
    refine Read.finds_bind (hkey.least (stops_op (by decide)) hc) ?_
    rintro x c1 h1 ⟨hx, hc1⟩
    refine Read.finds_bind (Read.finds_since (Cursor.expect_finds hc1) h1) ?_
    rintro _ c2 h2 ⟨-, hc2⟩
    refine Read.finds_bind (Read.finds_since (hvalue.least (hstops hnext) hc2) h2) ?_
    rintro z d h3 ⟨hz, hd⟩
    refine finds_ok ⟨?_, hd⟩
    simp only [sameEntry, Expr.bareEntries, hx, hz]
  | @unpack ws value head tail hhead hp =>
    refine ⟨⟨_, _, rfl, by decide⟩, ?_⟩
    intro c h next more hc hnext
    obtain ⟨t, c1, h1, haccept, -, hc1⟩ := Cursor.accept?_of_words hc
    rw [entry, haccept]
    refine Read.finds_bind (Read.finds_since (hp.whole hhead (hstops hnext) hc1) h1) ?_
    rintro z d h2 ⟨hz, hd⟩
    refine finds_ok ⟨?_, hd⟩
    simp only [sameEntry, Expr.bareEntries, hz]

variable {wss : List (List Word)} {es : List Entry}

theorem dictRest_finds (s : Span) {start : Position} {first y : Entry} (hfirst : sameEntry first y)
    (hes : List.Forall₂ EntryStands wss es) {c : Cursor} (h : c.size < n) {more : List Word}
    (hc : c.words = commaThen wss ++ opWord .closeBrace :: more) :
    (dictRest (exprBelow n) start first c h).Finds fun e d =>
      e.bare = (Expr.dict s (y :: es)).bare ∧ d.words = more := by
  have hitems := hes.imp fun _ _ hstands => hstands.item n
  refine MayRead.finds_bind (followers_finds hitems c h hc (by decide) (by decide)) ?_
  rintro others c1 h1 ⟨hothers, hc1⟩
  refine Read.finds_bind (Read.finds_from (Cursor.expect_finds hc1) h1) ?_
  rintro _ d h2 ⟨-, hd⟩
  refine finds_ok ⟨?_, hd⟩
  simp only [Expr.bare, bareEntries_eq (.cons hfirst hothers)]

theorem phrase_dict (s : Span) (hes : List.Forall₂ EntryStands wss es) :
    Phrase (opWord .openBrace :: (commaBetween wss ++ [opWord .closeBrace])) (.dict s es)
      closed closed := by
  refine phrase_of_operand rfl ?_
  rintro n ⟨_, _, span⟩ c h next more ht - hc
  obtain ⟨rfl, rfl⟩ := Prod.mk.inj ht
  rw [List.append_assoc, List.singleton_append] at hc
  refine Read.finds_moved ?_
  cases hes with
  | nil =>
    obtain ⟨t, d, h1, haccept, -, hd⟩ := Cursor.accept?_of_words hc
    rw [braceDisplay, haccept]
    exact finds_ok ⟨rfl, hd⟩
  | @cons ws e wss es he hes =>
    rw [commaBetween, List.append_assoc] at hc
    obtain ⟨v, rest, hv, hstops, hkind⟩ := commaThen_append wss stops_closeBrace (next :: more)
    cases he with
    | @pair wk wv key value hkey hvalue =>
      rw [List.append_assoc, List.cons_append] at hc
      rw [braceDisplay, hkey.accept?_eq_none rfl hc]
      simp only [hkey.accept?_eq_none (k := .op .doubleStar) rfl hc]
      refine Read.finds_bind (hkey.least (stops_op (by decide)) hc) ?_
      rintro x c1 h1 ⟨hx, hc1⟩
      obtain ⟨t, c2, h2, haccept, -, hc2⟩ := Cursor.accept?_of_words hc1
      have hsince : (c1.accept? (.op .colon)).since h1 = some ⟨t, c2, Nat.lt_trans h2 h1⟩ := by
        rw [haccept]
        rfl
      simp only [hsince]
      refine Read.finds_since (P := fun (e : Expr) d =>
        e.bare = (Expr.dict s (.pair key value :: es)).bare ∧ d.words = next :: more) ?_ _
      refine Read.finds_bind (hvalue.least hstops (hc2.trans (by rw [hv]))) ?_
      rintro z c3 h3 ⟨hz, hc3⟩
      have hno : opensClause c3 = false := by
        refine opensClause_eq_false hc3 ?_ ?_ <;> rcases hkind with rfl | rfl <;> decide
      simp only [hno, Bool.false_eq_true, if_false]
      have hsame : sameEntry (.pair x z) (.pair key value) := by
        simp only [sameEntry, Expr.bareEntries, hx, hz]
      exact Read.finds_since (dictRest_finds s hsame hes _ (hc3.trans hv.symm)) h3
    | @unpack ws value head tail hhead hp =>
      rw [List.cons_append] at hc
      obtain ⟨t, c1, h1, haccept, -, hc1⟩ := Cursor.accept?_of_words hc
      rw [braceDisplay, Cursor.accept?_eq_none hc (by decide)]
      simp only [haccept]
      refine Read.finds_bind (Read.finds_since (hp.whole hhead hstops (hc1.trans (by rw [hv]))) h1) ?_
      rintro z c2 h2 ⟨hz, hc2⟩
      have hsame : sameEntry (.unpack z) (.unpack value) := by
        simp only [sameEntry, Expr.bareEntries, hz]
      exact Read.finds_since (dictRest_finds s hsame hes _ (hc2.trans hv.symm)) h2

end Dictionaries

end TypeWatch.Reading
