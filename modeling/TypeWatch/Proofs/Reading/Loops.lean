import TypeWatch.Proofs.Reading.Bracketed

/-! # Words of loops

The loops of comprehensions and their conditions are read from their words up to the closing bracket. -/
namespace TypeWatch.Reading
set_option autoImplicit false

/-! ## Conditions -/

theorem stops_word {k : Keyword} (h : k = .kwFor ∨ k = .kwAsync) : Stops (.word k) := by
  rcases h with rfl | rfl <;> exact ⟨rfl, rfl, rfl⟩

/-- Words that are read as conditions, wherever no further condition follows. -/
def ConditionsOn (ws : List Word) (es : List Expr) : Prop :=
  ∀ n (c : Cursor) (h : c.size < n) (next : Word) (more : List Word), Stops next.1 →
    c.words = ws ++ next :: more →
    (conditions (exprBelow n) c h).Finds fun xs d =>
      Expr.bareList xs = Expr.bareList es ∧ d.words = next :: more

theorem conditionsOn_nil : ConditionsOn [] [] := by
  intro n c h next more hnext hc
  have hif : next.1 ≠ .word .kwIf := by
    intro heq
    have hlevel := hnext.level
    rw [heq] at hlevel
    exact absurd hlevel (by decide)
  rw [conditions, Cursor.accept?_eq_none hc hif]
  exact finds_ok ⟨rfl, hc⟩

/-- What follows an expression before which a loop or a condition stands: another condition, or a word
that ends all expressions. -/
theorem follows_conditions {ws : List Word} {tail : Nat} {next : Word} (more : List Word)
    (hws : ws = [] ∨ (∃ rest, ws = keyWord .kwIf :: rest) ∧ Power.conditional.rank ≤ tail)
    (hnext : Stops next.1) :
    ∃ v rest, ws ++ next :: more = v :: rest ∧ Follows tail v ∧
      (infixLevel v.1).rank ≤ Power.conditional.rank := by
  rcases hws with rfl | ⟨⟨rest, rfl⟩, htail⟩
  · refine ⟨next, more, rfl, hnext.follows tail, ?_⟩
    rw [hnext.level]
    exact Nat.zero_le _
  · exact ⟨keyWord .kwIf, _, rfl, ⟨htail, rfl⟩, Nat.le_refl _⟩

theorem conditionsOn_cons {we ws : List Word} {e : Expr} {es : List Expr} {head tail : Nat}
    (hp : Phrase we e head tail) (hhead : Power.conditional.rank < head)
    (hws : ws = [] ∨ (∃ rest, ws = keyWord .kwIf :: rest) ∧ Power.conditional.rank ≤ tail)
    (hes : ConditionsOn ws es) : ConditionsOn (keyWord .kwIf :: (we ++ ws)) (e :: es) := by
  intro n c h next more hnext hc
  rw [List.cons_append, List.append_assoc] at hc
  obtain ⟨t, c1, h1, haccept, -, hc1⟩ := Cursor.accept?_of_words hc
  obtain ⟨v, rest, hv, hfollows, hlevel⟩ := follows_conditions more hws hnext
  rw [conditions, haccept]
  have hread := hp.finds hhead hfollows hlevel (hc1.trans (by rw [hv]))
  refine Read.finds_bind (Read.finds_since hread h1) ?_
  rintro x c2 h2 ⟨hx, hc2⟩
  have hrest := hes n c2 (below_of_lt h2 h) next more hnext (hc2.trans hv.symm)
  refine Read.finds_bind (MayRead.finds_since hrest h2) ?_
  rintro xs d h3 ⟨hxs, hd⟩
  refine finds_ok ⟨?_, hd⟩
  simp only [Moved.past, Expr.bareList, hx, hxs]

/-! ## Loops -/

/-- Words that are read as loops, wherever a closing bracket follows. -/
def ClausesOn (ws : List Word) (cs : List Clause) : Prop :=
  ∀ n (c : Cursor) (h : c.size < n) (o : Operator) (more : List Word), Stops (.op o) →
    c.words = ws ++ opWord o :: more →
    (clauses (exprBelow n) c h).Finds fun xs d =>
      Expr.bareClauses xs = Expr.bareClauses cs ∧ d.words = opWord o :: more

theorem clausesOn_nil : ClausesOn [] [] := by
  intro n c h o more ho hc
  rw [clauses, if_neg (by simp [opensClause_eq_false hc nofun nofun])]
  exact finds_ok ⟨rfl, hc⟩

/-- The words before a loop. -/
def loopMark (isAsync : Bool) : List Word := (if isAsync then [keyWord .kwAsync] else []) ++ [keyWord .kwFor]

/-- Loops follow, or nothing more in the brackets. -/
def LoopsOrNone (ws : List Word) : Prop := ws = [] ∨ ∃ isAsync rest, ws = loopMark isAsync ++ rest

theorem opensClause_of_mark {isAsync : Bool} {c : Cursor} {ws : List Word}
    (hc : c.words = loopMark isAsync ++ ws) : opensClause c = true := by
  cases isAsync with
  | false => simp [opensClause, Cursor.kind_of_words hc, keyWord]
  | true => simp [opensClause, Cursor.kind_of_words hc, Cursor.kindAt_of_words hc, keyWord]

theorem asyncMark_finds {isAsync : Bool} {c : Cursor} {ws : List Word}
    (hc : c.words = loopMark isAsync ++ ws) :
    (asyncMark c).value = isAsync ∧ (asyncMark c).next.words = keyWord .kwFor :: ws := by
  cases isAsync with
  | false =>
    rw [asyncMark, Cursor.accept?_eq_none hc (by decide)]
    exact ⟨rfl, hc⟩
  | true =>
    obtain ⟨t, d, h1, haccept, -, hd⟩ := Cursor.accept?_of_words hc
    rw [asyncMark, haccept]
    exact ⟨rfl, hd⟩

/-- What follows the conditions of a loop ends all expressions. -/
theorem stops_loops {ws : List Word} (hws : LoopsOrNone ws) {o : Operator} (ho : Stops (.op o))
    (more : List Word) : ∃ v rest, ws ++ opWord o :: more = v :: rest ∧ Stops v.1 := by
  rcases hws with rfl | ⟨isAsync, rest, rfl⟩
  · exact ⟨opWord o, more, rfl, ho⟩
  · cases isAsync with
    | false => exact ⟨keyWord .kwFor, _, rfl, stops_word (Or.inl rfl)⟩
    | true => exact ⟨keyWord .kwAsync, _, rfl, stops_word (Or.inr rfl)⟩

section Loops

variable {wt wi wc ws : List Word} {target iter : Expr} {tests : List Expr} {cs : List Clause}
  {headt tailt headi taili : Nat}

theorem clause_finds {isAsync : Bool} (ht : Phrase wt target headt tailt)
    (hheadt : Power.comparison.rank < headt) (htailt : Power.comparison.rank ≤ tailt)
    (hi : Phrase wi iter headi taili) (hheadi : Power.conditional.rank < headi)
    (hwc : wc = [] ∨ (∃ rest, wc = keyWord .kwIf :: rest) ∧ Power.conditional.rank ≤ taili)
    (hc : ConditionsOn wc tests) {n : Nat} {c : Cursor} (h : c.size < n) {next : Word} {more : List Word}
    (hnext : Stops next.1)
    (hwords : c.words =
      loopMark isAsync ++ (wt ++ keyWord .kwIn :: (wi ++ (wc ++ next :: more)))) :
    (clause (exprBelow n) c h).Finds fun x d =>
      Expr.bareClauses [x] = Expr.bareClauses [.mk target iter tests isAsync] ∧
        d.words = next :: more := by
  obtain ⟨hasync, hc1⟩ := asyncMark_finds hwords
  unfold clause
  generalize asyncMark c = mark at hasync hc1 ⊢
  obtain ⟨isAsync', c1, h1⟩ := mark
  obtain rfl := hasync
  refine Read.finds_bind (Read.finds_from (Cursor.expect_finds hc1) h1) ?_
  rintro _ c2 h2 ⟨-, hc2⟩
  have htarget : (exprList (exprBelow n) .comparison c2 (below_of_lt h2 h)).Finds fun e d =>
      e.bare = target.bare ∧ d.words = keyWord .kwIn :: (wi ++ (wc ++ next :: more)) := by
    have hin : Follows tailt (keyWord .kwIn) := ⟨htailt, rfl⟩
    refine Read.finds_bind (ht.finds hheadt hin (Nat.le_refl _) hc2) ?_
    rintro e d _ ⟨he, hd⟩
    simp only [Cursor.kind_of_words hd]
    exact finds_ok ⟨he, hd⟩
  refine Read.finds_bind (Read.finds_since htarget h2) ?_
  rintro x c3 h3 ⟨hx, hc3⟩
  refine Read.finds_bind (Read.finds_since (Cursor.expect_finds hc3) h3) ?_
  rintro _ c4 h4 ⟨-, hc4⟩
  obtain ⟨v, rest, hv, hfollows, hlevel⟩ := follows_conditions more hwc hnext
  have hiter := hi.finds hheadi hfollows hlevel (hc4.trans (by rw [hv]))
  refine Read.finds_bind (Read.finds_since hiter h4) ?_
  rintro y c5 h5 ⟨hy, hc5⟩
  have htests := hc n c5 (below_of_lt h5 h) next more hnext (hc5.trans hv.symm)
  refine Read.finds_bind (MayRead.finds_since htests h5) ?_
  rintro zs d h6 ⟨hzs, hd⟩
  refine finds_ok ⟨?_, hd⟩
  simp only [Expr.bareClauses, hx, hy, hzs]

theorem clausesOn_cons (isAsync : Bool) (ht : Phrase wt target headt tailt)
    (hheadt : Power.comparison.rank < headt) (htailt : Power.comparison.rank ≤ tailt)
    (hi : Phrase wi iter headi taili) (hheadi : Power.conditional.rank < headi)
    (hwc : wc = [] ∨ (∃ rest, wc = keyWord .kwIf :: rest) ∧ Power.conditional.rank ≤ taili)
    (hc : ConditionsOn wc tests) (hws : LoopsOrNone ws) (hcs : ClausesOn ws cs) :
    ClausesOn (loopMark isAsync ++ (wt ++ keyWord .kwIn :: (wi ++ (wc ++ ws))))
      (.mk target iter tests isAsync :: cs) := by
  intro n c h o more ho hwords
  obtain ⟨v, rest, hv, hstops⟩ := stops_loops hws ho more
  have hsame : (loopMark isAsync ++ (wt ++ keyWord .kwIn :: (wi ++ (wc ++ ws)))) ++ opWord o :: more =
      loopMark isAsync ++ (wt ++ keyWord .kwIn :: (wi ++ (wc ++ v :: rest))) := by
    rw [← hv]
    simp only [List.append_assoc, List.cons_append]
  rw [hsame] at hwords
  rw [clauses, if_pos (opensClause_of_mark hwords)]
  refine Read.finds_bind (clause_finds ht hheadt htailt hi hheadi hwc hc h hstops hwords) ?_
  rintro x c1 h1 ⟨hx, hc1⟩
  have hrest := hcs n c1 (below_of_lt h1 h) o more ho (hc1.trans hv.symm)
  refine Read.finds_bind (MayRead.finds_since hrest h1) ?_
  rintro xs d h2 ⟨hxs, hd⟩
  refine finds_ok ⟨?_, hd⟩
  obtain ⟨xt, xi, xc, xa⟩ := x
  simp only [Expr.bareClauses, List.cons.injEq, and_true] at hx
  simp only [Moved.past, Expr.bareClauses, hx, hxs]

end Loops

/-! ## Comprehensions -/

section Comprehensions

variable {we wv wc : List Word} {element value : Expr} {cs : List Clause} {isAsync : Bool}

theorem filling_loops {n : Nat} {c : Cursor} (h : c.size < n) {o : Operator} (ho : Stops (.op o))
    (hcs : ClausesOn (loopMark isAsync ++ wc) cs) {more : List Word}
    (hc : c.words = (loopMark isAsync ++ wc) ++ opWord o :: more) :
    (filling (exprBelow n) (.op o) c h).Finds fun f d =>
      (∃ xs, f = .loops xs ∧ Expr.bareClauses xs = Expr.bareClauses cs) ∧ d.words = more := by
  have hopens : opensClause c = true := opensClause_of_mark (hc.trans (List.append_assoc _ _ _))
  rw [filling, if_pos hopens]
  refine MayRead.finds_bind (hcs n c h o more ho hc) ?_
  rintro xs c1 h1 ⟨hxs, hc1⟩
  refine Read.finds_bind (Read.finds_from (Cursor.expect_finds hc1) h1) ?_
  rintro _ d _ ⟨-, hd⟩
  exact finds_ok ⟨⟨xs, rfl, hxs⟩, hd⟩

/-- What follows an element before the first loop. -/
theorem loopMark_append (isAsync : Bool) (ws : List Word) :
    ∃ v rest, loopMark isAsync ++ ws = v :: rest ∧ Stops v.1 ∧ v.1 ≠ .op .colon := by
  cases isAsync with
  | false => exact ⟨keyWord .kwFor, ws, rfl, stops_word (Or.inl rfl), nofun⟩
  | true => exact ⟨keyWord .kwAsync, _, rfl, stops_word (Or.inr rfl), nofun⟩

theorem phrase_comprehension (s : Span) {kind : ComprehensionKind} (hkind : kind ≠ .dict)
    (he : Stands we element) (hcs : ClausesOn (loopMark isAsync ++ wc) cs) :
    Phrase (opWord (Expr.opening kind) :: (we ++ ((loopMark isAsync ++ wc) ++ [opWord (Expr.closing kind)])))
      (.comprehension s kind element none cs) closed closed := by
  have hopen : opensExpr (opWord (Expr.opening kind)).1 = true := by cases kind <;> rfl
  refine phrase_of_operand hopen ?_
  rintro n ⟨_, _, span⟩ c h next more ht - hc
  obtain ⟨rfl, rfl⟩ := Prod.mk.inj ht
  simp only [List.append_assoc, List.singleton_append] at hc
  obtain ⟨v, rest, hv, hstops, hcolon⟩ :=
    loopMark_append isAsync (wc ++ opWord (Expr.closing kind) :: next :: more)
  rw [hv] at hc
  have hwords := hv.symm.trans (List.append_assoc _ _ _).symm
  cases kind with
  | dict => exact absurd rfl hkind
  | list =>
    refine Read.finds_moved ?_
    rw [listDisplay, he.accept?_eq_none rfl hc]
    refine Read.finds_bind (he.least hstops hc) ?_
    rintro x c1 h1 ⟨hx, hc1⟩
    have hloops := filling_loops (below_of_lt h1 h) stops_closeBracket hcs (hc1.trans hwords)
    refine Read.finds_bind (Read.finds_since hloops h1) ?_
    rintro _ d h2 ⟨⟨xs, rfl, hxs⟩, hd⟩
    refine finds_ok ⟨?_, hd⟩
    simp only [Expr.bare, Expr.bareOption, hx, hxs]
  | generator =>
    refine Read.finds_moved ?_
    rw [parenthesized, he.accept?_eq_none rfl hc]
    refine Read.finds_bind (he.least hstops hc) ?_
    rintro x c1 h1 ⟨hx, hc1⟩
    have hloops := filling_loops (below_of_lt h1 h) stops_closeParen hcs (hc1.trans hwords)
    refine Read.finds_bind (Read.finds_since hloops h1) ?_
    rintro _ d h2 ⟨⟨xs, rfl, hxs⟩, hd⟩
    refine finds_ok ⟨?_, hd⟩
    simp only [Expr.bare, Expr.bareOption, hx, hxs]
  | set =>
    refine Read.finds_moved ?_
    rw [braceDisplay, he.accept?_eq_none rfl hc]
    simp only [he.accept?_eq_none (k := .op .doubleStar) rfl hc]
    refine Read.finds_bind (he.least hstops hc) ?_
    rintro x c1 h1 ⟨hx, hc1⟩
    simp only [since_eq_none (Cursor.accept?_eq_none hc1 hcolon) h1]
    have hloops := filling_loops (below_of_lt h1 h) stops_closeBrace hcs (hc1.trans hwords)
    refine Read.finds_bind (Read.finds_since hloops h1) ?_
    rintro _ d h2 ⟨⟨xs, rfl, hxs⟩, hd⟩
    refine finds_ok ⟨?_, hd⟩
    simp only [Expr.bare, Expr.bareOption, hx, hxs]

theorem phrase_dictComprehension (s : Span) (he : Stands we element) (hv : Stands wv value)
    (hcs : ClausesOn (loopMark isAsync ++ wc) cs) :
    Phrase (opWord .openBrace :: (we ++ opWord .colon ::
        (wv ++ ((loopMark isAsync ++ wc) ++ [opWord .closeBrace]))))
      (.comprehension s .dict element (some value) cs) closed closed := by
  refine phrase_of_operand rfl ?_
  rintro n ⟨_, _, span⟩ c h next more ht - hc
  obtain ⟨rfl, rfl⟩ := Prod.mk.inj ht
  simp only [List.append_assoc, List.cons_append, List.nil_append] at hc
  obtain ⟨v, rest, hmark, hstops, -⟩ := loopMark_append isAsync (wc ++ opWord .closeBrace :: next :: more)
  rw [hmark] at hc
  have hwords := hmark.symm.trans (List.append_assoc _ _ _).symm
  refine Read.finds_moved ?_
  rw [braceDisplay, he.accept?_eq_none rfl hc]
  simp only [he.accept?_eq_none (k := .op .doubleStar) rfl hc]
  refine Read.finds_bind (he.least (stops_op (by decide)) hc) ?_
  rintro x c1 h1 ⟨hx, hc1⟩
  obtain ⟨t, c2, h2, haccept, -, hc2⟩ := Cursor.accept?_of_words hc1
  have hsince : (c1.accept? (.op .colon)).since h1 = some ⟨t, c2, Nat.lt_trans h2 h1⟩ := by
    rw [haccept]
    rfl
  simp only [hsince]
  refine Read.finds_since (P := fun (e : Expr) d =>
    e.bare = (Expr.comprehension s .dict element (some value) cs).bare ∧ d.words = next :: more) ?_ _
  refine Read.finds_bind (hv.least hstops hc2) ?_
  rintro y c3 h3 ⟨hy, hc3⟩
  have hloops := hc3.trans hwords
  have hopens : opensClause c3 = true := opensClause_of_mark (hloops.trans (List.append_assoc _ _ _))
  simp only [hopens, if_true]
  have hread := hcs n c3 (below_of_lt h3 (below_of_lt (Nat.lt_trans h2 h1) h)) .closeBrace _ stops_closeBrace
    hloops
  refine Read.finds_bind (MayRead.finds_since hread h3) ?_
  rintro xs c4 h4 ⟨hxs, hc4⟩
  refine Read.finds_bind (Read.finds_since (Cursor.expect_finds hc4) h4) ?_
  rintro _ d h5 ⟨-, hd⟩
  refine finds_ok ⟨?_, hd⟩
  simp only [Expr.bare, Expr.bareOption, hx, hy, hxs]

end Comprehensions

end TypeWatch.Reading
