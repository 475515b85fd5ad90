import TypeWatch.Proofs.Reading.Words
import TypeWatch.Proofs.Syntax.Tight

/-! # Words that are read as an expression

Whether words are read as one expression depends on where they stand: the level at which they are read
must be below the weakest operator that is open on their left side (`head`), and the operator that follows
them must bind no more tightly than the weakest one that is open on their right side (`tail`). -/
namespace TypeWatch.Reading
set_option autoImplicit false

/-- Whether a word may follow an expression that is open on its right side at a level. String literals side
by side would be one. -/
structure Follows (tail : Nat) (next : Word) : Prop where
  level : (infixLevel next.1).rank ≤ tail
  noString : next.1.isString = false

/-- Words that are read as an expression, its places aside, wherever the level and the next word let
them. What is read from them goes on at the next word. -/
structure Phrase (ws : List Word) (e : Expr) (head tail : Nat) : Prop where
  opens : ∃ w rest, ws = w :: rest ∧ opensExpr w.1 = true
  reads : ∀ (level : Power) (c : Cursor) (next : Word) (more : List Word) (P : Expr → Cursor → Prop),
    level.rank < head → Follows tail next → c.words = ws ++ next :: more →
    (∀ e' d n (h : d.size < n), e'.bare = e.bare → d.words = next :: more →
      (extend (exprBelow n) level e' d h).Finds P) →
    (expr level c).Finds P

/-- The rank of an expression that is open on no side. -/
abbrev closed : Nat := Power.trailer.rank

variable {ws wl : List Word} {e l : Expr} {head tail head' tail' : Nat}

theorem extend_stops {n : Nat} {sub : Below n} {level : Power} {c : Cursor} (h : c.size < n) (left : Expr)
    (hlevel : (infixLevel c.kind).rank ≤ level.rank) :
    extend sub level left c h = .ok (.here left c) := by
  have hno : ¬level < infixLevel c.kind := Nat.not_lt.mpr hlevel
  rw [extend, if_neg hno]

/-- A whole expression at a level, where the next word does not belong to it. -/
theorem Phrase.finds (hp : Phrase ws e head tail) {level : Power} {c : Cursor} {next : Word}
    {more : List Word} (hhead : level.rank < head) (htail : Follows tail next)
    (hlevel : (infixLevel next.1).rank ≤ level.rank) (hc : c.words = ws ++ next :: more) :
    (expr level c).Finds fun e' d => e'.bare = e.bare ∧ d.words = next :: more := by
  refine hp.reads level c next more _ hhead htail hc ?_
  intro e' d n h he hd
  rw [extend_stops h e' (by rw [Cursor.kind_of_words hd]; exact hlevel)]
  exact finds_ok ⟨he, hd⟩

/-- An expression that begins with a word of its own is read at all levels. -/
theorem phrase_of_operand {w : Word} (hopen : opensExpr w.1 = true)
    (hreads : ∀ n t c (h : c.size < n) next more, t.word = w → Follows tail next →
      c.words = ws ++ next :: more →
      (operandAfter (exprBelow n) t c h).Finds fun e' d => e'.bare = e.bare ∧ d.words = next :: more) :
    Phrase (w :: ws) e closed tail := by
  refine ⟨⟨w, ws, rfl, hopen⟩, fun level c next more P _ htail hc hgoes => ?_⟩
  obtain ⟨t, c1, h1, hnext, ht, hc1⟩ := Cursor.next?_of_words hc
  have hafter := hreads c.size t c1 (below_upTo h1 c.size_upTo) next more ht htail hc1
  have hoperand : (operand (exprBelow c.size) c c.size_upTo).Finds fun e' d =>
      e'.bare = e.bare ∧ d.words = next :: more := by
    rw [operand, hnext]
    exact MayRead.finds_since hafter h1
  rw [expr]
  refine Read.finds_bind hoperand ?_
  rintro e' d h2 ⟨he, hd⟩
  exact MayRead.finds_since (hgoes e' d c.size h2 he hd) h2

/-- An expression that goes on with a word and what follows it. -/
theorem Phrase.extended (hl : Phrase wl l head tail) {w : Word} (hhead : head' ≤ head)
    (hword : head' ≤ (infixLevel w.1).rank) (htail : Follows tail w)
    (hreads : ∀ n left t c (h : c.size < n) next more, left.bare = l.bare → t.word = w →
      Follows tail' next → c.words = ws ++ next :: more →
      (extendAfter (exprBelow n) left t c h).Finds fun e' d => e'.bare = e.bare ∧ d.words = next :: more) :
    Phrase (wl ++ w :: ws) e head' tail' := by
  obtain ⟨v, rest, hwl, hopen⟩ := hl.opens
  refine ⟨⟨v, rest ++ w :: ws, by rw [hwl]; rfl, hopen⟩, fun level c next more P hlevel hnext hc hgoes => ?_⟩
  rw [List.append_assoc, List.cons_append] at hc
  refine hl.reads level c w (ws ++ next :: more) P (Nat.lt_of_lt_of_le hlevel hhead) htail hc ?_
  intro left d n h hleft hd
  obtain ⟨t, d1, h1, haccept, ht, hd1⟩ := Cursor.next?_of_words hd
  have hlt : level < infixLevel d.kind := by
    rw [Cursor.kind_of_words hd]
    exact Nat.lt_of_lt_of_le hlevel hword
  rw [extend, if_pos hlt, haccept]
  have hafter := hreads n left t d1 (below_of_lt h1 h) next more hleft ht hnext hd1
  refine Read.finds_bind (Read.finds_since hafter h1) ?_
  rintro longer d2 h2 ⟨hlonger, hd2⟩
  refine Read.finds_bind (MayRead.finds_since (hgoes longer d2 n (below_of_lt h2 h) hlonger hd2) h2) ?_
  intro e' d3 h3 hP
  exact finds_ok hP

/-! ## Kinds that end an expression -/

/-- Whether no expression goes on with a word of the kind, wherever it stands. -/
structure Stops (kind : TokenKind) : Prop where
  level : infixLevel kind = .least
  noString : kind.isString = false
  noOpening : opensExpr kind = false

theorem Stops.follows {next : Word} (h : Stops next.1) (tail : Nat) : Follows tail next := by
  refine ⟨?_, h.noString⟩
  rw [h.level]
  exact Nat.zero_le tail

theorem stops_op {o : Operator} (h : o = .comma ∨ o = .colon ∨ o = .assign ∨ o = .closeParen ∨
    o = .closeBracket ∨ o = .closeBrace) : Stops (.op o) := by
  rcases h with rfl | rfl | rfl | rfl | rfl | rfl <;> exact ⟨rfl, rfl, rfl⟩

/-- An expression before a word with which none goes on. -/
theorem Phrase.whole (hp : Phrase ws e head tail) {level : Power} (hhead : level.rank < head) {c : Cursor}
    {next : Word} {more : List Word} (hnext : Stops next.1) (hc : c.words = ws ++ next :: more) :
    (expr level c).Finds fun e' d => e'.bare = e.bare ∧ d.words = next :: more := by
  refine hp.finds hhead (hnext.follows tail) ?_ hc
  rw [hnext.level]
  exact Nat.zero_le _

/-! ## Names and literals -/

theorem phrase_name (s : Span) (id : String) : Phrase [(.name, id)] (.name s id) closed closed := by
  refine phrase_of_operand rfl ?_
  rintro n ⟨_, _, span⟩ c h next more ht - hc
  obtain ⟨rfl, rfl⟩ := Prod.mk.inj ht
  exact finds_ok ⟨rfl, hc⟩

theorem strings_finds {kind : TokenKind} {text : String} {span : Span} {c : Cursor} {next : Word}
    {more : List Word} (hnext : next.1.isString = false) (hc : c.words = next :: more) :
    (strings ⟨kind, text, span⟩ c).value.bare = .constant default (stringConstant kind text) ∧
      (strings ⟨kind, text, span⟩ c).next.words = next :: more := by
  have hstop : moreStrings kind text c = .here (kind, text) c := by
    rw [moreStrings, if_neg]
    rw [Cursor.kind_of_words hc, hnext]
    exact Bool.false_ne_true
  unfold strings
  rw [hstop]
  exact ⟨rfl, hc⟩

theorem phrase_constant (s : Span) (value : Constant) :
    Phrase [value.word] (.constant s value) closed closed := by
  have hopen : opensExpr value.word.1 = true := by cases value <;> rfl
  refine phrase_of_operand hopen ?_
  rintro n ⟨_, _, span⟩ c h next more ht hnext hc
  obtain ⟨rfl, rfl⟩ := Prod.mk.inj ht
  cases value with
  | string text => exact finds_ok (strings_finds hnext.noString hc)
  | bytes text => exact finds_ok (strings_finds hnext.noString hc)
  | formatString text => exact finds_ok (strings_finds hnext.noString hc)
  | _ => exact finds_ok ⟨rfl, hc⟩

/-! ## Operators before an operand -/

theorem Follows.mono {next : Word} (h : Follows tail next) (hle : tail ≤ tail') : Follows tail' next :=
  ⟨Nat.le_trans h.level hle, h.noString⟩

/-- A word and the operand after it, which is read at a level of its own. -/
theorem phrase_prefix {w : Word} {level : Power} {f : Token → Expr → Expr}
    (hopen : opensExpr w.1 = true) (hp : Phrase ws l head tail) (hhead : level.rank < head)
    (heq : ∀ n (sub : Below n) t c h, t.word = w → operandAfter sub t c h =
      (sub level c h >>= fun a => .ok (.past (f t a.value) a.next a.lt)))
    (hbare : ∀ t x, x.bare = l.bare → (f t x).bare = e.bare) :
    Phrase (w :: ws) e closed (min level.rank tail) := by
  refine phrase_of_operand hopen fun n t c h next more ht hnext hc => ?_
  have hlevel := Nat.le_trans hnext.level (Nat.min_le_left _ _)
  rw [heq n _ t c h ht]
  refine Read.finds_bind (hp.finds hhead (hnext.mono (Nat.min_le_right _ _)) hlevel hc) ?_
  rintro x d _ ⟨hx, hd⟩
  exact finds_ok ⟨hbare t x hx, hd⟩

theorem phrase_starred (s : Span) (hp : Phrase ws l head tail) (hhead : Power.comparison.rank < head) :
    Phrase (opWord .star :: ws) (.starred s l) closed (min Power.comparison.rank tail) := by
  refine phrase_prefix (f := fun t x => .starred ⟨t.span.start, x.span.stop⟩ x) rfl hp hhead ?_ ?_
  · rintro n sub ⟨_, _, span⟩ c h ht
    obtain ⟨rfl, rfl⟩ := Prod.mk.inj ht
    rfl
  · intro t x hx
    exact congrArg (Expr.starred default) hx

theorem phrase_await (s : Span) (hp : Phrase ws l head tail) (hhead : Power.await.rank < head) :
    Phrase (keyWord .kwAwait :: ws) (.await s l) closed (min Power.await.rank tail) := by
  refine phrase_prefix (f := fun t x => .await ⟨t.span.start, x.span.stop⟩ x) rfl hp hhead ?_ ?_
  · rintro n sub ⟨_, _, span⟩ c h ht
    obtain ⟨rfl, rfl⟩ := Prod.mk.inj ht
    rfl
  · intro t x hx
    exact congrArg (Expr.await default) hx

theorem phrase_unary (s : Span) (op : UnaryOp) (hp : Phrase ws l head tail)
    (hhead : op.binds.rank < head) :
    Phrase (op.word :: ws) (.unary s op l) closed (min op.binds.rank tail) := by
  have hopen : opensExpr op.word.1 = true := by cases op <;> rfl
  refine phrase_prefix (f := fun t x => .unary ⟨t.span.start, x.span.stop⟩ op x) hopen hp hhead ?_ ?_
  · rintro n sub ⟨_, _, span⟩ c h ht
    obtain ⟨rfl, rfl⟩ := Prod.mk.inj ht
    cases op <;> rfl
  · intro t x hx
    exact congrArg (Expr.unary default op) hx

/-! ## Operators after an operand -/

theorem phrase_member (s : Span) (attr : String) (hp : Phrase wl l head closed) :
    Phrase (wl ++ [opWord .dot, (.name, attr)]) (.member s l attr) (min closed head) closed := by
  refine hp.extended (Nat.min_le_right _ _) (Nat.min_le_left _ _) ⟨Nat.le_refl _, rfl⟩ ?_
  rintro n left ⟨_, _, span⟩ c h next more hleft ht - hc
  obtain ⟨rfl, rfl⟩ := Prod.mk.inj ht
  refine Read.finds_bind (Cursor.expectName_finds hc) ?_
  rintro _ d h1 ⟨rfl, hd⟩
  refine finds_ok ⟨?_, hd⟩
  simp only [Expr.bare, hleft]

variable {wr : List Word} {r : Expr} {headr tailr : Nat}

theorem binary_finds {n : Nat} {left : Expr} (s : Span) (op : BinaryOp) (hleft : left.bare = l.bare)
    (hr : Phrase wr r headr tailr) (hhead : (rightLevel op).rank < headr) {c : Cursor} (h : c.size < n)
    {next : Word} {more : List Word} (hnext : Follows (min (rightLevel op).rank tailr) next)
    (hc : c.words = wr ++ next :: more) :
    (binary (exprBelow n) left op c h).Finds fun e' d =>
      e'.bare = (Expr.binary s l op r).bare ∧ d.words = next :: more := by
  have hlevel := Nat.le_trans hnext.level (Nat.min_le_left _ _)
  refine Read.finds_bind (hr.finds hhead (hnext.mono (Nat.min_le_right _ _)) hlevel hc) ?_
  rintro right d _ ⟨hright, hd⟩
  refine finds_ok ⟨?_, hd⟩
  simp only [Expr.bare, hleft, hright]

/-- The word that an operator begins with, and the other one that it has, if it has two. -/
theorem words_ne_nil (op : BinaryOp) : ∃ w ws, op.words = w :: ws ∧
    (infixLevel w.1).rank = op.binds.rank ∧ w.1.isString = false := by
  cases op <;> exact ⟨_, _, rfl, rfl, rfl⟩

theorem phrase_binary (s : Span) (op : BinaryOp) (hl : Phrase wl l head tail) (htail : op.binds.rank ≤ tail)
    (hr : Phrase wr r headr tailr) (hhead : (rightLevel op).rank < headr)
    (hnot : op = .same → ∀ w ∈ wr.head?, w.1 ≠ .word .kwNot) :
    Phrase (wl ++ (op.words ++ wr)) (.binary s l op r) (min op.binds.rank head)
      (min (rightLevel op).rank tailr) := by
  obtain ⟨w, ws, hwords, hlevel, hstring⟩ := words_ne_nil op
  rw [hwords, List.cons_append]
  refine hl.extended (Nat.min_le_right _ _) ?_ ⟨?_, hstring⟩ ?_
  · rw [hlevel]
    exact Nat.min_le_left _ _
  · rwa [hlevel]
  rintro n left ⟨_, _, span⟩ c h next more hleft ht hnext hc
  obtain ⟨rfl, rfl⟩ := Prod.mk.inj ht
  cases op
  all_goals obtain ⟨rfl, rfl⟩ := List.cons.inj hwords
  case notIn =>
    refine Read.finds_bind (Cursor.demand_finds _ hc) ?_
    rintro t d h1 ⟨-, hd⟩
    exact Read.finds_since (binary_finds s _ hleft hr hhead (below_of_lt h1 h) hnext hd) h1
  case same =>
    obtain ⟨v, vs, hwr, -⟩ := hr.opens
    have hnone : c.accept? (.word .kwNot) = none :=
      Cursor.accept?_eq_none (hc.trans (by rw [hwr]; rfl)) (hnot rfl v (by rw [hwr]; rfl))
    change (identity (exprBelow n) left c h).Finds _
    rw [identity, hnone]
    exact binary_finds s .same hleft hr hhead h hnext hc
  case notSame =>
    obtain ⟨t, d, h1, haccept, -, hd⟩ := Cursor.accept?_of_words hc
    change (identity (exprBelow n) left c h).Finds _
    rw [identity, haccept]
    exact Read.finds_since (binary_finds s .notSame hleft hr hhead (below_of_lt h1 h) hnext hd) h1
  all_goals exact binary_finds s _ hleft hr hhead h hnext hc

theorem phrase_conditional (s : Span) {wt : List Word} {t : Expr} {headt tailt : Nat}
    (hl : Phrase wl l head tail) (htail : Power.conditional.rank ≤ tail) (ht : Phrase wt t headt tailt)
    (hheadt : Power.conditional.rank < headt) (hr : Phrase wr r headr tailr)
    (hheadr : Power.named.rank < headr) :
    Phrase (wl ++ keyWord .kwIf :: (wt ++ keyWord .kwElse :: wr)) (.conditional s t l r)
      (min Power.conditional.rank head) (min Power.named.rank tailr) := by
  refine hl.extended (Nat.min_le_right _ _) (Nat.min_le_left _ _) ⟨htail, rfl⟩ ?_
  rintro n left ⟨_, _, span⟩ c h next more hleft hif hnext hc
  obtain ⟨rfl, rfl⟩ := Prod.mk.inj hif
  rw [List.append_assoc, List.cons_append] at hc
  have helse : Follows tailt (keyWord .kwElse) := ⟨Nat.zero_le _, rfl⟩
  refine Read.finds_bind (ht.finds hheadt helse (Nat.zero_le _) hc) ?_
  rintro test c1 h1 ⟨htest, hc1⟩
  refine Read.finds_bind (Read.finds_since (Cursor.expect_finds hc1) h1) ?_
  rintro t' c2 h2 ⟨-, hc2⟩
  have hlevel := Nat.le_trans hnext.level (Nat.min_le_left _ _)
  have hread := hr.finds hheadr (hnext.mono (Nat.min_le_right _ _)) hlevel hc2
  refine Read.finds_bind (Read.finds_since hread h2) ?_
  rintro orelse d h3 ⟨horelse, hd⟩
  refine finds_ok ⟨?_, hd⟩
  simp only [Expr.bare, htest, hleft, horelse]

end TypeWatch.Reading
