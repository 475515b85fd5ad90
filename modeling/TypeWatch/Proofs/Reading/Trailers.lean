import TypeWatch.Proofs.Reading.Bracketed

/-! # Words of subscripts and calls

Indices and arguments are read from their words up to the closing bracket. -/
namespace TypeWatch.Reading
set_option autoImplicit false

/-! ## Slices -/

/-- Words of a part of a slice, which may be left out. -/
inductive PartStands : List Word → Option Expr → Prop
  | absent : PartStands [] none
  | present {ws : List Word} {e : Expr} : Stands ws e → PartStands ws (some e)

/-- Words of an index. -/
inductive IndexStands : List Word → Expr → Prop
  | expr {ws : List Word} {e : Expr} : Stands ws e → IndexStands ws e
  | slice {wl wu wt : List Word} {lower upper step : Option Expr} (s : Span) : PartStands wl lower →
      PartStands wu upper → AfterMark .colon wt step →
      IndexStands (wl ++ opWord .colon :: (wu ++ wt)) (.slice s lower upper step)

section Indices

variable {n : Nat} {ws : List Word} {e : Expr} {next : Word} {more : List Word}

theorem stops_of_endsSlicePart {kind : TokenKind} (h : endsSlicePart kind = true) : Stops kind := by
  unfold endsSlicePart at h
  split at h
  · exact stops_op (by decide)
  · exact stops_op (by decide)
  · exact stops_op (by decide)
  · exact absurd h nofun

theorem endsSlicePart_of_opensExpr {kind : TokenKind} (h : opensExpr kind = true) :
    endsSlicePart kind = false := by
  cases hends : endsSlicePart kind with
  | false => rfl
  | true => exact absurd (h.symm.trans (stops_of_endsSlicePart hends).noOpening) nofun

theorem PartStands.reads {o : Option Expr} (ho : PartStands ws o) (hnext : endsSlicePart next.1 = true)
    {c : Cursor} (h : c.size < n) (hc : c.words = ws ++ next :: more) :
    (exprUnless (exprBelow n) endsSlicePart c h).Finds fun x d =>
      Expr.bareOption x = Expr.bareOption o ∧ d.words = next :: more := by
  cases ho with
  | absent =>
    rw [exprUnless, if_pos (by rw [Cursor.kind_of_words hc]; exact hnext)]
    exact finds_ok ⟨rfl, hc⟩
  | present he =>
    obtain ⟨w, rest, hws, hopen⟩ := he.opens
    have hkind : c.kind = w.1 := Cursor.kind_of_words (hc.trans (by rw [hws, List.cons_append]))
    rw [exprUnless, if_neg (by rw [hkind, endsSlicePart_of_opensExpr hopen]; exact Bool.false_ne_true)]
    refine Read.finds_bind (he.least (stops_of_endsSlicePart hnext) hc) ?_
    rintro x d _ ⟨hx, hd⟩
    exact finds_ok ⟨congrArg some hx, hd⟩

theorem sliceRest_finds {wu wt : List Word} {lower lower' upper step : Option Expr} (s : Span)
    {start : Position} (hlower : Expr.bareOption lower' = Expr.bareOption lower) (hu : PartStands wu upper)
    (ht : AfterMark .colon wt step) (hnext : next.1 = .op .comma ∨ next.1 = .op .closeBracket) {c : Cursor}
    (h : c.size < n) (hc : c.words = opWord .colon :: ((wu ++ wt) ++ next :: more)) :
    (sliceRest (exprBelow n) start lower' c h).Finds fun e d =>
      e.bare = (Expr.slice s lower upper step).bare ∧ d.words = next :: more := by
  have hends : endsSlicePart next.1 = true := by rcases hnext with hkind | hkind <;> rw [hkind] <;> rfl
  rw [List.append_assoc] at hc
  refine Read.finds_bind (Cursor.expect_finds hc) ?_
  rintro _ c1 h1 ⟨-, hc1⟩
  cases ht with
  | absent =>
    refine Read.finds_bind (MayRead.finds_since (hu.reads hends (below_of_lt h1 h) hc1) h1) ?_
    rintro x c2 h2 ⟨hx, hc2⟩
    have hcolon : next.1 ≠ .op .colon := by rcases hnext with hkind | hkind <;> rw [hkind] <;> decide
    simp only [since_eq_none (Cursor.accept?_eq_none hc2 hcolon) h2]
    refine finds_ok ⟨?_, hc2⟩
    simp only [Expr.bare, Expr.bareOption, hlower, hx]
  | @present ws e he =>
    have hcolon : endsSlicePart (opWord .colon).1 = true := rfl
    refine Read.finds_bind (MayRead.finds_since (hu.reads hcolon (below_of_lt h1 h) hc1) h1) ?_
    rintro x c2 h2 ⟨hx, hc2⟩
    obtain ⟨t, c3, h3, haccept, -, hc3⟩ := Cursor.accept?_of_words hc2
    have hsince : (c2.accept? (.op .colon)).since h2 = some ⟨t, c3, Nat.lt_trans h3 h2⟩ := by
      rw [haccept]
      rfl
    simp only [hsince]
    have hstep := (PartStands.present he).reads hends (below_of_lt (Nat.lt_trans h3 h2) h) hc3
    refine Read.finds_bind (MayRead.finds_since hstep _) ?_
    rintro y d h4 ⟨hy, hd⟩
    refine finds_ok ⟨?_, hd⟩
    simp only [Expr.bare, hlower, hx, hy]

theorem IndexStands.reads (he : IndexStands ws e)
    (hnext : next.1 = .op .comma ∨ next.1 = .op .closeBracket) {c : Cursor} (h : c.size < n)
    (hc : c.words = ws ++ next :: more) :
    (index (exprBelow n) c h).Finds fun e' d => e'.bare = e.bare ∧ d.words = next :: more := by
  cases he with
  | expr he =>
    have hstops : Stops next.1 := by
      rcases hnext with hkind | hkind <;> rw [hkind] <;> exact stops_op (by decide)
    rw [index, if_neg (he.kind_ne rfl hc)]
    refine Read.finds_bind (he.least hstops hc) ?_
    rintro x d _ ⟨hx, hd⟩
    have hcolon : next.1 ≠ .op .colon := by rcases hnext with hkind | hkind <;> rw [hkind] <;> decide
    simp only [Cursor.kind_of_words hd, if_neg hcolon]
    exact finds_ok ⟨hx, hd⟩
  | @slice wl wu wt lower upper step s hl hu ht =>
    rw [List.append_assoc, List.cons_append] at hc
    cases hl with
    | absent =>
      have hkind : c.kind = .op .colon := Cursor.kind_of_words hc
      rw [index, if_pos hkind]
      exact sliceRest_finds s rfl hu ht hnext h hc
    | @present wl lower he =>
      rw [index, if_neg (he.kind_ne rfl hc)]
      refine Read.finds_bind (he.least (stops_op (by decide)) hc) ?_
      rintro x c1 h1 ⟨hx, hc1⟩
      simp only [Cursor.kind_of_words hc1, opWord, if_true]
      have hlower : Expr.bareOption (some x) = Expr.bareOption (some lower) := congrArg some hx
      exact Read.finds_since (sliceRest_finds s hlower hu ht hnext (below_of_lt h1 h) hc1) h1

theorem IndexStands.opens (he : IndexStands ws e) :
    ∃ w rest, ws = w :: rest ∧ w.1 ≠ .op .closeBracket := by
  have hopens {ws : List Word} {e : Expr} (he : Stands ws e) :
      ∃ w rest, ws = w :: rest ∧ w.1 ≠ .op .closeBracket := by
    obtain ⟨w, rest, hws, hopen⟩ := he.opens
    exact ⟨w, rest, hws, ne_of_opensExpr hopen rfl⟩
  cases he with
  | expr he => exact hopens he
  | slice s hl =>
    cases hl with
    | absent => exact ⟨opWord .colon, _, rfl, by decide⟩
    | present he =>
      obtain ⟨w, rest, hws, hw⟩ := hopens he
      exact ⟨w, rest ++ _, by rw [hws, List.cons_append], hw⟩

theorem IndexStands.item (he : IndexStands ws e) (n : Nat) :
    ItemOn (index (exprBelow n)) (· = .op .closeBracket) sameExpr ws e where
  opens := by
    obtain ⟨w, rest, hws, hw⟩ := he.opens
    exact ⟨w, rest, hws, decide_eq_false hw⟩
  reads c h _ _ hc hnext := by
    refine he.reads ?_ h hc
    rcases hnext with hcomma | hend
    · exact Or.inl hcomma
    · exact Or.inr (of_decide_eq_true hend)

/-- Words of all indices of a subscript, up to the closing bracket. -/
def IndicesOn (ws : List Word) (e : Expr) : Prop :=
  ∀ n (c : Cursor) (h : c.size < n) (more : List Word), c.words = ws ++ opWord .closeBracket :: more →
    (indices (exprBelow n) c h).Finds fun e' d =>
      e'.bare = e.bare ∧ d.words = opWord .closeBracket :: more

theorem indicesOn_one (he : IndexStands ws e) : IndicesOn ws e := by
  intro n c h more hc
  refine Read.finds_bind (he.reads (Or.inr rfl) h hc) ?_
  rintro x d _ ⟨hx, hd⟩
  have hcomma : ¬d.kind = .op .comma := by
    rw [Cursor.kind_of_words hd]
    exact nofun
  simp only [if_neg hcomma]
  exact finds_ok ⟨hx, hd⟩

/-- After the first element of a tuple stand the others, or the comma of a single one. -/
theorem tupleWords_cons (ws : List Word) (wss : List (List Word)) :
    ∃ rest, Expr.tupleWords (ws :: wss) = ws ++ opWord .comma :: rest ∧
      (wss = [] ∧ rest = [] ∨ commaThen wss = opWord .comma :: rest) := by
  cases wss with
  | nil => exact ⟨[], rfl, Or.inl ⟨rfl, rfl⟩⟩
  | cons ws' wss => exact ⟨ws' ++ commaThen wss, rfl, Or.inr rfl⟩

theorem moreIndices_finds {wss : List (List Word)} {es : List Expr} (hes : List.Forall₂ IndexStands wss es)
    {rest : List Word} (hrest : wss = [] ∧ rest = [] ∨ commaThen wss = opWord .comma :: rest) {c : Cursor}
    (h : c.size < n) (hc : c.words = opWord .comma :: rest ++ opWord .closeBracket :: more) :
    (followers (index (exprBelow n)) (· = .op .closeBracket) c h).Finds fun xs d =>
      List.Forall₂ sameExpr xs es ∧ d.words = opWord .closeBracket :: more := by
  rcases hrest with ⟨rfl, rfl⟩ | hrest
  · cases hes
    refine (listEnds_comma _ (decide_eq_true rfl) _ c h hc).imp ?_
    rintro ⟨xs, d, _⟩ ⟨rfl, hd⟩
    exact ⟨.nil, hd⟩
  · rw [← hrest] at hc
    have hitems := hes.imp fun _ _ hstands => hstands.item n
    exact followers_finds hitems c h hc (by decide) (decide_eq_true rfl)

theorem indicesOn_tuple (s : Span) {wss : List (List Word)} {es : List Expr}
    (hes : List.Forall₂ IndexStands wss es) : IndicesOn (Expr.indexWords wss) (.tuple s es) := by
  intro n c h more hc
  cases hes with
  | nil =>
    have hempty : Stands [opWord .openParen, opWord .closeParen] (.tuple s []) :=
      ⟨closed, closed, by decide, phrase_tuple s .nil⟩
    exact indicesOn_one (.expr hempty) n c h more hc
  | @cons ws e wss es he hes =>
    obtain ⟨rest, hwords, hrest⟩ := tupleWords_cons ws wss
    have hindex : Expr.indexWords (ws :: wss) = Expr.tupleWords (ws :: wss) := rfl
    rw [hindex, hwords, List.append_assoc] at hc
    refine Read.finds_bind (he.reads (Or.inl rfl) h hc) ?_
    rintro x c1 h1 ⟨hx, hc1⟩
    have hkind : c1.kind = .op .comma := Cursor.kind_of_words hc1
    simp only [hkind, if_true]
    have hothers := moreIndices_finds hes hrest (below_of_lt h1 h) hc1
    refine Read.finds_bind (MayRead.finds_since hothers h1) ?_
    rintro xs d _ ⟨hxs, hd⟩
    refine finds_ok ⟨?_, hd⟩
    simp only [Expr.bare, Expr.bareList, hx, bareList_eq hxs]

theorem phrase_subscript (s : Span) {wl : List Word} {l : Expr} {head : Nat} (hl : Phrase wl l head closed)
    (hkey : IndicesOn ws e) :
    Phrase (wl ++ opWord .openBracket :: (ws ++ [opWord .closeBracket])) (.subscript s l e)
      (min closed head) closed := by
  refine hl.extended (Nat.min_le_right _ _) (Nat.min_le_left _ _) ⟨Nat.le_refl _, rfl⟩ ?_
  rintro n left ⟨_, _, span⟩ c h next more hleft ht - hc
  obtain ⟨rfl, rfl⟩ := Prod.mk.inj ht
  rw [List.append_assoc, List.singleton_append] at hc
  refine Read.finds_bind (hkey n c h _ hc) ?_
  rintro key c1 h1 ⟨hk, hc1⟩
  refine Read.finds_bind (Read.finds_since (Cursor.expect_finds hc1) h1) ?_
  rintro _ d h2 ⟨-, hd⟩
  refine finds_ok ⟨?_, hd⟩
  simp only [Expr.bare, hleft, hk]

end Indices

/-! ## Arguments -/

/-- What stands before the value of an argument. -/
inductive Mark where
  | plain
  | list
  | mapping
  | named (label : String)

namespace Mark

def words : Mark → List Word
  | plain => []
  | list => [opWord .star]
  | mapping => [opWord .doubleStar]
  | named label => [(.name, label), opWord .assign]

/-- The level at which the value is read. -/
def level : Mark → Power
  | plain => .least
  | list => .comparison
  | mapping | named _ => .named

def applied (e : Expr) : Mark → Expr
  | plain => e
  | list => .starred default e
  | mapping => .keyword default none e
  | named label => .keyword default (some label) e

theorem bare_applied {e e' : Expr} (h : e'.bare = e.bare) : ∀ m : Mark, (m.applied e').bare = (m.applied e).bare
  | plain => h
  | list => congrArg (Expr.starred default) h
  | mapping => congrArg (Expr.keyword default none) h
  | named label => congrArg (Expr.keyword default (some label)) h

end Mark

section Arguments

variable {n : Nat} {ws : List Word} {e : Expr} {next : Word} {more : List Word}

theorem words_of_argumentName? {c : Cursor} {a : Advanced String c} (h : argumentName? c = some a) :
    ∃ id text rest, c.words = (.name, id) :: (.op .assign, text) :: rest := by
  unfold argumentName? at h
  split at h
  · cases h
  · rename_i t c1 h1 hname
    split at h
    · cases h
    · rename_i u c2 h2 hsign
      obtain ⟨b, hb, -⟩ := Option.map_eq_some_iff.mp hsign
      have hrest := Cursor.words_of_accept? hb
      exact ⟨t.text, b.value.text, b.next.words, (Cursor.words_of_accept? hname).trans (by rw [hrest])⟩

/-- An expression does not begin with a name and a sign after it: the name would be all of it. -/
theorem argumentName?_eq_none {c : Cursor} {P : Expr → Cursor → Prop} (h : (expr .least c).Finds P)
    (hassign : ∀ e d, P e d → d.kind ≠ .op .assign) : argumentName? c = none := by
  cases hname : argumentName? c with
  | none => rfl
  | some a =>
    obtain ⟨id, text, rest, hwords⟩ := words_of_argumentName? hname
    obtain ⟨b, hb, hP⟩ := h
    have hhead : Power.least.rank < closed := by decide
    obtain ⟨b', hb', -, hd⟩ := (phrase_name default id).whole hhead (stops_op (o := .assign) (by decide)) hwords
    obtain rfl := Except.ok.inj (hb.symm.trans hb')
    exact absurd (Cursor.kind_of_words hd) (hassign _ _ hP)

theorem argumentName?_of_words {c : Cursor} {label : String} (hc : c.words = (.name, label) :: opWord .assign :: ws) :
    ∃ d hlt, argumentName? c = some ⟨label, d, hlt⟩ ∧ d.words = ws := by
  obtain ⟨t, c1, h1, hname, ht, hc1⟩ := Cursor.accept?_of_words hc
  obtain ⟨u, c2, h2, hsign, -, hc2⟩ := Cursor.accept?_of_words hc1
  obtain rfl : t.text = label := congrArg Prod.snd ht
  refine ⟨c2, Nat.lt_trans h2 h1, ?_, hc2⟩
  rw [argumentName?, hname]
  simp only [hsign]
  rfl

/-- An argument is its mark and an expression. One without a mark does not begin with a star. -/
theorem argument_finds (m : Mark) {c : Cursor} (h : c.size < n) (hc : c.words = m.words ++ ws)
    (hopens : ∃ w rest, ws = w :: rest ∧ opensExpr w.1 = true) {P : Expr → Cursor → Prop}
    (hreads : ∀ d : Cursor, d.words = ws → (expr m.level d).Finds P)
    (hplain : m = .plain → (∀ w ∈ ws.head?, w.1 ≠ .op .star) ∧
      ∀ x d, P x d → opensClause d = false ∧ d.kind ≠ .op .assign) :
    (argument (exprBelow n) c h).Finds fun x d => ∃ e, P e d ∧ x.bare = (m.applied e).bare := by
  cases m with
  | plain =>
    obtain ⟨hstar, hends⟩ := hplain rfl
    obtain ⟨w, rest, rfl, hopen⟩ := hopens
    have hread := hreads c hc
    rw [argument, Cursor.accept?_eq_none hc (hstar w rfl)]
    simp only [Cursor.accept?_eq_none hc (ne_of_opensExpr hopen (show opensExpr (.op .doubleStar) = false from rfl)),
      argumentName?_eq_none hread fun x d hx => (hends x d hx).2]
    refine Read.finds_bind hread ?_
    intro x d _ hx
    simp only [(hends x d hx).1, Bool.false_eq_true, if_false]
    exact finds_ok ⟨x, hx, rfl⟩
  | list =>
    obtain ⟨t, c1, h1, haccept, -, hc1⟩ := Cursor.accept?_of_words hc
    rw [argument, haccept]
    refine Read.finds_bind (Read.finds_since (hreads c1 hc1) h1) ?_
    intro x d _ hx
    exact finds_ok ⟨x, hx, rfl⟩
  | mapping =>
    obtain ⟨t, c1, h1, haccept, -, hc1⟩ := Cursor.accept?_of_words hc
    rw [argument, Cursor.accept?_eq_none hc (by decide)]
    simp only [haccept]
    refine Read.finds_bind (Read.finds_since (hreads c1 hc1) h1) ?_
    intro x d _ hx
    exact finds_ok ⟨x, hx, rfl⟩
  | named label =>
    obtain ⟨c1, h1, hname, hc1⟩ := argumentName?_of_words hc
    rw [argument, Cursor.accept?_eq_none (k := .op .star) hc (by rintro ⟨⟩)]
    simp only [Cursor.accept?_eq_none (k := .op .doubleStar) hc (by rintro ⟨⟩), hname]
    refine Read.finds_bind (Read.finds_since (hreads c1 hc1) h1) ?_
    intro x d _ hx
    exact finds_ok ⟨x, hx, rfl⟩

/-- An argument that is read up to a comma or the closing parenthesis. -/
theorem argument_whole (m : Mark) (hnext : next.1 = .op .comma ∨ next.1 = .op .closeParen)
    (hopens : ∃ w rest, ws = w :: rest ∧ opensExpr w.1 = true)
    (hreads : ∀ d : Cursor, d.words = ws ++ next :: more →
      (expr m.level d).Finds fun e' d' => e'.bare = e.bare ∧ d'.words = next :: more)
    (hstar : m = .plain → ∀ w ∈ ws.head?, w.1 ≠ .op .star) {c : Cursor} (h : c.size < n)
    (hc : c.words = m.words ++ (ws ++ next :: more)) :
    (argument (exprBelow n) c h).Finds fun x d => x.bare = (m.applied e).bare ∧ d.words = next :: more := by
  obtain ⟨w, rest, rfl, hopen⟩ := hopens
  refine (argument_finds m h hc ⟨w, _, rfl, hopen⟩ hreads fun hm => ⟨hstar hm, ?_⟩).imp ?_
  · rintro x d ⟨-, hd⟩
    refine ⟨opensClause_eq_false hd ?_ ?_, ?_⟩
    · rcases hnext with hkind | hkind <;> rw [hkind] <;> decide
    · rcases hnext with hkind | hkind <;> rw [hkind] <;> decide
    · rw [Cursor.kind_of_words hd]
      rcases hnext with hkind | hkind <;> rw [hkind] <;> decide
  · rintro ⟨x, d, _⟩ ⟨e', ⟨he', hd⟩, hx⟩
    exact ⟨hx.trans (Mark.bare_applied he' m), hd⟩

theorem opensItem_of_opens (m : Mark) (hopens : ∃ w rest, ws = w :: rest ∧ opensExpr w.1 = true) :
    OpensItem (· = .op .closeParen) (m.words ++ ws) := by
  obtain ⟨w, rest, rfl, hopen⟩ := hopens
  cases m with
  | plain => exact ⟨w, rest, rfl, decide_eq_false (ne_of_opensExpr hopen rfl)⟩
  | list | mapping => exact ⟨_, _, rfl, by decide⟩
  | named label => exact ⟨_, _, rfl, decide_eq_false (by rintro ⟨⟩)⟩

/-- Words of an argument. An expression with a star before it is read as such, not as the beginning of
an operation. -/
inductive ArgumentStands : List Word → Expr → Prop
  | plain {ws : List Word} {e : Expr} : Stands ws e → (∀ w ∈ ws.head?, w.1 ≠ .op .star) → ArgumentStands ws e
  | starred {ws : List Word} {e : Expr} {head tail : Nat} (s : Span) : Power.comparison.rank < head →
      Phrase ws e head tail → ArgumentStands (opWord .star :: ws) (.starred s e)
  | mapping {ws : List Word} {e : Expr} (s : Span) : Stands ws e →
      ArgumentStands (opWord .doubleStar :: ws) (.keyword s none e)
  | named {ws : List Word} {e : Expr} (s : Span) (label : String) : Stands ws e →
      ArgumentStands ((.name, label) :: opWord .assign :: ws) (.keyword s (some label) e)

theorem ArgumentStands.item (he : ArgumentStands ws e) (n : Nat) :
    ItemOn (argument (exprBelow n)) (· = .op .closeParen) sameExpr ws e := by
  have hor {next : Word} (h : next.1 = .op .comma ∨ decide (next.1 = .op .closeParen) = true) :
      next.1 = .op .comma ∨ next.1 = .op .closeParen := h.imp_right of_decide_eq_true
  have hstops {next : Word} (h : next.1 = .op .comma ∨ next.1 = .op .closeParen) : Stops next.1 := by
    rcases h with hkind | hkind <;> rw [hkind] <;> exact stops_op (by decide)
  cases he with
  | plain he hstar =>
    refine ⟨opensItem_of_opens .plain he.opens, fun c h next more hc hnext => ?_⟩
    exact argument_whole .plain (hor hnext) he.opens (fun d => he.least (hstops (hor hnext))) (fun _ => hstar) h hc
  | starred s hhead hp =>
    refine ⟨opensItem_of_opens .list hp.opens, fun c h next more hc hnext => ?_⟩
    exact argument_whole .list (hor hnext) hp.opens (fun d => hp.whole hhead (hstops (hor hnext))) nofun h hc
  | mapping s he =>
    refine ⟨opensItem_of_opens .mapping he.opens, fun c h next more hc hnext => ?_⟩
    exact argument_whole .mapping (hor hnext) he.opens (fun d => he.named (hstops (hor hnext))) nofun h hc
  | named s label he =>
    refine ⟨opensItem_of_opens (.named label) he.opens, fun c h next more hc hnext => ?_⟩
    exact argument_whole (.named label) (hor hnext) he.opens (fun d => he.named (hstops (hor hnext))) nofun h hc

end Arguments

/-! ## Calls -/

section Calls

variable {wss : List (List Word)} {es : List Expr}

/-- Words of the arguments of a call. -/
abbrev ArgumentRow (n : Nat) (wss : List (List Word)) (es : List Expr) : Prop :=
  Row (argument (exprBelow n)) (· = .op .closeParen) sameExpr (opWord .closeParen) wss es

theorem phrase_callee (s : Span) {wl : List Word} {l : Expr} {head : Nat} (hl : Phrase wl l head closed)
    (hrow : ∀ n, ArgumentRow n wss es) :
    Phrase (wl ++ opWord .openParen :: (commaBetween wss ++ [opWord .closeParen])) (.call s l es)
      (min closed head) closed := by
  refine hl.extended (Nat.min_le_right _ _) (Nat.min_le_left _ _) ⟨Nat.le_refl _, rfl⟩ ?_
  rintro n left ⟨_, _, span⟩ c h next more hleft ht - hc
  obtain ⟨rfl, rfl⟩ := Prod.mk.inj ht
  rw [List.append_assoc, List.singleton_append] at hc
  refine MayRead.finds_bind ((hrow n).anyItems_finds (by decide) c h hc) ?_
  rintro xs c1 h1 ⟨hxs, hc1⟩
  refine Read.finds_bind (Read.finds_from (Cursor.expect_finds hc1) h1) ?_
  rintro _ d h2 ⟨-, hd⟩
  refine finds_ok ⟨?_, hd⟩
  simp only [Expr.bare, hleft, bareList_eq hxs]

theorem phrase_call (s : Span) {wl : List Word} {l : Expr} {head : Nat} (hl : Phrase wl l head closed)
    (hes : List.Forall₂ ArgumentStands wss es) :
    Phrase (wl ++ opWord .openParen :: (commaBetween wss ++ [opWord .closeParen])) (.call s l es)
      (min closed head) closed :=
  phrase_callee s hl fun n => row_of_items (Or.inr (decide_eq_true rfl)) (hes.imp fun _ _ hstands => hstands.item n)

end Calls

end TypeWatch.Reading
