import TypeWatch.Proofs.Reading.Lone
import TypeWatch.Proofs.Reading.OneLine

/-! # Contexts in parentheses

Parentheses around the only context of a statement are read as those of a list of contexts, in which no context is a
named expression. What is read in them is the expression that the text is on its own, unless it is a named one
(`context_inParentheses`). -/
namespace TypeWatch.Reading
set_option autoImplicit false

/-! ## Which parenthesis opens -/

/-- The brackets of some tokens do not end the search for the closing one. -/
theorem closesBeforeColon_append {ts : List Token} (rest : List Token) {depth : Nat} (hno : ∀ t ∈ ts, t.kind.isLayout = false)
    (h : Enclosed depth (ts.map Token.kind)) : closesBeforeColon (depth + 1) (ts ++ rest) =
      closesBeforeColon (depthOver depth (ts.map Token.kind) + 1) rest := by
  induction ts generalizing depth with
  | nil => rfl
  | cons t ts ih =>
    have hlayout := hno t List.mem_cons_self
    have htail := ih (fun u hu => hno u (List.mem_cons_of_mem t hu)) h.tail
    rw [List.map_cons, depthOver_cons, ← htail, List.cons_append, closesBeforeColon]
    cases hkind : t.kind with
    | newline | endOfInput => rw [hkind] at hlayout; cases hlayout
    | op o =>
      rw [List.map_cons, hkind] at h
      simp only [Layout.depthAfter]
      split
      · rfl
      · split
        · rename_i hcloses
          have hpos := h.pos hcloses
          rw [if_neg (by omega), Nat.sub_add_cancel hpos, Nat.add_sub_cancel]
        · rfl
    | _ => rfl

section Contexts

variable {ws more : List Word} {w : Word} {c : Cursor}

/-- The parentheses around some words hold all contexts if a colon follows them. -/
theorem opensContexts_of_words (hno : ∀ w ∈ ws, w.1.isLayout = false) (henclosed : Enclosed 0 (ws.map Prod.fst))
    (hbalanced : depthOver 0 (ws.map Prod.fst) = 0)
    (hc : c.words = inParentheses ws ++ w :: more) : opensContexts c = decide (w.1 = .op .colon) := by
  rw [inParentheses_append] at hc
  obtain ⟨t, rest, hrest, ht, hwords⟩ := Cursor.rest_of_words hc
  obtain ⟨ts, us, rfl, rfl, hus⟩ := List.map_eq_append_iff.mp hwords
  obtain ⟨u, vs, rfl, hu, hvs⟩ := List.map_eq_cons_iff.mp hus
  obtain ⟨v, after, rfl, rfl, -⟩ := List.map_eq_cons_iff.mp hvs
  rw [List.map_map] at henclosed hbalanced
  have hopen : t.kind = .op .openParen := congrArg Prod.fst ht
  have hclose : u.kind = .op .closeParen := congrArg Prod.fst hu
  have hskip : closesBeforeColon 1 (ts ++ u :: v :: after) = closesBeforeColon 1 (u :: v :: after) := by
    have happend := closesBeforeColon_append (u :: v :: after)
      (fun t ht => hno t.word (List.mem_map_of_mem ht)) henclosed
    rwa [show depthOver 0 (ts.map Token.kind) = 0 from hbalanced] at happend
  rw [opensContexts, Cursor.kind_of_words hc, hrest, closesBeforeColon, hopen]
  simp only [opWord, Operator.opens, decide_true, Bool.true_and, if_true, Nat.zero_add]
  rw [hskip, closesBeforeColon, hclose]
  simp only [Operator.opens, Operator.closes, Bool.false_eq_true, if_false, if_true, Nat.le_refl, List.head?_cons,
    Option.map_some, Option.some.injEq]
  exact decide_eq_decide.mpr Iff.rfl

/-! ## Contexts -/

variable {n : Nat} {α : Type}

/-- A list of one item. -/
theorem someItems_one {item : ItemBelow α n} (ends : TokenKind → Bool) (h : c.size < n) {P : α → Cursor → Prop}
    (hitem : (item c h).Finds P) (hcomma : ∀ x d, P x d → d.kind ≠ .op .comma) :
    (someItems item ends c h).Finds fun xs d => ∃ x, xs = [x] ∧ P x d := by
  refine Read.finds_bind hitem ?_
  intro x d h1 hx
  have hnone : (followers item ends d (below_of_lt h1 h)).Finds fun xs d' => xs = [] ∧ d' = d := by
    rw [followers, accept?_of_kind_ne (hcomma x d hx)]
    exact finds_ok ⟨rfl, rfl⟩
  refine Read.finds_bind (MayRead.finds_since hnone h1) ?_
  rintro _ _ _ ⟨rfl, rfl⟩
  exact finds_ok ⟨x, rfl, hx⟩

theorem withItem_alone (h : c.size < n) {P : Expr → Cursor → Prop} (hread : (expr .named c).Finds P)
    (has : ∀ e d, P e d → d.kind ≠ .word .kwAs) : (withItem c h).Finds fun i d => ∃ e, i = ⟨e, none⟩ ∧ P e d := by
  refine Read.finds_bind hread ?_
  intro e d h1 he
  have hnone : (singleAfter (.word .kwAs) .comparison d).Finds fun t d' => t = none ∧ d' = d := by
    rw [singleAfter, exprAfter, accept?_of_kind_ne (has e d he)]
    exact finds_ok ⟨rfl, rfl⟩
  refine Read.finds_bind (MayRead.finds_since hnone h1) ?_
  rintro _ _ _ ⟨rfl, rfl⟩
  exact finds_ok ⟨e, rfl, he⟩

theorem exists_of_bare_name {e : Expr} {s : Span} {id : String} (h : e.bare = (Expr.name s id).bare) :
    ∃ s', e = .name s' id := by
  cases e <;> simp only [Expr.bare, reduceCtorEq, Expr.name.injEq, true_and] at h
  exact ⟨_, congrArg _ h⟩

/-- A context that is given a name. -/
theorem withItem_named {e : Expr} {id : String} (h : c.size < n)
    (hread : (expr .named c).Finds fun e' d => e'.bare = e.bare ∧
      d.words = keyWord .kwAs :: (.name, id) :: opWord .colon :: more) :
    (withItem c h).Finds fun i d => (∃ e' s, i = ⟨e', some (.name s id)⟩ ∧ e'.bare = e.bare) ∧
      d.words = opWord .colon :: more := by
  refine Read.finds_bind hread ?_
  rintro e' c1 h1 ⟨he, hc1⟩
  have htarget : (singleAfter (.word .kwAs) .comparison c1).Finds fun t d =>
      (∃ s, t = some (.name s id)) ∧ d.words = opWord .colon :: more := by
    obtain ⟨t, c2, h2, haccept, -, hc2⟩ := Cursor.accept?_of_words hc1
    have hname := (phrase_name default id).whole (show Power.comparison.rank < closed by decide) (stops_op (o := .colon) (by decide)) hc2
    rw [singleAfter, exprAfter, haccept]
    refine Read.finds_bind (Read.finds_since hname h2) ?_
    rintro x d _ ⟨hx, hd⟩
    obtain ⟨s, rfl⟩ := exists_of_bare_name hx
    exact finds_ok ⟨⟨s, rfl⟩, hd⟩
  refine Read.finds_bind (MayRead.finds_since htarget h1) ?_
  rintro _ d _ ⟨⟨s, rfl⟩, hd⟩
  exact finds_ok ⟨⟨e', s, rfl, he⟩, hd⟩

end Contexts

/-! ## Texts in parentheses -/

section Parentheses

variable {text : String} {e : Expr} {c : Cursor} {n : Nat} {w : Word} {more : List Word}

theorem borders_closeParen (ws : List Word) : Borders ws (opWord .closeParen) := ⟨rfl, nofun⟩

theorem Lone.opensContexts_eq (h : Lone text e)
    (hc : c.words = inParentheses (wordsOf text) ++ w :: more) : opensContexts c = decide (w.1 = .op .colon) :=
  opensContexts_of_words h.words.noLayout h.enclosed h.balanced hc

theorem Lone.withItems_finds (h : Lone text e) (hwhole : Expr.isWholeAt .named text = true)
    (hc : c.words = inParentheses (wordsOf text) ++ opWord .colon :: more) :
    (withItems c).Finds fun items d => (∃ e', items = [⟨e', none⟩] ∧ e'.bare = e.bare) ∧
      d.words = opWord .colon :: more := by
  rw [withItems, if_pos ((h.opensContexts_eq hc).trans (decide_eq_true rfl))]
  rw [inParentheses_append] at hc
  refine Read.finds_bind (Cursor.expect_finds hc) ?_
  rintro _ c1 h1 ⟨-, hc1⟩
  have hread := h.whole .named hwhole c1 _ _ (borders_closeParen _) hc1
  have hitem := withItem_alone c1.size_below hread fun e d he => by
    rw [Cursor.kind_of_words he.2]
    decide
  have hitems := someItems_one (· = .op .closeParen) _ hitem fun i d hi => by
    obtain ⟨e', -, -, hd⟩ := hi
    rw [Cursor.kind_of_words hd]
    decide
  refine Read.finds_bind (Read.finds_since hitems h1) ?_
  rintro _ c2 h2 ⟨_, rfl, e', rfl, he, hc2⟩
  refine Read.finds_bind (Read.finds_since (Cursor.expect_finds hc2) h2) ?_
  rintro _ d _ ⟨-, hd⟩
  exact finds_ok ⟨⟨e', rfl, he⟩, hd⟩

theorem Lone.withItems_fails (h : Lone text e) (hshort : Expr.isWholeAt .named text = false)
    (hc : c.words = inParentheses (wordsOf text) ++ opWord .colon :: more) :
    Fails (withItems c) := by
  have hne {d : Cursor} (hd : Power.least < infixLevel d.kind) {k : TokenKind} (hk : infixLevel k = .least) :
      d.kind ≠ k := by
    rintro rfl
    rw [hk] at hd
    exact Nat.lt_irrefl _ hd
  rw [withItems, if_pos ((h.opensContexts_eq hc).trans (decide_eq_true rfl))]
  rw [inParentheses_append] at hc
  refine Read.fails_bind (Cursor.expect_finds hc) ?_
  rintro _ c1 h1 ⟨-, hc1⟩
  have hread := h.short .named hshort c1 _ _ (borders_closeParen _) hc1
  have hitem := withItem_alone c1.size_below hread fun e d he => hne he rfl
  have hitems := someItems_one (· = .op .closeParen) _ hitem fun i d hi => by
    obtain ⟨e', -, hd⟩ := hi
    exact hne hd rfl
  refine Read.fails_bind (Read.finds_since hitems h1) ?_
  rintro _ c2 h2 ⟨_, rfl, e', rfl, he⟩
  exact fails_bind (fails_map (Cursor.expect_fails (hne he rfl)) _) _

/-- Where a name follows, the parentheses are those of a group. -/
theorem Lone.withItems_named (h : Lone text e) {id : String}
    (hc : c.words = inParentheses (wordsOf text) ++ keyWord .kwAs :: (.name, id) :: opWord .colon :: more) :
    (withItems c).Finds fun items d => (∃ e' s, items = [⟨e', some (.name s id)⟩] ∧ e'.bare = e.bare) ∧
      d.words = opWord .colon :: more := by
  have hinner : Inner (wordsOf text) e :=
    ⟨h.opens, fun d more hd => h.whole .least h.least d _ more (borders_closeParen _) hd⟩
  have has : Stops (keyWord .kwAs).1 := ⟨rfl, rfl, rfl⟩
  have hread := (phrase_group hinner).whole (show Power.named.rank < _ by decide) has hc
  have hitem := withItem_named c.size_below hread
  have hitems := someItems_one (· = .op .colon) _ hitem fun i d hi => by
    rw [Cursor.kind_of_words hi.2]
    decide
  rw [withItems, if_neg (by rw [h.opensContexts_eq hc]; decide)]
  refine hitems.imp ?_
  rintro ⟨_, d, _⟩ ⟨_, rfl, ⟨e', s, rfl, he⟩, hd⟩
  exact ⟨⟨e', s, rfl, he⟩, hd⟩

end Parentheses

/-! ## Statements -/

section Statements

variable {ws : List Word} {P : List WithItem → Prop}

/-- A statement with contexts and the shortest suite. -/
theorem readerOf_contexts (hitems : ∀ c : Cursor, c.words = ws ++ passWords →
      (withItems c).Finds fun items d => P items ∧ d.words = passWords) :
    ReaderOf .kwWith (ws ++ passWords) fun r => r.Finds fun s d =>
      (∃ p q items, s = .withBlock p items [.word q .kwPass] false ∧ P items) ∧ d.words = [] := by
  intro n sub t c h ht hc
  refine ⟨withBlock sub t.span.start false c h, by rw [compound?, ht], ?_⟩
  refine Read.finds_bind (hitems c hc) ?_
  rintro items c1 h1 ⟨hP, hc1⟩
  refine Read.finds_bind (Read.finds_since (suite_pass (below_of_lt h1 h) hc1) h1) ?_
  rintro _ d _ ⟨⟨q, rfl⟩, hd⟩
  exact finds_ok ⟨⟨_, q, items, rfl, hP⟩, hd⟩

theorem readerOf_contexts_fails (hitems : ∀ c : Cursor, c.words = ws ++ passWords → Fails (withItems c)) :
    ReaderOf .kwWith (ws ++ passWords) fun r => Fails r := by
  intro n sub t c h ht hc
  exact ⟨withBlock sub t.span.start false c h, by rw [compound?, ht], fails_bind (hitems c hc) _⟩

/-! ## Texts of statements -/

variable {text : String} {e : Expr} {rest : List Char}

theorem Lone.cuts_contexts (h : Lone text e) (hno : ∀ d ∈ rest, Lexeme.isQuote d = false) (hrest : Cuts rest ws []) :
    Cuts ("with (".toList ++ (text.toList ++ ')' :: rest)) (keyWord .kwWith :: (inParentheses (wordsOf text) ++ ws)) [] := by
  rw [inParentheses_append]
  have hclose : Cuts ([')'] ++ rest) (opWord .closeParen :: ws) [] :=
    (cuts_single (o := .closeParen) (by decide) _).append hrest
  have htext : Cuts (text.toList ++ ([')'] ++ rest)) _ [] :=
    (h.words.cuts (rest ++ []) (by decide) (Or.inr (by rwa [List.append_nil]))).append hclose
  have hopen : Cuts (['('] ++ (text.toList ++ ([')'] ++ rest))) _ [] :=
    (cuts_single (o := .openParen) (by decide) _).append htext
  have hblank : Cuts ([' '] ++ (['('] ++ (text.toList ++ ([')'] ++ rest)))) _ [] :=
    (Cuts.blank (of_head? rfl)).append hopen
  exact (cuts_keyword .kwWith (Lexeme.edge_cons (by decide) _)).append hblank

theorem cuts_asName {id : String} (hid : IsName id) :
    Cuts (" as ".toList ++ (id.toList ++ ": pass".toList))
      [keyWord .kwAs, (.name, id), opWord .colon, keyWord .kwPass] [] := by
  have hname : Cuts (id.toList ++ ": pass".toList) _ [] :=
    (cuts_name hid (Lexeme.edge_cons (by decide) _)).append cuts_pass
  have hblank : Cuts ([' '] ++ (id.toList ++ ": pass".toList)) _ [] :=
    (Cuts.blank (by rw [List.append_assoc]; exact hid.head? _)).append hname
  have has : Cuts ("as".toList ++ ([' '] ++ (id.toList ++ ": pass".toList))) _ [] :=
    (cuts_keyword .kwAs (Lexeme.edge_cons (by decide) _)).append hblank
  exact (Cuts.blank (of_head? rfl)).append has

theorem isQuote_asName {id : String} (hid : IsName id) :
    ∀ d ∈ " as ".toList ++ (id.toList ++ ": pass".toList), Lexeme.isQuote d = false := by
  intro d hd
  rcases List.mem_append.mp hd with hd | hd
  · exact Lexeme.forall_of_all (p := fun d => Lexeme.isQuote d = false) (by decide) d hd
  · rcases List.mem_append.mp hd with hd | hd
    · exact Lexeme.isQuote_of_continuesName (hid.continues d hd)
    · exact Lexeme.forall_of_all (p := fun d => Lexeme.isQuote d = false) (by decide) d hd

end Statements

/-! ## Contexts of one statement -/

/-- A text in parentheses is the context that it is on its own, with a name after it or without. Only without one it
must not be a named expression that lacks parentheses of its own. -/
theorem context_inParentheses {text : String} {e : Expr} (hline : Text.isInLine text = true)
    (h : Expr.ofText text = .ok e) (htuple : e.isTuple = false) :
    (e.isNamed = false → Expr.isWholeAt .named text = true) ∧
    (Expr.isWholeAt .named text = true → ∃ m p q c, Module.ofText ("with (" ++ text ++ "): pass") = .ok m ∧
      m.body = [.withBlock p [⟨c, none⟩] [.word q .kwPass] false] ∧ c.bare = e.bare) ∧
    (Expr.isWholeAt .named text = false → ∀ m, Module.ofText ("with (" ++ text ++ "): pass") ≠ .ok m) ∧
    ∀ id, IsName id → ∃ m p q c s, Module.ofText ("with (" ++ text ++ ") as " ++ id ++ ": pass") = .ok m ∧
      m.body = [.withBlock p [⟨c, some (.name s id)⟩] [.word q .kwPass] false] ∧ c.bare = e.bare := by
  have hlone := lone_of_ofText hline h htuple
  have htext : ("with (" ++ text ++ "): pass").toList = "with (".toList ++ (text.toList ++ ')' :: ": pass".toList) := by
    simp
  have hcuts := hlone.cuts_contexts (Lexeme.forall_of_all (by decide)) cuts_pass
  rw [← htext] at hcuts
  refine ⟨hlone.named, fun hwhole => ?_, fun hshort => ?_, fun id hid => ?_⟩
  · have hreader := readerOf_contexts fun c hc => hlone.withItems_finds hwhole hc
    obtain ⟨m, _, hm, hbody, p, q, _, rfl, c, rfl, hc⟩ := ofText_finds (k := .kwWith) htext hcuts hreader
    exact ⟨m, p, q, c, hm, hbody, hc⟩
  · have hreader := readerOf_contexts_fails fun c hc => hlone.withItems_fails hshort hc
    exact ofText_fails (k := .kwWith) htext hcuts hreader
  · have htext : ("with (" ++ text ++ ") as " ++ id ++ ": pass").toList =
        "with (".toList ++ (text.toList ++ ')' :: (" as ".toList ++ (id.toList ++ ": pass".toList))) := by
      simp
    have hcuts := hlone.cuts_contexts (isQuote_asName hid) (cuts_asName hid)
    rw [← htext] at hcuts
    have hreader := readerOf_contexts fun c
        (hc : c.words = (inParentheses (wordsOf text) ++ [keyWord .kwAs, (.name, id)]) ++ passWords) =>
      hlone.withItems_named (hc.trans (List.append_assoc _ _ _))
    obtain ⟨m, _, hm, hbody, p, q, _, rfl, c, s, rfl, hc⟩ := ofText_finds (k := .kwWith) htext
      (by rwa [List.append_assoc]) hreader
    exact ⟨m, p, q, c, s, hm, hbody, hc⟩

/-- Brackets, a group that ends early, a named expression in parentheses and a generator. -/
def contextText : String := "(a)(b) if (c := [d]) else open(e for e in f)"

theorem context_inParentheses_contextText : Text.isInLine contextText = true ∧
    ∃ e m p q c, Expr.ofText contextText = .ok e ∧ Module.ofText ("with (" ++ contextText ++ "): pass") = .ok m ∧
      m.body = [.withBlock p [⟨c, none⟩] [.word q .kwPass] false] ∧ c.bare = e.bare := by
  have hline : Text.isInLine contextText = true := by decide +kernel
  have hread : (Expr.ofText contextText).toOption.any (fun e => decide (e.isTuple = false ∧ e.isNamed = false)) = true := by
    decide +kernel
  refine ⟨hline, ?_⟩
  cases h : Expr.ofText contextText with
  | error fault =>
    rw [h] at hread
    cases hread
  | ok e =>
    rw [h] at hread
    obtain ⟨htuple, hnamed⟩ : e.isTuple = false ∧ e.isNamed = false := of_decide_eq_true hread
    obtain ⟨hwhole, haccepted, -⟩ := context_inParentheses hline h htuple
    obtain ⟨m, p, q, c, hm⟩ := haccepted (hwhole hnamed)
    exact ⟨e, m, p, q, c, rfl, hm⟩

/-- A named expression is no context in these parentheses, though it is an expression. -/
theorem named_not_inParentheses : ¬ ∀ text e, Text.isInLine text = true → Expr.ofText text = .ok e → e.isTuple = false →
    (∀ s value, e ≠ .starred s value) → ∃ m p q c, Module.ofText ("with (" ++ text ++ "): pass") = .ok m ∧
      m.body = [.withBlock p [⟨c, none⟩] [.word q .kwPass] false] ∧ c.bare = e.bare := by
  have hread : (Expr.ofText "x := f()").toOption.any Expr.isNamed = true := by decide +kernel
  have hrefused : (Module.ofText ("with (" ++ "x := f()" ++ "): pass")).isOk = false := by decide +kernel
  intro hall
  cases h : Expr.ofText "x := f()" with
  | error fault =>
    rw [h] at hread
    cases hread
  | ok e =>
    rw [h] at hread
    replace hread : e.isNamed = true := hread
    have htuple : e.isTuple = false := by
      cases e <;> first | rfl | cases hread
    have hstarred : ∀ s value, e ≠ .starred s value := by
      rintro s value rfl
      cases hread
    obtain ⟨m, -, -, -, hm, -⟩ := hall "x := f()" e (by decide +kernel) h htuple hstarred
    rw [hm] at hrefused
    cases hrefused

end TypeWatch.Reading
