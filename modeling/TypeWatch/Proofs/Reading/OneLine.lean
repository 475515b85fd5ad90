import TypeWatch.Proofs.Reading.Progress
import TypeWatch.Proofs.Reading.Rereading
import TypeWatch.Proofs.Reading.Suite

/-! # Modules of one line

A text that is cut into the words of one statement with a suite on the same line is a module if the reader of that
statement succeeds on them (`ofText_finds`), and none if it fails (`ofText_fails`). -/
namespace TypeWatch.Reading
set_option autoImplicit false

/-! ## Headers and suites on the line -/

/-- Words with parentheses around them. -/
def inParentheses (ws : List Word) : List Word := opWord .openParen :: (ws ++ [opWord .closeParen])

theorem inParentheses_append (ws more : List Word) :
    inParentheses ws ++ more = opWord .openParen :: (ws ++ opWord .closeParen :: more) := by
  rw [inParentheses, List.cons_append, List.append_assoc, List.singleton_append]

/-- The words of the shortest suite, with the colon before it and the end of the line. -/
def passWords : List Word := [opWord .colon, keyWord .kwPass, (.newline, "")]

section Suites

variable {c : Cursor}

theorem simpleLine_pass (hc : c.words = [keyWord .kwPass, (.newline, "")]) :
    (simpleLine c).Finds fun ss d => (∃ s, ss = [.word s .kwPass]) ∧ d.words = [] := by
  obtain ⟨t, c1, h1, hnext, ht, hc1⟩ := Cursor.next?_of_words hc
  have hkind : t.kind = .word .kwPass := congrArg Prod.fst ht
  have hword : wordStmt? t c1 = some (.ok (.here (.word t.span .kwPass) c1)) := by
    rw [wordStmt?, hkind]
  have hfirst : (simpleStmt c).Finds fun s d => (∃ p, s = .word p .kwPass) ∧ d.words = [(.newline, "")] := by
    rw [simpleStmt, hnext]
    simp only [hword]
    exact finds_ok ⟨⟨t.span, rfl⟩, hc1⟩
  refine Read.finds_bind hfirst ?_
  rintro s c2 h2 ⟨⟨p, rfl⟩, hc2⟩
  have hmore : (moreSimple c2).Finds fun ss d => ss = [] ∧ d.words = [(.newline, "")] := by
    rw [moreSimple, Cursor.accept?_eq_none hc2 (by decide)]
    exact finds_ok ⟨rfl, hc2⟩
  refine Read.finds_bind (MayRead.finds_since hmore h2) ?_
  rintro _ c3 h3 ⟨rfl, hc3⟩
  refine Read.finds_bind (Read.finds_since (Cursor.expect_finds hc3) h3) ?_
  rintro _ d _ ⟨-, hd⟩
  exact finds_ok ⟨⟨p, rfl⟩, hd⟩

theorem suite_pass {n : Nat} {sub : StmtsBelow n} (h : c.size < n) (hc : c.words = passWords) :
    (suite sub c h).Finds fun ss d => (∃ s, ss = [.word s .kwPass]) ∧ d.words = [] := by
  refine Read.finds_bind (Cursor.expect_finds hc) ?_
  rintro _ c1 h1 ⟨-, hc1⟩
  simp only [since_eq_none (Cursor.accept?_eq_none hc1 (k := .newline) (by decide)) h1]
  exact Read.finds_since (simpleLine_pass hc1) h1

end Suites

/-! ## The only statement -/

section Only

variable {c : Cursor} {k : Keyword} {text : String} {ws : List Word}

/-- A statement with a suite that begins with a word of its own. -/
theorem stmts_compound (hc : c.words = (.word k, text) :: ws) : ∃ t c1 h1, t.kind = .word k ∧ c1.words = ws ∧
    ∀ r : Read Stmt c1, compound? (fun d _ => stmts d) t c1 (below_upTo h1 c.size_upTo) = some r →
      stmts c = r.since h1 >>= fun a => .ok ⟨[a.value], a.next, a.lt⟩ := by
  obtain ⟨t, c1, h1, hnext, ht, hc1⟩ := Cursor.next?_of_words hc
  have hkind : t.kind = .word k := congrArg Prod.fst ht
  refine ⟨t, c1, h1, hkind, hc1, fun r hr => ?_⟩
  have hat : ¬t.kind = .op .atSign := by
    rw [hkind]
    rintro ⟨⟩
  rw [stmts, stmtsWith, hnext]
  simp only [if_neg hat, hr]
  rfl

/-- The reader of the statements that begin with a word. -/
def ReaderOf (k : Keyword) (ws : List Word) (R : {c : Cursor} → Read Stmt c → Prop) : Prop :=
  ∀ (n : Nat) (sub : StmtsBelow n) (t : Token) (c : Cursor) (h : c.size < n), t.kind = .word k → c.words = ws →
    ∃ r, compound? sub t c h = some r ∧ R r

theorem moduleStmts_of_words (hc : c.words = (.word k, text) :: ws) :
    moduleStmts c = stmts c >>= fun a => (moduleStmts a.next).since a.lt >>= fun b =>
      .ok (.past (a.value ++ b.value) b.next b.lt) := by
  rw [moduleStmts, Cursor.kind_of_words hc]
  rfl

theorem moduleStmts_finds {P : Stmt → Prop} (hlast : c.last.kind = .endOfInput) (hc : c.words = (.word k, text) :: ws)
    (hreader : ReaderOf k ws fun r => r.Finds fun s d => P s ∧ d.words = []) :
    (moduleStmts c).Finds fun ss _ => ∃ s, ss = [s] ∧ P s := by
  obtain ⟨t, c1, h1, ht, hc1, hstmts⟩ := stmts_compound hc
  obtain ⟨r, hr, hfinds⟩ := hreader c.size (fun d _ => stmts d) t c1 (below_upTo h1 c.size_upTo) ht hc1
  have hone : (stmts c).Finds fun ss d => (∃ s, ss = [s] ∧ P s) ∧ d.words = [] := by
    rw [hstmts r hr]
    refine Read.finds_bind (Read.finds_since hfinds h1) ?_
    rintro s d _ ⟨hs, hd⟩
    exact finds_ok ⟨⟨s, rfl, hs⟩, hd⟩
  rw [moduleStmts_of_words hc]
  refine Read.finds_bind (hone.and_gives (stmts_gives c)) ?_
  rintro _ c2 h2 ⟨⟨⟨s, rfl, hs⟩, hc2⟩, hreads⟩
  have hend : c2.kind = .endOfInput := by
    have hrest : c2.rest = [] := List.map_eq_nil_iff.mp hc2
    rw [Cursor.kind, Cursor.token, hrest, List.headD_nil, hreads.1.reaches.last, hlast]
  have hnil : (moduleStmts c2).Finds fun ss _ => ss = [] := by
    rw [moduleStmts, hend]
    exact finds_ok rfl
  refine Read.finds_bind (MayRead.finds_since hnil h2) ?_
  rintro _ d _ rfl
  exact finds_ok ⟨s, rfl, hs⟩

theorem moduleStmts_fails (hc : c.words = (.word k, text) :: ws) (hreader : ReaderOf k ws fun r => Fails r) :
    Fails (moduleStmts c) := by
  obtain ⟨t, c1, h1, ht, hc1, hstmts⟩ := stmts_compound hc
  obtain ⟨r, hr, hfails⟩ := hreader c.size (fun d _ => stmts d) t c1 (below_upTo h1 c.size_upTo) ht hc1
  rw [moduleStmts_of_words hc, hstmts r hr]
  exact fails_bind (fails_bind (fails_map hfails _) _) _

end Only

/-! ## Texts -/

/-- The shortest suite is cut into its words at the end of a text. -/
theorem cuts_pass : Cuts ": pass".toList [opWord .colon, keyWord .kwPass] [] := by
  have hword : Cuts "pass".toList [keyWord .kwPass] [] := cuts_keyword .kwPass Lexeme.edge_nil
  have hblank : Cuts ([' '] ++ "pass".toList) ([] ++ [keyWord .kwPass]) [] :=
    (Cuts.blank (of_head? rfl)).append hword
  exact (cuts_sign (o := .colon) (by decide) (of_head? rfl)).append hblank

section Texts

variable {text : String} {k : Keyword} {rest : List Char} {ws : List Word}

/-- A text that begins with a reserved word. -/
theorem tokenize_of_word (htext : text.toList = k.spelling.toList ++ rest)
    (hcuts : Cuts text.toList (keyWord k :: ws) []) : ∃ tokens, tokenize text = .ok tokens ∧
      tokens.map Token.word = keyWord k :: ws ++ [(.newline, ""), (.endOfInput, "")] := by
  obtain ⟨c, cs, hspelling, hopen, -⟩ := spelling_chars k
  rw [hspelling, List.cons_append] at htext
  rw [htext] at hcuts
  have htokens := tokenize_words (Lexeme.startsToken_of_opensName hopen) hcuts
  rwa [← htext, String.ofList_toList] at htokens

theorem words_of_pass (hcuts : Cuts text.toList (keyWord k :: (ws ++ [opWord .colon, keyWord .kwPass])) [])
    {tokens : List Token} (hwords : tokens.map Token.word =
      keyWord k :: (ws ++ [opWord .colon, keyWord .kwPass]) ++ [(.newline, ""), (.endOfInput, "")]) :
    (Cursor.ofTokens tokens).words = keyWord k :: (ws ++ passWords) := by
  rw [words_ofTokens_line hcuts.noLayout hwords, List.cons_append, List.append_assoc]
  rfl

/-- A module of one statement that begins with a word of its own. -/
theorem ofText_finds_of_tokens {tokens : List Token} (htokens : tokenize text = .ok tokens)
    (hc : (Cursor.ofTokens tokens).words = keyWord k :: ws) {P : Stmt → Prop}
    (hreader : ReaderOf k ws fun r => r.Finds fun s d => P s ∧ d.words = []) :
    ∃ m s, Module.ofText text = .ok m ∧ m.body = [s] ∧ P s := by
  obtain ⟨a, ha, s, hs, hP⟩ := moduleStmts_finds (Cursor.kind_last_ofTokens tokens) hc hreader
  refine ⟨⟨⟨.first, a.next.lastEnd⟩, a.value⟩, s, ?_, hs, hP⟩
  rw [Module.ofText, htokens]
  change Module.ofTokens tokens = _
  rw [Module.ofTokens, ha]
  rfl

/-- A module of one statement that begins with a word of its own and has the shortest suite. -/
theorem ofText_finds (htext : text.toList = k.spelling.toList ++ rest)
    (hcuts : Cuts text.toList (keyWord k :: (ws ++ [opWord .colon, keyWord .kwPass])) []) {P : Stmt → Prop}
    (hreader : ReaderOf k (ws ++ passWords) fun r => r.Finds fun s d => P s ∧ d.words = []) :
    ∃ m s, Module.ofText text = .ok m ∧ m.body = [s] ∧ P s := by
  obtain ⟨tokens, htokens, hwords⟩ := tokenize_of_word htext hcuts
  exact ofText_finds_of_tokens htokens (words_of_pass hcuts hwords) hreader

theorem ofText_fails (htext : text.toList = k.spelling.toList ++ rest)
    (hcuts : Cuts text.toList (keyWord k :: (ws ++ [opWord .colon, keyWord .kwPass])) [])
    (hreader : ReaderOf k (ws ++ passWords) fun r => Fails r) : Fails (Module.ofText text) := by
  obtain ⟨tokens, htokens, hwords⟩ := tokenize_of_word htext hcuts
  rw [Module.ofText, htokens]
  exact fails_bind (moduleStmts_fails (words_of_pass hcuts hwords) hreader) _

end Texts

end TypeWatch.Reading
