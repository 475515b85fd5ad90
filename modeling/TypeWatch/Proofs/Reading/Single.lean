import TypeWatch.Proofs.Reading.Lone

/-! # Single expressions

A text may be one expression, with neither a list after commas nor a named expression outside brackets. The words of
such a text are read as that expression where a comma, a closing bracket, a colon or a sign of equality follows them
(`Single.whole`), a comma only if nothing is yielded outside brackets. -/
namespace TypeWatch.Reading
set_option autoImplicit false

open Layout (depthAfter)

/-! ## Outside brackets -/

/-- Whether a token of a kind stands where no bracket is open. -/
def standsOpenly (kind : TokenKind) : Nat → List TokenKind → Bool
  | _, [] => false
  | depth, k :: ks => decide (depth = 0 ∧ k = kind) || standsOpenly kind (depthAfter depth k) ks

theorem yieldsOpenly_eq (depth : Nat) (kinds : List TokenKind) :
    yieldsOpenly depth kinds = standsOpenly (.word .kwYield) depth kinds := by
  induction kinds generalizing depth with
  | nil => rfl
  | cons k ks ih => rw [yieldsOpenly, standsOpenly, ih]

/-- A place on a line where no token of a kind stands outside brackets up to the end of the line. -/
inductive Shuns (kind : TokenKind) (depth : Nat) (c : Cursor) : Prop
  | mk {ts us : List Token} {u : Token} : c.rest = ts ++ u :: us → (∀ t ∈ ts, t.kind.isLayout = false) →
      u.kind = .newline → standsOpenly kind depth (ts.map Token.kind) = false → Shuns kind depth c

section Shuns

variable {kind : TokenKind} {depth : Nat} {c : Cursor}

/-- No place goes elsewhere. -/
def stillness : Motion := ⟨id, id, fun _ text => text⟩

theorem stillness_plain : stillness.Plain := fun _ _ => rfl

theorem Shuns.next (h : Shuns kind depth c) : NextAt stillness (fun _ => False)
    (fun depth c d => d = c ∧ Shuns kind depth c) depth c c := by
  cases h with
  | @mk ts us u hrest hno hu hquiet =>
    cases ts with
    | nil =>
      obtain ⟨_, hnext⟩ := next?_eq_some hrest
      exact .border (by rw [hu]; exact .line) rfl hnext hnext
    | cons t ts =>
      obtain ⟨_, hnext⟩ := next?_eq_some hrest
      have hnext' := hnext
      rw [← show t.moved stillness = t from stillness_plain.moved t] at hnext'
      exact .token (hno t List.mem_cons_self) (fun _ => Or.inr id) (stillness_plain.joins _ _ _ _) hnext hnext'
        ⟨rfl, .mk rfl (fun v hv => hno v (List.mem_cons_of_mem t hv)) hu (Bool.or_eq_false_iff.mp hquiet).2⟩

/-- A stream is in lockstep with itself. -/
def inPlace (kind : TokenKind) : Lockstep where
  motion := stillness
  others _ := False
  At depth c d := d = c ∧ Shuns kind depth c
  lastEnd h := by rw [h.1]; rfl
  next h := by rw [h.1]; exact h.2.next

/-- What is left over by an expression that begins outside brackets lies outside them as well. -/
theorem Shuns.of_expr (h : Shuns kind 0 c) {level : Power} {a : Advanced Expr c} (ha : expr level c = .ok a) :
    Shuns kind 0 a.next := by
  obtain ⟨b, -, -, hat⟩ := Lockstep.expr_matches (L := inPlace kind) level ⟨rfl, h⟩ a ha
  exact hat.2

/-- A token that is shunned is not the next one. -/
theorem Shuns.kind_ne (h : Shuns kind 0 c) (hkind : kind ≠ .newline) : c.kind ≠ kind := by
  cases h with
  | @mk ts us u hrest hno hu hquiet =>
    rw [Cursor.kind, Cursor.token, hrest]
    cases ts with
    | nil => exact fun heq => hkind (heq.symm.trans hu)
    | cons t ts =>
      rintro rfl
      cases (decide_eq_true ⟨rfl, rfl⟩).symm.trans (Bool.or_eq_false_iff.mp hquiet).1

theorem LineOf.shuns {ws : List Word} (hline : LineOf ws c)
    (hquiet : standsOpenly kind 0 (ws.map Prod.fst) = false) : Shuns kind 0 c := by
  obtain ⟨ts, us, hrest, rfl, hus⟩ := List.map_eq_append_iff.mp hline.words
  obtain ⟨u, rfl, hu⟩ := List.map_eq_singleton_iff.mp hus
  rw [List.map_map] at hquiet
  exact .mk hrest (fun t ht => hline.noLayout t.word (List.mem_map_of_mem ht)) (congrArg Prod.fst hu) hquiet

/-- Without a named expression outside brackets a line is read to the same end above such expressions. -/
theorem LineOf.unnamed {ws : List Word} (hline : LineOf ws c)
    (hquiet : standsOpenly (.op .walrus) 0 (ws.map Prod.fst) = false) {a : Advanced Expr c}
    (ha : expr .least c = .ok a) : expr .named c = .ok a := by
  obtain ⟨b, hb, rfl | ⟨hleast, hlevel, -⟩⟩ := expr_or_earlier .named ha
  · exact hb
  · exact absurd (eq_walrus ⟨hleast, hlevel⟩) (((hline.shuns hquiet).of_expr hb).kind_ne (by decide))

end Shuns

/-! ## Expressions as written -/

/-- A text that is one line of some words. In brackets the line may take several rows. -/
structure WrittenAs (text : String) (ws : List Word) : Prop where
  noLayout : ∀ w ∈ ws, w.1.isLayout = false
  tokens : ∃ tokens, tokenize text = .ok tokens ∧ tokens.map Token.word = ws ++ [(.newline, ""), (.endOfInput, "")]

/-- A text that is one expression, with neither a list after commas nor a named expression outside brackets. -/
structure Single where
  text : String
  words : List Word
  value : Expr
  written : WrittenAs (Text.trimmed text) words
  reads : Expr.ofText text = .ok value
  noList : value.isOpenTuple = false
  unnamed : standsOpenly (.op .walrus) 0 (words.map Prod.fst) = false

/-- Expressions within one row that leave no quotes open. -/
structure Single.InLine (s : Single) : Prop where
  line : Text.isInLine s.text = true
  closes : Text.closesQuotes s.text

/-- An expression that a comma may follow: nothing is yielded outside brackets. -/
structure Listed extends Single where
  unyielded : standsOpenly (.word .kwYield) 0 (words.map Prod.fst) = false

theorem writtenAs_of_cuts {text : String} {c : Char} {cs : List Char} {ws : List Word} (htext : text.toList = c :: cs)
    (hc : Lexeme.startsToken c = true) (h : Cuts (c :: cs) ws []) : WrittenAs text ws := by
  have htokens := tokenize_words hc h
  rw [← htext, String.ofList_toList] at htokens
  exact ⟨h.noLayout, htokens⟩

theorem WrittenAs.lineOf {text : String} {ws : List Word} (h : WrittenAs text ws) {tokens : List Token}
    (htokens : tokenize text = .ok tokens) : LineOf ws (Cursor.ofTokens tokens) := by
  obtain ⟨_, htokens', hwords⟩ := h.tokens
  obtain rfl := Except.ok.inj (htokens.symm.trans htokens')
  exact ⟨Cursor.ofTokens_sound (tokenize_placed htokens), words_ofTokens_line h.noLayout hwords, h.noLayout⟩

/-- A single expression is read before any stop, a comma after a yield aside. -/
theorem Single.whole (s : Single) : Whole .named s.words s.value := by
  obtain ⟨tokens, htokens, hreads⟩ := exists_of_bind_ok s.reads
  obtain ⟨a, ha, hvalue, hempty⟩ := expr_of_ofTokens hreads s.noList
  have hline := s.written.lineOf htokens
  rw [← hvalue]
  exact hline.whole (hline.unnamed s.unnamed ha) (hline.ends ha hempty)

theorem Listed.borders (v : Listed) {next : Word} (hnext : isStop next.1 = true) : Borders v.words next :=
  ⟨hnext, fun _ => (yieldsOpenly_eq 0 _).trans v.unyielded⟩

/-- What is written within a row is an expression that a comma may follow, if it is read as one. -/
theorem exists_listed (text : String) (hline : Text.isInLine text = true) (hcloses : Text.closesQuotes text)
    (hreads : ((Expr.ofText text).toOption.any fun e => !e.isOpenTuple) = true)
    (hquiet : ∀ kind ∈ [TokenKind.op .walrus, .word .kwYield],
      standsOpenly kind 0 ((wordsOf text).map Prod.fst) = false) :
    ∃ v : Listed, v.text = text ∧ v.toSingle.InLine := by
  cases h : Expr.ofText text with
  | error fault =>
    rw [h] at hreads
    cases hreads
  | ok e =>
    rw [h] at hreads
    have hopen : e.isOpenTuple = false := Bool.not_eq_true' _ |>.mp hreads
    obtain ⟨tokens, htokens, hread⟩ := exists_of_bind_ok h
    obtain ⟨a, ha, -⟩ := expr_of_ofTokens hread hopen
    obtain ⟨hwords, htext⟩ := lineWords_of_tokenize hline htokens (trimmed_ne_nil htokens ha)
    exact ⟨⟨⟨text, wordsOf text, e, ⟨hwords.noLayout, tokens, htokens, htext⟩, h, hopen,
      hquiet _ List.mem_cons_self⟩, hquiet _ (List.mem_cons_of_mem _ List.mem_cons_self)⟩, rfl, hline, hcloses⟩

end TypeWatch.Reading
