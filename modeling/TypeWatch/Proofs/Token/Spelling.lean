import TypeWatch.Proofs.Lexeme.Numeral
import TypeWatch.Proofs.Lexeme.Quoted
import TypeWatch.Token.Layout

/-! # Texts of words

A word is a token without its place. A text that is cut into some words on one line, wherever it stands,
is tokenized as those words and the end of the line (`tokenize_words`). -/
namespace TypeWatch
set_option autoImplicit false

/-! ## Words -/

/-- The kind and the text of a token. -/
abbrev Word := TokenKind × String

def Token.word (t : Token) : Word := (t.kind, t.text)

/-- The word of an operator or a bracket. -/
def opWord (o : Operator) : Word := (.op o, String.ofList o.symbol)

/-- The word of a reserved word. -/
def keyWord (k : Keyword) : Word := (.word k, k.spelling)

/-- Words after each other, each after a comma. -/
def commaThen (items : List (List Word)) : List Word := items.flatMap (opWord .comma :: ·)

@[simp] theorem commaThen_nil : commaThen [] = [] := rfl

@[simp] theorem commaThen_cons (item : List Word) (items : List (List Word)) :
    commaThen (item :: items) = opWord .comma :: (item ++ commaThen items) := rfl

/-- Words after each other, with commas between them. -/
def commaBetween : List (List Word) → List Word
  | [] => []
  | item :: items => item ++ commaThen items

/-- The word that a piece is, if it is a token. -/
def Piece.word? (p : Piece) : Option Word :=
  match p.lexeme with
  | .token kind => some (kind, p.text)
  | _ => none

/-- Whether a piece is a token or stands between tokens of a line. -/
def Piece.isInLine (p : Piece) : Bool :=
  match p.lexeme with
  | .token _ | .blanks => true
  | _ => false

/-! ## Cutting -/

/-- The characters are cut into the words, and what follows them is cut as if it stood alone. -/
def Cuts (cs : List Char) (ws : List Word) (rest : List Char) : Prop :=
  ∃ ps, Piece.split (cs ++ rest) = (ps ++ (Piece.split rest).1, (Piece.split rest).2) ∧
    ps.filterMap Piece.word? = ws ∧ ∀ p ∈ ps, p.isInLine = true

namespace Cuts

variable {a b rest : List Char} {ws vs : List Word}

theorem nil (rest : List Char) : Cuts [] [] rest := ⟨[], rfl, rfl, nofun⟩

theorem append (ha : Cuts a ws (b ++ rest)) (hb : Cuts b vs rest) : Cuts (a ++ b) (ws ++ vs) rest := by
  obtain ⟨ps, hps, rfl, hline⟩ := ha
  obtain ⟨qs, hqs, rfl, hline'⟩ := hb
  refine ⟨ps ++ qs, ?_, List.filterMap_append, ?_⟩
  · rw [List.append_assoc, hps, hqs, List.append_assoc]
  · intro p hp
    rcases List.mem_append.mp hp with hp | hp
    · exact hline p hp
    · exact hline' p hp

theorem one {c : Char} {cs : List Char} (lexeme : Lexeme)
    (h : Lexeme.leading c (cs ++ rest) = .ok (lexeme, cs.length + 1))
    (hline : (⟨lexeme, c :: cs⟩ : Piece).isInLine = true) :
    Cuts (c :: cs) (Piece.word? ⟨lexeme, c :: cs⟩).toList rest := by
  refine ⟨[⟨lexeme, c :: cs⟩], ?_, ?_, ?_⟩
  · rw [List.cons_append, Piece.split, h]
    simp
  · cases hw : Piece.word? ⟨lexeme, c :: cs⟩ <;> simp [hw]
  · intro p hp
    obtain rfl := List.mem_singleton.mp hp
    exact hline

theorem token {c : Char} {cs : List Char} {kind : TokenKind}
    (h : Lexeme.leading c (cs ++ rest) = .ok (.token kind, cs.length + 1)) :
    Cuts (c :: cs) [(kind, (⟨.token kind, c :: cs⟩ : Piece).text)] rest := one _ h rfl

/-- Blanks stand between two words. -/
theorem blanks {cs : List Char} (hcs : ∀ c ∈ cs, Lexeme.isLineBlank c = true)
    (h : ∀ d ∈ rest.head?, Lexeme.isLineBlank d = false) : Cuts cs [] rest := by
  cases cs with
  | nil => exact nil rest
  | cons c cs =>
    have hc := hcs c List.mem_cons_self
    have hbreak : Lexeme.lineBreakLength? (c :: (cs ++ rest)) = none ∧ c ≠ '\\' :=
      Lexeme.lineBreakLength?_of_isLineBlank hc _
    have hrun := Lexeme.runLength_append hcs h
    rw [List.cons_append, List.length_cons] at hrun
    refine one .blanks ?_ rfl
    simp [Lexeme.leading, hbreak, hc, hrun]

/-- One blank stands between two words. -/
theorem blank (h : ∀ d ∈ rest.head?, Lexeme.isLineBlank d = false) : Cuts [' '] [] rest :=
  blanks (fun c hc => by rw [List.mem_singleton.mp hc]; rfl) h

end Cuts

/-! ## Words of canonical text -/

/-- Names that are not reserved. -/
structure IsName (name : String) : Prop where
  opens : ∃ c cs, name.toList = c :: cs ∧ Text.opensName c = true
  continues : ∀ c ∈ name.toList, Text.continuesName c = true
  free : Keyword.ofSpelling? name = none

theorem isName_singleton {name : String} {c : Char} (hname : name.toList = [c]) (hopen : Text.opensName c = true)
    (hfree : Keyword.ofSpelling? name = none) : IsName name :=
  ⟨⟨c, [], hname, hopen⟩, by simp [hname, Text.continuesName_of_opensName c hopen], hfree⟩

/-- A name does not begin with a blank. -/
theorem IsName.head? {name : String} (h : IsName name) (rest : List Char) :
    ∀ d ∈ (name.toList ++ rest).head?, Lexeme.isLineBlank d = false := by
  obtain ⟨c, cs, hchars, hopen⟩ := h.opens
  rw [hchars]
  intro d hd
  obtain rfl := Option.some.inj hd
  exact Lexeme.isLineBlank_of_startsToken (Lexeme.startsToken_of_opensName hopen)

section Words

variable {rest : List Char}

theorem cuts_word {c : Char} {cs : List Char} (hopen : Text.opensName c = true)
    (hname : ∀ d ∈ cs, Text.continuesName d = true) (hrest : Lexeme.Edge rest) :
    Cuts (c :: cs) [(Lexeme.wordKind (c :: cs), String.ofList (c :: cs))] rest := by
  have hkind : (Lexeme.wordKind (c :: cs)).isString = false := by
    unfold Lexeme.wordKind
    split <;> rfl
  have hcuts := Cuts.token (Lexeme.leading_word hopen hname hrest)
  simpa only [Piece.text, hkind, Bool.false_eq_true, if_false] using hcuts

theorem cuts_name {name : String} (hname : IsName name) (hrest : Lexeme.Edge rest) :
    Cuts name.toList [(.name, name)] rest := by
  obtain ⟨c, cs, htext, hopen⟩ := hname.opens
  have hcontinues := hname.continues
  have hkind : Lexeme.wordKind name.toList = .name := by
    rw [Lexeme.wordKind, String.ofList_toList, hname.free]
  rw [htext] at hcontinues hkind ⊢
  have hcuts := cuts_word hopen (fun d hd => hcontinues d (List.mem_cons_of_mem c hd)) hrest
  rw [hkind, ← htext, String.ofList_toList] at hcuts
  exact htext ▸ hcuts

/-- The spelling of a reserved word is that of a name. -/
theorem spelling_chars (k : Keyword) : ∃ c cs, k.spelling.toList = c :: cs ∧ Text.opensName c = true ∧
    ∀ d ∈ cs, Text.continuesName d = true := by
  cases k <;> exact ⟨_, _, rfl, by decide, Lexeme.forall_of_all (by decide)⟩

theorem cuts_keyword (k : Keyword) (hrest : Lexeme.Edge rest) :
    Cuts k.spelling.toList [keyWord k] rest := by
  obtain ⟨c, cs, hspelling, hopen, hcontinues⟩ := spelling_chars k
  have hkind : Lexeme.wordKind (c :: cs) = .word k := by
    rw [← hspelling]
    cases k <;> decide
  have hcuts := cuts_word hopen hcontinues hrest
  rw [hkind, ← hspelling, String.ofList_toList] at hcuts
  exact hspelling ▸ hcuts

theorem cuts_operator (o : Operator) (hlonger : ∀ d ∈ rest.head?, Lexeme.extendedBy o d = false)
    (hpoint : o = .dot → ∀ d ∈ rest.head?, d.isDigit = false) : Cuts o.symbol [opWord o] rest := by
  obtain ⟨c, cs, hsymbol, hdot⟩ : ∃ c cs, o.symbol = c :: cs ∧
      (c = '.' → o = .dot ∧ cs = [] ∨ cs = ['.', '.']) := by
    cases o <;> exact ⟨_, _, rfl, by decide⟩
  have hleading := Lexeme.leading_operator hsymbol hlonger (by
    intro hc
    rcases hdot hc with ⟨ho, rfl⟩ | rfl
    · exact hpoint ho
    · intro d hd
      obtain rfl := Option.some.inj hd
      rfl)
  have hcuts := Cuts.token hleading
  rw [opWord, hsymbol]
  exact hcuts

theorem cuts_number {literal : String} (h : Lexeme.IsNumber literal.toList) (hrest : Lexeme.Quiet rest) :
    Cuts literal.toList [(.number, literal)] rest := by
  obtain ⟨c, cs, hliteral⟩ := List.exists_cons_of_ne_nil (List.length_pos_iff.mp h.pos)
  rw [hliteral] at h
  have hcuts := Cuts.token (Lexeme.leading_number h hrest)
  have htext : (⟨.token .number, c :: cs⟩ : Piece).text = literal := by
    rw [← hliteral]
    exact String.ofList_toList
  rw [htext] at hcuts
  rwa [hliteral]

theorem cuts_inQuotes {letters : List Char} (hletters : Lexeme.IsMark letters) {q : Char} {cs text : List Char}
    (h : Lexeme.Escapes q cs text) (hq : Lexeme.isQuote q = true) (hrest : Lexeme.Edge rest) :
    Cuts (letters ++ Lexeme.inQuotes q cs) [(Lexeme.literalKind letters, String.ofList text)] rest := by
  obtain ⟨c, ds, hliteral⟩ : ∃ c ds, letters ++ Lexeme.inQuotes q cs = c :: ds := by
    rcases hletters with rfl | rfl | rfl <;> exact ⟨_, _, rfl⟩
  have hkind : (Lexeme.literalKind letters).isString = true := by
    rcases hletters with rfl | rfl | rfl <;> rfl
  have hcuts := Cuts.token (Lexeme.leading_inQuotes hletters h hq hrest hliteral)
  simp only [Piece.text, hkind, if_true, ← hliteral, Lexeme.literalText_inQuotes hletters h hq] at hcuts
  exact hcuts

theorem cuts_quoted {letters : List Char} (hletters : Lexeme.IsMark letters) (text : String)
    (hrest : Lexeme.Edge rest) :
    Cuts (letters ++ (Constant.quoted text).toList) [(Lexeme.literalKind letters, text)] rest := by
  have hcuts := cuts_inQuotes hletters (Lexeme.escapes_quoted text.toList) (by decide) hrest
  rw [String.ofList_toList] at hcuts
  rwa [Lexeme.toList_quoted]

/-! ## Words before words -/

/-- What holds of a first character that can be seen. -/
theorem of_head? {p : Char → Prop} [DecidablePred p] {cs : List Char}
    (h : (cs.head?.all fun d => decide (p d)) = true) : ∀ d ∈ cs.head?, p d := by
  intro d hd
  rw [hd] at h
  exact of_decide_eq_true h

/-- The characters that operators are extended with to longer ones. -/
def extenders : List Char := ['=', '>', '<', '*', '/', '.']

theorem mem_extenders_of_tail (o : Operator) : ∀ d ∈ o.symbol.tail, d ∈ extenders := by
  cases o <;> exact Lexeme.forall_of_all (by decide)

theorem extendedBy_eq_false (o : Operator) {d : Char} (hd : d ∉ extenders) : Lexeme.extendedBy o d = false := by
  rw [Lexeme.extendedBy, List.any_eq_false]
  intro p _ hprefix
  obtain ⟨t, ht⟩ := List.isPrefixOf_iff_prefix.mp hprefix
  have hne : o.symbol ≠ [] := by cases o <;> exact List.cons_ne_nil _ _
  refine hd (mem_extenders_of_tail p d ?_)
  rw [← ht, List.append_assoc, List.tail_append_of_ne_nil hne]
  simp

/-- An operator before a character that extends none. -/
theorem cuts_sign {o : Operator} (ho : o ≠ .dot) (hrest : ∀ d ∈ rest.head?, d ∉ extenders) :
    Cuts o.symbol [opWord o] rest :=
  cuts_operator o (fun d hd => extendedBy_eq_false o (hrest d hd)) fun heq => absurd heq ho

/-- Brackets and commas, which nothing extends. -/
theorem cuts_single {o : Operator} (ho : o ∈ [Operator.openParen, .closeParen, .openBracket, .closeBracket,
    .openBrace, .closeBrace, .comma]) (rest : List Char) : Cuts o.symbol [opWord o] rest := by
  have halone : ∀ q ∈ [Operator.openParen, .closeParen, .openBracket, .closeBracket, .openBrace, .closeBrace,
      .comma], ∀ p ∈ Operator.all, q.symbol.isPrefixOf p.symbol = true → p.symbol.length = 1 := by decide
  have hpos : 0 < o.symbol.length := by cases o <;> decide
  refine cuts_operator o (fun d _ => ?_) ?_
  · rw [Lexeme.extendedBy, List.any_eq_false]
    intro p hp hprefix
    have hle := List.isPrefixOf_iff_prefix.mp hprefix
    have hshort := (List.prefix_append o.symbol [d]).trans hle
    have hone := halone o ho p hp (List.isPrefixOf_iff_prefix.mpr hshort)
    have hlength := hle.length_le
    rw [List.length_append, List.length_singleton] at hlength
    omega
  · rintro rfl
    exact absurd ho (by decide)

/-- Words with blanks around them. -/
theorem Cuts.spaced {cs : List Char} {ws : List Word} (h : Cuts cs ws (' ' :: rest))
    (hcs : ∀ d ∈ (cs ++ ' ' :: rest).head?, Lexeme.isLineBlank d = false)
    (hrest : ∀ d ∈ rest.head?, Lexeme.isLineBlank d = false) : Cuts (' ' :: (cs ++ [' '])) ws rest := by
  have hend : Cuts (cs ++ [' ']) (ws ++ []) rest := h.append (Cuts.blank hrest)
  have hfirst : ∀ d ∈ ((cs ++ [' ']) ++ rest).head?, Lexeme.isLineBlank d = false := by
    rwa [List.append_assoc]
  rw [List.append_nil] at hend
  exact (Cuts.blank hfirst).append hend

/-- Two reserved words with a blank between them. -/
theorem cuts_twoWords (k k' : Keyword) (hrest : Lexeme.Edge rest) :
    Cuts (k.spelling.toList ++ ' ' :: k'.spelling.toList) [keyWord k, keyWord k'] rest := by
  have hfirst : ∀ d ∈ (k'.spelling.toList ++ rest).head?, Lexeme.isLineBlank d = false := by
    cases k' <;> exact of_head? rfl
  have hsecond : Cuts ([' '] ++ k'.spelling.toList) ([] ++ [keyWord k']) rest :=
    (Cuts.blank hfirst).append (cuts_keyword k' hrest)
  exact (cuts_keyword k (Lexeme.edge_cons (by decide) _)).append hsecond

end Words

/-! ## Tokenizing -/

theorem Cuts.noLayout {cs rest : List Char} {ws : List Word} (h : Cuts cs ws rest) :
    ∀ w ∈ ws, w.1.isLayout = false := by
  obtain ⟨ps, hps, rfl, -⟩ := h
  intro w hw
  obtain ⟨p, hp, hword⟩ := List.mem_filterMap.mp hw
  have hformed := Piece.wellFormed_split (cs ++ rest) p (by rw [hps]; exact List.mem_append_left _ hp)
  unfold Piece.word? at hword
  split at hword
  · rename_i kind hkind
    obtain rfl := Option.some.inj hword
    exact (hformed.token kind hkind).1
  · exact absurd hword nofun

namespace Layout

/-- Where a line that is not indented begins or goes on. -/
structure Flush (s : State) : Prop where
  margin : s.margin = none ∨ s.margin = some 0
  indents : s.indents = []

theorem Flush.openLine_eq {s : State} (h : Flush s) : openLine s = .ok ({ s with margin := none }, []) := by
  obtain ⟨position, depth, indents, margin, begun⟩ := s
  obtain ⟨hmargin, rfl⟩ := h
  rcases hmargin with rfl | rfl <;> rfl

/-- A token in such a line is one more word, and the line goes on. -/
theorem Flush.run_token {s : State} (h : Flush s) (kind : TokenKind) (chars : List Char) (ps : List Piece) :
    ∃ s' t, run s none (⟨.token kind, chars⟩ :: ps) = (run s' none ps).map (t :: ·) ∧
      t.word = (kind, (⟨.token kind, chars⟩ : Piece).text) ∧ s'.margin = none ∧ Flush s' ∧
      s'.begun = true := by
  let after := { ({ s with margin := none } : State).advance chars with
    depth := depthAfter s.depth kind, begun := true }
  refine ⟨after, ⟨kind, (⟨.token kind, chars⟩ : Piece).text, ⟨s.position, after.position⟩⟩, ?_, rfl, rfl,
    ⟨Or.inl rfl, h.indents⟩, rfl⟩
  rw [run, step, h.openLine_eq]
  cases hrun : run after none ps with
  | error e => exact congrArg (Except.map _) hrun
  | ok tokens => exact congrArg (Except.map _) hrun

/-- The rest of a line that is not indented gives its words and the end of the line. -/
theorem run_words {ps : List Piece} (hline : ∀ p ∈ ps, p.isInLine = true) {s : State}
    (hmargin : s.margin = none) (hflush : Flush s) (hbegun : s.begun = true) :
    ∃ tokens, run s none ps = .ok tokens ∧
      tokens.map Token.word = ps.filterMap Piece.word? ++ [(.newline, ""), (.endOfInput, "")] := by
  induction ps generalizing s with
  | nil =>
    refine ⟨finish s, rfl, ?_⟩
    simp [finish, closeLine, hbegun, hflush.indents, Token.word, Token.layout]
  | cons p ps ih =>
    have hrest : ∀ q ∈ ps, q.isInLine = true := fun q hq => hline q (List.mem_cons_of_mem p hq)
    have hp := hline p List.mem_cons_self
    obtain ⟨lexeme, chars⟩ := p
    cases lexeme with
    | token kind =>
      obtain ⟨s', t, hrun, hword, hmargin', hflush', hbegun'⟩ := hflush.run_token kind chars ps
      obtain ⟨tokens, htokens, hwords⟩ := ih hrest hmargin' hflush' hbegun'
      refine ⟨t :: tokens, by rw [hrun, htokens]; rfl, ?_⟩
      rw [List.map_cons, hword, hwords]
      rfl
    | blanks =>
      have hstep : step s ⟨.blanks, chars⟩ = .ok (s.advance chars, []) := by
        obtain ⟨position, depth, indents, margin, begun⟩ := s
        obtain rfl : margin = none := hmargin
        rfl
      obtain ⟨tokens, htokens, hwords⟩ := ih hrest (s := s.advance chars) hmargin ⟨hflush.margin, hflush.indents⟩
        hbegun
      refine ⟨tokens, ?_, hwords⟩
      rw [run, hstep]
      exact (congrArg (Except.map ([] ++ ·)) htokens).trans rfl
    | _ => exact absurd hp nofun

end Layout

/-- A text that is cut into words on one line is tokenized as those words and the end of the line. -/
theorem tokenize_words {c : Char} {cs : List Char} {ws : List Word} (hc : Lexeme.startsToken c = true)
    (h : Cuts (c :: cs) ws []) : ∃ tokens, tokenize (String.ofList (c :: cs)) = .ok tokens ∧
      tokens.map Token.word = ws ++ [(.newline, ""), (.endOfInput, "")] := by
  obtain ⟨ps, hps, rfl, hline⟩ := h
  rw [List.append_nil, Piece.split, List.append_nil] at hps
  have hleading : ∃ kind chars qs, ps = ⟨.token kind, chars⟩ :: qs := by
    rw [Piece.split] at hps
    split at hps
    · exact absurd (Prod.mk.inj hps).2 (by rintro ⟨⟩)
    · rename_i lexeme n hlexeme
      obtain ⟨kind, rfl⟩ := Lexeme.token_of_startsToken hc hlexeme
      exact ⟨kind, _, _, (Prod.mk.inj hps).1.symm⟩
  obtain ⟨kind, chars, qs, rfl⟩ := hleading
  have hinitial : Layout.Flush .initial := ⟨Or.inr rfl, rfl⟩
  obtain ⟨s, t, hrun, hword, hmargin, hflush, hbegun⟩ := hinitial.run_token kind chars qs
  have hrest : ∀ q ∈ qs, q.isInLine = true := fun q hq => hline q (List.mem_cons_of_mem _ hq)
  obtain ⟨tokens, htokens, hwords⟩ := Layout.run_words hrest hmargin hflush hbegun
  refine ⟨t :: tokens, ?_, ?_⟩
  · rw [tokenize, String.toList_ofList, hps]
    exact hrun.trans (congrArg (Except.map _) htokens)
  · rw [List.map_cons, hword, hwords]
    rfl

end TypeWatch
