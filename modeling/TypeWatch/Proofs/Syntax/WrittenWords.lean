import Mathlib.Data.List.Forall2
import TypeWatch.Proofs.Syntax.WrittenEdges

/-! # Written forms cut into words

The written form of a tight expression is cut into its words, wherever a text follows that begins with an
edge. A number must not have a point after it, nor anything that ends in an operand at its right side. -/
namespace TypeWatch
set_option autoImplicit false

open Lexeme (Edge edges)

/-! ## What follows -/

/-- Whether a text begins with an edge that is neither a point nor an equals sign, or is empty. -/
def Gap (rest : List Char) : Prop := ∀ d ∈ rest.head?, d ∈ edges ∧ d ≠ '.' ∧ d ≠ '='

theorem gap_cons {d : Char} (h : d ∈ edges ∧ d ≠ '.' ∧ d ≠ '=') (rest : List Char) : Gap (d :: rest) := by
  intro e he
  obtain rfl := Option.some.inj he
  exact h

theorem Gap.edge {rest : List Char} (h : Gap rest) : Edge rest := fun d hd => (h d hd).1

theorem Gap.quiet {rest : List Char} (h : Gap rest) : Lexeme.Quiet rest := by
  intro d hd
  have hall : ∀ d ∈ edges, d ≠ '.' → Lexeme.isNumberChar d = false := Lexeme.forall_of_all (by decide)
  exact hall d (h d hd).1 (h d hd).2.1

/-- Whether the written form of an expression is cut apart from a text. -/
structure Expr.Follow (e : Expr) (rest : List Char) : Prop where
  edge : Edge rest
  gap : (e.tail = Power.trailer.rank → e.isNumber = true) → Gap rest

theorem Gap.follow {rest : List Char} (h : Gap rest) (e : Expr) : e.Follow rest := ⟨h.edge, fun _ => h⟩

/-! ## Pieces of written forms -/

section Pieces

variable {rest : List Char} {cs : List Char} {ws : List Word}

/-- An operator before an expression. -/
theorem cuts_before {o : Operator} (ho : o ≠ .dot) {c : Char} (hc : opensWritten c = true)
    (h : c = '.' ∨ c = '*' → Lexeme.extendedBy o c = false) (rest : List Char) :
    Cuts o.symbol [opWord o] (c :: rest) := by
  refine cuts_operator o ?_ fun heq => absurd heq ho
  intro d hd
  obtain rfl := Option.some.inj hd
  by_cases hmem : c ∈ extenders
  · exact h (mem_extenders hc hmem)
  · exact extendedBy_eq_false o hmem

theorem cuts_colon (h : ∀ d ∈ rest.head?, d ≠ '=') : Cuts [':'] [opWord .colon] rest := by
  refine cuts_operator .colon (fun d hd => ?_) nofun
  have hne := h d hd
  simp [Lexeme.extendedBy, Operator.all, Operator.symbol, List.isPrefixOf, hne]

theorem Cuts.enclosed {o o' : Operator} {c d : Char} (hopen : o.symbol = [c]) (hclose : o'.symbol = [d])
    (ho : o ∈ [Operator.openParen, .closeParen, .openBracket, .closeBracket, .openBrace, .closeBrace, .comma])
    (ho' : o' ∈ [Operator.openParen, .closeParen, .openBracket, .closeBracket, .openBrace, .closeBrace, .comma])
    (h : Cuts cs ws (d :: rest)) : Cuts (c :: (cs ++ [d])) (opWord o :: (ws ++ [opWord o'])) rest := by
  have hlast := cuts_single ho' rest
  have hfirst := cuts_single ho ((cs ++ [d]) ++ rest)
  rw [hclose] at hlast
  rw [hopen] at hfirst
  exact hfirst.append (h.append hlast)

theorem Cuts.parens (h : Cuts cs ws (')' :: rest)) :
    Cuts ('(' :: (cs ++ [')'])) (opWord .openParen :: (ws ++ [opWord .closeParen])) rest :=
  Cuts.enclosed rfl rfl (by decide) (by decide) h

theorem Cuts.brackets (h : Cuts cs ws (']' :: rest)) :
    Cuts ('[' :: (cs ++ [']'])) (opWord .openBracket :: (ws ++ [opWord .closeBracket])) rest :=
  Cuts.enclosed rfl rfl (by decide) (by decide) h

theorem Cuts.braces (h : Cuts cs ws ('\x7d' :: rest)) :
    Cuts ('\x7b' :: (cs ++ ['\x7d'])) (opWord .openBrace :: (ws ++ [opWord .closeBrace])) rest :=
  Cuts.enclosed rfl rfl (by decide) (by decide) h

/-- A reserved word between blanks. -/
theorem cuts_spacedWord (k : Keyword) (hrest : ∀ d ∈ rest.head?, Lexeme.isLineBlank d = false) :
    Cuts (' ' :: (k.spelling.toList ++ [' '])) [keyWord k] rest := by
  refine Cuts.spaced (cuts_keyword k (Lexeme.edge_cons (by decide) _)) ?_ hrest
  cases k <;> exact of_head? rfl

/-- A reserved word and a blank. -/
theorem cuts_wordBlank (k : Keyword) (hrest : ∀ d ∈ rest.head?, Lexeme.isLineBlank d = false) :
    Cuts (k.spelling.toList ++ [' ']) [keyWord k] rest := by
  have hcuts := (cuts_keyword k (Lexeme.edge_cons (by decide) _)).append (Cuts.blank hrest)
  rwa [List.append_nil] at hcuts

theorem cuts_colonBlank (hrest : ∀ d ∈ rest.head?, Lexeme.isLineBlank d = false) :
    Cuts [':', ' '] [opWord .colon] rest := by
  have hcolon : Cuts [':'] [opWord .colon] ([' '] ++ rest) := cuts_colon (of_head? rfl)
  exact hcolon.append (Cuts.blank hrest)

/-- An operator between blanks. -/
theorem cuts_spacedSign {o : Operator} (ho : o ≠ .dot)
    (hrest : ∀ d ∈ rest.head?, Lexeme.isLineBlank d = false) :
    Cuts (' ' :: (o.symbol ++ [' '])) [opWord o] rest := by
  refine Cuts.spaced (cuts_sign ho (of_head? rfl)) ?_ hrest
  cases o <;> exact of_head? rfl

theorem cuts_binaryOp (op : BinaryOp) (hrest : ∀ d ∈ rest.head?, Lexeme.isLineBlank d = false) :
    Cuts (' ' :: (op.symbol.toList ++ [' '])) op.words rest := by
  have hword (k k' : Keyword) :
      Cuts (' ' :: ((k.spelling.toList ++ ' ' :: k'.spelling.toList) ++ [' '])) [keyWord k, keyWord k'] rest := by
    refine Cuts.spaced (cuts_twoWords k k' (Lexeme.edge_cons (by decide) rest)) ?_ hrest
    cases k <;> exact of_head? rfl
  have hsign (h : ∃ o, op.words = [opWord o] ∧ op.symbol.toList = o.symbol ∧ o ≠ .dot) :
      Cuts (' ' :: (op.symbol.toList ++ [' '])) op.words rest := by
    obtain ⟨o, hwords, hsymbol, ho⟩ := h
    rw [hwords, hsymbol]
    exact cuts_spacedSign ho hrest
  cases op
  case or => exact cuts_spacedWord .kwOr hrest
  case and => exact cuts_spacedWord .kwAnd hrest
  case isIn => exact cuts_spacedWord .kwIn hrest
  case notIn => exact hword .kwNot .kwIn
  case same => exact cuts_spacedWord .kwIs hrest
  case notSame => exact hword .kwIs .kwNot
  all_goals exact hsign ⟨_, rfl, rfl, by decide⟩

end Pieces

/-! ## Lists -/

/-- A text that is cut into words before a comma or a closing bracket. -/
structure Item (text : String) (ws : List Word) : Prop where
  first : ∃ c cs, text.toList = c :: cs ∧ Lexeme.isLineBlank c = false
  cuts : ∀ rest, Gap rest → Cuts text.toList ws rest

theorem Item.head? {text : String} {ws : List Word} (h : Item text ws) (rest : List Char) :
    ∀ d ∈ (text.toList ++ rest).head?, Lexeme.isLineBlank d = false := by
  obtain ⟨c, cs, htext, hc⟩ := h.first
  rw [htext]
  intro d hd
  obtain rfl := Option.some.inj hd
  exact hc

section Lists

variable {texts : List String} {wss : List (List Word)}

theorem toList_commaSeparated (text : String) (texts : List String) :
    (Expr.commaSeparated (text :: texts)).toList =
      text.toList ++ texts.flatMap fun t => ',' :: ' ' :: t.toList := by
  rw [Expr.commaSeparated, String.toList_intercalate]
  induction texts generalizing text with
  | nil => simp
  | cons next texts ih =>
    rw [List.map_cons, List.map_cons, List.intercalate_cons_cons, ← List.map_cons, ih]
    simp

theorem gap_commaThen (texts : List String) {rest : List Char} (hrest : Gap rest) :
    Gap ((texts.flatMap fun t => ',' :: ' ' :: t.toList) ++ rest) := by
  cases texts with
  | nil => exact hrest
  | cons text texts => exact gap_cons (by decide) _

theorem cuts_commaThen (h : List.Forall₂ Item texts wss) {rest : List Char} (hrest : Gap rest) :
    Cuts (texts.flatMap fun t => ',' :: ' ' :: t.toList) (commaThen wss) rest := by
  induction h with
  | nil => exact Cuts.nil rest
  | @cons text ws texts wss hitem _ ih =>
    have hitems : Cuts (text.toList ++ texts.flatMap fun t => ',' :: ' ' :: t.toList) (ws ++ commaThen wss) rest :=
      (hitem.cuts _ (gap_commaThen texts hrest)).append ih
    have hblank : Cuts [' '] [] ((text.toList ++ texts.flatMap fun t => ',' :: ' ' :: t.toList) ++ rest) := by
      rw [List.append_assoc]
      exact Cuts.blank (hitem.head? _)
    exact (cuts_single (o := .comma) (by decide) _).append (hblank.append hitems)

theorem cuts_commaSeparated (h : List.Forall₂ Item texts wss) {rest : List Char} (hrest : Gap rest) :
    Cuts (Expr.commaSeparated texts).toList (commaBetween wss) rest := by
  cases h with
  | nil => exact Cuts.nil rest
  | @cons text ws texts wss hitem hitems =>
    rw [toList_commaSeparated]
    exact (hitem.cuts _ (gap_commaThen texts hrest)).append (cuts_commaThen hitems hrest)

theorem first_commaSeparated {text : String} {more : List String} (htexts : texts = text :: more)
    (h : List.Forall₂ Item texts wss) : ∃ c cs, (Expr.commaSeparated texts).toList = c :: cs ∧
      Lexeme.isLineBlank c = false := by
  subst htexts
  cases h with
  | cons hitem _ =>
    obtain ⟨c, cs, htext, hc⟩ := hitem.first
    exact ⟨c, cs ++ more.flatMap fun t => ',' :: ' ' :: t.toList,
      by rw [toList_commaSeparated, htext, List.cons_append], hc⟩

/-- One element of a tuple. -/
theorem Item.cuts_comma {text : String} {ws : List Word} (h : Item text ws) (rest : List Char) :
    Cuts (text.toList ++ [',']) (ws ++ [opWord .comma]) rest :=
  (h.cuts _ (gap_cons (by decide) rest)).append (cuts_single (o := .comma) (by decide) rest)

/-- An entry of a dictionary. -/
theorem Item.pair {key value : String} {ws vs : List Word} (hk : Item key ws) (hv : Item value vs) :
    Item (key ++ ": " ++ value) (ws ++ opWord .colon :: vs) := by
  refine ⟨?_, fun rest hrest => ?_⟩
  · obtain ⟨c, cs, htext, hc⟩ := hk.first
    exact ⟨c, cs ++ ':' :: ' ' :: value.toList, by simp [htext], hc⟩
  · have hvalue := (cuts_colonBlank (hv.head? rest)).append (hv.cuts rest hrest)
    have hcuts := (hk.cuts _ (gap_cons (by decide) _)).append hvalue
    simpa using hcuts

theorem cuts_tuple (h : List.Forall₂ Item texts wss) (rest : List Char) :
    Cuts (Expr.parenthesized texts).toList (opWord .openParen :: (Expr.tupleWords wss ++ [opWord .closeParen]))
      rest := by
  cases h with
  | nil => exact Cuts.parens (Cuts.nil _)
  | @cons text ws texts wss hitem hitems =>
    cases hitems with
    | nil =>
      have htext : (Expr.parenthesized [text]).toList = '(' :: ((text.toList ++ [',']) ++ [')']) := by
        simp [Expr.parenthesized]
      rw [htext]
      exact Cuts.parens (hitem.cuts_comma _)
    | cons hnext hitems =>
      have hinner := cuts_commaSeparated (.cons hitem (.cons hnext hitems)) (gap_cons (d := ')') (by decide) rest)
      rw [Expr.parenthesized, String.toList_append, String.toList_append]
      · exact Cuts.parens hinner
      · exact nofun

theorem cuts_index (h : List.Forall₂ Item texts wss) (rest : List Char) :
    Cuts (Expr.unparenthesized texts).toList (Expr.indexWords wss) (']' :: rest) := by
  cases h with
  | nil => exact Cuts.parens (Cuts.nil _)
  | @cons text ws texts wss hitem hitems =>
    cases hitems with
    | nil =>
      rw [Expr.unparenthesized, String.toList_append]
      exact hitem.cuts_comma (']' :: rest)
    | cons hnext hitems => exact cuts_commaSeparated (.cons hitem (.cons hnext hitems)) (gap_cons (by decide) rest)

end Lists

/-! ## Expressions by their parts -/

namespace Expr

/-- A tight expression whose written form is cut into its words. -/
structure Cut (e : Expr) : Prop where
  tight : e.isTight = true
  begins : e.Begins
  cuts : ∀ rest, e.Follow rest → Cuts e.written.toList e.words rest

namespace Cut

variable {e : Expr}

theorem inGap (h : e.Cut) {rest : List Char} (hrest : Gap rest) : Cuts e.written.toList e.words rest :=
  h.cuts rest (hrest.follow e)

theorem head? (h : e.Cut) (rest : List Char) :
    ∀ d ∈ (e.written.toList ++ rest).head?, opensWritten d = true := by
  obtain ⟨c, cs, htext, hc, -⟩ := h.begins
  rw [htext]
  intro d hd
  obtain rfl := Option.some.inj hd
  exact hc

theorem notBlank (h : e.Cut) (rest : List Char) :
    ∀ d ∈ (e.written.toList ++ rest).head?, Lexeme.isLineBlank d = false :=
  fun d hd => isLineBlank_of_opensWritten (h.head? rest d hd)

theorem item (h : e.Cut) : Item e.written e.words := by
  obtain ⟨c, cs, htext, hc, -⟩ := h.begins
  exact ⟨⟨c, cs, htext, isLineBlank_of_opensWritten hc⟩, fun _ => h.inGap⟩

/-- An expression between words, the ones before it with a blank at their end. -/
theorem between (h : e.Cut) {before after rest : List Char} {ws vs : List Word}
    (hbefore : ∀ rest : List Char, (∀ d ∈ rest.head?, Lexeme.isLineBlank d = false) → Cuts before ws rest)
    (hgap : Gap (after ++ rest)) (hafter : Cuts after vs rest) :
    Cuts (before ++ (e.written.toList ++ after)) (ws ++ (e.words ++ vs)) rest := by
  refine (hbefore _ ?_).append ((h.inGap hgap).append hafter)
  rw [List.append_assoc]
  exact h.notBlank _

/-- An expression after an operator. -/
theorem after (h : e.Cut) {o : Operator} (ho : o ≠ .dot) (hpoint : Lexeme.extendedBy o '.' = false)
    (hstar : e.beginsWith (.op .star) = true → Lexeme.extendedBy o '*' = false) {rest : List Char}
    (hrest : Gap rest) : Cuts (o.symbol ++ e.written.toList) (opWord o :: e.words) rest := by
  obtain ⟨c, cs, htext, hc, hbegins⟩ := h.begins
  refine (Cuts.append ?_ (h.inGap hrest) : Cuts _ ([opWord o] ++ e.words) rest)
  rw [htext]
  refine cuts_before ho hc ?_ _
  rintro (rfl | rfl)
  · exact hpoint
  · exact hstar (hbegins rfl h.tight)

end Cut

section Nodes

variable {e l r : Expr} {rest : List Char}

/-- Operators bind less tightly than what follows an operand without a blank. -/
theorem Follow.gap_of_le {n : Nat} (h : e.Follow rest) (htail : e.tail ≤ n) (hn : n < Power.trailer.rank) :
    Gap rest :=
  h.gap fun heq => absurd (heq ▸ htail) (Nat.not_le.mpr hn)

theorem cuts_constant (s : Span) (value : Constant) (hs : (constant s value).Spelled)
    (h : (constant s value).Follow rest) : Cuts value.written.toList [value.word] rest := by
  cases value with
  | noneWord => exact cuts_keyword .kwNone h.edge
  | trueWord => exact cuts_keyword .kwTrue h.edge
  | falseWord => exact cuts_keyword .kwFalse h.edge
  | ellipsis =>
    refine cuts_operator .ellipsis (fun d hd => ?_) nofun
    exact Lexeme.of_edge (p := fun d => Lexeme.extendedBy .ellipsis d = false) (Lexeme.forall_of_all (by decide)) h.edge d hd
  | number literal =>
    rw [Spelled] at hs
    exact cuts_number hs (h.gap fun _ => rfl).quiet
  | string text =>
    have hcuts := cuts_quoted (Or.inl rfl) text h.edge
    rw [List.nil_append] at hcuts
    rw [Constant.written]
    exact hcuts
  | bytes text =>
    rw [Constant.written, String.toList_append]
    exact cuts_quoted (Or.inr (Or.inl rfl)) text h.edge
  | formatString text =>
    rw [Constant.written, String.toList_append]
    exact cuts_quoted (Or.inr (Or.inr rfl)) text h.edge

theorem cuts_member (s : Span) {attr : String} (h : l.Cut) (htail : l.tail = Power.trailer.rank)
    (hnumber : l.isNumber = false) (hattr : IsName attr) (hrest : Edge rest) :
    Cuts (member s l attr).written.toList (member s l attr).words rest := by
  have hvalue : Cuts l.written.toList l.words ('.' :: (attr.toList ++ rest)) :=
    h.cuts _ ⟨Lexeme.edge_cons (by decide) _, fun hnum => absurd (hnumber.symm.trans (hnum htail)) nofun⟩
  have hpoint : Cuts ['.'] [opWord .dot] (attr.toList ++ rest) := by
    obtain ⟨c, cs, htext, hopen⟩ := hattr.opens
    rw [htext]
    refine cuts_operator .dot ?_ fun _ => ?_
    · intro d hd
      obtain rfl := Option.some.inj hd
      exact extendedBy_eq_false .dot (not_mem_extenders hopen)
    · intro d hd
      obtain rfl := Option.some.inj hd
      exact Lexeme.isDigit_of_opensName hopen
  have hcuts := hvalue.append (hpoint.append (cuts_name hattr hrest))
  have htext : (member s l attr).written.toList = l.written.toList ++ ('.' :: attr.toList) := by simp [written]
  rw [htext, words]
  exact hcuts

theorem cuts_binary (s : Span) (op : BinaryOp) (hl : l.Cut) (hr : r.Cut) (hrest : Gap rest) :
    Cuts (binary s l op r).written.toList (binary s l op r).words rest := by
  have hop := cuts_binaryOp op (hr.notBlank rest)
  have hcuts := (hl.inGap (gap_cons (by decide) _)).append (hop.append (hr.inGap hrest))
  simpa [written, words] using hcuts

theorem cuts_starred (s : Span) (h : e.Cut) (hstar : e.beginsWith (.op .star) = false) (hrest : Gap rest) :
    Cuts (starred s e).written.toList (starred s e).words rest := by
  have hcuts := h.after (o := .star) nofun (by decide) (fun heq => absurd (hstar.symm.trans heq) nofun) hrest
  rw [written, String.toList_append, words]
  exact hcuts

theorem cuts_unary (s : Span) (op : UnaryOp) (h : e.Cut) (hrest : Gap rest) :
    Cuts (unary s op e).written.toList (unary s op e).words rest := by
  have hlead : Cuts op.lead.toList [op.word] (e.written.toList ++ rest) := by
    obtain ⟨c, cs, htext, hc, -⟩ := h.begins
    rw [htext]
    cases op with
    | not => exact cuts_wordBlank .kwNot (fun d hd => isLineBlank_of_opensWritten
        (by obtain rfl := Option.some.inj hd; exact hc))
    | negate => exact cuts_before (o := .minus) nofun hc (by rintro (rfl | rfl) <;> decide) _
    | keep => exact cuts_before (o := .plus) nofun hc (by rintro (rfl | rfl) <;> decide) _
    | invert => exact cuts_before (o := .tilde) nofun hc (by rintro (rfl | rfl) <;> decide) _
  have hcuts := hlead.append (h.inGap hrest)
  rw [written, String.toList_append, words]
  exact hcuts

theorem cuts_await (s : Span) (h : e.Cut) (hrest : Gap rest) :
    Cuts (await s e).written.toList (await s e).words rest := by
  have hcuts := (cuts_wordBlank .kwAwait (h.notBlank rest)).append (h.inGap hrest)
  rw [written, String.toList_append, words]
  exact hcuts

theorem cuts_conditional {test body orelse : Expr} (s : Span) (ht : test.Cut) (hb : body.Cut) (ho : orelse.Cut)
    (hrest : Gap rest) :
    Cuts (conditional s test body orelse).written.toList (conditional s test body orelse).words rest := by
  have helse := (cuts_spacedWord .kwElse (ho.notBlank rest)).append (ho.inGap hrest)
  have hif := ht.between (fun _ => cuts_spacedWord .kwIf) (gap_cons (by decide) _) helse
  have hcuts := (hb.inGap (gap_cons (by decide) _)).append hif
  simpa [written, words, Keyword.spelling] using hcuts

theorem cuts_subscript (s : Span) {index : Expr} (h : l.Cut) {text : String} {ws : List Word}
    (hindex : Cuts text.toList ws (']' :: rest))
    (hwritten : (subscript s l index).written = l.written ++ "[" ++ text ++ "]")
    (hwords : (subscript s l index).words = l.words ++ opWord .openBracket :: (ws ++ [opWord .closeBracket])) :
    Cuts (subscript s l index).written.toList (subscript s l index).words rest := by
  have hcuts := (h.inGap (gap_cons (by decide) _)).append (Cuts.brackets hindex)
  have htext : (subscript s l index).written.toList = l.written.toList ++ ('[' :: (text.toList ++ [']'])) := by
    simp [hwritten]
  rw [htext, hwords]
  exact hcuts

theorem cuts_call (s : Span) {arguments : List Expr} (h : l.Cut)
    (hitems : List.Forall₂ Item (writtenList arguments) (wordsList arguments)) :
    Cuts (call s l arguments).written.toList (call s l arguments).words rest := by
  have hinner := Cuts.parens (cuts_commaSeparated hitems (gap_cons (d := ')') (by decide) rest))
  have hcuts := (h.inGap (gap_cons (by decide) _)).append hinner
  simpa [written, words] using hcuts

theorem cuts_lambda (s : Span) {parameters : List Parameter} {body : Expr} (hb : body.Cut)
    (hitems : List.Forall₂ Item (writtenParameters parameters) (wordsParameters parameters)) (hrest : Gap rest) :
    Cuts (lambda s parameters body).written.toList (lambda s parameters body).words rest := by
  have hcolon := (cuts_colonBlank (hb.notBlank rest)).append (hb.inGap hrest)
  cases parameters with
  | nil =>
    have hword : Cuts Keyword.kwLambda.spelling.toList [keyWord .kwLambda]
        ([':', ' '] ++ body.written.toList ++ rest) := cuts_keyword .kwLambda (Lexeme.edge_cons (by decide) _)
    have hcuts := hword.append hcolon
    simpa [written, words, writtenParameters, wordsParameters, commaSeparated, commaBetween,
      Keyword.spelling] using hcuts
  | cons p ps =>
    obtain ⟨text, texts, htexts⟩ : ∃ text texts, writtenParameters (p :: ps) = text :: texts := by
      obtain ⟨_, _, _, hint, standard⟩ := p
      cases hint <;> cases standard <;> exact ⟨_, _, rfl⟩
    have hgap : Gap ([':', ' '] ++ body.written.toList ++ rest) := gap_cons (by decide) _
    have hlist := (cuts_commaSeparated hitems hgap).append hcolon
    obtain ⟨c, cs, hc, hblank⟩ := first_commaSeparated htexts hitems
    have hne : commaSeparated (writtenParameters (p :: ps)) ≠ "" := by
      intro heq
      rw [heq] at hc
      cases hc
    have hcuts := (cuts_wordBlank .kwLambda (by
      rw [hc]
      intro d hd
      obtain rfl := Option.some.inj hd
      exact hblank)).append hlist
    simpa [written, words, hne, Keyword.spelling] using hcuts

theorem cuts_enclosed (kind : ComprehensionKind) (text : String) {ws : List Word}
    (h : ∀ rest, Gap rest → Cuts text.toList ws rest) (rest : List Char) :
    Cuts (enclosed kind text).toList (opWord (opening kind) :: (ws ++ [opWord (closing kind)])) rest := by
  cases kind with
  | list =>
    rw [enclosed, String.toList_append, String.toList_append]
    exact Cuts.brackets (h _ (gap_cons (by decide) rest))
  | generator =>
    rw [enclosed, String.toList_append, String.toList_append]
    exact Cuts.parens (h _ (gap_cons (by decide) rest))
  | set | dict =>
    rw [enclosed, braced, String.toList_append, String.toList_append]
    exact Cuts.braces (h _ (gap_cons (by decide) rest))

theorem cuts_named (s : Span) (hl : l.Cut) (hr : r.Cut) (rest : List Char) :
    Cuts (named s l r).written.toList (named s l r).words rest := by
  have hvalue := (cuts_spacedSign (o := .walrus) nofun (hr.notBlank (')' :: rest))).append
    (hr.inGap (gap_cons (by decide) _))
  have hcuts := Cuts.parens ((hl.inGap (gap_cons (by decide) _)).append hvalue)
  simpa [written, words, Operator.symbol] using hcuts

theorem cuts_yield (s : Span) (h : e.Cut) (delegates : Bool) (rest : List Char) :
    Cuts (yield s (some e) delegates).written.toList (yield s (some e) delegates).words rest := by
  have hvalue := h.inGap (gap_cons (d := ')') (by decide) rest)
  have hblank := h.notBlank (')' :: rest)
  cases delegates with
  | true =>
    have hfrom := (cuts_twoWords .kwYield .kwFrom (Lexeme.edge_cons (by decide) _)).append (Cuts.blank hblank)
    have hcuts := Cuts.parens (hfrom.append hvalue)
    simpa [written, words, Keyword.spelling] using hcuts
  | false =>
    have hcuts := Cuts.parens ((cuts_wordBlank .kwYield hblank).append hvalue)
    simpa [written, words, Keyword.spelling] using hcuts

theorem cuts_yieldNothing (s : Span) (delegates : Bool) (rest : List Char) :
    Cuts (yield s none delegates).written.toList (yield s none delegates).words rest := by
  rw [written, words]
  exact Cuts.parens (cuts_keyword .kwYield (Lexeme.edge_cons (by decide) rest))

end Nodes

/-! ## Parts of lists -/

section Parts

variable {e l r : Expr} {rest : List Char}

theorem Cut.ne_assign (h : e.Cut) (rest : List Char) : ∀ d ∈ (e.written.toList ++ rest).head?, d ≠ '=' := by
  rintro d hd rfl
  exact absurd (h.head? rest _ hd) (by decide)

theorem item_marked {o : Operator} (ho : o ≠ .dot) (h : e.Cut) (hpoint : Lexeme.extendedBy o '.' = false)
    (hstar : e.beginsWith (.op .star) = true → Lexeme.extendedBy o '*' = false) {text : String}
    (htext : text.toList = o.symbol ++ e.written.toList) : Item text (opWord o :: e.words) := by
  refine ⟨?_, fun rest hrest => ?_⟩
  · obtain ⟨c, cs, hsymbol, hc⟩ : ∃ c cs, o.symbol = c :: cs ∧ Lexeme.isLineBlank c = false := by
      cases o <;> exact ⟨_, _, rfl, by decide⟩
    exact ⟨c, cs ++ e.written.toList, by rw [htext, hsymbol, List.cons_append], hc⟩
  · rw [htext]
    exact h.after ho hpoint hstar hrest

theorem item_keyword {label : String} (hlabel : IsName label) (h : e.Cut) :
    Item (label ++ "=" ++ e.written) ((.name, label) :: opWord .assign :: e.words) := by
  refine ⟨?_, fun rest hrest => ?_⟩
  · obtain ⟨c, cs, htext, hopen⟩ := hlabel.opens
    exact ⟨c, cs ++ '=' :: e.written.toList, by simp [htext],
      isLineBlank_of_opensWritten (opensWritten_of_opensName hopen)⟩
  · have hvalue := h.after (o := .assign) nofun (by decide) (fun _ => by decide) hrest
    have hcuts := (cuts_name hlabel (Lexeme.edge_cons (by decide) _)).append hvalue
    simpa [Operator.symbol] using hcuts

theorem item_pair (hl : l.Cut) (hr : r.Cut) :
    Item (l.written ++ ": " ++ r.written) (l.words ++ opWord .colon :: r.words) := hl.item.pair hr.item

theorem cuts_option {o : Option Expr} (h : ∀ e ∈ o, e.Cut) (hrest : Gap rest) :
    Cuts (writtenOption o).toList (wordsOption o) rest := by
  cases o with
  | none => exact Cuts.nil rest
  | some e => exact (h e rfl).inGap hrest

theorem cuts_step {o : Option Expr} (h : ∀ e ∈ o, e.Cut) (hrest : Gap rest) :
    Cuts (writtenStep o).toList (wordsStep o) rest := by
  cases o with
  | none => exact Cuts.nil rest
  | some e =>
    rw [writtenStep, String.toList_append]
    exact (h e rfl).after (o := .colon) nofun (by decide) (fun _ => by decide) hrest

theorem gap_step (o : Option Expr) (hrest : Gap rest) : Gap ((writtenStep o).toList ++ rest) := by
  cases o with
  | none => exact hrest
  | some e =>
    rw [writtenStep, String.toList_append]
    exact gap_cons (d := ':') (by decide) _

theorem item_slice (s : Span) {lower upper step : Option Expr} (hlower : ∀ e ∈ lower, e.Cut)
    (hupper : ∀ e ∈ upper, e.Cut) (hstep : ∀ e ∈ step, e.Cut) :
    Item (slice s lower upper step).written (slice s lower upper step).words := by
  have htext : (slice s lower upper step).written.toList =
      (writtenOption lower).toList ++ (':' :: ((writtenOption upper).toList ++ (writtenStep step).toList)) := by
    simp [written]
  refine ⟨?_, fun rest hrest => ?_⟩
  · cases lower with
    | none => exact ⟨_, _, htext, by decide⟩
    | some e =>
      obtain ⟨c, cs, he, hc⟩ := (hlower e rfl).item.first
      exact ⟨c, cs ++ _, htext.trans (by rw [writtenOption, he, List.cons_append]), hc⟩
  · have hupper' := (cuts_option hupper (gap_step step hrest)).append (cuts_step hstep hrest)
    have hcolon : Cuts [':'] [opWord .colon]
        ((writtenOption upper).toList ++ (writtenStep step).toList ++ rest) := by
      refine cuts_colon ?_
      rw [List.append_assoc]
      cases upper with
      | none => exact fun d hd => (gap_step step hrest d hd).2.2
      | some e => exact (hupper e rfl).ne_assign _
    have hlower' := cuts_option hlower (gap_cons (d := ':') (by decide)
      ((writtenOption upper).toList ++ (writtenStep step).toList ++ rest))
    have hcuts := hlower'.append (hcolon.append hupper')
    rw [htext, words]
    exact hcuts

theorem gap_conditions (es : List Expr) (hrest : Gap rest) : Gap ((writtenConditions es).toList ++ rest) := by
  cases es with
  | nil => exact hrest
  | cons e es =>
    have htext : (writtenConditions (e :: es)).toList =
        ' ' :: ("if ".toList ++ (e.written.toList ++ (writtenConditions es).toList)) := by simp [writtenConditions]
    rw [htext]
    exact gap_cons (by decide) _

theorem gap_clauses (cs : List Clause) (hrest : Gap rest) : Gap ((writtenClauses cs).toList ++ rest) := by
  cases cs with
  | nil => exact hrest
  | cons c cs =>
    obtain ⟨target, iter, conditions, isAsync⟩ := c
    obtain ⟨more, htext⟩ : ∃ more, (writtenClauses (.mk target iter conditions isAsync :: cs)).toList =
        ' ' :: more := by
      cases isAsync <;> exact ⟨_, by simp [writtenClauses]; rfl⟩
    rw [htext]
    exact gap_cons (by decide) _

theorem cuts_conditions_cons {es : List Expr} (h : e.Cut) (hrest : Gap rest)
    (hes : Cuts (writtenConditions es).toList (wordsConditions es) rest) :
    Cuts (writtenConditions (e :: es)).toList (wordsConditions (e :: es)) rest := by
  have hcuts := h.between (fun _ => cuts_spacedWord .kwIf) (gap_conditions es hrest) hes
  simpa [writtenConditions, wordsConditions, Keyword.spelling] using hcuts

theorem cuts_clauses_cons (isAsync : Bool) {es : List Expr} {cs : List Clause} (hl : l.Cut) (hr : r.Cut)
    (hrest : Gap rest)
    (hes : ∀ rest, Gap rest → Cuts (writtenConditions es).toList (wordsConditions es) rest)
    (hcs : Cuts (writtenClauses cs).toList (wordsClauses cs) rest) :
    Cuts (writtenClauses (.mk l r es isAsync :: cs)).toList (wordsClauses (.mk l r es isAsync :: cs)) rest := by
  have hmore := gap_clauses cs hrest
  have hconditions := (hes _ hmore).append hcs
  have hgap : Gap ((writtenConditions es).toList ++ (writtenClauses cs).toList ++ rest) := by
    rw [List.append_assoc]
    exact gap_conditions es hmore
  have hin := hr.between (fun _ => cuts_spacedWord .kwIn) hgap hconditions
  cases isAsync with
  | true =>
    have hfor (rest : List Char) (h : ∀ d ∈ rest.head?, Lexeme.isLineBlank d = false) :
        Cuts (' ' :: ((Keyword.kwAsync.spelling.toList ++ ' ' :: Keyword.kwFor.spelling.toList) ++ [' ']))
          [keyWord .kwAsync, keyWord .kwFor] rest :=
      Cuts.spaced (cuts_twoWords .kwAsync .kwFor (Lexeme.edge_cons (by decide) rest)) (of_head? rfl) h
    have hcuts := hl.between hfor (gap_cons (by decide) _) hin
    simpa [writtenClauses, wordsClauses, Keyword.spelling] using hcuts
  | false =>
    have hcuts := hl.between (fun _ => cuts_spacedWord .kwFor) (gap_cons (by decide) _) hin
    simpa [writtenClauses, wordsClauses, Keyword.spelling] using hcuts

theorem cuts_mark (kind : ParameterKind) {id : String} (hid : IsName id) (rest : List Char) :
    Cuts (Parameter.mark kind).toList (parameterMark kind) (id.toList ++ rest) := by
  have hsign {o : Operator} (ho : o ≠ .dot) : Cuts o.symbol [opWord o] (id.toList ++ rest) := by
    obtain ⟨c, cs, htext, hopen⟩ := hid.opens
    rw [htext]
    refine cuts_sign ho fun d hd => ?_
    obtain rfl := Option.some.inj hd
    exact not_mem_extenders hopen
  cases kind with
  | variadic => exact hsign (o := .star) nofun
  | variadicKeywords => exact hsign (o := .doubleStar) nofun
  | _ => exact Cuts.nil _

/-- The default of a parameter. -/
def writtenStandard : Option Expr → List Char
  | none => []
  | some e => '=' :: e.written.toList

def wordsStandard : Option Expr → List Word
  | none => []
  | some e => opWord .assign :: e.words

theorem item_parameter (kind : ParameterKind) {id : String} (hid : IsName id) {standard : Option Expr}
    (h : ∀ e ∈ standard, e.Cut) {text : String}
    (htext : text.toList = (Parameter.mark kind).toList ++ (id.toList ++ writtenStandard standard)) :
    Item text (parameterMark kind ++ (.name, id) :: wordsStandard standard) := by
  refine ⟨?_, fun rest hrest => ?_⟩
  · obtain ⟨c, cs, hname, hopen⟩ := hid.opens
    have hc := isLineBlank_of_opensWritten (opensWritten_of_opensName hopen)
    rw [htext, hname]
    cases kind with
    | variadic => exact ⟨'*', _, rfl, by decide⟩
    | variadicKeywords => exact ⟨'*', _, rfl, by decide⟩
    | _ => exact ⟨c, _, rfl, hc⟩
  · have hstandard : Cuts (writtenStandard standard) (wordsStandard standard) rest := by
      cases standard with
      | none => exact Cuts.nil rest
      | some e => exact (h e rfl).after (o := .assign) nofun (by decide) (fun _ => by decide) hrest
    have hedge : Edge (writtenStandard standard ++ rest) := by
      cases standard with
      | none => exact hrest.edge
      | some e => exact Lexeme.edge_cons (by decide) _
    have hcuts := (cuts_name hid hedge).append hstandard
    rw [htext]
    refine (Cuts.append ?_ hcuts)
    rw [List.append_assoc]
    exact cuts_mark kind hid _

end Parts

end Expr

end TypeWatch
