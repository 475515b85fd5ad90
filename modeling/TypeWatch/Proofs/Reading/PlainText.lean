import TypeWatch.Proofs.Reading.RoundTrip
import TypeWatch.Proofs.Token.Clean

/-! # Expressions with clean written forms

Only a plain expression has a clean written form (`plain_of_clean`): any other one has a number, a reserved word
or a sign in it where nothing but plain expressions stands before. -/
namespace TypeWatch
set_option autoImplicit false

open Lexeme (Edge)

namespace Expr

/-! ## Parts of clean texts -/

/-- An expression that is plain if it stands before an edge in a clean text, what follows it being clean. -/
def Told (e : Expr) : Prop := ∀ rest, Edge rest → Clean (e.written.toList ++ rest) → e.isPlain = true ∧ Clean rest

section Parts

variable {cs rest : List Char}

theorem told {e : Expr} (hs : e.Spelled)
    (h : ∀ rest, Edge rest → Clean (e.written.toList ++ rest) → e.isPlain = true) : e.Told := by
  intro rest hrest hclean
  have he := h rest hrest hclean
  have hcut := cut_of_isTight e hs (isTight_of_isPlain e he)
  have hfollow : e.Follow rest :=
    ⟨hrest, fun hnumber => absurd ((isNumber_of_isPlain he).symm.trans (hnumber (tail_of_isPlain he))) (by rintro ⟨⟩)⟩
  exact ⟨he, ((hcut.cuts rest hfollow).clean hclean).2⟩

/-- What follows a bracket or a comma. -/
theorem clean_single {o : Operator} {c : Char} (hc : o.symbol = [c]) (ho : o ∈ [Operator.openParen, .closeParen,
    .openBracket, .closeBracket, .openBrace, .closeBrace, .comma]) (h : Clean (c :: rest)) : Clean rest := by
  have hcuts := cuts_single ho rest
  rw [hc] at hcuts
  exact (hcuts.clean h).2

theorem clean_paren (h : Clean ('(' :: rest)) : Clean rest := clean_single (o := .openParen) rfl (by decide) h

theorem clean_bracket (h : Clean ('[' :: rest)) : Clean rest := clean_single (o := .openBracket) rfl (by decide) h

theorem clean_comma (h : Clean (',' :: rest)) : Clean rest := clean_single (o := .comma) rfl (by decide) h

/-- A text in which something that is not clean follows an expression. -/
theorem not_clean_after {l : Expr} (hl : l.Told) (htext : cs = l.written.toList ++ rest) (hrest : Edge rest)
    (hno : ¬Clean rest) : ¬Clean cs := by
  rw [htext]
  exact fun h => hno (hl rest hrest h).2

theorem not_clean_signed {c : Char} (htext : cs = c :: rest) (hc : c ∈ signs) : ¬Clean cs := by
  rw [htext]
  exact not_clean_sign hc rest

theorem not_clean_word {k : Keyword} (htext : cs = k.spelling.toList ++ rest)
    (hk : (TokenKind.word k).isPlain = false) (hrest : Edge rest) : ¬Clean cs := by
  rw [htext]
  exact not_clean_keyword hk hrest

/-- A reserved word between blanks. -/
theorem not_clean_spacedWord {k : Keyword} (hk : (TokenKind.word k).isPlain = false) (rest : List Char) :
    ¬Clean (' ' :: (k.spelling.toList ++ ' ' :: rest)) :=
  fun h => not_clean_keyword hk (Lexeme.edge_cons (by decide) rest) h.of_blank

theorem not_clean_binary (op : BinaryOp) (rest : List Char) :
    ¬Clean (' ' :: (op.symbol.toList ++ ' ' :: rest)) := by
  have hword {k : Keyword} (hk : (TokenKind.word k).isPlain = false) (more : List Char) :
      ¬Clean (' ' :: (k.spelling.toList ++ ' ' :: more)) := not_clean_spacedWord hk more
  intro h
  cases op
  case or => exact hword (k := .kwOr) rfl _ h
  case and => exact hword (k := .kwAnd) rfl _ h
  case isIn => exact hword (k := .kwIn) rfl _ h
  case notIn => exact hword (k := .kwNot) rfl _ h
  case same => exact hword (k := .kwIs) rfl _ h
  case notSame => exact hword (k := .kwIs) rfl _ h
  all_goals exact not_clean_sign (by decide) _ h.of_blank

/-- The loops of a comprehension begin with a reserved word after a blank. -/
theorem first_clauses {loops : List Clause} (hsome : loops ≠ []) : ∃ more,
    (writtenClauses loops).toList = ' ' :: more ∧ ∀ rest, ¬Clean (' ' :: (more ++ rest)) := by
  obtain ⟨⟨target, iter, conditions, isAsync⟩, loops, rfl⟩ := List.exists_cons_of_ne_nil hsome
  cases isAsync with
  | true =>
    obtain ⟨more, htext⟩ : ∃ more, (writtenClauses (.mk target iter conditions true :: loops)).toList =
        ' ' :: (Keyword.kwAsync.spelling.toList ++ ' ' :: more) :=
      ⟨_, by simp [writtenClauses, Keyword.spelling]; rfl⟩
    exact ⟨_, htext, fun rest => not_clean_spacedWord (k := .kwAsync) rfl (more ++ rest)⟩
  | false =>
    obtain ⟨more, htext⟩ : ∃ more, (writtenClauses (.mk target iter conditions false :: loops)).toList =
        ' ' :: (Keyword.kwFor.spelling.toList ++ ' ' :: more) :=
      ⟨_, by simp [writtenClauses, Keyword.spelling]; rfl⟩
    exact ⟨_, htext, fun rest => not_clean_spacedWord (k := .kwFor) rfl (more ++ rest)⟩

/-- Expressions that follow others, each after a comma. -/
def ToldThen (es : List Expr) : Prop :=
  ∀ rest, Edge rest → Clean (((writtenList es).flatMap fun t => ',' :: ' ' :: t.toList) ++ rest) →
    plainList es = true

theorem edge_commaThen (es : List Expr) (hrest : Edge rest) :
    Edge (((writtenList es).flatMap fun t => ',' :: ' ' :: t.toList) ++ rest) := by
  cases es with
  | nil => exact hrest
  | cons e es =>
    simp only [writtenList, List.flatMap_cons, List.cons_append]
    exact Lexeme.edge_cons (by decide) _

/-- Expressions between commas. -/
theorem plain_of_commaSeparated {e : Expr} {es : List Expr} (he : e.Told) (hes : ToldThen es) (hrest : Edge rest)
    (h : Clean ((commaSeparated (writtenList (e :: es))).toList ++ rest)) : plainList (e :: es) = true := by
  rw [writtenList, toList_commaSeparated, List.append_assoc] at h
  obtain ⟨hplain, hclean⟩ := he _ (edge_commaThen es hrest) h
  rw [plainList, hplain, hes rest hrest hclean]
  rfl

/-- One expression before a comma. -/
theorem plain_of_comma {e : Expr} (he : e.Told) (h : Clean (e.written.toList ++ ',' :: rest)) :
    plainList [e] = true := by
  rw [plainList, (he _ (Lexeme.edge_cons (by decide) rest) h).1]
  rfl

theorem plain_of_parenthesized {e : Expr} {es : List Expr} (he : e.Told) (hes : ToldThen es)
    (h : Clean ((parenthesized (writtenList (e :: es))).toList ++ rest)) : plainList (e :: es) = true := by
  cases es with
  | nil =>
    have hinner : Clean (e.written.toList ++ ',' :: ')' :: rest) :=
      clean_paren (by simpa [parenthesized, writtenList] using h)
    exact plain_of_comma he hinner
  | cons f es =>
    refine plain_of_commaSeparated he hes (Lexeme.edge_cons (d := ')') (by decide) rest) (clean_paren ?_)
    simpa [parenthesized, writtenList] using h

theorem plain_of_unparenthesized {e : Expr} {es : List Expr} (he : e.Told) (hes : ToldThen es)
    (h : Clean ((unparenthesized (writtenList (e :: es))).toList ++ ']' :: rest)) : plainList (e :: es) = true := by
  cases es with
  | nil =>
    have hinner : Clean (e.written.toList ++ ',' :: ']' :: rest) := by
      simpa [unparenthesized, writtenList] using h
    exact plain_of_comma he hinner
  | cons f es =>
    refine plain_of_commaSeparated he hes (Lexeme.edge_cons (d := ']') (by decide) rest) ?_
    simpa [unparenthesized, writtenList] using h

theorem plain_of_subscript {value index : Expr} {s : Span} (hvalue : value.Told) {text : String}
    (hwritten : (subscript s value index).written = value.written ++ "[" ++ text ++ "]")
    (hindex : Clean (text.toList ++ ']' :: rest) → index.isPlain = true)
    (h : Clean ((subscript s value index).written.toList ++ rest)) : (subscript s value index).isPlain = true := by
  have htext : (subscript s value index).written.toList ++ rest =
      value.written.toList ++ ('[' :: (text.toList ++ ']' :: rest)) := by simp [hwritten]
  rw [htext] at h
  obtain ⟨hplain, hclean⟩ := hvalue _ (Lexeme.edge_cons (by decide) _) h
  rw [isPlain, hplain, hindex (clean_bracket hclean)]
  rfl

/-- A word or a colon follows the first element of a comprehension. -/
theorem not_clean_comprehension (s : Span) (kind : ComprehensionKind) {element : Expr} (value : Option Expr)
    {loops : List Clause} (he : element.Told) (hsome : loops ≠ []) (rest : List Char) :
    ¬Clean ((comprehension s kind element value loops).written.toList ++ rest) := by
  obtain ⟨inner, more, hwritten, hinner, hedge, hno⟩ : ∃ (inner : String) (more : List Char),
      (comprehension s kind element value loops).written = enclosed kind inner ∧
        inner.toList = element.written.toList ++ more ∧ (∀ rest, Edge (more ++ rest)) ∧
        ∀ rest, ¬Clean (more ++ rest) := by
    cases value with
    | none =>
      obtain ⟨more, htext, hno⟩ := first_clauses hsome
      refine ⟨_, ' ' :: more, by rw [written], by rw [String.toList_append, htext], ?_, hno⟩
      exact fun rest => Lexeme.edge_cons (by decide) _
    | some e =>
      refine ⟨_, ':' :: ' ' :: (e.written.toList ++ (writtenClauses loops).toList), by rw [written],
        by simp, fun rest => Lexeme.edge_cons (by decide) _, fun rest => not_clean_sign (by decide) _⟩
  rw [hwritten]
  cases kind with
  | set | dict => exact not_clean_signed (c := '\x7b') (by simp [enclosed, braced]; rfl) (by decide)
  | list =>
    have htext : (enclosed .list inner).toList ++ rest = '[' :: (element.written.toList ++ (more ++ ']' :: rest)) := by
      simp [enclosed, hinner]
    rw [htext]
    exact fun h => not_clean_after he rfl (hedge _) (hno _) (clean_bracket h)
  | generator =>
    have htext : (enclosed .generator inner).toList ++ rest =
        '(' :: (element.written.toList ++ (more ++ ')' :: rest)) := by
      simp [enclosed, hinner]
    rw [htext]
    exact fun h => not_clean_after he rfl (hedge _) (hno _) (clean_paren h)

/-- The sign of an assignment follows the name of an argument. -/
theorem not_clean_labelled (s : Span) (value : Expr) {label : String} (hlabel : IsName label)
    (rest : List Char) : ¬Clean ((keyword s (some label) value).written.toList ++ rest) := by
  have htext : (keyword s (some label) value).written.toList ++ rest =
      label.toList ++ ('=' :: (value.written.toList ++ rest)) := by simp [written]
  have hcuts := cuts_name hlabel (Lexeme.edge_cons (d := '=') (by decide) (value.written.toList ++ rest))
  rw [htext]
  exact fun h => not_clean_sign (by decide) _ (hcuts.clean h).2

theorem not_clean_unary (s : Span) (op : UnaryOp) (operand : Expr) (rest : List Char) :
    ¬Clean ((unary s op operand).written.toList ++ rest) := by
  cases op with
  | not =>
    have hedge (more : List Char) : Edge (' ' :: more) := Lexeme.edge_cons (by decide) more
    exact not_clean_word (k := .kwNot) (by simp [written, UnaryOp.lead]; rfl) rfl (hedge _)
  | negate => exact not_clean_signed (c := '-') (by simp [written, UnaryOp.lead, UnaryOp.symbol]; rfl) (by decide)
  | keep => exact not_clean_signed (c := '+') (by simp [written, UnaryOp.lead, UnaryOp.symbol]; rfl) (by decide)
  | invert => exact not_clean_signed (c := '~') (by simp [written, UnaryOp.lead, UnaryOp.symbol]; rfl) (by decide)

theorem not_clean_lambda (s : Span) (parameters : List Parameter) (body : Expr) (rest : List Char) :
    ¬Clean ((lambda s parameters body).written.toList ++ rest) := by
  obtain ⟨more, htext, hedge⟩ : ∃ more, (lambda s parameters body).written.toList ++ rest =
      Keyword.kwLambda.spelling.toList ++ more ∧ Edge more := by
    rw [written]
    split
    · exact ⟨_, by simp [Keyword.spelling]; rfl, Lexeme.edge_cons (d := ':') (by decide) _⟩
    · exact ⟨_, by simp [Keyword.spelling]; rfl, Lexeme.edge_cons (d := ' ') (by decide) _⟩
  exact not_clean_word htext rfl hedge

theorem not_clean_named (s : Span) {target : Expr} (htarget : target.Told) (value : Expr) (rest : List Char) :
    ¬Clean ((named s target value).written.toList ++ rest) := by
  have htext : (named s target value).written.toList ++ rest =
      '(' :: (target.written.toList ++ (' ' :: ':' :: '=' :: ' ' :: (value.written.toList ++ ')' :: rest))) := by
    simp [written]
  have hsign (more : List Char) : ¬Clean (' ' :: ':' :: more) := fun h => not_clean_sign (by decide) _ h.of_blank
  rw [htext]
  exact fun h => not_clean_after htarget rfl (Lexeme.edge_cons (by decide) _) (hsign _) (clean_paren h)

theorem not_clean_yield (s : Span) (value : Option Expr) (delegates : Bool) (rest : List Char) :
    ¬Clean ((yield s value delegates).written.toList ++ rest) := by
  obtain ⟨more, htext, hedge⟩ : ∃ more, (yield s value delegates).written.toList ++ rest =
      '(' :: (Keyword.kwYield.spelling.toList ++ more) ∧ Edge more := by
    cases value with
    | none => exact ⟨_, by simp [written, Keyword.spelling]; rfl, Lexeme.edge_cons (d := ')') (by decide) _⟩
    | some e =>
      cases delegates <;>
        exact ⟨_, by simp [written, Keyword.spelling]; rfl, Lexeme.edge_cons (d := ' ') (by decide) _⟩
  rw [htext]
  exact fun h => not_clean_word rfl rfl hedge (clean_paren h)

end Parts

/-! ## Expressions -/

mutual

theorem plain_of_clean : ∀ e : Expr, e.Spelled → ∀ rest, Edge rest → Clean (e.written.toList ++ rest) →
    e.isPlain = true
  | name _ _, _, _, _, _ => rfl
  | constant s value, hs, rest, _, h => by
    cases value with
    | number literal =>
      rw [Spelled] at hs
      exact absurd h (not_clean_number hs rest)
    | _ => rfl
  | member s value attr, hs, rest, _, h => by
    rw [Spelled] at hs
    have htext : (member s value attr).written.toList ++ rest =
        value.written.toList ++ ('.' :: (attr.toList ++ rest)) := by simp [written]
    rw [htext] at h
    rw [isPlain]
    exact plain_of_clean value hs.1 _ (Lexeme.edge_cons (by decide) _) h
  | subscript s value index, hs, rest, _, h => by
    rw [Spelled] at hs
    have hvalue := told hs.1 (plain_of_clean value hs.1)
    cases index with
    | tuple s' elements =>
      refine plain_of_subscript hvalue (by rw [written]) (fun hclean => ?_) h
      cases elements with
      | nil => rfl
      | cons e es =>
        rw [Spelled, spelledList] at hs
        exact plain_of_unparenthesized (told hs.2.1 (plain_of_clean e hs.2.1)) (plainThen_of_clean es hs.2.2) hclean
    | _ => exact plain_of_subscript hvalue rfl (plain_of_clean _ hs.2 _ (Lexeme.edge_cons (by decide) rest)) h
  | slice s none upper step, _, rest, _, h =>
    absurd h (not_clean_signed (c := ':') (by simp [written, writtenOption]; rfl) (by decide))
  | slice s (some e) upper step, hs, rest, _, h => by
    simp only [Spelled, spelledOption] at hs
    have he := told hs.1 (plain_of_clean e hs.1)
    exact absurd h (not_clean_after he (by simp only [written, writtenOption, String.toList_append, List.append_assoc]; rfl) (Lexeme.edge_cons (by decide) _)
      (not_clean_sign (by decide) _))
  | tuple s [], _, _, _, _ => rfl
  | tuple s (e :: es), hs, rest, _, h => by
    rw [Spelled, spelledList] at hs
    rw [written] at h
    exact plain_of_parenthesized (told hs.1 (plain_of_clean e hs.1)) (plainThen_of_clean es hs.2) h
  | list s [], _, _, _, _ => rfl
  | list s (e :: es), hs, rest, _, h => by
    rw [Spelled, spelledList] at hs
    refine plain_of_commaSeparated (told hs.1 (plain_of_clean e hs.1)) (plainThen_of_clean es hs.2)
      (Lexeme.edge_cons (d := ']') (by decide) rest) (clean_bracket ?_)
    simpa [written] using h
  | set s elements, _, rest, _, h =>
    absurd h (not_clean_signed (c := '{') (by simp [written, braced]; rfl) (by decide))
  | dict s entries, _, rest, _, h =>
    absurd h (not_clean_signed (c := '{') (by simp [written, braced]; rfl) (by decide))
  | call s callee [], hs, rest, _, h => by
    rw [Spelled] at hs
    have htext : (call s callee []).written.toList ++ rest = callee.written.toList ++ ('(' :: ')' :: rest) := by
      simp [written, writtenList, commaSeparated]
    rw [htext] at h
    rw [isPlain, plain_of_clean callee hs.1 _ (Lexeme.edge_cons (by decide) _) h]
    rfl
  | call s callee (e :: es), hs, rest, _, h => by
    rw [Spelled, spelledList] at hs
    have htext : (call s callee (e :: es)).written.toList ++ rest = callee.written.toList ++
        ('(' :: ((commaSeparated (writtenList (e :: es))).toList ++ ')' :: rest)) := by simp [written]
    rw [htext] at h
    obtain ⟨hplain, hclean⟩ := told hs.1 (plain_of_clean callee hs.1) _ (Lexeme.edge_cons (by decide) _) h
    rw [isPlain, hplain, plain_of_commaSeparated (told hs.2.1 (plain_of_clean e hs.2.1))
      (plainThen_of_clean es hs.2.2) (Lexeme.edge_cons (by decide) rest) (clean_paren hclean)]
    rfl
  | keyword s none value, _, rest, _, h =>
    absurd h (not_clean_signed (c := '*') (by simp [written, unpacked]; rfl) (by decide))
  | keyword s (some label) value, hs, rest, _, h => by
    rw [Spelled] at hs
    exact absurd h (not_clean_labelled s value (hs.1 label rfl) rest)
  | starred s value, _, rest, _, h =>
    absurd h (not_clean_signed (c := '*') (by simp [written]; rfl) (by decide))
  | binary s left op right, hs, rest, _, h => by
    rw [Spelled] at hs
    have hleft := told hs.1 (plain_of_clean left hs.1)
    exact absurd h (not_clean_after hleft (by simp [written]; rfl) (Lexeme.edge_cons (by decide) _)
      (not_clean_binary op _))
  | unary s op operand, _, rest, _, h => absurd h (not_clean_unary s op operand rest)
  | lambda s parameters body, _, rest, _, h => absurd h (not_clean_lambda s parameters body rest)
  | conditional s test body orelse, hs, rest, _, h => by
    rw [Spelled] at hs
    have hbody := told hs.2.1 (plain_of_clean body hs.2.1)
    exact absurd h (not_clean_after hbody (by simp [written]; rfl) (Lexeme.edge_cons (by decide) _)
      (not_clean_spacedWord (k := .kwIf) rfl _))
  | comprehension s kind element value clauses, hs, rest, _, h => by
    rw [Spelled] at hs
    exact absurd h (not_clean_comprehension s kind value (told hs.1 (plain_of_clean element hs.1)) hs.2.2.1 rest)
  | named s target value, hs, rest, _, h => by
    rw [Spelled] at hs
    exact absurd h (not_clean_named s (told hs.1 (plain_of_clean target hs.1)) value rest)
  | await s value, _, rest, _, h =>
    absurd h (not_clean_word (k := .kwAwait) (by simp [written]; rfl) rfl (Lexeme.edge_cons (d := ' ') (by decide) _))
  | yield s value delegates, _, rest, _, h => absurd h (not_clean_yield s value delegates rest)

theorem plainThen_of_clean : ∀ es : List Expr, spelledList es → ToldThen es
  | [], _, _, _, _ => rfl
  | e :: es, hs, rest, hrest, h => by
    rw [spelledList] at hs
    simp only [writtenList, List.flatMap_cons, List.cons_append, List.append_assoc] at h
    obtain ⟨hplain, hclean⟩ := told hs.1 (plain_of_clean e hs.1) _ (edge_commaThen es hrest) (clean_comma h).of_blank
    rw [plainList, hplain, plainThen_of_clean es hs.2 rest hrest hclean]
    rfl

end

end Expr

end TypeWatch
