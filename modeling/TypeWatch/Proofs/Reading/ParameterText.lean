import TypeWatch.Proofs.Reading.Parameter
import TypeWatch.Proofs.Syntax.WrittenWords

/-! # Entries of parameter lists as text

An entry whose expressions stand within one line is written with a colon before its annotation and a sign of equality
between blanks before its default. Its text is cut into its words wherever another entry or the end of the list follows
(`Slot.cuts_text`), if none of the expressions leaves quotes open. -/
namespace TypeWatch.Reading
set_option autoImplicit false

/-! ## Expressions -/

theorem parted_of_gap {rest : List Char} (h : Gap rest) : Lexeme.Parted rest := by
  have hall : ∀ d ∈ Lexeme.edges, d ≠ '.' ∧ d ≠ '=' → d ∈ Lexeme.parting := Lexeme.forall_of_all (by decide)
  exact fun d hd => hall d (h d hd).1 (h d hd).2

/-- The words of a single expression are those of its text, which begins with one of them. -/
theorem Single.pieces (s : Single) (hline : Text.isInLine s.text = true) :
    s.words = wordsOf s.text ∧ ∃ c cs, PiecesOf s.text c cs := by
  obtain ⟨tokens, htokens, hreads⟩ := exists_of_bind_ok s.reads
  obtain ⟨a, ha, -⟩ := expr_of_ofTokens hreads s.noList
  have hne := trimmed_ne_nil htokens ha
  refine ⟨?_, exists_pieces hline htokens hne⟩
  obtain ⟨_, htokens', hwords⟩ := s.written.tokens
  obtain rfl := Except.ok.inj (htokens.symm.trans htokens')
  exact List.append_cancel_right (hwords.symm.trans (lineWords_of_tokenize hline htokens hne).2)

/-- An expression without the white space around it. -/
def Single.inner (s : Single) : String := Text.trimmed s.text

/-- What is left of a text without the white space around it is cut into the words of the expression. -/
theorem Single.cuts_inner (s : Single) (hline : Text.isInLine s.text = true) :
    ∃ c cs, s.inner.toList = c :: cs ∧ Lexeme.isLineBlank c = false ∧ ∀ rest, Gap rest →
      Text.closesQuotes s.text ∨ rest = [] → Cuts s.inner.toList s.words rest := by
  obtain ⟨hwords, c, cs, hpieces⟩ := s.pieces hline
  refine ⟨c, cs, hpieces.trimmed, Lexeme.isLineBlank_of_startsToken hpieces.starts, fun rest hrest hquotes => ?_⟩
  rw [hwords, Single.inner, hpieces.trimmed]
  apply hpieces.cuts (parted_of_gap hrest)
  exact hquotes.imp_right fun hnil => by simp [hnil]

theorem Single.item {s : Single} (h : s.InLine) : Item s.inner s.words := by
  obtain ⟨c, cs, hchars, hc, hcuts⟩ := s.cuts_inner h.line
  exact ⟨⟨c, cs, hchars, hc⟩, fun rest hrest => hcuts rest hrest (Or.inl h.closes)⟩

/-! ## Entries -/

/-- A sign and the expression after it, or nothing. -/
def markedText (sign : String) : Option Listed → String
  | none => ""
  | some v => sign ++ v.inner

section Signs

variable {sign : String} {rest : List Char}

theorem gap_marked (written : Option Listed) {c : Char} {cs : List Char} (hsign : sign.toList = c :: cs)
    (hc : c ∈ Lexeme.edges ∧ c ≠ '.' ∧ c ≠ '=') (hrest : Gap rest) : Gap ((markedText sign written).toList ++ rest) := by
  cases written with
  | none => exact hrest
  | some v =>
    rw [markedText, String.toList_append, hsign]
    exact gap_cons hc _

theorem cuts_marked {mark : Operator} (hsign : ∀ {rest : List Char},
      (∀ d ∈ rest.head?, Lexeme.isLineBlank d = false) → Cuts sign.toList [opWord mark] rest) {written : Option Listed}
    (h : ∀ v ∈ written, v.toSingle.InLine) (hrest : Gap rest) :
    Cuts (markedText sign written).toList (marked mark written) rest := by
  cases written with
  | none => exact Cuts.nil rest
  | some v =>
    have hitem := Single.item (h v rfl)
    rw [markedText, String.toList_append]
    exact (hsign (hitem.head? rest)).append (hitem.cuts rest hrest)

end Signs

def Hinted.InLine (p : Hinted) : Prop := IsName p.name ∧ ∀ v ∈ p.hint, v.toSingle.InLine

def Hinted.text (p : Hinted) : String := p.name ++ markedText ": " p.hint

theorem Hinted.cuts {p : Hinted} (h : p.InLine) {rest : List Char} (hrest : Gap rest) :
    Cuts p.text.toList ((.name, p.name) :: marked .colon p.hint) rest := by
  rw [Hinted.text, String.toList_append]
  exact (cuts_name h.1 (gap_marked p.hint rfl (by decide) hrest).edge).append (cuts_marked cuts_colonBlank h.2 hrest)

theorem Hinted.opens {p : Hinted} (h : p.InLine) : ∃ c cs, p.text.toList = c :: cs ∧ Text.opensName c = true := by
  obtain ⟨c, cs, hchars, hopen⟩ := h.1.opens
  exact ⟨c, cs ++ (markedText ": " p.hint).toList, by rw [Hinted.text, String.toList_append, hchars, List.cons_append], hopen⟩

/-- A name is no part of an operator before it. -/
theorem Hinted.cuts_sign {p : Hinted} (h : p.InLine) {o : Operator} (ho : o ≠ .dot) (rest : List Char) :
    Cuts o.symbol [opWord o] (p.text.toList ++ rest) := by
  obtain ⟨c, cs, hchars, hopen⟩ := Hinted.opens h
  have hsign : ∀ d ∈ extenders, Text.opensName d = false := Lexeme.forall_of_all (by decide)
  rw [hchars]
  refine TypeWatch.cuts_sign ho fun d hd hmem => ?_
  obtain rfl := Option.some.inj hd
  cases hopen.symm.trans (hsign c hmem)

namespace Slot

/-- Whether an entry has a name, if any, that is not reserved, and expressions within one row. -/
def InLine : Slot → Prop
  | slash | star => True
  | plain p => p.toHinted.InLine ∧ ∀ v ∈ p.standard, v.toSingle.InLine
  | variadic p | variadicKeywords p => p.InLine

def text : Slot → String
  | slash => "/"
  | star => "*"
  | plain p => p.toHinted.text ++ markedText " = " p.standard
  | variadic p => "*" ++ p.text
  | variadicKeywords p => "**" ++ p.text

theorem cuts_text {s : Slot} (h : s.InLine) {rest : List Char} (hrest : Gap rest) :
    Cuts s.text.toList s.words rest := by
  have hno : ∀ d ∈ rest.head?, d ∉ extenders := by
    have hall : ∀ d ∈ Lexeme.edges, d ≠ '.' → d ≠ '=' → d ∉ extenders := Lexeme.forall_of_all (by decide)
    exact fun d hd => hall d (hrest d hd).1 (hrest d hd).2.1 (hrest d hd).2.2
  cases s with
  | slash => exact cuts_sign (o := .slash) (by decide) hno
  | star => exact cuts_sign (o := .star) (by decide) hno
  | plain p =>
    have hgap : Gap ((markedText " = " p.standard).toList ++ rest) := gap_marked p.standard rfl (by decide) hrest
    rw [text, String.toList_append]
    exact (Hinted.cuts h.1 hgap).append (cuts_marked (cuts_spacedSign (o := .assign) (by decide)) h.2 hrest)
  | variadic p =>
    rw [text, String.toList_append]
    exact (Hinted.cuts_sign h (o := .star) (by decide) rest).append (Hinted.cuts h hrest)
  | variadicKeywords p =>
    rw [text, String.toList_append]
    exact (Hinted.cuts_sign h (o := .doubleStar) (by decide) rest).append (Hinted.cuts h hrest)

theorem item_text {s : Slot} (h : s.InLine) : Item s.text s.words := by
  refine ⟨?_, fun rest hrest => cuts_text h hrest⟩
  cases s with
  | slash => exact ⟨'/', [], rfl, by decide⟩
  | star => exact ⟨'*', [], rfl, by decide⟩
  | variadic p => exact ⟨'*', p.text.toList, by rw [text, String.toList_append]; rfl, by decide⟩
  | variadicKeywords p => exact ⟨'*', '*' :: p.text.toList, by rw [text, String.toList_append]; rfl, by decide⟩
  | plain p =>
    obtain ⟨c, cs, hchars, hopen⟩ := Hinted.opens h.1
    refine ⟨c, cs ++ (markedText " = " p.standard).toList, ?_, ?_⟩
    · rw [text, String.toList_append, hchars, List.cons_append]
    · exact Lexeme.isLineBlank_of_startsToken (Lexeme.startsToken_of_opensName hopen)

end Slot

end TypeWatch.Reading
