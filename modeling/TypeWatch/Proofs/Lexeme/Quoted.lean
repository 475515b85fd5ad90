import TypeWatch.Proofs.Lexeme.Boundary
import TypeWatch.Proofs.Lexeme.Extent
import TypeWatch.Syntax.Written

/-! # String literals

A string literal is a text between two quotes, in which some characters are escaped (`Escapes`). It is cut
off where an edge follows it, and stands for the text (`literalText_inQuotes`). -/
namespace TypeWatch.Lexeme
set_option autoImplicit false

/-! ## Escapes -/

/-- Characters between quotes that stand for a text. -/
inductive Escapes (q : Char) : List Char → List Char → Prop
  | nil : Escapes q [] []
  | plain {c : Char} {cs text : List Char} : c ≠ q → c ≠ '\\' → c ≠ '\n' → c ≠ '\r' → Escapes q cs text →
      Escapes q (c :: cs) (c :: text)
  | simple {c d : Char} {cs text : List Char} : d ≠ '\n' → d ≠ 'x' → simpleEscape? d = some c → Escapes q cs text →
      Escapes q ('\\' :: d :: cs) (c :: text)
  | code {a b : Char} {cs text : List Char} : isHexDigit a = true → isHexDigit b = true → Escapes q cs text →
      Escapes q ('\\' :: 'x' :: a :: b :: cs) (Char.ofNat (16 * hexValue a + hexValue b) :: text)

theorem unescape_simple {d e : Char} (cs : List Char) (hfeed : d ≠ '\n') (hx : d ≠ 'x')
    (hd : simpleEscape? d = some e) : unescape ('\\' :: d :: cs) = e :: unescape cs := by
  rw [unescape.eq_def]
  split
  · rename_i h
    exact absurd (List.cons.inj (List.cons.inj h).2).1 hfeed
  · rename_i h
    exact absurd (List.cons.inj (List.cons.inj h).2).1 hx
  · rename_i h
    exact absurd (List.cons.inj (List.cons.inj h).2).1 hx
  · rename_i h
    obtain ⟨rfl, rfl⟩ := List.cons.inj (List.cons.inj h).2
    rw [hd]
  · rename_i hno h
    obtain ⟨hc, hcs⟩ := List.cons.inj h
    exact (hno d cs hc.symm hcs.symm).elim
  · rename_i h
    exact absurd h nofun

theorem unescape_code {a b : Char} (cs : List Char) (ha : isHexDigit a = true) (hb : isHexDigit b = true) :
    unescape ('\\' :: 'x' :: a :: b :: cs) = Char.ofNat (16 * hexValue a + hexValue b) :: unescape cs := by
  rw [unescape, if_pos ha, if_pos hb]

theorem shortBodyLength?_cons {q c : Char} (hquote : c ≠ q) (hslash : c ≠ '\\') (hfeed : c ≠ '\n') (hreturn : c ≠ '\r')
    (cs : List Char) : shortBodyLength? q (c :: cs) = (shortBodyLength? q cs).map (· + 1) := by
  rw [shortBodyLength?_unescaped hslash]
  simp [hquote, hfeed, hreturn]

/-- A digit ends no literal. -/
theorem shortBodyLength?_digit {q a : Char} (hq : isQuote q = true) (ha : isHexDigit a = true) (cs : List Char) :
    shortBodyLength? q (a :: cs) = (shortBodyLength? q cs).map (· + 1) := by
  have hne {d : Char} (hd : isHexDigit d = false) : a ≠ d := by
    rintro rfl
    exact absurd (hd.symm.trans ha) nofun
  refine shortBodyLength?_cons ?_ (hne (by decide)) (hne (by decide)) (hne (by decide)) cs
  rcases isQuote_cases hq with rfl | rfl <;> exact hne (by decide)

namespace Escapes

variable {q : Char} {cs text : List Char}

theorem shortBodyLength?_eq (h : Escapes q cs text) (hq : isQuote q = true) (rest : List Char) :
    shortBodyLength? q (cs ++ q :: rest) = some (cs.length + 1) := by
  induction h with
  | nil => rcases isQuote_cases hq with rfl | rfl <;> rfl
  | plain hquote hslash hfeed hreturn _ ih =>
    rw [List.cons_append, shortBodyLength?_cons hquote hslash hfeed hreturn, ih]
    rfl
  | simple _ _ _ _ ih =>
    rw [List.cons_append, List.cons_append, shortBodyLength?, ih]
    rfl
  | code ha hb _ ih =>
    simp only [List.cons_append]
    rw [shortBodyLength?, shortBodyLength?_digit hq ha, shortBodyLength?_digit hq hb, ih]
    rfl

theorem unescape_eq (h : Escapes q cs text) : unescape cs = text := by
  induction h with
  | nil => rfl
  | plain _ hslash _ _ _ ih =>
    rw [unescape, ih]
    all_goals intros; contradiction
  | simple hfeed hx hsimple _ ih => rw [unescape_simple _ hfeed hx hsimple, ih]
  | code ha hb _ ih => rw [unescape_code _ ha hb, ih]

/-- No quote begins the characters between quotes. -/
theorem head?_ne (h : Escapes q cs text) (hq : isQuote q = true) : cs.head? ≠ some q := by
  have hslash : '\\' ≠ q := by
    rintro rfl
    exact absurd hq (by decide)
  cases h with
  | nil => exact nofun
  | plain hquote => exact fun heq => hquote (Option.some.inj heq)
  | simple => exact fun heq => hslash (Option.some.inj heq)
  | code => exact fun heq => hslash (Option.some.inj heq)

end Escapes

/-! ## Literals -/

def inQuotes (q : Char) (cs : List Char) : List Char := q :: cs ++ [q]

section Literals

variable {q : Char} {cs text : List Char}

/-- Only the first quote opens a literal: the next two characters are not quotes, both of them. -/
theorem take_two_ne (h : Escapes q cs text) (hq : isQuote q = true) {rest : List Char} (hrest : Edge rest) :
    (cs ++ q :: rest).take 2 ≠ [q, q] := by
  have hhead := h.head?_ne hq
  cases cs with
  | nil =>
    cases rest with
    | nil => exact nofun
    | cons d rest =>
      intro heq
      simp only [List.nil_append, List.take_succ_cons, List.take_zero, List.cons.injEq, and_true,
        true_and] at heq
      have hedges : ∀ e ∈ edges, isQuote e = false := forall_of_all (by decide)
      have hedge := hedges d (hrest d rfl)
      rw [heq] at hedge
      exact absurd (hedge.symm.trans hq) nofun
  | cons b body =>
    intro heq
    exact hhead (congrArg some (List.cons.inj heq).1)

theorem quotedLength?_inQuotes (h : Escapes q cs text) (hq : isQuote q = true) {rest : List Char}
    (hrest : Edge rest) : quotedLength? (inQuotes q cs ++ rest) = some (inQuotes q cs).length := by
  have hne := take_two_ne h hq hrest
  have hbody := h.shortBodyLength?_eq hq rest
  simp only [inQuotes, List.cons_append, List.append_assoc, List.nil_append]
  simp only [quotedLength?, beq_eq_false_iff_ne.mpr hne, Bool.false_eq_true, if_false, hbody]
  simp

/-- The letters before a literal that are printed. -/
def IsMark (letters : List Char) : Prop := letters = [] ∨ letters = ['b'] ∨ letters = ['f']

theorem literalPrefix?_mark {letters : List Char} (hletters : IsMark letters) (hq : isQuote q = true)
    (cs : List Char) : literalPrefix? (letters ++ q :: cs) = some letters.length := by
  rcases isQuote_cases hq with rfl | rfl <;> rcases hletters with rfl | rfl | rfl <;>
    simp [literalPrefix?, runLength, isPrefixLetter, isQuote]

theorem startsToken_inQuotes {letters : List Char} (hletters : IsMark letters) (hq : isQuote q = true) :
    ∀ c ∈ (letters ++ inQuotes q cs).head?, startsToken c = true ∧ Text.isBlank c = false := by
  intro c hc
  rcases isQuote_cases hq with rfl | rfl <;> rcases hletters with rfl | rfl | rfl <;>
    (obtain rfl := Option.some.inj hc; decide)

/-- A string literal is cut from a text where an edge follows it. -/
theorem leading_inQuotes {letters : List Char} (hletters : IsMark letters) (h : Escapes q cs text)
    (hq : isQuote q = true) {rest : List Char} (hrest : Edge rest) {c : Char} {ds : List Char}
    (hliteral : letters ++ inQuotes q cs = c :: ds) :
    leading c (ds ++ rest) = .ok (token (literalKind letters), ds.length + 1) := by
  have hstarts := (@startsToken_inQuotes q cs letters hletters hq c (by rw [hliteral]; rfl)).1
  have hlength : letters.length + (inQuotes q cs).length = ds.length + 1 := by
    rw [← List.length_append, hliteral, List.length_cons]
  have htext : c :: (ds ++ rest) = letters ++ (inQuotes q cs ++ rest) := by
    rw [← List.cons_append, ← hliteral, List.append_assoc]
  have hprefix : literalPrefix? (letters ++ (inQuotes q cs ++ rest)) = some letters.length :=
    literalPrefix?_mark hletters hq _
  rw [leading_eq hstarts, htext, hprefix]
  simp only [List.drop_left, List.take_left, quotedLength?_inQuotes h hq hrest, hlength]

theorem unquoted_inQuotes (h : Escapes q cs text) (hq : isQuote q = true) : unquoted (inQuotes q cs) = cs := by
  have hhead := h.head?_ne hq
  unfold inQuotes unquoted
  cases cs with
  | nil => rfl
  | cons b body =>
    have hb : (b == q) = false := beq_eq_false_iff_ne.mpr fun heq => hhead (congrArg some heq)
    obtain ⟨d, ds, hd⟩ : ∃ d ds, body ++ [q] = d :: ds := List.exists_cons_of_ne_nil (by simp)
    have hcons : q :: (b :: body) ++ [q] = q :: b :: d :: ds := by rw [← hd]; rfl
    rw [hcons]
    simp only [hb, Bool.false_and, Bool.false_eq_true, if_false, List.drop_succ_cons, List.drop_zero]
    have hlength : (q :: b :: d :: ds).length - 2 * 1 = (b :: body).length := by
      simp [← hd]
    rw [hlength, ← hd, ← List.cons_append, List.take_left]

/-- A literal stands for the text that it was printed for. -/
theorem literalText_inQuotes {letters : List Char} (hletters : IsMark letters) (h : Escapes q cs text)
    (hq : isQuote q = true) : literalText (letters ++ inQuotes q cs) = text := by
  have hmarks : (letters ++ inQuotes q cs).takeWhile isPrefixLetter = letters := by
    rcases isQuote_cases hq with rfl | rfl <;> rcases hletters with rfl | rfl | rfl <;>
      simp [inQuotes, isPrefixLetter]
  have hraw : (letters.any fun c => c == 'r' || c == 'R') = false := by
    rcases hletters with rfl | rfl | rfl <;> decide
  rw [literalText, hmarks, List.drop_left, unquoted_inQuotes h hq]
  simp only [hraw, Bool.false_eq_true, if_false, h.unescape_eq]

end Literals

/-! ## Literals of expressions -/

/-- The characters of a string literal for a text. -/
def quotedChars (text : List Char) : List Char := inQuotes '\'' (text.flatMap Constant.quotedChar)

theorem toList_quoted (text : String) : (Constant.quoted text).toList = quotedChars text.toList := by
  simp [Constant.quoted, quotedChars, inQuotes]

/-- A character stands for itself in a literal, or has a backslash before it. -/
theorem quotedChar_cases (c : Char) :
    (∃ d, Constant.quotedChar c = ['\\', d] ∧ d ≠ '\n' ∧ d ≠ 'x' ∧ simpleEscape? d = some c) ∨
      (Constant.quotedChar c = [c] ∧ c ≠ '\'' ∧ c ≠ '\\' ∧ c ≠ '\n' ∧ c ≠ '\r') := by
  unfold Constant.quotedChar
  split
  · rename_i h
    exact Or.inl ⟨'\'', rfl, by decide, by decide, by rw [h]; rfl⟩
  · split
    · rename_i h
      exact Or.inl ⟨'\\', rfl, by decide, by decide, by rw [h]; rfl⟩
    · split
      · rename_i h
        exact Or.inl ⟨'n', rfl, by decide, by decide, by rw [h]; rfl⟩
      · split
        · rename_i h
          exact Or.inl ⟨'t', rfl, by decide, by decide, by rw [h]; rfl⟩
        · split
          · rename_i h
            exact Or.inl ⟨'r', rfl, by decide, by decide, by rw [h]; rfl⟩
          · exact Or.inr ⟨rfl, by assumption, by assumption, by assumption, by assumption⟩

theorem escapes_quoted (text : List Char) : Escapes '\'' (text.flatMap Constant.quotedChar) text := by
  induction text with
  | nil => exact .nil
  | cons c text ih =>
    rw [List.flatMap_cons]
    rcases quotedChar_cases c with ⟨d, hd, hfeed, hx, hsimple⟩ | ⟨hc, hquote, hslash, hfeed, hreturn⟩
    · rw [hd]
      exact .simple hfeed hx hsimple ih
    · rw [hc]
      exact .plain hquote hslash hfeed hreturn ih

end TypeWatch.Lexeme
