import TypeWatch.Proofs.Syntax.Tight

/-! # Plain expressions

All type expressions that can be resolved are plain: names, constants other than numbers, and attributes,
subscripts, calls, tuples and lists of plain expressions. They need no parentheses. -/
namespace TypeWatch
set_option autoImplicit false

/-! ## Tokens -/

/-- Kinds of tokens that plain expressions are made of, and the layout around them. -/
def TokenKind.isPlain : TokenKind → Bool
  | name | string | bytes | formatString => true
  | op o => [.dot, .ellipsis, .comma, .openParen, .closeParen, .openBracket, .closeBracket].contains o
  | word k => [.kwNone, .kwTrue, .kwFalse].contains k
  | number => false
  | endOfInput | newline | indent | dedent => true

theorem TokenKind.isPlain_of_isString {kind : TokenKind} (h : kind.isString = true) : kind.isPlain = true := by
  cases kind <;> first | rfl | exact absurd h nofun

/-- What holds of the names and numbers of a text. -/
structure Token.Spelled (t : Token) : Prop where
  name : t.kind = .name → IsName t.text
  number : t.kind = .number → Lexeme.IsNumber t.text.toList

/-! ## Expressions -/

namespace Expr

mutual

def isPlain : Expr → Bool
  | name _ _ => true
  | constant _ (.number _) => false
  | constant _ _ => true
  | member _ value _ => value.isPlain
  | subscript _ value index => value.isPlain && index.isPlain
  | tuple _ elements | list _ elements => plainList elements
  | call _ callee arguments => callee.isPlain && plainList arguments
  | _ => false

def plainList : List Expr → Bool
  | [] => true
  | e :: es => e.isPlain && plainList es

end

theorem plainList_iff (es : List Expr) : plainList es = true ↔ ∀ e ∈ es, e.isPlain = true := by
  induction es with
  | nil => simp [plainList]
  | cons e es ih => simp [plainList, ih]

theorem tail_of_isPlain {e : Expr} (h : e.isPlain = true) : e.tail = Power.trailer.rank := by
  cases e with
  | starred | binary | unary | lambda | conditional | await => exact absurd h nofun
  | _ => rfl

theorem isNumber_of_isPlain {e : Expr} (h : e.isPlain = true) : e.isNumber = false := by
  cases e with
  | constant s value =>
    cases value with
    | number => exact absurd h nofun
    | _ => rfl
  | _ => rfl

theorem first_of_isPlain : ∀ e : Expr, e.isPlain = true → ∃ w ws, e.words = w :: ws ∧ w.1 ≠ .op .star
  | name s id, _ => ⟨_, _, rfl, by rintro ⟨⟩⟩
  | constant s value, _ => by
    refine ⟨value.word, [], rfl, ?_⟩
    cases value <;> rintro ⟨⟩
  | member s value attr, h => by
    rw [isPlain] at h
    obtain ⟨w, ws, hwords, hw⟩ := first_of_isPlain value h
    exact ⟨w, ws ++ _, by rw [words, hwords, List.cons_append], hw⟩
  | subscript s value index, h => by
    rw [isPlain, Bool.and_eq_true] at h
    obtain ⟨w, ws, hwords, hw⟩ := first_of_isPlain value h.1
    obtain ⟨vs, hvs⟩ : ∃ vs, (subscript s value index).words = value.words ++ vs := by
      cases index
      case tuple => exact ⟨_, by rw [words]⟩
      all_goals exact ⟨_, by rw [words]; rintro _ _ ⟨⟩⟩
    exact ⟨w, ws ++ vs, by rw [hvs, hwords, List.cons_append], hw⟩
  | tuple s elements, _ => ⟨_, _, rfl, by rintro ⟨⟩⟩
  | list s elements, _ => ⟨_, _, rfl, by rintro ⟨⟩⟩
  | call s callee arguments, h => by
    rw [isPlain, Bool.and_eq_true] at h
    obtain ⟨w, ws, hwords, hw⟩ := first_of_isPlain callee h.1
    exact ⟨w, ws ++ _, by rw [words, hwords, List.cons_append], hw⟩
  | slice .., h | set .., h | dict .., h | keyword .., h | starred .., h | binary .., h | unary .., h
  | lambda .., h | conditional .., h | comprehension .., h | named .., h | await .., h | yield .., h =>
    absurd h (by rintro ⟨⟩)

theorem beginsWith_star_of_isPlain {e : Expr} (h : e.isPlain = true) : e.beginsWith (.op .star) = false := by
  obtain ⟨w, ws, hwords, hw⟩ := first_of_isPlain e h
  simp [beginsWith, hwords, hw]

mutual

/-- Plain expressions need no parentheses. -/
theorem isTight_of_isPlain : ∀ e : Expr, e.isPlain = true → e.isTight = true
  | name .., _ => rfl
  | constant .., _ => rfl
  | member s value attr, h => by
    rw [isPlain] at h
    simp [isTight, isTight_of_isPlain value h, tail_of_isPlain h, isNumber_of_isPlain h]
  | subscript s value index, h => by
    rw [isPlain, Bool.and_eq_true] at h
    have hvalue := isTight_of_isPlain value h.1
    have htail := tail_of_isPlain h.1
    cases index with
    | tuple s' elements =>
      have helements := tightIndices_of_plain elements (by simpa [isPlain] using h.2)
      simp [isTight, hvalue, htail, helements]
    | slice => exact absurd h.2 nofun
    | _ =>
      have hindex := isTight_of_isPlain _ h.2
      rw [isTight, hvalue, htail, hindex]
      · rfl
      all_goals exact nofun
  | tuple s elements, h => by
    rw [isPlain] at h
    rw [isTight, tightList_of_plain elements h]
  | list s elements, h => by
    rw [isPlain] at h
    rw [isTight, tightList_of_plain elements h]
  | call s callee arguments, h => by
    rw [isPlain, Bool.and_eq_true] at h
    simp [isTight, isTight_of_isPlain callee h.1, tail_of_isPlain h.1, tightArguments_of_plain arguments h.2]
  | slice .., h | set .., h | dict .., h | keyword .., h | starred .., h | binary .., h | unary .., h
  | lambda .., h | conditional .., h | comprehension .., h | named .., h | await .., h | yield .., h =>
    absurd h nofun

theorem tightList_of_plain : ∀ es : List Expr, plainList es = true → tightList es = true
  | [], _ => rfl
  | e :: es, h => by
    rw [plainList, Bool.and_eq_true] at h
    rw [tightList, isTight_of_isPlain e h.1, tightList_of_plain es h.2]
    rfl

theorem tightIndices_of_plain : ∀ es : List Expr, plainList es = true → tightIndices es = true
  | [], _ => rfl
  | e :: es, h => by
    rw [plainList, Bool.and_eq_true] at h
    rw [tightIndices, isTight_of_isPlain e h.1, tightIndices_of_plain es h.2]
    · rfl
    · rintro s lower upper step rfl
      exact absurd h.1 nofun

theorem tightArguments_of_plain : ∀ es : List Expr, plainList es = true → tightArguments es = true
  | [], _ => rfl
  | e :: es, h => by
    rw [plainList, Bool.and_eq_true] at h
    rw [tightArguments, isTight_of_isPlain e h.1, tightArguments_of_plain es h.2, beginsWith_star_of_isPlain h.1]
    · rfl
    · rintro s label value rfl
      exact absurd h.1 nofun
    · rintro s value rfl
      exact absurd h.1 nofun

end

end Expr

end TypeWatch
