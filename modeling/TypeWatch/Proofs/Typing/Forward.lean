import TypeWatch.Proofs.Typing.Resolution
import TypeWatch.Proofs.Value.Tree

/-! # Forward references

A string literal denotes what its text denotes. So a text in quotes denotes what it denotes without them, whether
they are those with which an expression is written or those of the value that the text is, and however often it is
put in quotes (`Typing.resolve_forward`). -/
namespace TypeWatch
set_option autoImplicit false

/-- A way to write a text as a string literal: as an expression is written, or as a value is shown. -/
inductive QuoteStyle where
  | expression | value
  deriving DecidableEq, Repr

def QuoteStyle.quoted : QuoteStyle → String → String
  | expression => Constant.quoted
  | value => Value.strText

namespace Typing

variable {env : Environment}

/-- A text that is read as one string literal denotes what that stands for. -/
theorem resolve_of_literal {literal text : String}
    (h : ∃ e, Expr.ofText literal = .ok e ∧ e.bare = .constant default (.string text)) :
    resolve env literal = resolve env text := by
  obtain ⟨e, hread, hbare⟩ := h
  calc resolve env literal = e.resolve env := resolve_of_ofText hread
    _ = e.bare.resolve env := (Expr.resolveWith_bare e).symm
    _ = resolve env text := by rw [hbare, Expr.resolve, Expr.resolveWith, Expr.constantType]

/-- Both ways to write a text as a literal are read as that literal, whatever characters the text has. -/
theorem ofText_quoteStyle (style : QuoteStyle) (text : String) :
    ∃ e, Expr.ofText (style.quoted text) = .ok e ∧ e.bare = .constant default (.string text) := by
  cases style with
  | expression => exact Expr.ofText_written (e := .constant default (.string text)) trivial rfl
  | value =>
    have hread : ∃ e, Expr.ofText (Value.str text).text = .ok e ∧ e.bare = (Value.str text).tree.bare :=
      Value.ofText_tree (by rw [Value.IsLiteral]; trivial)
    rw [Value.text, Value.tree, Expr.bare] at hread
    exact hread

theorem resolve_quoteStyle (style : QuoteStyle) (text : String) :
    resolve env (style.quoted text) = resolve env text := resolve_of_literal (ofText_quoteStyle style text)

/-- A text denotes the same in quotes, in either style and any number of times, or fails for the same reason. -/
theorem resolve_forward (env : Environment) (text : String) :
    resolve env (Constant.quoted text) = resolve env text ∧ resolve env (Value.strText text) = resolve env text ∧
    ∀ styles : List QuoteStyle, resolve env (styles.foldr QuoteStyle.quoted text) = resolve env text := by
  refine ⟨resolve_quoteStyle .expression text, resolve_quoteStyle .value text, fun styles => ?_⟩
  induction styles with
  | nil => rfl
  | cons style styles ih =>
    rw [List.foldr_cons, resolve_quoteStyle, ih]

end Typing

end TypeWatch
