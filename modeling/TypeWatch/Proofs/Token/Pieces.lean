import Mathlib.Data.List.Chain
import TypeWatch.Proofs.Token.Content

/-! # The characters of pieces

The characters of a piece are those of its kind (`Piece.Shaped`). Blanks go on up to the next character that
is no blank, and comments up to the end of their line (`Piece.Parts`). -/
namespace TypeWatch
set_option autoImplicit false

/-! ## Kinds -/

namespace Lexeme

def IsLineBreak (cs : List Char) : Prop := cs = ['\n'] ∨ cs = ['\r', '\n']

theorem isLineBreak_take {text : List Char} {n : Nat} (h : lineBreakLength? text = some n) :
    IsLineBreak (text.take n) := by
  unfold lineBreakLength? at h
  split at h
  · cases h
    exact Or.inl rfl
  · cases h
    exact Or.inr rfl
  · exact absurd h nofun

theorem startsToken_of_literalPrefix? {c : Char} {cs : List Char} {n : Nat} (h : literalPrefix? (c :: cs) = some n) :
    startsToken c = true := by
  by_cases hletter : isPrefixLetter c = true
  · have hletters : ∀ d ∈ "rbufRBUF".toList, startsToken d = true := forall_of_all (by decide)
    exact hletters c (List.contains_iff_mem.mp hletter)
  · by_cases hquote : isQuote c = true
    · have hquotes : c = '"' ∨ c = '\'' := by simpa [isQuote] using hquote
      rcases hquotes with rfl | rfl <;> rfl
    · rw [literalPrefix?_cons_eq_none cs (Bool.not_eq_true _ ▸ hletter) (Bool.not_eq_true _ ▸ hquote)] at h
      cases h

theorem startsToken_of_leads {c : Char} {cs : List Char} {kind : TokenKind} {n : Nat}
    (h : Leads (c :: cs) (.token kind) n) : startsToken c = true := by
  cases h with
  | literal hletters => exact startsToken_of_literalPrefix? hletters
  | number hn =>
    obtain ⟨k, rfl⟩ := Nat.exists_eq_succ_of_ne_zero (Nat.pos_iff_ne_zero.mp (numberLength?_ends hn).1)
    have hnumber := (spells_number hn).number rfl
    exact hnumber.starts.1
  | word _ hc => exact startsToken_of_opensName hc
  | @operator _ o ho =>
    obtain ⟨hne, hchars⟩ := symbol_chars o
    have htake := take_of_leading? ho
    obtain ⟨d, ds, hsymbol⟩ := List.exists_cons_of_ne_nil hne
    rw [hsymbol, List.length_cons, List.take_succ_cons] at htake
    rw [(List.cons.inj htake).1]
    exact (hchars d (by rw [hsymbol]; exact List.mem_cons_self)).1

end Lexeme

namespace Piece

open Lexeme (IsLineBreak)

/-- The characters that pieces of each kind have. -/
inductive Shaped : Piece → Prop
  | lineBreak {cs : List Char} : IsLineBreak cs → Shaped ⟨.lineBreak, cs⟩
  | continuation {cs : List Char} : IsLineBreak cs → Shaped ⟨.continuation, '\\' :: cs⟩
  | blanks {c : Char} {cs : List Char} : Lexeme.isLineBlank c = true → (∀ d ∈ cs, Lexeme.isLineBlank d = true) →
      Shaped ⟨.blanks, c :: cs⟩
  | comment {cs : List Char} : (∀ d ∈ cs, Lexeme.isWithinLine d = true) → Shaped ⟨.comment, '#' :: cs⟩
  | token {kind : TokenKind} {c : Char} {cs : List Char} : Lexeme.startsToken c = true →
      kind.isLayout = false → Lexeme.Spells kind (c :: cs) → Shaped ⟨.token kind, c :: cs⟩

theorem shaped_of_leading {c : Char} {cs : List Char} {lexeme : Lexeme} {n : Nat}
    (h : Lexeme.leading c cs = .ok (lexeme, n)) : Shaped ⟨lexeme, c :: cs.take (n - 1)⟩ := by
  have hok := Lexeme.leading_ok h
  have hleads := Lexeme.leads_of_leading h
  cases lexeme with
  | lineBreak =>
    obtain ⟨hn, -⟩ := hok.1 rfl
    obtain ⟨k, rfl⟩ : ∃ k, n = k + 1 := ⟨n - 1, by omega⟩
    cases hleads with
    | lineBreak hk => exact .lineBreak (Lexeme.isLineBreak_take hk)
  | continuation =>
    cases hleads with
    | continuation hk => exact .continuation (Lexeme.isLineBreak_take hk)
  | blanks =>
    cases hleads with
    | blanks hc =>
      rw [Lexeme.runLength_cons_of_pos hc, Nat.add_sub_cancel, Lexeme.take_runLength]
      exact .blanks hc (List.all_eq_true.mp List.all_takeWhile)
  | comment =>
    cases hleads with
    | comment =>
      rw [Lexeme.runLength_cons_of_pos (by decide), Nat.add_sub_cancel, Lexeme.take_runLength]
      exact .comment (List.all_eq_true.mp List.all_takeWhile)
  | token kind =>
    obtain ⟨hlayout, hn, -⟩ := hok.2 kind rfl
    obtain ⟨k, rfl⟩ : ∃ k, n = k + 1 := ⟨n - 1, by omega⟩
    exact .token (Lexeme.startsToken_of_leads hleads) hlayout (Lexeme.spells_of_leading h)

theorem shaped_split (cs : List Char) : ∀ p ∈ (split cs).1, p.Shaped := by
  fun_induction split cs with
  | case1 => simp
  | case2 c cs fault h => simp
  | case3 c cs lexeme n h pieces fault hs ih =>
    rw [hs] at ih
    exact List.forall_mem_cons.mpr ⟨shaped_of_leading h, ih⟩

/-! ## Neighbours -/

/-- No blanks follow blanks, and a line break follows a comment. -/
def Parts (p q : Piece) : Prop :=
  (p.lexeme = .blanks → q.lexeme ≠ .blanks) ∧ (p.lexeme = .comment → q.lexeme = .lineBreak)

theorem parts_of_leading {c d : Char} {cs ds : List Char} {lexeme : Lexeme} {n : Nat} {q : Piece}
    (h : Lexeme.leading c cs = .ok (lexeme, n)) (hrest : cs.drop (n - 1) = d :: ds) (hq : q.Shaped)
    (hfirst : q.chars.head? = some d) : Parts ⟨lexeme, c :: cs.take (n - 1)⟩ q := by
  have hleads := Lexeme.leads_of_leading h
  constructor
  · rintro rfl
    cases hleads with
    | blanks hc =>
      rw [Lexeme.runLength_cons_of_pos hc, Nat.add_sub_cancel, Lexeme.drop_runLength] at hrest
      have hd : Lexeme.isLineBlank d = false := by
        have hnot := List.head?_dropWhile_not Lexeme.isLineBlank cs
        rw [hrest] at hnot
        simpa using hnot
      cases hq with
      | blanks he =>
        obtain rfl := Option.some.inj hfirst
        cases hd.symm.trans he
      | _ => rintro ⟨⟩
  · rintro rfl
    cases hleads with
    | comment =>
      rw [Lexeme.runLength_cons_of_pos (by decide), Nat.add_sub_cancel, Lexeme.drop_runLength] at hrest
      have hd : Lexeme.isWithinLine d = false := by
        have hnot := List.head?_dropWhile_not Lexeme.isWithinLine cs
        rw [hrest] at hnot
        simpa using hnot
      have hend : d = '\r' ∨ d = '\n' := by
        by_contra hno
        rw [not_or] at hno
        simp [Lexeme.isWithinLine, hno] at hd
      cases hq with
      | lineBreak => rfl
      | token hstarts =>
        obtain rfl := Option.some.inj hfirst
        rcases hend with rfl | rfl <;> exact absurd hstarts (by decide)
      | blanks he =>
        obtain rfl := Option.some.inj hfirst
        rcases hend with rfl | rfl <;> exact absurd he (by decide)
      | _ =>
        obtain rfl := Option.some.inj hfirst
        exact absurd hend (by decide)

theorem Shaped.chars_ne {p : Piece} (h : p.Shaped) : p.chars ≠ [] := by
  cases h with
  | lineBreak hbreak => rcases hbreak with rfl | rfl <;> exact List.cons_ne_nil _ _
  | _ => exact List.cons_ne_nil _ _

theorem isChain_split (cs : List Char) : (split cs).1.IsChain Parts := by
  fun_induction split cs with
  | case1 => exact .nil
  | case2 c cs fault h => exact .nil
  | case3 c cs lexeme n h pieces fault hs ih =>
    have hshaped := shaped_split (cs.drop (n - 1))
    obtain ⟨rest, happ, -⟩ := split_prefix (cs.drop (n - 1))
    rw [hs] at ih hshaped happ
    cases pieces with
    | nil => exact .singleton _
    | cons q qs =>
      refine .cons_cons ?_ ih
      have hq := hshaped q List.mem_cons_self
      obtain ⟨d, ds, hchars⟩ := List.exists_cons_of_ne_nil hq.chars_ne
      rw [List.flatMap_cons, hchars, List.cons_append, List.cons_append] at happ
      exact parts_of_leading h happ.symm hq (by rw [hchars]; rfl)

end Piece
end TypeWatch
