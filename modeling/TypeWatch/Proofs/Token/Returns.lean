import TypeWatch.Comment.Basic
import TypeWatch.Proofs.Lexeme.Returns
import TypeWatch.Proofs.Token.Gathered
import TypeWatch.Proofs.Token.Joined

/-! # Tokens of texts with carriage returns

A text with a carriage return before each line feed has the tokens that it has without them, on the same lines
(`tokenize_returned`), and the same comments (`Comments.ofText_of_returned`). Only literals that take several
lines may stand for other texts. -/
namespace TypeWatch
set_option autoImplicit false

/-- A source with a carriage return before each line feed. -/
def Text.returned (source : String) : String := String.ofList (Text.withReturns source.toList)

/-! ## Places -/

/-- Where a place of a text is if there is a carriage return before each line feed. -/
def Position.widened (p : Position) : Position := ⟨p.offset + (p.line - 1), p.line⟩

theorem Position.widened_after {p : Position} (hp : 1 ≤ p.line) (cs : List Char) :
    (p.after cs).widened = p.widened.after (Text.withReturns cs) := by
  simp only [widened, after, Text.byteLength_withReturns, Text.lineFeeds_withReturns, Position.mk.injEq, and_true]
  omega

theorem Position.widened_le {p q : Position} (h : p ≤ q) : p.widened ≤ q.widened := by
  obtain ⟨hoffset, hline⟩ := h
  refine ⟨?_, hline⟩
  simp only [widened]
  omega

/-- Places that come one after the other keep their order. -/
theorem Position.widened_le_iff {p q : Position} (h : p ≤ q ∨ q ≤ p) : p.widened ≤ q.widened ↔ p ≤ q := by
  refine ⟨fun hle => h.elim id fun hqp => ?_, widened_le⟩
  obtain ⟨hoffset, hline⟩ := hle
  obtain ⟨-, hline'⟩ := hqp
  simp only [widened] at hoffset hline
  exact ⟨by omega, hline⟩

/-! ## Tokens -/

/-- A token with its carriage returns. If it is on one line it is the same. -/
structure Token.Returned (t u : Token) : Prop extends Answers Position.widened Position.widened t u where
  same : t.span.start.line = t.span.stop.line → u.text = t.text

/-- What has no carriage returns keeps its text. -/
theorem Token.returned_moved (t : Token) : Returned t (t.moved (.along Position.widened)) := by
  rw [Motion.Plain.moved fun _ _ => rfl]
  exact ⟨⟨rfl, rfl, fun _ => rfl⟩, fun _ => rfl⟩

theorem Token.forall₂_returned (ts : List Token) :
    List.Forall₂ Returned ts (ts.map (Token.moved (.along Position.widened))) :=
  List.forall₂_map_right_iff.mpr (List.forall₂_same.mpr fun t _ => returned_moved t)

/-- A stretch from the beginning of a token to the end of one has the same literals with their carriage returns, if
those in it are on one line each. -/
theorem Token.gathered_returned {ts us : List Token} (hall : List.Forall₂ Returned ts us) {s : Span}
    (hstart : ∀ t ∈ ts, s.start ≤ t.span.start ∨ t.span.start ≤ s.start)
    (hstop : ∀ t ∈ ts, t.span.stop ≤ s.stop ∨ s.stop ≤ t.span.stop)
    (hlines : ∀ t ∈ ts, t.kind.isString = true → s.Holds t → t.span.start.line = t.span.stop.line) :
    gathered us ⟨s.start.widened, s.stop.widened⟩ = gathered ts s := by
  induction hall with
  | nil => rfl
  | @cons t u ts us htu _ ih =>
    obtain ⟨hfirst, hstart⟩ := List.forall_mem_cons.mp hstart
    obtain ⟨hlast, hstop⟩ := List.forall_mem_cons.mp hstop
    obtain ⟨hline, hlines⟩ := List.forall_mem_cons.mp hlines
    have hkind : u.kind = t.kind := htu.kind
    have hholds : Span.Holds ⟨s.start.widened, s.stop.widened⟩ u ↔ s.Holds t := by
      rw [Span.Holds, htu.span, Position.widened_le_iff hfirst, Position.widened_le_iff hlast]
      rfl
    rw [gathered_cons, gathered_cons, ih hstart hstop hlines]
    by_cases hboth : t.kind.isString = true ∧ s.Holds t
    · rw [if_pos hboth, if_pos ⟨hkind ▸ hboth.1, hholds.mpr hboth.2⟩, htu.same (hline hboth.1 hboth.2)]
    · rw [if_neg hboth, if_neg fun hu => hboth ⟨hkind ▸ hu.1, hholds.mp hu.2⟩]

/-! ## Layout -/

namespace Layout

open Token (Returned)

section Returns

variable {s s' : State} {tokens : List Token}

theorem advance_withReturns (hline : 1 ≤ s.position.line) (cs : List Char) :
    (s.along Position.widened).advance (Text.withReturns cs) = (s.advance cs).along Position.widened := by
  simp only [State.advance, State.along, Position.widened_after hline]

theorem returned_token {kind : TokenKind} {chars : List Char} {p : Position} (hline : 1 ≤ p.line)
    (hfeeds : '\n' ∈ chars → kind.isString = true) :
    Returned ⟨kind, (⟨.token kind, chars⟩ : Piece).text, ⟨p, p.after chars⟩⟩
      ⟨kind, (⟨.token kind, chars⟩ : Piece).withReturns.text,
        ⟨p.widened, p.widened.after (Text.withReturns chars)⟩⟩ := by
  have hsame (hnone : '\n' ∉ chars) :
      (⟨.token kind, chars⟩ : Piece).withReturns.text = (⟨.token kind, chars⟩ : Piece).text := by
    rw [Piece.withReturns, Text.withReturns_of_noFeed hnone]
  refine ⟨⟨rfl, by rw [Position.widened_after hline], fun hno => hsame fun hin => ?_⟩, fun hlines => hsame ?_⟩
  · cases hno.symm.trans (hfeeds hin)
  · have hzero : Text.lineFeeds chars = 0 := by
      simp only [Position.after] at hlines
      omega
    exact List.count_eq_zero.mp hzero

/-- A piece with its carriage returns brings the tokens that it brings without them. -/
theorem step_withReturns {piece : Piece} (hfeeds : '\n' ∈ piece.chars → piece.Breaks) (hline : 1 ≤ s.position.line)
    (h : step s piece = .ok (s', tokens)) : ∃ tokens', step (s.along Position.widened) piece.withReturns =
      .ok (s'.along Position.widened, tokens') ∧ List.Forall₂ Returned tokens tokens' := by
  cases steps_of_step h with
  | lineEnd chars hdepth =>
    have halong : (s.along Position.widened).depth = 0 := hdepth
    refine ⟨_, ?_, Token.forall₂_returned _⟩
    simp only [step, Piece.withReturns, if_pos halong, advance_withReturns hline, closeLine_along]
    rfl
  | joined chars hdepth =>
    have halong : (s.along Position.widened).depth ≠ 0 := hdepth
    refine ⟨_, ?_, .nil⟩
    simp only [step, Piece.withReturns, if_neg halong, advance_withReturns hline]
  | blanks chars =>
    have hnone : '\n' ∉ chars := fun hin => by
      rcases hfeeds hin with hno | hno | ⟨kind, hno, -⟩ <;> cases hno
    have hcolumn : column (Text.withReturns chars) = column chars := by rw [Text.withReturns_of_noFeed hnone]
    refine ⟨_, ?_, .nil⟩
    simp only [step, Piece.withReturns, advance_withReturns hline, hcolumn]
    rfl
  | comment chars =>
    refine ⟨_, ?_, .nil⟩
    simp only [step, Piece.withReturns, advance_withReturns hline]
    rfl
  | @continuation chars opened _ hopen =>
    have hopened : 1 ≤ opened.position.line := (openLine_ok hopen).1 ▸ hline
    refine ⟨_, ?_, Token.forall₂_returned tokens⟩
    simp only [step, Piece.withReturns, openLine_along _ hopen, bind, Except.bind, pure, Except.pure,
      advance_withReturns hopened]
  | @token kind chars opened marks hopen =>
    have hopened : 1 ≤ opened.position.line := (openLine_ok hopen).1 ▸ hline
    have hstring (hin : '\n' ∈ chars) : kind.isString = true := by
      rcases hfeeds hin with hno | hno | ⟨kind', hkind, hstring⟩
      · cases hno
      · cases hno
      · exact Lexeme.token.inj hkind ▸ hstring
    refine ⟨_, ?_, List.rel_append (Token.forall₂_returned marks) (.cons (returned_token hopened hstring) .nil)⟩
    simp only [step, openLine_along _ hopen, bind, Except.bind, pure, Except.pure]
    change Except.ok ({ (opened.along Position.widened).advance (Text.withReturns chars) with
      depth := depthAfter opened.depth kind, begun := true }, _) = _
    rw [advance_withReturns hopened]
    rfl

/-- Pieces with their carriage returns bring the tokens that they bring without them. -/
theorem run_withReturns {pieces : List Piece} (hw : ∀ p ∈ pieces, p.WellFormed)
    (hfeeds : ∀ p ∈ pieces, '\n' ∈ p.chars → p.Breaks) (hline : 1 ≤ s.position.line)
    (h : run s none pieces = .ok tokens) :
    ∃ tokens', run (s.along Position.widened) none (pieces.map Piece.withReturns) = .ok tokens' ∧
      List.Forall₂ Returned tokens tokens' := by
  induction pieces generalizing s tokens with
  | nil =>
    obtain rfl := Except.ok.inj h
    exact ⟨_, congrArg Except.ok (finish_along _ s), Token.forall₂_returned _⟩
  | cons piece pieces ih =>
    obtain ⟨s', first, others, hstep, hrest, rfl⟩ := run_cons_ok h
    obtain ⟨hpiece, hpieces⟩ := List.forall_mem_cons.mp hw
    obtain ⟨hfeed, hfeeds⟩ := List.forall_mem_cons.mp hfeeds
    have hline' : 1 ≤ s'.position.line := by
      rw [(step_placed hpiece hstep).1]
      exact Nat.le_trans hline (Nat.le_add_right _ _)
    obtain ⟨first', hstep', hfirst⟩ := step_withReturns hfeed hline hstep
    obtain ⟨others', hrest', hothers⟩ := ih hpieces hfeeds hline' hrest
    refine ⟨first' ++ others', ?_, List.rel_append hfirst hothers⟩
    rw [List.map_cons, run_of_step hstep', hrest']
    rfl

end Returns

end Layout

section Texts

variable {source : String} (hreturn : '\r' ∉ source.toList)

include hreturn

/-- A text with carriage returns has the tokens that it has without them, if no literal in one quote on each side
continues, and none if one does. -/
theorem tokenize_returned {tokens : List Token} (h : tokenize source = .ok tokens) :
    ((∀ p ∈ (Piece.split source.toList).1, p.continues = false) →
      ∃ tokens', tokenize (Text.returned source) = .ok tokens' ∧ List.Forall₂ Token.Returned tokens tokens') ∧
    ((∃ p ∈ (Piece.split source.toList).1, p.continues = true) →
      ∃ e, tokenize (Text.returned source) = .error e) := by
  obtain ⟨hwhole, -⟩ := tokenize_content h
  have hrun : Layout.run .initial none (Piece.split source.toList).1 = .ok tokens := by
    rw [← h, ← hwhole]
    rfl
  have htokenize : tokenize (Text.returned source) =
      Layout.run .initial (Piece.split (Text.withReturns source.toList)).2
        (Piece.split (Text.withReturns source.toList)).1 := by
    rw [tokenize, Text.returned, String.toList_ofList]
  obtain ⟨hkept, hlost⟩ := Piece.split_withReturns hreturn hwhole
  refine ⟨fun hall => ?_, fun hsome => ?_⟩
  · obtain ⟨tokens', hrun', hreturned⟩ := Layout.run_withReturns (Piece.wellFormed_split source.toList)
      (Piece.breaks_of_split source.toList) (Nat.le_refl 1) hrun
    rw [htokenize, hkept hall]
    exact ⟨tokens', hrun', hreturned⟩
  · cases hresult : tokenize (Text.returned source) with
    | error e => exact ⟨e, rfl⟩
    | ok tokens' =>
      rw [htokenize] at hresult
      have hnone := (Layout.run_proper (Piece.wellFormed_split _) hresult).1
      cases (hlost hsome).symm.trans hnone

end Texts

namespace Comments

/-- Comments do not depend on how lines end. -/
theorem ofPieces_withReturns {pieces : List Piece} (hfeeds : ∀ p ∈ pieces, '\n' ∈ p.chars → p.Breaks) (line : Nat) :
    ofPieces line (pieces.map Piece.withReturns) = ofPieces line pieces := by
  induction pieces generalizing line with
  | nil => rfl
  | cons p pieces ih =>
    obtain ⟨hp, hpieces⟩ := List.forall_mem_cons.mp hfeeds
    have hlines : line + Text.lineFeeds p.withReturns.chars = line + Text.lineFeeds p.chars :=
      congrArg (line + ·) (Text.lineFeeds_withReturns p.chars)
    rw [List.map_cons, ofPieces, ofPieces, hlines, ih hpieces]
    by_cases hcomment : p.lexeme = .comment
    · have hnone : '\n' ∉ p.chars := fun hin => by
        rcases hp hin with hno | hno | ⟨kind, hno, -⟩ <;> exact absurd (hcomment.symm.trans hno) nofun
      rw [Piece.withReturns, Text.withReturns_of_noFeed hnone]
    · have hcomment' : p.withReturns.lexeme ≠ .comment := hcomment
      simp only [if_neg hcomment, if_neg hcomment']

theorem ofText_of_returned {source : String} (hreturn : '\r' ∉ source.toList) {tokens tokens' : List Token}
    (h : tokenize source = .ok tokens) (h' : tokenize (Text.returned source) = .ok tokens')
    (hall : ∀ p ∈ (Piece.split source.toList).1, p.continues = false) :
    ofText (Text.returned source) = ofText source := by
  have hpieces := (Piece.split_withReturns hreturn (tokenize_content h).1).1 hall
  have hsame := ofPieces_withReturns (Piece.breaks_of_split source.toList) 1
  rw [ofText, ofText, h, h', Text.returned, String.toList_ofList, hpieces]
  exact congrArg Except.ok hsame

end Comments
end TypeWatch
