import TypeWatch.Proofs.Basic
import TypeWatch.Proofs.Lexeme.Extent
import TypeWatch.Proofs.Source.Place
import TypeWatch.Token.Layout

/-! # The order of tokens

The tokens of a source text stand one after the other, and those on both sides of a line end that counts
are on different lines (`tokenize_placed`). Layout tokens take no room. -/
namespace TypeWatch
set_option autoImplicit false

/-! ## Tokens -/

namespace Token

/-- Tokens in their order. Between a line end and a token that is no layout a line begins. -/
def Precedes (a b : Token) : Prop :=
  a.span.stop ≤ b.span.start ∧
    (a.kind = .newline → b.kind.isLayout = false → a.span.stop.line < b.span.start.line)

/-- A token ends where it begins, or after it if it is no layout. -/
structure Proper (t : Token) : Prop where
  le : t.span.start ≤ t.span.stop
  lt : t.kind.isLayout = false → t.span.start < t.span.stop

theorem proper_layout {kind : TokenKind} (hkind : kind.isLayout = true) (p : Position) :
    (layout kind p).Proper :=
  ⟨p.le_refl, fun h => absurd (hkind.symm.trans h) (by decide)⟩

end Token

/-! ## Placed tokens -/

/-- The tokens of a text that begins at a place. -/
structure Token.Placed (p : Position) (text : List Char) (tokens : List Token) : Prop where
  ordered : tokens.Pairwise Precedes
  proper : ∀ t ∈ tokens, t.Proper
  from_le : ∀ t ∈ tokens, p ≤ t.span.start
  stop_eq : ∀ t ∈ tokens, t.kind.isLayout = false → ∃ before after d, text = before ++ after ∧
    before.getLast? = some d ∧ d ≠ '\n' ∧ t.span.stop = p.after before

namespace Layout

/-! ## Lines -/

/-- Tokens of the layout at a place that open and close blocks. -/
def Marks (p : Position) (tokens : List Token) : Prop :=
  ∀ t ∈ tokens, t = Token.layout .indent p ∨ t = Token.layout .dedent p

namespace Marks

variable {p : Position} {tokens : List Token} {t : Token}

theorem isLayout (h : Marks p tokens) (ht : t ∈ tokens) : t.kind.isLayout = true := by
  rcases h t ht with rfl | rfl <;> rfl

theorem ne_newline (h : Marks p tokens) (ht : t ∈ tokens) : t.kind ≠ .newline := by
  rcases h t ht with rfl | rfl <;> nofun

theorem ne_end (h : Marks p tokens) (ht : t ∈ tokens) : t.kind ≠ .endOfInput := by
  rcases h t ht with rfl | rfl <;> nofun

theorem span_eq (h : Marks p tokens) (ht : t ∈ tokens) : t.span = ⟨p, p⟩ := by
  rcases h t ht with rfl | rfl <;> rfl

end Marks

theorem marks_closeBlocks (p : Position) (column : Nat) (indents : List Nat) :
    Marks p (closeBlocks p column indents).2 := by
  induction indents with
  | nil => exact List.forall_mem_nil _
  | cons i is ih =>
    unfold closeBlocks
    split
    · exact List.forall_mem_cons.mpr ⟨Or.inr rfl, ih⟩
    · exact List.forall_mem_nil _

theorem openLine_ok {s s' : State} {tokens : List Token} (h : openLine s = .ok (s', tokens)) :
    s'.position = s.position ∧ Marks s.position tokens := by
  unfold openLine at h
  split at h
  · obtain ⟨rfl, rfl⟩ := Prod.mk.inj (Except.ok.inj h)
    exact ⟨rfl, List.forall_mem_nil _⟩
  · rename_i column _
    split at h
    · obtain ⟨rfl, rfl⟩ := Prod.mk.inj (Except.ok.inj h)
      refine ⟨rfl, ?_⟩
      intro t ht
      exact Or.inl (List.mem_singleton.mp ht)
    · dsimp only at h
      split at h
      · obtain ⟨rfl, rfl⟩ := Prod.mk.inj (Except.ok.inj h)
        exact ⟨rfl, marks_closeBlocks _ _ _⟩
      · exact absurd h nofun

/-! ## Pieces -/

/-- What a piece does to the layout. -/
inductive Steps (s : State) : Piece → State → List Token → Prop
  | lineEnd (chars : List Char) : s.depth = 0 →
      Steps s ⟨.lineBreak, chars⟩ { s.advance chars with margin := some 0, begun := false } (closeLine s)
  | joined (chars : List Char) : s.depth ≠ 0 → Steps s ⟨.lineBreak, chars⟩ (s.advance chars) []
  | blanks (chars : List Char) :
      Steps s ⟨.blanks, chars⟩ { s.advance chars with margin := s.margin.map fun _ => column chars } []
  | comment (chars : List Char) : Steps s ⟨.comment, chars⟩ { s.advance chars with margin := none } []
  | continuation (chars : List Char) {opened : State} {marks : List Token} : openLine s = .ok (opened, marks) →
      Steps s ⟨.continuation, chars⟩ (opened.advance chars) marks
  | token (kind : TokenKind) (chars : List Char) {opened : State} {marks : List Token} :
      openLine s = .ok (opened, marks) →
      Steps s ⟨.token kind, chars⟩
        { opened.advance chars with depth := depthAfter opened.depth kind, begun := true }
        (marks ++ [⟨kind, (⟨.token kind, chars⟩ : Piece).text, ⟨opened.position, opened.position.after chars⟩⟩])

theorem steps_of_step {s s' : State} {piece : Piece} {tokens : List Token}
    (h : step s piece = .ok (s', tokens)) : Steps s piece s' tokens := by
  obtain ⟨lexeme, chars⟩ := piece
  cases lexeme with
  | lineBreak =>
    simp only [step] at h
    split at h
    · cases h
      exact .lineEnd chars ‹_›
    · cases h
      exact .joined chars ‹_›
  | blanks =>
    cases h
    exact .blanks chars
  | comment =>
    cases h
    exact .comment chars
  | continuation =>
    obtain ⟨⟨opened, marks⟩, hopen, h⟩ := exists_of_bind_ok h
    cases h
    exact .continuation chars hopen
  | token kind =>
    obtain ⟨⟨opened, marks⟩, hopen, h⟩ := exists_of_bind_ok h
    cases h
    exact .token kind chars hopen

/-- A token of a piece that begins at `p` and ends at `q`. -/
structure Sits (p q : Position) (piece : Piece) (t : Token) : Prop where
  proper : t.Proper
  from_le : p ≤ t.span.start
  le_upto : t.span.stop ≤ q
  feed : t.kind = .newline → t.span.stop.line < q.line
  token : t.kind.isLayout = false → t.span.stop = q ∧ ∃ d, piece.chars.getLast? = some d ∧ d ≠ '\n'

structure StepPlaced (p q : Position) (piece : Piece) (tokens : List Token) : Prop where
  ordered : tokens.Pairwise Token.Precedes
  sits : ∀ t ∈ tokens, Sits p q piece t

section Pieces

variable {p q : Position} {piece : Piece}

theorem stepPlaced_marks (hpq : p ≤ q) (piece : Piece) {tokens : List Token} (h : Marks p tokens) :
    StepPlaced p q piece tokens := by
  have hno {t : Token} (ht : t ∈ tokens) (hlayout : t.kind.isLayout = false) : False :=
    absurd ((h.isLayout ht).symm.trans hlayout) (by decide)
  constructor
  · refine List.pairwise_of_forall_mem_list fun a ha b hb => ?_
    rw [Token.Precedes, h.span_eq ha, h.span_eq hb]
    exact ⟨p.le_refl, fun hn => absurd hn (h.ne_newline ha)⟩
  · intro t ht
    refine ⟨⟨?_, fun hlayout => (hno ht hlayout).elim⟩, ?_, ?_, fun hn => absurd hn (h.ne_newline ht),
      fun hlayout => (hno ht hlayout).elim⟩
    · rw [h.span_eq ht]
      exact p.le_refl
    · rw [h.span_eq ht]
      exact p.le_refl
    · rw [h.span_eq ht]
      exact hpq

/-- A line end stands before the line feed of its piece. -/
theorem sits_newline (hpq : p ≤ q) (hline : p.line < q.line) (piece : Piece) :
    Sits p q piece (Token.layout .newline p) :=
  ⟨Token.proper_layout rfl _, p.le_refl, hpq, fun _ => hline, nofun⟩

theorem stepPlaced_closeLine {s : State} (hpq : s.position ≤ q) (hline : s.position.line < q.line)
    (piece : Piece) : StepPlaced s.position q piece (closeLine s) := by
  unfold closeLine
  split
  · refine ⟨List.pairwise_singleton _ _, fun t ht => ?_⟩
    obtain rfl := List.mem_singleton.mp ht
    exact sits_newline hpq hline piece
  · exact stepPlaced_marks hpq piece (List.forall_mem_nil _)

/-- A token after the marks of its line. -/
theorem stepPlaced_token (hpq : p < q) {marks : List Token} (h : Marks p marks) {kind : TokenKind}
    (hlayout : kind.isLayout = false) (hlast : ∃ d, piece.chars.getLast? = some d ∧ d ≠ '\n')
    (text : String) : StepPlaced p q piece (marks ++ [⟨kind, text, ⟨p, q⟩⟩]) := by
  have hle := Position.le_of_lt hpq
  have hmarks := stepPlaced_marks hle piece h
  constructor
  · refine List.pairwise_append.mpr ⟨hmarks.ordered, List.pairwise_singleton _ _, ?_⟩
    intro a ha b hb
    obtain rfl := List.mem_singleton.mp hb
    rw [Token.Precedes, h.span_eq ha]
    exact ⟨p.le_refl, fun hn => absurd hn (h.ne_newline ha)⟩
  · intro t ht
    rcases List.mem_append.mp ht with ht | ht
    · exact hmarks.sits t ht
    · obtain rfl := List.mem_singleton.mp ht
      refine ⟨⟨hle, fun _ => hpq⟩, p.le_refl, q.le_refl, fun hn => ?_, fun _ => ⟨rfl, hlast⟩⟩
      rw [show kind = .newline from hn] at hlayout
      exact absurd hlayout (by decide)

end Pieces

theorem step_placed {s s' : State} {piece : Piece} {tokens : List Token} (hw : piece.WellFormed)
    (h : step s piece = .ok (s', tokens)) :
    s'.position = s.position.after piece.chars ∧
      StepPlaced s.position (s.position.after piece.chars) piece tokens := by
  have hle := s.position.le_after piece.chars
  have hnone : StepPlaced s.position (s.position.after piece.chars) piece [] :=
    stepPlaced_marks hle piece (List.forall_mem_nil _)
  cases steps_of_step h with
  | lineEnd chars =>
    have hline : s.position.line < (s.position.after chars).line := Nat.lt_add_of_pos_right (hw.feed rfl)
    exact ⟨rfl, stepPlaced_closeLine hle hline _⟩
  | joined | blanks | comment => exact ⟨rfl, hnone⟩
  | continuation chars hopen =>
    obtain ⟨hposition, hmarks⟩ := openLine_ok hopen
    refine ⟨?_, stepPlaced_marks hle _ hmarks⟩
    rw [State.advance, hposition]
  | token kind chars hopen =>
    obtain ⟨hposition, hmarks⟩ := openLine_ok hopen
    obtain ⟨hlayout, hlast⟩ := hw.token kind rfl
    simp only [State.advance, hposition]
    exact ⟨trivial, stepPlaced_token (s.position.lt_after hw.chars_ne) hmarks hlayout hlast _⟩

/-! ## Texts -/

theorem finish_layout (s : State) :
    ∀ t ∈ finish s, t.kind.isLayout = true ∧ t.span = ⟨s.position, s.position⟩ := by
  intro t ht
  unfold finish closeLine at ht
  rcases List.mem_append.mp ht with ht | ht
  · rcases List.mem_append.mp ht with ht | ht
    · split at ht
      · obtain rfl := List.mem_singleton.mp ht
        exact ⟨rfl, rfl⟩
      · exact absurd ht List.not_mem_nil
    · obtain ⟨_, _, rfl⟩ := List.mem_map.mp ht
      exact ⟨rfl, rfl⟩
  · obtain rfl := List.mem_singleton.mp ht
    exact ⟨rfl, rfl⟩

theorem finish_placed (s : State) (text : List Char) : Token.Placed s.position text (finish s) := by
  have hlayout := finish_layout s
  have hno {t : Token} (ht : t ∈ finish s) (h : t.kind.isLayout = false) : False :=
    absurd ((hlayout t ht).1.symm.trans h) (by decide)
  refine ⟨?_, ?_, ?_, ?_⟩
  · refine List.pairwise_of_forall_mem_list fun a ha b hb => ?_
    rw [Token.Precedes, (hlayout a ha).2, (hlayout b hb).2]
    exact ⟨s.position.le_refl, fun _ h => (hno hb h).elim⟩
  · intro t ht
    refine ⟨?_, fun h => (hno ht h).elim⟩
    rw [(hlayout t ht).2]
    exact s.position.le_refl
  · intro t ht
    rw [(hlayout t ht).2]
    exact s.position.le_refl
  · intro t ht h
    exact (hno ht h).elim

/-- What the tokens of a piece and those of the text after it make together. -/
theorem StepPlaced.cons {p : Position} {piece : Piece} {text : List Char} {first others : List Token}
    (h : StepPlaced p (p.after piece.chars) piece first)
    (h' : Token.Placed (p.after piece.chars) text others) :
    Token.Placed p (piece.chars ++ text) (first ++ others) := by
  refine ⟨?_, ?_, ?_, ?_⟩
  · refine List.pairwise_append.mpr ⟨h.ordered, h'.ordered, fun a ha b hb => ?_⟩
    have hle := h'.from_le b hb
    refine ⟨Position.le_trans (h.sits a ha).le_upto hle, fun hn _ => ?_⟩
    exact Nat.lt_of_lt_of_le ((h.sits a ha).feed hn) hle.2
  · intro t ht
    rcases List.mem_append.mp ht with ht | ht
    · exact (h.sits t ht).proper
    · exact h'.proper t ht
  · intro t ht
    rcases List.mem_append.mp ht with ht | ht
    · exact (h.sits t ht).from_le
    · exact Position.le_trans (p.le_after _) (h'.from_le t ht)
  · intro t ht hno
    rcases List.mem_append.mp ht with ht | ht
    · obtain ⟨hstop, d, hd, hne⟩ := (h.sits t ht).token hno
      exact ⟨piece.chars, text, d, rfl, hd, hne, hstop⟩
    · obtain ⟨before, after, d, happ, hd, hne, hstop⟩ := h'.stop_eq t ht hno
      refine ⟨piece.chars ++ before, after, d, ?_, ?_, hne, ?_⟩
      · rw [happ, List.append_assoc]
      · rw [List.getLast?_append, hd]
        rfl
      · rw [hstop, Position.after_append]

theorem run_nil_ok {s : State} {fault : Option Fault} {tokens : List Token} (h : run s fault [] = .ok tokens) :
    fault = none ∧ tokens = finish s := by
  cases fault with
  | none => exact ⟨rfl, (Except.ok.inj h).symm⟩
  | some fault => exact absurd h nofun

/-- The tokens of some pieces are those of the first piece and those of the others. -/
theorem run_cons_ok {s : State} {fault : Option Fault} {piece : Piece} {pieces : List Piece} {tokens : List Token}
    (h : run s fault (piece :: pieces) = .ok tokens) : ∃ s' first others, step s piece = .ok (s', first) ∧
      run s' fault pieces = .ok others ∧ tokens = first ++ others := by
  obtain ⟨⟨s', first⟩, hstep, h⟩ := exists_of_bind_ok h
  obtain ⟨others, hrest, h⟩ := exists_of_bind_ok h
  exact ⟨s', first, others, hstep, hrest, (Except.ok.inj h).symm⟩

/-- The tokens of some pieces stand in the text of the pieces. -/
theorem run_placed {s : State} {fault : Option Fault} {pieces : List Piece} {tokens : List Token}
    (hw : ∀ p ∈ pieces, p.WellFormed) (h : run s fault pieces = .ok tokens) :
    Token.Placed s.position (pieces.flatMap Piece.chars) tokens := by
  induction pieces generalizing s tokens with
  | nil =>
    obtain ⟨-, rfl⟩ := run_nil_ok h
    exact finish_placed s _
  | cons piece pieces ih =>
    obtain ⟨s', first, others, hstep, hrest, rfl⟩ := run_cons_ok h
    obtain ⟨hposition, hfirst⟩ := step_placed (hw piece List.mem_cons_self) hstep
    have hothers := ih (fun p hp => hw p (List.mem_cons_of_mem piece hp)) hrest
    rw [hposition] at hothers
    exact hfirst.cons hothers

end Layout

/-! ## Sources -/

/-- The tokens of a source stand in their order in its lines. -/
structure Token.InLines (lines : Nat) (tokens : List Token) : Prop where
  ordered : tokens.Pairwise Precedes
  proper : ∀ t ∈ tokens, t.Proper
  from_le : ∀ t ∈ tokens, Position.first ≤ t.span.start
  line_le : ∀ t ∈ tokens, t.kind.isLayout = false → t.span.stop.line ≤ lines

theorem tokenize_placed {source : String} {tokens : List Token} (h : tokenize source = .ok tokens) :
    Token.InLines (Text.lineCount source.toList) tokens := by
  unfold tokenize at h
  obtain ⟨rest, happ, _⟩ := Piece.split_prefix source.toList
  have hplaced := Layout.run_placed (Piece.wellFormed_split source.toList) h
  refine ⟨hplaced.ordered, hplaced.proper, hplaced.from_le, ?_⟩
  intro t ht hno
  obtain ⟨before, after, d, htext, hd, hne, hstop⟩ := hplaced.stop_eq t ht hno
  have hline := Position.line_le_lineCount hd hne (after ++ rest)
  rw [← List.append_assoc, ← htext, happ] at hline
  rw [hstop]
  exact hline

end TypeWatch
