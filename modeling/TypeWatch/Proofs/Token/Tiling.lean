import TypeWatch.Comment.Basic
import TypeWatch.Proofs.Token.Pieces

/-! # Tokens and comments as parts of their text

The tokens and the comments of a text stand side by side in it, with nothing but blanks and line breaks
between them (`tokenize_tiled`). Each comment has a line of its own. -/
namespace TypeWatch
set_option autoImplicit false

open Lexeme (IsLineBreak)

/-! ## Fillers -/

/-- Blanks, line breaks, and line breaks after a backslash. -/
inductive Filler : List Char → Prop
  | nil : Filler []
  | blank {c : Char} {cs : List Char} : Lexeme.isLineBlank c = true → Filler cs → Filler (c :: cs)
  | lineBreak {cs ds : List Char} : IsLineBreak cs → Filler ds → Filler (cs ++ ds)
  | continuation {cs ds : List Char} : IsLineBreak cs → Filler ds → Filler ('\\' :: (cs ++ ds))

namespace Filler

variable {cs ds : List Char}

theorem append (h : Filler cs) (h' : Filler ds) : Filler (cs ++ ds) := by
  induction h with
  | nil => exact h'
  | blank hc _ ih => exact .blank hc ih
  | lineBreak hbreak _ ih =>
    rw [List.append_assoc]
    exact .lineBreak hbreak ih
  | continuation hbreak _ ih =>
    rw [List.cons_append, List.append_assoc]
    exact .continuation hbreak ih

theorem blanks (h : ∀ c ∈ cs, Lexeme.isLineBlank c = true) : Filler cs := by
  induction cs with
  | nil => exact .nil
  | cons c cs ih =>
    obtain ⟨hc, hcs⟩ := List.forall_mem_cons.mp h
    exact .blank hc (ih hcs)

theorem one (h : IsLineBreak cs) : Filler cs := by
  rw [← List.append_nil cs]
  exact .lineBreak h .nil

theorem joined (h : IsLineBreak cs) : Filler ('\\' :: cs) := by
  rw [← List.append_nil cs]
  exact .continuation h .nil

end Filler

/-! ## Tiles -/

/-- What a token tells of its characters. No mark of a comment is one of them, except in string literals. -/
structure Token.Tells (t : Token) (cs : List Char) : Prop where
  ne_nil : cs ≠ []
  proper : t.kind.isLayout = false
  plain : t.kind.isString = false → t.text = String.ofList cs ∧ '#' ∉ cs
  literal : t.kind.isString = true → t.text = String.ofList (Lexeme.literalText cs) ∧ Lexeme.IsLiteral cs

/-- Whether a line ends before a text. -/
def EndsLine (rest : List Char) : Prop := rest = [] ∨ ∃ cs ds, IsLineBreak cs ∧ rest = cs ++ ds

/-- A text that begins at a place, and the tokens and the comments that stand in it. -/
inductive Tiled : Position → List Char → List Token → Comments → Prop
  | filler {p : Position} {cs : List Char} : Filler cs → Tiled p cs [] []
  | token {p : Position} {before cs rest : List Char} {t : Token} {tokens : List Token} {comments : Comments} :
      Filler before → t.Tells cs → t.span = ⟨p.after before, p.after (before ++ cs)⟩ →
      Tiled (p.after (before ++ cs)) rest tokens comments →
      Tiled p (before ++ cs ++ rest) (t :: tokens) comments
  | comment {p : Position} {before cs rest : List Char} {tokens : List Token} {comments : Comments} :
      Filler before → (∀ c ∈ cs, Lexeme.isWithinLine c = true) → EndsLine rest →
      Tiled (p.after (before ++ '#' :: cs)) rest tokens comments →
      Tiled p (before ++ '#' :: cs ++ rest) tokens (((p.after before).line, String.ofList ('#' :: cs)) :: comments)

namespace Tiled

variable {p : Position} {cs rest : List Char} {tokens : List Token} {comments : Comments}

/-- More filler before the first token or comment. -/
theorem prepend (h : Filler cs) (h' : Tiled (p.after cs) rest tokens comments) :
    Tiled p (cs ++ rest) tokens comments := by
  generalize hq : p.after cs = q at h'
  induction h' with
  | filler hrest => exact .filler (h.append hrest)
  | token hbefore htells hspan hmore =>
    subst hq
    rw [← List.append_assoc, ← List.append_assoc]
    rw [← Position.after_append, ← Position.after_append, ← List.append_assoc] at hspan
    rw [← Position.after_append, ← List.append_assoc] at hmore
    exact .token (h.append hbefore) htells hspan hmore
  | comment hbefore hcs hends hmore =>
    subst hq
    rw [← List.append_assoc, ← List.append_assoc, ← Position.after_append]
    rw [← Position.after_append, ← List.append_assoc] at hmore
    exact .comment (h.append hbefore) hcs hends hmore

end Tiled

/-! ## Pieces -/

namespace Piece

open Layout (tokensFrom)

theorem endsLine_of_chain {p : Piece} {ps : List Piece} (hlexeme : p.lexeme = .comment)
    (hshaped : ∀ q ∈ ps, q.Shaped) (hchain : (p :: ps).IsChain Parts) : EndsLine (ps.flatMap chars) := by
  cases ps with
  | nil => exact Or.inl rfl
  | cons q qs =>
    have hbreak := (List.isChain_cons_cons.mp hchain).1.2 hlexeme
    obtain ⟨lexeme, cs⟩ := q
    obtain rfl : lexeme = .lineBreak := hbreak
    cases hshaped _ List.mem_cons_self with
    | lineBreak hcs => exact Or.inr ⟨cs, qs.flatMap chars, hcs, rfl⟩

/-- Pieces tile the text that they make. -/
theorem tiled {ps : List Piece} (hshaped : ∀ p ∈ ps, p.Shaped) (hchain : ps.IsChain Parts) (p : Position) :
    Tiled p (ps.flatMap chars) (tokensFrom p ps) (Comments.ofPieces p.line ps) := by
  induction ps generalizing p with
  | nil => exact .filler .nil
  | cons q qs ih =>
    obtain ⟨hq, hqs⟩ := List.forall_mem_cons.mp hshaped
    have hrest := ih hqs hchain.tail (p.after q.chars)
    have hends (hlexeme : q.lexeme = .comment) : EndsLine (qs.flatMap chars) := endsLine_of_chain hlexeme hqs hchain
    rw [List.flatMap_cons, tokensFrom]
    cases hq with
    | lineBreak hcs => exact Tiled.prepend (Filler.one hcs) hrest
    | continuation hcs => exact Tiled.prepend (Filler.joined hcs) hrest
    | blanks hc hcs => exact Tiled.prepend (Filler.blanks (List.forall_mem_cons.mpr ⟨hc, hcs⟩)) hrest
    | comment hcs => exact Tiled.comment Filler.nil hcs (hends rfl) hrest
    | @token kind c cs hstarts hlayout hspells =>
      refine Tiled.token Filler.nil ⟨List.cons_ne_nil _ _, hlayout, fun hkind => ⟨?_, ?_⟩, fun hkind => ⟨?_, ?_⟩⟩ rfl hrest
      · simp only [text, hkind, Bool.false_eq_true, if_false]
      · exact hspells.unmarked hkind
      · simp only [text, hkind, if_true]
      · exact hspells.literal hkind

end Piece

/-! ## Lines of comments -/

namespace Comments

open Piece (Parts Shaped)

theorem line_le_of_mem {line : Nat} {ps : List Piece} : ∀ c ∈ ofPieces line ps, line ≤ c.1 := by
  induction ps generalizing line with
  | nil => exact nofun
  | cons p ps ih =>
    have hrest : ∀ c ∈ ofPieces (line + Text.lineFeeds p.chars) ps, line ≤ c.1 :=
      fun c hc => Nat.le_trans (Nat.le_add_right _ _) (ih c hc)
    rw [ofPieces]
    split
    · exact List.forall_mem_cons.mpr ⟨Nat.le_refl _, hrest⟩
    · exact hrest

/-- The comments after a line break stand on later lines. -/
theorem line_lt_of_mem {line : Nat} {p : Piece} {ps : List Piece} (hp : p.Shaped) (hbreak : p.lexeme = .lineBreak) :
    ∀ c ∈ ofPieces line (p :: ps), line < c.1 := by
  obtain ⟨lexeme, cs⟩ := p
  obtain rfl : lexeme = .lineBreak := hbreak
  intro c hc
  have hle : line + Text.lineFeeds cs ≤ c.1 := line_le_of_mem c hc
  have hfeed : 0 < Text.lineFeeds cs := by
    cases hp with
    | lineBreak hcs => rcases hcs with rfl | rfl <;> decide
  omega

/-- No line has two comments. -/
theorem sorted_ofPieces {ps : List Piece} (hshaped : ∀ p ∈ ps, p.Shaped) (hchain : ps.IsChain Parts) (line : Nat) :
    (ofPieces line ps).Pairwise fun a b => a.1 < b.1 := by
  induction ps generalizing line with
  | nil => exact .nil
  | cons p ps ih =>
    obtain ⟨hp, hps⟩ := List.forall_mem_cons.mp hshaped
    have hrest := ih hps hchain.tail
    rw [ofPieces]
    split
    · rename_i hcomment
      refine List.pairwise_cons.mpr ⟨?_, hrest _⟩
      cases ps with
      | nil => exact nofun
      | cons q qs =>
        intro c hc
        have hbreak := (List.isChain_cons_cons.mp hchain).1.2 hcomment
        have hlt := line_lt_of_mem (hps q List.mem_cons_self) hbreak c hc
        omega
    · exact hrest _

theorem put_of_lt {line : Nat} {comments : Comments} (h : ∀ c ∈ comments, c.1 < line) (text : String) :
    put line text comments = comments ++ [(line, text)] := by
  induction comments with
  | nil => rfl
  | cons c cs ih =>
    obtain ⟨hc, hcs⟩ := List.forall_mem_cons.mp h
    rw [put, if_neg (by omega), if_neg (by omega), ih hcs, List.cons_append]

/-- Comments in the order of their lines are kept as they are, one by one. -/
theorem ofList_of_sorted {comments : Comments} (h : comments.Pairwise fun a b => a.1 < b.1) :
    ofList comments = comments := by
  have hall : ∀ before after : Comments, (before ++ after).Pairwise (fun a b => a.1 < b.1) →
      after.foldl (fun acc c => acc.put c.1 c.2) before = before ++ after := by
    intro before after
    induction after generalizing before with
    | nil => simp
    | cons c cs ih =>
      intro hsorted
      have hlt : ∀ b ∈ before, b.1 < c.1 :=
        fun b hb => (List.pairwise_append.mp hsorted).2.2 b hb c List.mem_cons_self
      rw [List.foldl_cons, put_of_lt hlt, ih, List.append_assoc, List.singleton_append]
      rwa [List.append_assoc, List.singleton_append]
  exact hall [] comments h

end Comments

/-! ## Places of tokens -/

/-- A part of a text that begins at a place, and the token there. A layout token has an empty part. -/
def Token.Within (p : Position) (text : List Char) (t : Token) : Prop :=
  ∃ before cs after, text = before ++ (cs ++ after) ∧ t.span = ⟨p.after before, p.after (before ++ cs)⟩ ∧
    (t.kind.isString = false → t.text = String.ofList cs)

namespace Token

variable {p : Position} {text : List Char} {t : Token}

theorem within_layout (kind : TokenKind) (p : Position) (text : List Char) : (layout kind p).Within p text :=
  ⟨[], [], text, rfl, rfl, fun _ => rfl⟩

theorem Within.later {cs : List Char} (h : t.Within (p.after cs) text) : t.Within p (cs ++ text) := by
  obtain ⟨before, part, after, rfl, hspan, htext⟩ := h
  refine ⟨cs ++ before, part, after, (List.append_assoc _ _ _).symm, ?_, htext⟩
  simp only [hspan, Position.after_append]

end Token

namespace Layout

theorem closeLine_within (s : State) (text : List Char) : ∀ t ∈ closeLine s, t.Within s.position text := by
  rcases closeLine_eq s with hclose | hclose <;> rw [hclose]
  · exact List.forall_mem_nil _
  · exact List.forall_mem_singleton.mpr (Token.within_layout _ _ _)

theorem finish_within (s : State) (text : List Char) : ∀ t ∈ finish s, t.Within s.position text := by
  have hdedents : ∀ t ∈ s.indents.map fun _ => Token.layout .dedent s.position, t.Within s.position text := by
    intro t ht
    obtain ⟨_, _, rfl⟩ := List.mem_map.mp ht
    exact Token.within_layout _ _ _
  rw [finish]
  refine List.forall_mem_append.mpr ⟨List.forall_mem_append.mpr ⟨closeLine_within s text, hdedents⟩, ?_⟩
  exact List.forall_mem_singleton.mpr (Token.within_layout _ _ _)

theorem step_within {s s' : State} {piece : Piece} {tokens : List Token} (h : step s piece = .ok (s', tokens))
    (rest : List Char) : ∀ t ∈ tokens, t.Within s.position (piece.chars ++ rest) := by
  have hmarks {s' : State} {marks : List Token} (hopen : openLine s = .ok (s', marks)) (text : List Char) :
      ∀ t ∈ marks, t.Within s.position text := by
    intro t ht
    rcases (openLine_ok hopen).2 t ht with rfl | rfl <;> exact Token.within_layout _ _ _
  cases steps_of_step h with
  | lineEnd chars => exact closeLine_within s _
  | joined | blanks | comment => exact List.forall_mem_nil _
  | continuation chars hopen => exact hmarks hopen _
  | token kind chars hopen =>
    refine List.forall_mem_append.mpr ⟨hmarks hopen _, List.forall_mem_singleton.mpr ?_⟩
    obtain ⟨hposition, -⟩ := openLine_ok hopen
    refine ⟨[], chars, rest, rfl, by rw [hposition]; rfl, fun hkind => ?_⟩
    simp only [Piece.text, hkind, Bool.false_eq_true, if_false]

theorem run_within {s : State} {fault : Option Fault} {pieces : List Piece} {tokens : List Token}
    (hw : ∀ p ∈ pieces, p.WellFormed) (h : run s fault pieces = .ok tokens) (rest : List Char) :
    ∀ t ∈ tokens, t.Within s.position (pieces.flatMap Piece.chars ++ rest) := by
  induction pieces generalizing s tokens with
  | nil =>
    obtain ⟨-, rfl⟩ := run_nil_ok h
    exact finish_within s _
  | cons piece pieces ih =>
    obtain ⟨s', first, others, hstep, hrest, rfl⟩ := run_cons_ok h
    obtain ⟨hpiece, hpieces⟩ := List.forall_mem_cons.mp hw
    have hothers := ih hpieces hrest
    rw [(step_placed hpiece hstep).1] at hothers
    rw [List.flatMap_cons, List.append_assoc]
    exact List.forall_mem_append.mpr ⟨step_within hstep _, fun t ht => (hothers t ht).later⟩

end Layout

/-! ## Texts -/

/-- The tokens and the comments of a text tile it, and no comment is put in place of another one. -/
theorem tokenize_tiled {source : String} {tokens : List Token} (h : tokenize source = .ok tokens) :
    ∃ comments, Comments.ofText source = .ok comments ∧
      Tiled .first source.toList (Layout.proper tokens) comments ∧
      (∀ t ∈ tokens, t.Within .first source.toList) ∧
      comments.Pairwise (fun a b => a.1 < b.1) ∧ Comments.ofList comments = comments := by
  have hshaped := Piece.shaped_split source.toList
  have hchain := Piece.isChain_split source.toList
  have hformed := Piece.wellFormed_split source.toList
  obtain ⟨hwhole, hproper⟩ := Layout.run_proper hformed h
  obtain ⟨rest, htext, hrest⟩ := Piece.split_prefix source.toList
  rw [hrest hwhole, List.append_nil] at htext
  have hsorted := Comments.sorted_ofPieces hshaped hchain 1
  refine ⟨Comments.ofPieces 1 (Piece.split source.toList).1, ?_, ?_, ?_, hsorted, Comments.ofList_of_sorted hsorted⟩
  · rw [Comments.ofText, h]
    rfl
  · have htiled := Piece.tiled hshaped hchain .first
    rw [htext] at htiled
    rwa [hproper]
  · intro t ht
    have hwithin := Layout.run_within hformed h [] t ht
    rwa [htext, List.append_nil] at hwithin

/-- Comments at the end of a line and after a joined one, and a mark in a string literal. -/
def tiledText : String := "if a:  # one\r\n\tx = '#' + \\\n  b # two\n\n"

theorem tokenize_tiledText : ∃ tokens, tokenize tiledText = .ok tokens ∧ tokens.length = 13 ∧
    ∃ comments, Comments.ofText tiledText = .ok comments ∧
      Tiled .first tiledText.toList (Layout.proper tokens) comments ∧
      (∀ t ∈ tokens, t.Within .first tiledText.toList) ∧
      comments.Pairwise (fun a b => a.1 < b.1) ∧ Comments.ofList comments = comments := by
  have hread : (tokenize tiledText).toOption.any (fun tokens => tokens.length == 13) := by decide +kernel
  cases h : tokenize tiledText with
  | error e =>
    rw [h] at hread
    exact absurd hread nofun
  | ok tokens =>
    rw [h] at hread
    exact ⟨tokens, rfl, eq_of_beq hread, tokenize_tiled h⟩

example : (Comments.ofText tiledText).toOption = some [(1, "# one"), (3, "# two")] := by decide +kernel

end TypeWatch
