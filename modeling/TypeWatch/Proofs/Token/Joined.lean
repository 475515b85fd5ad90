import Mathlib.Data.List.TakeWhile
import TypeWatch.Proofs.Syntax.Moved
import TypeWatch.Proofs.Token.Lines

/-! # The layout of texts side by side

Pieces leave a state behind in which the pieces after them are looked at (`Layout.run_append`). What comes before
a text moves its tokens (`Layout.run_later`). Where a text ends with a line, the blocks that are open there are
closed before the first token of what comes after it (`Layout.run_belowBlocks`). -/
namespace TypeWatch
set_option autoImplicit false

/-! ## Places behind a text -/

/-- Where a place of a text is if other text comes before it. -/
def Position.later (before : List Char) (p : Position) : Position :=
  ⟨p.offset + Text.byteLength before, p.line + Text.lineFeeds before⟩

theorem Position.later_after (before : List Char) (p : Position) (cs : List Char) :
    (p.after cs).later before = (p.later before).after cs := by
  simp only [later, after, Position.mk.injEq]
  omega

/-- The motion that takes the beginnings and the ends of nodes along in the same way. -/
def Motion.along (f : Position → Position) : Motion := { start := f, stop := f }

def Motion.later (before : List Char) : Motion := { start := Position.later before, stop := Position.later before }

/-- The motion of a text behind other text, where the last token of that ends at a place. -/
def Motion.behind (before : List Char) (p : Position) : Motion :=
  { start := Position.later before, stop := fun q => if q = .first then p else q.later before }

def Motion.still : Motion := { start := id, stop := id }

theorem Motion.plain_later (before : List Char) : (later before).Plain := fun _ _ => rfl

theorem Motion.plain_behind (before : List Char) (p : Position) : (behind before p).Plain := fun _ _ => rfl

theorem Motion.plain_still : still.Plain := fun _ _ => rfl

theorem Token.map_still (ts : List Token) : ts.map (Token.moved .still) = ts :=
  List.map_id'' (fun t => Motion.plain_still.moved t) ts

namespace Layout

/-! ## States after pieces -/

/-- The state after some pieces, and the tokens that they bring. -/
def walk (s : State) : List Piece → Except SyntaxError (State × List Token)
  | [] => .ok (s, [])
  | piece :: pieces => do
    let (s, first) ← step s piece
    let (s, others) ← walk s pieces
    return (s, first ++ others)

theorem walk_cons_ok {s s' : State} {piece : Piece} {pieces : List Piece} {tokens : List Token}
    (h : walk s (piece :: pieces) = .ok (s', tokens)) : ∃ s1 first others, step s piece = .ok (s1, first) ∧
      walk s1 pieces = .ok (s', others) ∧ tokens = first ++ others := by
  obtain ⟨⟨s1, first⟩, hstep, h⟩ := exists_of_bind_ok h
  obtain ⟨⟨s2, others⟩, hwalk, h⟩ := exists_of_bind_ok h
  obtain ⟨rfl, rfl⟩ := Prod.mk.inj (Except.ok.inj h)
  exact ⟨s1, first, others, hstep, hwalk, rfl⟩

theorem run_append (s : State) (fault : Option Fault) (pieces more : List Piece) :
    run s fault (pieces ++ more) =
      walk s pieces >>= fun a => (run a.1 fault more).map (a.2 ++ ·) := by
  induction pieces generalizing s with
  | nil => exact (map_nil_append _).symm
  | cons piece pieces ih =>
    cases hstep : step s piece with
    | error e => simp only [List.cons_append, run, walk, hstep, bind, Except.bind]
    | ok a =>
      obtain ⟨s1, first⟩ := a
      rw [List.cons_append, run_of_step hstep, ih]
      simp only [walk, hstep, bind, Except.bind]
      cases walk s1 pieces with
      | error e => rfl
      | ok a =>
        change ((run a.1 fault more).map (a.2 ++ ·)).map (first ++ ·) = (run a.1 fault more).map (first ++ a.2 ++ ·)
        cases run a.1 fault more with
        | error e => rfl
        | ok others => exact congrArg Except.ok (List.append_assoc first a.2 others).symm

/-- The tokens of pieces are those that they bring and those of the state that they leave. -/
theorem run_eq_walk (s : State) (pieces : List Piece) :
    run s none pieces = (walk s pieces).map fun a => a.2 ++ finish a.1 := by
  have happend := run_append s none pieces []
  rw [List.append_nil] at happend
  rw [happend]
  cases walk s pieces <;> rfl

/-! ## States that occur -/

/-- What holds of every state in a run. No block is open at the first column, and the indentation of a line has
been looked at when a token stands on it. -/
structure State.Sound (s : State) : Prop where
  indents : ∀ i ∈ s.indents, 0 < i
  margin : s.begun = true → s.margin = none
  position : s.begun = true → s.position ≠ .first

theorem sound_initial : State.initial.Sound := ⟨nofun, nofun, nofun⟩

theorem ne_first_after (p : Position) {cs : List Char} (h : cs ≠ []) : p.after cs ≠ .first := by
  intro heq
  have hlt := (p.lt_after h).1
  rw [heq] at hlt
  exact absurd hlt (Nat.not_lt_zero _)

/-- What the indentation of a line leaves. -/
theorem openLine_sound {s s' : State} {marks : List Token} (hs : s.Sound) (h : openLine s = .ok (s', marks)) :
    s'.Sound ∧ s'.margin = none ∧ s'.begun = s.begun ∧ s'.depth = s.depth := by
  cases hmargin : s.margin with
  | none =>
    rw [openLine_of_none hmargin] at h
    obtain ⟨rfl, -⟩ := Prod.mk.inj (Except.ok.inj h)
    exact ⟨hs, hmargin, rfl, rfl⟩
  | some column =>
    simp only [openLine, hmargin, closeBlocks_eq] at h
    split at h
    · rename_i hlt
      obtain ⟨rfl, -⟩ := Prod.mk.inj (Except.ok.inj h)
      exact ⟨⟨List.forall_mem_cons.mpr ⟨Nat.zero_lt_of_lt hlt, hs.indents⟩, fun _ => rfl, hs.position⟩, rfl, rfl, rfl⟩
    · split at h
      · obtain ⟨rfl, -⟩ := Prod.mk.inj (Except.ok.inj h)
        have hkept := List.dropWhile_sublist (l := s.indents) fun i => decide (column < i)
        exact ⟨⟨fun i hi => hs.indents i (hkept.subset hi), fun _ => rfl, hs.position⟩, rfl, rfl, rfl⟩
      · cases h

theorem step_sound {s s' : State} {piece : Piece} {tokens : List Token} (hw : piece.WellFormed) (hs : s.Sound)
    (h : step s piece = .ok (s', tokens)) : s'.Sound := by
  cases steps_of_step h with
  | lineEnd => exact ⟨hs.indents, nofun, nofun⟩
  | joined => exact ⟨hs.indents, hs.margin, fun _ => ne_first_after _ hw.chars_ne⟩
  | blanks =>
    refine ⟨hs.indents, fun hbegun => ?_, fun _ => ne_first_after _ hw.chars_ne⟩
    rw [hs.margin hbegun]
    rfl
  | comment => exact ⟨hs.indents, fun _ => rfl, fun _ => ne_first_after _ hw.chars_ne⟩
  | continuation chars hopen =>
    obtain ⟨hsound, hmargin, -⟩ := openLine_sound hs hopen
    exact ⟨hsound.indents, fun _ => hmargin, fun _ => ne_first_after _ hw.chars_ne⟩
  | token kind chars hopen =>
    obtain ⟨hsound, hmargin, -⟩ := openLine_sound hs hopen
    exact ⟨hsound.indents, fun _ => hmargin, fun _ => ne_first_after _ hw.chars_ne⟩

theorem walk_sound {s s' : State} {pieces : List Piece} {tokens : List Token} (hw : ∀ p ∈ pieces, p.WellFormed)
    (hs : s.Sound) (h : walk s pieces = .ok (s', tokens)) :
    s'.Sound ∧ s'.position = s.position.after (pieces.flatMap Piece.chars) := by
  induction pieces generalizing s tokens with
  | nil =>
    obtain ⟨rfl, -⟩ := Prod.mk.inj (Except.ok.inj h)
    exact ⟨hs, rfl⟩
  | cons piece pieces ih =>
    obtain ⟨hpiece, hpieces⟩ := List.forall_mem_cons.mp hw
    obtain ⟨s1, first, others, hstep, hwalk, -⟩ := walk_cons_ok h
    obtain ⟨hsound, hposition⟩ := ih hpieces (step_sound hpiece hs hstep) hwalk
    refine ⟨hsound, ?_⟩
    rw [hposition, (step_placed hpiece hstep).1, List.flatMap_cons, Position.after_append]

/-- After a line break outside of brackets a line begins. -/
theorem walk_atLineStart {s s' : State} {pieces : List Piece} {tokens : List Token}
    (h : walk s pieces = .ok (s', tokens)) {q : Piece} (hlast : pieces.getLast? = some q)
    (hbreak : q.lexeme = .lineBreak) (hdepth : s'.depth = 0) : s'.begun = false ∧ s'.margin = some 0 := by
  induction pieces generalizing s tokens with
  | nil => exact absurd hlast nofun
  | cons piece pieces ih =>
    obtain ⟨s1, first, others, hstep, hwalk, -⟩ := walk_cons_ok h
    cases pieces with
    | nil =>
      obtain rfl := Option.some.inj hlast
      obtain ⟨rfl, -⟩ := Prod.mk.inj (Except.ok.inj hwalk)
      obtain ⟨lexeme, chars⟩ := piece
      obtain rfl : lexeme = .lineBreak := hbreak
      cases steps_of_step hstep with
      | lineEnd => exact ⟨rfl, rfl⟩
      | joined _ hopen => exact absurd hdepth hopen
    | cons next pieces =>
      rw [List.getLast?_cons_cons] at hlast
      exact ih hwalk hlast

/-! ## States elsewhere -/

/-- The state at another place. -/
def State.along (f : Position → Position) (s : State) : State := { s with position := f s.position }

section Along

variable (f : Position → Position)

/-- What the indentation of a line leaves does not depend on where the line is. -/
theorem openLine_along {s s' : State} {marks : List Token} (h : openLine s = .ok (s', marks)) :
    openLine (s.along f) = .ok (s'.along f, marks.map (Token.moved (.along f))) := by
  cases hmargin : s.margin with
  | none =>
    have halong : (s.along f).margin = none := hmargin
    rw [openLine_of_none hmargin] at h
    obtain ⟨rfl, rfl⟩ := Prod.mk.inj (Except.ok.inj h)
    exact openLine_of_none halong
  | some column =>
    have halong : (s.along f).margin = some column := hmargin
    have hindent : (s.along f).indent = s.indent := rfl
    have hindents : (s.along f).indents = s.indents := rfl
    simp only [openLine, hmargin, closeBlocks_eq] at h
    simp only [openLine, halong, closeBlocks_eq, hindent, hindents]
    split at h
    · rename_i hlt
      obtain ⟨rfl, rfl⟩ := Prod.mk.inj (Except.ok.inj h)
      rw [if_pos hlt]
      rfl
    · rename_i hlt
      rw [if_neg hlt]
      split at h
      · rename_i hcolumn
        obtain ⟨rfl, rfl⟩ := Prod.mk.inj (Except.ok.inj h)
        rw [if_pos hcolumn, List.map_map]
        rfl
      · cases h

theorem closeLine_along (s : State) : closeLine (s.along f) = (closeLine s).map (Token.moved (.along f)) := by
  have hbegun : (s.along f).begun = s.begun := rfl
  unfold closeLine
  rw [hbegun]
  split <;> rfl

theorem finish_along (s : State) : finish (s.along f) = (finish s).map (Token.moved (.along f)) := by
  simp only [finish, closeLine_along, List.map_append, List.map_map]
  rfl

end Along

/-! ## Runs behind a text -/

/-- The state where other text comes before. -/
def State.later (before : List Char) (s : State) : State := { s with position := s.position.later before }

section Later

variable (before : List Char)

theorem openLine_later {s s' : State} {marks : List Token} (h : openLine s = .ok (s', marks)) :
    openLine (s.later before) = .ok (s'.later before, marks.map (Token.moved (.later before))) :=
  openLine_along (Position.later before) h

theorem closeLine_later (s : State) :
    closeLine (s.later before) = (closeLine s).map (Token.moved (.later before)) :=
  closeLine_along (Position.later before) s

theorem finish_later (s : State) : finish (s.later before) = (finish s).map (Token.moved (.later before)) :=
  finish_along (Position.later before) s

theorem advance_later (s : State) (chars : List Char) :
    (s.later before).advance chars = (s.advance chars).later before := by
  simp only [State.advance, State.later, Position.later_after]

theorem step_later {s s' : State} {piece : Piece} {tokens : List Token} (h : step s piece = .ok (s', tokens)) :
    step (s.later before) piece = .ok (s'.later before, tokens.map (Token.moved (.later before))) := by
  cases steps_of_step h with
  | lineEnd chars hdepth =>
    have hlater : (s.later before).depth = 0 := hdepth
    simp only [step, if_pos hlater, advance_later, closeLine_later]
    rfl
  | joined chars hdepth =>
    have hlater : (s.later before).depth ≠ 0 := hdepth
    simp only [step, if_neg hlater, advance_later]
    rfl
  | blanks chars | comment chars =>
    simp only [step, advance_later]
    rfl
  | continuation chars hopen =>
    simp only [step, openLine_later before hopen, bind, Except.bind, pure, Except.pure, advance_later]
  | @token kind chars opened marks hopen =>
    simp only [step, openLine_later before hopen, bind, Except.bind, pure, Except.pure, advance_later,
      List.map_append, List.map_cons, List.map_nil, (Motion.plain_later before).moved]
    rfl

theorem run_later {s : State} {pieces : List Piece} {tokens : List Token} (h : run s none pieces = .ok tokens) :
    run (s.later before) none pieces = .ok (tokens.map (Token.moved (.later before))) := by
  induction pieces generalizing s tokens with
  | nil =>
    obtain rfl := Except.ok.inj h
    exact congrArg Except.ok (finish_later before s)
  | cons piece pieces ih =>
    obtain ⟨s', first, others, hstep, hrest, rfl⟩ := run_cons_ok h
    rw [run_of_step (step_later before hstep), ih hrest, List.map_append]
    rfl

/-! ## Runs below open blocks -/

/-- The state where the text before leaves blocks open. -/
def State.below (indents : List Nat) (s : State) : State := { s.later before with indents := indents }

/-- A line outside of all blocks and brackets that has no token yet, and the pieces ahead. -/
structure State.Outermost (s : State) (pieces : List Piece) : Prop where
  depth : s.depth = 0
  begun : s.begun = false
  indents : s.indents = []
  margin : s.margin = none → ∀ q ∈ pieces.head?, q.lexeme = .lineBreak

/-- A text whose first token opens no block has its first token at the first column. -/
theorem margin_of_first {s : State} {piece : Piece} {pieces : List Piece} (hs : s.Outermost (piece :: pieces))
    (hkind : Piece.Opens piece) {tokens : List Token} (h : run s none (piece :: pieces) = .ok tokens)
    (hfirst : ∀ t ∈ tokens.head?, t.kind ≠ .indent) : s.margin = some 0 := by
  cases hmargin : s.margin with
  | none =>
    have hbreak := hs.margin hmargin piece rfl
    rcases hkind with hkind | ⟨kind, hkind⟩ <;> cases hbreak.symm.trans hkind
  | some column =>
    by_contra hne
    have hlt : s.indent < column := by
      rw [State.indent, hs.indents]
      exact Nat.pos_of_ne_zero fun hzero => hne (congrArg some hzero)
    have hopen : openLine s = .ok ({ s with indents := column :: s.indents, margin := none },
        [Token.layout .indent s.position]) := by
      rw [openLine, hmargin]
      exact if_pos hlt
    rw [run_of_open hkind hopen rfl] at h
    cases hrest : run { s with indents := column :: s.indents, margin := none } none (piece :: pieces) with
    | error e =>
      rw [hrest] at h
      cases h
    | ok others =>
      rw [hrest] at h
      obtain rfl := Except.ok.inj h
      exact hfirst _ rfl rfl

/-- Blocks are closed before a line at the first column. -/
theorem openLine_atFirstColumn {s : State} (hmargin : s.margin = some 0) (hindents : ∀ i ∈ s.indents, 0 < i) :
    openLine s = .ok ({ s with indents := [], margin := none },
      s.indents.map fun _ => Token.layout .dedent s.position) := by
  have hall : ∀ i ∈ s.indents, decide (0 < i) = true := fun i hi => decide_eq_true (hindents i hi)
  have hkept : (s.indents.dropWhile fun i => decide (0 < i)) = [] := List.dropWhile_eq_nil_iff.mpr hall
  have hclosed : (s.indents.takeWhile fun i => decide (0 < i)) = s.indents := List.takeWhile_eq_self_iff.mpr hall
  simp only [openLine, hmargin, closeBlocks_eq, hkept, hclosed]
  rw [if_neg (Nat.not_lt_zero _)]
  rfl

/-- A piece before the first token of its line leaves open blocks as they are. -/
theorem step_below {s : State} {piece : Piece} {pieces : List Piece} (hs : s.Outermost (piece :: pieces))
    (hchain : (piece :: pieces).IsChain Piece.Parts) (hgap : ¬Piece.Opens piece) (indents : List Nat) :
    ∃ s', step s piece = .ok (s', []) ∧ step (s.below before indents) piece = .ok (s'.below before indents, []) ∧
      s'.Outermost pieces := by
  have hadvance : (s.below before indents).advance piece.chars = (s.advance piece.chars).below before indents := by
    simp only [State.advance, State.below, State.later, Position.later_after]
  obtain ⟨lexeme, chars⟩ := piece
  cases lexeme with
  | lineBreak =>
    have hclose {s' : State} (hbegun : s'.begun = false) : closeLine s' = [] := by
      rw [closeLine, hbegun]
      rfl
    have hdepth : (s.below before indents).depth = 0 := hs.depth
    have hbegun : (s.below before indents).begun = false := hs.begun
    refine ⟨{ s.advance chars with margin := some 0, begun := false }, ?_, ?_, hs.depth, rfl, hs.indents, by rintro ⟨⟩⟩
    · rw [step, if_pos hs.depth, hclose hs.begun]
    · rw [step, if_pos hdepth, hclose hbegun, hadvance]
      rfl
  | blanks =>
    have hmargin : s.margin ≠ none := fun hnone => absurd (hs.margin hnone _ rfl) (by rintro ⟨⟩)
    refine ⟨{ s.advance chars with margin := s.margin.map fun _ => column chars }, rfl, ?_,
      hs.depth, hs.begun, hs.indents, fun hnone => absurd (Option.map_eq_none_iff.mp hnone) hmargin⟩
    rw [step, hadvance]
    rfl
  | comment =>
    have hnext : ∀ q ∈ pieces.head?, q.lexeme = .lineBreak :=
      fun q hq => ((List.isChain_cons.mp hchain).1 q hq).2 rfl
    refine ⟨{ s.advance chars with margin := none }, rfl, ?_, hs.depth, hs.begun, hs.indents, fun _ => hnext⟩
    rw [step, hadvance]
    rfl
  | continuation => exact absurd (Or.inl rfl) hgap
  | token kind => exact absurd (Or.inr ⟨kind, rfl⟩) hgap

/-- The first piece of a line at the first column closes the blocks that are open before it. -/
theorem run_below_of_opens {s : State} {piece : Piece} {pieces : List Piece} {tokens : List Token} {indents : List Nat}
    (hs : s.Outermost (piece :: pieces)) (hkind : Piece.Opens piece) (hindents : ∀ i ∈ indents, 0 < i)
    (h : run s none (piece :: pieces) = .ok tokens) (hfirst : ∀ t ∈ tokens.head?, t.kind ≠ .indent) :
    ∃ p, run (s.below before indents) none (piece :: pieces) =
      .ok (indents.map (fun _ => Token.layout .dedent p) ++ tokens.map (Token.moved (.later before))) := by
  have hmargin := margin_of_first hs hkind h hfirst
  have hopen := openLine_atFirstColumn hmargin (by rw [hs.indents]; nofun)
  rw [run_of_open hkind hopen rfl, hs.indents, List.map_nil, map_nil_append] at h
  refine ⟨(s.below before indents).position, ?_⟩
  rw [run_of_open hkind (openLine_atFirstColumn (s := s.below before indents) hmargin hindents) rfl]
  exact congrArg (Except.map _) (run_later before h)

/-- The blocks that are open before a text are closed where its first line with a token begins, or at its end. -/
theorem run_belowBlocks {s : State} {pieces : List Piece} {tokens : List Token} {indents : List Nat}
    (hs : s.Outermost pieces) (hchain : pieces.IsChain Piece.Parts) (hindents : ∀ i ∈ indents, 0 < i)
    (h : run s none pieces = .ok tokens) (hfirst : ∀ t ∈ tokens.head?, t.kind ≠ .indent) :
    ∃ p, run (s.below before indents) none pieces =
      .ok (indents.map (fun _ => Token.layout .dedent p) ++ tokens.map (Token.moved (.later before))) := by
  induction pieces generalizing s tokens with
  | nil =>
    obtain rfl := Except.ok.inj h
    refine ⟨s.position.later before, congrArg Except.ok ?_⟩
    have hbegun : (s.below before indents).begun = false := hs.begun
    simp only [finish, closeLine, hbegun, hs.begun, hs.indents]
    rfl
  | cons piece pieces ih =>
    by_cases hkind : Piece.Opens piece
    · exact run_below_of_opens before hs hkind hindents h hfirst
    · obtain ⟨s', hstep, hbelow, hs'⟩ := step_below before hs hchain hkind indents
      rw [run_of_step hstep, map_nil_append] at h
      rw [run_of_step hbelow, map_nil_append]
      exact ih hs' hchain.tail h hfirst

end Later

end Layout
end TypeWatch
