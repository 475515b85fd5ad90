import TypeWatch.Proofs.Token.Pieces

/-! # The layout of logical lines

A text is read line by line: brackets, string literals and backslashes join lines of it to logical lines
(`logicalLines`). Each line that counts opens or closes blocks by its column, and each line with a token
has a line end (`Layout.laidOut`). The tokens of a text are those of its logical lines (`tokenize_lines`). -/
namespace TypeWatch
set_option autoImplicit false

open Lexeme (IsLineBreak)

/-! ## Lines -/

/-- A logical line: the pieces on it, and the characters of the line break after them. The last line of
a text has no line break. -/
structure LogicalLine where
  pieces : List Piece
  ending : List Char

namespace LogicalLine

def body (l : LogicalLine) : List Char := l.pieces.flatMap Piece.chars

def chars (l : LogicalLine) : List Char := l.body ++ l.ending

/-- The blanks that a line begins with. -/
def blanks (l : LogicalLine) : List Char := l.chars.takeWhile Lexeme.isLineBlank

/-- The column of the first character that is no blank. -/
def column (l : LogicalLine) : Nat := Layout.column l.blanks

/-- Whether the first character that is no blank begins neither a line break nor a comment. -/
def counts (l : LogicalLine) : Bool :=
  match l.chars.dropWhile Lexeme.isLineBlank with
  | [] => false
  | c :: _ => c != '\n' && c != '\r' && c != '#'

/-- The tokens of a line that begins at a place. -/
def tokens (l : LogicalLine) (p : Position) : List Token := Layout.tokensFrom p l.pieces

/-- A line with one more piece in front. -/
def cons (piece : Piece) (l : LogicalLine) : LogicalLine := { l with pieces := piece :: l.pieces }

section First

variable {l : LogicalLine} {blanks cs : List Char}

theorem chars_cons (piece : Piece) (l : LogicalLine) : (l.cons piece).chars = piece.chars ++ l.chars := by
  simp only [chars, body, cons, List.flatMap_cons, List.append_assoc]

theorem counts_of_blank (h : ∀ c ∈ l.chars, Lexeme.isLineBlank c = true) : l.counts = false := by
  have hnone : l.chars.dropWhile Lexeme.isLineBlank = [] := by
    rw [← List.append_nil l.chars, List.dropWhile_append_of_pos h, List.dropWhile_nil]
  rw [counts, hnone]

/-- The first character after some blanks, if it is no blank. -/
theorem counts_eq {c : Char} (hchars : l.chars = blanks ++ c :: cs)
    (hblanks : ∀ d ∈ blanks, Lexeme.isLineBlank d = true) (hc : Lexeme.isLineBlank c = false) :
    l.blanks = blanks ∧ l.counts = (c != '\n' && c != '\r' && c != '#') := by
  have hstop : ¬Lexeme.isLineBlank c = true := by simp [hc]
  constructor
  · rw [LogicalLine.blanks, hchars, List.takeWhile_append_of_pos hblanks, List.takeWhile_cons_of_neg hstop,
      List.append_nil]
  · rw [counts, hchars, List.dropWhile_append_of_pos hblanks, List.dropWhile_cons_of_neg hstop]

end First

end LogicalLine

namespace Layout

/-- The number of open brackets after a piece. A closing bracket counts if there is an open one. -/
def bracketsAfter (depth : Nat) (piece : Piece) : Nat :=
  match piece.lexeme with
  | .token kind => depthAfter depth kind
  | _ => depth

/-- The logical lines of pieces, of which the first is in some brackets. -/
def logicalLines (depth : Nat) : List Piece → List LogicalLine
  | [] => [⟨[], []⟩]
  | piece :: pieces =>
    if piece.lexeme = .lineBreak ∧ depth = 0 then ⟨[], piece.chars⟩ :: logicalLines 0 pieces
    else (logicalLines (bracketsAfter depth piece) pieces).modifyHead (.cons piece)

/-! ## Discipline -/

/-- The columns of the open blocks, the innermost first, after a line with a column, and the tokens for
the block that it opens or those that it closes. -/
def indentation (p : Position) (column : Nat) (stack : List Nat) : Except SyntaxError (List Nat × List Token) :=
  if stack.headD 0 < column then .ok (column :: stack, [Token.layout .indent p])
  else
    let kept := stack.dropWhile fun i => column < i
    let closed := stack.takeWhile fun i => column < i
    if kept.head? = some column then .ok (kept, closed.map fun _ => Token.layout .dedent p)
    else .error ⟨.inconsistentIndentation, p⟩

/-- The line end after the tokens of a line, if there are some. -/
def lineEnd (begun : Bool) (p : Position) (l : LogicalLine) : List Token :=
  if begun || !(l.tokens p).isEmpty then [Token.layout .newline (p.after l.body)] else []

/-- The blocks that a line opens or closes. A line that does not count leaves them as they are. -/
def blocks (p : Position) (stack : List Nat) (l : LogicalLine) : Except SyntaxError (List Nat × List Token) :=
  if l.counts then indentation (p.after l.blanks) l.column stack else .ok (stack, [])

/-- The tokens of logical lines that begin at a place, with the columns of the open blocks. -/
def laidOut (p : Position) (stack : List Nat) : List LogicalLine → Except SyntaxError (List Token)
  | [] => .ok (stack.dropLast.map (fun _ => Token.layout .dedent p) ++ [Token.layout .endOfInput p])
  | l :: ls => do
    let (stack, marks) ← blocks p stack l
    let others ← laidOut (p.after l.chars) stack ls
    return marks ++ (l.tokens p ++ (lineEnd false p l ++ others))

/-- The tokens of the rest of a line and of the lines after it. -/
def goesOn (p : Position) (begun : Bool) (stack : List Nat) : List LogicalLine → Except SyntaxError (List Token)
  | [] => laidOut p stack []
  | l :: ls => (laidOut (p.after l.chars) stack ls).map fun others => l.tokens p ++ (lineEnd begun p l ++ others)

section Discipline

variable {p : Position} {stack : List Nat} {l : LogicalLine} {ls : List LogicalLine}

theorem laidOut_counted (h : l.counts = true) : laidOut p stack (l :: ls) =
    indentation (p.after l.blanks) l.column stack >>= fun opened =>
      (goesOn p false opened.1 (l :: ls)).map (opened.2 ++ ·) := by
  rw [laidOut, blocks, if_pos h]
  cases indentation (p.after l.blanks) l.column stack with
  | error e => rfl
  | ok opened =>
    change (laidOut (p.after l.chars) opened.1 ls >>= fun others => pure _) = (goesOn p false opened.1 (l :: ls)).map _
    rw [goesOn]
    cases laidOut (p.after l.chars) opened.1 ls <;> rfl

theorem laidOut_uncounted (h : l.counts = false) : laidOut p stack (l :: ls) = goesOn p false stack (l :: ls) := by
  rw [laidOut, blocks, if_neg (by simp [h]), goesOn]
  change (laidOut (p.after l.chars) stack ls >>= fun others => pure _) = _
  cases laidOut (p.after l.chars) stack ls <;> rfl

end Discipline

theorem exists_logicalLines (depth : Nat) (pieces : List Piece) : ∃ l ls, logicalLines depth pieces = l :: ls := by
  induction pieces generalizing depth with
  | nil => exact ⟨_, _, rfl⟩
  | cons piece pieces ih =>
    rw [logicalLines]
    split
    · exact ⟨_, _, rfl⟩
    · obtain ⟨l, ls, hlines⟩ := ih (bracketsAfter depth piece)
      rw [hlines]
      exact ⟨_, _, rfl⟩

/-- One more piece in front of a line brings its token. -/
theorem goesOn_cons (p : Position) (begun : Bool) (stack : List Nat) (piece : Piece) {ls : List LogicalLine}
    (hls : ls ≠ []) : goesOn p begun stack (ls.modifyHead (.cons piece)) =
      (goesOn (p.after piece.chars) (begun || (tokenAt? p piece).isSome) stack ls).map
        ((tokenAt? p piece).toList ++ ·) := by
  obtain ⟨l, ls, rfl⟩ := List.exists_cons_of_ne_nil hls
  have hchars : p.after (l.cons piece).chars = (p.after piece.chars).after l.chars := by
    rw [LogicalLine.chars_cons, Position.after_append]
  have htokens : (l.cons piece).tokens p = (tokenAt? p piece).toList ++ l.tokens (p.after piece.chars) := rfl
  have hend : lineEnd begun p (l.cons piece) =
      lineEnd (begun || (tokenAt? p piece).isSome) (p.after piece.chars) l := by
    have hbody : p.after (l.cons piece).body = (p.after piece.chars).after l.body := by
      simp only [LogicalLine.body, LogicalLine.cons, List.flatMap_cons, Position.after_append]
    rw [lineEnd, lineEnd, htokens, hbody]
    cases tokenAt? p piece <;> simp
  rw [List.modifyHead_cons, goesOn, goesOn, hchars, htokens, hend]
  cases laidOut ((p.after piece.chars).after l.chars) stack ls <;> simp [Except.map]

/-! ## Steps -/

/-- A piece on a line whose indentation has been looked at. -/
theorem step_inLine {s : State} (hmargin : s.margin = none) {piece : Piece}
    (hgoes : ¬(piece.lexeme = .lineBreak ∧ s.depth = 0)) :
    ∃ s', step s piece = .ok (s', (tokenAt? s.position piece).toList) ∧
      s'.position = s.position.after piece.chars ∧ s'.depth = bracketsAfter s.depth piece ∧
      s'.indents = s.indents ∧ s'.margin = none ∧ s'.begun = (s.begun || (tokenAt? s.position piece).isSome) := by
  obtain ⟨position, depth, indents, margin, begun⟩ := s
  obtain ⟨lexeme, chars⟩ := piece
  obtain rfl : margin = none := hmargin
  cases lexeme with
  | lineBreak =>
    have hdepth : depth ≠ 0 := fun h => hgoes ⟨rfl, h⟩
    exact ⟨_, if_neg hdepth, rfl, rfl, rfl, rfl, (Bool.or_false _).symm⟩
  | continuation | blanks | comment => exact ⟨_, rfl, rfl, rfl, rfl, rfl, (Bool.or_false _).symm⟩
  | token kind => exact ⟨_, rfl, rfl, rfl, rfl, rfl, (Bool.or_true _).symm⟩

theorem run_of_step {s s' : State} {piece : Piece} {first : List Token} (h : step s piece = .ok (s', first))
    (fault : Option Fault) (pieces : List Piece) :
    run s fault (piece :: pieces) = (run s' fault pieces).map (first ++ ·) := by
  rw [run, h]
  cases hrest : run s' fault pieces <;> simp [bind, Except.bind, pure, Except.pure, hrest, Except.map]

theorem openLine_of_none {s : State} (h : s.margin = none) : openLine s = .ok (s, []) := by
  rw [openLine, h]

/-- Whether a piece makes its line count. -/
def Piece.Opens (piece : Piece) : Prop := piece.lexeme = .continuation ∨ ∃ kind, piece.lexeme = .token kind

theorem step_of_fault {s : State} {piece : Piece} {e : SyntaxError} (hkind : Piece.Opens piece)
    (h : openLine s = .error e) : step s piece = .error e := by
  obtain ⟨lexeme, chars⟩ := piece
  rcases hkind with rfl | ⟨kind, rfl⟩
  · simp only [step, h]
    rfl
  · simp only [step, h]
    rfl

/-- A piece that makes its line count, after the tokens for the indentation. -/
theorem step_of_open {s opened : State} {piece : Piece} {marks : List Token} (hkind : Piece.Opens piece)
    (h : openLine s = .ok (opened, marks)) (hmargin : opened.margin = none) :
    step s piece = (step opened piece).map fun next => (next.1, marks ++ next.2) := by
  have hnone := openLine_of_none hmargin
  obtain ⟨lexeme, chars⟩ := piece
  rcases hkind with rfl | ⟨kind, rfl⟩
  · simp only [step, h, hnone, bind, Except.bind, pure, Except.pure, Except.map, List.append_nil]
  · simp only [step, h, hnone, bind, Except.bind, pure, Except.pure, Except.map, List.nil_append]

theorem map_nil_append {ε α : Type} (r : Except ε (List α)) : (r.map fun xs => [] ++ xs) = r := by
  cases r <;> rfl

theorem run_of_open {s opened : State} {piece : Piece} {marks : List Token} (hkind : Piece.Opens piece)
    (h : openLine s = .ok (opened, marks)) (hmargin : opened.margin = none) (pieces : List Piece) :
    run s none (piece :: pieces) = (run opened none (piece :: pieces)).map (marks ++ ·) := by
  have hstep := step_of_open hkind h hmargin
  cases hnext : step opened piece with
  | error e =>
    rw [hnext] at hstep
    simp only [run, hstep, hnext]
    rfl
  | ok next =>
    obtain ⟨s', first⟩ := next
    rw [hnext] at hstep
    rw [run_of_step hstep, run_of_step hnext]
    cases run s' none pieces with
    | error e => rfl
    | ok others => exact congrArg Except.ok (List.append_assoc marks first others)

/-! ## Blocks -/

theorem closeBlocks_eq (p : Position) (column : Nat) (indents : List Nat) :
    closeBlocks p column indents = (indents.dropWhile (fun i => column < i),
      (indents.takeWhile fun i => column < i).map fun _ => Token.layout .dedent p) := by
  induction indents with
  | nil => rfl
  | cons i is ih =>
    rw [closeBlocks]
    split
    · rename_i hi
      rw [ih, List.dropWhile_cons_of_pos (by simpa), List.takeWhile_cons_of_pos (by simpa)]
      rfl
    · rename_i hi
      rw [List.dropWhile_cons_of_neg (by simpa using hi), List.takeWhile_cons_of_neg (by simpa using hi)]
      rfl

/-- The first column of a text stays open. -/
theorem split_stack (column : Nat) (indents : List Nat) :
    (indents ++ [0]).dropWhile (fun i => column < i) = indents.dropWhile (fun i => column < i) ++ [0] ∧
      (indents ++ [0]).takeWhile (fun i => column < i) = indents.takeWhile fun i => column < i := by
  induction indents with
  | nil => simp
  | cons i is ih =>
    by_cases hi : column < i
    · simpa [hi] using ih
    · simp [hi]

theorem head?_stack (indents : List Nat) : (indents ++ [0]).head? = some (indents.headD 0) := by
  cases indents <;> rfl

/-- The indentation of a line is looked at as the discipline says. -/
theorem openLine_eq {s : State} {column : Nat} (h : s.margin = some column) :
    (∃ e, openLine s = .error e ∧ indentation s.position column (s.indents ++ [0]) = .error e) ∨
      ∃ indents marks, openLine s = .ok ({ s with indents := indents, margin := none }, marks) ∧
        indentation s.position column (s.indents ++ [0]) = .ok (indents ++ [0], marks) := by
  have htop : (s.indents ++ [0]).headD 0 = s.indent := by
    rw [State.indent]
    cases s.indents <;> rfl
  obtain ⟨hkept, hclosed⟩ := split_stack column s.indents
  rw [openLine, h, indentation, htop]
  dsimp only
  by_cases hopen : s.indent < column
  · rw [if_pos hopen, if_pos hopen]
    exact Or.inr ⟨_, _, rfl, rfl⟩
  · rw [if_neg hopen, if_neg hopen, closeBlocks_eq, hkept, hclosed, head?_stack]
    dsimp only
    by_cases heq : column = (s.indents.dropWhile fun i => column < i).headD 0
    · rw [if_pos heq, if_pos (congrArg some heq.symm)]
      exact Or.inr ⟨_, _, rfl, rfl⟩
    · rw [if_neg heq, if_neg fun h => heq (Option.some.inj h).symm]
      exact Or.inl ⟨_, rfl, rfl⟩

/-! ## Runs -/

/-- The beginning of a line at a place, after some blanks. -/
structure State.AtMargin (s : State) (p : Position) (blanks : List Char) : Prop where
  margin : s.margin = some (column blanks)
  depth : s.depth = 0
  begun : s.begun = false
  blank : ∀ c ∈ blanks, Lexeme.isLineBlank c = true
  position : s.position = p.after blanks

theorem laidOut_cons_nil (p : Position) (stack : List Nat) (ls : List LogicalLine) :
    laidOut p stack (ls.modifyHead (.cons ⟨.blanks, []⟩)) = laidOut p stack ls := by
  cases ls <;> rfl

section Runs

variable {pieces : List Piece}

/-- Pieces give the tokens of their lines, wherever a line goes on. -/
def GoesOn (pieces : List Piece) : Prop := ∀ s : State, s.margin = none →
  run s none pieces = goesOn s.position s.begun (s.indents ++ [0]) (logicalLines s.depth pieces)

/-- Pieces give the tokens of their lines, wherever a line begins. -/
def Begins (pieces : List Piece) : Prop := ∀ (s : State) (p : Position) (blanks : List Char),
  s.AtMargin p blanks → (blanks ≠ [] → ∀ q ∈ pieces.head?, q.lexeme ≠ .blanks) →
    run s none pieces = laidOut p (s.indents ++ [0]) ((logicalLines 0 pieces).modifyHead (.cons ⟨.blanks, blanks⟩))

theorem goesOn_nil : GoesOn [] := by
  intro s _
  have hstack : (s.indents ++ [0]).dropLast = s.indents := List.dropLast_concat
  rw [run, logicalLines, goesOn, laidOut, hstack]
  cases hbegun : s.begun with
  | true => simp [finish, closeLine, hbegun, lineEnd, LogicalLine.tokens, tokensFrom, LogicalLine.body,
      LogicalLine.chars, Except.map]
  | false => simp [finish, closeLine, hbegun, lineEnd, LogicalLine.tokens, tokensFrom, LogicalLine.body,
      LogicalLine.chars, Except.map]

theorem goesOn_step {piece : Piece} (hnext : GoesOn pieces) (hbegins : Begins pieces) : GoesOn (piece :: pieces) := by
  intro s hmargin
  by_cases hgoes : piece.lexeme = .lineBreak ∧ s.depth = 0
  · obtain ⟨lexeme, chars⟩ := piece
    obtain ⟨rfl, hdepth⟩ : lexeme = .lineBreak ∧ s.depth = 0 := hgoes
    let fresh : State := { s.advance chars with margin := some 0, begun := false }
    have hstep : step s ⟨.lineBreak, chars⟩ = .ok (fresh, closeLine s) := if_pos hdepth
    have hfresh : fresh.AtMargin (s.position.after chars) [] := ⟨rfl, hdepth, rfl, nofun, rfl⟩
    have hrun := hbegins fresh _ [] hfresh fun hne => absurd rfl hne
    rw [laidOut_cons_nil] at hrun
    have hend : lineEnd s.begun s.position ⟨[], chars⟩ = closeLine s := by
      cases hbegun : s.begun <;> simp [lineEnd, closeLine, hbegun, LogicalLine.tokens, tokensFrom, LogicalLine.body]
    rw [run_of_step hstep, hrun, logicalLines, if_pos ⟨rfl, hdepth⟩, goesOn, hend]
    rfl
  · obtain ⟨s', hstep, hposition, hdepth, hindents, hmargin', hbegun⟩ := step_inLine hmargin hgoes
    obtain ⟨l, ls, hlines⟩ := exists_logicalLines (bracketsAfter s.depth piece) pieces
    rw [run_of_step hstep, hnext s' hmargin', hposition, hdepth, hindents, hbegun, logicalLines, if_neg hgoes]
    rw [goesOn_cons _ _ _ _ (by rw [hlines]; exact List.cons_ne_nil _ _)]

/-- The first line of pieces begins with the first character of the first one. -/
theorem first_logicalLines {piece : Piece} {c : Char} {cs : List Char} (hchars : piece.chars = c :: cs)
    (pieces : List Piece) : ∃ l ls ds, logicalLines 0 (piece :: pieces) = l :: ls ∧ l.chars = c :: ds := by
  rw [logicalLines]
  split
  · refine ⟨_, _, cs, rfl, ?_⟩
    simp [LogicalLine.chars, LogicalLine.body, hchars]
  · obtain ⟨l, ls, hlines⟩ := exists_logicalLines (bracketsAfter 0 piece) pieces
    refine ⟨l.cons piece, ls, cs ++ l.chars, by rw [hlines]; rfl, ?_⟩
    rw [LogicalLine.chars_cons, hchars, List.cons_append]

/-- What is left of a line at its margin, if the margin is looked at no more. -/
theorem goesOn_of_margin {s : State} {p : Position} {blanks : List Char} (h : s.AtMargin p blanks)
    (hgoes : GoesOn pieces) (indents : List Nat) :
    run { s with indents := indents, margin := none } none pieces =
      goesOn p false (indents ++ [0]) ((logicalLines 0 pieces).modifyHead (.cons ⟨.blanks, blanks⟩)) := by
  obtain ⟨l, ls, hlines⟩ := exists_logicalLines 0 pieces
  have hrun : run { s with indents := indents, margin := none } none pieces =
      goesOn s.position s.begun (indents ++ [0]) (logicalLines s.depth pieces) := hgoes _ rfl
  rw [hrun, h.depth, h.begun, h.position, goesOn_cons _ _ _ _ (by rw [hlines]; exact List.cons_ne_nil _ _)]
  exact (map_nil_append _).symm

theorem begins_nil : Begins [] := by
  intro s p blanks h _
  have hblank : ∀ c ∈ (LogicalLine.cons ⟨.blanks, blanks⟩ ⟨[], []⟩).chars, Lexeme.isLineBlank c = true := by
    rw [LogicalLine.chars_cons]
    simpa [LogicalLine.chars, LogicalLine.body] using h.blank
  have hrun := goesOn_of_margin h goesOn_nil s.indents
  rw [logicalLines, List.modifyHead_cons] at hrun ⊢
  rw [laidOut_uncounted (LogicalLine.counts_of_blank hblank), ← hrun]
  rfl

/-- Blanks at the beginning of a line move its margin. -/
theorem begins_blanks {chars : List Char} (hblank : ∀ c ∈ chars, Lexeme.isLineBlank c = true)
    (hparts : ∀ q ∈ pieces.head?, q.lexeme ≠ .blanks) (hbegins : Begins pieces) :
    Begins (⟨.blanks, chars⟩ :: pieces) := by
  intro s p blanks h hfirst
  obtain rfl : blanks = [] := by
    by_contra hne
    exact hfirst hne _ rfl rfl
  have hstep : step s ⟨.blanks, chars⟩ = .ok ({ s.advance chars with margin := some (column chars) }, []) := by
    rw [step]
    simp only [h.margin, Option.map_some]
  have hposition : (s.advance chars).position = p.after chars := by
    rw [State.advance, h.position, Position.after_nil]
  have hrun := hbegins { s.advance chars with margin := some (column chars) } p chars
    ⟨rfl, h.depth, h.begun, hblank, hposition⟩ fun _ => hparts
  have hlines : logicalLines 0 (⟨.blanks, chars⟩ :: pieces) =
      (logicalLines 0 pieces).modifyHead (.cons ⟨.blanks, chars⟩) := if_neg fun hbreak => absurd hbreak.1 (by rintro ⟨⟩)
  rw [run_of_step hstep, hrun, laidOut_cons_nil, hlines]
  exact map_nil_append _

/-- A piece that is no blanks begins a line that counts, or one that does not. -/
theorem begins_step {piece : Piece} (hshaped : piece.Shaped) (hblanks : piece.lexeme ≠ .blanks)
    (hgoes : GoesOn (piece :: pieces)) : Begins (piece :: pieces) := by
  intro s p blanks h _
  obtain ⟨c, cs, hchars⟩ := List.exists_cons_of_ne_nil hshaped.chars_ne
  obtain ⟨l, ls, ds, hlines, hline⟩ := first_logicalLines hchars pieces
  have hmargin := goesOn_of_margin h hgoes
  rw [hlines, List.modifyHead_cons] at hmargin ⊢
  have hwhole : (l.cons ⟨.blanks, blanks⟩).chars = blanks ++ c :: ds := by
    rw [LogicalLine.chars_cons, hline]
  have hfirst (hc : Lexeme.isLineBlank c = false) := LogicalLine.counts_eq hwhole h.blank hc
  have huncounted (hc : Lexeme.isLineBlank c = false) (hno : (c != '\n' && c != '\r' && c != '#') = false)
      (hstep : step s piece = step { s with margin := none } piece) :
      run s none (piece :: pieces) = laidOut p (s.indents ++ [0]) (l.cons ⟨.blanks, blanks⟩ :: ls) := by
    rw [laidOut_uncounted ((hfirst hc).2.trans hno), ← hmargin s.indents, run, run, hstep]
  have hcounted (hc : Lexeme.isLineBlank c = false) (hyes : (c != '\n' && c != '\r' && c != '#') = true)
      (hkind : Piece.Opens piece) :
      run s none (piece :: pieces) = laidOut p (s.indents ++ [0]) (l.cons ⟨.blanks, blanks⟩ :: ls) := by
    obtain ⟨hfill, hcounts⟩ := hfirst hc
    rw [laidOut_counted (hcounts.trans hyes), LogicalLine.column, hfill, ← h.position]
    rcases openLine_eq h.margin with ⟨e, hopen, hindent⟩ | ⟨indents, marks, hopen, hindent⟩
    · rw [hindent, run, step_of_fault hkind hopen]
      rfl
    · rw [hindent, run_of_open hkind hopen rfl, hmargin indents]
      rfl
  cases hshaped with
  | @lineBreak chars hbreak =>
    have hstep : step s ⟨.lineBreak, chars⟩ = step { s with margin := none } ⟨.lineBreak, chars⟩ := by
      simp only [step, if_pos h.depth]
      rfl
    rcases hbreak with rfl | rfl
    · obtain ⟨rfl, -⟩ := List.cons.inj hchars
      exact huncounted rfl rfl hstep
    · obtain ⟨rfl, -⟩ := List.cons.inj hchars
      exact huncounted rfl rfl hstep
  | continuation =>
    obtain ⟨rfl, -⟩ := List.cons.inj hchars
    exact hcounted rfl rfl (Or.inl rfl)
  | blanks => exact absurd rfl hblanks
  | comment =>
    obtain ⟨rfl, -⟩ := List.cons.inj hchars
    exact huncounted rfl rfl rfl
  | token hstarts =>
    obtain ⟨rfl, -⟩ := List.cons.inj hchars
    obtain ⟨hfeed, hreturn, -, hblank, hmark⟩ := (Lexeme.startsToken_iff _).mp hstarts
    exact hcounted hblank (by simp [hfeed, hreturn, hmark]) (Or.inr ⟨_, rfl⟩)

/-- The tokens of pieces are those of their logical lines. -/
theorem goesOn_and_begins (hshaped : ∀ q ∈ pieces, q.Shaped) (hchain : pieces.IsChain Piece.Parts) :
    GoesOn pieces ∧ Begins pieces := by
  induction pieces with
  | nil => exact ⟨goesOn_nil, begins_nil⟩
  | cons piece pieces ih =>
    obtain ⟨hpiece, hpieces⟩ := List.forall_mem_cons.mp hshaped
    obtain ⟨hnext, hbegins⟩ := ih hpieces hchain.tail
    have hgoes : GoesOn (piece :: pieces) := goesOn_step hnext hbegins
    refine ⟨hgoes, ?_⟩
    by_cases hblanks : piece.lexeme = .blanks
    · have hparts : ∀ q ∈ pieces.head?, q.lexeme ≠ .blanks :=
        fun q hq => ((List.isChain_cons.mp hchain).1 q hq).1 hblanks
      cases hpiece with
      | blanks hc hcs => exact begins_blanks (List.forall_mem_cons.mpr ⟨hc, hcs⟩) hparts hbegins
      | _ => exact absurd hblanks nofun
    · exact begins_step hpiece hblanks hgoes

end Runs

end Layout

/-! ## Line ends -/

/-- A line end follows a token that is no layout. -/
def LineEndsFollow (tokens : List Token) : Prop := ∀ before t after, tokens = before ++ t :: after →
  t.kind = .newline → ∃ u ∈ before.getLast?, u.kind.isLayout = false

namespace LineEndsFollow

variable {ts us : List Token}

theorem of_none (h : ∀ t ∈ ts, t.kind ≠ .newline) : LineEndsFollow ts := by
  rintro before t after rfl hkind
  exact absurd hkind (h t (List.mem_append_right _ List.mem_cons_self))

theorem append (hts : LineEndsFollow ts) (hus : LineEndsFollow us) : LineEndsFollow (ts ++ us) := by
  intro before t after heq hkind
  rcases List.append_eq_append_iff.mp heq with ⟨middle, rfl, hrest⟩ | ⟨middle, rfl, hrest⟩
  · obtain ⟨u, hu, hlayout⟩ := hus middle t after hrest hkind
    refine ⟨u, ?_, hlayout⟩
    rw [List.getLast?_append, hu]
    rfl
  · cases middle with
    | nil =>
      rw [List.nil_append] at hrest
      obtain ⟨u, hu, -⟩ := hus [] t after hrest.symm hkind
      exact absurd hu nofun
    | cons v middle =>
      obtain ⟨rfl, rfl⟩ := List.cons.inj hrest
      exact hts before t middle rfl hkind

/-- One more token after one that is no layout. -/
theorem concat {u : Token} (h : LineEndsFollow (ts ++ [u])) (hu : u.kind.isLayout = false) (v : Token) :
    LineEndsFollow (ts ++ [u] ++ [v]) := by
  intro before t after heq hkind
  rcases List.eq_nil_or_concat' after with rfl | ⟨after, w, rfl⟩
  · obtain ⟨rfl, -⟩ := List.append_inj' heq rfl
    exact ⟨u, List.getLast?_concat, hu⟩
  · rw [← List.cons_append, ← List.append_assoc] at heq
    obtain ⟨heq, -⟩ := List.append_inj' heq rfl
    exact h before t after heq hkind

end LineEndsFollow

namespace Layout

theorem isLayout_tokensFrom {pieces : List Piece} (hw : ∀ q ∈ pieces, q.WellFormed) (p : Position) :
    ∀ t ∈ tokensFrom p pieces, t.kind.isLayout = false := by
  induction pieces generalizing p with
  | nil => exact List.forall_mem_nil _
  | cons piece pieces ih =>
    obtain ⟨hpiece, hpieces⟩ := List.forall_mem_cons.mp hw
    rw [tokensFrom]
    refine List.forall_mem_append.mpr ⟨fun t ht => ?_, ih hpieces _⟩
    obtain ⟨lexeme, chars⟩ := piece
    cases lexeme with
    | token kind =>
      obtain rfl := Option.some.inj (Option.mem_toList.mp ht)
      exact (hpiece.token kind rfl).1
    | _ => cases ht

theorem marks_indentation {p : Position} {column : Nat} {stack : List Nat} {opened : List Nat × List Token}
    (h : indentation p column stack = .ok opened) : Marks p opened.2 := by
  unfold indentation at h
  split at h
  · cases h
    exact List.forall_mem_singleton.mpr (Or.inl rfl)
  · dsimp only at h
    split at h
    · cases h
      intro t ht
      obtain ⟨_, _, rfl⟩ := List.mem_map.mp ht
      exact Or.inr rfl
    · exact absurd h nofun

/-- The tokens of one line, and its end. -/
theorem lineEndsFollow_line {l : LogicalLine} (hw : ∀ q ∈ l.pieces, q.WellFormed) (p : Position) :
    LineEndsFollow (l.tokens p ++ lineEnd false p l) := by
  have hproper : ∀ t ∈ l.tokens p, t.kind.isLayout = false := isLayout_tokensFrom hw p
  have htokens : LineEndsFollow (l.tokens p) := by
    refine .of_none fun t ht hkind => ?_
    have hlayout := hproper t ht
    rw [hkind] at hlayout
    exact absurd hlayout nofun
  unfold lineEnd
  rcases List.eq_nil_or_concat' (l.tokens p) with hnil | ⟨ts, u, hconcat⟩
  · rw [hnil]
    exact .of_none (List.forall_mem_nil _)
  · rw [hconcat] at hproper htokens ⊢
    rw [if_pos (by simp)]
    exact htokens.concat (hproper u (List.mem_append_right _ List.mem_cons_self)) _

theorem lineEndsFollow_laidOut {lines : List LogicalLine} (hw : ∀ l ∈ lines, ∀ q ∈ l.pieces, q.WellFormed)
    {p : Position} {stack : List Nat} {tokens : List Token} (h : laidOut p stack lines = .ok tokens) :
    LineEndsFollow tokens := by
  induction lines generalizing p stack tokens with
  | nil =>
    cases h
    refine .of_none (List.forall_mem_append.mpr ⟨fun t ht => ?_, List.forall_mem_singleton.mpr nofun⟩)
    obtain ⟨_, _, rfl⟩ := List.mem_map.mp ht
    exact nofun
  | cons l ls ih =>
    obtain ⟨hl, hls⟩ := List.forall_mem_cons.mp hw
    rw [laidOut] at h
    obtain ⟨opened, hopen, h⟩ := exists_of_bind_ok h
    obtain ⟨others, hothers, h⟩ := exists_of_bind_ok h
    cases h
    have hmarks : LineEndsFollow opened.2 := by
      unfold blocks at hopen
      split at hopen
      · exact .of_none fun t ht => (marks_indentation hopen).ne_newline ht
      · cases hopen
        exact .of_none (List.forall_mem_nil _)
    rw [← List.append_assoc (l.tokens p)]
    exact hmarks.append ((lineEndsFollow_line hl p).append (ih hls hothers))

/-! ## Pieces of lines -/

theorem mem_of_mem_logicalLines {depth : Nat} {pieces : List Piece} :
    ∀ l ∈ logicalLines depth pieces, ∀ q ∈ l.pieces, q ∈ pieces := by
  induction pieces generalizing depth with
  | nil =>
    refine List.forall_mem_singleton.mpr ?_
    exact nofun
  | cons piece pieces ih =>
    rw [logicalLines]
    split
    · exact List.forall_mem_cons.mpr ⟨nofun, fun l hl q hq => List.mem_cons_of_mem piece (ih l hl q hq)⟩
    · obtain ⟨l, ls, hlines⟩ := exists_logicalLines (bracketsAfter depth piece) pieces
      have hrest := @ih (bracketsAfter depth piece)
      rw [hlines] at hrest ⊢
      obtain ⟨hl, hls⟩ := List.forall_mem_cons.mp hrest
      refine List.forall_mem_cons.mpr ⟨?_, fun l' hl' q hq => List.mem_cons_of_mem piece (hls l' hl' q hq)⟩
      exact List.forall_mem_cons.mpr ⟨List.mem_cons_self, fun q hq => List.mem_cons_of_mem piece (hl q hq)⟩

/-- The logical lines are the whole text, one after the other. -/
theorem flatMap_logicalLines (depth : Nat) (pieces : List Piece) :
    (logicalLines depth pieces).flatMap LogicalLine.chars = pieces.flatMap Piece.chars := by
  induction pieces generalizing depth with
  | nil => rfl
  | cons piece pieces ih =>
    rw [logicalLines, List.flatMap_cons]
    split
    · rw [List.flatMap_cons, ih]
      rfl
    · obtain ⟨l, ls, hlines⟩ := exists_logicalLines (bracketsAfter depth piece) pieces
      rw [← ih (bracketsAfter depth piece), hlines, List.modifyHead_cons, List.flatMap_cons, List.flatMap_cons,
        LogicalLine.chars_cons, List.append_assoc]

end Layout

/-! ## Texts -/

/-- A text that can be cut into pieces has the tokens of its logical lines, or the fault of the first one
that is indented like no open block. -/
theorem tokenize_lines {source : String} (h : (Piece.split source.toList).2 = none) :
    let lines := Layout.logicalLines 0 (Piece.split source.toList).1
    lines.flatMap LogicalLine.chars = source.toList ∧
      tokenize source = Layout.laidOut .first [0] lines ∧
      ∀ tokens, tokenize source = .ok tokens → LineEndsFollow tokens := by
  intro lines
  have hshaped := Piece.shaped_split source.toList
  have hchain := Piece.isChain_split source.toList
  obtain ⟨rest, htext, hrest⟩ := Piece.split_prefix source.toList
  rw [hrest h, List.append_nil] at htext
  obtain ⟨-, hbegins⟩ := Layout.goesOn_and_begins hshaped hchain
  have hinitial : Layout.State.initial.AtMargin .first [] := ⟨rfl, rfl, rfl, nofun, rfl⟩
  have htokens : tokenize source = Layout.laidOut .first [0] lines := by
    have hrun := hbegins .initial .first [] hinitial fun hne => absurd rfl hne
    rw [Layout.laidOut_cons_nil] at hrun
    change Layout.run .initial (Piece.split source.toList).2 (Piece.split source.toList).1 = _
    rw [h]
    exact hrun
  refine ⟨(Layout.flatMap_logicalLines 0 _).trans htext, htokens, fun tokens hok => ?_⟩
  refine Layout.lineEndsFollow_laidOut (fun l hl q hq => ?_) (htokens.symm.trans hok)
  exact Piece.wellFormed_split source.toList q (Layout.mem_of_mem_logicalLines l hl q hq)

/-- A block with a line in brackets, a comment and a line without a token, and a line joined to the one after
it. The text has no line break at its end. -/
def blockText : String := "if a:\n\tf(\n1)\n # b\n\n\t\\\n\n        c = \\\n d\ne)"

theorem tokenize_blockText : (Piece.split blockText.toList).2 = none ∧
    let lines := Layout.logicalLines 0 (Piece.split blockText.toList).1
    lines.flatMap LogicalLine.chars = blockText.toList ∧
      tokenize blockText = Layout.laidOut .first [0] lines ∧
      ∀ tokens, tokenize blockText = .ok tokens → LineEndsFollow tokens := by
  have hwhole : (Piece.split blockText.toList).2 = none := by decide +kernel
  exact ⟨hwhole, tokenize_lines hwhole⟩

example : (tokenize blockText).toOption.map (fun tokens => tokens.map Token.kind) = some
    [.word .kwIf, .name, .op .colon, .newline, .indent, .name, .op .openParen, .number, .op .closeParen, .newline,
      .name, .op .assign, .name, .newline, .dedent, .name, .op .closeParen, .newline, .endOfInput] := by
  decide +kernel

end TypeWatch
