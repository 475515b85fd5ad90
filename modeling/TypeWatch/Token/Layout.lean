import TypeWatch.Lexeme.Basic
import TypeWatch.Token.Basic

/-! The tokens of a source text. The pieces of the text that are tokens keep their order, and between
them stand the tokens of the layout: one at the end of every line that holds a token, and one for
every indentation that a line opens or closes. Brackets join lines. -/
namespace TypeWatch.Layout
set_option autoImplicit false

/-! ## Lines -/

/-- The column after some blanks: a tab goes on to the next multiple of eight, and a form feed back to
the first column. -/
def column (blanks : List Char) : Nat :=
  blanks.foldl (fun n c => if c = '\t' then (n / 8 + 1) * 8 else if c = '\x0c' then 0 else n + 1) 0

@[simp] theorem column_nil : column [] = 0 := rfl

theorem column_tab (blanks : List Char) : column (blanks ++ ['\t']) = (column blanks / 8 + 1) * 8 := by
  simp [column]

theorem column_formFeed (blanks : List Char) : column (blanks ++ ['\x0c']) = 0 := by
  simp [column]

/-- Any other blank is one column wide. -/
theorem column_blank (blanks : List Char) {c : Char} (htab : c ≠ '\t') (hfeed : c ≠ '\x0c') :
    column (blanks ++ [c]) = column blanks + 1 := by
  simp [column, htab, hfeed]

/-- What the layout depends on. `margin` is the column reached at the start of a line, before anything
but blanks is seen; `begun` says whether a token stands on the line; `indents` are the columns of
the open blocks, the innermost first. -/
structure State where
  position : Position
  depth : Nat
  indents : List Nat
  margin : Option Nat
  begun : Bool

namespace State

def initial : State := ⟨.first, 0, [], some 0, false⟩

/-- The column of the innermost open block. -/
def indent (s : State) : Nat := s.indents.headD 0

/-- The state after some characters that are no token. -/
def advance (s : State) (chars : List Char) : State := { s with position := s.position.after chars }

end State

/-- Closes the blocks whose column is beyond the given one. -/
def closeBlocks (p : Position) (column : Nat) : List Nat → List Nat × List Token
  | [] => ([], [])
  | i :: is =>
    if column < i then
      let (rest, tokens) := closeBlocks p column is
      (rest, Token.layout .dedent p :: tokens)
    else (i :: is, [])

/-- The tokens for the indentation of a line that counts, and the state in which the line goes on. -/
def openLine (s : State) : Except SyntaxError (State × List Token) :=
  match s.margin with
  | none => .ok (s, [])
  | some column =>
    if s.indent < column then
      .ok ({ s with indents := column :: s.indents, margin := none },
        [Token.layout .indent s.position])
    else
      let (indents, tokens) := closeBlocks s.position column s.indents
      if column = indents.headD 0 then .ok ({ s with indents := indents, margin := none }, tokens)
      else .error ⟨.inconsistentIndentation, s.position⟩

/-- The number of open brackets after a token. -/
def depthAfter (depth : Nat) : TokenKind → Nat
  | .op o => if o.opens then depth + 1 else if o.closes then depth - 1 else depth
  | _ => depth

/-- The token that ends a line that holds one. -/
def closeLine (s : State) : List Token :=
  if s.begun then [Token.layout .newline s.position] else []

/-- The tokens that a piece brings, and the state after it. -/
def step (s : State) (piece : Piece) : Except SyntaxError (State × List Token) :=
  match piece.lexeme with
  | .lineBreak =>
    if s.depth = 0 then
      .ok ({ s.advance piece.chars with margin := some 0, begun := false }, closeLine s)
    else .ok (s.advance piece.chars, [])
  | .blanks => .ok ({ s.advance piece.chars with margin := s.margin.map fun _ => column piece.chars }, [])
  | .comment => .ok ({ s.advance piece.chars with margin := none }, [])
  | .continuation => do
    let (s, tokens) ← openLine s
    return (s.advance piece.chars, tokens)
  | .token kind => do
    let (s, tokens) ← openLine s
    let after := { s.advance piece.chars with depth := depthAfter s.depth kind, begun := true }
    return (after, tokens ++ [⟨kind, piece.text, ⟨s.position, after.position⟩⟩])

/-! ## Whole texts -/

def finish (s : State) : List Token :=
  closeLine s ++ s.indents.map (fun _ => Token.layout .dedent s.position) ++
    [Token.layout .endOfInput s.position]

/-- A fault ends the reading of its line, whose indentation is looked at first. A carriage return that
ends no line is no character of a line that counts. -/
def stop (s : State) (fault : Fault) : SyntaxError :=
  if fault = .unrecognised "\r" then ⟨fault, s.position⟩
  else match openLine s with
    | .error e => e
    | .ok _ => ⟨fault, s.position⟩

/-- The tokens of some pieces, and of the end or the fault that follows them. -/
def run (s : State) (fault : Option Fault) : List Piece → Except SyntaxError (List Token)
  | [] =>
    match fault with
    | none => .ok (finish s)
    | some fault => .error (stop s fault)
  | piece :: pieces => do
    let (s, tokens) ← step s piece
    return tokens ++ (← run s fault pieces)

end TypeWatch.Layout

namespace TypeWatch

def tokenize (source : String) : Except SyntaxError (List Token) :=
  let (pieces, fault) := Piece.split source.toList
  Layout.run .initial fault pieces

end TypeWatch
