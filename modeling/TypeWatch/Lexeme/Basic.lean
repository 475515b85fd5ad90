import TypeWatch.Lexeme.StringLiteral
import TypeWatch.Text.Name
import TypeWatch.Source.Error

/-! A source text cut into pieces: line breaks, line continuations, blanks, comments and the
characters of tokens. The pieces lie side by side, so that together with the part that no piece
begins they are the text. -/
namespace TypeWatch
set_option autoImplicit false

inductive Lexeme where
  | lineBreak
  /-- A line break that does not count, after a backslash. -/
  | continuation
  | blanks
  | comment
  | token (kind : TokenKind)
  deriving DecidableEq, Repr

structure Piece where
  lexeme : Lexeme
  chars : List Char
  deriving DecidableEq, Repr

namespace Lexeme

/-! ## One piece -/

def isLineBlank (c : Char) : Bool := c == ' ' || c == '\t' || c == '\x0c'

def isWithinLine (c : Char) : Bool := c != '\r' && c != '\n'

def lineBreakLength? : List Char → Option Nat
  | '\n' :: _ => some 1
  | '\r' :: '\n' :: _ => some 2
  | _ => none

/-- The kind of a name: a reserved word or a name proper. -/
def wordKind (name : List Char) : TokenKind :=
  match Keyword.ofSpelling? (String.ofList name) with
  | some k => .word k
  | none => .name

/-- The kind of the piece that a text begins with, and its length. The first rule that applies
decides: line breaks, blanks and comments, then string literals, numbers, names and operators. -/
def leading (c : Char) (cs : List Char) : Except Fault (Lexeme × Nat) :=
  let text := c :: cs
  match lineBreakLength? text with
  | some n => .ok (lineBreak, n)
  | none =>
  match if c = '\\' then lineBreakLength? cs else none with
  | some n => .ok (continuation, n + 1)
  | none =>
  if isLineBlank c then .ok (blanks, runLength isLineBlank text)
  else if c = '#' then .ok (comment, runLength isWithinLine text)
  else match literalPrefix? text with
  | some letters =>
    match quotedLength? (text.drop letters) with
    | some n => .ok (token (literalKind (text.take letters)), letters + n)
    | none => .error .unterminatedString
  | none =>
  match numberLength? text with
  | some n => .ok (token .number, n)
  | none =>
  if Text.opensName c then
    let n := 1 + runLength Text.continuesName cs
    .ok (token (wordKind (text.take n)), n)
  else match Operator.leading? text with
  | some o => .ok (token (.op o), o.symbol.length)
  | none => .error (.unrecognised (String.singleton c))

end Lexeme

namespace Piece

/-! ## All pieces -/

def text (p : Piece) : String :=
  match p.lexeme with
  | .token kind => String.ofList (if kind.isString then Lexeme.literalText p.chars else p.chars)
  | _ => String.ofList p.chars

/-- A text cut into pieces, and the fault of the place where no piece begins, if there is one. -/
def split : List Char → List Piece × Option Fault
  | [] => ([], none)
  | c :: cs =>
    match Lexeme.leading c cs with
    | .error fault => ([], some fault)
    | .ok (lexeme, n) =>
      let (pieces, fault) := split (cs.drop (n - 1))
      (⟨lexeme, c :: cs.take (n - 1)⟩ :: pieces, fault)
termination_by cs => cs.length
decreasing_by simp only [List.length_cons, List.length_drop]; omega

/-- The pieces are the beginning of the text, and all of it where there is no fault. -/
theorem split_prefix (cs : List Char) :
    ∃ rest, ((split cs).1.flatMap chars) ++ rest = cs ∧ ((split cs).2 = none → rest = []) := by
  fun_induction split cs with
  | case1 => exact ⟨[], rfl, fun _ => rfl⟩
  | case2 c cs fault h => exact ⟨c :: cs, rfl, fun hf => by simp at hf⟩
  | case3 c cs lexeme n h pieces fault hs ih =>
    obtain ⟨rest, happ, hrest⟩ := ih
    rw [hs] at happ hrest
    refine ⟨rest, ?_, hrest⟩
    simp only [List.flatMap_cons, List.cons_append, List.append_assoc]
    simp only at happ ⊢
    rw [happ, List.take_append_drop]

end Piece
end TypeWatch
