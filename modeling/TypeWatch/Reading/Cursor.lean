import TypeWatch.Token.Basic
import TypeWatch.Source.Error

/-! A place in a token stream. What is read at a place leaves a later place, and the result says so,
which is why reading ends. -/
namespace TypeWatch.Reading
set_option autoImplicit false

/-- The tokens ahead, up to the one that ends the stream, and the end of the last token behind that
is no layout. -/
structure Cursor where
  rest : List Token
  last : Token
  lastEnd : Position

def Cursor.size (c : Cursor) : Nat := c.rest.length

/-- A value that was read at a place, and the later place after it. -/
structure Advanced (α : Type) (c : Cursor) where
  value : α
  next : Cursor
  lt : next.size < c.size

/-- A value that was read at a place, and the place after it, which may be the same. -/
structure Moved (α : Type) (c : Cursor) where
  value : α
  next : Cursor
  le : next.size ≤ c.size

/-- The reading of something that has tokens. -/
abbrev Read (α : Type) (c : Cursor) := Except SyntaxError (Advanced α c)

/-- The reading of something that may have no tokens. -/
abbrev MayRead (α : Type) (c : Cursor) := Except SyntaxError (Moved α c)

/-- The reading of something that may not be there. -/
abbrev TryRead (α : Type) (c : Cursor) := Option (Advanced α c)

namespace Cursor

/-- The place before the first token. Tokens after the first one that ends a stream do not count, and
a stream that none ends is ended where its last token ends. -/
def ofTokens (tokens : List Token) : Cursor :=
  let body := tokens.takeWhile fun t => t.kind ≠ .endOfInput
  let stop := (tokens.getLast?.map fun t => t.span.stop).getD .first
  ⟨body, (tokens.drop body.length).headD (Token.layout .endOfInput stop), .first⟩

def token (c : Cursor) : Token := c.rest.headD c.last

def kind (c : Cursor) : TokenKind := c.token.kind

/-- The kind of a token ahead. -/
def kindAt (c : Cursor) (n : Nat) : TokenKind := ((c.rest[n]?).map Token.kind).getD .endOfInput

def position (c : Cursor) : Position := c.token.span.start

/-- The stretch from a position to the last token behind. -/
def spanFrom (c : Cursor) (start : Position) : Span := ⟨start, c.lastEnd⟩

def fail {α : Type} (c : Cursor) (fault : Fault) : Except SyntaxError α :=
  .error ⟨fault, c.position⟩

/-- The error of a token that cannot stand at its place. -/
def unexpected {α : Type} (c : Cursor) : Except SyntaxError α := c.fail (.unexpected c.token.shown)

/-- The place after the token ahead. -/
def past (c : Cursor) (t : Token) (rest : List Token) : Cursor :=
  ⟨rest, c.last, if t.kind.isLayout then c.lastEnd else t.span.stop⟩

def next? (c : Cursor) : TryRead Token c :=
  match h : c.rest with
  | [] => none
  | t :: rest => some ⟨t, c.past t rest, by simp [size, past, h]⟩

def accept? (c : Cursor) (kind : TokenKind) : TryRead Token c :=
  match c.next? with
  | some a => if a.value.kind = kind then some a else none
  | none => none

/-- The next token, which has to be of the kind, or else the fault is that of the reader. -/
def demand (c : Cursor) (kind : TokenKind) (fault : Fault) : Read Token c :=
  match c.accept? kind with
  | some a => .ok a
  | none => c.fail fault

def expect (c : Cursor) (kind : TokenKind) : Read Token c :=
  c.demand kind (.unexpected c.token.shown)

def expectName (c : Cursor) : Read String c := do
  let ⟨t, c1, h⟩ ← c.expect .name
  return ⟨t.text, c1, h⟩

/-- The place without the line ends that stand at it. -/
def skipNewlines (c : Cursor) : Cursor :=
  match c.accept? .newline with
  | some ⟨_, c1, _⟩ => c1.skipNewlines
  | none => c
termination_by c.size

end Cursor

/-! ## Values and places -/

namespace Moved

variable {α : Type} {c : Cursor}

/-- Nothing is read. -/
def here (value : α) (c : Cursor) : Moved α c := ⟨value, c, Nat.le_refl _⟩

/-- What was read has tokens. -/
def past (value : α) (next : Cursor) (h : next.size < c.size) : Moved α c :=
  ⟨value, next, Nat.le_of_lt h⟩

end Moved

/-- What was read has tokens. -/
def Read.moved {α : Type} {c : Cursor} (r : Read α c) : MayRead α c :=
  r.map fun a => .past a.value a.next a.lt

/-! ## Readings as seen from an earlier place -/

variable {α : Type} {c d : Cursor}

/-- A reading as one from a place before it. -/
def Read.since (r : Read α d) (h : d.size < c.size) : Read α c :=
  r.map fun a => ⟨a.value, a.next, Nat.lt_trans a.lt h⟩

/-- A reading as one from a place before it. -/
def MayRead.since (r : MayRead α d) (h : d.size < c.size) : Read α c :=
  r.map fun a => ⟨a.value, a.next, Nat.lt_of_le_of_lt a.le h⟩

/-- A reading as one from a place before it. -/
def TryRead.since (r : TryRead α d) (h : d.size < c.size) : TryRead α c :=
  r.map fun a => ⟨a.value, a.next, Nat.lt_trans a.lt h⟩

/-- What was read, as from a place before it. -/
def Moved.since (a : Moved α d) (h : d.size < c.size) : Advanced α c :=
  ⟨a.value, a.next, Nat.lt_of_le_of_lt a.le h⟩

/-- A reading as one from a place that is not after it. -/
def Read.from (r : Read α d) (h : d.size ≤ c.size) : Read α c :=
  r.map fun a => ⟨a.value, a.next, Nat.lt_of_lt_of_le a.lt h⟩

/-- A reading as one from a place that is not after it. -/
def MayRead.from (r : MayRead α d) (h : d.size ≤ c.size) : MayRead α c :=
  r.map fun a => ⟨a.value, a.next, Nat.le_trans a.le h⟩

/-! ## Bounds -/

theorem below_of_lt {n : Nat} (hd : d.size < c.size) (hc : c.size < n) : d.size < n :=
  Nat.lt_trans hd hc

theorem below_upTo {n : Nat} (hd : d.size < c.size) (hc : c.size ≤ n) : d.size < n :=
  Nat.lt_of_lt_of_le hd hc

theorem upTo_of_le {n : Nat} (hd : d.size ≤ c.size) (hc : c.size ≤ n) : d.size ≤ n :=
  Nat.le_trans hd hc

theorem Cursor.size_below (c : Cursor) : c.size < c.size + 1 := Nat.lt_succ_self _

theorem Cursor.size_upTo (c : Cursor) : c.size ≤ c.size := Nat.le_refl _

end TypeWatch.Reading
