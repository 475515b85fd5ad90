import TypeWatch.Lexeme.Number
import TypeWatch.Token.Basic

/-! String literals: how many characters of a text they take, of what kind they are, and what text
they stand for. A literal is up to two prefix letters and a quoted part. The quotes are one or three
on each side, and a backslash keeps the character after it from ending the quoted part. -/
namespace TypeWatch.Lexeme
set_option autoImplicit false

/-! ## Extent -/

def isPrefixLetter (c : Char) : Bool := "rbufRBUF".toList.contains c

def isQuote (c : Char) : Bool := c == '"' || c == '\''

/-- The length up to and with three closing quotes. -/
def longBodyLength? (q : Char) : List Char → Option Nat
  | '\\' :: _ :: cs => (longBodyLength? q cs).map (· + 2)
  | c :: cs =>
    if c == q && cs.take 2 == [q, q] then some 3
    else if c == '\\' then none
    else (longBodyLength? q cs).map (· + 1)
  | [] => none

/-- The length up to and with one closing quote on the same line. -/
def shortBodyLength? (q : Char) : List Char → Option Nat
  | '\\' :: _ :: cs => (shortBodyLength? q cs).map (· + 2)
  | c :: cs =>
    if c == q then some 1
    else if c == '\\' || c == '\r' || c == '\n' then none
    else (shortBodyLength? q cs).map (· + 1)
  | [] => none

/-- The length of a quoted text. Three quotes that are never closed are an empty text and one more
quote. -/
def quotedLength? : List Char → Option Nat
  | q :: cs =>
    if cs.take 2 == [q, q] then
      match longBodyLength? q (cs.drop 2) with
      | some n => some (n + 3)
      | none => (shortBodyLength? q cs).map (· + 1)
    else (shortBodyLength? q cs).map (· + 1)
  | [] => none

/-- The number of prefix letters, if a text begins with at most two of them and a quote. -/
def literalPrefix? (cs : List Char) : Option Nat :=
  let letters := runLength isPrefixLetter cs
  if letters ≤ 2 && ((cs.drop letters).head?.map isQuote).getD false then some letters else none

/-! ## Meaning -/

def hexValue (c : Char) : Nat :=
  if c.isDigit then c.toNat - '0'.toNat
  else if 'a' ≤ c then c.toNat - 'a'.toNat + 10
  else c.toNat - 'A'.toNat + 10

/-- What a backslash and one more character stand for, if that is one character. -/
def simpleEscape? : Char → Option Char
  | 'n' => some '\n'
  | 't' => some '\t'
  | 'r' => some '\r'
  | '0' => some '\x00'
  | '\\' => some '\\'
  | '\'' => some '\''
  | '"' => some '"'
  | _ => none

/-- The text that the characters between the quotes stand for. A line break after a backslash is left
out, one or two hexadecimal digits after a backslash and the letter x are the number of a character,
and a backslash that begins no escape stands for itself. -/
def unescape : List Char → List Char
  | '\\' :: '\n' :: cs => unescape cs
  | '\\' :: 'x' :: a :: b :: cs =>
    if isHexDigit a then
      if isHexDigit b then Char.ofNat (16 * hexValue a + hexValue b) :: unescape cs
      else Char.ofNat (hexValue a) :: unescape (b :: cs)
    else '\\' :: 'x' :: unescape (a :: b :: cs)
  | ['\\', 'x', a] =>
    if isHexDigit a then [Char.ofNat (hexValue a)] else ['\\', 'x', a]
  | '\\' :: c :: cs =>
    match simpleEscape? c with
    | some e => e :: unescape cs
    | none => '\\' :: c :: unescape cs
  | c :: cs => c :: unescape cs
  | [] => []

def unquoted (quoted : List Char) : List Char :=
  let n := match quoted with
    | a :: b :: c :: _ => if b == a && c == a then 3 else 1
    | _ => 1
  (quoted.drop n).take (quoted.length - 2 * n)

def literalKind (letters : List Char) : TokenKind :=
  if letters.any fun c => c == 'b' || c == 'B' then .bytes
  else if letters.any fun c => c == 'f' || c == 'F' then .formatString
  else .string

/-- The text that a literal stands for. In a raw literal a backslash is a character like others. -/
def literalText (literal : List Char) : List Char :=
  let letters := literal.takeWhile isPrefixLetter
  let content := unquoted (literal.drop letters.length)
  if letters.any fun c => c == 'r' || c == 'R' then content else unescape content

end TypeWatch.Lexeme
