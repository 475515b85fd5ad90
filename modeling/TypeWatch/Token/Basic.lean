import TypeWatch.Source.Position

/-! Tokens and their kinds: the operators and brackets with their symbols, the reserved words with their
spellings, and the kinds that are not spelled out, among them the tokens that only tell how the source
is laid out in lines and blocks. -/
namespace TypeWatch
set_option autoImplicit false

/-! ## Operators -/

inductive Operator where
  | ellipsis | doubleStarAssign | doubleSlashAssign | shiftRightAssign | shiftLeftAssign | arrow
  | walrus | equal | notEqual | lessEqual | greaterEqual | plusAssign | minusAssign | starAssign
  | slashAssign | percentAssign | atAssign | ampersandAssign | pipeAssign | caretAssign
  | doubleStar | doubleSlash | shiftLeft | shiftRight | openBracket | closeBracket | openBrace
  | closeBrace | openParen | closeParen | assign | less | greater | dot | semicolon | colon
  | comma | atSign | plus | minus | star | slash | percent | ampersand | pipe | caret | tilde
  deriving DecidableEq, Repr

namespace Operator

/-- Every operator, none after one that its symbol extends. -/
def all : List Operator := [
  .ellipsis, .doubleStarAssign, .doubleSlashAssign, .shiftRightAssign, .shiftLeftAssign, .arrow,
  .walrus, .equal, .notEqual, .lessEqual, .greaterEqual, .plusAssign, .minusAssign, .starAssign,
  .slashAssign, .percentAssign, .atAssign, .ampersandAssign, .pipeAssign, .caretAssign,
  .doubleStar, .doubleSlash, .shiftLeft, .shiftRight, .openBracket, .closeBracket, .openBrace,
  .closeBrace, .openParen, .closeParen, .assign, .less, .greater, .dot, .semicolon, .colon,
  .comma, .atSign, .plus, .minus, .star, .slash, .percent, .ampersand, .pipe, .caret, .tilde]

def symbol : Operator → List Char
  | ellipsis => ['.', '.', '.']
  | doubleStarAssign => ['*', '*', '=']
  | doubleSlashAssign => ['/', '/', '=']
  | shiftRightAssign => ['>', '>', '=']
  | shiftLeftAssign => ['<', '<', '=']
  | arrow => ['-', '>']
  | walrus => [':', '=']
  | equal => ['=', '=']
  | notEqual => ['!', '=']
  | lessEqual => ['<', '=']
  | greaterEqual => ['>', '=']
  | plusAssign => ['+', '=']
  | minusAssign => ['-', '=']
  | starAssign => ['*', '=']
  | slashAssign => ['/', '=']
  | percentAssign => ['%', '=']
  | atAssign => ['@', '=']
  | ampersandAssign => ['&', '=']
  | pipeAssign => ['|', '=']
  | caretAssign => ['^', '=']
  | doubleStar => ['*', '*']
  | doubleSlash => ['/', '/']
  | shiftLeft => ['<', '<']
  | shiftRight => ['>', '>']
  | openBracket => ['[']
  | closeBracket => [']']
  | openBrace => ['\x7b']
  | closeBrace => ['\x7d']
  | openParen => ['(']
  | closeParen => [')']
  | assign => ['=']
  | less => ['<']
  | greater => ['>']
  | dot => ['.']
  | semicolon => [';']
  | colon => [':']
  | comma => [',']
  | atSign => ['@']
  | plus => ['+']
  | minus => ['-']
  | star => ['*']
  | slash => ['/']
  | percent => ['%']
  | ampersand => ['&']
  | pipe => ['|']
  | caret => ['^']
  | tilde => ['~']

/-- The name of the operator in messages. -/
def label : Operator → String
  | ellipsis => "Ellipsis"
  | doubleStarAssign => "DoubleStarEquals"
  | doubleSlashAssign => "DoubleSlashEquals"
  | shiftRightAssign => "ShiftRightEquals"
  | shiftLeftAssign => "ShiftLeftEquals"
  | arrow => "Arrow"
  | walrus => "Walrus"
  | equal => "Equals"
  | notEqual => "NotEquals"
  | lessEqual => "LessEquals"
  | greaterEqual => "GreaterEquals"
  | plusAssign => "PlusEquals"
  | minusAssign => "MinusEquals"
  | starAssign => "StarEquals"
  | slashAssign => "SlashEquals"
  | percentAssign => "PercentEquals"
  | atAssign => "AtEquals"
  | ampersandAssign => "AmpersandEquals"
  | pipeAssign => "PipeEquals"
  | caretAssign => "CaretEquals"
  | doubleStar => "DoubleStar"
  | doubleSlash => "DoubleSlash"
  | shiftLeft => "ShiftLeft"
  | shiftRight => "ShiftRight"
  | openBracket => "OpenBracket"
  | closeBracket => "CloseBracket"
  | openBrace => "OpenCurly"
  | closeBrace => "CloseCurly"
  | openParen => "OpenParen"
  | closeParen => "CloseParen"
  | assign => "Assignment"
  | less => "Less"
  | greater => "Greater"
  | dot => "Dot"
  | semicolon => "Semicolon"
  | colon => "Colon"
  | comma => "Comma"
  | atSign => "At"
  | plus => "Plus"
  | minus => "Dash"
  | star => "Star"
  | slash => "Slash"
  | percent => "Percent"
  | ampersand => "Ampersand"
  | pipe => "Pipe"
  | caret => "Caret"
  | tilde => "Tilde"

/-- The longest operator that the text begins with. -/
def leading? (cs : List Char) : Option Operator := all.find? fun o => o.symbol.isPrefixOf cs

def opens : Operator → Bool
  | openParen | openBracket | openBrace => true
  | _ => false

def closes : Operator → Bool
  | closeParen | closeBracket | closeBrace => true
  | _ => false

end Operator

/-! ## Reserved words -/

inductive Keyword where
  | kwFalse | kwNone | kwTrue | kwAnd | kwAs | kwAssert | kwAsync | kwAwait | kwBreak | kwClass
  | kwContinue | kwDef | kwDel | kwElif | kwElse | kwExcept | kwFinally | kwFor | kwFrom
  | kwGlobal | kwIf | kwImport | kwIn | kwIs | kwLambda | kwNonlocal | kwNot | kwOr | kwPass
  | kwRaise | kwReturn | kwTry | kwWhile | kwWith | kwYield
  deriving DecidableEq, Repr

namespace Keyword

def all : List Keyword := [
  .kwFalse, .kwNone, .kwTrue, .kwAnd, .kwAs, .kwAssert, .kwAsync, .kwAwait, .kwBreak, .kwClass,
  .kwContinue, .kwDef, .kwDel, .kwElif, .kwElse, .kwExcept, .kwFinally, .kwFor, .kwFrom,
  .kwGlobal, .kwIf, .kwImport, .kwIn, .kwIs, .kwLambda, .kwNonlocal, .kwNot, .kwOr, .kwPass,
  .kwRaise, .kwReturn, .kwTry, .kwWhile, .kwWith, .kwYield]

def spelling : Keyword → String
  | kwFalse => "False"
  | kwNone => "None"
  | kwTrue => "True"
  | kwAnd => "and"
  | kwAs => "as"
  | kwAssert => "assert"
  | kwAsync => "async"
  | kwAwait => "await"
  | kwBreak => "break"
  | kwClass => "class"
  | kwContinue => "continue"
  | kwDef => "def"
  | kwDel => "del"
  | kwElif => "elif"
  | kwElse => "else"
  | kwExcept => "except"
  | kwFinally => "finally"
  | kwFor => "for"
  | kwFrom => "from"
  | kwGlobal => "global"
  | kwIf => "if"
  | kwImport => "import"
  | kwIn => "in"
  | kwIs => "is"
  | kwLambda => "lambda"
  | kwNonlocal => "nonlocal"
  | kwNot => "not"
  | kwOr => "or"
  | kwPass => "pass"
  | kwRaise => "raise"
  | kwReturn => "return"
  | kwTry => "try"
  | kwWhile => "while"
  | kwWith => "with"
  | kwYield => "yield"

def label : Keyword → String
  | kwFalse => "False"
  | kwNone => "None"
  | kwTrue => "True"
  | kwAnd => "And"
  | kwAs => "As"
  | kwAssert => "Assert"
  | kwAsync => "Async"
  | kwAwait => "Await"
  | kwBreak => "Break"
  | kwClass => "Class"
  | kwContinue => "Continue"
  | kwDef => "Def"
  | kwDel => "Del"
  | kwElif => "Elif"
  | kwElse => "Else"
  | kwExcept => "Except"
  | kwFinally => "Finally"
  | kwFor => "For"
  | kwFrom => "From"
  | kwGlobal => "Global"
  | kwIf => "If"
  | kwImport => "Import"
  | kwIn => "In"
  | kwIs => "Is"
  | kwLambda => "Lambda"
  | kwNonlocal => "Nonlocal"
  | kwNot => "Not"
  | kwOr => "Or"
  | kwPass => "Pass"
  | kwRaise => "Raise"
  | kwReturn => "Return"
  | kwTry => "Try"
  | kwWhile => "While"
  | kwWith => "With"
  | kwYield => "Yield"

def ofSpelling? (text : String) : Option Keyword := all.find? fun k => k.spelling == text

end Keyword

/-! ## Kinds -/

inductive TokenKind where
  | endOfInput
  | newline
  | indent
  | dedent
  | number
  | string
  | formatString
  | bytes
  | name
  | op (o : Operator)
  | word (k : Keyword)
  deriving DecidableEq, Repr

namespace TokenKind

def label : TokenKind → String
  | endOfInput => "EOF"
  | newline => "Newline"
  | indent => "Indent"
  | dedent => "Dedent"
  | number => "Number"
  | string => "String"
  | formatString => "FString"
  | bytes => "Bytes"
  | name => "Identifier"
  | op o => o.label
  | word k => k.label

/-- Kinds of tokens that only tell how the source is laid out. -/
def isLayout : TokenKind → Bool
  | endOfInput | newline | indent | dedent => true
  | _ => false

def isString : TokenKind → Bool
  | string | formatString | bytes => true
  | _ => false

end TokenKind

/-! ## Tokens -/

/-- A token, its text and its place. The text of a string literal is what the literal stands for,
and a layout token has none. -/
structure Token where
  kind : TokenKind
  text : String
  span : Span
  deriving DecidableEq, Repr

namespace Token

/-- The token as messages show it. -/
def shown (t : Token) : String := if t.text.isEmpty then t.kind.label else t.text

/-- A layout token takes no room. -/
def layout (kind : TokenKind) (p : Position) : Token := ⟨kind, "", ⟨p, p⟩⟩

end Token
end TypeWatch
