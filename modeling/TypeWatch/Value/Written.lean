import TypeWatch.Decimal.Written
import TypeWatch.Value.Basic

/-! Values as text: literals for values that have one, and within types classes by their name. -/
namespace TypeWatch.Value
set_option autoImplicit false

/-! ## Characters -/

def hexPair (n : Nat) : List Char :=
  let digits := Nat.toDigits 16 n
  List.replicate (2 - digits.length) '0' ++ digits

/-- The quote for a text: a single one, unless the text has single ones and no double ones. -/
def quoteFor (cs : List Char) : Char :=
  if cs.contains '\'' && !cs.contains '"' then '"' else '\''

/-- The form of a character between quotes. -/
def escapedChar (quote c : Char) : List Char :=
  if c = '\\' then ['\\', '\\']
  else if c = '\n' then ['\\', 'n']
  else if c = '\r' then ['\\', 'r']
  else if c = '\t' then ['\\', 't']
  else if c = quote then ['\\', c]
  else if c.toNat < 32 ∨ c.toNat = 127 then ['\\', 'x'] ++ hexPair c.toNat
  else [c]

def strText (text : String) : String :=
  let cs := text.toList
  let quote := quoteFor cs
  String.ofList ([quote] ++ cs.flatMap (escapedChar quote) ++ [quote])

/-- The form of a byte between quotes. -/
def escapedByte (quote : Char) (b : UInt8) : List Char :=
  if b.toNat < 128 then escapedChar quote (Char.ofNat b.toNat) else ['\\', 'x'] ++ hexPair b.toNat

/-- Bytes in quotes, with the letter that marks them. -/
def bytesText (octets : List UInt8) : String :=
  let quote := quoteFor (octets.map fun b => Char.ofNat b.toNat)
  String.ofList (['b', quote] ++ octets.flatMap (escapedByte quote) ++ [quote])

/-! ## Numbers -/

/-- A part of a complex number: a whole one has no point. -/
def complexPart (x : Float) : List Char :=
  let cs := (Decimal.floatText x).toList
  if [ '.', '0' ].isSuffixOf cs then cs.dropLast.dropLast else cs

/-- A complex number; without its real part if that is a positive zero. -/
def complexText (re im : Float) : String :=
  let r := Decimal.Parts.ofFloat re
  let i := Decimal.Parts.ofFloat im
  if r.isZero && !r.negative then String.ofList (complexPart im ++ ['j'])
  else
    let sign := if i.negative && !i.isNaN then [] else ['+']
    String.ofList (['('] ++ complexPart re ++ sign ++ complexPart im ++ ['j', ')'])

/-! ## Values -/

def commaSeparated (parts : List String) : String := ", ".intercalate parts

def tupleText : List String → String
  | [part] => "(" ++ part ++ ",)"
  | parts => "(" ++ commaSeparated parts ++ ")"

def braced (parts : List String) : String := "\x7b" ++ commaSeparated parts ++ "\x7d"

def setText : List String → String
  | [] => "set()"
  | parts => braced parts

def frozensetText : List String → String
  | [] => "frozenset()"
  | parts => "frozenset(" ++ braced parts ++ ")"

mutual

/-- The text of a value, as it stands alone or within a type. -/
def textIn (inType : Bool) : Value → String
  | none => "None"
  | bool b => if b then "True" else "False"
  | int n => toString n.toInt
  | float x => Decimal.floatText x
  | complex re im => complexText re im
  | str text => strText text
  | bytes octets => bytesText octets
  | list items => "[" ++ commaSeparated (textsIn false items) ++ "]"
  | tuple items => tupleText (textsIn false items)
  | set items => setText (textsIn false items)
  | frozenset items => frozensetText (textsIn false items)
  | dict entries => braced (entryTexts entries)
  | slice start stop step =>
    "slice(" ++ textIn false start ++ ", " ++ textIn false stop ++ ", " ++ textIn false step ++ ")"
  | object _ (some payload) => textIn false payload
  | object cls Option.none => "<" ++ cls.name ++ " object>"
  | type cls => if inType then cls.name else "<class '" ++ cls.name ++ "'>"
  | applied origin args => origin.name ++ "[" ++ commaSeparated (textsIn true args) ++ "]"
  | form f => "typing." ++ f.name
  | module name _ => "<module '" ++ name ++ "'>"
  | function name => "<function " ++ name ++ ">"

def textsIn (inType : Bool) : List Value → List String
  | [] => []
  | v :: vs => textIn inType v :: textsIn inType vs

def entryTexts : List (Value × Value) → List String
  | [] => []
  | (k, v) :: es => (textIn false k ++ ": " ++ textIn false v) :: entryTexts es

end

def text (v : Value) : String := textIn false v

def typeText (v : Value) : String := textIn true v

end TypeWatch.Value
