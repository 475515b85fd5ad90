import TypeWatch.Toml.Scalar
import TypeWatch.Toml.Table
import TypeWatch.Toml.Text

/-! Whole TOML texts: keys with values, under headers. -/
namespace TypeWatch.Toml
set_option autoImplicit false

/-! ## Keys -/

def isBareChar (c : Char) : Bool := c.isAlphanum || c == '-' || c == '_'

/-- Reads a key without dots. -/
def simpleKey (cs : List Char) : Option (String × List Char) :=
  lineString cs <|>
    match cs.takeWhile isBareChar with
    | [] => none
    | bare => some (String.ofList bare, cs.drop bare.length)

/-- Reads a key without dots, and the blanks around it. -/
def spacedKey (cs : List Char) : Option (String × List Char) :=
  (simpleKey (skipBlanks cs)).map fun r => (r.1, skipBlanks r.2)

def dottedPart (cs : List Char) : Option (String × List Char) := (exactly '.' cs).bind fun r => spacedKey r.2

/-- How deep arrays, tables and keys may be nested. -/
def depthLimit : Nat := 80

def key (cs : List Char) : Option (List String × List Char) := do
  let (first, rest) ← spacedKey cs
  let (parts, rest) := many dottedPart rest
  if parts.length + 1 < depthLimit then some (first :: parts, rest) else none

/-! ## Values -/

/-- Reads an item of an array, and the comma after it. Only the last item may lack its comma. -/
def arrayItem (value : Scan Item) (cs : List Char) : Option (Unit × List Char) := do
  let (_, rest) ← value (skipGap cs)
  match skipGap rest with
  | ',' :: rest => some ((), rest)
  | ']' :: rest => some ((), ']' :: rest)
  | _ => none

def array (value : Scan Item) (cs : List Char) : Option (Item × List Char) := do
  let (_, rest) ← exactly ']' (skipGap (many (arrayItem value) cs).2)
  some (.closed, rest)

def pair (value : Scan Item) (cs : List Char) : Option ((List String × Item) × List Char) := do
  let (k, rest) ← key cs
  let (_, rest) ← exactly '=' rest
  let (v, rest) ← value (skipBlanks rest)
  some ((k, v), skipBlanks rest)

/-- Reads the pairs of a table within a line, of which a comma stands between two. -/
def pairs (value : Scan Item) (cs : List Char) : List (List String × Item) × List Char :=
  match pair value cs with
  | none => ([], skipBlanks cs)
  | some (first, rest) =>
    let (more, rest) := many (fun cs => (exactly ',' cs).bind fun r => pair value r.2) rest
    (first :: more, rest)

/-- The table in which some keys are set. -/
def tableOf (ps : List (List String × Item)) : Option Table :=
  ps.foldlM (fun t p => t.set p.2 p.1) []

/-- Reads the rest of a table within a line. -/
def inlineTable (value : Scan Item) (cs : List Char) : Option (Item × List Char) := do
  let (ps, rest) := pairs value cs
  let (_, rest) ← exactly '\x7d' rest
  let _ ← tableOf ps
  some (.closed, rest)

/-- Reads a value that is nested less deeply than the given depth. -/
def value : Nat → Scan Item
  | 0, _ => none
  | depth + 1, cs =>
    match cs with
    | '[' :: rest => if depth = 0 then none else array (value depth) rest
    | '\x7b' :: rest => if depth = 0 then none else inlineTable (value depth) rest
    | '"' :: _ | '\'' :: _ => (anyString cs).map fun r => (.string r.1, r.2)
    | _ => (scalar cs).map fun r => (.closed, r.2)

/-! ## Lines -/

/-- What has been read: the whole table, and the header under which keys are set. -/
structure Document where
  root : Table
  header : List String

namespace Document

def empty : Document := ⟨[], []⟩

/-- Reads the rest of a header of a table. -/
def tableHeader (d : Document) (cs : List Char) : Option (Document × List Char) := do
  let (path, rest) ← key cs
  let (_, rest) ← exactly ']' rest
  let (_, rest) ← lineEnd rest
  let root ← d.root.openTable path.dropLast (← path.getLast?)
  some (⟨root, path⟩, rest)

/-- Reads the rest of a header of a table in an array. -/
def elementHeader (d : Document) (cs : List Char) : Option (Document × List Char) := do
  let (path, rest) ← key cs
  let (_, rest) ← exactly ']' rest
  let (_, rest) ← exactly ']' rest
  let (_, rest) ← lineEnd rest
  let root ← d.root.openElement path.dropLast (← path.getLast?)
  some (⟨root, path⟩, rest)

def setting (d : Document) (cs : List Char) : Option (Document × List Char) := do
  let ((path, item), rest) ← pair (value depthLimit) cs
  let (_, rest) ← lineEnd rest
  let root ← d.root.inside (Table.set item path) d.header
  some ({ d with root := root }, rest)

def line (d : Document) (cs : List Char) : Option (Document × List Char) :=
  match skipBlanks cs with
  | '[' :: '[' :: rest => d.elementHeader rest
  | '[' :: rest => d.tableHeader rest
  | rest =>
    match lineEnd rest with
    | some (_, rest) => some (d, rest)
    | none => d.setting rest

end Document

/-- The table of a text. A mark of the byte order may stand before it. -/
def Table.ofText (text : String) : Option Table :=
  let cs := match text.toList with
    | '\uFEFF' :: cs => cs
    | cs => cs
  (untilEnd Document.line Document.empty cs).map Document.root

end TypeWatch.Toml
