/-! Tables of a TOML text, and what may still be added to them. A table is given by a header, by the
beginning of a longer header, or by a dotted key; what is given in one of these ways cannot be given
again in another. -/
namespace TypeWatch.Toml
set_option autoImplicit false

/-- What a table is given by. -/
inductive Origin where
  | header
  | longerHeader
  | dottedKey
  deriving DecidableEq, Repr

inductive Item where
  | string (text : String)
  /-- A value of another kind, to which nothing can be added. -/
  | closed
  | table (origin : Origin) (entries : List (String × Item))
  /-- Tables in an array, of which only the last one can be added to. -/
  | tables (last : List (String × Item))

abbrev Table := List (String × Item)

namespace Table

def find? (t : Table) (key : String) : Option Item := t.lookup key

/-- Changes what a key stands for, if the change can be made. -/
def change (key : String) (f : Option Item → Option Item) : Table → Option Table
  | [] => (f none).map fun item => [(key, item)]
  | (k, item) :: rest =>
    if k = key then (f (some item)).map fun new => (k, new) :: rest
    else (change key f rest).map fun new => (k, item) :: new

/-- Gives a new key an item. -/
def add (key : String) (item : Item) (t : Table) : Option Table :=
  t.change key fun
    | none => some item
    | some _ => none

/-- Changes the table that a header leads to. Missing tables are made. -/
def inside (f : Table → Option Table) : List String → Table → Option Table
  | [], t => f t
  | key :: keys, t => t.change key fun
    | none => (inside f keys []).map (.table .longerHeader)
    | some (.table origin inner) => (inside f keys inner).map (.table origin)
    | some (.tables last) => (inside f keys last).map .tables
    | some _ => none

/-- Gives a dotted key an item. The table that the key is in may not be given by a header. -/
def set (item : Item) : List String → Table → Option Table
  | [], _ => none
  | [key], t => t.add key item
  | key :: keys, t => t.change key fun
    | none => (set item keys []).map (.table .dottedKey)
    | some (.table .dottedKey inner) => (set item keys inner).map (.table .dottedKey)
    | some (.table .longerHeader inner) =>
      if keys.length = 1 then none else (set item keys inner).map (.table .longerHeader)
    | some (.tables last) => if keys.length = 1 then none else (set item keys last).map .tables
    | some _ => none

/-- Opens the table of a header. -/
def openTable (outer : List String) (key : String) (t : Table) : Option Table :=
  t.inside (fun inner => inner.change key fun
    | none => some (.table .header [])
    | some (.table .longerHeader entries) => some (.table .header entries)
    | some _ => none) outer

/-- Opens a new table of an array. -/
def openElement (outer : List String) (key : String) (t : Table) : Option Table :=
  t.inside (fun inner => inner.change key fun
    | none | some (.tables _) => some (.tables [])
    | some _ => none) outer

end Table
end TypeWatch.Toml
