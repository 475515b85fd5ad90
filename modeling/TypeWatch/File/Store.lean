/-! Files in directories, by their paths. A path goes from the root if it begins with a slash, and from the
working directory if it does not. It is read from the left: every part but the last has to lead to a
directory, empty parts and single dots lead nowhere, and double dots lead back. -/
namespace TypeWatch
set_option autoImplicit false

/-! ## Reading -/

inductive ReadError where
  | notFound
  | notADirectory
  | isADirectory
  | notText
  | badName
  deriving DecidableEq, Repr

def ReadError.message : ReadError → String
  | notFound => "No such file or directory (os error 2)"
  | notADirectory => "Not a directory (os error 20)"
  | isADirectory => "Is a directory (os error 21)"
  | notText => "stream did not contain valid UTF-8"
  | badName => "file name contained an unexpected NUL byte"

abbrev Reader := String → Except ReadError String

/-! ## Stores -/

inductive FileEntry where
  | file (content : ByteArray)
  | directory

/-- What is read where the entry stands. -/
def FileEntry.read : FileEntry → Except ReadError String
  | directory => .error .isADirectory
  | file content =>
    match String.fromUTF8? content with
    | some text => .ok text
    | none => .error .notText

/-- A place below the root, as the names on the way to it. -/
abbrev Place := List String

structure FileStore where
  entries : List (Place × FileEntry)
  /-- The directory from which a path goes that does not begin with a slash. -/
  working : Place

namespace FileStore

/-- A store in which there is nothing but the working directory, below the root. -/
def empty : FileStore := ⟨[(["work"], .directory)], ["work"]⟩

/-- What stands at a place. The root is a directory. -/
def entryAt? (s : FileStore) : Place → Option FileEntry
  | [] => some .directory
  | place => s.entries.lookup place

def isDirectory (s : FileStore) (place : Place) : Bool :=
  match s.entryAt? place with
  | some .directory => true
  | _ => false

def isName (part : String) : Bool := part ≠ "" && part ≠ "." && part ≠ ".."

/-- Where a part of a path leads to from a place. -/
def enter (s : FileStore) (here : Place) (part : String) : Except ReadError Place :=
  if !s.isDirectory here then .error .notADirectory
  else if part = ".." then .ok here.dropLast
  else if !isName part then .ok here
  else if (s.entryAt? (here ++ [part])).isSome then .ok (here ++ [part])
  else .error .notFound

/-- What stands between the slashes of a path. -/
def split : List Char → List (List Char)
  | [] => [[]]
  | c :: cs =>
    if c = '/' then [] :: split cs
    else match split cs with
      | [] => [[c]]
      | part :: rest => (c :: part) :: rest

def parts (path : String) : Except ReadError (List String) :=
  if path.toList.contains '\x00' then .error .badName
  else if path = "" then .error .notFound
  else .ok ((split path.toList).map String.ofList)

/-- The directory from which a path goes. -/
def origin (s : FileStore) (path : String) : Place := if path.toList.head? = some '/' then [] else s.working

def find (s : FileStore) (path : String) : Except ReadError Place := do
  (← parts path).foldlM s.enter (s.origin path)

def contains (s : FileStore) (path : String) : Bool := (s.find path).isOk

def read (s : FileStore) (path : String) : Except ReadError String := do
  match s.entryAt? (← s.find path) with
  | none => .error .notFound
  | some e => e.read

/-! ## Changes -/

def put (s : FileStore) (place : Place) (e : FileEntry) : FileStore :=
  { s with entries := (place, e) :: s.entries.filter fun x => x.1 != place }

/-- A step along a path that makes the directory which it misses. -/
def enterNew (way : FileStore × Place) (part : String) : Except ReadError (FileStore × Place) :=
  match way.1.enter way.2 part with
  | .error .notFound => .ok (way.1.put (way.2 ++ [part]) .directory, way.2 ++ [part])
  | r => r.map fun there => (way.1, there)

/-- The place of a new entry and of the directory that it is to be in, if a path ends in a name. -/
def target? (ps : List String) : Option (List String × String) :=
  match ps.getLast? with
  | some name => if isName name then some (ps.dropLast, name) else none
  | none => none

/-- Writes a file, in directories that are made where they are missing. Nothing is written at the place
of a directory or below a file. -/
def write (s : FileStore) (path : String) (content : ByteArray) : FileStore :=
  let written := do
    let (outer, name) ← target? (← (parts path).toOption)
    let (made, directory) ← (outer.foldlM enterNew (s, s.origin path)).toOption
    let place := directory ++ [name]
    if made.isDirectory directory && !made.isDirectory place then some (made.put place (.file content))
    else none
  written.getD s

/-- Removes a file. There is no result if the path leads to none. -/
def delete? (s : FileStore) (path : String) : Option FileStore :=
  match s.find path with
  | .error _ => none
  | .ok place =>
    if s.isDirectory place then none
    else some { s with entries := s.entries.filter fun x => x.1 != place }

/-- A path without slashes at its end. -/
def withoutSlashes (ps : List String) : List String := (ps.reverse.dropWhile (· = "")).reverse

/-- Makes a directory in one that is there. There is no result if something stands in its place. -/
def makeDirectory? (s : FileStore) (path : String) : Option FileStore := do
  let (outer, name) ← target? (withoutSlashes (← (parts path).toOption))
  let directory ← (outer.foldlM s.enter (s.origin path)).toOption
  let place := directory ++ [name]
  if s.isDirectory directory && (s.entryAt? place).isNone then some (s.put place .directory) else none

end FileStore
end TypeWatch
