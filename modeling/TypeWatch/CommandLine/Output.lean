import TypeWatch.CommandLine.Request
import TypeWatch.Comment.Basic
import TypeWatch.File.Module
import TypeWatch.Log.Record
import TypeWatch.Source.Excerpt
import TypeWatch.Typing.Check
import TypeWatch.Value.Literal

/-! What the program writes, and how it ends. -/
namespace TypeWatch.CommandLine
set_option autoImplicit false

structure Output where
  exit : Nat
  standard : String
  error : String
  deriving DecidableEq, Repr

namespace Output

def success (standard error : String) : Output := ⟨0, standard, error⟩

def failure (standard error : String) : Output := ⟨1, standard, error⟩

/-- What is told if the arguments cannot be understood. -/
def usage : Output :=
  ⟨2, "", "usage: pydytype [--log-level LEVEL] (lines [--all] FILE | comments FILE | check TYPE VALUE)\n"⟩

def version : Output := success "pydytype 0.1.0\n" ""

end Output

/-! ## Files -/

/-- A line of a listing: a number and what belongs to it. -/
def numbered (number : Nat) (text : String) : String :=
  String.ofList (Text.alignRight ' ' 4 (toString number).toList) ++ " | " ++ text ++ "\n"

/-- The output for a file with an error. -/
def unreadable (read : Reader) (file : String) (e : SourceError) : Output :=
  .failure "" (Excerpt.render e.toSyntaxError ((read file).toOption.getD "") file)

/-- A name and its type, if names without a type are wanted or it has one. -/
def entryText? (all : Bool) (name : String) (type : Option String) : Option String :=
  match type with
  | some type => some (name ++ ": " ++ type)
  | none => if all then some (name ++ ": -") else none

/-- The listing of what is known on a line, in the order of the text. Lines about which nothing is said
are left out. -/
def lineText (all : Bool) (number : Nat) (types : LineTypes) : String :=
  let entries := types.filterMap fun e => entryText? all e.1 e.2
  if entries.isEmpty then ""
  else numbered number (", ".intercalate (entries.mergeSort fun a b => decide (a ≤ b)))

def tableText (all : Bool) (t : TypeTable) : String :=
  String.join (t.lines.mapIdx fun i types => lineText all (i + 1) types)

def scopeRecord (file : String) (root : Scope) : Log.Record :=
  ⟨.debug, "pydytype::extractor::extractor",
    file ++ ": " ++ toString root.size ++ " lines, " ++ toString root.children.length ++
      " function scope(s)"⟩

def lines (read : Reader) (t : Log.Threshold) (file : String) (all : Bool) : Output :=
  match Scope.ofFile read file with
  | .error e => unreadable read file e
  | .ok root => .success (tableText all (TypeTable.ofRoot root)) (Log.lines t [scopeRecord file root])

def commandText (cs : Comments) : String :=
  String.join (cs.filterMap fun c => (Comment.command? c.2).map (numbered c.1))

def comments (read : Reader) (file : String) : Output :=
  match Comments.ofFile read file with
  | .error e => unreadable read file e
  | .ok cs => .success (commandText cs) ""

/-! ## Checks -/

def mainTarget : String := "pydytype"

def checkTarget : String := "pydytype::type_checker::type_checker"

/-- The verdict on a value and a type in words. -/
def verdictText (v : Value) (type : String) (o : Outcome) : String :=
  v.text ++ " against " ++ type ++ ": " ++ o.text

def checkRecords (v : Value) (typeText : String) (verdict : Verdict) : List Log.Record :=
  let warning := match verdict.outcome with
    | .malformed reason => [⟨.warn, checkTarget, "malformed annotation `" ++ typeText ++ "`: " ++ reason⟩]
    | _ => []
  let result := match verdict.descriptor with
    | some d => [⟨.trace, checkTarget, verdictText v d.text verdict.outcome⟩]
    | none => []
  warning ++ result

def checked (t : Log.Threshold) (v : Value) (typeText : String) (verdict : Verdict) : Output :=
  let shown := (verdict.descriptor.map Descriptor.text).getD typeText
  ⟨if verdict.outcome.isConformant then 0 else 1, verdictText v shown verdict.outcome ++ "\n",
    Log.lines t (checkRecords v typeText verdict)⟩

def complaint (t : Log.Threshold) (message : String) : Output :=
  .failure "" (Log.lines t [⟨.error, mainTarget, message⟩])

def check (t : Log.Threshold) (typeText valueText : String) : Output :=
  match Value.ofText valueText with
  | .error e => complaint t ("invalid value: " ++ e.message)
  | .ok v =>
    match v.verdict ⟨.empty, .typingGlobals⟩ typeText with
    | .ok verdict => checked t v typeText verdict
    | .error e =>
      complaint t ("cannot resolve `" ++ typeText ++ "`: " ++ (ResolveError.unresolved e.name).message)

/-! ## The program -/

def Command.run (read : Reader) (t : Log.Threshold) : Command → Output
  | lines file all => CommandLine.lines read t file all
  | comments file => CommandLine.comments read file
  | check type value => CommandLine.check t type value

/-- The output of the program, where `environment` is what the environment says about the log. -/
def run (read : Reader) (environment : Option String) (arguments : List String) : Output :=
  match Request.ofArguments none arguments with
  | none => .usage
  | some .version => .version
  | some (.run level command) => command.run read (Log.Threshold.resolve level environment)

def fileOf (arguments : List String) : Option String :=
  match Request.ofArguments none arguments with
  | some (.run _ (.lines file _)) | some (.run _ (.comments file)) => some file
  | _ => none

end TypeWatch.CommandLine
