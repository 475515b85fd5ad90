/-! What the arguments of the command line ask for. Options may stand before or after the values of a
command, and everything after two dashes is a value. -/
namespace TypeWatch.CommandLine
set_option autoImplicit false

/-! ## Requests -/

inductive Command where
  /-- Shows the types that are known on each line of a file; if asked to, also names without one. -/
  | lines (file : String) (all : Bool)
  /-- Shows the commands in the comments of a file. -/
  | comments (file : String)
  /-- Checks a literal value against a type expression. -/
  | check (type value : String)
  deriving DecidableEq, Repr

inductive Request where
  | version
  /-- A command, and how much is to be logged if that is given. -/
  | run (level : Option String) (command : Command)
  deriving DecidableEq, Repr

/-! ## Arguments -/

inductive Argument where
  /-- An option, and the value that is given in the same argument. -/
  | named (name : String) (value : Option String)
  /-- Letters after one dash. -/
  | letters (text : String)
  | plain (text : String)
  | separator
  deriving DecidableEq, Repr

/-- What an argument is. One dash alone is a value. -/
def Argument.ofText (text : String) : Argument :=
  match text.toList with
  | ['-', '-'] => separator
  | '-' :: '-' :: cs =>
    let name := cs.takeWhile (· ≠ '=')
    match cs.drop name.length with
    | [] => named (String.ofList name) none
    | _ :: value => named (String.ofList name) (some (String.ofList value))
  | '-' :: c :: cs => letters (String.ofList (c :: cs))
  | _ => plain text

def Argument.value? : Argument → Option String
  | plain text => some text
  | _ => none

def levelOption : String := "log-level"

/-! ## Arguments of a command -/

structure Given where
  level : Option String
  all : Bool
  values : List String

namespace Given

def withLevel (g : Given) (level : String) : Option Given :=
  if g.level.isSome then none else some { g with level := some level }

def withAll (g : Given) : Option Given := if g.all then none else some { g with all := true }

def withValue (g : Given) (value : String) : Given := { g with values := g.values ++ [value] }

/-- Takes the arguments after a command, of which `hasAll` tells whether it has the option for all
names. -/
def take (hasAll : Bool) (g : Given) : List String → Option Given
  | [] => some g
  | arg :: rest =>
    match Argument.ofText arg with
    | .separator => some { g with values := g.values ++ rest }
    | .plain text => take hasAll (g.withValue text) rest
    | .letters _ => none
    | .named name value =>
      if name = levelOption then
        match value with
        | some level => (g.withLevel level).bind fun g => take hasAll g rest
        | none =>
          match rest with
          | [] => none
          | next :: rest =>
            ((Argument.ofText next).value?.bind g.withLevel).bind fun g => take hasAll g rest
      else if name = "all" ∧ hasAll ∧ value = none then g.withAll.bind fun g => take hasAll g rest
      else none

end Given

/-- The command with a name, of what has been given to it. A path is not empty. -/
def Command.ofGiven (name : String) (g : Given) : Option Command :=
  match name, g.values with
  | "lines", [file] => if file = "" then none else some (lines file g.all)
  | "comments", [file] => if file = "" then none else some (comments file)
  | "check", [type, value] => some (check type value)
  | _, _ => none

def commandNames : List String := ["lines", "comments", "check"]

/-! ## Arguments of the program -/

/-- What is asked for by arguments after those that gave the level. A level that is given to a command
goes before. -/
def Request.ofArguments (level : Option String) : List String → Option Request
  | [] => none
  | arg :: rest =>
    match Argument.ofText arg with
    | .separator => none
    | .letters text => if text.startsWith "V" then some version else none
    | .plain name =>
      if commandNames.contains name then do
        let g ← Given.take (name = "lines") ⟨none, false, []⟩ rest
        return run (g.level <|> level) (← Command.ofGiven name g)
      else none
    | .named name value =>
      if name = levelOption ∧ level = none then
        match value with
        | some level => ofArguments (some level) rest
        | none =>
          match rest with
          | [] => none
          | next :: rest =>
            (Argument.ofText next).value?.bind fun level => ofArguments (some level) rest
      else if name = "version" ∧ value = none then some version
      else none

end TypeWatch.CommandLine
