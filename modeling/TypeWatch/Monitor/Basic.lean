import TypeWatch.Config.Reading
import TypeWatch.File.Module
import TypeWatch.Monitor.Finding

/-! Monitors: what a monitor has found, and what it remembers of the files that it has seen. -/
namespace TypeWatch
set_option autoImplicit false

abbrev SubscriptionId := Nat

inductive MonitorError where
  | alreadyTracing
  | notTracing
  deriving DecidableEq, Repr

def MonitorError.message : MonitorError → String
  | alreadyTracing => "the monitor is already tracing"
  | notTracing => "the monitor is not tracing"

structure Monitor where
  config : Config
  /-- The subscription of the session, while there is one. -/
  session : Option SubscriptionId
  findings : List Finding
  /-- Why files could not be checked. -/
  errors : List SourceError
  /-- The tables of the files seen so far, where the files have one. -/
  tables : List (String × Option TypeTable)

namespace Monitor

def ofConfig (c : Config) : Monitor := ⟨c, none, [], [], []⟩

def isTracing (m : Monitor) : Bool := m.session.isSome

/-! ## Sessions -/

/-- Begins a session, which forgets what was found before. -/
def begun (m : Monitor) (id : SubscriptionId) : Monitor :=
  { m with session := some id, findings := [], errors := [] }

/-- Ends the session. The files are read again in the next one. -/
def ended (m : Monitor) : Monitor := { m with session := none, tables := [] }

/-! ## Observation -/

/-- Remembers the table of a file that was read, or why it has none. -/
def remember (m : Monitor) (file : String) : Except SourceError TypeTable → Monitor
  | .ok table => { m with tables := (file, some table) :: m.tables }
  | .error e => { m with tables := (file, none) :: m.tables, errors := m.errors ++ [e] }

/-- Makes the table of a file known, if it is not. A file is read once. -/
def learn (m : Monitor) (read : Reader) (file : String) : Monitor :=
  match m.tables.lookup file with
  | some _ => m
  | none => m.remember file (TypeTable.ofFile read file)

/-- The table of a file, as far as it is known. -/
def table? (m : Monitor) (file : String) : Option TypeTable := (m.tables.lookup file).join

/-- Adds what is found in a frame whose file is known. -/
def check (m : Monitor) (f : Frame) : Monitor :=
  match m.table? f.file with
  | some table => { m with findings := m.findings ++ f.findingsIn table }
  | none => m

/-- Checks a frame, if its file is there and is to be watched. -/
def observe (m : Monitor) (files : FileStore) (f : Frame) : Monitor :=
  if m.config.observes f.file && files.contains f.file then (m.learn files.read f.file).check f else m

/-- The failures that were found and not expected by the comments in a file. -/
def unexpected (m : Monitor) (files : FileStore) (path : String) : Except SourceError (List Finding) := do
  return Finding.unexpected (← Comments.ofFile files.read path) m.findings

end Monitor
end TypeWatch
