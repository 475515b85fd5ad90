import TypeWatch.Value.Namespace

/-! Events of a running program. -/
namespace TypeWatch
set_option autoImplicit false

/-- The points of a run at which the bindings of a frame may have changed. -/
inductive EventKind where
  | call
  /-- A line is about to be executed. -/
  | line
  | exit
  deriving DecidableEq, Repr

def EventKind.name : EventKind → String
  | call => "call"
  | line => "line"
  | exit => "return"

/-- What is seen of a running function: where it stands, and its names. -/
structure Frame where
  file : String
  line : Nat
  locals : Namespace
  globals : Namespace

/-- A frame of the same module at another line, with other local names. -/
def Frame.at (f : Frame) (line : Nat) (locals : Namespace) : Frame :=
  { f with line := line, locals := locals }

structure Event where
  kind : EventKind
  frame : Frame

end TypeWatch
