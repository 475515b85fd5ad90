import TypeWatch.Comment.Basic
import TypeWatch.File.Store
import TypeWatch.Scope.Extract

/-! What is known of a module by the path of its file. -/
namespace TypeWatch
set_option autoImplicit false

namespace Module

def source (read : Reader) (path : String) : Except SourceError String :=
  (read path).mapError fun e => SourceError.unreadable path e.message

end Module

def Scope.ofFile (read : Reader) (path : String) : Except SourceError Scope := do
  inFile path (Scope.ofText (← Module.source read path))

def TypeTable.ofFile (read : Reader) (path : String) : Except SourceError TypeTable := do
  inFile path (TypeTable.ofText (← Module.source read path))

def Comments.ofFile (read : Reader) (path : String) : Except SourceError Comments := do
  inFile path (Comments.ofText (← Module.source read path))

end TypeWatch
