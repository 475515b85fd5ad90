import TypeWatch.CommandLine.Output

/-! The program. -/
namespace TypeWatch
set_option autoImplicit false

def readErrorOf : IO.Error → ReadError
  | .noFileOrDirectory .. => .notFound
  | .inappropriateType .. => .notADirectory
  | .invalidArgument .. => .badName
  | _ => .isADirectory

def readFile (path : String) : IO (Except ReadError String) := do
  try
    match String.fromUTF8? (← IO.FS.readBinFile path) with
    | some text => return .ok text
    | none => return .error .notText
  catch e => return .error (readErrorOf e)

end TypeWatch

open TypeWatch in
def main (arguments : List String) : IO UInt32 := do
  let content ← match CommandLine.fileOf arguments with
    | some file => readFile file
    | none => pure (.error .notFound)
  let output := CommandLine.run (fun _ => content) (← IO.getEnv "PYDYTYPE_LOG") arguments
  (← IO.getStderr).putStr output.error
  (← IO.getStdout).putStr output.standard
  return output.exit.toUInt32
