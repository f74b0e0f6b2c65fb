import Recast.Cli.Output

/-!
# The program

Reads the arguments and the file, and prints what is to be printed. No grammar
is built in: every text passes the grammar check.
-/

namespace Recast

/-- The number and the wording of the system for an error of reading. -/
def readErrorOf : IO.Error → Cli.ReadError
  | .noFileOrDirectory _ _ _ => .missing
  | .inappropriateType _ code _ =>
    if code.toNat = 20 then .notDirectory else .directory
  | .permissionDenied _ code details => ⟨code.toNat, details.toList⟩
  | .resourceExhausted _ code details => ⟨code.toNat, details.toList⟩
  | _ => ⟨5, "Input/output error"⟩

/-- What reading a file gives. -/
def readBytes (file : Text) : IO (Except Cli.ReadError (List UInt8)) := do
  try
    let bytes ← IO.FS.readBinFile (String.ofList file)
    return .ok bytes.toList
  catch e => return .error (readErrorOf e)

/-- Prints, and gives the code to exit with. -/
def emit (o : Cli.Output) : IO UInt32 := do
  (← IO.getStdout).putStr (String.ofList o.stdout)
  let stderr ← IO.getStderr
  stderr.putStr (String.ofList o.stderr)
  match o.ending with
  | .exit code => return code.toUInt32
  | .failure f =>
    stderr.putStrLn (String.ofList f.message)
    return 1

end Recast

def main (arguments : List String) : IO UInt32 := do
  let arguments := arguments.map String.toList
  let content ← match Recast.Cli.read arguments with
    | .options o =>
      match o.input? with
      | some file => Recast.readBytes file
      | none => pure (.ok [])
    | _ => pure (.ok [])
  Recast.emit (Recast.Cli.run arguments (fun _ _ => .node false false false [])
    fun _ => content)
