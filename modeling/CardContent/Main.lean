import CardContent.Command.Run
import CardContent.Log.Elapsed
import CardContent.Name.Table

/-!
# The program `cards`

Decodes the content of a folder and prints the cards, the effects or the starting deck. Names are
spelled by the table.
-/

set_option autoImplicit false

namespace CardContent

open Command

/-- How the program is used. -/
def usage : String :=
  "usage: cards [-d FOLDER] [-v LEVEL] [COMMAND]\n" ++
    "  list [--format text|json] [--acquirable | --defeatable]\n" ++
    "  effects [--format text|json]\n" ++
    "  show NAME [--format text|json] [--token]\n" ++
    "  counts\n" ++
    "  help [COMMAND]"

/-- The bytes of a file, or why there are none. -/
def readFile (path : String) : IO (Except FileFault ByteArray) := do
  try
    return .ok (← IO.FS.readBinFile path)
  catch
    | .noFileOrDirectory .. | .inappropriateType .. => return .error .absent
    | fault => return .error (.closed fault.toString)

/-- The files of the content below a folder, by path. -/
def readFolder (folder : String) : IO (List (String × Except FileFault ByteArray)) :=
  [Resource.effects, .cards .acquirable, .cards .defeatable, .counts].mapM fun resource => do
    let path := pathIn folder resource.name
    return (path, ← readFile path)

/-- The world of a program that has these files and takes its sums modulo their size. -/
def outerWorld (folder? : Option String) (files : List (String × Except FileFault ByteArray)) :
    World where
  fileAt path := (files.lookup path).getD (.error .absent)
  folder? := folder?
  overflow := .wraps
  overflowText := ""
  help _ := usage
  refusal _ := usage ++ "\n"

end CardContent

open CardContent CardContent.Command in
open scoped CardContent.Name.Table in
/-- Read the command line and carry it out. -/
def main (arguments : List String) : IO UInt32 := do
  let begun ← IO.monoNanosNow
  let folder? ← IO.getEnv folderVariable
  let files ← match Invocation.read folder? arguments with
    | .asks request => readFolder request.folder
    | _ => pure []
  let run := execute (outerWorld folder? files) arguments
  IO.print run.output
  let elapsed := Log.elapsedText ((← IO.monoNanosNow) - begun)
  IO.eprint (run.errorOutput elapsed)
  return run.code.toUInt32
