import Slidewalk.Command

/-!
# Entry point

Reads the files a command may need, runs it and prints the outcome.
-/

namespace Slidewalk.Command

/-- The fault with a code of the operating system, which may come negated. -/
def ReadFault.ofError : IO.Error → ReadFault
  | .noFileOrDirectory .. => .notFound
  | .permissionDenied .. => .denied
  | .inappropriateType _ code _ => if min code (-code) = 20 then .notDirectory else .isDirectory
  | .invalidArgument _ code cause =>
      if min code (-code) = 36 then .nameTooLong else .other cause
  | error => .other (toString error)

def readContents (path : String) : IO (Except ReadFault (List UInt8)) := do
  try
    let bytes ← IO.FS.readBinFile path
    return .ok bytes.toList
  catch error => return .error (.ofError error)

end Slidewalk.Command

open Slidewalk.Command in
def main (arguments : List String) : IO UInt32 := do
  let environment ← IO.getEnv configVariable
  let contents ← (pathsOf environment arguments).mapM fun path => return (path, ← readContents path)
  let files : Files := fun path => (contents.lookup path).getD (.error .notFound)
  let outcome := run files environment arguments
  IO.print outcome.output
  IO.eprint outcome.errors
  return outcome.exit
