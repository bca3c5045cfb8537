import Inlay.Cli.Run

/-!
The command line program.
-/

namespace Inlay.Cli

/-- The reason behind an error of the operating system. Its number may come negated, as a word. -/
def systemError (code : UInt32) (details : String) : FileError :=
  match code.toInt32.toInt.natAbs with
  | 2 => .notFound
  | 17 => .exists
  | 20 => .notDirectory
  | 21 => .isDirectory
  | n => .other s!"{details.capitalize} (os error {n})"

def fileError : IO.Error → FileError
  | .noFileOrDirectory _ code details | .noSuchThing _ code details
  | .inappropriateType _ code details | .permissionDenied _ code details
  | .invalidArgument _ code details | .resourceExhausted _ code details
  | .alreadyExists _ code details | .interrupted _ code details
  | .otherError code details | .resourceBusy code details
  | .hardwareFault code details | .illegalOperation code details => systemError code details
  | e => .other (toString e)

def readFile (path : String) : IO (Except FileError String) := do
  match ← (IO.FS.readBinFile path).toBaseIO with
  | .error e => return .error (fileError e)
  | .ok bytes =>
    match String.fromUTF8? bytes with
    | some s => return .ok s
    | none => return .error .notText

end Inlay.Cli

/-- Runs the program on the files that its arguments ask for. -/
def main (args : List String) : IO UInt32 := do
  let home ← IO.getEnv "HOME"
  let files ← (Inlay.Cli.filesToRead home args).mapM fun path => do
    return (path, ← Inlay.Cli.readFile path)
  let read := fun path => (Inlay.Table.lookup path files).getD (.error .notFound)
  let result := Inlay.Cli.run read home args
  IO.print result.output
  if let some report := result.report? then
    IO.eprint report
  return UInt32.ofNat result.code
