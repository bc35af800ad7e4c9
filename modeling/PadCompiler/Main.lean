import PadCompiler.Shell.Run

/-!
# PadCompiler.Main

The command line on the disk and the standard streams.
-/

namespace PadCompiler

/-- The reason of a failed file operation in words. -/
def failureReason : IO.Error → String
  | .noFileOrDirectory _ code details
  | .interrupted _ code details
  | .alreadyExists _ code details
  | .invalidArgument _ code details
  | .permissionDenied _ code details
  | .resourceExhausted _ code details
  | .inappropriateType _ code details
  | .noSuchThing _ code details
  | .otherError code details
  | .resourceBusy code details
  | .resourceVanished code details
  | .unsupportedOperation code details
  | .hardwareFault code details
  | .unsatisfiedConstraints code details
  | .illegalOperation code details
  | .protocolError code details
  | .timeExpired code details => details ++ " (os error " ++ toString code ++ ")"
  | e => toString e

/-- A file operation with its failure as a value. -/
def attempt (action : IO α) : IO (Except String α) := do
  try
    return .ok (← action)
  catch e =>
    return .error (failureReason e)

/-- The disk and the standard streams. -/
def systemConsole : Shell.Console IO where
  readFile path := attempt do
    return (← IO.FS.withFile path .read fun file => file.readBinToEnd).data.toList
  writeFile path bytes := attempt (IO.FS.writeBinFile path bytes.toByteArray)
  printOut text := IO.print text
  printErr text := IO.eprint text

end PadCompiler

/-- Runs the program with arguments. -/
def main (args : List String) : IO UInt32 :=
  PadCompiler.Shell.run PadCompiler.systemConsole (PadCompiler.Shell.programName :: args)
