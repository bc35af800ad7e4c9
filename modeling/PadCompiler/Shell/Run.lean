import PadCompiler.Demo
import PadCompiler.Generator.Program
import PadCompiler.Listing
import PadCompiler.Shell.Arguments
import PadCompiler.Statistics
import PadCompiler.Wire.Image
import PadCompiler.Wire.Program

/-!
# PadCompiler.Shell.Run

What the command line does, over any surroundings that can read and write files
and print.  A failure ends the run at once with its exit code; what was printed
and written before stays.
-/

namespace PadCompiler.Shell

/-- Surroundings of a run.  A file operation that fails gives the reason in
words. -/
structure Console (m : Type → Type) where
  readFile : String → m (Except String (List UInt8))
  writeFile : String → List UInt8 → m (Except String Unit)
  printOut : String → m Unit
  printErr : String → m Unit

/-- What `--help` prints. -/
def usage : String :=
  Text.unlines [
    "PARL - PArL to PArIR code generator",
    "",
    "Usage:",
    "  parl                          Compile the built-in demo program",
    "  parl <program.bin>            Compile a postcard-encoded program",
    "  parl -o <file>                Write PArIR text to <file> instead of stdout",
    "  parl --emit-bin <file>        Also write the compiled program (postcard)",
    "  parl --emit-ast <file>        Also write the input program (postcard)",
    "  parl --read-bin <file>        List a program written by --emit-bin",
    "  parl --disasm                 Print an annotated listing",
    "  parl --stats                  Print instruction statistics",
    "  parl --no-clear               Do not clear the pad on entry",
    "  parl --reject-redeclaration   Fail on duplicate function names",
    "  parl --help, -h               Show this help"]

section

variable {m : Type → Type} [Monad m] (console : Console m)

/-- A run that may end early with an exit code. -/
abbrev Step (m : Type → Type) := ExceptT UInt32 m

/-- Prints to standard output. -/
def out (text : String) : Step m Unit :=
  ExceptT.lift (console.printOut text)

/-- Ends the run with a line on standard error. -/
def fail (message : String) (code : UInt32) : Step m α := do
  ExceptT.lift (console.printErr (message ++ "\n"))
  throw code

/-- The exit code of a failure. -/
def failureCode : UInt32 :=
  1

/-- The exit code of a fault. -/
def faultCode : UInt32 :=
  101

/-- The value of a flag, if the flag is there. -/
def valueOf (line : List String) (flag : String) : Step m (Option String) :=
  match flagValue flag line with
  | .absent => pure none
  | .given value => pure (some value)
  | .missing => fail console ("Error: " ++ flag ++ " expects a file name") failureCode

/-- The content of a file. -/
def load (path : String) : Step m (List UInt8) := do
  match ← ExceptT.lift (console.readFile path) with
  | .ok bytes => pure bytes
  | .error reason => fail console ("Failed to read '" ++ path ++ "': " ++ reason) failureCode

/-- Writes a file. -/
def store (path : String) (bytes : List UInt8) : Step m Unit := do
  match ← ExceptT.lift (console.writeFile path bytes) with
  | .ok () => pure ()
  | .error reason => fail console ("Failed to write '" ++ path ++ "': " ++ reason) failureCode

/-- Reads a program from a file. -/
def loadProgram (path : String) : Step m Program := do
  match Program.ofBytes (← load console path) with
  | .ok p => pure p
  | .error e =>
    fail console ("'" ++ path ++ "' is not an encoded program: " ++ e.message) failureCode

/-- Reads a compiled program from a file. -/
def loadImage (path : String) : Step m Image := do
  match Image.ofBytes (← load console path) with
  | .ok image => pure image
  | .error e =>
    fail console ("'" ++ path ++ "' is not a compiled program: " ++ e.message) failureCode

/-- Prints the listing of a compiled program and its warnings. -/
def printReport (image : Image) : Step m Unit := do
  out console Image.reportTitle
  match image.listing with
  | .ok listing => out console (listing ++ image.warnings)
  | .error f => fail console f.message faultCode

/-- The exit code of a compile error. -/
def compileErrorCode : CompileError → UInt32
  | .fault _ => faultCode
  | .verify (.fault _) => faultCode
  | _ => failureCode

/-- The configuration that the arguments ask for. -/
def configOf (line : List String) : Config where
  redeclaration := if hasFlag "--reject-redeclaration" line then .reject else .warn
  clearColor := if hasFlag "--no-clear" line then none else some "#ffffff"

/-- The program to compile. -/
def programOf (line : List String) : Step m Program :=
  match inputFile line with
  | some path => loadProgram console path
  | none => do
    out console "demo mode\n"
    pure Demo.program

/-- Compiles a program and writes what the arguments ask for. -/
def build (line : List String) : Step m Unit := do
  let program ← programOf console line
  if let some path ← valueOf console line "--emit-ast" then
    store console path program.toBytes
  match compile (configOf line) program with
  | .error e => fail console e.message (compileErrorCode e)
  | .ok image =>
    ExceptT.lift (console.printErr image.warnings)
    if hasFlag "--disasm" line then printReport console image
    if hasFlag "--stats" line then out console image.statistics
    if let some path ← valueOf console line "--emit-bin" then
      store console path image.toBytes
    let output ← valueOf console line "-o"
    match image.render with
    | .error e => fail console e.message (compileErrorCode (.verify e))
    | .ok text =>
      match output with
      | some path => store console path text.toUTF8.data.toList
      | none => out console text

/-- One run of the command line. -/
def steps (line : List String) : Step m Unit := do
  if hasFlag "--help" line || hasFlag "-h" line then
    out console usage
  else
    match ← valueOf console line "--read-bin" with
    | some path => printReport console (← loadImage console path)
    | none => build console line

/-- Runs the command line and gives the exit code. -/
def run (line : List String) : m UInt32 := do
  match ← (steps console line).run with
  | .ok () => pure 0
  | .error code => pure code

end

end PadCompiler.Shell
