/-!
# PadCompiler.Shell.Arguments

Readers of the command line: is a flag there, which value follows it, which file
is to be compiled.  Each looks through the line on its own.

The line begins with the name that the program is called by.
-/

namespace PadCompiler.Shell

/-- The flags that are followed by a file name. -/
def valueFlags : List String :=
  ["-o", "--emit-bin", "--emit-ast", "--read-bin"]

/-- The name that the program is called by. -/
def programName : String :=
  "parl"

/-- Whether a flag is among the arguments. -/
def hasFlag (flag : String) (line : List String) : Bool :=
  line.tail.contains flag

/-- What stands after a flag. -/
inductive FlagValue where
  /-- The flag is not there. -/
  | absent
  /-- The flag is the last argument. -/
  | missing
  | given (value : String)
deriving DecidableEq, Repr

/-- What stands after the first occurrence of a flag, which may be the name of the
program. -/
def flagValue (flag : String) : List String → FlagValue
  | [] => .absent
  | arg :: rest =>
    if arg = flag then
      match rest with
      | [] => .missing
      | value :: _ => .given value
    else flagValue flag rest

/-- Whether an argument is written as a flag. -/
def isFlag (arg : String) : Bool :=
  arg.toList.head? = some '-'

/-- The first argument that is neither a flag nor the value of one. -/
def firstFile : List String → Option String
  | [] => none
  | arg :: rest =>
    if arg ∈ valueFlags then
      match rest with
      | [] => none
      | _ :: rest => firstFile rest
    else if isFlag arg then firstFile rest
    else some arg

/-- The file to compile. -/
def inputFile (line : List String) : Option String :=
  firstFile line.tail

end PadCompiler.Shell
