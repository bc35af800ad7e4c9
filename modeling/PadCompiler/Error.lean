import PadCompiler.Binding

/-!
# PadCompiler.Error

Why a program is not compiled or a block not accepted, and how each cause is
worded.

* `Fault` — a number left the range of machine words, or two records of the
  same fact disagree; whatever is running stops;
* `VerifyError` — a finished block breaks a rule;
* `CompileError` — a program is not well formed.
-/

namespace PadCompiler

/-! ## Faults -/

/-- A check that no correct run fails. -/
inductive Fault where
  | addOverflow
  | subOverflow
  /-- A binding says it is `stored` frames away and is found `hops` away. -/
  | depthMismatch (stored hops : Nat)
deriving DecidableEq, Repr

/-- The wording of a fault. -/
def Fault.message : Fault → String
  | .addOverflow => "attempt to add with overflow"
  | .subOverflow => "attempt to subtract with overflow"
  | .depthMismatch stored hops =>
    "binding depth " ++ toString stored ++ " found " ++ toString hops ++ " hop(s) away"

/-! ## Block rules -/

/-- The rule that a block breaks, and where. -/
inductive VerifyError where
  /-- An operand was never filled in. -/
  | unpatched (block : String) (index : Nat)
  /-- A frame is closed that was never opened. -/
  | frameUnderflow (block : String) (index : Nat)
  /-- Frames are open at the end. -/
  | frameLeftOpen (block : String) (count : Nat)
  /-- A jump leads out of the block. -/
  | jumpOutOfBlock (block : String) (index : Nat) (target : Int)
  | fault (f : Fault)
deriving DecidableEq

/-- The wording of a broken rule. -/
def VerifyError.message : VerifyError → String
  | .unpatched block index =>
    "verify error: unpatched operand at " ++ block ++ ":" ++ toString index
  | .frameUnderflow block index =>
    "verify error: cframe without open frame at " ++ block ++ ":" ++ toString index
  | .frameLeftOpen block count =>
    "verify error: " ++ toString count ++ " frame(s) left open at end of ." ++ block
  | .jumpOutOfBlock block index target =>
    "verify error: jump at " ++ block ++ ":" ++ toString index ++ " lands on " ++
      toString target ++ ", outside the block"
  | .fault f => f.message

/-! ## Compile errors -/

/-- A step that the generator takes only where it must succeed. -/
inductive InternalError where
  /-- The top-level scope cannot be closed. -/
  | topLevelScope
  /-- There is nothing to fill in at this place. -/
  | noReservation (label : String) (index : Nat)
deriving DecidableEq, Repr

/-- The wording of an internal error. -/
def InternalError.message : InternalError → String
  | .topLevelScope => "cannot close the top-level scope"
  | .noReservation label index =>
    "no reserved operand at " ++ label ++ ":" ++ toString index

/-- Why a program cannot be compiled. -/
inductive CompileError where
  | unresolved (name : String)
  /-- A name stands for another kind of thing than its use asks for. -/
  | notA (name : String) (expected found : EntityKind)
  /-- A call with the wrong number of arguments. -/
  | arity (name : String) (expected found : Nat)
  | redeclared (name : String)
  | nestedFunction (name : String)
  /-- An array size that is no positive integer literal. -/
  | nonStaticSize (name : String)
  | indexOutOfBounds (name : String) (index : Int64) (length : Nat)
  /-- An array with some initial elements, but not one for each slot. -/
  | initializerCount (name : String) (length found : Nat)
  | verify (e : VerifyError)
  | internal (e : InternalError)
  | fault (f : Fault)
deriving DecidableEq

/-- The wording of a compile error. -/
def CompileError.message : CompileError → String
  | .unresolved name => "compile error: unresolved identifier '" ++ name ++ "'"
  | .notA name expected found =>
    "compile error: '" ++ name ++ "' is " ++ found.describe ++ ", expected " ++
      expected.describe
  | .arity name expected found =>
    "compile error: function '" ++ name ++ "' takes " ++ toString expected ++
      " argument(s), got " ++ toString found
  | .redeclared name => "compile error: function '" ++ name ++ "' already exists"
  | .nestedFunction name =>
    "compile error: function '" ++ name ++ "' declared inside a block\n" ++
      "  hint: functions must be declared at the top level"
  | .nonStaticSize name =>
    "compile error: array '" ++ name ++ "' needs an integer literal size"
  | .indexOutOfBounds name index length =>
    "compile error: index " ++ toString index.toInt ++ " out of bounds for array '" ++ name ++
      "' of length " ++ toString length
  | .initializerCount name length found =>
    "compile error: array '" ++ name ++ "' has " ++ toString length ++ " slot(s) but " ++
      toString found ++ " initializer(s)"
  | .verify e => e.message
  | .internal e => "compile error: internal error: " ++ e.message
  | .fault f => f.message

end PadCompiler
