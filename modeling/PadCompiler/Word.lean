/-!
# PadCompiler.Word

The ranges of 64-bit machine words, unsigned and signed.
-/

namespace PadCompiler

/-- The number of words: unsigned words are the numbers below it. -/
def wordLimit : Nat :=
  0x10000000000000000

/-- Half the number of words: signed words go from its negative up to below
it. -/
def signedLimit : Int :=
  0x8000000000000000

end PadCompiler
