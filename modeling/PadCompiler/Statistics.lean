import PadCompiler.Binary64
import PadCompiler.Decimal.Fixed
import PadCompiler.Image

/-!
# PadCompiler.Statistics

Counts of compiled programs: how long each block is, and how often the ten most
frequent opcodes occur.  Opcodes that occur equally often are in the order of
their mnemonics.
-/

namespace PadCompiler.Image

/-- The instructions of all blocks. -/
def code (image : Image) : List Instruction :=
  image.blocks.flatMap Block.code

/-- The number of instructions in all blocks. -/
def size (image : Image) : Nat :=
  image.code.length

/-- How often an opcode occurs. -/
def count (image : Image) (op : Opcode) : Nat :=
  image.code.countP (·.op == op)

/-- The opcodes that occur, with their counts: the more frequent first, equally
frequent ones by mnemonic. -/
def frequencies (image : Image) : List (Opcode × Nat) :=
  let counts := Opcode.all.map fun op => (op, image.count op)
  (counts.filter (0 < ·.2)).mergeSort fun a b =>
    b.2 < a.2 || (a.2 == b.2 && a.1.mnemonic ≤ b.1.mnemonic)

/-- The share of `count` in `total` in percent, with one decimal.  The share is
a 64-bit float; its exact value is rounded. -/
def percentText (count total : Nat) : String :=
  match Binary64.ofBits (Float.ofNat count / Float.ofNat total * 100.0).toBits with
  | .finite _ mantissa exponent => Decimal.fixed 1 mantissa exponent
  | .infinite _ => "inf"
  | .nan => "NaN"

/-- The statistics of a compiled program. -/
def statistics (image : Image) : String :=
  let blockLine (b : Block) :=
    "  ." ++ Text.padRight 14 b.label ++ " " ++ toString b.code.length
  let opcodeLine (entry : Opcode × Nat) :=
    "  " ++ Text.padRight 14 entry.1.mnemonic ++ " " ++ Text.padLeft 4 (toString entry.2) ++
      " (" ++ Text.padLeft 5 (percentText entry.2 image.size) ++ "%)"
  Text.unlines <|
    ["=== BYTECODE STATISTICS ===", "", "Blocks:           " ++ toString image.blocks.length] ++
      image.blocks.map blockLine ++
      ["  total:          " ++ toString image.size, "", "Op frequency:"] ++
      (image.frequencies.take 10).map opcodeLine

end PadCompiler.Image
