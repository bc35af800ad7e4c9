import PadCompiler.Image
import PadCompiler.Wire.Basic

/-!
# PadCompiler.Wire.Image

The binary format of compiled programs.
-/

namespace PadCompiler.Wire

/-- An operand: the position of its alternative, then its content. -/
def encodeOperand : Operand → List UInt8
  | .value v => encodeVarint 0 ++ encodeValue v
  | .address slot depth => encodeVarint 1 ++ encodeUInt64 slot ++ encodeUInt64 depth
  | .label name => encodeVarint 2 ++ encodeString name
  | .pc offset => encodeVarint 3 ++ encodeInt64 offset
  | .reserved => encodeVarint 4

/-- Reads an operand. -/
def decodeOperand : Decoder Operand := do
  match ← decodeTag with
  | 0 => .value <$> decodeValue
  | 1 =>
    let slot ← decodeUInt64
    let depth ← decodeUInt64
    pure (.address slot depth)
  | 2 => .label <$> decodeString
  | 3 => .pc <$> decodeInt64
  | 4 => pure .reserved
  | _ => throw .badTag

/-- An instruction. -/
def encodeInstruction (i : Instruction) : List UInt8 :=
  encodeMember Opcode.all i.op ++ encodeOption encodeOperand i.operand

/-- Reads an instruction. -/
def decodeInstruction : Decoder Instruction := do
  let op ← decodeMember Opcode.all
  let operand ← decodeOption decodeOperand
  pure ⟨op, operand⟩

/-- A block. -/
def encodeBlock (b : Block) : List UInt8 :=
  encodeString b.label ++ encodeList encodeInstruction b.code

/-- Reads a block.  Its label is taken as it is. -/
def decodeBlock : Decoder Block := do
  let label ← decodeString
  let code ← decodeList decodeInstruction
  pure ⟨label, code⟩

/-- A compiled program. -/
def encodeImage (image : Image) : List UInt8 :=
  encodeList encodeBlock image.blocks ++
    encodeList (fun d => encodeString d.message) image.diagnostics

/-- Reads a compiled program. -/
def decodeImage : Decoder Image := do
  let blocks ← decodeList decodeBlock
  let diagnostics ← decodeList (Diagnostic.mk <$> decodeString)
  pure ⟨blocks, diagnostics⟩

end PadCompiler.Wire

namespace PadCompiler.Image

/-- A compiled program in binary form. -/
def toBytes (image : Image) : List UInt8 :=
  Wire.encodeImage image

/-- Reads a compiled program in binary form; bytes after it are ignored. -/
def ofBytes (input : List UInt8) : Except Wire.DecodeError Image :=
  Prod.fst <$> Wire.decodeImage input

end PadCompiler.Image
