import PadCompiler.Block

/-!
# PadCompiler.Verify

The rules of a finished block, checked from its first instruction to its last:

* no operand is still held free;
* every jump leads into the block;
* no frame is closed before it is opened, and none is open at the end.

Frames are counted in the order of the code, whatever order it runs in.
-/

namespace PadCompiler

namespace Block

/-- Checks the instruction at `index` of a block of `length` instructions where
`frames` frames are open, and gives the number open after it. -/
def checkInstruction (label : String) (length index frames : Nat) (i : Instruction) :
    Except VerifyError Nat := do
  if i.isReserved then throw (.unpatched label index)
  if let some offset := i.pcOffset then
    let target ← (jumpTarget index offset).mapError .fault
    if target < 0 ∨ length ≤ target then throw (.jumpOutOfBlock label index target)
  match i.op, frames with
  | .oframe, _ => pure (frames + 1)
  | .cframe, 0 => throw (.frameUnderflow label index)
  | .cframe, rest + 1 => pure rest
  | _, _ => pure frames

/-- Checks the code from `index` on, with `frames` frames open before it. -/
def checkCode (label : String) (length : Nat) :
    (index frames : Nat) → List Instruction → Except VerifyError Unit
  | _, frames, [] => if frames = 0 then pure () else throw (.frameLeftOpen label frames)
  | index, frames, i :: rest => do
    let frames ← checkInstruction label length index frames i
    checkCode label length (index + 1) frames rest

/-- Checks a block. -/
def verify (b : Block) : Except VerifyError Unit :=
  checkCode b.label b.code.length 0 0 b.code

end Block

end PadCompiler
