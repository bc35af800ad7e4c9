import PadCompiler.Error
import PadCompiler.Text.Pad
import PadCompiler.Word

/-!
# PadCompiler.Block

Blocks of code under a label.  A block only grows, except that an operand held
free by `reserve` is filled in later: a jump target once it is known how much
code it skips, a frame size once it is known how many slots are used.

A jump offset counts from the reserved push itself: the push at index `i` with
offset `n` leads to index `i + n`.  Offsets are signed 64-bit words, and
arithmetic that leaves their range is a `Fault`.
-/

namespace PadCompiler

/-! ## Jump arithmetic -/

/-- Where a jump offset at `index` leads.  An index is never negative, so only
the upper end of the range can be passed. -/
def jumpTarget (index : Nat) (offset : Int64) : Except Fault Int :=
  let target := (index : Int) + offset.toInt
  if target < signedLimit then .ok target else .error .addOverflow

/-- The offset that leads from `index` to `target`.  Both are taken as signed
words first. -/
def jumpOffset (index target : Nat) : Except Fault Int64 :=
  let offset := (Int64.ofNat target).toInt - (Int64.ofNat index).toInt
  if -signedLimit ≤ offset ∧ offset < signedLimit then .ok (Int64.ofInt offset)
  else .error .subOverflow

/-! ## Blocks -/

/-- The label of the block that holds the top-level code. -/
def mainLabel : String :=
  "main"

/-- A labelled run of instructions. -/
structure Block where
  label : String
  code : List Instruction
deriving DecidableEq

/-- The place of a push whose operand is held free. -/
structure Reservation where
  index : Nat
deriving DecidableEq, Repr

namespace Block

/-- A block without code.  Its label is put in small letters. -/
def empty (label : String) : Block :=
  ⟨Text.lower label, []⟩

/-- The index that the next instruction will get. -/
def here (b : Block) : Nat :=
  b.code.length

/-- Appends code. -/
def extend (b : Block) (code : List Instruction) : Block :=
  { b with code := b.code ++ code }

/-- Appends one instruction. -/
def emit (b : Block) (i : Instruction) : Block :=
  b.extend [i]

/-! ## Reservations -/

/-- Appends a push whose operand comes later. -/
def reserve (b : Block) : Reservation × Block :=
  (⟨b.here⟩, b.emit .reserved)

/-- Puts an operand where one was held free. -/
def fill (b : Block) (r : Reservation) (operand : Operand) : Except CompileError Block :=
  match b.code[r.index]? with
  | some i =>
    if i.isReserved then
      .ok { b with code := b.code.set r.index { i with operand := some operand } }
    else .error (.internal (.noReservation b.label r.index))
  | none => .error (.internal (.noReservation b.label r.index))

/-- Makes a reserved push lead to `target`; also gives the offset. -/
def patchJump (b : Block) (r : Reservation) (target : Nat) :
    Except CompileError (Int64 × Block) := do
  let offset ← (jumpOffset r.index target).mapError .fault
  let block ← b.fill r (.pc offset)
  pure (offset, block)

/-- Makes a reserved push carry a count. -/
def patchCount (b : Block) (r : Reservation) (count : Nat) : Except CompileError Block :=
  b.fill r (.value (.int (Int64.ofNat count)))

/-! ## Text -/

/-- The text of a block: a header line with its label, then a line for each
instruction. -/
def text (b : Block) : String :=
  Text.unlines (("." ++ b.label) :: b.code.map Instruction.text)

end Block

end PadCompiler
