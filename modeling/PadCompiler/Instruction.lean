import PadCompiler.Text.Lowercase
import PadCompiler.Value

/-!
# PadCompiler.Instruction

Instructions of the stack machine, and their one-line text.

A jump target is pushed as an offset counted from the push itself; a frame
address names a slot of the frame a number of hops up the chain of open
frames.
-/

namespace PadCompiler

/-! ## Opcodes -/

/-- What an instruction does. -/
inductive Opcode where
  | push
  /-- Pushes a run of slots. -/
  | pushA
  /-- Pushes the slot at a computed distance from an address. -/
  | pushOffset
  | st
  | sta
  | add
  | sub
  | mul
  | div
  | lt
  | le
  | gt
  | ge
  | eq
  | jmp
  | cjmp
  | call
  | ret
  | reta
  | halt
  | oframe
  | cframe
  | alloc
  | dupa
  | delay
  | write
  | writeBox
  | clear
  | width
  | height
  | irnd
  | print
  | printA
deriving DecidableEq, Repr

/-- All opcodes, in order. -/
def Opcode.all : List Opcode :=
  [.push, .pushA, .pushOffset, .st, .sta, .add, .sub, .mul, .div, .lt, .le, .gt, .ge, .eq, .jmp,
    .cjmp, .call, .ret, .reta, .halt, .oframe, .cframe, .alloc, .dupa, .delay, .write, .writeBox,
    .clear, .width, .height, .irnd, .print, .printA]

/-- The word an opcode is written as. -/
def Opcode.mnemonic : Opcode → String
  | .push => "push"
  | .pushA => "pusha"
  | .pushOffset => "push +"
  | .st => "st"
  | .sta => "sta"
  | .add => "add"
  | .sub => "sub"
  | .mul => "mul"
  | .div => "div"
  | .lt => "lt"
  | .le => "le"
  | .gt => "gt"
  | .ge => "ge"
  | .eq => "eq"
  | .jmp => "jmp"
  | .cjmp => "cjmp"
  | .call => "call"
  | .ret => "ret"
  | .reta => "reta"
  | .halt => "halt"
  | .oframe => "oframe"
  | .cframe => "cframe"
  | .alloc => "alloc"
  | .dupa => "dupa"
  | .delay => "delay"
  | .write => "write"
  | .writeBox => "write_box"
  | .clear => "clear"
  | .width => "width"
  | .height => "height"
  | .irnd => "irnd"
  | .print => "print"
  | .printA => "printa"

/-! ## Operands -/

/-- What an instruction carries. -/
inductive Operand where
  | value (v : Value)
  /-- A slot of the frame `depth` hops up the chain. -/
  | address (slot depth : UInt64)
  /-- The block to call. -/
  | label (name : String)
  /-- A jump target, relative to the instruction that carries it. -/
  | pc (offset : Int64)
  /-- A place held free for an operand that is not known yet. -/
  | reserved
deriving DecidableEq

/-! ## Instructions -/

/-- An opcode with or without an operand. -/
structure Instruction where
  op : Opcode
  operand : Option Operand
deriving DecidableEq

namespace Instruction

/-- An opcode alone. -/
def plain (op : Opcode) : Instruction :=
  ⟨op, none⟩

/-- Pushes a literal. -/
def push (v : Value) : Instruction :=
  ⟨.push, some (.value v)⟩

/-- Pushes a count or a slot number as an integer literal, taken modulo
`2 ^ 64` into the signed range. -/
def pushNat (n : Nat) : Instruction :=
  push (.int (Int64.ofNat n))

/-- Applies an opcode to a frame address. -/
def address (op : Opcode) (slot depth : Nat) : Instruction :=
  ⟨op, some (.address (UInt64.ofNat slot) (UInt64.ofNat depth))⟩

/-- Pushes the label of a function to call.  Labels are in small letters. -/
def label (name : String) : Instruction :=
  ⟨.push, some (.label (Text.lower name))⟩

/-- A push whose operand is still to come. -/
def reserved : Instruction :=
  ⟨.push, some .reserved⟩

/-- Whether the operand is still to come. -/
def isReserved (i : Instruction) : Bool :=
  match i.operand with
  | some .reserved => true
  | _ => false

/-- The jump offset carried, if any. -/
def pcOffset (i : Instruction) : Option Int64 :=
  match i.operand with
  | some (.pc offset) => some offset
  | _ => none

/-- One line of text, without the line break. -/
def text (i : Instruction) : String :=
  let mnemonic := i.op.mnemonic
  match i.operand with
  | none => mnemonic
  | some (.value v) => mnemonic ++ " " ++ v.text
  | some (.address slot depth) =>
    -- `push +` is followed by its bracket without a space
    let gap := if i.op = .pushOffset then "" else " "
    mnemonic ++ gap ++ "[" ++ toString slot.toNat ++ ":" ++ toString depth.toNat ++ "]"
  | some (.label name) => mnemonic ++ " ." ++ name
  | some (.pc offset) =>
    let sign := if offset < 0 then "-" else "+"
    mnemonic ++ " #PC" ++ sign ++ toString offset.toInt.natAbs
  | some .reserved => mnemonic ++ " <reserved>"

end Instruction

end PadCompiler
