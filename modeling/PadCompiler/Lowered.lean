import PadCompiler.Instruction

/-!
# PadCompiler.Lowered

What is known about an expression once it has been lowered: its value, the pad
query that yields it, or nothing but code.
-/

namespace PadCompiler

/-- The pad queries that take no argument. -/
inductive Query where
  | width
  | height
deriving DecidableEq, Repr

/-- The opcode that answers a query. -/
def Query.opcode : Query → Opcode
  | .width => .width
  | .height => .height

/-- How an expression was classified. -/
inductive Lowered where
  /-- Its value is known; no code was made for it. -/
  | static (value : Value)
  /-- It is a pad query; no code was made for it. -/
  | query (q : Query)
  /-- Code leaves its value on the stack. -/
  | dynamic
deriving DecidableEq

/-- A lowered expression: its classification, and the code that a dynamic one
runs. -/
structure Lowering where
  kind : Lowered
  code : List Instruction

/-- The code that leaves the value of a lowered expression on the stack. -/
def Lowering.commit (l : Lowering) : List Instruction :=
  match l.kind with
  | .static value => [.push value]
  | .query q => [.plain q.opcode]
  | .dynamic => l.code

end PadCompiler
