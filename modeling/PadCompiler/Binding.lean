import PadCompiler.Lowered
import PadCompiler.Program

/-!
# PadCompiler.Binding

What a name stands for: a variable, an array or a function, seen from a number
of frames away.
-/

namespace PadCompiler

/-- What a call needs to know about a function. -/
structure Signature where
  label : String
  params : List Param
  result : Ty
deriving DecidableEq

/-- The thing that a name is bound to. -/
inductive Entity where
  /-- One slot.  The hint tells how the value stored last was classified; no
  code depends on it. -/
  | scalar (ty : Ty) (slot : Nat) (hint : Lowered)
  /-- `length` slots in a row, from `base` on. -/
  | array (ty : Ty) (base length : Nat)
  /-- A function; it takes no slot. -/
  | function (signature : Signature)
deriving DecidableEq

/-- A thing and the number of frames between the innermost one and its own. -/
structure Binding where
  entity : Entity
  depth : Nat
deriving DecidableEq

/-- The kinds of things that names stand for. -/
inductive EntityKind where
  | variable
  | array
  | function
deriving DecidableEq, Repr

/-- A kind in words. -/
def EntityKind.describe : EntityKind → String
  | .variable => "a variable"
  | .array => "an array"
  | .function => "a function"

/-- The kind of a thing. -/
def Entity.kind : Entity → EntityKind
  | .scalar .. => .variable
  | .array .. => .array
  | .function .. => .function

/-- The same thing with another hint; only a variable has one. -/
def Entity.withHint (hint : Lowered) : Entity → Entity
  | .scalar ty slot _ => .scalar ty slot hint
  | entity => entity

end PadCompiler
