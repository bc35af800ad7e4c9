import PadCompiler.Error
import PadCompiler.Word

/-!
# PadCompiler.Scope

The scopes that are open while code is made.  Each stands for one frame that
will be open when the code runs.

A binding knows how many frames away its own one is.  Opening a scope puts every
binding one frame further away and closing it brings them back, so that `resolve`
only has to look a name up; it checks the stored depth against the scopes it
crossed.

Slots are handed out one after the other; the frame has to be as large as the
most slots ever in use.
-/

namespace PadCompiler

/-! ## One scope -/

/-- The names of one scope and its use of slots. -/
structure Scope where
  bindings : List (String × Binding) := []
  /-- The next free slot. -/
  cursor : Nat := 0
  /-- The most slots ever in use. -/
  highWater : Nat := 0

namespace Scope

/-- The size of the frame. -/
def slots (s : Scope) : Nat :=
  s.highWater

/-- What a name stands for in this scope. -/
def lookup (s : Scope) (name : String) : Option Binding :=
  s.bindings.lookup name

/-- Binds a name, in place of what it stood for. -/
def insert (s : Scope) (name : String) (b : Binding) : Scope :=
  { s with bindings := (name, b) :: s.bindings.filter (·.1 != name) }

/-- Changes what a name stands for. -/
def modify (s : Scope) (name : String) (f : Binding → Binding) : Scope :=
  { s with bindings := s.bindings.map fun entry =>
      if entry.1 = name then (entry.1, f entry.2) else entry }

/-- Hands out `n` slots and gives the first.  Slot numbers are 64-bit words. -/
def take (s : Scope) (n : Nat) : Except Fault (Nat × Scope) :=
  let cursor := s.cursor + n
  if cursor < wordLimit then
    .ok (s.cursor, { s with cursor := cursor, highWater := Nat.max s.highWater cursor })
  else .error .addOverflow

/-- Puts every binding one frame further away. -/
def deepen (s : Scope) : Scope :=
  { s with bindings := s.bindings.map fun entry =>
      (entry.1, { entry.2 with depth := entry.2.depth + 1 }) }

/-- Brings a binding one frame nearer. -/
def liftBinding (entry : String × Binding) : Except Fault (String × Binding) :=
  match entry.2.depth with
  | 0 => .error .subOverflow
  | depth + 1 => .ok (entry.1, { entry.2 with depth := depth })

/-- Brings every binding one frame nearer. -/
def lift (s : Scope) : Except Fault Scope := do
  let bindings ← s.bindings.mapM liftBinding
  pure { s with bindings := bindings }

end Scope

/-! ## The open scopes -/

/-- The open scopes.  There is always an innermost one; the others follow from
the inside out. -/
structure ScopeStack where
  inner : Scope := {}
  outer : List Scope := []

namespace ScopeStack

/-- The open scopes from the inside out. -/
def toList (s : ScopeStack) : List Scope :=
  s.inner :: s.outer

/-- Opens a scope. -/
def enter (s : ScopeStack) : ScopeStack :=
  { inner := {}, outer := s.toList.map Scope.deepen }

/-- Closes the innermost scope and gives it back.  The top-level scope stays. -/
def leave (s : ScopeStack) : Except CompileError (Scope × ScopeStack) :=
  match s.outer with
  | [] => .error (.internal .topLevelScope)
  | parent :: rest => do
    let parent ← parent.lift.mapError .fault
    let rest ← (rest.mapM Scope.lift).mapError .fault
    pure (s.inner, { inner := parent, outer := rest })

/-- Forgets the names of the innermost scope and starts again from slot 0.  The
frame keeps its size, so that two branches can share it. -/
def rewind (s : ScopeStack) : ScopeStack :=
  { s with inner := { s.inner with bindings := [], cursor := 0 } }

/-! ### Declarations -/

/-- Takes slots of the innermost scope for a name. -/
def declare (s : ScopeStack) (name : String) (size : Nat) (entity : Nat → Entity) :
    Except Fault (Nat × ScopeStack) := do
  let (slot, inner) ← s.inner.take size
  pure (slot, { s with inner := inner.insert name ⟨entity slot, 0⟩ })

/-- Declares a variable in the innermost scope and gives its slot. -/
def declareScalar (s : ScopeStack) (name : String) (ty : Ty) (hint : Lowered) :
    Except Fault (Nat × ScopeStack) :=
  s.declare name 1 fun slot => .scalar ty slot hint

/-- Declares an array in the innermost scope and gives its first slot. -/
def declareArray (s : ScopeStack) (name : String) (ty : Ty) (length : Nat) :
    Except Fault (Nat × ScopeStack) :=
  s.declare name length fun base => .array ty base length

/-- Declares a function in the innermost scope and gives what its name stood for
there. -/
def declareFunction (s : ScopeStack) (name : String) (signature : Signature) :
    Option Binding × ScopeStack :=
  (s.inner.lookup name, { s with inner := s.inner.insert name ⟨.function signature, 0⟩ })

/-! ### Look-up -/

/-- What a name stands for in the first of the scopes that has it, the first
being `hops` frames away. -/
def resolveIn (name : String) : (hops : Nat) → List Scope → Except CompileError Binding
  | _, [] => .error (.unresolved name)
  | hops, scope :: rest =>
    match scope.lookup name with
    | some b =>
      if b.depth = hops then .ok b else .error (.fault (.depthMismatch b.depth hops))
    | none => resolveIn name (hops + 1) rest

/-- What a name stands for. -/
def resolve (s : ScopeStack) (name : String) : Except CompileError Binding :=
  resolveIn name 0 s.toList

/-- Changes what a name stands for in the first of the scopes that has it, and
gives the changed binding. -/
def modifyIn (name : String) (f : Binding → Binding) :
    List Scope → Option (Binding × List Scope)
  | [] => none
  | scope :: rest =>
    match scope.lookup name with
    | some b => some (f b, scope.modify name f :: rest)
    | none => (modifyIn name f rest).map fun (b, rest) => (b, scope :: rest)

/-- Records how the value stored last in a variable was classified, and gives the
binding of the name.  What is no variable is left alone. -/
def setHint (s : ScopeStack) (name : String) (hint : Lowered) :
    Except CompileError (Binding × ScopeStack) :=
  let update (b : Binding) : Binding := { b with entity := b.entity.withHint hint }
  match modifyIn name update s.toList with
  | some (b, inner :: outer) => .ok (b, { inner := inner, outer := outer })
  | _ => .error (.unresolved name)

/-! ### Look-up by kind -/

/-- An array as seen from the innermost scope.  It ends where `Scope.take` checked that it may, so
the sum of `base` and an offset into it needs no check of its own. -/
structure ArrayRef where
  base : Nat
  length : Nat
  depth : Nat
deriving DecidableEq, Repr

/-- The slot and depth of a variable. -/
def scalar (s : ScopeStack) (name : String) : Except CompileError (Nat × Nat) := do
  let b ← s.resolve name
  match b.entity with
  | .scalar _ slot _ => pure (slot, b.depth)
  | other => throw (.notA name .variable other.kind)

/-- The place of an array. -/
def array (s : ScopeStack) (name : String) : Except CompileError ArrayRef := do
  let b ← s.resolve name
  match b.entity with
  | .array _ base length => pure ⟨base, length, b.depth⟩
  | other => throw (.notA name .array other.kind)

/-- The signature of a function. -/
def function (s : ScopeStack) (name : String) : Except CompileError Signature := do
  let b ← s.resolve name
  match b.entity with
  | .function signature => pure signature
  | other => throw (.notA name .function other.kind)

end ScopeStack

end PadCompiler
