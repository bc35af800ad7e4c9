import PadCompiler.Generator.Basic

/-!
# PadCompiler.Generator.Expr

Code for expressions.

An expression is lowered first: classified, with its code kept aside.  Only when
it is committed does code come of it, a literal as a push and a pad query as its
opcode, so nothing is ever taken back.

Operands come right to left, so that the left one ends up on top of the stack,
and so do the arguments of a call.
-/

namespace PadCompiler

/-- The opcode of an operator.  There is no negated comparison: `!=` shares `eq`.
The logical operators have none. -/
def BinaryOp.opcode? : BinaryOp → Option Opcode
  | .lt => some .lt
  | .gt => some .gt
  | .le => some .le
  | .ge => some .ge
  | .eq => some .eq
  | .notEq => some .eq
  | .add => some .add
  | .sub => some .sub
  | .mul => some .mul
  | .div => some .div
  | .or => none
  | .and => none

/-- The integer that an expression spells out, if it does. -/
def Expr.literalInt? : Expr → Option Int64
  | .literal (.int n) => some n
  | _ => none

/-- The offset of a literal index into an array of `length` slots. -/
def checkBounds (name : String) (index : Int64) (length : Nat) : Except CompileError Nat :=
  if index.toInt < 0 ∨ length ≤ index.toInt then .error (.indexOutOfBounds name index length)
  else .ok index.toInt.toNat

namespace Generator

/-- The slot and depth of a variable. -/
def resolveScalar (name : String) : GenM (Nat × Nat) := do
  ofExcept ((← get).scopes.scalar name)

/-- The place of an array. -/
def resolveArray (name : String) : GenM ScopeStack.ArrayRef := do
  ofExcept ((← get).scopes.array name)

/-- The signature of a function. -/
def resolveFunction (name : String) : GenM Signature := do
  ofExcept ((← get).scopes.function name)

/-- The warning about an operator that has no code. -/
def unsupportedMessage (op : BinaryOp) : String :=
  "'" ++ op.symbol ++ "' is not supported by the code generator; the expression emits no code"

mutual
/-- Lowers an expression. -/
def lowerExpr : Expr → GenM Lowering
  | .literal value => pure ⟨.static value, []⟩
  | .padWidth => pure ⟨.query .width, []⟩
  | .padHeight => pure ⟨.query .height, []⟩
  | .ident name => do
    let (slot, depth) ← resolveScalar name
    pure ⟨.dynamic, [.address .push slot depth]⟩
  | .randomInt bound => do
    let bound ← lowerExpr bound
    pure ⟨.dynamic, bound.commit ++ [.plain .irnd]⟩
  | .binary op lhs rhs => do
    let right ← lowerExpr rhs
    let left ← lowerExpr lhs
    match op.opcode? with
    | some opcode => pure ⟨.dynamic, right.commit ++ left.commit ++ [.plain opcode]⟩
    | none =>
      warn (unsupportedMessage op)
      pure ⟨.dynamic, []⟩
  | .call name args => do
    let signature ← resolveFunction name
    if signature.params.length ≠ args.length then
      throw (.arity name signature.params.length args.length)
    let code ← lowerArgs args
    pure ⟨.dynamic,
      code ++ [.pushNat args.length, .label signature.label, .plain .call]⟩
  | .index name index => do
    let array ← resolveArray name
    match index.literalInt? with
    | some i =>
      let offset ← ofExcept (checkBounds name i array.length)
      pure ⟨.dynamic, [.pushNat 1, .address .pushA (array.base + offset) array.depth]⟩
    | none =>
      let index ← lowerExpr index
      pure ⟨.dynamic, index.commit ++ [.address .pushOffset array.base array.depth]⟩

/-- The code of arguments, the last one first. -/
def lowerArgs : List Expr → GenM (List Instruction)
  | [] => pure []
  | e :: es => do
    let others ← lowerArgs es
    let first ← lowerExpr e
    pure (others ++ first.commit)
end

/-- Lowers an expression and commits it, keeping the code aside. -/
def compileExpr (e : Expr) : GenM (Lowered × List Instruction) := do
  let lowering ← lowerExpr e
  pure (lowering.kind, lowering.commit)

/-- Adds the code of an expression to the current block. -/
def emitExpr (e : Expr) : GenM Lowered := do
  let (kind, code) ← compileExpr e
  emit code
  pure kind

/-- Adds the code of expressions to the current block, the last one first. -/
def emitReversed : List Expr → GenM Unit
  | [] => pure ()
  | e :: es => do
    emitReversed es
    discard (emitExpr e)

/-- Adds the code of expressions to the current block in order. -/
def emitAll : List Expr → GenM Unit
  | [] => pure ()
  | e :: es => do
    discard (emitExpr e)
    emitAll es

end Generator

end PadCompiler
