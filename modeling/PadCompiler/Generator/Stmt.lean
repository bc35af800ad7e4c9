import PadCompiler.Generator.Expr

/-!
# PadCompiler.Generator.Stmt

Code for statements.  Every conditional, loop and nested block has a frame of its
own, and jumps out of a construct lead to its `cframe`, so that each frame is
closed exactly once on every path:

```text
if:        S n oframe <test> 0 eq cjmp <body> X:cframe                  S → X
if/else:   S n oframe <test> 0 eq cjmp <body> J jmp E:<else> X:cframe   S → E, J → X
loops:     n oframe [init] T:<test> 0 eq C cjmp <body> [step] B jmp X:cframe
                                                                        C → X, B → T
```
-/

namespace PadCompiler.Generator

/-! ## Variables -/

/-- `<init>` `push <slot>` `push 0` `st` -/
def compileVarDecl (decl : VarDecl) : GenM Unit := do
  let hint ← emitExpr decl.init
  let slot ← declareScalar decl.name decl.ty hint
  emit [.pushNat slot, .pushNat 0, .plain .st]

/-- `<value>` `push <slot>` `push <depth>` `st` -/
def compileAssign (assignment : Assignment) : GenM Unit := do
  let hint ← emitExpr assignment.value
  let g ← get
  let (b, scopes) ← ofExcept (g.scopes.setHint assignment.name hint)
  set { g with scopes := scopes }
  match b.entity with
  | .scalar _ slot _ => emit [.pushNat slot, .pushNat b.depth, .plain .st]
  | other => throw (.notA assignment.name .variable other.kind)

/-! ## Arrays -/

/-- The length that an array size spells out: a positive integer literal. -/
def arrayLength (name : String) (size : Expr) : Except CompileError Nat :=
  match size.literalInt? with
  | some n => if 0 < n.toInt then .ok n.toInt.toNat else .error (.nonStaticSize name)
  | none => .error (.nonStaticSize name)

/-- The elements, the last one first, or `push <n>` `push <zero>` `dupa`; then
`push <n>` `push <base>` `push 0` `sta`. -/
def compileArrayDecl (name : String) (ty : Ty) (size : Expr) (elements : List Expr) :
    GenM Unit := do
  let length ← ofExcept (arrayLength name size)
  if elements.isEmpty then
    emit [.pushNat length, .push ty.zero, .plain .dupa]
  else
    if elements.length ≠ length then
      throw (.initializerCount name length elements.length)
    emitReversed elements
  let base ← declareArray name ty length
  emit [.pushNat length, .pushNat base, .pushNat 0, .plain .sta]

/-- `<value>` `push 1` `<slot>` `push <depth>` `sta`, where a literal index gives
the slot at once and any other is added to the base. -/
def compileArrayAssign (name : String) (index value : Expr) : GenM Unit := do
  discard (emitExpr value)
  let array ← resolveArray name
  emit [.pushNat 1]
  match index.literalInt? with
  | some i =>
    let offset ← ofExcept (checkBounds name i array.length)
    emit [.pushNat (array.base + offset)]
  | none =>
    discard (emitExpr index)
    emit [.pushNat array.base, .plain .add]
  emit [.pushNat array.depth, .plain .sta]

/-- The array that an expression names, if it is the bare name of one. -/
def arrayIdent (e : Expr) : GenM (Option ScopeStack.ArrayRef) := do
  match e with
  | .ident name => return ((← get).scopes.array name).toOption
  | _ => pure none

/-- `push <n>` `pusha [base:depth]` `push <n>` and an opcode for whole arrays. -/
def emitWholeArray (array : ScopeStack.ArrayRef) (op : Opcode) : GenM Unit :=
  emit [.pushNat array.length, .address .pushA array.base array.depth,
    .pushNat array.length, .plain op]

/-- The value of an expression and an opcode, or a whole array and its opcode. -/
def compileOutput (e : Expr) (op arrayOp : Opcode) : GenM Unit := do
  match ← arrayIdent e with
  | some array => emitWholeArray array arrayOp
  | none =>
    discard (emitExpr e)
    emit [.plain op]

/-! ## Control flow -/

/-- Runs steps inside a frame of their own. -/
def inFrame (body : GenM Unit) : GenM Unit := do
  let frame ← openFrame
  body
  closeFrame frame

/-- `<test>` `push 0` `eq`: true when the test is false. -/
def compileTest (test : Expr) : GenM Unit := do
  discard (emitExpr test)
  emit [.push (.int 0), .plain .eq]

/-- A conditional without alternative.  A false test leads to the `cframe`, not
past it. -/
def compileIf (test : Expr) (body : GenM Unit) : GenM Unit := do
  let skipBody ← reserve
  inFrame do
    compileTest test
    emit [.plain .cjmp]
    body
    patchJump skipBody (← here)

/-- A conditional with an alternative.  Both branches share one frame, which is
as large as the larger of them needs. -/
def compileIfElse (test : Expr) (body otherwise : GenM Unit) : GenM Unit := do
  let skipBody ← reserve
  inFrame do
    compileTest test
    emit [.plain .cjmp]
    body
    let skipElse ← reserve
    emit [.plain .jmp]
    patchJump skipBody (← here)
    rewindScope
    otherwise
    patchJump skipElse (← here)

/-- A loop, with a variable declared before the first test and an assignment
after each run of the body if there are any. -/
def compileLoop (init : Option VarDecl) (test : Expr) (step : Option Assignment)
    (body : GenM Unit) : GenM Unit :=
  inFrame do
    init.forM compileVarDecl
    let top ← here
    compileTest test
    let exit ← reserve
    emit [.plain .cjmp]
    body
    step.forM compileAssign
    let back ← reserve
    emit [.plain .jmp]
    patchJump back top
    patchJump exit (← here)

/-! ## Statements -/

mutual
/-- Adds the code of a statement to the current block. -/
def compileStmt : Stmt → GenM Unit
  | .varDecl decl => compileVarDecl decl
  | .arrayDecl name ty size elements => compileArrayDecl name ty size elements
  | .assign assignment => compileAssign assignment
  | .arrayAssign name index value => compileArrayAssign name index value
  | .print value => compileOutput value .print .printA
  | .delay duration => do
    discard (emitExpr duration)
    emit [.plain .delay]
  | .write x y color => do
    emitAll [x, y, color]
    emit [.plain .write]
  | .writeBox x y width height color => do
    emitAll [x, y, width, height, color]
    emit [.plain .writeBox]
  | .conditional test body none => compileIf test (compileStmts body)
  | .conditional test body (some otherwise) =>
    compileIfElse test (compileStmts body) (compileStmts otherwise)
  | .whileLoop test body => compileLoop none test none (compileStmts body)
  | .forLoop init test step body => compileLoop init test step (compileStmts body)
  | .ret value => compileOutput value .ret .reta
  | .block body => inFrame (compileStmts body)
  | .function name _ _ _ => throw (.nestedFunction name)

/-- Adds the code of statements to the current block. -/
def compileStmts : List Stmt → GenM Unit
  | [] => pure ()
  | s :: ss => do
    compileStmt s
    compileStmts ss
end

end PadCompiler.Generator
