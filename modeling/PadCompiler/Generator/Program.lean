import PadCompiler.Generator.Stmt

/-!
# PadCompiler.Generator.Program

Code for functions and whole programs.  All functions are made known first, so
that a call may come before the declaration; then each gets its block, and the
other statements get the last one.
-/

namespace PadCompiler

namespace Generator

/-! ## Functions -/

/-- Makes a function known in the innermost scope. -/
def registerFunction (decl : FunctionDecl) : GenM Unit := do
  let g ← get
  let (previous, scopes) :=
    g.scopes.declareFunction decl.name ⟨Text.lower decl.name, decl.params, decl.result⟩
  set { g with scopes := scopes }
  if previous.isSome then
    match g.config.redeclaration with
    | .reject => throw (.redeclared decl.name)
    | .warn => warn ("function '" ++ decl.name ++ "' already exists")

/-- Whether a function body ends with a `return` of its own. -/
def endsWithReturn (body : List Stmt) : Bool :=
  body.getLast?.any Stmt.isReturn

/-- The block of a function: `push <size>` `alloc`, the body, and a `ret` unless
the body ends with one.  A call opens the frame; `alloc` only makes room for the
locals besides the parameters. -/
def compileFunction (decl : FunctionDecl) : GenM Unit := do
  beginBlock decl.name
  openScope
  let size ← reserve
  emit [.plain .alloc]
  decl.params.forM fun param => discard (declareScalar param.name param.ty .dynamic)
  compileStmts decl.body
  if !endsWithReturn decl.body then
    emit [.plain .ret]
  let slots ← closeScope
  patchCount size slots
  finishBlock

/-! ## Programs -/

/-- The block of the top-level code: a frame around the statements, with the pad
cleared first if it is to be. -/
def compileMain (stmts : List Stmt) : GenM Unit := do
  beginBlock mainLabel
  let frame ← reserve
  emit [.plain .oframe]
  let g ← get
  if let some color := g.config.clearColor then
    emit [.push (.color color), .plain .clear]
  compileStmts stmts
  let g ← get
  patchCount frame g.scopes.inner.slots
  emit [.plain .cframe, .plain .halt]
  finishBlock

/-- All blocks of a program. -/
def generate (p : Program) : GenM Unit := do
  p.functions.forM registerFunction
  p.functions.forM compileFunction
  compileMain p.statements

end Generator

/-- Compiles a program and checks the blocks that come of it. -/
def compile (config : Config) (p : Program) : Except CompileError Image :=
  match (Generator.generate p).run (.initial config) with
  | .ok _ g => do
    g.image.verify.mapError .verify
    pure g.image
  | .error e _ => .error e

end PadCompiler
