import PadCompiler.Image
import PadCompiler.Scope

/-!
# PadCompiler.Generator.Basic

The state of the code generator and its elementary steps: adding code to the
current block, opening and closing frames, raising warnings.

The state outlives a failing step, so that what a failure leaves behind can be
spoken about.
-/

namespace PadCompiler

/-! ## Configuration -/

/-- What to do about a function name that is declared twice. -/
inductive Redeclaration where
  /-- Warn and go on; the later signature counts. -/
  | warn
  | reject
deriving DecidableEq, Repr

/-- How to compile. -/
structure Config where
  redeclaration : Redeclaration := .warn
  /-- The colour that the pad is cleared with at the start, if any. -/
  clearColor : Option String := some "#ffffff"
deriving DecidableEq, Repr

/-! ## State -/

/-- The state of the code generator. -/
structure Generator where
  config : Config
  scopes : ScopeStack
  /-- The block that code is added to. -/
  block : Block
  /-- The finished blocks and the warnings so far. -/
  image : Image

/-- Steps of the code generator. -/
abbrev GenM := EStateM CompileError Generator

namespace Generator

/-- The state at the start: the top-level scope and an empty block. -/
def initial (config : Config) : Generator where
  config := config
  scopes := {}
  block := .empty mainLabel
  image := ⟨[], []⟩

/-- Takes an outcome over as a step. -/
def ofExcept : Except CompileError α → GenM α
  | .ok a => pure a
  | .error e => throw e

/-! ## Blocks -/

/-- Adds code to the current block. -/
def emit (code : List Instruction) : GenM Unit :=
  modify fun g => { g with block := g.block.extend code }

/-- The index that the next instruction will get. -/
def here : GenM Nat :=
  return (← get).block.here

/-- Adds a push whose operand comes later. -/
def reserve : GenM Reservation :=
  modifyGet fun g =>
    let (r, block) := g.block.reserve
    (r, { g with block := block })

/-- Makes a reserved push lead to `target`. -/
def patchJump (r : Reservation) (target : Nat) : GenM Unit := do
  let g ← get
  let (_, block) ← ofExcept (g.block.patchJump r target)
  set { g with block := block }

/-- Makes a reserved push carry a count. -/
def patchCount (r : Reservation) (count : Nat) : GenM Unit := do
  let g ← get
  let block ← ofExcept (g.block.patchCount r count)
  set { g with block := block }

/-- Starts a block; the code of the current one is dropped. -/
def beginBlock (label : String) : GenM Unit :=
  modify fun g => { g with block := .empty label }

/-- Puts the current block with the finished ones and starts an empty one. -/
def finishBlock : GenM Unit :=
  modify fun g =>
    { g with
      block := .empty mainLabel
      image := { g.image with blocks := g.image.blocks ++ [g.block] } }

/-! ## Scopes and frames -/

/-- Opens a scope. -/
def openScope : GenM Unit :=
  modify fun g => { g with scopes := g.scopes.enter }

/-- Closes the innermost scope and gives the size of its frame. -/
def closeScope : GenM Nat := do
  let g ← get
  let (scope, scopes) ← ofExcept g.scopes.leave
  set { g with scopes := scopes }
  pure scope.slots

/-- Starts the innermost scope anew, for a second branch in the same frame. -/
def rewindScope : GenM Unit :=
  modify fun g => { g with scopes := g.scopes.rewind }

/-- Declares a variable and gives its slot. -/
def declareScalar (name : String) (ty : Ty) (hint : Lowered) : GenM Nat := do
  let g ← get
  let (slot, scopes) ← ofExcept ((g.scopes.declareScalar name ty hint).mapError .fault)
  set { g with scopes := scopes }
  pure slot

/-- Declares an array and gives its first slot. -/
def declareArray (name : String) (ty : Ty) (length : Nat) : GenM Nat := do
  let g ← get
  let (base, scopes) ← ofExcept ((g.scopes.declareArray name ty length).mapError .fault)
  set { g with scopes := scopes }
  pure base

/-- `push <size>` `oframe`, with the size left to `closeFrame`. -/
def openFrame : GenM Reservation := do
  let size ← reserve
  emit [.plain .oframe]
  openScope
  pure size

/-- Closes the scope, fills in the size of its frame, and adds `cframe`. -/
def closeFrame (size : Reservation) : GenM Unit := do
  let slots ← closeScope
  patchCount size slots
  emit [.plain .cframe]

/-! ## Warnings -/

/-- Raises a warning. -/
def warn (message : String) : GenM Unit :=
  modify fun g =>
    { g with image := { g.image with diagnostics := g.image.diagnostics ++ [⟨message⟩] } }

end Generator

end PadCompiler
