import PadCompiler.Image

/-!
# PadCompiler.Listing

The annotated listing of compiled programs: each instruction with its index,
jumps with the index they lead to, other instructions with what they do to the
stack.  An instruction that some jump leads to is marked and ruled off from the
one before.
-/

namespace PadCompiler

/-! ## Stack effects -/

/-- What an opcode takes from the stack and leaves on it, where that is worth
showing.  `F:` is the chain of frames. -/
def Opcode.stackEffect : Opcode → Option String
  | .st => some "( v slot depth -- )"
  | .sta => some "( v.. n slot depth -- )"
  | .pushA => some "( n -- v.. )"
  | .pushOffset => some "( i -- v )"
  | .dupa => some "( n v -- v.. )"
  | .cjmp => some "( target cond -- )"
  | .jmp => some "( target -- )"
  | .call => some "( args.. argc label -- r )"
  | .oframe => some "( n -- ) F:( -- frame )"
  | .cframe => some "F:( frame -- )"
  | .alloc => some "( n -- )"
  | .write => some "( x y c -- )"
  | .writeBox => some "( x y w h c -- )"
  | .irnd => some "( max -- n )"
  | .printA => some "( v.. n -- )"
  | .reta => some "( v.. n -- )"
  | _ => none

/-! ## Blocks -/

namespace Block

/-- Where the jumps of the code from `index` on lead. -/
def jumpTargets : (index : Nat) → List Instruction → Except Fault (List Int)
  | _, [] => pure []
  | index, i :: rest => do
    match i.pcOffset with
    | some offset =>
      let target ← jumpTarget index offset
      let targets ← jumpTargets (index + 1) rest
      pure (target :: targets)
    | none => jumpTargets (index + 1) rest

/-- An instruction with its annotation. -/
def annotate (index : Nat) (i : Instruction) : Except Fault String := do
  match i.pcOffset with
  | some offset =>
    let target ← jumpTarget index offset
    let direction := if offset < 0 then "↑" else "↓"
    pure (Text.padRight 16 i.text ++ direction ++ " (→ " ++ Text.zeroPad 4 target ++ ")")
  | none =>
    match i.op.stackEffect with
    | some effect => pure (Text.padRight 16 i.text ++ "; " ++ effect)
    | none => pure i.text

/-- The line above an instruction that a jump leads to. -/
def targetRule : String :=
  "      ┌" ++ Text.repeated '─' 34

/-- The lines of the instruction at `index`. -/
def instructionLines (targets : List Int) (index : Nat) (i : Instruction) :
    Except Fault (List String) := do
  let isTarget := targets.contains (index : Int)
  let mark := if isTarget then "► " else "  "
  let line := Text.zeroPad 4 index ++ " " ++ mark ++ (← annotate index i)
  pure (if isTarget then [targetRule, line] else [line])

/-- The lines of the code from `index` on. -/
def codeLines (targets : List Int) :
    (index : Nat) → List Instruction → Except Fault (List String)
  | _, [] => pure []
  | index, i :: rest => do
    let first ← instructionLines targets index i
    let others ← codeLines targets (index + 1) rest
    pure (first ++ others)

/-- The listing of a block. -/
def listing (b : Block) : Except Fault String := do
  let targets ← jumpTargets 0 b.code
  let lines ← codeLines targets 0 b.code
  pure (Text.unlines lines)

/-- The listing of a block under its label and size. -/
def titledListing (b : Block) : Except Fault String := do
  let rule := Text.repeated '═' 40
  let title :=
    [rule, " ." ++ b.label, " " ++ toString b.code.length ++ " instructions", rule]
  pure (Text.unlines title ++ (← b.listing) ++ "\n")

end Block

/-! ## Compiled programs -/

namespace Image

/-- The listing of all blocks. -/
def listing (image : Image) : Except Fault String :=
  String.join <$> image.blocks.mapM Block.titledListing

/-- The line that opens a report. -/
def reportTitle : String :=
  "=== BYTECODE PROGRAM ===\n\n"

/-- The warnings, a line each. -/
def warnings (image : Image) : String :=
  Text.unlines (image.diagnostics.map Diagnostic.text)

/-- The listing under a title, with the warnings below. -/
def report (image : Image) : Except Fault String := do
  pure (reportTitle ++ (← image.listing) ++ image.warnings)

end Image

end PadCompiler
