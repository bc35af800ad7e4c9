import PadCompiler.Verify

/-!
# PadCompiler.Image

Compiled programs: one block for each function, in the order of their
declarations, then the block of the top-level code, and the warnings that came
up.
-/

namespace PadCompiler

/-- Something worth telling that does not stop the compilation. -/
structure Diagnostic where
  message : String
deriving DecidableEq, Repr

/-- A warning as it is shown. -/
def Diagnostic.text (d : Diagnostic) : String :=
  "warning: " ++ d.message

/-- A compiled program. -/
structure Image where
  blocks : List Block
  diagnostics : List Diagnostic
deriving DecidableEq

namespace Image

/-- Checks every block. -/
def verify (image : Image) : Except VerifyError Unit :=
  image.blocks.forM Block.verify

/-- The text of all blocks, refused if one of them breaks a rule. -/
def render (image : Image) : Except VerifyError String := do
  image.verify
  pure (String.join (image.blocks.map Block.text))

end Image

end PadCompiler
