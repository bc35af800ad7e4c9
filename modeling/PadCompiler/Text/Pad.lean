/-!
# PadCompiler.Text.Pad

Fixed-width columns.  Widths count characters, and text wider than its column
is never cut.
-/

namespace PadCompiler.Text

/-- The character `c`, `n` times. -/
def repeated (c : Char) (n : Nat) : String :=
  String.ofList (List.replicate n c)

/-- Text at the left of a column. -/
def padRight (width : Nat) (s : String) : String :=
  s ++ repeated ' ' (width - s.length)

/-- Text at the right of a column. -/
def padLeft (width : Nat) (s : String) : String :=
  repeated ' ' (width - s.length) ++ s

/-- A number filled up with zeros; a minus sign comes first and counts. -/
def zeroPad (width : Nat) (n : Int) : String :=
  let digits := toString n.natAbs
  if n < 0 then "-" ++ repeated '0' (width - 1 - digits.length) ++ digits
  else repeated '0' (width - digits.length) ++ digits

/-- Lines of text, each ended by a line break. -/
def unlines (lines : List String) : String :=
  String.join (lines.map (· ++ "\n"))

end PadCompiler.Text
