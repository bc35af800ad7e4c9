import PadCompiler.Text.LetterCase

/-!
# PadCompiler.Text.Lowercase

Full lowering of text: every capital becomes its small form, with the two
rules that no character-by-character table expresses:

* `İ` becomes the two characters `i` and U+0307;
* `Σ` becomes `ς` at the end of a word and `σ` elsewhere.  A word ends at a
  character that has a cased letter before it and none after it, where
  case-ignorable characters are looked through on both sides.
-/

namespace PadCompiler.Text

/-- The small form of a character by table; a character without one stands
for itself. -/
def lowerChar (c : Char) : Char :=
  match LowerRun.find? c.toNat lowerRuns with
  | some run => Char.ofNat (c.toNat + run.shift).toNat
  | none => c

/-- Whether the first character that is not case-ignorable is a cased
letter. -/
def startsCased (cs : List Char) : Bool :=
  match cs.dropWhile isCaseIgnorable with
  | [] => false
  | c :: _ => isCased c

/-- Lowers the characters `cs`, which follow the characters `before`, given
nearest first. -/
def lowerFrom (before : List Char) : List Char → List Char
  | [] => []
  | c :: cs =>
    let small :=
      if c = 'Σ' then [if startsCased before && !startsCased cs then 'ς' else 'σ']
      else if c = 'İ' then ['i', '\u0307']
      else [lowerChar c]
    small ++ lowerFrom (c :: before) cs

/-- The text with every capital in its small form. -/
def lower (s : String) : String :=
  String.ofList (lowerFrom [] s.toList)

end PadCompiler.Text
