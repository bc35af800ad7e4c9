/-!
# PadCompiler.Text.Utf8

Text from bytes that need not be valid UTF-8.  Every longest run of bytes that
begins a character and does not complete it, and every byte that begins none, is
shown as one replacement character.
-/

namespace PadCompiler.Text

/-- What stands for bytes that are no text. -/
def replacement : Char :=
  '\ufffd'

/-- A character of which some bytes have been read: how many are to come, the
range that the next one must be in, and the bits so far. -/
structure PartialChar where
  missing : Nat
  low : Nat
  high : Nat
  bits : Nat

/-- The character that a first byte begins.  The range of the second byte keeps
out needlessly long forms, surrogates, and numbers beyond the last character. -/
def PartialChar.begin? (b : Nat) : Option PartialChar :=
  if b < 0xC2 then none
  else if b < 0xE0 then some ⟨1, 0x80, 0xBF, b - 0xC0⟩
  else if b < 0xF0 then
    some ⟨2, if b = 0xE0 then 0xA0 else 0x80, if b = 0xED then 0x9F else 0xBF, b - 0xE0⟩
  else if b < 0xF5 then
    some ⟨3, if b = 0xF0 then 0x90 else 0x80, if b = 0xF4 then 0x8F else 0xBF, b - 0xF0⟩
  else none

/-- Reads a byte that stands between characters: what it shows, and the character
that it begins. -/
def firstByte (b : Nat) : List Char × Option PartialChar :=
  if b < 0x80 then ([Char.ofNat b], none)
  else
    match PartialChar.begin? b with
    | some c => ([], some c)
    | none => ([replacement], none)

/-- Reads a byte inside a character or between characters. -/
def nextByte (b : Nat) : Option PartialChar → List Char × Option PartialChar
  | none => firstByte b
  | some c =>
    if c.low ≤ b ∧ b ≤ c.high then
      let bits := 64 * c.bits + (b - 0x80)
      if c.missing = 1 then ([Char.ofNat bits], none)
      else ([], some ⟨c.missing - 1, 0x80, 0xBF, bits⟩)
    else
      let (shown, next) := firstByte b
      (replacement :: shown, next)

/-- Reads bytes, the first of which may be inside a character. -/
def decodeLossyFrom (c : Option PartialChar) : List UInt8 → List Char
  | [] => if c.isSome then [replacement] else []
  | b :: rest =>
    let (shown, next) := nextByte b.toNat c
    shown ++ decodeLossyFrom next rest

/-- The text of bytes, with replacement characters for what is none. -/
def decodeLossy (bytes : List UInt8) : String :=
  String.ofList (decodeLossyFrom none bytes)

end PadCompiler.Text
