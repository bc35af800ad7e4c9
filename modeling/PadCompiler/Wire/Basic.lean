import PadCompiler.Value

/-!
# PadCompiler.Wire.Basic

The binary format of the values that everything else is built from, in both
directions.

* A natural number is a *varint*: groups of seven bits, low group first, every
  byte but the last with its high bit set.  Counts and lengths are read as
  64-bit varints, tags as 32-bit ones; a longer or larger one is refused, one
  with needless zero groups is not.
* A signed integer is folded to a natural number first, so that small
  magnitudes stay short.
* Text is its length in bytes and its UTF-8 bytes; a list is its length and its
  elements; an optional value is one byte and then the value, if any.

A decoder reads from the front of the input and leaves the rest.
-/

namespace PadCompiler.Wire

/-! ## Decoders -/

/-- Why bytes cannot be read. -/
inductive DecodeError where
  | unexpectedEnd
  | badVarint
  | badBool
  | badUtf8
  | badOption
  /-- A tag that names no alternative. -/
  | badTag
deriving DecidableEq, Repr

/-- The wording of a decoding error. -/
def DecodeError.message : DecodeError → String
  | .unexpectedEnd => "Hit the end of buffer, expected more data"
  | .badVarint =>
    "Found a varint that didn't terminate. Is the usize too big for this platform?"
  | .badBool => "Found a bool that wasn't 0 or 1"
  | .badUtf8 => "Tried to parse invalid utf-8"
  | .badOption => "Found an Option discriminant that wasn't 0 or 1"
  | .badTag => "Serde Deserialization Error"

/-- Reads a value from the front of the input and leaves the rest. -/
abbrev Decoder := StateT (List UInt8) (Except DecodeError)

/-- Reads one byte. -/
def decodeByte : Decoder UInt8 := fun input =>
  match input with
  | [] => .error .unexpectedEnd
  | b :: rest => .ok (b, rest)

/-- Reads exactly `n` bytes. -/
def decodeBytes (n : Nat) : Decoder (List UInt8) := fun input =>
  let bytes := input.take n
  if bytes.length = n then .ok (bytes, input.drop n) else .error .unexpectedEnd

/-! ## Natural numbers -/

/-- A natural number in groups of seven bits, low group first. -/
def encodeVarint (n : Nat) : List UInt8 :=
  if n < 128 then [UInt8.ofNat n]
  else UInt8.ofNat (n % 128 + 128) :: encodeVarint (n / 128)

/-- Reads a varint of at most `size` bytes, the last of which is at most
`last`. -/
def decodeVarint (last : Nat) : (size : Nat) → Decoder Nat
  | 0 => throw .badVarint
  | size + 1 => do
    let b ← decodeByte
    if b.toNat < 128 then
      if size = 0 ∧ last < b.toNat then throw .badVarint else pure b.toNat
    else
      let high ← decodeVarint last size
      pure (b.toNat - 128 + 128 * high)

/-- Reads a 64-bit number: ten bytes at most, the tenth one bit. -/
def decodeWord : Decoder Nat :=
  decodeVarint 1 10

/-- Reads a 32-bit number: five bytes at most, the fifth four bits. -/
def decodeTag : Decoder Nat :=
  decodeVarint 15 5

/-- An unsigned word. -/
def encodeUInt64 (n : UInt64) : List UInt8 :=
  encodeVarint n.toNat

/-- Reads an unsigned word. -/
def decodeUInt64 : Decoder UInt64 :=
  UInt64.ofNat <$> decodeWord

/-! ## Integers -/

/-- Folds the integers onto the natural numbers: 0, -1, 1, -2, 2, … -/
def foldSign (i : Int) : Nat :=
  if 0 ≤ i then 2 * i.toNat else 2 * (-i).toNat - 1

/-- Unfolds what `foldSign` folded. -/
def unfoldSign (n : Nat) : Int :=
  if n % 2 = 0 then n / 2 else -((n + 1) / 2)

/-- A signed word. -/
def encodeInt64 (i : Int64) : List UInt8 :=
  encodeVarint (foldSign i.toInt)

/-- Reads a signed word. -/
def decodeInt64 : Decoder Int64 :=
  (fun n => Int64.ofInt (unfoldSign n)) <$> decodeWord

/-! ## Bits and truth values -/

/-- The low `size` bytes of a number, lowest first. -/
def littleEndian : (size : Nat) → Nat → List UInt8
  | 0, _ => []
  | size + 1, n => UInt8.ofNat (n % 256) :: littleEndian size (n / 256)

/-- The number that bytes stand for, lowest first. -/
def ofLittleEndian : List UInt8 → Nat
  | [] => 0
  | b :: bs => b.toNat + 256 * ofLittleEndian bs

/-- A 64-bit pattern as eight bytes. -/
def encodeBits (bits : UInt64) : List UInt8 :=
  littleEndian 8 bits.toNat

/-- Reads a 64-bit pattern. -/
def decodeBits : Decoder UInt64 :=
  (fun bytes => UInt64.ofNat (ofLittleEndian bytes)) <$> decodeBytes 8

/-- A truth value as one byte. -/
def encodeBool (b : Bool) : List UInt8 :=
  [if b then 1 else 0]

/-- Reads a truth value. -/
def decodeBool : Decoder Bool := do
  let b ← decodeByte
  if b = 0 then pure false else if b = 1 then pure true else throw .badBool

/-! ## Text, lists and options -/

/-- A text: its length in bytes, then its UTF-8 bytes. -/
def encodeString (s : String) : List UInt8 :=
  encodeVarint s.utf8ByteSize ++ s.toUTF8.data.toList

/-- Reads a text.  A length past the end is found before the bytes are looked
at. -/
def decodeString : Decoder String := do
  let bytes ← decodeBytes (← decodeWord)
  match String.fromUTF8? bytes.toByteArray with
  | some s => pure s
  | none => throw .badUtf8

/-- A list: its length, then its elements. -/
def encodeList (encode : α → List UInt8) (as : List α) : List UInt8 :=
  encodeVarint as.length ++ as.flatMap encode

/-- Reads `n` values in a row. -/
def decodeMany (decode : Decoder α) : Nat → Decoder (List α)
  | 0 => pure []
  | n + 1 => do
    let a ← decode
    let as ← decodeMany decode n
    pure (a :: as)

/-- Reads a list. -/
def decodeList (decode : Decoder α) : Decoder (List α) := do
  decodeMany decode (← decodeWord)

/-- An optional value: 0, or 1 and the value. -/
def encodeOption (encode : α → List UInt8) : Option α → List UInt8
  | none => [0]
  | some a => 1 :: encode a

/-- Reads an optional value. -/
def decodeOption (decode : Decoder α) : Decoder (Option α) := do
  let b ← decodeByte
  if b = 0 then pure none else if b = 1 then some <$> decode else throw .badOption

/-! ## Enumerations -/

/-- A member of a listed enumeration: its position. -/
def encodeMember [BEq α] (members : List α) (a : α) : List UInt8 :=
  encodeVarint (members.idxOf a)

/-- Reads a member of a listed enumeration. -/
def decodeMember (members : List α) : Decoder α := do
  match members[← decodeTag]? with
  | some a => pure a
  | none => throw .badTag

/-! ## Values -/

/-- The types, in the order of their tags. -/
def types : List Ty :=
  [.int, .float, .bool, .color]

/-- A type. -/
def encodeTy : Ty → List UInt8 :=
  encodeMember types

/-- Reads a type. -/
def decodeTy : Decoder Ty :=
  decodeMember types

/-- A literal value: the tag of its type, then its content. -/
def encodeValue : Value → List UInt8
  | .int n => encodeVarint 0 ++ encodeInt64 n
  | .float bits => encodeVarint 1 ++ encodeBits bits
  | .bool b => encodeVarint 2 ++ encodeBool b
  | .color spelling => encodeVarint 3 ++ encodeString spelling

/-- Reads a literal value. -/
def decodeValue : Decoder Value := do
  match ← decodeTag with
  | 0 => .int <$> decodeInt64
  | 1 => .float <$> decodeBits
  | 2 => .bool <$> decodeBool
  | 3 => .color <$> decodeString
  | _ => throw .badTag

end PadCompiler.Wire
