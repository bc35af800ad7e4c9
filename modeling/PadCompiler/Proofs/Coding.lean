import PadCompiler.Proofs.Layout
import PadCompiler.Wire.Basic

/-!
# PadCompiler.Proofs.Coding

Decoders that read what an encoder wrote.

`Coded decode bytes a` says that `decode` takes `bytes` for `a`: it reads them from
the front of any input and leaves what follows, and an input that ends inside them is
refused as too short, not for any other reason.  Both facts are kept by sequencing
(`Coded.bind`), so a format has them as soon as its parts do.

* `decodeVarint_coded` — numbers, as long as they take no more bytes than are read;
* `decodeUInt64_coded`, `decodeInt64_coded`, `decodeBits_coded`, `decodeBool_coded`,
  `decodeString_coded`, `decodeMember_coded`, `decodeValue_coded` — the values that
  everything else is built from;
* `decodeList_coded`, `decodeOption_coded` — lists and optional values of what is
  coded.

A length is read as a 64-bit word, so the facts about texts and lists are for lengths
below `wordLimit`; no machine holds others.
-/

namespace PadCompiler

/-! ## Lengths -/

/-- A text whose length in bytes is a word. -/
def TextSized (s : String) : Prop :=
  s.utf8ByteSize < wordLimit

/-- A value whose text, if it has one, has a word for its length. -/
def Value.Sized : Value → Prop
  | .color spelling => TextSized spelling
  | _ => True

namespace Wire

/-! ## Running a decoder -/

section

variable (x : Decoder α) (input : List UInt8)

theorem bind_apply (f : α → Decoder β) :
    (x >>= f) input = match x input with
      | .ok (a, rest) => f a rest
      | .error e => .error e := by
  show StateT.bind x f input = _
  unfold StateT.bind
  cases x input <;> rfl

theorem map_apply (f : α → β) :
    (f <$> x) input = match x input with
      | .ok (a, rest) => .ok (f a, rest)
      | .error e => .error e := by
  show StateT.map f x input = _
  unfold StateT.map
  cases x input <;> rfl

end

/-! ## What a decoder takes for a value -/

/-- The decoder takes `bytes` for `a`: whatever follows them is left, and an input that
ends inside them is too short. -/
structure Coded (decode : Decoder α) (bytes : List UInt8) (a : α) : Prop where
  reads (rest : List UInt8) : decode (bytes ++ rest) = .ok (a, rest)
  ends {part : List UInt8} (hpart : part <+: bytes) (hne : part ≠ bytes) :
    decode part = .error .unexpectedEnd

/-- A part of two byte strings in a row ends inside the first or inside the second. -/
theorem prefix_append_cases {part front back : List UInt8} (hpart : part <+: front ++ back)
    (hne : part ≠ front ++ back) :
    (part <+: front ∧ part ≠ front) ∨
      ∃ more, part = front ++ more ∧ more <+: back ∧ more ≠ back := by
  by_cases hlen : part.length < front.length
  · refine .inl ⟨List.prefix_of_prefix_length_le hpart (List.prefix_append _ _) (by omega), ?_⟩
    intro heq
    simp [heq] at hlen
  · obtain ⟨more, rfl⟩ :=
      List.prefix_of_prefix_length_le (List.prefix_append front back) hpart (by omega)
    refine .inr ⟨more, rfl, (List.prefix_append_right_inj front).mp hpart, ?_⟩
    intro heq
    exact hne (by rw [heq])

namespace Coded

variable {x : Decoder α} {bytes bytes' : List UInt8} {a : α}

/-- A value that takes no bytes. -/
theorem pure (a : α) : Coded (pure a) [] a where
  reads _ := rfl
  ends hpart hne := absurd (List.prefix_nil.mp hpart) hne

/-- One value after the other. -/
theorem bind {f : α → Decoder β} {b : β} (hx : Coded x bytes a) (hf : Coded (f a) bytes' b) :
    Coded (x >>= f) (bytes ++ bytes') b where
  reads rest := by
    rw [bind_apply, List.append_assoc, hx.reads]
    exact hf.reads rest
  ends hpart hne := by
    rw [bind_apply]
    rcases prefix_append_cases hpart hne with ⟨hfirst, hne⟩ | ⟨more, rfl, hsecond, hne⟩
    · rw [hx.ends hfirst hne]
    · rw [hx.reads]
      exact hf.ends hsecond hne

/-- A value that is made of another one. -/
theorem map (f : α → β) (hx : Coded x bytes a) : Coded (f <$> x) bytes (f a) where
  reads rest := by rw [map_apply, hx.reads]
  ends hpart hne := by rw [map_apply, hx.ends hpart hne]

/-- The last part of a value: what is left to do reads nothing. -/
theorem last {f : α → Decoder β} {b : β} (hx : Coded x bytes a) (hf : Coded (f a) [] b) :
    Coded (x >>= f) bytes b := by
  rw [← List.append_nil bytes]
  exact hx.bind hf

end Coded

/-! ## Numbers -/

theorem decodeByte_coded (b : UInt8) : Coded decodeByte [b] b where
  reads _ := rfl
  ends hpart hne := by
    rcases List.prefix_cons_iff.mp hpart with rfl | ⟨more, rfl, hmore⟩
    · rfl
    · exact absurd (by rw [List.prefix_nil.mp hmore]) hne

theorem decodeBytes_coded (bytes : List UInt8) : Coded (decodeBytes bytes.length) bytes bytes where
  reads rest := by simp [decodeBytes]
  ends {part} hpart hne := by
    have hshort : part.length < bytes.length := by
      have hle := hpart.length_le
      have hlen : part.length ≠ bytes.length := fun heq => hne (hpart.eq_of_length heq)
      omega
    have htake : (part.take bytes.length).length ≠ bytes.length := by
      rw [List.length_take]
      omega
    unfold decodeBytes
    rw [if_neg htake]

/-- The numbers below this limit take at most `size + 1` bytes as a varint, and if that
many the last is at most `last`. -/
def varintLimit (last : Nat) : (size : Nat) → Nat
  | 0 => last + 1
  | size + 1 => 128 * varintLimit last size

theorem encodeVarint_small {n : Nat} (h : n < 128) : encodeVarint n = [UInt8.ofNat n] := by
  rw [encodeVarint, if_pos h]

theorem encodeVarint_large {n : Nat} (h : ¬ n < 128) :
    encodeVarint n = UInt8.ofNat (n % 128 + 128) :: encodeVarint (n / 128) := by
  rw [encodeVarint, if_neg h]

theorem toNat_byte {n : Nat} (h : n < 256) : (UInt8.ofNat n).toNat = n :=
  UInt8.toNat_ofNat_of_lt' h

theorem decodeVarint_coded {last size n : Nat} (hlast : last < 128)
    (hn : n < varintLimit last size) : Coded (decodeVarint last (size + 1)) (encodeVarint n) n := by
  induction size generalizing n with
  | zero =>
      have hle : n ≤ last := Nat.le_of_lt_succ hn
      have hbyte : (UInt8.ofNat n).toNat = n := toNat_byte (by omega)
      rw [encodeVarint_small (by omega), decodeVarint]
      refine (decodeByte_coded _).last ?_
      rw [hbyte, if_pos (by omega), if_neg (by omega)]
      exact .pure n
  | succ size ih =>
      rw [decodeVarint]
      by_cases hsmall : n < 128
      · have hbyte : (UInt8.ofNat n).toNat = n := toNat_byte (by omega)
        rw [encodeVarint_small hsmall]
        refine (decodeByte_coded _).last ?_
        rw [hbyte, if_pos hsmall, if_neg (by omega)]
        exact .pure n
      · have hbyte : (UInt8.ofNat (n % 128 + 128)).toNat = n % 128 + 128 := toNat_byte (by omega)
        have hhigh : n / 128 < varintLimit last size := by
          rw [varintLimit] at hn
          omega
        have hsum : n % 128 + 128 - 128 + 128 * (n / 128) = n := by omega
        rw [encodeVarint_large hsmall]
        refine Coded.bind (decodeByte_coded _) ?_
        rw [hbyte, if_neg (by omega)]
        refine (ih hhigh).last ?_
        rw [hsum]
        exact .pure n

theorem decodeWord_coded {n : Nat} (hn : n < wordLimit) : Coded decodeWord (encodeVarint n) n :=
  decodeVarint_coded (by decide) hn

/-- Tags are small: no format has more than 128 alternatives. -/
theorem decodeTag_coded {n : Nat} (hn : n < 128) : Coded decodeTag (encodeVarint n) n := by
  have hlimit : 128 < varintLimit 15 4 := by decide
  exact decodeVarint_coded (by decide) (by omega)

theorem decodeUInt64_coded (n : UInt64) : Coded decodeUInt64 (encodeUInt64 n) n := by
  have hcoded := (decodeWord_coded n.toNat_lt).map UInt64.ofNat
  rw [UInt64.ofNat_toNat] at hcoded
  exact hcoded

/-! ## Integers -/

theorem unfoldSign_foldSign (i : Int) : unfoldSign (foldSign i) = i := by
  unfold unfoldSign foldSign
  by_cases hi : 0 ≤ i
  · rw [if_pos hi, if_pos (by omega)]
    omega
  · rw [if_neg hi, if_neg (by omega)]
    omega

theorem foldSign_lt (i : Int64) : foldSign i.toInt < wordLimit := by
  have hlow := i.le_toInt
  have hhigh := i.toInt_lt
  unfold foldSign wordLimit
  split <;> omega

theorem decodeInt64_coded (i : Int64) : Coded decodeInt64 (encodeInt64 i) i := by
  have hcoded := (decodeWord_coded (foldSign_lt i)).map fun n => Int64.ofInt (unfoldSign n)
  rw [unfoldSign_foldSign, Int64.ofInt_toInt] at hcoded
  exact hcoded

/-! ## Bits and truth values -/

theorem length_littleEndian (size n : Nat) : (littleEndian size n).length = size := by
  induction size generalizing n with
  | zero => rfl
  | succ size ih => simp [littleEndian, ih]

/-- The low bytes of a number that has no others give it back. -/
theorem ofLittleEndian_littleEndian {size n : Nat} (hn : n < Nat.pow 256 size) :
    ofLittleEndian (littleEndian size n) = n := by
  induction size generalizing n with
  | zero => exact (Nat.lt_one_iff.mp hn).symm
  | succ size ih =>
      have hpow : Nat.pow 256 (size + 1) = Nat.pow 256 size * 256 := rfl
      have hhigh := ih (n := n / 256) (by omega)
      have hbyte : (UInt8.ofNat (n % 256)).toNat = n % 256 := toNat_byte (by omega)
      rw [littleEndian, ofLittleEndian, hhigh, hbyte]
      omega

theorem decodeBits_coded (bits : UInt64) : Coded decodeBits (encodeBits bits) bits := by
  have hcoded := (decodeBytes_coded (encodeBits bits)).map fun bytes =>
    UInt64.ofNat (ofLittleEndian bytes)
  have hlen : (encodeBits bits).length = 8 := length_littleEndian 8 bits.toNat
  have hbits : ofLittleEndian (encodeBits bits) = bits.toNat :=
    ofLittleEndian_littleEndian bits.toNat_lt
  rw [hlen, hbits, UInt64.ofNat_toNat] at hcoded
  exact hcoded

theorem decodeBool_coded (b : Bool) : Coded decodeBool (encodeBool b) b := by
  refine (decodeByte_coded _).last ?_
  cases b with
  | false => exact .pure false
  | true => exact .pure true

/-! ## Texts, lists and options -/

theorem fromUTF8?_toByteArray (s : String) : String.fromUTF8? s.toByteArray = some s := by
  unfold String.fromUTF8?
  rw [dif_pos s.isValidUTF8]
  rfl

theorem decodeString_coded {s : String} (hs : TextSized s) :
    Coded decodeString (encodeString s) s := by
  have hlen : s.toUTF8.data.toList.length = s.utf8ByteSize := rfl
  have hbytes := decodeBytes_coded s.toUTF8.data.toList
  have hback : s.toUTF8.data.toList.toByteArray = s.toByteArray := by
    apply ByteArray.ext
    simp
  rw [hlen] at hbytes
  refine (decodeWord_coded hs).bind (hbytes.last ?_)
  rw [hback, fromUTF8?_toByteArray]
  exact .pure s

theorem decodeMany_coded {decode : Decoder α} {encode : α → List UInt8} {as : List α}
    (h : ∀ a ∈ as, Coded decode (encode a) a) :
    Coded (decodeMany decode as.length) (as.flatMap encode) as := by
  induction as with
  | nil => exact .pure []
  | cons a as ih =>
      have hrest := ih fun a ha => h a (List.mem_cons_of_mem _ ha)
      exact (h a List.mem_cons_self).bind (hrest.last (.pure _))

theorem decodeList_coded {decode : Decoder α} {encode : α → List UInt8} {as : List α}
    (hlen : as.length < wordLimit) (h : ∀ a ∈ as, Coded decode (encode a) a) :
    Coded (decodeList decode) (encodeList encode as) as :=
  (decodeWord_coded hlen).bind (decodeMany_coded h)

theorem decodeOption_coded {decode : Decoder α} {encode : α → List UInt8} {o : Option α}
    (h : ∀ a ∈ o, Coded decode (encode a) a) :
    Coded (decodeOption decode) (encodeOption encode o) o := by
  cases o with
  | none => exact (decodeByte_coded 0).last (.pure none)
  | some a => exact (decodeByte_coded 1).bind ((h a rfl).map some)

/-! ## Enumerations -/

theorem decodeMember_coded [BEq α] [LawfulBEq α] {members : List α} (hlen : members.length ≤ 128)
    {a : α} (ha : a ∈ members) : Coded (decodeMember members) (encodeMember members a) a := by
  have hidx : members.idxOf a < members.length := List.idxOf_lt_length_iff.mpr ha
  have hget : members[members.idxOf a]? = some a := by
    rw [List.getElem?_eq_getElem hidx, List.getElem_idxOf]
  refine (decodeTag_coded (by omega)).last ?_
  rw [hget]
  exact .pure a

theorem decodeTy_coded (ty : Ty) : Coded decodeTy (encodeTy ty) ty :=
  decodeMember_coded (by decide) (by cases ty <;> decide)

/-! ## Values -/

theorem decodeValue_coded {v : Value} (hv : v.Sized) : Coded decodeValue (encodeValue v) v := by
  cases v with
  | int n => exact (decodeTag_coded (by decide)).bind ((decodeInt64_coded n).map Value.int)
  | float bits => exact (decodeTag_coded (by decide)).bind ((decodeBits_coded bits).map Value.float)
  | bool b => exact (decodeTag_coded (by decide)).bind ((decodeBool_coded b).map Value.bool)
  | color spelling =>
      exact (decodeTag_coded (by decide)).bind ((decodeString_coded hv).map Value.color)

end Wire

end PadCompiler
