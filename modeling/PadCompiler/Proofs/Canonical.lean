import PadCompiler.Proofs.RoundTrip

/-!
# PadCompiler.Proofs.Canonical

Whatever bytes a program is read from, it is written again in no more of them, and in
as many only if they are the same.  A number can be read from more bytes than it needs,
so two byte strings may stand for one program; `toBytes` gives the shortest.

`Consumes decode P` says that whenever `decode` accepts, what it read and the value it
made are related by `P`; it is kept by sequencing (`Consumes.bind`).  `Canonical` is that
law for the relation "the encoder writes the value in no more bytes", which holds of
every type of tree by induction on the bound on its height.

* `decodeVarint_consumes` — where the slack is: a number with needless groups of bits;
* `decodeExpr_canonical`, `decodeStmt_canonical`, `decodeImage_canonical` — trees;
* `toBytes_shortest` — what is read is written again in the shortest way.
-/

namespace PadCompiler

namespace Wire

/-! ## Shorter encodings -/

/-- `bytes` is no longer than `used`, and as long only if it is the same. -/
def Tightens (bytes used : List UInt8) : Prop :=
  bytes.length ≤ used.length ∧ (bytes.length = used.length → bytes = used)

namespace Tightens

theorem refl (bytes : List UInt8) : Tightens bytes bytes :=
  ⟨Nat.le_refl _, fun _ => rfl⟩

theorem append {bytes bytes' used used' : List UInt8} (h : Tightens bytes used)
    (h' : Tightens bytes' used') : Tightens (bytes ++ bytes') (used ++ used') := by
  obtain ⟨hle, heq⟩ := h
  obtain ⟨hle', heq'⟩ := h'
  constructor
  · simp only [List.length_append]
    omega
  · intro hlen
    simp only [List.length_append] at hlen
    rw [heq (by omega), heq' (by omega)]

theorem cons {bytes used : List UInt8} (h : Tightens bytes used) (b : UInt8) :
    Tightens (b :: bytes) (b :: used) :=
  (refl [b]).append h

end Tightens

/-! ## What a decoder has read -/

/-- Whenever the decoder accepts, the value and the bytes it has read are related. -/
def Consumes (decode : Decoder α) (P : α → List UInt8 → Prop) : Prop :=
  ∀ input a rest, decode input = .ok (a, rest) → ∃ used, input = used ++ rest ∧ P a used

namespace Consumes

variable {x : Decoder α} {P Q : α → List UInt8 → Prop}

theorem pure {a : α} (h : P a []) : Consumes (pure a) P := by
  intro input b rest hrun
  cases hrun
  exact ⟨[], rfl, h⟩

theorem throw (e : DecodeError) : Consumes (throw e : Decoder α) P := by
  intro input a rest hrun
  cases hrun

theorem bind {f : α → Decoder β} {R : β → List UInt8 → Prop} (hx : Consumes x P)
    (hf : ∀ a used, P a used → Consumes (f a) fun b more => R b (used ++ more)) :
    Consumes (x >>= f) R := by
  intro input b rest hrun
  rw [bind_apply] at hrun
  cases hfirst : x input with
  | error e =>
      rw [hfirst] at hrun
      contradiction
  | ok p =>
      obtain ⟨a, middle⟩ := p
      rw [hfirst] at hrun
      obtain ⟨used, rfl, ha⟩ := hx input a middle hfirst
      obtain ⟨more, rfl, hb⟩ := hf a used ha middle b rest hrun
      exact ⟨used ++ more, (List.append_assoc _ _ _).symm, hb⟩

theorem mono (hx : Consumes x P) (hPQ : ∀ a used, P a used → Q a used) : Consumes x Q := by
  intro input a rest hrun
  obtain ⟨used, hinput, ha⟩ := hx input a rest hrun
  exact ⟨used, hinput, hPQ a used ha⟩

theorem map {f : α → β} {R : β → List UInt8 → Prop}
    (hx : Consumes x fun a used => R (f a) used) : Consumes (f <$> x) R := by
  rw [map_eq_pure_bind]
  refine hx.bind fun a used ha => pure ?_
  rw [List.append_nil]
  exact ha

end Consumes

/-- Whatever the decoder accepts has words for its lengths, and is written again in no more
bytes than were read. -/
def Canonical (decode : Decoder α) (encode : α → List UInt8) (sized : α → Prop) : Prop :=
  Consumes decode fun a used => sized a ∧ Tightens (encode a) used

/-! ## Numbers -/

theorem decodeByte_consumes : Consumes decodeByte fun b used => used = [b] := by
  intro input b rest hrun
  cases input with
  | nil => cases hrun
  | cons c more =>
      cases hrun
      exact ⟨[b], rfl, rfl⟩

theorem decodeBytes_consumes (n : Nat) :
    Consumes (decodeBytes n) fun bytes used => bytes.length = n ∧ used = bytes := by
  intro input bytes rest hrun
  unfold decodeBytes at hrun
  by_cases hlen : (input.take n).length = n
  · rw [if_pos hlen] at hrun
    cases hrun
    exact ⟨input.take n, (List.take_append_drop n input).symm, hlen, rfl⟩
  · rw [if_neg hlen] at hrun
    contradiction

theorem varintLimit_pos (last size : Nat) : 0 < varintLimit last size := by
  induction size with
  | zero => exact Nat.succ_pos last
  | succ size ih =>
      rw [varintLimit]
      omega

/-- A byte with its high bit set goes before the bytes of the higher groups.  If these are
all zero it was not needed. -/
theorem Tightens.group {b : UInt8} (hb : ¬ b.toNat < 128) {high : Nat} {used : List UInt8}
    (h : Tightens (encodeVarint high) used) :
    Tightens (encodeVarint (b.toNat - 128 + 128 * high)) (b :: used) := by
  have hbyte := b.toNat_lt
  by_cases hzero : high = 0
  · have hlen := h.1
    simp only [hzero, length_encodeVarint_small (by decide : 0 < 128)] at hlen
    have hone : (encodeVarint (b.toNat - 128 + 128 * high)).length = 1 :=
      length_encodeVarint_small (by omega)
    constructor
    · rw [hone, List.length_cons]
      omega
    · intro heq
      rw [hone, List.length_cons] at heq
      omega
  · have hlow : (b.toNat - 128 + 128 * high) % 128 + 128 = b.toNat := by omega
    have hhigh : (b.toNat - 128 + 128 * high) / 128 = high := by omega
    rw [encodeVarint_large (by omega), hlow, hhigh, UInt8.ofNat_toNat]
    exact h.cons b

/-- A number is read from no fewer bytes than it takes, and from as many only if there are no
needless groups among them. -/
theorem decodeVarint_consumes (last size : Nat) :
    Consumes (decodeVarint last (size + 1)) fun n used =>
      n < varintLimit last size ∧ Tightens (encodeVarint n) used := by
  have hone : ∀ b : UInt8, b.toNat < 128 → Tightens (encodeVarint b.toNat) ([b] ++ []) := by
    intro b hb
    rw [encodeVarint_small hb, UInt8.ofNat_toNat]
    exact .refl [b]
  induction size with
  | zero =>
      rw [decodeVarint]
      refine decodeByte_consumes.bind ?_
      rintro b _ rfl
      by_cases hsmall : b.toNat < 128
      · rw [if_pos hsmall]
        by_cases hlarge : last < b.toNat
        · rw [if_pos ⟨rfl, hlarge⟩]
          exact .throw _
        · rw [if_neg (fun h => hlarge h.2)]
          exact .pure ⟨Nat.lt_succ_of_le (Nat.le_of_not_lt hlarge), hone b hsmall⟩
      · rw [if_neg hsmall]
        exact (Consumes.throw (P := fun _ _ => False) _).bind fun _ _ h => h.elim
  | succ size ih =>
      have hpos := varintLimit_pos last size
      rw [decodeVarint]
      refine decodeByte_consumes.bind ?_
      rintro b _ rfl
      by_cases hsmall : b.toNat < 128
      · rw [if_pos hsmall, if_neg (fun h => Nat.succ_ne_zero _ h.1)]
        refine .pure ⟨?_, hone b hsmall⟩
        rw [varintLimit]
        omega
      · rw [if_neg hsmall]
        refine ih.bind fun high used hhigh => .pure ⟨?_, ?_⟩
        · have hbyte := b.toNat_lt
          have hlimit := hhigh.1
          rw [varintLimit]
          omega
        · rw [List.append_nil]
          exact hhigh.2.group hsmall

theorem decodeWord_consumes :
    Consumes decodeWord fun n used => n < wordLimit ∧ Tightens (encodeVarint n) used :=
  decodeVarint_consumes 1 9

theorem decodeTag_consumes : Consumes decodeTag fun n used => Tightens (encodeVarint n) used :=
  (decodeVarint_consumes 15 4).mono fun _ _ h => h.2

theorem decodeUInt64_consumes :
    Consumes decodeUInt64 fun n used => Tightens (encodeUInt64 n) used := by
  refine .map (decodeWord_consumes.mono fun n used h => ?_)
  have hback : (UInt64.ofNat n).toNat = n := UInt64.toNat_ofNat_of_lt' h.1
  unfold encodeUInt64
  rw [hback]
  exact h.2

/-! ## Integers, bits and truth values -/

theorem foldSign_unfoldSign {n : Nat} (hn : n < wordLimit) :
    foldSign (Int64.ofInt (unfoldSign n)).toInt = n := by
  have hrange : -signedLimit ≤ unfoldSign n ∧ unfoldSign n < signedLimit := by
    unfold unfoldSign signedLimit
    unfold wordLimit at hn
    split <;> omega
  rw [toInt_ofInt_of_lt hrange.1 hrange.2]
  unfold foldSign unfoldSign
  split <;> split <;> omega

theorem decodeInt64_consumes :
    Consumes decodeInt64 fun i used => Tightens (encodeInt64 i) used := by
  refine .map (decodeWord_consumes.mono fun n used h => ?_)
  unfold encodeInt64
  rw [foldSign_unfoldSign h.1]
  exact h.2

theorem ofLittleEndian_lt (bytes : List UInt8) :
    ofLittleEndian bytes < Nat.pow 256 bytes.length := by
  induction bytes with
  | nil => exact Nat.one_pos
  | cons b bytes ih =>
      have hpow : Nat.pow 256 (bytes.length + 1) = Nat.pow 256 bytes.length * 256 := rfl
      have hbyte := b.toNat_lt
      rw [ofLittleEndian, List.length_cons]
      omega

theorem littleEndian_ofLittleEndian (bytes : List UInt8) :
    littleEndian bytes.length (ofLittleEndian bytes) = bytes := by
  induction bytes with
  | nil => rfl
  | cons b bytes ih =>
      have hbyte := b.toNat_lt
      have hlow : (b.toNat + 256 * ofLittleEndian bytes) % 256 = b.toNat := by omega
      have hhigh : (b.toNat + 256 * ofLittleEndian bytes) / 256 = ofLittleEndian bytes := by omega
      rw [ofLittleEndian, List.length_cons, littleEndian, hlow, hhigh, ih, UInt8.ofNat_toNat]

theorem decodeBits_consumes :
    Consumes decodeBits fun bits used => Tightens (encodeBits bits) used := by
  refine .map ((decodeBytes_consumes 8).mono ?_)
  rintro _ bytes ⟨hlen, rfl⟩
  have hlt := ofLittleEndian_lt bytes
  have hbytes := littleEndian_ofLittleEndian bytes
  rw [hlen] at hlt hbytes
  have hback : (UInt64.ofNat (ofLittleEndian bytes)).toNat = ofLittleEndian bytes :=
    UInt64.toNat_ofNat_of_lt' hlt
  unfold encodeBits
  rw [hback, hbytes]
  exact .refl bytes

theorem decodeBool_consumes :
    Consumes decodeBool fun b used => Tightens (encodeBool b) used := by
  refine decodeByte_consumes.bind ?_
  rintro b _ rfl
  by_cases hfalse : b = 0
  · simpa [hfalse] using .pure (.refl _)
  · by_cases htrue : b = 1
    · simpa [htrue] using .pure (.refl _)
    · simpa [hfalse, htrue] using .throw _

/-! ## Texts, lists and options -/

theorem toByteArray_of_fromUTF8? {bytes : ByteArray} {s : String}
    (h : String.fromUTF8? bytes = some s) : s.toByteArray = bytes := by
  unfold String.fromUTF8? at h
  split at h
  · cases h
    rfl
  · contradiction

theorem decodeString_canonical : Canonical decodeString encodeString TextSized := by
  refine decodeWord_consumes.bind fun n used hn => (decodeBytes_consumes n).bind ?_
  rintro _ bytes ⟨hlen, rfl⟩
  cases htext : String.fromUTF8? bytes.toByteArray with
  | none => exact .throw _
  | some s =>
      have hbytes : s.toUTF8.data.toList = bytes := by
        rw [String.toUTF8_eq_toByteArray, toByteArray_of_fromUTF8? htext, List.data_toByteArray]
      have hsize : s.utf8ByteSize = n := by
        rw [← hlen, ← hbytes]
        rfl
      refine .pure ⟨?_, ?_⟩
      · unfold TextSized
        rw [hsize]
        exact hn.1
      · unfold encodeString
        rw [hbytes, hsize, List.append_nil]
        exact hn.2.append (.refl bytes)

section

variable {decode : Decoder α} {encode : α → List UInt8} {sized : α → Prop}

theorem decodeMany_consumes (h : Canonical decode encode sized) (n : Nat) :
    Consumes (decodeMany decode n) fun as used =>
      as.length = n ∧ (∀ a ∈ as, sized a) ∧ Tightens (as.flatMap encode) used := by
  induction n with
  | zero => exact .pure ⟨rfl, by simp, .refl []⟩
  | succ n ih =>
      refine h.bind fun a used ha => ih.bind fun as more has => .pure ⟨?_, ?_, ?_⟩
      · rw [List.length_cons, has.1]
      · simpa using ⟨ha.1, has.2.1⟩
      · rw [List.append_nil, List.flatMap_cons]
        exact ha.2.append has.2.2

theorem decodeList_canonical (h : Canonical decode encode sized) :
    Canonical (decodeList decode) (encodeList encode) fun as =>
      as.length < wordLimit ∧ ∀ a ∈ as, sized a := by
  refine decodeWord_consumes.bind fun n used hn => (decodeMany_consumes h n).mono ?_
  rintro as more ⟨rfl, hsized, htight⟩
  exact ⟨⟨hn.1, hsized⟩, hn.2.append htight⟩

theorem decodeOption_canonical (h : Canonical decode encode sized) :
    Canonical (decodeOption decode) (encodeOption encode) fun o => ∀ a ∈ o, sized a := by
  refine decodeByte_consumes.bind ?_
  rintro b _ rfl
  by_cases hnone : b = 0
  · simpa [hnone] using .pure ⟨by simp, .refl _⟩
  · by_cases hsome : b = 1
    · subst hsome
      exact .map (h.mono fun a used ha => ⟨by simpa using ha.1, ha.2.cons 1⟩)
    · simpa [hnone, hsome] using .throw _

end

/-! ## Enumerations and values -/

theorem decodeMember_consumes [BEq α] [LawfulBEq α] {members : List α} (hnodup : members.Nodup) :
    Consumes (decodeMember members) fun a used => Tightens (encodeMember members a) used := by
  refine decodeTag_consumes.bind fun i used hi => ?_
  cases hmember : members[i]? with
  | none => exact .throw _
  | some a =>
      obtain ⟨hlt, rfl⟩ := List.getElem?_eq_some_iff.mp hmember
      refine .pure ?_
      unfold encodeMember
      rw [hnodup.idxOf_getElem i hlt, List.append_nil]
      exact hi

theorem decodeTy_consumes : Consumes decodeTy fun ty used => Tightens (encodeTy ty) used :=
  decodeMember_consumes (by decide)

theorem decodeValue_canonical : Canonical decodeValue encodeValue Value.Sized := by
  refine decodeTag_consumes.bind fun tag used htag => ?_
  split
  case h_1 => exact .map (decodeInt64_consumes.mono fun n more h => ⟨trivial, htag.append h⟩)
  case h_2 => exact .map (decodeBits_consumes.mono fun bits more h => ⟨trivial, htag.append h⟩)
  case h_3 => exact .map (decodeBool_consumes.mono fun b more h => ⟨trivial, htag.append h⟩)
  case h_4 => exact .map (decodeString_canonical.mono fun s more h => ⟨h.1, htag.append h.2⟩)
  case h_5 => exact .throw _

/-! ## Expressions -/

theorem allSized_exprs {es : List Expr} : Expr.AllSized es ↔ ∀ e ∈ es, e.Sized := by
  induction es with
  | nil => simp [Expr.AllSized]
  | cons e es ih => simp [Expr.AllSized, ih]

theorem decodeExpr_canonical (height : Nat) :
    Canonical (decodeExpr height) encodeExpr Expr.Sized := by
  induction height with
  | zero => exact .throw _
  | succ height ih =>
      rw [decodeExpr]
      refine decodeTag_consumes.bind fun tag used htag => ?_
      split
      case h_1 =>
        refine .map (decodeValue_canonical.mono fun value more h => ?_)
        simp only [Expr.Sized, encodeExpr]
        exact ⟨h.1, htag.append h.2⟩
      case h_2 =>
        refine .map (decodeString_canonical.mono fun name more h => ?_)
        simp only [Expr.Sized, encodeExpr]
        exact ⟨h.1, htag.append h.2⟩
      case h_3 =>
        have hops : binaryOps.Nodup := by decide
        refine (decodeMember_consumes hops).bind fun op _ hop => ih.bind fun lhs _ hlhs =>
          ih.bind fun rhs _ hrhs => .pure ?_
        simp only [Expr.Sized, encodeExpr, List.append_assoc, List.append_nil]
        exact ⟨⟨hlhs.1, hrhs.1⟩, htag.append (hop.append (hlhs.2.append hrhs.2))⟩
      case h_4 =>
        refine decodeString_canonical.bind fun name _ hname =>
          (decodeList_canonical ih).bind fun args _ hargs => .pure ?_
        simp only [Expr.Sized, encodeExpr, encodeExprs_eq, allSized_exprs, List.append_assoc,
          List.append_nil]
        exact ⟨⟨hname.1, hargs.1⟩, htag.append (hname.2.append hargs.2)⟩
      case h_5 =>
        refine .pure ?_
        simpa [Expr.Sized, encodeExpr] using htag
      case h_6 =>
        refine .pure ?_
        simpa [Expr.Sized, encodeExpr] using htag
      case h_7 =>
        refine .map (ih.mono fun bound more h => ?_)
        simp only [Expr.Sized, encodeExpr]
        exact ⟨h.1, htag.append h.2⟩
      case h_8 =>
        refine decodeString_canonical.bind fun name _ hname => ih.bind fun index _ hindex =>
          .pure ?_
        simp only [Expr.Sized, encodeExpr, List.append_assoc, List.append_nil]
        exact ⟨⟨hname.1, hindex.1⟩, htag.append (hname.2.append hindex.2)⟩
      case h_9 => exact .throw _

/-! ## Statements -/

theorem allSized_stmts {ss : List Stmt} : Stmt.AllSized ss ↔ ∀ s ∈ ss, s.Sized := by
  induction ss with
  | nil => simp [Stmt.AllSized]
  | cons s ss ih => simp [Stmt.AllSized, ih]

theorem sized_conditional {test : Expr} {body : List Stmt} {otherwise : Option (List Stmt)} :
    (Stmt.conditional test body otherwise).Sized ↔
      test.Sized ∧ (body.length < wordLimit ∧ ∀ s ∈ body, s.Sized) ∧
        ∀ stmts ∈ otherwise, stmts.length < wordLimit ∧ ∀ s ∈ stmts, s.Sized := by
  cases otherwise <;> simp [Stmt.Sized, allSized_stmts]

theorem decodeVarDecl_canonical (height : Nat) :
    Canonical (decodeVarDecl height) encodeVarDecl VarDecl.Sized := by
  refine decodeString_canonical.bind fun name _ hname => decodeTy_consumes.bind fun ty _ hty =>
    (decodeExpr_canonical height).bind fun init _ hinit => .pure ?_
  simp only [VarDecl.Sized, encodeVarDecl, List.append_assoc, List.append_nil]
  exact ⟨⟨hname.1, hinit.1⟩, hname.2.append (hty.append hinit.2)⟩

theorem decodeAssignment_canonical (height : Nat) :
    Canonical (decodeAssignment height) encodeAssignment Assignment.Sized := by
  refine decodeString_canonical.bind fun name _ hname =>
    (decodeExpr_canonical height).bind fun value _ hvalue => .pure ?_
  simp only [Assignment.Sized, encodeAssignment, List.append_nil]
  exact ⟨⟨hname.1, hvalue.1⟩, hname.2.append hvalue.2⟩

theorem decodeParam_canonical :
    Canonical decodeParam encodeParam fun param => TextSized param.name := by
  refine decodeString_canonical.bind fun name _ hname => decodeTy_consumes.bind fun ty _ hty =>
    .pure ⟨hname.1, ?_⟩
  simp only [encodeParam, List.append_nil]
  exact hname.2.append hty

theorem decodeStmt_canonical (height : Nat) :
    Canonical (decodeStmt height) encodeStmt Stmt.Sized := by
  induction height with
  | zero => exact .throw _
  | succ height ih =>
      have hexpr := decodeExpr_canonical height
      have hbody := decodeList_canonical ih
      rw [decodeStmt]
      refine decodeTag_consumes.bind fun tag used htag => ?_
      split
      case h_1 =>
        refine .map ((decodeVarDecl_canonical height).mono fun decl more h => ?_)
        simp only [Stmt.Sized, encodeStmt]
        exact ⟨h.1, htag.append h.2⟩
      case h_2 =>
        refine decodeString_canonical.bind fun name _ hname =>
          decodeTy_consumes.bind fun ty _ hty => hexpr.bind fun size _ hsize =>
            (decodeList_canonical hexpr).bind fun elements _ helements => .pure ?_
        simp only [Stmt.Sized, encodeStmt, encodeExprs_eq, allSized_exprs, List.append_assoc,
          List.append_nil]
        exact ⟨⟨hname.1, hsize.1, helements.1⟩,
          htag.append (hname.2.append (hty.append (hsize.2.append helements.2)))⟩
      case h_3 =>
        refine .map ((decodeAssignment_canonical height).mono fun assignment more h => ?_)
        simp only [Stmt.Sized, encodeStmt]
        exact ⟨h.1, htag.append h.2⟩
      case h_4 =>
        refine decodeString_canonical.bind fun name _ hname => hexpr.bind fun index _ hindex =>
          hexpr.bind fun value _ hvalue => .pure ?_
        simp only [Stmt.Sized, encodeStmt, List.append_assoc, List.append_nil]
        exact ⟨⟨hname.1, hindex.1, hvalue.1⟩,
          htag.append (hname.2.append (hindex.2.append hvalue.2))⟩
      case h_5 =>
        refine .map (hexpr.mono fun value more h => ?_)
        simp only [Stmt.Sized, encodeStmt]
        exact ⟨h.1, htag.append h.2⟩
      case h_6 =>
        refine .map (hexpr.mono fun duration more h => ?_)
        simp only [Stmt.Sized, encodeStmt]
        exact ⟨h.1, htag.append h.2⟩
      case h_7 =>
        refine hexpr.bind fun x _ hx => hexpr.bind fun y _ hy => hexpr.bind fun color _ hcolor =>
          .pure ?_
        simp only [Stmt.Sized, encodeStmt, List.append_assoc, List.append_nil]
        exact ⟨⟨hx.1, hy.1, hcolor.1⟩, htag.append (hx.2.append (hy.2.append hcolor.2))⟩
      case h_8 =>
        refine hexpr.bind fun x _ hx => hexpr.bind fun y _ hy => hexpr.bind fun width _ hwidth =>
          hexpr.bind fun tall _ htall => hexpr.bind fun color _ hcolor => .pure ?_
        simp only [Stmt.Sized, encodeStmt, List.append_assoc, List.append_nil]
        exact ⟨⟨hx.1, hy.1, hwidth.1, htall.1, hcolor.1⟩,
          htag.append (hx.2.append (hy.2.append (hwidth.2.append (htall.2.append hcolor.2))))⟩
      case h_9 =>
        refine hexpr.bind fun test _ htest => hbody.bind fun stmts _ hstmts =>
          (decodeOption_canonical hbody).bind fun otherwise _ hotherwise => .pure ?_
        rw [sized_conditional, encodeStmt_conditional, List.append_nil]
        exact ⟨⟨htest.1, hstmts.1, hotherwise.1⟩,
          htag.append (htest.2.append (hstmts.2.append hotherwise.2))⟩
      case h_10 =>
        refine hexpr.bind fun test _ htest => hbody.bind fun stmts _ hstmts => .pure ?_
        simp only [Stmt.Sized, encodeStmt, encodeStmts_eq, allSized_stmts, List.append_assoc,
          List.append_nil]
        exact ⟨⟨htest.1, hstmts.1⟩, htag.append (htest.2.append hstmts.2)⟩
      case h_11 =>
        refine (decodeOption_canonical (decodeVarDecl_canonical height)).bind fun init _ hinit =>
          hexpr.bind fun test _ htest =>
            (decodeOption_canonical (decodeAssignment_canonical height)).bind fun step _ hstep =>
              hbody.bind fun stmts _ hstmts => .pure ?_
        simp only [Stmt.Sized, encodeStmt, encodeStmts_eq, allSized_stmts, List.append_assoc,
          List.append_nil]
        exact ⟨⟨hinit.1, htest.1, hstep.1, hstmts.1⟩,
          htag.append (hinit.2.append (htest.2.append (hstep.2.append hstmts.2)))⟩
      case h_12 =>
        refine .map (hexpr.mono fun value more h => ?_)
        simp only [Stmt.Sized, encodeStmt]
        exact ⟨h.1, htag.append h.2⟩
      case h_13 =>
        refine .map (hbody.mono fun stmts more h => ?_)
        simp only [Stmt.Sized, encodeStmt, encodeStmts_eq, allSized_stmts, List.append_assoc]
        exact ⟨h.1, htag.append h.2⟩
      case h_14 =>
        refine decodeString_canonical.bind fun name _ hname =>
          (decodeList_canonical decodeParam_canonical).bind fun params _ hparams =>
            decodeTy_consumes.bind fun result _ hresult =>
              hbody.bind fun stmts _ hstmts => .pure ?_
        simp only [Stmt.Sized, encodeStmt, encodeStmts_eq, allSized_stmts, List.append_assoc,
          List.append_nil]
        exact ⟨⟨hname.1, hparams.1, hstmts.1⟩,
          htag.append (hname.2.append (hparams.2.append (hresult.append hstmts.2)))⟩
      case h_15 => exact .throw _

theorem decodeProgram_canonical : Canonical decodeProgram encodeProgram Program.Sized := by
  intro input p rest hrun
  have hitems : Consumes (Program.mk <$> decodeList (decodeStmt input.length)) fun p used =>
      p.Sized ∧ Tightens (encodeProgram p) used := by
    refine .map ((decodeList_canonical (decodeStmt_canonical input.length)).mono
      fun items used h => ?_)
    simp only [Program.Sized, allSized_stmts, encodeProgram, encodeStmts_eq]
    exact h
  exact hitems input p rest hrun

/-! ## Compiled programs -/

theorem decodeOperand_canonical : Canonical decodeOperand encodeOperand Operand.Sized := by
  refine decodeTag_consumes.bind fun tag used htag => ?_
  split
  case h_1 => exact .map (decodeValue_canonical.mono fun v more h => ⟨h.1, htag.append h.2⟩)
  case h_2 =>
    refine decodeUInt64_consumes.bind fun slot _ hslot =>
      decodeUInt64_consumes.bind fun depth _ hdepth => .pure ⟨trivial, ?_⟩
    simp only [encodeOperand, List.append_assoc, List.append_nil]
    exact htag.append (hslot.append hdepth)
  case h_3 => exact .map (decodeString_canonical.mono fun s more h => ⟨h.1, htag.append h.2⟩)
  case h_4 => exact .map (decodeInt64_consumes.mono fun n more h => ⟨trivial, htag.append h⟩)
  case h_5 =>
    refine .pure ⟨trivial, ?_⟩
    rw [List.append_nil]
    exact htag
  case h_6 => exact .throw _

theorem decodeInstruction_canonical : Canonical decodeInstruction encodeInstruction
    fun i => ∀ operand ∈ i.operand, operand.Sized := by
  have hops : Opcode.all.Nodup := by decide
  refine (decodeMember_consumes hops).bind fun op _ hop =>
    (decodeOption_canonical decodeOperand_canonical).bind fun operand _ hoperand =>
      .pure ⟨hoperand.1, ?_⟩
  rw [List.append_nil]
  exact hop.append hoperand.2

theorem decodeBlock_canonical : Canonical decodeBlock encodeBlock Block.Sized := by
  refine decodeString_canonical.bind fun label _ hlabel =>
    (decodeList_canonical decodeInstruction_canonical).bind fun code _ hcode =>
      .pure ⟨⟨hlabel.1, hcode.1⟩, ?_⟩
  rw [List.append_nil]
  exact hlabel.2.append hcode.2

theorem decodeImage_canonical : Canonical decodeImage encodeImage Image.Sized := by
  have hdiagnostic : Canonical (Diagnostic.mk <$> decodeString) (fun d => encodeString d.message)
      fun d => TextSized d.message := .map decodeString_canonical
  refine (decodeList_canonical decodeBlock_canonical).bind fun blocks _ hblocks =>
    (decodeList_canonical hdiagnostic).bind fun diagnostics _ hdiagnostics =>
      .pure ⟨⟨hblocks.1, hdiagnostics.1⟩, ?_⟩
  rw [List.append_nil]
  exact hblocks.2.append hdiagnostics.2

/-! ## Shortest encodings -/

/-- The shortest of all inputs that are read as `a`, and the only one of its length. -/
structure Shortest (read : List UInt8 → Except DecodeError α) (bytes : List UInt8) (a : α) :
    Prop where
  accepted : read bytes = .ok a
  tightens {input : List UInt8} (hinput : read input = .ok a) : Tightens bytes input

theorem exists_rest {decode : Decoder α} {input : List UInt8} {a : α}
    (h : Prod.fst <$> decode input = .ok a) : ∃ rest, decode input = .ok (a, rest) := by
  cases hrun : decode input with
  | error e =>
      rw [hrun] at h
      contradiction
  | ok p =>
      rw [hrun] at h
      cases h
      exact ⟨p.2, rfl⟩

/-- Bytes that are left over make an input only longer. -/
theorem Tightens.append_right {bytes used : List UInt8} (h : Tightens bytes used)
    (rest : List UInt8) : Tightens bytes (used ++ rest) := by
  obtain ⟨hle, heq⟩ := h
  constructor
  · rw [List.length_append]
    omega
  · intro hlen
    rw [List.length_append] at hlen
    have hrest : rest = [] := List.length_eq_zero_iff.mp (by omega)
    rw [hrest, List.append_nil, heq (by omega)]

/-- What is accepted is written again in no more bytes, and so in the shortest way of all. -/
theorem Canonical.reencodes {decode : Decoder α} {encode : α → List UInt8} {sized : α → Prop}
    (hcanonical : Canonical decode encode sized)
    (hcoded : ∀ a, sized a → Coded decode (encode a) a) {input : List UInt8} {a : α}
    (h : Prod.fst <$> decode input = .ok a) :
    ∃ consumed rest, input = consumed ++ rest ∧ decode input = .ok (a, rest) ∧
      Tightens (encode a) consumed ∧
      Shortest (fun input => Prod.fst <$> decode input) (encode a) a := by
  obtain ⟨rest, hrun⟩ := exists_rest h
  obtain ⟨consumed, hinput, hsized, htight⟩ := hcanonical input a rest hrun
  refine ⟨consumed, rest, hinput, hrun, htight, ?_, ?_⟩
  · have hreads := (hcoded a hsized).reads []
    rw [List.append_nil] at hreads
    rw [hreads]
    rfl
  · intro other hother
    obtain ⟨rest', hrun'⟩ := exists_rest hother
    obtain ⟨consumed', rfl, -, htight'⟩ := hcanonical other a rest' hrun'
    exact htight'.append_right rest'

end Wire

/-- Whatever input is read as a program or a compiled program, writing it again takes at most
the bytes that were consumed, and as many only if they are those bytes.  So the binary form
is the shortest input for it, and no other is as short. -/
theorem toBytes_shortest (input : List UInt8) :
    (∀ p, Program.ofBytes input = .ok p → ∃ consumed rest, input = consumed ++ rest ∧
        Wire.decodeProgram input = .ok (p, rest) ∧ Wire.Tightens p.toBytes consumed ∧
        Wire.Shortest Program.ofBytes p.toBytes p) ∧
      ∀ image, Image.ofBytes input = .ok image → ∃ consumed rest, input = consumed ++ rest ∧
        Wire.decodeImage input = .ok (image, rest) ∧ Wire.Tightens image.toBytes consumed ∧
        Wire.Shortest Image.ofBytes image.toBytes image :=
  ⟨fun _ h => Wire.decodeProgram_canonical.reencodes (fun _ => Wire.decodeProgram_coded) h,
    fun _ h => Wire.decodeImage_canonical.reencodes (fun _ => Wire.decodeImage_coded) h⟩

/-- The first length of each input takes two bytes where one would do. -/
theorem overlong_shortest :
    (Program.ofBytes [129, 0, 4, 4, 255] = .ok ⟨[.print .padWidth]⟩ ∧
        Wire.Shortest Program.ofBytes (Program.mk [.print .padWidth]).toBytes
          ⟨[.print .padWidth]⟩) ∧
      Image.ofBytes [128, 0, 0] = .ok ⟨[], []⟩ ∧
        Wire.Shortest Image.ofBytes (Image.mk [] []).toBytes ⟨[], []⟩ := by
  obtain ⟨_, _, _, _, _, hprogram⟩ := (toBytes_shortest [129, 0, 4, 4, 255]).1 _ rfl
  obtain ⟨_, _, _, _, _, himage⟩ := (toBytes_shortest [128, 0, 0]).2 _ rfl
  exact ⟨⟨rfl, hprogram⟩, rfl, himage⟩

end PadCompiler
