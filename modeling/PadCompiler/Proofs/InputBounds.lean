import PadCompiler.Proofs.Canonical

/-!
# PadCompiler.Proofs.InputBounds

Reading a program or a compiled program takes no more than its input pays for, whatever counts and
lengths the input declares.

* `Wire.decodeStmt_within`, `Wire.decodeProgramWithin_eq` — trees are decoded with a bound on their
  height, and no bound from the length of the input on makes a difference: every level reads its
  tag first, so there is nothing left to read where the bound runs out;
* `Wire.Progresses.rounds` — an element of a list takes at least a byte, so of a list that is
  declared longer than the input there are only as many rounds as bytes, and the one that fails;
* `Stmt.nodes_le`, `Image.parts_le` — every statement and expression, block, instruction and
  warning has a byte of its own;
* `decoding_bounded` — all of it together.
-/

namespace PadCompiler

/-! ## Sizes -/

mutual
/-- The number of expressions in an expression, itself included. -/
def Expr.nodes : Expr → Nat
  | .binary _ lhs rhs => 1 + lhs.nodes + rhs.nodes
  | .call _ args => 1 + Expr.listNodes args
  | .randomInt bound => 1 + bound.nodes
  | .index _ position => 1 + position.nodes
  | .literal _ | .ident _ | .padWidth | .padHeight => 1

/-- The number of expressions in a list of them. -/
def Expr.listNodes : List Expr → Nat
  | [] => 0
  | e :: es => e.nodes + Expr.listNodes es
end

mutual
/-- The number of statements and expressions in a statement, itself included. -/
def Stmt.nodes : Stmt → Nat
  | .varDecl decl => 1 + decl.init.nodes
  | .arrayDecl _ _ size elements => 1 + size.nodes + Expr.listNodes elements
  | .assign assignment => 1 + assignment.value.nodes
  | .arrayAssign _ index value => 1 + index.nodes + value.nodes
  | .print value => 1 + value.nodes
  | .delay duration => 1 + duration.nodes
  | .write x y color => 1 + x.nodes + y.nodes + color.nodes
  | .writeBox x y width height color =>
    1 + x.nodes + y.nodes + width.nodes + height.nodes + color.nodes
  | .conditional test body none => 1 + test.nodes + Stmt.listNodes body
  | .conditional test body (some otherwise) =>
    1 + test.nodes + Stmt.listNodes body + Stmt.listNodes otherwise
  | .whileLoop test body => 1 + test.nodes + Stmt.listNodes body
  | .forLoop init test step body =>
    1 + (init.elim 0 fun decl => decl.init.nodes) + test.nodes +
      (step.elim 0 fun assignment => assignment.value.nodes) + Stmt.listNodes body
  | .ret value => 1 + value.nodes
  | .block body => 1 + Stmt.listNodes body
  | .function _ _ _ body => 1 + Stmt.listNodes body

/-- The number of statements and expressions in a list of statements. -/
def Stmt.listNodes : List Stmt → Nat
  | [] => 0
  | s :: ss => s.nodes + Stmt.listNodes ss
end

/-- The number of statements and expressions in a program. -/
def Program.nodes (p : Program) : Nat :=
  Stmt.listNodes p.items

/-- The number of blocks, instructions and warnings in a compiled program. -/
def Image.parts (image : Image) : Nat :=
  image.blocks.length + (image.blocks.flatMap Block.code).length + image.diagnostics.length

/-! ## A byte for each part -/

namespace Wire

/-- Elements with some parts each take a byte for each part and one more. -/
theorem length_flatMap_le (parts : α → List β) {encode : α → List UInt8}
    (h : ∀ a, (parts a).length < (encode a).length) (as : List α) :
    as.length + (as.flatMap parts).length ≤ (encodeList encode as).length := by
  rw [encodeList, List.length_append]
  suffices hall : as.length + (as.flatMap parts).length ≤ (as.flatMap encode).length by omega
  induction as with
  | nil => simp
  | cons a as ih =>
      have hfirst := h a
      simp only [List.length_cons, List.flatMap_cons, List.length_append]
      omega

theorem length_le_encodeList {encode : α → List UInt8} (h : ∀ a, encode a ≠ []) (as : List α) :
    as.length ≤ (encodeList encode as).length := by
  have hle := length_flatMap_le (fun _ => ([] : List Unit))
    (fun a => List.length_pos_iff.mpr (h a)) as
  omega

theorem encodeInstruction_ne_nil (i : Instruction) : encodeInstruction i ≠ [] := by
  simp [encodeInstruction, encodeMember]

theorem encodeString_ne_nil (s : String) : encodeString s ≠ [] := by
  simp [encodeString]

end Wire

section

open Wire

mutual
theorem Expr.nodes_le : (e : Expr) → e.nodes ≤ (encodeExpr e).length
  | .literal _ | .ident _ | .padWidth | .padHeight => by simp [nodes, encodeExpr]
  | .binary _ lhs rhs => by
      have hlhs := lhs.nodes_le
      have hrhs := rhs.nodes_le
      simp [nodes, encodeExpr]
      omega
  | .call _ args => by
      have hargs := Expr.listNodes_le args
      simp [nodes, encodeExpr]
      omega
  | .randomInt bound => by
      have hbound := bound.nodes_le
      simp [nodes, encodeExpr]
      omega
  | .index _ position => by
      have hposition := position.nodes_le
      simp [nodes, encodeExpr]
      omega

theorem Expr.listNodes_le : (es : List Expr) → Expr.listNodes es ≤ (encodeExprs es).length
  | [] => by simp [listNodes]
  | e :: es => by
      have hfirst := e.nodes_le
      have hothers := Expr.listNodes_le es
      simp [listNodes, encodeExprs]
      omega
end

/-- The declaration at the head of a loop. -/
theorem VarDecl.nodes_le (init : Option VarDecl) :
    (init.elim 0 fun decl => decl.init.nodes) ≤ (encodeOption encodeVarDecl init).length := by
  cases init with
  | none => simp
  | some decl =>
      have hinit := decl.init.nodes_le
      simp [encodeOption, encodeVarDecl]
      omega

/-- The assignment at the head of a loop. -/
theorem Assignment.nodes_le (step : Option Assignment) :
    (step.elim 0 fun assignment => assignment.value.nodes) ≤
      (encodeOption encodeAssignment step).length := by
  cases step with
  | none => simp
  | some assignment =>
      have hvalue := assignment.value.nodes_le
      simp [encodeOption, encodeAssignment]
      omega

mutual
theorem Stmt.nodes_le : (s : Stmt) → s.nodes ≤ (encodeStmt s).length
  | .varDecl decl => by
      have hinit := decl.init.nodes_le
      simp [nodes, encodeStmt, encodeVarDecl]
      omega
  | .arrayDecl _ _ size elements => by
      have hsize := size.nodes_le
      have helements := Expr.listNodes_le elements
      simp [nodes, encodeStmt]
      omega
  | .assign assignment => by
      have hvalue := assignment.value.nodes_le
      simp [nodes, encodeStmt, encodeAssignment]
      omega
  | .arrayAssign _ index value => by
      have hindex := index.nodes_le
      have hvalue := value.nodes_le
      simp [nodes, encodeStmt]
      omega
  | .print value | .delay value | .ret value => by
      have hvalue := value.nodes_le
      simp [nodes, encodeStmt]
      omega
  | .write x y color => by
      have hx := x.nodes_le
      have hy := y.nodes_le
      have hcolor := color.nodes_le
      simp [nodes, encodeStmt]
      omega
  | .writeBox x y width height color => by
      have hx := x.nodes_le
      have hy := y.nodes_le
      have hwidth := width.nodes_le
      have hheight := height.nodes_le
      have hcolor := color.nodes_le
      simp [nodes, encodeStmt]
      omega
  | .conditional test body none => by
      have htest := test.nodes_le
      have hbody := Stmt.listNodes_le body
      simp [nodes, encodeStmt]
      omega
  | .conditional test body (some otherwise) => by
      have htest := test.nodes_le
      have hbody := Stmt.listNodes_le body
      have hotherwise := Stmt.listNodes_le otherwise
      simp [nodes, encodeStmt]
      omega
  | .whileLoop test body => by
      have htest := test.nodes_le
      have hbody := Stmt.listNodes_le body
      simp [nodes, encodeStmt]
      omega
  | .forLoop init test step body => by
      have hinit := VarDecl.nodes_le init
      have htest := test.nodes_le
      have hstep := Assignment.nodes_le step
      have hbody := Stmt.listNodes_le body
      simp [nodes, encodeStmt]
      omega
  | .block body => by
      have hbody := Stmt.listNodes_le body
      simp [nodes, encodeStmt]
      omega
  | .function _ _ _ body => by
      have hbody := Stmt.listNodes_le body
      simp [nodes, encodeStmt]
      omega

theorem Stmt.listNodes_le : (ss : List Stmt) → Stmt.listNodes ss ≤ (encodeStmts ss).length
  | [] => by simp [listNodes]
  | s :: ss => by
      have hfirst := s.nodes_le
      have hothers := Stmt.listNodes_le ss
      simp [listNodes, encodeStmts]
      omega
end

theorem Program.nodes_le (p : Program) : p.nodes ≤ (encodeProgram p).length := by
  have hitems := Stmt.listNodes_le p.items
  rw [nodes, encodeProgram, List.length_append]
  omega

/-- A block has a byte for its label and one for each instruction. -/
theorem Block.length_code_lt (b : Block) : b.code.length < (encodeBlock b).length := by
  have hlabel := List.length_pos_iff.mpr (encodeString_ne_nil b.label)
  have hcode := length_le_encodeList encodeInstruction_ne_nil b.code
  rw [encodeBlock, List.length_append]
  omega

theorem Image.parts_le (image : Image) : image.parts ≤ (encodeImage image).length := by
  have hblocks := length_flatMap_le Block.code Block.length_code_lt image.blocks
  have hdiagnostics := length_le_encodeList (fun d : Diagnostic => encodeString_ne_nil d.message)
    image.diagnostics
  rw [parts, encodeImage, List.length_append]
  omega

end

namespace Wire

/-! ## Rounds of a list -/

section

variable {decode : Decoder α} {encode : α → List UInt8} {sized : α → Prop}

/-- Whatever the decoder accepts takes at least a byte. -/
def Progresses (decode : Decoder α) : Prop :=
  Consumes decode fun _ used => used ≠ []

/-- Of a list that is declared longer than the input there are at most as many rounds as bytes, and
the one that fails. -/
def RoundsBounded (decode : Decoder α) : Prop :=
  ∀ (input : List UInt8) (count : Nat), input.length < count →
    ∃ e, decodeMany decode (input.length + 1) input = .error e ∧
      decodeMany decode count input = .error e

theorem Tightens.ne_nil {bytes used : List UInt8} (h : Tightens bytes used) (hne : bytes ≠ []) :
    used ≠ [] := by
  have hpos := List.length_pos_iff.mpr hne
  have hle := h.1
  exact List.length_pos_iff.mp (by omega)

theorem Canonical.progresses (h : Canonical decode encode sized) (hne : ∀ a, encode a ≠ []) :
    Progresses decode :=
  h.mono fun a _ ha => ha.2.ne_nil (hne a)

theorem Progresses.length_lt (h : Progresses decode) {input rest : List UInt8} {a : α}
    (hrun : decode input = .ok (a, rest)) : rest.length < input.length := by
  obtain ⟨used, rfl, hused⟩ := h input a rest hrun
  have hpos := List.length_pos_iff.mpr hused
  rw [List.length_append]
  omega

/-- Each element that is read has a byte of its own. -/
theorem Progresses.many (h : Progresses decode) (count : Nat) :
    Consumes (decodeMany decode count) fun _ used => count ≤ used.length := by
  induction count with
  | zero => exact .pure (Nat.zero_le _)
  | succ count ih =>
      refine h.bind fun a used hused => ih.bind fun as more hmore => .pure ?_
      have hpos := List.length_pos_iff.mpr hused
      simp only [List.length_append, List.length_nil]
      omega

/-- Where the input is shorter than the list, it does not matter by how much. -/
theorem Progresses.many_eq (h : Progresses decode) {count count' : Nat} {input : List UInt8}
    (hcount : input.length < count) (hcount' : input.length < count') :
    decodeMany decode count input = decodeMany decode count' input := by
  induction count generalizing count' input with
  | zero => exact absurd hcount (Nat.not_lt_zero _)
  | succ count ih =>
      cases count' with
      | zero => exact absurd hcount' (Nat.not_lt_zero _)
      | succ count' =>
          rw [decodeMany, decodeMany, bind_apply, bind_apply]
          cases hfirst : decode input with
          | error e => rfl
          | ok p =>
              have hlt := h.length_lt hfirst
              have hrest : decodeMany decode count p.2 = decodeMany decode count' p.2 :=
                ih (by omega) (by omega)
              dsimp only
              rw [bind_apply, bind_apply, hrest]

theorem Progresses.rounds (h : Progresses decode) : RoundsBounded decode := by
  intro input count hcount
  rw [h.many_eq hcount (Nat.lt_succ_self _)]
  cases hrun : decodeMany decode (input.length + 1) input with
  | error e => exact ⟨e, rfl, rfl⟩
  | ok p =>
      obtain ⟨used, hinput, hused⟩ := h.many _ input p.1 p.2 hrun
      have hlength := congrArg List.length hinput
      rw [List.length_append] at hlength
      omega

end

/-! ## Bounds on the height -/

/-- The decoders do the same on all inputs of at most `n` bytes. -/
def SameWithin (n : Nat) (x y : Decoder α) : Prop :=
  ∀ input, input.length ≤ n → x input = y input

theorem Consumes.length_le {x : Decoder α} {P : α → List UInt8 → Prop} (hx : Consumes x P)
    {input rest : List UInt8} {a : α} (hrun : x input = .ok (a, rest)) :
    rest.length ≤ input.length := by
  obtain ⟨used, rfl, -⟩ := hx input a rest hrun
  rw [List.length_append]
  omega

namespace SameWithin

variable {n : Nat} {x y : Decoder α} {P : α → List UInt8 → Prop}

theorem refl (x : Decoder α) : SameWithin n x x :=
  fun _ _ => rfl

theorem bind {f g : α → Decoder β} (hxy : SameWithin n x y) (hy : Consumes y P)
    (hfg : ∀ a, SameWithin n (f a) (g a)) : SameWithin n (x >>= f) (y >>= g) := by
  intro input hlen
  rw [bind_apply, bind_apply, hxy input hlen]
  cases hrun : y input with
  | error e => rfl
  | ok p => exact hfg p.1 p.2 (Nat.le_trans (hy.length_le hrun) hlen)

/-- What is read first leaves less of the input. -/
theorem after {f g : α → Decoder β} (hx : Progresses x)
    (hfg : ∀ a, SameWithin n (f a) (g a)) : SameWithin (n + 1) (x >>= f) (x >>= g) := by
  intro input hlen
  rw [bind_apply, bind_apply]
  cases hrun : x input with
  | error e => rfl
  | ok p =>
      have hlt := hx.length_lt hrun
      exact hfg p.1 p.2 (by omega)

theorem map (f : α → β) (hxy : SameWithin n x y) : SameWithin n (f <$> x) (f <$> y) := by
  intro input hlen
  rw [map_apply, map_apply, hxy input hlen]

theorem many (hxy : SameWithin n x y) (hy : Consumes y P) (count : Nat) :
    SameWithin n (decodeMany x count) (decodeMany y count) := by
  induction count with
  | zero => exact refl _
  | succ count ih =>
      rw [decodeMany, decodeMany]
      refine hxy.bind hy fun a => ?_
      intro input hlen
      rw [bind_apply, bind_apply, ih input hlen]

theorem list (hxy : SameWithin n x y) (hy : Consumes y P) :
    SameWithin n (decodeList x) (decodeList y) :=
  (refl _).bind decodeWord_consumes (hxy.many hy)

theorem option (hxy : SameWithin n x y) : SameWithin n (decodeOption x) (decodeOption y) := by
  refine (refl _).bind decodeByte_consumes fun b => ?_
  by_cases hnone : b = 0
  · simpa [hnone] using refl _
  · by_cases hsome : b = 1
    · simpa [hsome] using hxy.map some
    · simpa [hnone, hsome] using refl _

end SameWithin

theorem decodeTag_progresses : Progresses decodeTag :=
  decodeTag_consumes.mono fun n _ h => h.ne_nil (encodeVarint_ne_nil n)

/-- A bound on the height that the length of the input allows makes no difference. -/
theorem decodeExpr_within (height : Nat) :
    SameWithin height (decodeExpr height) (decodeExpr (height + 1)) := by
  induction height with
  | zero =>
      intro input hlen
      rw [List.length_eq_zero_iff.mp (Nat.le_zero.mp hlen)]
      rfl
  | succ height ih =>
      have hexpr := decodeExpr_canonical (height + 1)
      have hops : binaryOps.Nodup := by decide
      rw [decodeExpr, decodeExpr]
      refine .after decodeTag_progresses fun tag => ?_
      split
      case h_3 =>
        exact (SameWithin.refl _).bind (decodeMember_consumes hops) fun op =>
          ih.bind hexpr fun lhs => ih.bind hexpr fun rhs => .refl _
      case h_4 =>
        exact (SameWithin.refl _).bind decodeString_canonical fun name =>
          (ih.list hexpr).bind (decodeList_canonical hexpr) fun args => .refl _
      case h_7 => exact ih.map _
      case h_8 =>
        exact (SameWithin.refl _).bind decodeString_canonical fun name =>
          ih.bind hexpr fun index => .refl _
      all_goals exact .refl _

/-- A bound on the height that the length of the input allows makes no difference. -/
theorem decodeStmt_within (height : Nat) :
    SameWithin height (decodeStmt height) (decodeStmt (height + 1)) := by
  induction height with
  | zero =>
      intro input hlen
      rw [List.length_eq_zero_iff.mp (Nat.le_zero.mp hlen)]
      rfl
  | succ height ih =>
      have hexpr := decodeExpr_within height
      have hreads := decodeExpr_canonical (height + 1)
      have hbody := ih.list (decodeStmt_canonical (height + 1))
      have hbodies := decodeList_canonical (decodeStmt_canonical (height + 1))
      have hdecl : SameWithin height (decodeVarDecl height) (decodeVarDecl (height + 1)) :=
        (SameWithin.refl _).bind decodeString_canonical fun name =>
          (SameWithin.refl _).bind decodeTy_consumes fun ty => hexpr.bind hreads fun init => .refl _
      have hassignment :
          SameWithin height (decodeAssignment height) (decodeAssignment (height + 1)) :=
        (SameWithin.refl _).bind decodeString_canonical fun name =>
          hexpr.bind hreads fun value => .refl _
      rw [decodeStmt, decodeStmt]
      refine .after decodeTag_progresses fun tag => ?_
      split
      case h_1 => exact hdecl.map _
      case h_2 =>
        exact (SameWithin.refl _).bind decodeString_canonical fun name =>
          (SameWithin.refl _).bind decodeTy_consumes fun ty => hexpr.bind hreads fun size =>
            (hexpr.list hreads).bind (decodeList_canonical hreads) fun elements => .refl _
      case h_3 => exact hassignment.map _
      case h_4 =>
        exact (SameWithin.refl _).bind decodeString_canonical fun name =>
          hexpr.bind hreads fun index => hexpr.bind hreads fun value => .refl _
      case h_5 => exact hexpr.map _
      case h_6 => exact hexpr.map _
      case h_7 =>
        exact hexpr.bind hreads fun x => hexpr.bind hreads fun y =>
          hexpr.bind hreads fun color => .refl _
      case h_8 =>
        exact hexpr.bind hreads fun x => hexpr.bind hreads fun y => hexpr.bind hreads fun width =>
          hexpr.bind hreads fun tall => hexpr.bind hreads fun color => .refl _
      case h_9 =>
        exact hexpr.bind hreads fun test => hbody.bind hbodies fun stmts =>
          hbody.option.bind (decodeOption_canonical hbodies) fun otherwise => .refl _
      case h_10 =>
        exact hexpr.bind hreads fun test => hbody.bind hbodies fun stmts => .refl _
      case h_11 =>
        have hinits := decodeOption_canonical (decodeVarDecl_canonical (height + 1))
        have hsteps := decodeOption_canonical (decodeAssignment_canonical (height + 1))
        exact hdecl.option.bind hinits fun init => hexpr.bind hreads fun test =>
          hassignment.option.bind hsteps fun step => hbody.bind hbodies fun stmts => .refl _
      case h_12 => exact hexpr.map _
      case h_13 => exact hbody.map _
      case h_14 =>
        exact (SameWithin.refl _).bind decodeString_canonical fun name =>
          (SameWithin.refl _).bind (decodeList_canonical decodeParam_canonical) fun params =>
            (SameWithin.refl _).bind decodeTy_consumes fun result =>
              hbody.bind hbodies fun stmts => .refl _
      case h_15 => exact .refl _

/-- A program read with a bound on its height. -/
def decodeProgramWithin (height : Nat) : Decoder Program :=
  Program.mk <$> decodeList (decodeStmt height)

/-- No program is read with a higher bound than the length of the input that is not read with
that, and no input is refused for another reason. -/
theorem decodeProgramWithin_eq {input : List UInt8} {height : Nat} (h : input.length ≤ height) :
    decodeProgramWithin height input = decodeProgram input := by
  induction h with
  | refl => rfl
  | @step height hle ih =>
      have hitems := (decodeStmt_within height).list (decodeStmt_canonical (height + 1))
      rw [← ih]
      exact (hitems.map Program.mk input hle).symm

end Wire

/-! ## Bounds on what is read -/

/-- The causes for which bytes are refused. -/
def Wire.DecodeError.all : List Wire.DecodeError :=
  [.unexpectedEnd, .badVarint, .badBool, .badUtf8, .badOption, .badTag]

theorem Wire.DecodeError.mem_all (e : Wire.DecodeError) : e ∈ all := by
  cases e <;> decide

/-- An input is refused for one of the causes, or a value is read from a front of it that has at
least a byte for each part of the value. -/
theorem Wire.Canonical.bounded {decode : Wire.Decoder α} {encode : α → List UInt8}
    {sized : α → Prop} (h : Wire.Canonical decode encode sized) {parts : α → Nat}
    (hparts : ∀ a, parts a ≤ (encode a).length) (input : List UInt8) :
    (∃ e ∈ Wire.DecodeError.all, Prod.fst <$> decode input = .error e) ∨
      ∃ a consumed rest, Prod.fst <$> decode input = .ok a ∧ input = consumed ++ rest ∧
        decode input = .ok (a, rest) ∧ parts a ≤ consumed.length := by
  cases hrun : decode input with
  | error e => exact .inl ⟨e, e.mem_all, rfl⟩
  | ok p =>
      obtain ⟨consumed, hinput, -, htight⟩ := h input p.1 p.2 hrun
      exact .inr ⟨p.1, consumed, p.2, rfl, hinput, rfl, Nat.le_trans (hparts p.1) htight.1⟩

/-- Every input is refused for one of the causes, or read as a value with no more statements and
expressions, or blocks, instructions and warnings, than bytes were consumed.  How much is declared
makes no difference to that: trees are not read any deeper than the input is long, no list is read
for more rounds than there are bytes left and the one that fails, and a text that is declared longer
is not looked at. -/
theorem decoding_bounded (input : List UInt8) :
    ((∃ e ∈ Wire.DecodeError.all, Program.ofBytes input = .error e) ∨
        ∃ p consumed rest, Program.ofBytes input = .ok p ∧ input = consumed ++ rest ∧
          Wire.decodeProgram input = .ok (p, rest) ∧ p.nodes ≤ consumed.length) ∧
      ((∃ e ∈ Wire.DecodeError.all, Image.ofBytes input = .error e) ∨
        ∃ image consumed rest, Image.ofBytes input = .ok image ∧ input = consumed ++ rest ∧
          Wire.decodeImage input = .ok (image, rest) ∧ image.parts ≤ consumed.length) ∧
      (∀ height, input.length ≤ height →
        Wire.decodeProgramWithin height input = Wire.decodeProgram input) ∧
      (∀ height, Wire.RoundsBounded (Wire.decodeStmt height) ∧
        Wire.RoundsBounded (Wire.decodeExpr height)) ∧
      (Wire.RoundsBounded Wire.decodeParam ∧ Wire.RoundsBounded Wire.decodeBlock ∧
        Wire.RoundsBounded Wire.decodeInstruction ∧
        Wire.RoundsBounded (Diagnostic.mk <$> Wire.decodeString)) ∧
      ∀ length, input.length < length →
        Wire.decodeBytes length input = .error .unexpectedEnd := by
  have hstmt (s : Stmt) : Wire.encodeStmt s ≠ [] :=
    List.length_pos_iff.mp (Wire.length_encodeStmt_pos s)
  have hexpr (e : Expr) : Wire.encodeExpr e ≠ [] :=
    List.length_pos_iff.mp (Wire.length_encodeExpr_pos e)
  have hparam (param : Param) : Wire.encodeParam param ≠ [] := by
    simp [Wire.encodeParam, Wire.encodeString_ne_nil]
  have hblock (b : Block) : Wire.encodeBlock b ≠ [] := by
    simp [Wire.encodeBlock, Wire.encodeString_ne_nil]
  have hdiagnostic : Wire.Canonical (Diagnostic.mk <$> Wire.decodeString)
      (fun d => Wire.encodeString d.message) fun d => TextSized d.message :=
    .map Wire.decodeString_canonical
  refine ⟨Wire.decodeProgram_canonical.bounded Program.nodes_le input,
    Wire.decodeImage_canonical.bounded Image.parts_le input,
    fun _ => Wire.decodeProgramWithin_eq, fun height => ⟨?_, ?_⟩, ⟨?_, ?_, ?_, ?_⟩, ?_⟩
  · exact ((Wire.decodeStmt_canonical height).progresses hstmt).rounds
  · exact ((Wire.decodeExpr_canonical height).progresses hexpr).rounds
  · exact (Wire.decodeParam_canonical.progresses hparam).rounds
  · exact (Wire.decodeBlock_canonical.progresses hblock).rounds
  · exact (Wire.decodeInstruction_canonical.progresses Wire.encodeInstruction_ne_nil).rounds
  · exact (hdiagnostic.progresses fun d => Wire.encodeString_ne_nil d.message).rounds
  · intro length hlength
    unfold Wire.decodeBytes
    rw [if_neg (by rw [List.length_take]; omega)]

/-- One statement, a block that is declared to hold as many statements as a word can say, and holds
one. -/
def Demo.hugeBlock : List UInt8 :=
  [1, 12, 255, 255, 255, 255, 255, 255, 255, 255, 255, 1, 4, 4]

/-- The block is refused, also if trees may be higher; and a program of one statement with a byte
after it is read from the bytes before that. -/
theorem hugeBlock_bounded :
    Program.ofBytes Demo.hugeBlock = .error .unexpectedEnd ∧
      Wire.decodeProgramWithin 1000 Demo.hugeBlock = .error .unexpectedEnd ∧
      ∃ consumed rest, [1, 4, 4, 255] = consumed ++ rest ∧
        Wire.decodeProgram [1, 4, 4, 255] = .ok (⟨[.print .padWidth]⟩, rest) ∧
        (Program.mk [.print .padWidth]).nodes ≤ consumed.length := by
  obtain ⟨-, -, hheights, -⟩ := decoding_bounded Demo.hugeBlock
  refine ⟨rfl, hheights 1000 (by decide), ?_⟩
  obtain ⟨e, -, hrefused⟩ | ⟨p, consumed, rest, haccepted, hinput, hrun, hnodes⟩ :=
    (decoding_bounded [1, 4, 4, 255]).1
  · exact nomatch hrefused
  · cases haccepted
    exact ⟨consumed, rest, hinput, hrun, hnodes⟩

end PadCompiler
