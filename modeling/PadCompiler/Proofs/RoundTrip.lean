import PadCompiler.Demo
import PadCompiler.Proofs.Coding
import PadCompiler.Wire.Image
import PadCompiler.Wire.Program

/-!
# PadCompiler.Proofs.RoundTrip

Programs and compiled programs in binary form are read back as they were, and never
out of less than all of their bytes.

Both follow from `Coded`, which holds of every type of tree by induction on its trees
(`decodeExpr_coded`, `decodeStmt_coded`, `decodeImage_coded`).  Trees are decoded with a
bound on their height.  The length of a tree's encoding is bound enough to read it;
and a bound that is too low only ever makes an input look too short
(`decodeStmt_approximates`), so it does no harm where the input is.

* `ofBytes_toBytes` — what was written is read back, whatever follows it;
* `ofBytes_cut` — every beginning of it is refused as too short.
-/

namespace PadCompiler

/-! ## Lengths -/

mutual
/-- An expression whose texts and lists have words for their lengths.  No machine holds
another one. -/
def Expr.Sized : Expr → Prop
  | .literal value => value.Sized
  | .ident name => TextSized name
  | .binary _ lhs rhs => lhs.Sized ∧ rhs.Sized
  | .call name args => TextSized name ∧ args.length < wordLimit ∧ Expr.AllSized args
  | .padWidth => True
  | .padHeight => True
  | .randomInt bound => bound.Sized
  | .index name position => TextSized name ∧ position.Sized

/-- Expressions all of whose texts and lists have words for their lengths. -/
def Expr.AllSized : List Expr → Prop
  | [] => True
  | e :: es => e.Sized ∧ Expr.AllSized es
end

/-- A declaration whose texts and lists have words for their lengths. -/
def VarDecl.Sized (decl : VarDecl) : Prop :=
  TextSized decl.name ∧ decl.init.Sized

/-- An assignment whose texts and lists have words for their lengths. -/
def Assignment.Sized (assignment : Assignment) : Prop :=
  TextSized assignment.name ∧ assignment.value.Sized

mutual
/-- A statement whose texts and lists have words for their lengths. -/
def Stmt.Sized : Stmt → Prop
  | .varDecl decl => decl.Sized
  | .arrayDecl name _ size elements =>
    TextSized name ∧ size.Sized ∧ elements.length < wordLimit ∧ Expr.AllSized elements
  | .assign assignment => assignment.Sized
  | .arrayAssign name index value => TextSized name ∧ index.Sized ∧ value.Sized
  | .print value => value.Sized
  | .delay duration => duration.Sized
  | .write x y color => x.Sized ∧ y.Sized ∧ color.Sized
  | .writeBox x y width height color =>
    x.Sized ∧ y.Sized ∧ width.Sized ∧ height.Sized ∧ color.Sized
  | .conditional test body none => test.Sized ∧ body.length < wordLimit ∧ Stmt.AllSized body
  | .conditional test body (some otherwise) =>
    test.Sized ∧ (body.length < wordLimit ∧ Stmt.AllSized body) ∧
      otherwise.length < wordLimit ∧ Stmt.AllSized otherwise
  | .whileLoop test body => test.Sized ∧ body.length < wordLimit ∧ Stmt.AllSized body
  | .forLoop init test step body =>
    (∀ decl ∈ init, decl.Sized) ∧ test.Sized ∧ (∀ assignment ∈ step, assignment.Sized) ∧
      body.length < wordLimit ∧ Stmt.AllSized body
  | .ret value => value.Sized
  | .block body => body.length < wordLimit ∧ Stmt.AllSized body
  | .function name params _ body =>
    TextSized name ∧ (params.length < wordLimit ∧ ∀ param ∈ params, TextSized param.name) ∧
      body.length < wordLimit ∧ Stmt.AllSized body

/-- Statements all of whose texts and lists have words for their lengths. -/
def Stmt.AllSized : List Stmt → Prop
  | [] => True
  | s :: ss => s.Sized ∧ Stmt.AllSized ss
end

/-- A program whose texts and lists have words for their lengths. -/
def Program.Sized (p : Program) : Prop :=
  p.items.length < wordLimit ∧ Stmt.AllSized p.items

/-- An operand whose text, if it has one, has a word for its length. -/
def Operand.Sized : Operand → Prop
  | .value v => v.Sized
  | .label name => TextSized name
  | _ => True

/-- A block whose texts and code have words for their lengths. -/
def Block.Sized (b : Block) : Prop :=
  TextSized b.label ∧ b.code.length < wordLimit ∧
    ∀ i ∈ b.code, ∀ operand ∈ i.operand, operand.Sized

/-- A compiled program whose texts and lists have words for their lengths. -/
def Image.Sized (image : Image) : Prop :=
  (image.blocks.length < wordLimit ∧ ∀ b ∈ image.blocks, b.Sized) ∧
    image.diagnostics.length < wordLimit ∧ ∀ d ∈ image.diagnostics, TextSized d.message

namespace Wire

/-! ## Expressions -/

theorem encodeExprs_eq (es : List Expr) : encodeExprs es = es.flatMap encodeExpr := by
  induction es with
  | nil => simp [encodeExprs]
  | cons e es ih => simp [encodeExprs, ih]

@[simp] theorem encodeVarint_ne_nil (n : Nat) : encodeVarint n ≠ [] := by
  unfold encodeVarint
  split <;> simp

@[simp] theorem length_encodeVarint_small {n : Nat} (h : n < 128) :
    (encodeVarint n).length = 1 := by
  rw [encodeVarint_small h, List.length_singleton]

theorem length_encodeExpr_pos (e : Expr) : 0 < (encodeExpr e).length := by
  rw [List.length_pos_iff]
  cases e <;> simp [encodeExpr]

mutual
/-- An expression is read back with any bound on its height that its length allows. -/
theorem decodeExpr_coded : (e : Expr) → e.Sized → (height : Nat) →
    (encodeExpr e).length ≤ height → Coded (decodeExpr height) (encodeExpr e) e
  | e, _, 0, hlen => by
      have hpos := length_encodeExpr_pos e
      omega
  | .literal value, hsized, height + 1, _ => by
      simp only [Expr.Sized] at hsized
      rw [decodeExpr, encodeExpr]
      exact (decodeTag_coded (by decide)).bind ((decodeValue_coded hsized).map _)
  | .ident name, hsized, height + 1, _ => by
      simp only [Expr.Sized] at hsized
      rw [decodeExpr, encodeExpr]
      exact (decodeTag_coded (by decide)).bind ((decodeString_coded hsized).map _)
  | .binary op lhs rhs, hsized, height + 1, hlen => by
      simp only [Expr.Sized] at hsized
      simp [encodeExpr] at hlen
      have hop : Coded (decodeMember binaryOps) (encodeMember binaryOps op) op :=
        decodeMember_coded (by decide) (by cases op <;> decide)
      have hlhs := decodeExpr_coded lhs hsized.1 height (by omega)
      have hrhs := decodeExpr_coded rhs hsized.2 height (by omega)
      rw [decodeExpr, encodeExpr]
      simp only [List.append_assoc]
      exact (decodeTag_coded (by decide)).bind (hop.bind (hlhs.bind (hrhs.last (.pure _))))
  | .call name args, hsized, height + 1, hlen => by
      simp only [Expr.Sized] at hsized
      simp [encodeExpr] at hlen
      have hargs := decodeExprs_coded args hsized.2.2 height (by omega)
      rw [decodeExpr, encodeExpr, encodeExprs_eq]
      simp only [List.append_assoc]
      exact (decodeTag_coded (by decide)).bind ((decodeString_coded hsized.1).bind
        ((decodeList_coded hsized.2.1 hargs).last (.pure _)))
  | .padWidth, _, height + 1, _ => by
      rw [decodeExpr, encodeExpr]
      exact (decodeTag_coded (by decide)).last (.pure _)
  | .padHeight, _, height + 1, _ => by
      rw [decodeExpr, encodeExpr]
      exact (decodeTag_coded (by decide)).last (.pure _)
  | .randomInt bound, hsized, height + 1, hlen => by
      simp only [Expr.Sized] at hsized
      simp [encodeExpr] at hlen
      have hbound := decodeExpr_coded bound hsized height (by omega)
      rw [decodeExpr, encodeExpr]
      exact (decodeTag_coded (by decide)).bind (hbound.map _)
  | .index name index, hsized, height + 1, hlen => by
      simp only [Expr.Sized] at hsized
      simp [encodeExpr] at hlen
      have hindex := decodeExpr_coded index hsized.2 height (by omega)
      rw [decodeExpr, encodeExpr]
      simp only [List.append_assoc]
      exact (decodeTag_coded (by decide)).bind
        ((decodeString_coded hsized.1).bind (hindex.last (.pure _)))

theorem decodeExprs_coded : (es : List Expr) → Expr.AllSized es → (height : Nat) →
    (encodeExprs es).length ≤ height → ∀ e ∈ es, Coded (decodeExpr height) (encodeExpr e) e
  | [], _, _, _ => by simp
  | e :: es, hsized, height, hlen => by
      simp only [Expr.AllSized] at hsized
      simp [encodeExprs] at hlen
      have hfirst := decodeExpr_coded e hsized.1 height (by omega)
      have hothers := decodeExprs_coded es hsized.2 height (by omega)
      simpa using ⟨hfirst, hothers⟩
end

/-! ## Statements -/

theorem encodeStmts_eq (ss : List Stmt) : encodeStmts ss = ss.flatMap encodeStmt := by
  induction ss with
  | nil => simp [encodeStmts]
  | cons s ss ih => simp [encodeStmts, ih]

theorem encodeStmt_conditional (test : Expr) (body : List Stmt) (otherwise : Option (List Stmt)) :
    encodeStmt (.conditional test body otherwise) =
      encodeVarint 8 ++ (encodeExpr test ++ (encodeList encodeStmt body ++
        encodeOption (encodeList encodeStmt) otherwise)) := by
  cases otherwise with
  | none => simp [encodeStmt, encodeStmts_eq, encodeList, encodeOption]
  | some stmts => simp [encodeStmt, encodeStmts_eq, encodeList, encodeOption]

theorem length_encodeStmt_pos (s : Stmt) : 0 < (encodeStmt s).length := by
  rw [List.length_pos_iff]
  cases s with
  | conditional test body otherwise => simp [encodeStmt_conditional]
  | _ => simp [encodeStmt]

theorem decodeVarDecl_coded {decl : VarDecl} (hsized : decl.Sized) (height : Nat)
    (hlen : (encodeVarDecl decl).length ≤ height) :
    Coded (decodeVarDecl height) (encodeVarDecl decl) decl := by
  simp [encodeVarDecl] at hlen
  have hinit := decodeExpr_coded decl.init hsized.2 height (by omega)
  rw [decodeVarDecl, encodeVarDecl]
  simp only [List.append_assoc]
  exact (decodeString_coded hsized.1).bind ((decodeTy_coded decl.ty).bind (hinit.last (.pure _)))

theorem decodeAssignment_coded {assignment : Assignment} (hsized : assignment.Sized)
    (height : Nat) (hlen : (encodeAssignment assignment).length ≤ height) :
    Coded (decodeAssignment height) (encodeAssignment assignment) assignment := by
  simp [encodeAssignment] at hlen
  have hvalue := decodeExpr_coded assignment.value hsized.2 height (by omega)
  exact (decodeString_coded hsized.1).bind (hvalue.last (.pure _))

theorem decodeParam_coded {param : Param} (hsized : TextSized param.name) :
    Coded decodeParam (encodeParam param) param :=
  (decodeString_coded hsized).bind ((decodeTy_coded param.ty).last (.pure _))

theorem conditional_coded {test : Expr} {body : List Stmt} {otherwise : Option (List Stmt)}
    {height : Nat} (htest : Coded (decodeExpr height) (encodeExpr test) test)
    (hbody : Coded (decodeList (decodeStmt height)) (encodeList encodeStmt body) body)
    (hotherwise : ∀ stmts ∈ otherwise,
      Coded (decodeList (decodeStmt height)) (encodeList encodeStmt stmts) stmts) :
    Coded (decodeStmt (height + 1)) (encodeStmt (.conditional test body otherwise))
      (.conditional test body otherwise) := by
  rw [decodeStmt, encodeStmt_conditional]
  exact (decodeTag_coded (by decide)).bind (htest.bind (hbody.bind
    ((decodeOption_coded hotherwise).last (.pure _))))

theorem length_le_encodeOption (encode : α → List UInt8) {o : Option α} {a : α} (ha : a ∈ o) :
    (encode a).length ≤ (encodeOption encode o).length := by
  cases ha
  simp [encodeOption]

mutual
/-- A statement is read back with any bound on its height that its length allows. -/
theorem decodeStmt_coded : (s : Stmt) → s.Sized → (height : Nat) →
    (encodeStmt s).length ≤ height → Coded (decodeStmt height) (encodeStmt s) s
  | s, _, 0, hlen => by
      have hpos := length_encodeStmt_pos s
      omega
  | .varDecl decl, hsized, height + 1, hlen => by
      simp only [Stmt.Sized] at hsized
      simp [encodeStmt] at hlen
      have hdecl := decodeVarDecl_coded hsized height (by omega)
      rw [decodeStmt, encodeStmt]
      exact (decodeTag_coded (by decide)).bind (hdecl.map _)
  | .arrayDecl name ty size elements, hsized, height + 1, hlen => by
      simp only [Stmt.Sized] at hsized
      obtain ⟨hname, hsize, hcount, helements⟩ := hsized
      simp [encodeStmt] at hlen
      have hsize := decodeExpr_coded size hsize height (by omega)
      have helements := decodeExprs_coded elements helements height (by omega)
      rw [decodeStmt, encodeStmt, encodeExprs_eq]
      simp only [List.append_assoc]
      exact (decodeTag_coded (by decide)).bind ((decodeString_coded hname).bind
        ((decodeTy_coded ty).bind (hsize.bind
          ((decodeList_coded hcount helements).last (.pure _)))))
  | .assign assignment, hsized, height + 1, hlen => by
      simp only [Stmt.Sized] at hsized
      simp [encodeStmt] at hlen
      have hassignment := decodeAssignment_coded hsized height (by omega)
      rw [decodeStmt, encodeStmt]
      exact (decodeTag_coded (by decide)).bind (hassignment.map _)
  | .arrayAssign name index value, hsized, height + 1, hlen => by
      simp only [Stmt.Sized] at hsized
      simp [encodeStmt] at hlen
      have hindex := decodeExpr_coded index hsized.2.1 height (by omega)
      have hvalue := decodeExpr_coded value hsized.2.2 height (by omega)
      rw [decodeStmt, encodeStmt]
      simp only [List.append_assoc]
      exact (decodeTag_coded (by decide)).bind ((decodeString_coded hsized.1).bind
        (hindex.bind (hvalue.last (.pure _))))
  | .print value, hsized, height + 1, hlen => by
      simp only [Stmt.Sized] at hsized
      simp [encodeStmt] at hlen
      have hvalue := decodeExpr_coded value hsized height (by omega)
      rw [decodeStmt, encodeStmt]
      exact (decodeTag_coded (by decide)).bind (hvalue.map _)
  | .delay duration, hsized, height + 1, hlen => by
      simp only [Stmt.Sized] at hsized
      simp [encodeStmt] at hlen
      have hduration := decodeExpr_coded duration hsized height (by omega)
      rw [decodeStmt, encodeStmt]
      exact (decodeTag_coded (by decide)).bind (hduration.map _)
  | .write x y color, hsized, height + 1, hlen => by
      simp only [Stmt.Sized] at hsized
      simp [encodeStmt] at hlen
      have hx := decodeExpr_coded x hsized.1 height (by omega)
      have hy := decodeExpr_coded y hsized.2.1 height (by omega)
      have hcolor := decodeExpr_coded color hsized.2.2 height (by omega)
      rw [decodeStmt, encodeStmt]
      simp only [List.append_assoc]
      exact (decodeTag_coded (by decide)).bind (hx.bind (hy.bind (hcolor.last (.pure _))))
  | .writeBox x y width tall color, hsized, height + 1, hlen => by
      simp only [Stmt.Sized] at hsized
      obtain ⟨hx, hy, hwidth, htall, hcolor⟩ := hsized
      simp [encodeStmt] at hlen
      have hx := decodeExpr_coded x hx height (by omega)
      have hy := decodeExpr_coded y hy height (by omega)
      have hwidth := decodeExpr_coded width hwidth height (by omega)
      have htall := decodeExpr_coded tall htall height (by omega)
      have hcolor := decodeExpr_coded color hcolor height (by omega)
      rw [decodeStmt, encodeStmt]
      simp only [List.append_assoc]
      exact (decodeTag_coded (by decide)).bind (hx.bind (hy.bind (hwidth.bind (htall.bind
        (hcolor.last (.pure _))))))
  | .conditional test body none, hsized, height + 1, hlen => by
      simp only [Stmt.Sized] at hsized
      simp [encodeStmt] at hlen
      have htest := decodeExpr_coded test hsized.1 height (by omega)
      have hbody := decodeStmts_coded body hsized.2.2 height (by omega)
      exact conditional_coded htest (decodeList_coded hsized.2.1 hbody) (by simp)
  | .conditional test body (some otherwise), hsized, height + 1, hlen => by
      simp only [Stmt.Sized] at hsized
      obtain ⟨htest, hbody, hotherwise⟩ := hsized
      simp [encodeStmt] at hlen
      have htest := decodeExpr_coded test htest height (by omega)
      have hbody' := decodeStmts_coded body hbody.2 height (by omega)
      have hotherwise' := decodeStmts_coded otherwise hotherwise.2 height (by omega)
      exact conditional_coded htest (decodeList_coded hbody.1 hbody')
        (by simpa using decodeList_coded hotherwise.1 hotherwise')
  | .whileLoop test body, hsized, height + 1, hlen => by
      simp only [Stmt.Sized] at hsized
      simp [encodeStmt] at hlen
      have htest := decodeExpr_coded test hsized.1 height (by omega)
      have hbody := decodeStmts_coded body hsized.2.2 height (by omega)
      rw [decodeStmt, encodeStmt, encodeStmts_eq]
      simp only [List.append_assoc]
      exact (decodeTag_coded (by decide)).bind (htest.bind
        ((decodeList_coded hsized.2.1 hbody).last (.pure _)))
  | .forLoop init test step body, hsized, height + 1, hlen => by
      simp only [Stmt.Sized] at hsized
      obtain ⟨hinit, htest, hstep, hcount, hbody⟩ := hsized
      simp [encodeStmt] at hlen
      have hinit := decodeOption_coded fun decl hdecl =>
        have hle := length_le_encodeOption encodeVarDecl hdecl
        decodeVarDecl_coded (hinit decl hdecl) height (by omega)
      have htest := decodeExpr_coded test htest height (by omega)
      have hstep := decodeOption_coded fun assignment hassignment =>
        have hle := length_le_encodeOption encodeAssignment hassignment
        decodeAssignment_coded (hstep assignment hassignment) height (by omega)
      have hbody := decodeStmts_coded body hbody height (by omega)
      rw [decodeStmt, encodeStmt, encodeStmts_eq]
      simp only [List.append_assoc]
      exact (decodeTag_coded (by decide)).bind (hinit.bind (htest.bind (hstep.bind
        ((decodeList_coded hcount hbody).last (.pure _)))))
  | .ret value, hsized, height + 1, hlen => by
      simp only [Stmt.Sized] at hsized
      simp [encodeStmt] at hlen
      have hvalue := decodeExpr_coded value hsized height (by omega)
      rw [decodeStmt, encodeStmt]
      exact (decodeTag_coded (by decide)).bind (hvalue.map _)
  | .block body, hsized, height + 1, hlen => by
      simp only [Stmt.Sized] at hsized
      simp [encodeStmt] at hlen
      have hbody := decodeStmts_coded body hsized.2 height (by omega)
      rw [decodeStmt, encodeStmt, encodeStmts_eq]
      simp only [List.append_assoc]
      exact (decodeTag_coded (by decide)).bind ((decodeList_coded hsized.1 hbody).map _)
  | .function name params result body, hsized, height + 1, hlen => by
      simp only [Stmt.Sized] at hsized
      obtain ⟨hname, hparams, hcount, hbody⟩ := hsized
      simp [encodeStmt] at hlen
      have hparams := decodeList_coded hparams.1 fun param hparam =>
        decodeParam_coded (hparams.2 param hparam)
      have hbody := decodeStmts_coded body hbody height (by omega)
      rw [decodeStmt, encodeStmt, encodeStmts_eq]
      simp only [List.append_assoc]
      exact (decodeTag_coded (by decide)).bind ((decodeString_coded hname).bind (hparams.bind
        ((decodeTy_coded result).bind ((decodeList_coded hcount hbody).last (.pure _)))))

theorem decodeStmts_coded : (ss : List Stmt) → Stmt.AllSized ss → (height : Nat) →
    (encodeStmts ss).length ≤ height → ∀ s ∈ ss, Coded (decodeStmt height) (encodeStmt s) s
  | [], _, _, _ => by simp
  | s :: ss, hsized, height, hlen => by
      simp only [Stmt.AllSized] at hsized
      simp [encodeStmts] at hlen
      have hfirst := decodeStmt_coded s hsized.1 height (by omega)
      have hothers := decodeStmts_coded ss hsized.2 height (by omega)
      simpa using ⟨hfirst, hothers⟩
end

/-! ## Bounds on the height -/

/-- A decoder that does as another one does, or finds the input too short. -/
def Approximates (x y : Decoder α) : Prop :=
  ∀ input, x input = .error .unexpectedEnd ∨ x input = y input

namespace Approximates

variable {x y z : Decoder α}

theorem refl (x : Decoder α) : Approximates x x :=
  fun _ => .inr rfl

theorem trans (hxy : Approximates x y) (hyz : Approximates y z) : Approximates x z := by
  intro input
  rcases hxy input with hend | hsame
  · exact .inl hend
  · rw [hsame]
    exact hyz input

theorem bind {f g : α → Decoder β} (hxy : Approximates x y)
    (hfg : ∀ a, Approximates (f a) (g a)) : Approximates (x >>= f) (y >>= g) := by
  intro input
  rw [bind_apply, bind_apply]
  rcases hxy input with hend | hsame
  · exact .inl (by rw [hend])
  · rw [hsame]
    cases y input with
    | error e => exact .inr rfl
    | ok p => exact hfg p.1 p.2

theorem map (f : α → β) (hxy : Approximates x y) : Approximates (f <$> x) (f <$> y) := by
  rw [map_eq_pure_bind, map_eq_pure_bind]
  exact hxy.bind fun a => refl _

theorem many (hxy : Approximates x y) (n : Nat) :
    Approximates (decodeMany x n) (decodeMany y n) := by
  induction n with
  | zero => exact refl _
  | succ n ih => exact hxy.bind fun a => ih.bind fun as => refl _

theorem list (hxy : Approximates x y) : Approximates (decodeList x) (decodeList y) :=
  (refl _).bind hxy.many

theorem option (hxy : Approximates x y) : Approximates (decodeOption x) (decodeOption y) := by
  refine (refl _).bind fun b => ?_
  by_cases hnone : b = 0
  · simpa [hnone] using refl _
  · by_cases hsome : b = 1
    · simpa [hsome] using hxy.map some
    · simpa [hnone, hsome] using refl _

end Approximates

theorem decodeExpr_approximates (height : Nat) :
    Approximates (decodeExpr height) (decodeExpr (height + 1)) := by
  induction height with
  | zero => exact fun _ => .inl rfl
  | succ height ih =>
      rw [decodeExpr, decodeExpr]
      refine (Approximates.refl _).bind fun tag => ?_
      split
      case h_3 =>
        exact (Approximates.refl _).bind fun op => ih.bind fun lhs => ih.bind fun rhs => .refl _
      case h_4 => exact (Approximates.refl _).bind fun name => ih.list.bind fun args => .refl _
      case h_7 => exact ih.map _
      case h_8 => exact (Approximates.refl _).bind fun name => ih.bind fun index => .refl _
      all_goals exact .refl _

theorem decodeStmt_approximates (height : Nat) :
    Approximates (decodeStmt height) (decodeStmt (height + 1)) := by
  induction height with
  | zero => exact fun _ => .inl rfl
  | succ height ih =>
      have hexpr := decodeExpr_approximates height
      have hdecl : Approximates (decodeVarDecl height) (decodeVarDecl (height + 1)) :=
        (Approximates.refl _).bind fun name => (Approximates.refl _).bind fun ty =>
          hexpr.bind fun init => .refl _
      have hassignment : Approximates (decodeAssignment height) (decodeAssignment (height + 1)) :=
        (Approximates.refl _).bind fun name => hexpr.bind fun value => .refl _
      rw [decodeStmt, decodeStmt]
      refine (Approximates.refl _).bind fun tag => ?_
      split
      case h_1 => exact hdecl.map _
      case h_2 =>
        exact (Approximates.refl _).bind fun name => (Approximates.refl _).bind fun ty =>
          hexpr.bind fun size => hexpr.list.bind fun elements => .refl _
      case h_3 => exact hassignment.map _
      case h_4 =>
        exact (Approximates.refl _).bind fun name => hexpr.bind fun index =>
          hexpr.bind fun value => .refl _
      case h_5 => exact hexpr.map _
      case h_6 => exact hexpr.map _
      case h_7 => exact hexpr.bind fun x => hexpr.bind fun y => hexpr.bind fun color => .refl _
      case h_8 =>
        exact hexpr.bind fun x => hexpr.bind fun y => hexpr.bind fun width =>
          hexpr.bind fun tall => hexpr.bind fun color => .refl _
      case h_9 =>
        exact hexpr.bind fun test => ih.list.bind fun stmts =>
          ih.list.option.bind fun otherwise => .refl _
      case h_10 => exact hexpr.bind fun test => ih.list.bind fun stmts => .refl _
      case h_11 =>
        exact hdecl.option.bind fun init => hexpr.bind fun test =>
          hassignment.option.bind fun step => ih.list.bind fun stmts => .refl _
      case h_12 => exact hexpr.map _
      case h_13 => exact ih.list.map _
      case h_14 =>
        exact (Approximates.refl _).bind fun name => (Approximates.refl _).bind fun params =>
          (Approximates.refl _).bind fun result => ih.list.bind fun stmts => .refl _
      case h_15 => exact .refl _

/-- A lower bound does no more than make inputs look too short. -/
theorem decodeStmt_approximates_of_le {low high : Nat} (h : low ≤ high) :
    Approximates (decodeStmt low) (decodeStmt high) := by
  induction h with
  | refl => exact .refl _
  | step _ ih => exact ih.trans (decodeStmt_approximates _)

/-! ## Programs -/

theorem decodeItems_coded {p : Program} (hp : p.Sized) (height : Nat)
    (hlen : (encodeProgram p).length ≤ height) :
    Coded (decodeList (decodeStmt height)) (encodeProgram p) p.items := by
  unfold encodeProgram at hlen ⊢
  rw [List.length_append] at hlen
  rw [encodeStmts_eq]
  exact decodeList_coded hp.1 (decodeStmts_coded p.items hp.2 height (by omega))

theorem decodeProgram_coded {p : Program} (hp : p.Sized) :
    Coded decodeProgram (encodeProgram p) p where
  reads rest := by
    have hlen : (encodeProgram p).length ≤ (encodeProgram p ++ rest).length := by simp
    exact ((decodeItems_coded hp _ hlen).map Program.mk).reads rest
  ends {part} hpart hne := by
    -- the input is too short for its own length to bound the height of the whole program
    have hlower := (decodeStmt_approximates_of_le hpart.length_le).list.map Program.mk
    rcases hlower part with hend | hsame
    · exact hend
    · exact hsame.trans (((decodeItems_coded hp _ (Nat.le_refl _)).map _).ends hpart hne)

/-! ## Compiled programs -/

theorem decodeOperand_coded {operand : Operand} (hsized : operand.Sized) :
    Coded decodeOperand (encodeOperand operand) operand := by
  cases operand with
  | value v => exact (decodeTag_coded (by decide)).bind ((decodeValue_coded hsized).map _)
  | address slot depth =>
      rw [encodeOperand, List.append_assoc]
      exact (decodeTag_coded (by decide)).bind ((decodeUInt64_coded slot).bind
        ((decodeUInt64_coded depth).last (.pure _)))
  | label name => exact (decodeTag_coded (by decide)).bind ((decodeString_coded hsized).map _)
  | pc offset => exact (decodeTag_coded (by decide)).bind ((decodeInt64_coded offset).map _)
  | reserved => exact (decodeTag_coded (by decide)).last (.pure _)

theorem decodeInstruction_coded {i : Instruction} (hsized : ∀ operand ∈ i.operand, operand.Sized) :
    Coded decodeInstruction (encodeInstruction i) i := by
  have hop : Coded (decodeMember Opcode.all) (encodeMember Opcode.all i.op) i.op :=
    decodeMember_coded (by decide) (by cases i.op <;> decide)
  have hoperand := decodeOption_coded fun operand h => decodeOperand_coded (hsized operand h)
  exact hop.bind (hoperand.last (.pure _))

theorem decodeBlock_coded {b : Block} (hsized : b.Sized) :
    Coded decodeBlock (encodeBlock b) b := by
  have hcode := decodeList_coded hsized.2.1 fun i hi => decodeInstruction_coded (hsized.2.2 i hi)
  exact (decodeString_coded hsized.1).bind (hcode.last (.pure _))

theorem decodeImage_coded {image : Image} (hsized : image.Sized) :
    Coded decodeImage (encodeImage image) image := by
  have hblocks := decodeList_coded hsized.1.1 fun b hb => decodeBlock_coded (hsized.1.2 b hb)
  have hdiagnostics := decodeList_coded hsized.2.1 fun d hd =>
    (decodeString_coded (hsized.2.2 d hd)).map Diagnostic.mk
  exact hblocks.bind (hdiagnostics.last (.pure _))

end Wire

/-! ## Round trips -/

/-- Programs and compiled programs are read back from their binary form, whatever bytes
follow it. -/
theorem ofBytes_toBytes :
    (∀ p : Program, p.Sized → ∀ junk, Program.ofBytes (p.toBytes ++ junk) = .ok p) ∧
      ∀ image : Image, image.Sized → ∀ junk, Image.ofBytes (image.toBytes ++ junk) = .ok image := by
  constructor
  · intro p hp junk
    unfold Program.ofBytes Program.toBytes
    rw [(Wire.decodeProgram_coded hp).reads]
    rfl
  · intro image himage junk
    unfold Image.ofBytes Image.toBytes
    rw [(Wire.decodeImage_coded himage).reads]
    rfl

theorem Demo.program_sized : Demo.program.Sized := by
  simp [Demo.program, Demo.area, Demo.paint, Program.Sized, Stmt.AllSized, Stmt.Sized,
    VarDecl.Sized, Assignment.Sized, Expr.Sized, Expr.AllSized, Expr.int, Value.Sized, TextSized]
  decide

/-- A compiled program that no compilation makes: it pushes an unusual NaN, jumps backwards
out of its block, and calls what is still held free. -/
def Image.odd : Image where
  blocks := [⟨"Ω", [.push (.float 0xFFF8000000000001), ⟨.jmp, some (.pc (-3))⟩,
    ⟨.call, some .reserved⟩, .address .st 18446744073709551615 0]⟩]
  diagnostics := [⟨"odd"⟩]

theorem Image.odd_sized : Image.odd.Sized := by
  simp [Image.odd, Image.Sized, Block.Sized, Operand.Sized, Value.Sized, TextSized,
    Instruction.push, Instruction.address]
  decide

theorem demo_and_odd_roundTrip :
    (Demo.program.Sized ∧ Program.ofBytes (Demo.program.toBytes ++ [255]) = .ok Demo.program) ∧
      Image.odd.Sized ∧ Image.ofBytes (Image.odd.toBytes ++ [255]) = .ok Image.odd :=
  ⟨⟨Demo.program_sized, ofBytes_toBytes.1 _ Demo.program_sized [255]⟩,
    Image.odd_sized, ofBytes_toBytes.2 _ Image.odd_sized [255]⟩

/-- Of the binary form of a program or a compiled program, nothing less than the whole is
accepted: every beginning is too short, and no other fault is found in it. -/
theorem ofBytes_cut :
    (∀ p : Program, p.Sized → ∀ part, part <+: p.toBytes → part ≠ p.toBytes →
        Program.ofBytes part = .error .unexpectedEnd) ∧
      ∀ image : Image, image.Sized → ∀ part, part <+: image.toBytes → part ≠ image.toBytes →
        Image.ofBytes part = .error .unexpectedEnd := by
  constructor
  · intro p hp part hpart hne
    unfold Program.ofBytes
    rw [(Wire.decodeProgram_coded hp).ends hpart hne]
    rfl
  · intro image himage part hpart hne
    unfold Image.ofBytes
    rw [(Wire.decodeImage_coded himage).ends hpart hne]
    rfl

theorem demo_and_odd_cut :
    Program.ofBytes Demo.program.toBytes.dropLast = .error .unexpectedEnd ∧
      Image.ofBytes Image.odd.toBytes.dropLast = .error .unexpectedEnd := by
  have hshorter : ∀ bytes : List UInt8, bytes ≠ [] → bytes.dropLast ≠ bytes := by
    intro bytes hne heq
    have hlen := congrArg List.length heq
    have hpos := List.length_pos_iff.mpr hne
    rw [List.length_dropLast] at hlen
    omega
  constructor
  · exact ofBytes_cut.1 _ Demo.program_sized _ (List.dropLast_prefix _)
      (hshorter _ (by simp [Program.toBytes, Wire.encodeProgram]))
  · exact ofBytes_cut.2 _ Image.odd_sized _ (List.dropLast_prefix _)
      (hshorter _ (by simp [Image.toBytes, Wire.encodeImage, Wire.encodeList]))

end PadCompiler
