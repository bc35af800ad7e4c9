import PadCompiler.Proofs.Frames

/-!
# PadCompiler.Proofs.Translation

The translation of statements as a relation, with one rule for each way to make code.
Facts about all code that is ever made are then proved by induction on the rules.

* `ExprCode`, `Laid` — the rules of expressions and of statements;
* `Layout.expr_outcome`, `Layout.stmts_follows` — the layout follows the rules, and fails
  only with a report about the program or where a scope needs more slots than there are
  words.
-/

namespace PadCompiler

/-! ## Outcomes -/

/-- Errors that tell what is wrong with a program.  The others tell that the compiler went
wrong. -/
def CompileError.isReport : CompileError → Bool
  | .verify _ | .internal _ | .fault _ => false
  | _ => true

/-- Either a result for which `P` holds, or a report, or the one fault that `excess` excuses. -/
def Outcome (excess : Prop) (r : Except CompileError α) (P : α → Prop) : Prop :=
  match r with
  | .ok a => P a
  | .error e => e.isReport = true ∨ e = .fault .addOverflow ∧ excess

section

variable {excess excess' : Prop} {P : α → Prop} {Q : β → Prop}

theorem Outcome.bind {x : Except CompileError α} {f : α → Except CompileError β}
    (hx : Outcome excess x P) (hf : ∀ a, P a → Outcome excess (f a) Q) :
    Outcome excess (x >>= f) Q := by
  cases x with
  | ok a => exact hf a hx
  | error e => exact hx

theorem Outcome.excused {x : Except CompileError α} (hx : Outcome excess x P)
    (hexcess : excess → excess') : Outcome excess' x P := by
  cases x with
  | ok a => exact hx
  | error e => exact hx.imp_right (And.imp_right hexcess)

/-- A result is the result. -/
theorem Outcome.result {x : Except CompileError α} (hx : Outcome excess x fun _ => True) :
    Outcome excess x fun a => x = .ok a := by
  cases x with
  | ok a => rfl
  | error e => exact hx

theorem Outcome.report {e : CompileError} (he : e.isReport = true) :
    Outcome excess (.error e) P :=
  .inl he

end

/-! ## Expressions -/

/-- A literal index that passes the check lies in the array. -/
theorem checkBounds_eq_ok {name : String} {index : Int64} {length offset : Nat}
    (h : checkBounds name index length = .ok offset) :
    index.toInt = offset ∧ offset < length := by
  unfold checkBounds at h
  split at h
  · contradiction
  · injection h with h
    omega

mutual
/-- The code of an expression. -/
inductive ExprCode (find : Lookup) : Expr → List Instruction → Prop
  | literal (value : Value) : ExprCode find (.literal value) [.push value]
  | padWidth : ExprCode find .padWidth [.plain .width]
  | padHeight : ExprCode find .padHeight [.plain .height]
  | ident {name slot depth} (hfind : find name = .ok (.scalar slot, depth)) :
    ExprCode find (.ident name) [.address .push slot depth]
  | randomInt {bound code} (hbound : ExprCode find bound code) :
    ExprCode find (.randomInt bound) (code ++ [.plain .irnd])
  | binary {op opcode lhs rhs left right} (hop : op.opcode? = some opcode)
    (hright : ExprCode find rhs right) (hleft : ExprCode find lhs left) :
    ExprCode find (.binary op lhs rhs) (right ++ left ++ [.plain opcode])
  | unsupported {op} (lhs rhs : Expr) (hop : op.opcode? = none) :
    ExprCode find (.binary op lhs rhs) []
  | call {name label depth args code}
    (hfind : find name = .ok (.function label args.length, depth))
    (hargs : ArgsCode find args code) :
    ExprCode find (.call name args)
      (code ++ [.pushNat args.length, .label label, .plain .call])
  | element {name base length depth index i offset}
    (hfind : find name = .ok (.array base length, depth))
    (hindex : index.literalInt? = some i) (hoffset : checkBounds name i length = .ok offset) :
    ExprCode find (.index name index)
      [.pushNat 1, .address .pushA (base + offset) depth]
  | computed {name base length depth index code}
    (hfind : find name = .ok (.array base length, depth)) (hlit : index.literalInt? = none)
    (hindex : ExprCode find index code) :
    ExprCode find (.index name index) (code ++ [.address .pushOffset base depth])

/-- The code of expressions, the last one first. -/
inductive ArgsCode (find : Lookup) : List Expr → List Instruction → Prop
  | nil : ArgsCode find [] []
  | cons {e es first others} (hothers : ArgsCode find es others) (hfirst : ExprCode find e first) :
    ArgsCode find (e :: es) (others ++ first)
end

/-- The code of expressions in order. -/
inductive InOrderCode (find : Lookup) : List Expr → List Instruction → Prop
  | nil : InOrderCode find [] []
  | cons {e es first others} (hfirst : ExprCode find e first)
    (hothers : InOrderCode find es others) : InOrderCode find (e :: es) (first ++ others)

/-- A look-up fails only with reports. -/
def Lookup.Reports (find : Lookup) : Prop :=
  ∀ name, Outcome False (find name) fun found => find name = .ok found

theorem findIn_reports (fs : List Frame) : (findIn fs).Reports := by
  intro name
  suffices h : ∀ hops, Outcome False (findFrom name hops fs) fun _ => True from (h 0).result
  induction fs with
  | nil => exact fun hops => .report rfl
  | cons f fs ih =>
      intro hops
      rw [findFrom]
      cases f.names.lookup name with
      | some storage => trivial
      | none => exact ih (hops + 1)

namespace Layout

variable {find : Lookup}

theorem scalar_outcome (hfind : find.Reports) (name : String) :
    Outcome False (scalar find name) fun (slot, depth) =>
      find name = .ok (.scalar slot, depth) := by
  refine .bind (hfind name) fun found hfound => ?_
  obtain ⟨storage, depth⟩ := found
  cases storage with
  | scalar slot => exact hfound
  | array base length => exact .report rfl
  | function label arity => exact .report rfl

theorem array_outcome (hfind : find.Reports) (name : String) :
    Outcome False (array find name) fun a =>
      find name = .ok (.array a.base a.length, a.depth) := by
  refine .bind (hfind name) fun found hfound => ?_
  obtain ⟨storage, depth⟩ := found
  cases storage with
  | scalar slot => exact .report rfl
  | array base length => exact hfound
  | function label arity => exact .report rfl

theorem function_outcome (hfind : find.Reports) (name : String) :
    Outcome False (function find name) fun (label, arity) =>
      ∃ depth, find name = .ok (.function label arity, depth) := by
  refine .bind (hfind name) fun found hfound => ?_
  obtain ⟨storage, depth⟩ := found
  cases storage with
  | scalar slot => exact .report rfl
  | array base length => exact .report rfl
  | function label arity => exact ⟨depth, hfound⟩

theorem checkBounds_outcome (name : String) (index : Int64) (length : Nat) :
    Outcome False (checkBounds name index length) fun offset =>
      checkBounds name index length = .ok offset := by
  refine Outcome.result ?_
  unfold checkBounds
  split
  · exact .report rfl
  · trivial

mutual
/-- The layout of an expression follows the rules or fails with a report. -/
theorem expr_outcome (hfind : find.Reports) : (e : Expr) →
    Outcome False (expr find e) (ExprCode find e)
  | .literal value => by
      rw [expr]
      exact ExprCode.literal value
  | .padWidth => by
      rw [expr]
      exact ExprCode.padWidth
  | .padHeight => by
      rw [expr]
      exact ExprCode.padHeight
  | .ident name => by
      rw [expr]
      refine .bind (scalar_outcome hfind name) ?_
      rintro ⟨slot, depth⟩ hname
      exact ExprCode.ident hname
  | .randomInt bound => by
      rw [expr]
      refine .bind (expr_outcome hfind bound) fun code hbound => ?_
      exact ExprCode.randomInt hbound
  | .binary op lhs rhs => by
      rw [expr]
      refine .bind (expr_outcome hfind rhs) fun right hright => ?_
      refine .bind (expr_outcome hfind lhs) fun left hleft => ?_
      cases hop : op.opcode? with
      | some opcode => exact ExprCode.binary hop hright hleft
      | none => exact ExprCode.unsupported lhs rhs hop
  | .call name args => by
      rw [expr]
      refine .bind (function_outcome hfind name) ?_
      rintro ⟨label, arity⟩ ⟨depth, hname⟩
      by_cases harity : arity = args.length
      · subst harity
        dsimp only
        rw [if_neg (not_not_intro rfl)]
        refine .bind (reversed_outcome hfind args) fun code hargs => ?_
        exact ExprCode.call hname hargs
      · dsimp only
        rw [if_pos harity]
        exact .report rfl
  | .index name index => by
      rw [expr]
      refine .bind (array_outcome hfind name) fun array hname => ?_
      cases hindex : index.literalInt? with
      | some i =>
          refine .bind (checkBounds_outcome name i array.length) fun offset hoffset => ?_
          exact ExprCode.element hname hindex hoffset
      | none =>
          refine .bind (expr_outcome hfind index) fun code hcode => ?_
          exact ExprCode.computed hname hindex hcode

theorem reversed_outcome (hfind : find.Reports) : (es : List Expr) →
    Outcome False (reversed find es) (ArgsCode find es)
  | [] => by
      rw [reversed]
      exact ArgsCode.nil
  | e :: es => by
      rw [reversed]
      refine .bind (reversed_outcome hfind es) fun others hothers => ?_
      refine .bind (expr_outcome hfind e) fun first hfirst => ?_
      exact ArgsCode.cons hothers hfirst
end

theorem inOrder_outcome (hfind : find.Reports) (es : List Expr) :
    Outcome False (inOrder find es) (InOrderCode find es) := by
  induction es with
  | nil => exact InOrderCode.nil
  | cons e es ih =>
      rw [inOrder]
      refine .bind (expr_outcome hfind e) fun first hfirst => ?_
      refine .bind ih fun others hothers => ?_
      exact InOrderCode.cons hfirst hothers

end Layout

/-! ## Slots -/

/-- The length that an array size spells out. -/
def Expr.spelledLength (size : Expr) : Nat :=
  size.literalInt?.elim 0 (·.toInt.toNat)

/-- The slots that a statement takes of the scope it stands in. -/
def Stmt.slots : Stmt → Nat
  | .varDecl _ => 1
  | .arrayDecl _ _ size _ => size.spelledLength
  | _ => 0

/-- The slots that statements take of the scope they stand in. -/
def Stmt.listSlots : List Stmt → Nat
  | [] => 0
  | s :: ss => s.slots + Stmt.listSlots ss

mutual
/-- For each scope inside a statement, how many slots it takes. -/
def Stmt.scopeTotals : Stmt → List Nat
  | .conditional _ body none => Stmt.listSlots body :: Stmt.listTotals body
  | .conditional _ body (some otherwise) =>
    Stmt.listSlots body :: Stmt.listSlots otherwise ::
      (Stmt.listTotals body ++ Stmt.listTotals otherwise)
  | .whileLoop _ body => Stmt.listSlots body :: Stmt.listTotals body
  | .forLoop init _ _ body =>
    (init.toList.length + Stmt.listSlots body) :: Stmt.listTotals body
  | .block body => Stmt.listSlots body :: Stmt.listTotals body
  | .function _ params _ body =>
    (params.length + Stmt.listSlots body) :: Stmt.listTotals body
  | _ => []

/-- For each scope inside statements, how many slots it takes. -/
def Stmt.listTotals : List Stmt → List Nat
  | [] => []
  | s :: ss => s.scopeTotals ++ Stmt.listTotals ss
end

/-- For each scope of a program, how many slots it takes: the top-level one first. -/
def Program.slotTotals (p : Program) : List Nat :=
  Stmt.listSlots p.statements :: Stmt.listTotals p.items

/-! ## Statements -/

/-- The parts of a loop. -/
structure LoopParts where
  init : Option VarDecl
  test : Expr
  step : Option Assignment
  body : List Stmt

/-- The parts of a statement that is a loop. -/
def Stmt.loop? : Stmt → Option LoopParts
  | .whileLoop test body => some ⟨none, test, none, body⟩
  | .forLoop init test step body => some ⟨init, test, step, body⟩
  | _ => none

/-- The declaration that a loop starts with. -/
def LoopParts.start (l : LoopParts) : List Stmt :=
  l.init.toList.map .varDecl

/-- The assignment that ends each turn of a loop. -/
def LoopParts.advance (l : LoopParts) : List Stmt :=
  l.step.toList.map .assign

@[simp] theorem LoopParts.listSlots_start (l : LoopParts) :
    Stmt.listSlots l.start = l.init.toList.length := by
  rw [LoopParts.start]
  cases l.init <;> rfl

@[simp] theorem LoopParts.listSlots_advance (l : LoopParts) : Stmt.listSlots l.advance = 0 := by
  rw [LoopParts.advance]
  cases l.step <;> rfl

@[simp] theorem LoopParts.listTotals_start (l : LoopParts) : Stmt.listTotals l.start = [] := by
  rw [LoopParts.start]
  cases l.init <;> simp [Stmt.listTotals, Stmt.scopeTotals]

@[simp] theorem LoopParts.listTotals_advance (l : LoopParts) :
    Stmt.listTotals l.advance = [] := by
  rw [LoopParts.advance]
  cases l.step <;> simp [Stmt.listTotals, Stmt.scopeTotals]

/-- The expression that a statement puts out, with the opcodes for a value and for a whole
array. -/
def Stmt.output? : Stmt → Option (Expr × Opcode × Opcode)
  | .print value => some (value, .print, .printA)
  | .ret value => some (value, .ret, .reta)
  | _ => none

/-- The operands and the opcode of a statement that applies one opcode to values. -/
def Stmt.operation? : Stmt → Option (List Expr × Opcode)
  | .delay duration => some ([duration], .delay)
  | .write x y color => some ([x, y, color], .write)
  | .writeBox x y width height color => some ([x, y, width, height, color], .writeBox)
  | _ => none

/-- The code of statements in the scope of frame `f` inside the frames `fs`, and the frame
with what they declare. -/
inductive Laid : (fs : List Frame) → (f : Frame) → List Stmt → List Instruction → Frame → Prop
  | nil (fs f) : Laid fs f [] [] f
  | cons {fs f g h s ss first others} (hfirst : Laid fs f [s] first g)
    (hothers : Laid fs g ss others h) : Laid fs f (s :: ss) (first ++ others) h
  | varDecl {fs f init} {decl : VarDecl}
    (hinit : ExprCode (findIn (f :: fs)) decl.init init) :
    Laid fs f [.varDecl decl] (init ++ [.pushNat f.used, .pushNat 0, .plain .st])
      (f.add decl.name 1 .scalar)
  | assign {fs f value slot depth} {a : Assignment}
    (hvalue : ExprCode (findIn (f :: fs)) a.value value)
    (hfind : findIn (f :: fs) a.name = .ok (.scalar slot, depth)) :
    Laid fs f [.assign a] (value ++ [.pushNat slot, .pushNat depth, .plain .st]) f
  | arrayFilled {name ty size length} (fs f)
    (hlength : Generator.arrayLength name size = .ok length) :
    Laid fs f [.arrayDecl name ty size []]
      ([.pushNat length, .push ty.zero, .plain .dupa] ++
        [.pushNat length, .pushNat f.used, .pushNat 0, .plain .sta])
      (f.add name length (.array · length))
  | arrayListed {fs f name ty size es values}
    (hlength : Generator.arrayLength name size = .ok es.length)
    (hvalues : ArgsCode (findIn (f :: fs)) es values) :
    Laid fs f [.arrayDecl name ty size es]
      (values ++ [.pushNat es.length, .pushNat f.used, .pushNat 0, .plain .sta])
      (f.add name es.length (.array · es.length))
  | setElement {fs f name index value i offset base length depth code}
    (hvalue : ExprCode (findIn (f :: fs)) value code)
    (hfind : findIn (f :: fs) name = .ok (.array base length, depth))
    (hindex : index.literalInt? = some i) (hoffset : checkBounds name i length = .ok offset) :
    Laid fs f [.arrayAssign name index value]
      (code ++ [.pushNat 1, .pushNat (base + offset), .pushNat depth, .plain .sta]) f
  | setComputed {fs f name index value base length depth code slot}
    (hvalue : ExprCode (findIn (f :: fs)) value code)
    (hfind : findIn (f :: fs) name = .ok (.array base length, depth))
    (hlit : index.literalInt? = none) (hindex : ExprCode (findIn (f :: fs)) index slot) :
    Laid fs f [.arrayAssign name index value]
      (code ++ .pushNat 1 :: slot ++
        [.pushNat base, .plain .add, .pushNat depth, .plain .sta]) f
  | outputArray {fs f s name op arrayOp base length depth}
    (hs : s.output? = some (.ident name, op, arrayOp))
    (hfind : findIn (f :: fs) name = .ok (.array base length, depth)) :
    Laid fs f [s] [.pushNat length, .address .pushA base depth, .pushNat length,
      .plain arrayOp] f
  | output {fs f s e op arrayOp value} (hs : s.output? = some (e, op, arrayOp))
    (hvalue : ExprCode (findIn (f :: fs)) e value) : Laid fs f [s] (value ++ [.plain op]) f
  | operation {fs f s es op values} (hs : s.operation? = some (es, op))
    (hvalues : InOrderCode (findIn (f :: fs)) es values) :
    Laid fs f [s] (values ++ [.plain op]) f
  | block {fs f g body code} (hbody : Laid (f :: fs) {} body code g) :
    Laid fs f [.block body] (framed g.used code) f
  | conditional {fs f g test body testCode code}
    (htest : ExprCode (findIn ({} :: f :: fs)) test testCode)
    (hbody : Laid (f :: fs) {} body code g) :
    Laid fs f [.conditional test body none] (conditionalCode g.used testCode code) f
  | alternative {fs f g h test body otherwise testCode code elseCode}
    (htest : ExprCode (findIn ({} :: f :: fs)) test testCode)
    (hbody : Laid (f :: fs) {} body code g)
    (hotherwise : Laid (f :: fs) {} otherwise elseCode h) :
    Laid fs f [.conditional test body (some otherwise)]
      (alternativeCode (Nat.max g.used h.used) testCode code elseCode) f
  | loop {fs f g h k s initCode testCode code stepCode} {l : LoopParts} (hs : s.loop? = some l)
    (hinit : Laid (f :: fs) {} l.start initCode g)
    (htest : ExprCode (findIn (g :: f :: fs)) l.test testCode)
    (hbody : Laid (f :: fs) g l.body code h)
    (hstep : Laid (f :: fs) h l.advance stepCode k) :
    Laid fs f [s] (loopCode k.used initCode testCode code stepCode) f

/-- An array size that is taken spells the length out. -/
theorem arrayLength_eq_ok {name : String} {size : Expr} {length : Nat}
    (h : Generator.arrayLength name size = .ok length) :
    size.spelledLength = length ∧ 0 < length := by
  unfold Generator.arrayLength at h
  rw [Expr.spelledLength]
  cases hsize : size.literalInt? with
  | none =>
      rw [hsize] at h
      contradiction
  | some n =>
      simp only [hsize] at h
      split at h
      · injection h with h
        exact ⟨h, by omega⟩
      · contradiction

theorem arrayLength_outcome (name : String) (size : Expr) :
    Outcome False (Generator.arrayLength name size) fun length =>
      Generator.arrayLength name size = .ok length := by
  refine Outcome.result ?_
  unfold Generator.arrayLength
  cases size.literalInt? with
  | none => exact .report rfl
  | some n =>
      dsimp only
      split
      · trivial
      · exact .report rfl

theorem Stmt.slots_of_loop? {s : Stmt} {l : LoopParts} (hs : s.loop? = some l) : s.slots = 0 := by
  cases s with
  | whileLoop test body => rfl
  | forLoop init test step body => rfl
  | _ => contradiction

theorem Stmt.slots_of_output? {s : Stmt} {o : Expr × Opcode × Opcode} (hs : s.output? = some o) :
    s.slots = 0 := by
  cases s with
  | print value => rfl
  | ret value => rfl
  | _ => contradiction

theorem Stmt.slots_of_operation? {s : Stmt} {o : List Expr × Opcode}
    (hs : s.operation? = some o) : s.slots = 0 := by
  cases s with
  | delay duration => rfl
  | write x y color => rfl
  | writeBox x y width height color => rfl
  | _ => contradiction

/-- Statements take the slots that they declare and no others. -/
theorem Laid.used {fs : List Frame} {f g : Frame} {ss : List Stmt} {code : List Instruction}
    (h : Laid fs f ss code g) : g.used = f.used + Stmt.listSlots ss := by
  induction h with
  | nil fs f => rfl
  | cons hfirst hothers ihFirst ihOthers =>
      simp only [Stmt.listSlots] at ihFirst ihOthers ⊢
      omega
  | varDecl hinit => rfl
  | arrayFilled fs f hlength =>
      simp [Frame.add, Stmt.listSlots, Stmt.slots, (arrayLength_eq_ok hlength).1]
  | arrayListed hlength hvalues =>
      simp [Frame.add, Stmt.listSlots, Stmt.slots, (arrayLength_eq_ok hlength).1]
  | outputArray hs hfind => simp [Stmt.listSlots, Stmt.slots_of_output? hs]
  | output hs hvalue => simp [Stmt.listSlots, Stmt.slots_of_output? hs]
  | operation hs hvalues => simp [Stmt.listSlots, Stmt.slots_of_operation? hs]
  | loop hs hinit htest hbody hstep => simp [Stmt.listSlots, Stmt.slots_of_loop? hs]
  | _ => rfl

/-- Statements add names and forget none. -/
theorem Laid.names {fs : List Frame} {f g : Frame} {ss : List Stmt} {code : List Instruction}
    (h : Laid fs f ss code g) : ∃ new, g.names = new ++ f.names := by
  induction h with
  | cons hfirst hothers ihFirst ihOthers =>
      obtain ⟨new, hnew⟩ := ihFirst
      obtain ⟨newer, hnewer⟩ := ihOthers
      exact ⟨newer ++ new, by rw [hnewer, hnew, List.append_assoc]⟩
  | varDecl hinit => exact ⟨[_], rfl⟩
  | arrayFilled fs f hlength => exact ⟨[_], rfl⟩
  | arrayListed hlength hvalues => exact ⟨[_], rfl⟩
  | _ => exact ⟨[], rfl⟩

/-- Names are put on slots one after the other. -/
theorem Laid.stacked {fs : List Frame} {f g : Frame} {ss : List Stmt} {code : List Instruction}
    (h : Laid fs f ss code g) (hf : Stacked f.names f.used) : Stacked g.names g.used := by
  induction h with
  | cons hfirst hothers ihFirst ihOthers => exact ihOthers (ihFirst hf)
  | varDecl hinit => exact .scalar _ hf
  | arrayFilled fs f hlength => exact .array _ (arrayLength_eq_ok hlength).2 hf
  | arrayListed hlength hvalues => exact .array _ (arrayLength_eq_ok hlength).2 hf
  | _ => exact hf

/-! ## The layout follows the rules -/

/-- Some scope of the statements needs more slots than there are words. -/
def Frame.Exceeds (f : Frame) (ss : List Stmt) : Prop :=
  wordLimit ≤ f.used + Stmt.listSlots ss ∨ ∃ n ∈ Stmt.listTotals ss, wordLimit ≤ n

/-- What exceeds the words in a scope inside a statement does so in the statement. -/
theorem Frame.Exceeds.inside {f g : Frame} {stmt : Stmt} {ss : List Stmt} {total : Nat}
    (h : g.Exceeds ss) (htotal : total ∈ stmt.scopeTotals)
    (hle : g.used + Stmt.listSlots ss ≤ total)
    (hsub : ∀ n ∈ Stmt.listTotals ss, n ∈ stmt.scopeTotals) : f.Exceeds [stmt] := by
  refine .inr ?_
  simp only [Stmt.listTotals, List.append_nil]
  rcases h with hlong | ⟨n, hn, hlong⟩
  · exact ⟨total, htotal, by omega⟩
  · exact ⟨n, hsub n hn, hlong⟩

theorem Frame.Exceeds.scoped {f : Frame} {stmt : Stmt} {ss : List Stmt}
    (h : ({} : Frame).Exceeds ss) (hslots : Stmt.listSlots ss ∈ stmt.scopeTotals)
    (hsub : ∀ n ∈ Stmt.listTotals ss, n ∈ stmt.scopeTotals) : f.Exceeds [stmt] :=
  h.inside hslots (Nat.le_of_eq (Nat.zero_add _)) hsub

theorem Stmt.scopeTotals_of_loop? {s : Stmt} {l : LoopParts} (hs : s.loop? = some l) :
    s.scopeTotals =
      (l.init.toList.length + Stmt.listSlots l.body) :: Stmt.listTotals l.body := by
  cases s with
  | whileLoop test body =>
      cases hs
      simp [Stmt.scopeTotals]
  | forLoop init test step body =>
      cases hs
      rw [Stmt.scopeTotals]
  | _ => contradiction

/-- Every scope inside the statements takes fewer slots than there are signed words that are
not negative. -/
def ScopesFit (ss : List Stmt) : Prop :=
  ∀ n ∈ Stmt.listTotals ss, (n : Int) < signedLimit

theorem scopesFit_cons {s : Stmt} {ss : List Stmt} :
    ScopesFit (s :: ss) ↔ (∀ n ∈ s.scopeTotals, (n : Int) < signedLimit) ∧ ScopesFit ss := by
  simp [ScopesFit, Stmt.listTotals, or_imp, forall_and]

theorem scopesFit_one {s : Stmt} :
    ScopesFit [s] ↔ ∀ n ∈ s.scopeTotals, (n : Int) < signedLimit := by
  simp [ScopesFit, Stmt.listTotals]

/-- A scope that fits, and so do those inside it. -/
theorem ScopesFit.inside {s : Stmt} {ss : List Stmt} {total : Nat} (h : ScopesFit [s])
    (htotals : ∀ n ∈ total :: Stmt.listTotals ss, n ∈ s.scopeTotals) :
    (total : Int) < signedLimit ∧ ScopesFit ss := by
  rw [scopesFit_one] at h
  exact ⟨h total (htotals total List.mem_cons_self),
    fun n hn => h n (htotals n (List.mem_cons_of_mem total hn))⟩

section

variable {fs : List Frame} {f g h k : Frame} {s : Stmt} {test : Expr} {body otherwise : List Stmt}
  {code elseCode : List Instruction}

/-- The frame of a scope fits, and so do the scopes inside it. -/
theorem ScopesFit.frame (hfit : ScopesFit [s])
    (hs : s.scopeTotals = Stmt.listSlots body :: Stmt.listTotals body)
    (hbody : Laid (f :: fs) {} body code g) :
    (g.used : Int) < signedLimit ∧ ScopesFit body := by
  have hused : g.used = Stmt.listSlots body := by simp [hbody.used]
  rw [hused]
  exact hfit.inside fun n hn => hs ▸ hn

/-- The frame that two branches share fits, and so do the scopes inside them. -/
theorem ScopesFit.alternative
    (hfit : ScopesFit [.conditional test body (some otherwise)])
    (hbody : Laid (f :: fs) {} body code g) (hotherwise : Laid (f :: fs) {} otherwise elseCode h) :
    (Nat.max g.used h.used : Int) < signedLimit ∧ ScopesFit body ∧ ScopesFit otherwise := by
  obtain ⟨htotal, hinside⟩ := hfit.inside fun n hn => by
    simp only [Stmt.scopeTotals, List.mem_cons, List.mem_append] at hn ⊢
    exact hn.imp id fun hn => .inr (.inl hn)
  obtain ⟨htotal', hinside'⟩ := hfit.inside fun n hn => by
    simp only [Stmt.scopeTotals, List.mem_cons, List.mem_append] at hn ⊢
    exact .inr (hn.imp id .inr)
  have hused : g.used = Stmt.listSlots body := by simp [hbody.used]
  have hused' : h.used = Stmt.listSlots otherwise := by simp [hotherwise.used]
  refine ⟨?_, hinside, hinside'⟩
  rcases Nat.le_total g.used h.used with hle | hle
  · have hmax : Nat.max g.used h.used = h.used := Nat.max_eq_right hle
    omega
  · have hmax : Nat.max g.used h.used = g.used := Nat.max_eq_left hle
    omega

/-- The frame of a loop fits, and so do the scopes inside its body. -/
theorem ScopesFit.loop {l : LoopParts} {initCode stepCode : List Instruction}
    (hfit : ScopesFit [s]) (hs : s.loop? = some l) (hinit : Laid (f :: fs) {} l.start initCode g)
    (hbody : Laid (f :: fs) g l.body code h) (hstep : Laid (f :: fs) h l.advance stepCode k) :
    (k.used : Int) < signedLimit ∧ ScopesFit l.body := by
  have hused : k.used = l.init.toList.length + Stmt.listSlots l.body := by
    rw [hstep.used, hbody.used, hinit.used]
    simp
  rw [hused]
  exact hfit.inside fun n hn => Stmt.scopeTotals_of_loop? hs ▸ hn

end

/-- From every scope stack, a layout makes the code that the rules give for statements. -/
def Follows (layout : Layout ScopeStack) (ss : List Stmt) : Prop :=
  ∀ ⦃fs f s⦄, Represents s (f :: fs) →
    Outcome (f.Exceeds ss) (layout s) fun (code, s') =>
      ∃ g, Laid fs f ss code g ∧ Represents s' (g :: fs)

namespace Follows

theorem varDecl (decl : VarDecl) : Follows (Layout.varDecl decl) [.varDecl decl] := by
  intro fs f s hs
  rw [Layout.varDecl, hs.find]
  have hinit := Layout.expr_outcome (findIn_reports (f :: fs)) decl.init
  refine .bind (hinit.excused False.elim) fun init hinit => ?_
  rcases hs.scalar decl.name decl.ty decl.init.lowered with
    ⟨s', hscalar, hs'⟩ | ⟨hscalar, hlong⟩
  · rw [hscalar]
    exact ⟨_, .varDecl hinit, hs'⟩
  · rw [hscalar]
    exact .inr ⟨rfl, .inl hlong⟩

theorem assign (a : Assignment) : Follows (Layout.assign a) [.assign a] := by
  intro fs f s hs
  rw [Layout.assign, hs.find]
  have hvalue := Layout.expr_outcome (findIn_reports (f :: fs)) a.value
  refine .bind (hvalue.excused False.elim) fun value hvalue => ?_
  obtain ⟨s', hs', hassign⟩ := hs.assign a.name a.value.lowered
  have hname : Outcome (f.Exceeds [.assign a]) (findIn (f :: fs) a.name) _ :=
    (findIn_reports (f :: fs) a.name).excused False.elim
  rw [hassign]
  cases hfind : findIn (f :: fs) a.name with
  | error e =>
      rw [hfind] at hname
      exact hname
  | ok found =>
      obtain ⟨storage, depth⟩ := found
      cases storage with
      | scalar slot => exact ⟨f, .assign hvalue hfind, hs'⟩
      | array base length => exact .report rfl
      | function label arity => exact .report rfl

theorem arrayDecl (name : String) (ty : Ty) (size : Expr) (es : List Expr) :
    Follows (Layout.arrayDecl name ty size es) [.arrayDecl name ty size es] := by
  intro fs f s hs
  rw [Layout.arrayDecl, hs.find]
  refine .bind ((arrayLength_outcome name size).excused False.elim) fun length hlength => ?_
  have hexceeds : wordLimit ≤ f.used + length →
      f.Exceeds [.arrayDecl name ty size es] := by
    intro hlong
    simpa [Frame.Exceeds, Stmt.listSlots, Stmt.slots, (arrayLength_eq_ok hlength).1]
      using .inl hlong
  have hdeclared : ∀ {values}, Laid fs f [.arrayDecl name ty size es]
        (values ++ [.pushNat length, .pushNat f.used, .pushNat 0, .plain .sta])
        (f.add name length (.array · length)) →
      Outcome (f.Exceeds [.arrayDecl name ty size es]) (do
        let made ← Scoping.array s name ty length
        pure (values ++ [.pushNat length, .pushNat made.1, .pushNat 0, .plain .sta], made.2))
        fun (code, s') => ∃ g, Laid fs f [.arrayDecl name ty size es] code g ∧
          Represents s' (g :: fs) := by
    intro values hlaid
    rcases hs.array name ty length with ⟨s', harray, hs'⟩ | ⟨harray, hlong⟩
    · rw [harray]
      exact ⟨_, hlaid, hs'⟩
    · rw [harray]
      exact .inr ⟨rfl, hexceeds hlong⟩
  rw [Layout.elements]
  cases es with
  | nil => exact hdeclared (.arrayFilled fs f hlength)
  | cons e es =>
      by_cases hcount : (e :: es).length = length
      · subst hcount
        have hvalues := Layout.reversed_outcome (findIn_reports (f :: fs)) (e :: es)
        rw [if_neg (by simp), if_neg (not_not_intro rfl)]
        refine .bind (hvalues.excused False.elim) fun values hvalues => ?_
        exact hdeclared (.arrayListed hlength hvalues)
      · rw [if_neg (by simp), if_pos hcount]
        exact .report rfl

theorem arrayAssign (name : String) (index value : Expr) :
    Follows (Layout.arrayAssign name index value) [.arrayAssign name index value] := by
  intro fs f s hs
  have hfind := findIn_reports (f :: fs)
  refine Outcome.excused ?_ (False.elim : False → _)
  rw [Layout.arrayAssign, hs.find]
  refine .bind (Layout.expr_outcome hfind value) fun code hvalue => ?_
  refine .bind (Layout.array_outcome hfind name) fun array harray => ?_
  rw [Layout.elementSlot]
  cases hindex : index.literalInt? with
  | some i =>
      refine .bind (P := fun slot => ∃ offset, checkBounds name i array.length = .ok offset ∧
        slot = [.pushNat (array.base + offset)]) ?_ ?_
      · exact .bind (Layout.checkBounds_outcome name i array.length) fun offset h =>
          ⟨offset, h, rfl⟩
      · rintro _ ⟨offset, hoffset, rfl⟩
        refine ⟨f, ?_, hs⟩
        simpa using Laid.setElement hvalue harray hindex hoffset
  | none =>
      refine .bind (P := fun slot => ∃ indexCode,
        ExprCode (findIn (f :: fs)) index indexCode ∧
        slot = indexCode ++ [.pushNat array.base, .plain .add]) ?_ ?_
      · exact .bind (Layout.expr_outcome hfind index) fun indexCode h => ⟨indexCode, h, rfl⟩
      · rintro _ ⟨indexCode, hcode, rfl⟩
        refine ⟨f, ?_, hs⟩
        simpa using Laid.setComputed hvalue harray hindex hcode

theorem output {stmt : Stmt} {e : Expr} {op arrayOp : Opcode}
    (hstmt : stmt.output? = some (e, op, arrayOp)) :
    Follows (Layout.output e op arrayOp) [stmt] := by
  intro fs f s hs
  have hfind := findIn_reports (f :: fs)
  refine Outcome.excused ?_ (False.elim : False → _)
  rw [Layout.output, hs.find]
  cases harray : Layout.arrayIdent (findIn (f :: fs)) e with
  | none =>
      refine .bind (Layout.expr_outcome hfind e) fun value hvalue => ?_
      exact ⟨f, .output hstmt hvalue, hs⟩
  | some array =>
      cases e with
      | ident name =>
          rw [Layout.arrayIdent] at harray
          cases hname : Layout.array (findIn (f :: fs)) name with
          | error err =>
              rw [hname] at harray
              contradiction
          | ok a =>
              rw [hname] at harray
              cases harray
              exact ⟨f, .outputArray hstmt (Layout.array_eq_ok hname), hs⟩
      | _ => contradiction

theorem operation {stmt : Stmt} {es : List Expr} {op : Opcode}
    (hstmt : stmt.operation? = some (es, op)) :
    Follows (Layout.operation es op) [stmt] := by
  intro fs f s hs
  refine Outcome.excused ?_ (False.elim : False → _)
  rw [Layout.operation, hs.find]
  refine .bind (Layout.inOrder_outcome (findIn_reports (f :: fs)) es) fun values hvalues => ?_
  exact ⟨f, .operation hstmt hvalues, hs⟩

theorem seq {first others : Layout ScopeStack} {stmt : Stmt} {ss : List Stmt}
    (hfirst : Follows first [stmt]) (hothers : Follows others ss) :
    Follows (Layout.seq first others) (stmt :: ss) := by
  intro fs f s hs
  have hexceeds : f.Exceeds [stmt] → f.Exceeds (stmt :: ss) := by
    rintro (hlong | ⟨n, hn, hlong⟩)
    · simp only [Stmt.listSlots] at hlong
      exact .inl (by simp only [Stmt.listSlots]; omega)
    · refine .inr ⟨n, ?_, hlong⟩
      simp only [Stmt.listTotals, List.append_nil] at hn
      simp [Stmt.listTotals, hn]
  refine .bind ((hfirst hs).excused hexceeds) ?_
  rintro ⟨code, s'⟩ ⟨g, hlaid, hs'⟩
  have hexceeds' : g.Exceeds ss → f.Exceeds (stmt :: ss) := by
    have hused := hlaid.used
    rintro (hlong | ⟨n, hn, hlong⟩)
    · simp only [Stmt.listSlots] at hused
      exact .inl (by simp only [Stmt.listSlots]; omega)
    · exact .inr ⟨n, by simp [Stmt.listTotals, hn], hlong⟩
  refine .bind ((hothers hs').excused hexceeds') ?_
  rintro ⟨code', s''⟩ ⟨h, hlaid', hs''⟩
  exact ⟨h, .cons hlaid hlaid', hs''⟩

theorem optional {part : α → Layout ScopeStack} {stmt : α → Stmt}
    (hpart : ∀ a, Follows (part a) [stmt a]) (o : Option α) :
    Follows (Layout.optional part o) (o.toList.map stmt) := by
  cases o with
  | some a => exact hpart a
  | none => exact fun fs f s hs => ⟨f, .nil fs f, hs⟩

theorem nested {layout : Layout ScopeStack} {body : List Stmt} (hbody : Follows layout body) :
    Follows (Layout.nested layout) [.block body] := by
  intro fs f s hs
  have hexceeds : ({} : Frame).Exceeds body → f.Exceeds [.block body] := fun h =>
    h.scoped (by simp [Stmt.scopeTotals]) fun n hn => by simp [Stmt.scopeTotals, hn]
  refine .bind ((hbody hs.enter).excused hexceeds) ?_
  rintro ⟨code, s'⟩ ⟨g, hlaid, hs'⟩
  obtain ⟨s'', hleave, hs''⟩ := hs'.leave
  dsimp only
  rw [hleave]
  exact ⟨f, .block hlaid, hs''⟩

theorem conditional (test : Expr) {layout : Layout ScopeStack} {body : List Stmt}
    (hbody : Follows layout body) :
    Follows (Layout.conditional test layout) [.conditional test body none] := by
  intro fs f s hs
  have henter := hs.enter
  have htest := Layout.expr_outcome (findIn_reports ({} :: f :: fs)) test
  rw [Layout.conditional, henter.find]
  refine .bind (htest.excused False.elim) fun testCode htest => ?_
  have hexceeds : ({} : Frame).Exceeds body → f.Exceeds [.conditional test body none] := fun h =>
    h.scoped (by simp [Stmt.scopeTotals]) fun n hn => by simp [Stmt.scopeTotals, hn]
  refine .bind ((hbody henter).excused hexceeds) ?_
  rintro ⟨code, s'⟩ ⟨g, hlaid, hs'⟩
  obtain ⟨s'', hleave, hs''⟩ := hs'.leave
  dsimp only
  rw [hleave]
  exact ⟨f, .conditional htest hlaid, hs''⟩

theorem alternative (test : Expr) {layout layout' : Layout ScopeStack}
    {body otherwise : List Stmt} (hbody : Follows layout body)
    (hotherwise : Follows layout' otherwise) :
    Follows (Layout.alternative test layout layout')
      [.conditional test body (some otherwise)] := by
  intro fs f s hs
  have henter := hs.enter
  have htest := Layout.expr_outcome (findIn_reports ({} :: f :: fs)) test
  rw [Layout.alternative, henter.find]
  refine .bind (htest.excused False.elim) fun testCode htest => ?_
  have hexceeds : ({} : Frame).Exceeds body →
      f.Exceeds [.conditional test body (some otherwise)] := fun h =>
    h.scoped (by simp [Stmt.scopeTotals]) fun n hn => by simp [Stmt.scopeTotals, hn]
  refine .bind ((hbody henter).excused hexceeds) ?_
  rintro ⟨code, s'⟩ ⟨g, hlaid, hs'⟩
  have hexceeds' : ({} : Frame).Exceeds otherwise →
      f.Exceeds [.conditional test body (some otherwise)] := fun h =>
    h.scoped (by simp [Stmt.scopeTotals]) fun n hn => by simp [Stmt.scopeTotals, hn]
  dsimp only
  rw [hs'.size]
  refine .bind ((hotherwise hs'.fresh).excused hexceeds') ?_
  rintro ⟨code', s'⟩ ⟨h, hlaid', hs'⟩
  obtain ⟨s'', hleave, hs''⟩ := hs'.leave
  dsimp only
  rw [hleave]
  exact ⟨f, .alternative htest hlaid hlaid', hs''⟩

theorem loop {stmt : Stmt} {l : LoopParts} {layout : Layout ScopeStack}
    (hstmt : stmt.loop? = some l) (hbody : Follows layout l.body) :
    Follows (Layout.loop l.init l.test l.step layout) [stmt] := by
  intro fs f s hs
  have htotals := Stmt.scopeTotals_of_loop? hstmt
  have htotal : l.init.toList.length + Stmt.listSlots l.body ∈ stmt.scopeTotals := by
    simp [htotals]
  have hfirst : Follows (Layout.optional Layout.varDecl l.init) l.start :=
    .optional varDecl l.init
  have hlast : Follows (Layout.optional Layout.assign l.step) l.advance :=
    .optional assign l.step
  have hexceeds : ({} : Frame).Exceeds l.start → f.Exceeds [stmt] := fun h =>
    h.inside htotal (by simp) (by simp)
  refine .bind ((hfirst hs.enter).excused hexceeds) ?_
  rintro ⟨initCode, s⟩ ⟨g, hinit, hs⟩
  have hg : g.used = l.init.toList.length := by simp [hinit.used]
  have htest := Layout.expr_outcome (findIn_reports (g :: f :: fs)) l.test
  dsimp only
  rw [hs.find]
  refine .bind (htest.excused False.elim) fun testCode htest => ?_
  have hexceeds : g.Exceeds l.body → f.Exceeds [stmt] := fun h =>
    h.inside htotal (by omega) (by simp +contextual [htotals])
  refine .bind ((hbody hs).excused hexceeds) ?_
  rintro ⟨code, s⟩ ⟨h, hlaid, hs⟩
  have hexceeds : h.Exceeds l.advance → f.Exceeds [stmt] := fun hlong =>
    hlong.inside htotal (by simp [hlaid.used, hg]) (by simp)
  refine .bind ((hlast hs).excused hexceeds) ?_
  rintro ⟨stepCode, s⟩ ⟨k, hstep, hs⟩
  obtain ⟨s', hleave, hs'⟩ := hs.leave
  dsimp only
  rw [hleave]
  exact ⟨f, .loop hstmt hinit htest hlaid hstep, hs'⟩

end Follows

mutual
/-- The layout of a statement follows the rules. -/
theorem Layout.stmt_follows : (s : Stmt) → Follows (Layout.stmt s) [s]
  | .varDecl decl => by simpa only [Layout.stmt] using Follows.varDecl decl
  | .arrayDecl name ty size es => by
      simpa only [Layout.stmt] using Follows.arrayDecl name ty size es
  | .assign assignment => by simpa only [Layout.stmt] using Follows.assign assignment
  | .arrayAssign name index value => by
      simpa only [Layout.stmt] using Follows.arrayAssign name index value
  | .print value => by simpa only [Layout.stmt] using Follows.output rfl
  | .delay duration => by simpa only [Layout.stmt] using Follows.operation rfl
  | .write x y color => by simpa only [Layout.stmt] using Follows.operation rfl
  | .writeBox x y width height color => by
      simpa only [Layout.stmt] using Follows.operation rfl
  | .conditional test body none => by
      simpa only [Layout.stmt] using Follows.conditional test (Layout.stmts_follows body)
  | .conditional test body (some otherwise) => by
      simpa only [Layout.stmt] using
        Follows.alternative test (Layout.stmts_follows body) (Layout.stmts_follows otherwise)
  | .whileLoop test body => by
      simpa only [Layout.stmt] using
        Follows.loop (l := ⟨none, test, none, body⟩) rfl (Layout.stmts_follows body)
  | .forLoop init test step body => by
      simpa only [Layout.stmt] using
        Follows.loop (l := ⟨init, test, step, body⟩) rfl (Layout.stmts_follows body)
  | .ret value => by simpa only [Layout.stmt] using Follows.output rfl
  | .block body => by simpa only [Layout.stmt] using Follows.nested (Layout.stmts_follows body)
  | .function name params result body => fun fs f s hs => by
      simp only [Layout.stmt, throw_eq_error]
      exact .report rfl

/-- The layout of statements follows the rules. -/
theorem Layout.stmts_follows : (ss : List Stmt) → Follows (Layout.stmts ss) ss
  | [] => fun fs f s hs => by
      simp only [Layout.stmts]
      exact ⟨f, .nil fs f, hs⟩
  | s :: ss => by
      simpa only [Layout.stmts] using .seq (Layout.stmt_follows s) (Layout.stmts_follows ss)
end

end PadCompiler
