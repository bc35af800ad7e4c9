import PadCompiler.Generator.Program

/-!
# PadCompiler.Proofs.Layout

A one-pass reference generator.  It makes the code of a construct from the code
of its parts, so nothing is reserved and nothing is filled in later: every jump
offset is a sum of lengths of parts, and every frame size is known when the
frame is laid out.

* `Layout.expr` — the code of an expression in postfix order, from a look-up
  of names alone;
* `conditionalCode`, `alternativeCode`, `loopCode` — how the constructs put their
  parts together;
* `Layout.stmts` — the code of statements, over any `Scoping`.

`Scoping` lists all that the layout asks of the open scopes.  `ScopeStack` is one
instance; another one may keep less.
-/

namespace PadCompiler

/-! ## Outcomes -/

@[simp] theorem ok_bind (a : α) (f : α → Except ε β) : (Except.ok a >>= f) = f a := rfl

@[simp] theorem error_bind (e : ε) (f : α → Except ε β) :
    ((Except.error e : Except ε α) >>= f) = .error e := rfl

@[simp] theorem throw_eq_error (e : ε) : (throw e : Except ε α) = .error e := rfl

@[simp] theorem mapError_ok (f : ε → δ) (a : α) : (Except.ok a).mapError f = .ok a := rfl

@[simp] theorem mapError_error (f : ε → δ) (e : ε) :
    (Except.error e : Except ε α).mapError f = .error (f e) := rfl

/-- A sequence succeeds when its steps do. -/
theorem bind_eq_ok {x : Except ε α} {f : α → Except ε β} {b : β} :
    (x >>= f) = .ok b ↔ ∃ a, x = .ok a ∧ f a = .ok b := by
  cases x <;> simp

theorem map_eq_ok {x : Except ε α} {f : α → β} {b : β} :
    x.map f = .ok b ↔ ∃ a, x = .ok a ∧ f a = b := by
  cases x <;> simp [Except.map]

theorem mapError_eq_ok {x : Except ε α} {f : ε → δ} {a : α} : x.mapError f = .ok a ↔ x = .ok a := by
  cases x <;> simp

@[simp] theorem pure_eq_ok {a b : α} : (pure a : Except ε α) = .ok b ↔ a = b :=
  ⟨fun h => by cases h; rfl, fun h => by rw [h]; rfl⟩

/-! ## Words -/

/-- Numbers in the range of signed words survive the trip through one. -/
theorem toInt_ofInt_of_lt {n : Int} (hlow : -signedLimit ≤ n) (hhigh : n < signedLimit) :
    (Int64.ofInt n).toInt = n := by
  simp only [signedLimit] at hlow hhigh
  exact Int64.toInt_ofInt_of_le (by omega) (by omega)

theorem toInt_ofNat_of_lt {n : Nat} (h : (n : Int) < signedLimit) :
    (Int64.ofNat n).toInt = n := by
  simp only [signedLimit] at h
  exact Int64.toInt_ofNat_of_lt (by omega)

theorem toNat_ofNat_of_lt {n : Nat} (h : (n : Int) < signedLimit) :
    (UInt64.ofNat n).toNat = n := by
  simp only [signedLimit] at h
  exact UInt64.toNat_ofNat_of_lt' (by simp only [UInt64.size]; omega)

theorem jumpTarget_eq_ok {index : Nat} {offset : Int64} {target : Int}
    (h : jumpTarget index offset = .ok target) : (index : Int) + offset.toInt = target := by
  by_cases hlt : (index : Int) + offset.toInt < signedLimit
  · rw [jumpTarget, if_pos hlt] at h
    exact Except.ok.inj h
  · rw [jumpTarget, if_neg hlt] at h
    contradiction

/-! ## What names stand for -/

/-- Where the thing that a name stands for is kept.  Types and hints play no
part in the code. -/
inductive Storage where
  | scalar (slot : Nat)
  | array (base length : Nat)
  | function (label : String) (arity : Nat)
deriving DecidableEq

/-- The kind of a stored thing. -/
def Storage.kind : Storage → EntityKind
  | .scalar _ => .variable
  | .array .. => .array
  | .function .. => .function

/-- Where a thing is kept. -/
def Entity.storage : Entity → Storage
  | .scalar _ slot _ => .scalar slot
  | .array _ base length => .array base length
  | .function signature => .function signature.label signature.params.length

/-- What a name stands for and how many frames away. -/
abbrev Lookup := String → Except CompileError (Storage × Nat)

/-! ## Expressions -/

/-- How an expression is classified: by its form alone. -/
def Expr.lowered : Expr → Lowered
  | .literal value => .static value
  | .padWidth => .query .width
  | .padHeight => .query .height
  | _ => .dynamic

/-- The warning that an operator raises, if it has no code. -/
def BinaryOp.warnings (op : BinaryOp) : List Diagnostic :=
  match op.opcode? with
  | some _ => []
  | none => [⟨Generator.unsupportedMessage op⟩]

/-- An expression that spells out an integer is a literal. -/
theorem Expr.eq_int_of_literalInt? {e : Expr} {n : Int64} (h : e.literalInt? = some n) :
    e = .literal (.int n) := by
  unfold Expr.literalInt? at h
  split at h
  · rw [Option.some.inj h]
  · contradiction

mutual
/-- The warnings that an expression raises: those of the right operand, of the
left one, then its own. -/
def Expr.warnings : Expr → List Diagnostic
  | .binary op lhs rhs => rhs.warnings ++ lhs.warnings ++ op.warnings
  | .call _ args => Expr.argWarnings args
  | .randomInt bound => bound.warnings
  | .index _ i => i.warnings
  | .literal _ | .ident _ | .padWidth | .padHeight => []

/-- The warnings of expressions, the last one first. -/
def Expr.argWarnings : List Expr → List Diagnostic
  | [] => []
  | e :: es => Expr.argWarnings es ++ e.warnings
end

mutual
/-- The most instructions that an expression takes. -/
def Expr.codeBound : Expr → Nat
  | .binary _ lhs rhs => rhs.codeBound + lhs.codeBound + 1
  | .call _ args => Expr.argsBound args + 3
  | .randomInt bound => bound.codeBound + 1
  | .index _ i => i.codeBound + 1
  | .literal _ | .ident _ | .padWidth | .padHeight => 1

/-- The most instructions that expressions take together. -/
def Expr.argsBound : List Expr → Nat
  | [] => 0
  | e :: es => Expr.argsBound es + e.codeBound
end

namespace Layout

/-- The slot and depth of a variable. -/
def scalar (find : Lookup) (name : String) : Except CompileError (Nat × Nat) := do
  match ← find name with
  | (.scalar slot, depth) => pure (slot, depth)
  | (other, _) => throw (.notA name .variable other.kind)

/-- The place of an array. -/
def array (find : Lookup) (name : String) : Except CompileError ScopeStack.ArrayRef := do
  match ← find name with
  | (.array base length, depth) => pure ⟨base, length, depth⟩
  | (other, _) => throw (.notA name .array other.kind)

/-- The label of a function and the number of its parameters. -/
def function (find : Lookup) (name : String) : Except CompileError (String × Nat) := do
  match ← find name with
  | (.function label arity, _) => pure (label, arity)
  | (other, _) => throw (.notA name .function other.kind)

mutual
/-- The code of an expression: its operands, then its opcode. -/
def expr (find : Lookup) : Expr → Except CompileError (List Instruction)
  | .literal value => pure [.push value]
  | .padWidth => pure [.plain .width]
  | .padHeight => pure [.plain .height]
  | .ident name => do
    let (slot, depth) ← scalar find name
    pure [.address .push slot depth]
  | .randomInt bound => do
    let bound ← expr find bound
    pure (bound ++ [.plain .irnd])
  | .binary op lhs rhs => do
    let right ← expr find rhs
    let left ← expr find lhs
    match op.opcode? with
    | some opcode => pure (right ++ left ++ [.plain opcode])
    | none => pure []
  | .call name args => do
    let (label, arity) ← function find name
    if arity ≠ args.length then
      throw (.arity name arity args.length)
    let code ← reversed find args
    pure (code ++ [.pushNat args.length, .label label, .plain .call])
  | .index name index => do
    let array ← array find name
    match index.literalInt? with
    | some i =>
      let offset ← checkBounds name i array.length
      pure [.pushNat 1, .address .pushA (array.base + offset) array.depth]
    | none =>
      let index ← expr find index
      pure (index ++ [.address .pushOffset array.base array.depth])

/-- The code of expressions, the last one first. -/
def reversed (find : Lookup) : List Expr → Except CompileError (List Instruction)
  | [] => pure []
  | e :: es => do
    let others ← reversed find es
    let first ← expr find e
    pure (others ++ first)
end

/-- The code of expressions in order. -/
def inOrder (find : Lookup) : List Expr → Except CompileError (List Instruction)
  | [] => pure []
  | e :: es => do
    let first ← expr find e
    let others ← inOrder find es
    pure (first ++ others)

/-- Looking up an array gives what its name stands for. -/
theorem array_eq_ok {find : Lookup} {name : String} {a : ScopeStack.ArrayRef}
    (h : array find name = .ok a) : find name = .ok (.array a.base a.length, a.depth) := by
  obtain ⟨⟨storage, hops⟩, hfind, h⟩ := bind_eq_ok.mp h
  cases storage with
  | array base length =>
      rw [pure_eq_ok] at h
      rw [hfind, ← h]
  | scalar slot => simp at h
  | function label arity => simp at h

mutual
/-- The code of an expression is no longer than its bound. -/
theorem expr_length_le {find : Lookup} : (e : Expr) → {code : List Instruction} →
    expr find e = .ok code → code.length ≤ e.codeBound
  | .literal value, code, h => by
      rw [expr, pure_eq_ok] at h
      simp [← h, Expr.codeBound]
  | .padWidth, code, h => by
      rw [expr, pure_eq_ok] at h
      simp [← h, Expr.codeBound]
  | .padHeight, code, h => by
      rw [expr, pure_eq_ok] at h
      simp [← h, Expr.codeBound]
  | .ident name, code, h => by
      rw [expr] at h
      obtain ⟨⟨slot, depth⟩, -, h⟩ := bind_eq_ok.mp h
      rw [pure_eq_ok] at h
      simp [← h, Expr.codeBound]
  | .randomInt bound, code, h => by
      rw [expr] at h
      obtain ⟨boundCode, hbound, h⟩ := bind_eq_ok.mp h
      rw [pure_eq_ok] at h
      have hle := expr_length_le bound hbound
      simp only [← h, Expr.codeBound, List.length_append, List.length_singleton]
      omega
  | .binary op lhs rhs, code, h => by
      rw [expr] at h
      obtain ⟨right, hright, h⟩ := bind_eq_ok.mp h
      obtain ⟨left, hleft, h⟩ := bind_eq_ok.mp h
      have hr := expr_length_le rhs hright
      have hl := expr_length_le lhs hleft
      simp only [Expr.codeBound]
      cases hop : op.opcode? with
      | none =>
          rw [hop, pure_eq_ok] at h
          simp [← h]
      | some opcode =>
          rw [hop, pure_eq_ok] at h
          simp only [← h, List.length_append, List.length_singleton]
          omega
  | .call name args, code, h => by
      rw [expr] at h
      obtain ⟨⟨label, arity⟩, -, h⟩ := bind_eq_ok.mp h
      dsimp only at h
      split at h
      · simp at h
      · obtain ⟨argCode, hargs, h⟩ := bind_eq_ok.mp h
        rw [pure_eq_ok] at h
        have hle := reversed_length_le args hargs
        simp only [← h, Expr.codeBound, List.length_append, List.length_cons, List.length_nil]
        omega
  | .index name index, code, h => by
      rw [expr] at h
      obtain ⟨array, -, h⟩ := bind_eq_ok.mp h
      simp only [Expr.codeBound]
      cases hlit : index.literalInt? with
      | some i =>
          rw [hlit] at h
          obtain ⟨offset, -, h⟩ := bind_eq_ok.mp h
          rw [pure_eq_ok] at h
          rw [← h, Expr.eq_int_of_literalInt? hlit, Expr.codeBound]
          simp
      | none =>
          rw [hlit] at h
          obtain ⟨indexCode, hindex, h⟩ := bind_eq_ok.mp h
          rw [pure_eq_ok] at h
          have hle := expr_length_le index hindex
          simp only [← h, List.length_append, List.length_singleton]
          omega

/-- The code of arguments is no longer than their bound. -/
theorem reversed_length_le {find : Lookup} : (es : List Expr) → {code : List Instruction} →
    reversed find es = .ok code → code.length ≤ Expr.argsBound es
  | [], code, h => by
      rw [reversed, pure_eq_ok] at h
      simp [← h, Expr.argsBound]
  | e :: es, code, h => by
      rw [reversed] at h
      obtain ⟨others, hothers, h⟩ := bind_eq_ok.mp h
      obtain ⟨first, hfirst, h⟩ := bind_eq_ok.mp h
      rw [pure_eq_ok] at h
      have he := expr_length_le e hfirst
      have hes := reversed_length_le es hothers
      simp only [← h, Expr.argsBound, List.length_append]
      omega
end

/-- The code of expressions in order is no longer than their bound. -/
theorem inOrder_length_le {find : Lookup} (es : List Expr) {code : List Instruction}
    (h : inOrder find es = .ok code) : code.length ≤ Expr.argsBound es := by
  induction es generalizing code with
  | nil =>
      rw [inOrder, pure_eq_ok] at h
      simp [← h]
  | cons e es ih =>
      rw [inOrder] at h
      obtain ⟨first, hfirst, h⟩ := bind_eq_ok.mp h
      obtain ⟨others, hothers, h⟩ := bind_eq_ok.mp h
      rw [pure_eq_ok] at h
      have he := expr_length_le e hfirst
      have hes := ih hothers
      simp only [← h, Expr.argsBound, List.length_append]
      omega

end Layout

/-! ## The shapes of the constructs -/

/-- A push of a jump target that lies `distance` instructions further on. -/
def jumpBy (distance : Int) : Instruction :=
  ⟨.push, some (.pc (Int64.ofInt distance))⟩

/-- Code inside a frame of its own. -/
def framed (size : Nat) (code : List Instruction) : List Instruction :=
  .pushNat size :: .plain .oframe :: (code ++ [.plain .cframe])

/-- `<test>` `push 0` `eq` -/
def negated (test : List Instruction) : List Instruction :=
  test ++ [.push (.int 0), .plain .eq]

/-- `J` `push n` `oframe` `<test>` `push 0` `eq` `cjmp` `<body>` `cframe`, where `J` leads to
the `cframe`: past itself, the two instructions that open the frame, and all that
the frame holds. -/
def conditionalCode (size : Nat) (test body : List Instruction) : List Instruction :=
  let inside := negated test ++ .plain .cjmp :: body
  jumpBy (inside.length + 3) :: framed size inside

/-- `J` `push n` `oframe` `<test>` `push 0` `eq` `cjmp` `<body>` `K` `jmp` `<otherwise>` `cframe`,
where `J` leads to the instruction after the `jmp` and `K` to the `cframe`. -/
def alternativeCode (size : Nat) (test body otherwise : List Instruction) :
    List Instruction :=
  let inside := negated test ++ .plain .cjmp :: body
  jumpBy (inside.length + 5) ::
    framed size (inside ++ jumpBy (otherwise.length + 2) :: .plain .jmp :: otherwise)

/-- `push n` `oframe` `<init>` `<test>` `push 0` `eq` `X` `cjmp` `<body>` `<step>` `B` `jmp`
`cframe`, where `X` leads to the `cframe` and `B` to the first instruction of the
test. -/
def loopCode (size : Nat) (init test body step : List Instruction) : List Instruction :=
  let guard := negated test
  let turn := body ++ step
  framed size
    (init ++ guard ++ jumpBy (turn.length + 4) :: .plain .cjmp :: turn ++
      [jumpBy (-(guard.length + turn.length + 2)), .plain .jmp])

/-! ## Where the jumps lead -/

/-- The push at `index` carries a jump offset, and read from there it leads to
`target`. -/
def Leads (code : List Instruction) (index target : Nat) : Prop :=
  ∃ offset, (code[index]?.bind Instruction.pcOffset) = some offset ∧
    jumpTarget index offset = .ok (target : Int)

/-- A jump by a distance leads that far. -/
theorem leads_jumpBy {code rest : List Instruction} {index target : Nat} {distance : Int}
    (hdrop : code.drop index = jumpBy distance :: rest)
    (hdist : (index : Int) + distance = target)
    (hindex : (index : Int) < signedLimit) (htarget : (target : Int) < signedLimit) :
    Leads code index target := by
  have hat : code[index]? = some (jumpBy distance) := by
    rw [← List.head?_drop, hdrop, List.head?_cons]
  have hword : (Int64.ofInt distance).toInt = distance :=
    toInt_ofInt_of_lt (by omega) (by omega)
  refine ⟨Int64.ofInt distance, by simp [hat, jumpBy, Instruction.pcOffset], ?_⟩
  rw [jumpTarget, hword, hdist, if_pos htarget]

section

variable {code : List Instruction} (before between after : List Instruction) (distance : Int)

/-- A jump over `between` lands on what follows. -/
theorem leads_forward (hcode : code = before ++ jumpBy distance :: (between ++ after))
    (hdist : distance = between.length + 1) (hlen : (code.length : Int) < signedLimit) :
    ∃ target, Leads code before.length target ∧ code.drop target = after := by
  have hlong : code.length = before.length + (between.length + after.length + 1) := by
    simp [hcode]
  have hdrop : code.drop before.length = jumpBy distance :: (between ++ after) := by
    rw [hcode, List.drop_left]
  refine ⟨before.length + 1 + between.length, ?_, ?_⟩
  · exact leads_jumpBy hdrop (by omega) (by omega) (by omega)
  · have hsplit : code = (before ++ jumpBy distance :: between) ++ after := by simp [hcode]
    rw [hsplit]
    exact List.drop_left' (by simp; omega)

/-- A jump back over `between` lands on its first instruction. -/
theorem leads_backward (hcode : code = before ++ (between ++ jumpBy distance :: after))
    (hdist : distance = -between.length) (hlen : (code.length : Int) < signedLimit) :
    Leads code (before.length + between.length) before.length := by
  have hlong : code.length = before.length + (between.length + (after.length + 1)) := by
    simp [hcode]
  have hdrop : code.drop (before.length + between.length) = jumpBy distance :: after := by
    rw [hcode, ← List.append_assoc]
    exact List.drop_left' (by simp)
  exact leads_jumpBy hdrop (by omega) (by omega) (by omega)

end

section

variable (pre post : List Instruction) (size : Nat) {code : List Instruction}

/-- In a conditional, the push in front leads to the `cframe`. -/
theorem conditionalCode_leads (test body : List Instruction)
    (hcode : code = pre ++ conditionalCode size test body ++ post)
    (hlen : (code.length : Int) < signedLimit) :
    ∃ exit, Leads code pre.length exit ∧ code.drop exit = .plain .cframe :: post := by
  let inside := negated test ++ .plain .cjmp :: body
  have hwhole : code = pre ++ jumpBy (inside.length + 3) ::
      ((.pushNat size :: .plain .oframe :: inside) ++ .plain .cframe :: post) := by
    simp [hcode, conditionalCode, framed, inside]
  exact leads_forward _ _ _ _ hwhole (by simp; omega) hlen

/-- In a conditional with an alternative, the push in front leads to the start of
the alternative, and the push that ends the body leads to the `cframe`. -/
theorem alternativeCode_leads (test body otherwise : List Instruction)
    (hcode : code = pre ++ alternativeCode size test body otherwise ++ post)
    (hlen : (code.length : Int) < signedLimit) :
    (∃ start, Leads code pre.length start ∧
      code.drop start = otherwise ++ .plain .cframe :: post) ∧
    ∃ skip exit, code.drop (skip + 1) = .plain .jmp :: (otherwise ++ .plain .cframe :: post) ∧
      Leads code skip exit ∧ code.drop exit = .plain .cframe :: post := by
  let inside := negated test ++ .plain .cjmp :: body
  let opening := Instruction.pushNat size :: .plain .oframe :: inside
  let skipBody := jumpBy (inside.length + 5)
  let skipElse := jumpBy (otherwise.length + 2)
  have hwhole : code = pre ++ skipBody :: (opening ++
      skipElse :: .plain .jmp :: (otherwise ++ .plain .cframe :: post)) := by
    simp [hcode, alternativeCode, framed, opening, inside, skipBody, skipElse]
  constructor
  · refine leads_forward pre (opening ++ [skipElse, .plain .jmp]) _ (inside.length + 5) ?_ ?_ hlen
    · simp [hwhole, skipBody]
    · simp [opening]; omega
  · obtain ⟨exit, hleads, hdrop⟩ := leads_forward (pre ++ skipBody :: opening)
      (.plain .jmp :: otherwise) (.plain .cframe :: post) _ (by simpa [skipElse] using hwhole)
      (by simp; omega) hlen
    refine ⟨_, exit, ?_, hleads, hdrop⟩
    have hsplit : code = (pre ++ skipBody :: (opening ++ [skipElse])) ++
        .plain .jmp :: (otherwise ++ .plain .cframe :: post) := by
      simp [hwhole]
    rw [hsplit]
    exact List.drop_left' (by simp; omega)

/-- In a loop, the push after the test leads to the `cframe`, and the push that ends
each turn leads to the first instruction of the test. -/
theorem loopCode_leads (init test body step : List Instruction)
    (hcode : code = pre ++ loopCode size init test body step ++ post)
    (hlen : (code.length : Int) < signedLimit) :
    (∃ stop exit, (code.drop (stop + 1)).take (body.length + 1) = .plain .cjmp :: body ∧
      Leads code stop exit ∧ code.drop exit = .plain .cframe :: post) ∧
    ∃ back top, code.drop (back + 1) = .plain .jmp :: .plain .cframe :: post ∧
      Leads code back top ∧ code.take top = pre ++ .pushNat size :: .plain .oframe :: init ∧
      (code.drop top).take test.length = test := by
  let opening := pre ++ Instruction.pushNat size :: .plain .oframe :: init
  let stop := jumpBy ((body ++ step).length + 4)
  let turn := negated test ++ stop :: .plain .cjmp :: (body ++ step)
  let again := jumpBy (-((negated test).length + (body ++ step).length + 2))
  have hwhole : code = opening ++
      (turn ++ again :: .plain .jmp :: .plain .cframe :: post) := by
    simp [hcode, loopCode, framed, opening, turn, stop, again]
  constructor
  · obtain ⟨exit, hleads, hdrop⟩ := leads_forward (opening ++ negated test)
      (.plain .cjmp :: (body ++ (step ++ [again, .plain .jmp]))) (.plain .cframe :: post) _
      (by simpa [turn, stop] using hwhole) (by simp; omega) hlen
    refine ⟨_, exit, ?_, hleads, hdrop⟩
    have hsplit : code = (opening ++ negated test ++ [stop]) ++ ((.plain .cjmp :: body) ++
        (step ++ again :: .plain .jmp :: .plain .cframe :: post)) := by
      simp [hwhole, turn]
    rw [hsplit, List.drop_left' (by simp; omega)]
    exact List.take_left' (by simp)
  · have hleads := leads_backward opening turn _ _ hwhole (by simp [turn]; omega) hlen
    refine ⟨_, _, ?_, hleads, ?_, ?_⟩
    · have hsplit :
          code = (opening ++ turn ++ [again]) ++ .plain .jmp :: .plain .cframe :: post := by
        simp [hwhole]
      rw [hsplit]
      exact List.drop_left' (by simp; omega)
    · rw [hwhole, List.take_left' rfl]
    · rw [hwhole, List.drop_left' rfl]
      simp [turn, negated]

end

/-- Wherever one of the constructs stands in the code, its jumps land where they should. -/
structure JumpsLand (code : List Instruction) : Prop where
  conditional (pre post : List Instruction) (size : Nat) (test body : List Instruction) :
    code = pre ++ conditionalCode size test body ++ post →
    ∃ exit, Leads code pre.length exit ∧ code.drop exit = .plain .cframe :: post
  alternative (pre post : List Instruction) (size : Nat) (test body otherwise : List Instruction) :
    code = pre ++ alternativeCode size test body otherwise ++ post →
    (∃ start, Leads code pre.length start ∧
      code.drop start = otherwise ++ .plain .cframe :: post) ∧
    ∃ skip exit, code.drop (skip + 1) = .plain .jmp :: (otherwise ++ .plain .cframe :: post) ∧
      Leads code skip exit ∧ code.drop exit = .plain .cframe :: post
  loop (pre post : List Instruction) (size : Nat) (init test body step : List Instruction) :
    code = pre ++ loopCode size init test body step ++ post →
    (∃ stop exit, (code.drop (stop + 1)).take (body.length + 1) = .plain .cjmp :: body ∧
      Leads code stop exit ∧ code.drop exit = .plain .cframe :: post) ∧
    ∃ back top, code.drop (back + 1) = .plain .jmp :: .plain .cframe :: post ∧
      Leads code back top ∧ code.take top = pre ++ .pushNat size :: .plain .oframe :: init ∧
      (code.drop top).take test.length = test

/-- Jumps land in every block whose indices are signed words, as those of any block that
can be held in memory are. -/
theorem jumpsLand {code : List Instruction} (hlen : (code.length : Int) < signedLimit) :
    JumpsLand code where
  conditional pre post size test body hcode :=
    conditionalCode_leads pre post size test body hcode hlen
  alternative pre post size test body otherwise hcode :=
    alternativeCode_leads pre post size test body otherwise hcode hlen
  loop pre post size init test body step hcode :=
    loopCode_leads pre post size init test body step hcode hlen

/-! ## Statements -/

/-- What the layout of statements asks of the open scopes. -/
class Scoping (σ : Type) where
  /-- What a name stands for. -/
  find : σ → Lookup
  /-- Declares a variable in the innermost scope and gives its slot. -/
  scalar : σ → String → Ty → Lowered → Except CompileError (Nat × σ)
  /-- Declares an array in the innermost scope and gives its first slot. -/
  array : σ → String → Ty → Nat → Except CompileError (Nat × σ)
  /-- What a name stands for where it is assigned to, and the scopes with the
  hint of the new value. -/
  assign : σ → String → Lowered → Except CompileError ((Storage × Nat) × σ)
  /-- Opens a scope. -/
  enter : σ → σ
  /-- Closes the innermost scope and gives the size of its frame. -/
  leave : σ → Except CompileError (Nat × σ)
  /-- Puts a fresh scope, starting at slot 0, in place of the innermost one. -/
  fresh : σ → σ
  /-- The size of the innermost frame. -/
  size : σ → Nat

/-- The scopes that the generator keeps. -/
instance : Scoping ScopeStack where
  find s name := (s.resolve name).map fun b => (b.entity.storage, b.depth)
  scalar s name ty hint := (s.declareScalar name ty hint).mapError .fault
  array s name ty length := (s.declareArray name ty length).mapError .fault
  assign s name hint :=
    (s.setHint name hint).map fun (b, s) => ((b.entity.storage, b.depth), s)
  enter := ScopeStack.enter
  leave s := s.leave.map fun (scope, s) => (scope.slots, s)
  fresh s := { s with inner := {} }
  size s := s.inner.slots

/-- Code that depends on the open scopes and may change them. -/
abbrev Layout (σ : Type) := σ → Except CompileError (List Instruction × σ)

namespace Layout

variable {σ : Type} [Scoping σ]

/-- `<init>` `push <slot>` `push 0` `st` -/
def varDecl (decl : VarDecl) : Layout σ := fun s => do
  let init ← expr (Scoping.find s) decl.init
  let (slot, s) ← Scoping.scalar s decl.name decl.ty decl.init.lowered
  pure (init ++ [.pushNat slot, .pushNat 0, .plain .st], s)

/-- `<value>` `push <slot>` `push <depth>` `st` -/
def assign (assignment : Assignment) : Layout σ := fun s => do
  let value ← expr (Scoping.find s) assignment.value
  let (found, s) ← Scoping.assign s assignment.name assignment.value.lowered
  match found with
  | (.scalar slot, depth) => pure (value ++ [.pushNat slot, .pushNat depth, .plain .st], s)
  | (other, _) => throw (.notA assignment.name .variable other.kind)

/-- The values that an array starts with, on the stack. -/
def elements (find : Lookup) (name : String) (ty : Ty) (length : Nat) (es : List Expr) :
    Except CompileError (List Instruction) :=
  if es.isEmpty then pure [.pushNat length, .push ty.zero, .plain .dupa]
  else if es.length ≠ length then throw (.initializerCount name length es.length)
  else reversed find es

/-- `<elements>` `push <n>` `push <base>` `push 0` `sta` -/
def arrayDecl (name : String) (ty : Ty) (size : Expr) (es : List Expr) : Layout σ := fun s => do
  let length ← Generator.arrayLength name size
  let values ← elements (Scoping.find s) name ty length es
  let (base, s) ← Scoping.array s name ty length
  pure (values ++ [.pushNat length, .pushNat base, .pushNat 0, .plain .sta], s)

/-- The slot of an array element, on the stack. -/
def elementSlot (find : Lookup) (name : String) (array : ScopeStack.ArrayRef) (index : Expr) :
    Except CompileError (List Instruction) :=
  match index.literalInt? with
  | some i => do
    let offset ← checkBounds name i array.length
    pure [.pushNat (array.base + offset)]
  | none => do
    let index ← expr find index
    pure (index ++ [.pushNat array.base, .plain .add])

/-- `<value>` `push 1` `<slot>` `push <depth>` `sta` -/
def arrayAssign (name : String) (index value : Expr) : Layout σ := fun s => do
  let value ← expr (Scoping.find s) value
  let array ← array (Scoping.find s) name
  let slot ← elementSlot (Scoping.find s) name array index
  pure (value ++ .pushNat 1 :: slot ++ [.pushNat array.depth, .plain .sta], s)

/-- The array that an expression names, if it is the bare name of one. -/
def arrayIdent (find : Lookup) : Expr → Option ScopeStack.ArrayRef
  | .ident name => (array find name).toOption
  | _ => none

/-- A whole array and an opcode for arrays, or a value and an opcode. -/
def output (e : Expr) (op arrayOp : Opcode) : Layout σ := fun s =>
  match arrayIdent (Scoping.find s) e with
  | some array =>
    pure ([.pushNat array.length, .address .pushA array.base array.depth,
      .pushNat array.length, .plain arrayOp], s)
  | none => do
    let value ← expr (Scoping.find s) e
    pure (value ++ [.plain op], s)

/-- Values in order and an opcode. -/
def operation (es : List Expr) (op : Opcode) : Layout σ := fun s => do
  let values ← inOrder (Scoping.find s) es
  pure (values ++ [.plain op], s)

/-- The code of one layout, then of another. -/
def seq (first second : Layout σ) : Layout σ := fun s => do
  let (first, s) ← first s
  let (second, s) ← second s
  pure (first ++ second, s)

/-- Code inside a scope and a frame of its own. -/
def nested (body : Layout σ) : Layout σ := fun s => do
  let (body, s) ← body (Scoping.enter s)
  let (size, s) ← Scoping.leave s
  pure (framed size body, s)

/-- A conditional without alternative. -/
def conditional (test : Expr) (body : Layout σ) : Layout σ := fun s => do
  let s := Scoping.enter s
  let test ← expr (Scoping.find s) test
  let (body, s) ← body s
  let (size, s) ← Scoping.leave s
  pure (conditionalCode size test body, s)

/-- A conditional with an alternative.  Each branch starts with a fresh scope; the
frame is as large as the larger of them needs. -/
def alternative (test : Expr) (body otherwise : Layout σ) : Layout σ := fun s => do
  let s := Scoping.enter s
  let test ← expr (Scoping.find s) test
  let (body, s) ← body s
  let bodySize := Scoping.size s
  let (otherwise, s) ← otherwise (Scoping.fresh s)
  let (size, s) ← Scoping.leave s
  pure (alternativeCode (Nat.max bodySize size) test body otherwise, s)

/-- Code that may be absent. -/
def optional (part : α → Layout σ) : Option α → Layout σ
  | some a => part a
  | none => fun s => pure ([], s)

/-- A loop. -/
def loop (init : Option VarDecl) (test : Expr) (step : Option Assignment) (body : Layout σ) :
    Layout σ := fun s => do
  let (init, s) ← optional varDecl init (Scoping.enter s)
  let test ← expr (Scoping.find s) test
  let (body, s) ← body s
  let (step, s) ← optional assign step s
  let (size, s) ← Scoping.leave s
  pure (loopCode size init test body step, s)

/-- What a loop repeats is one piece of code. -/
theorem loop_eq (init : Option VarDecl) (test : Expr) (step : Option Assignment)
    (body : Layout σ) (s : σ) :
    loop init test step body s = (do
      let (init, s) ← optional varDecl init (Scoping.enter s)
      let test ← expr (Scoping.find s) test
      let (turn, s) ← seq body (optional assign step) s
      let (size, s) ← Scoping.leave s
      pure (loopCode size init test turn [], s)) := by
  simp [loop, seq, loopCode]

mutual
/-- The code of a statement. -/
def stmt : Stmt → Layout σ
  | .varDecl decl => varDecl decl
  | .arrayDecl name ty size es => arrayDecl name ty size es
  | .assign assignment => assign assignment
  | .arrayAssign name index value => arrayAssign name index value
  | .print value => output value .print .printA
  | .delay duration => operation [duration] .delay
  | .write x y color => operation [x, y, color] .write
  | .writeBox x y width height color => operation [x, y, width, height, color] .writeBox
  | .conditional test body none => conditional test (stmts body)
  | .conditional test body (some otherwise) =>
    alternative test (stmts body) (stmts otherwise)
  | .whileLoop test body => loop none test none (stmts body)
  | .forLoop init test step body => loop init test step (stmts body)
  | .ret value => output value .ret .reta
  | .block body => nested (stmts body)
  | .function name _ _ _ => fun _ => throw (.nestedFunction name)

/-- The code of statements. -/
def stmts : List Stmt → Layout σ
  | [] => fun s => pure ([], s)
  | s :: ss => seq (stmt s) (stmts ss)
end

end Layout

/-! ## Warnings and sizes of statements -/

mutual
/-- The warnings that a statement raises, in the order of its code. -/
def Stmt.warnings : Stmt → List Diagnostic
  | .varDecl decl => decl.init.warnings
  | .arrayDecl _ _ _ es => Expr.argWarnings es
  | .assign assignment => assignment.value.warnings
  | .arrayAssign _ index value => value.warnings ++ index.warnings
  | .print value => value.warnings
  | .delay duration => [duration].flatMap Expr.warnings
  | .write x y color => [x, y, color].flatMap Expr.warnings
  | .writeBox x y width height color => [x, y, width, height, color].flatMap Expr.warnings
  | .conditional test body none => test.warnings ++ Stmt.listWarnings body
  | .conditional test body (some otherwise) =>
    test.warnings ++ Stmt.listWarnings body ++ Stmt.listWarnings otherwise
  | .whileLoop test body => test.warnings ++ Stmt.listWarnings body
  | .forLoop init test step body =>
    init.elim [] (·.init.warnings) ++ test.warnings ++ Stmt.listWarnings body ++
      step.elim [] (·.value.warnings)
  | .ret value => value.warnings
  | .block body => Stmt.listWarnings body
  | .function _ _ _ body => Stmt.listWarnings body

/-- The warnings that statements raise, in order. -/
def Stmt.listWarnings : List Stmt → List Diagnostic
  | [] => []
  | s :: ss => s.warnings ++ Stmt.listWarnings ss
end

mutual
/-- The most instructions that a statement takes; a function takes those of its
block. -/
def Stmt.codeBound : Stmt → Nat
  | .varDecl decl => decl.init.codeBound + 3
  | .arrayDecl _ _ _ es => Expr.argsBound es + 7
  | .assign assignment => assignment.value.codeBound + 3
  | .arrayAssign _ index value => value.codeBound + index.codeBound + 5
  | .print value => value.codeBound + 3
  | .delay duration => Expr.argsBound [duration] + 1
  | .write x y color => Expr.argsBound [x, y, color] + 1
  | .writeBox x y width height color => Expr.argsBound [x, y, width, height, color] + 1
  | .conditional test body none => test.codeBound + Stmt.listBound body + 7
  | .conditional test body (some otherwise) =>
    test.codeBound + Stmt.listBound body + Stmt.listBound otherwise + 9
  | .whileLoop test body => test.codeBound + Stmt.listBound body + 9
  | .forLoop init test step body =>
    init.elim 0 (·.init.codeBound + 3) + test.codeBound + Stmt.listBound body +
      step.elim 0 (·.value.codeBound + 3) + 9
  | .ret value => value.codeBound + 3
  | .block body => Stmt.listBound body + 3
  | .function _ _ _ body => Stmt.listBound body + 3

/-- The most instructions that statements take together. -/
def Stmt.listBound : List Stmt → Nat
  | [] => 0
  | s :: ss => s.codeBound + Stmt.listBound ss
end

end PadCompiler
