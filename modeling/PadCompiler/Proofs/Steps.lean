import PadCompiler.Proofs.Layout

/-!
# PadCompiler.Proofs.Steps

What the elementary steps of the generator do to its state, each as an equation
for `run`.

A step that succeeds adds code, changes the scopes and raises warnings:
`Generator.after` is the state that comes of it.  Filling in a reservation keeps
that form, because the reserved push is part of the code that was added
(`patchJump_run`, `patchCount_run`).

* `lowerExpr_yields`, `emitExpr_emits` — expressions come out as `Layout.expr` says.
-/

namespace PadCompiler

/-! ## Look-up -/

/-- What a name stands for, through `Scoping`. -/
theorem find_scopeStack (s : ScopeStack) (name : String) :
    Scoping.find s name = (s.resolve name).map fun b => (b.entity.storage, b.depth) := rfl

/-- Looking up a variable needs no more than `Scoping.find`. -/
theorem scalar_eq (s : ScopeStack) (name : String) :
    s.scalar name = Layout.scalar (Scoping.find s) name := by
  simp only [ScopeStack.scalar, Layout.scalar, find_scopeStack]
  cases s.resolve name with
  | error e => rfl
  | ok b =>
      obtain ⟨entity, depth⟩ := b
      cases entity <;> rfl

/-- Looking up an array needs no more than `Scoping.find`. -/
theorem array_eq (s : ScopeStack) (name : String) :
    s.array name = Layout.array (Scoping.find s) name := by
  simp only [ScopeStack.array, Layout.array, find_scopeStack]
  cases s.resolve name with
  | error e => rfl
  | ok b =>
      obtain ⟨entity, depth⟩ := b
      cases entity <;> rfl

/-- Of a function, only the label and the number of parameters are looked up. -/
theorem function_eq (s : ScopeStack) (name : String) :
    (s.function name).map (fun f => (f.label, f.params.length)) =
      Layout.function (Scoping.find s) name := by
  simp only [ScopeStack.function, Layout.function, find_scopeStack]
  cases s.resolve name with
  | error e => rfl
  | ok b =>
      obtain ⟨entity, depth⟩ := b
      cases entity <;> rfl

namespace Generator

/-! ## States -/

/-- The state after code was added, the scopes changed and warnings raised. -/
def after (g : Generator) (code : List Instruction) (scopes : ScopeStack)
    (warnings : List Diagnostic) : Generator :=
  { g with
    scopes := scopes
    block := g.block.extend code
    image := { g.image with diagnostics := g.image.diagnostics ++ warnings } }

section

variable (g : Generator) (code code' : List Instruction) (s s' : ScopeStack)
  (w w' : List Diagnostic)

@[simp] theorem after_scopes : (g.after code s w).scopes = s := rfl

@[simp] theorem after_config : (g.after code s w).config = g.config := rfl

@[simp] theorem after_here : (g.after code s w).block.here = g.block.here + code.length := by
  simp [after, Block.here, Block.extend]

@[simp] theorem after_after :
    (g.after code s w).after code' s' w' = g.after (code ++ code') s' (w ++ w') := by
  simp [after, Block.extend]

@[simp] theorem after_nil : g.after [] g.scopes [] = g := by
  simp [after, Block.extend]

end

/-! ## Elementary steps -/

@[simp] theorem ofExcept_run (r : Except CompileError α) (g : Generator) :
    (ofExcept r).run g = match r with
      | .ok a => .ok a g
      | .error e => .error e g := by
  cases r <;> rfl

@[simp] theorem throw_run (e : CompileError) (g : Generator) :
    (throw e : GenM α).run g = .error e g := rfl

@[simp] theorem discard_run (x : GenM α) (g : Generator) :
    (discard x).run g = match x.run g with
      | .ok _ g => .ok () g
      | .error e g => .error e g := by
  change EStateM.map (Function.const α ()) x g = _
  rw [EStateM.map, EStateM.run]
  cases x g <;> rfl

/-- What follows a step that succeeds goes on from its state. -/
theorem bind_run_ok {x : GenM α} {f : α → GenM β} {g g' : Generator} {a : α}
    (hx : x.run g = .ok a g') : (x >>= f).run g = (f a).run g' := by
  rw [EStateM.run_bind, hx]

/-- Where a step fails, so does all that it begins. -/
theorem bind_run_error {x : GenM α} {f : α → GenM β} {g g' : Generator} {e : CompileError}
    (hx : x.run g = .error e g') : (x >>= f).run g = .error e g' := by
  rw [EStateM.run_bind, hx]

/-- A sequence that succeeds does so step by step. -/
theorem bind_run_eq_ok {x : GenM α} {f : α → GenM β} {g g' : Generator} {b : β}
    (h : (x >>= f).run g = .ok b g') :
    ∃ a g₁, x.run g = .ok a g₁ ∧ (f a).run g₁ = .ok b g' := by
  cases hx : x.run g with
  | error e g₁ =>
      rw [bind_run_error hx] at h
      contradiction
  | ok a g₁ => exact ⟨a, g₁, rfl, (bind_run_ok hx).symm.trans h⟩

/-- Whether a step succeeds. -/
def succeeds (x : GenM Unit) (g : Generator) : Bool :=
  match x.run g with
  | .ok .. => true
  | .error .. => false

theorem run_ok_of_succeeds {x : GenM Unit} {g : Generator} (h : succeeds x g = true) :
    ∃ g', x.run g = .ok () g' := by
  unfold succeeds at h
  split at h
  · exact ⟨_, ‹_›⟩
  · contradiction

@[simp] theorem emit_run (code : List Instruction) (g : Generator) :
    (emit code).run g = .ok () (g.after code g.scopes []) := by
  simp [emit, after]

@[simp] theorem reserve_run (g : Generator) :
    reserve.run g = .ok ⟨g.block.here⟩ (g.after [.reserved] g.scopes []) := by
  simp [reserve, Block.reserve, Block.emit, after]

@[simp] theorem openScope_run (g : Generator) :
    openScope.run g = .ok () (g.after [] g.scopes.enter []) := by
  simp [openScope, after, Block.extend]

@[simp] theorem rewindScope_run (g : Generator) :
    rewindScope.run g = .ok () (g.after [] g.scopes.rewind []) := by
  simp [rewindScope, after, Block.extend]

@[simp] theorem warn_run (message : String) (g : Generator) :
    (warn message).run g = .ok () (g.after [] g.scopes [⟨message⟩]) := by
  simp [warn, after, Block.extend]

@[simp] theorem closeScope_run (g : Generator) :
    closeScope.run g = match Scoping.leave g.scopes with
      | .ok (size, scopes) => .ok size (g.after [] scopes [])
      | .error e => .error e g := by
  simp only [closeScope, EStateM.run_bind, EStateM.run_get, ofExcept_run, Scoping.leave]
  cases g.scopes.leave <;> simp [Except.map, after, Block.extend]

@[simp] theorem declareScalar_run (name : String) (ty : Ty) (hint : Lowered) (g : Generator) :
    (declareScalar name ty hint).run g = match Scoping.scalar g.scopes name ty hint with
      | .ok (slot, scopes) => .ok slot (g.after [] scopes [])
      | .error e => .error e g := by
  simp only [declareScalar, EStateM.run_bind, EStateM.run_get, ofExcept_run, Scoping.scalar]
  cases g.scopes.declareScalar name ty hint <;> simp [after, Block.extend]

@[simp] theorem declareArray_run (name : String) (ty : Ty) (length : Nat) (g : Generator) :
    (declareArray name ty length).run g = match Scoping.array g.scopes name ty length with
      | .ok (base, scopes) => .ok base (g.after [] scopes [])
      | .error e => .error e g := by
  simp only [declareArray, EStateM.run_bind, EStateM.run_get, ofExcept_run, Scoping.array]
  cases g.scopes.declareArray name ty length <;> simp [after, Block.extend]

end Generator

/-! ## Reservations -/

/-- Filling in a reserved push touches nothing around it. -/
theorem Block.fill_reserved (label : String) (before rest : List Instruction)
    (operand : Operand) :
    (Block.mk label (before ++ .reserved :: rest)).fill ⟨before.length⟩ operand =
      .ok ⟨label, before ++ ⟨.push, some operand⟩ :: rest⟩ := by
  simp [Block.fill, Instruction.reserved, Instruction.isReserved]

/-- Making a reserved push lead somewhere fails only in the arithmetic. -/
theorem Block.patchJump_reserved (label : String) (before rest : List Instruction)
    (target : Nat) :
    (Block.mk label (before ++ .reserved :: rest)).patchJump ⟨before.length⟩ target =
      match jumpOffset before.length target with
      | .ok offset => .ok (offset, ⟨label, before ++ ⟨.push, some (.pc offset)⟩ :: rest⟩)
      | .error f => .error (.fault f) := by
  rw [Block.patchJump]
  cases jumpOffset before.length target with
  | error f => rfl
  | ok offset =>
      change (do
        let block ← Block.fill _ _ (.pc offset)
        pure (offset, block)) = _
      rw [Block.fill_reserved]
      rfl

/-- An offset that can be computed at all is the distance as a word, whether or not
the two indices fit in a signed word. -/
theorem jumpOffset_eq (index target : Nat) :
    jumpOffset index target = .ok (Int64.ofInt ((target : Int) - index)) ∨
      jumpOffset index target = .error .subOverflow ∧
        (signedLimit ≤ index ∨ signedLimit ≤ target) := by
  simp only [jumpOffset]
  split
  · left
    rw [Int64.ofInt_sub, Int64.ofInt_sub, Int64.ofInt_toInt, Int64.ofInt_toInt,
      Int64.ofInt_eq_ofNat, Int64.ofInt_eq_ofNat]
  · next hrange =>
      refine .inr ⟨rfl, ?_⟩
      by_cases hindex : index < 2 ^ 63
      · by_cases htarget : target < 2 ^ 63
        · rw [Int64.toInt_ofNat_of_lt hindex, Int64.toInt_ofNat_of_lt htarget] at hrange
          simp only [signedLimit] at hrange ⊢
          omega
        · exact .inr (by simp only [signedLimit]; omega)
      · exact .inl (by simp only [signedLimit]; omega)

namespace Generator

/-- Makes a reserved push among the code added since `g` carry a count. -/
theorem patchCount_run (g : Generator) (before rest : List Instruction) (s : ScopeStack)
    (w : List Diagnostic) (index count : Nat) (hindex : index = g.block.here + before.length) :
    (patchCount ⟨index⟩ count).run (g.after (before ++ .reserved :: rest) s w) =
      .ok () (g.after (before ++ .pushNat count :: rest) s w) := by
  have hfill := Block.fill_reserved g.block.label (g.block.code ++ before) rest
    (.value (.int (Int64.ofNat count)))
  simp only [List.append_assoc, List.length_append] at hfill
  rw [Block.here] at hindex
  simp [patchCount, Block.patchCount, after, Block.extend, hindex, hfill, Instruction.pushNat,
    Instruction.push]

/-- Makes a reserved push among the code added since `g` lead to `target`.  What can
go wrong is that the block is too long for signed words. -/
theorem patchJump_run (g : Generator) (before rest : List Instruction) (s : ScopeStack)
    (w : List Diagnostic) (index target : Nat)
    (hindex : index = g.block.here + before.length) :
    (patchJump ⟨index⟩ target).run (g.after (before ++ .reserved :: rest) s w) =
        .ok () (g.after (before ++ jumpBy ((target : Int) - index) :: rest) s w) ∨
      (patchJump ⟨index⟩ target).run (g.after (before ++ .reserved :: rest) s w) =
          .error (.fault .subOverflow) (g.after (before ++ .reserved :: rest) s w) ∧
        (signedLimit ≤ index ∨ signedLimit ≤ target) := by
  have hpatch := Block.patchJump_reserved g.block.label (g.block.code ++ before) rest target
  simp only [List.append_assoc, List.length_append] at hpatch
  rw [Block.here] at hindex
  subst hindex
  rcases jumpOffset_eq (g.block.code.length + before.length) target with hoffset | ⟨hoffset, hlong⟩
  · left
    rw [hoffset] at hpatch
    simp [patchJump, after, Block.extend, hpatch, jumpBy]
  · refine .inr ⟨?_, hlong⟩
    rw [hoffset] at hpatch
    simp [patchJump, after, Block.extend, hpatch]

/-! ## Expressions -/

/-- A step that adds no code and keeps the scopes: it gives a value that goes with
the outcome `r` and raises warnings, or it fails as `r` does after some of them. -/
def Yields (x : GenM α) (g : Generator) (w : List Diagnostic) (r : Except CompileError β)
    (P : α → β → Prop) : Prop :=
  match r with
  | .ok b => ∃ a, x.run g = .ok a (g.after [] g.scopes w) ∧ P a b
  | .error e => ∃ raised, raised <+: w ∧ x.run g = .error e (g.after [] g.scopes raised)

section

variable {g : Generator} {w w' : List Diagnostic}

theorem Yields.pure {P : α → β → Prop} {a : α} {b : β} (h : P a b) :
    Yields (pure a) g [] (.ok b) P :=
  ⟨a, by simp, h⟩

theorem Yields.error (e : CompileError) (P : α → β → Prop) :
    Yields (throw e : GenM α) g w (.error e) P :=
  ⟨[], List.nil_prefix, by simp⟩

theorem Yields.ofExcept (r : Except CompileError α) :
    Yields (Generator.ofExcept r) g [] r Eq := by
  cases r with
  | error e => exact ⟨[], List.nil_prefix, by simp⟩
  | ok a => exact ⟨a, by simp, rfl⟩

theorem Yields.bind {x : GenM α} {f : α → GenM γ} {r : Except CompileError β}
    {k : β → Except CompileError δ} {P : α → β → Prop} {Q : γ → δ → Prop}
    (hx : Yields x g w r P)
    (hf : ∀ a b, P a b → Yields (f a) (g.after [] g.scopes w) w' (k b) Q) :
    Yields (x >>= f) g (w ++ w') (r >>= k) Q := by
  cases r with
  | error e =>
      obtain ⟨raised, hraised, hrun⟩ := hx
      exact ⟨raised, hraised.trans (List.prefix_append w w'), bind_run_error hrun⟩
  | ok b =>
      obtain ⟨a, hrun, hP⟩ := hx
      have hnext := hf a b hP
      change Yields (x >>= f) g (w ++ w') (k b) Q
      cases hk : k b with
      | error e =>
          rw [hk] at hnext
          obtain ⟨raised, hraised, hrun'⟩ := hnext
          refine ⟨w ++ raised, (List.prefix_append_right_inj w).mpr hraised, ?_⟩
          rw [bind_run_ok hrun, hrun']
          simp
      | ok d =>
          rw [hk] at hnext
          obtain ⟨c, hrun', hQ⟩ := hnext
          refine ⟨c, ?_, hQ⟩
          rw [EStateM.run_bind, hrun]
          simpa using hrun'

end

/-- A lowered expression: classified by its form, with the code of the layout once it
is committed. -/
def Lowers (e : Expr) (l : Lowering) (code : List Instruction) : Prop :=
  l.kind = e.lowered ∧ l.commit = code

theorem resolveScalar_yields (name : String) (g : Generator) :
    Yields (resolveScalar name) g [] (Layout.scalar (Scoping.find g.scopes) name) Eq := by
  rw [← scalar_eq]
  exact Yields.ofExcept _

theorem resolveArray_yields (name : String) (g : Generator) :
    Yields (resolveArray name) g [] (Layout.array (Scoping.find g.scopes) name) Eq := by
  rw [← array_eq]
  exact Yields.ofExcept _

@[simp] theorem resolveArray_run (name : String) (g : Generator) :
    (resolveArray name).run g = match Layout.array (Scoping.find g.scopes) name with
      | .ok a => .ok a g
      | .error e => .error e g := by
  rw [← array_eq]
  simp only [resolveArray, EStateM.run_bind, EStateM.run_get, ofExcept_run]
  cases g.scopes.array name <;> rfl

/-- Whether an expression is the bare name of an array. -/
theorem arrayIdent_run (e : Expr) (g : Generator) :
    (arrayIdent e).run g = .ok (Layout.arrayIdent (Scoping.find g.scopes) e) g := by
  cases e with
  | ident name =>
      rw [Layout.arrayIdent, ← array_eq]
      rfl
  | _ => rfl

theorem resolveFunction_yields (name : String) (g : Generator) :
    Yields (resolveFunction name) g [] (Layout.function (Scoping.find g.scopes) name)
      fun f found => (f.label, f.params.length) = found := by
  rw [← function_eq]
  have hget : (resolveFunction name).run g = (ofExcept (g.scopes.function name)).run g := rfl
  cases hf : g.scopes.function name with
  | error e => exact ⟨[], List.nil_prefix, by rw [hget, hf]; simp⟩
  | ok f => exact ⟨f, by rw [hget, hf]; simp, rfl⟩

mutual
/-- Lowering an expression makes the code of the layout and raises the warnings of
the expression. -/
theorem lowerExpr_yields (g : Generator) : (e : Expr) →
    Yields (lowerExpr e) g e.warnings (Layout.expr (Scoping.find g.scopes) e) (Lowers e)
  | .literal value => by
      rw [lowerExpr, Layout.expr, Expr.warnings]
      exact Yields.pure ⟨rfl, rfl⟩
  | .padWidth => by
      rw [lowerExpr, Layout.expr, Expr.warnings]
      exact Yields.pure ⟨rfl, rfl⟩
  | .padHeight => by
      rw [lowerExpr, Layout.expr, Expr.warnings]
      exact Yields.pure ⟨rfl, rfl⟩
  | .ident name => by
      rw [lowerExpr, Layout.expr, Expr.warnings]
      refine Yields.bind (resolveScalar_yields name g) fun found _ heq => ?_
      subst heq
      exact Yields.pure ⟨rfl, rfl⟩
  | .randomInt bound => by
      rw [lowerExpr, Layout.expr, Expr.warnings]
      rw [← List.append_nil bound.warnings]
      refine Yields.bind (lowerExpr_yields g bound) fun l code hl => ?_
      exact Yields.pure ⟨rfl, by simp [Lowering.commit, ← hl.2]⟩
  | .binary op lhs rhs => by
      rw [lowerExpr, Layout.expr, Expr.warnings, List.append_assoc]
      refine Yields.bind (lowerExpr_yields g rhs) fun right rightCode hright => ?_
      refine Yields.bind (lowerExpr_yields _ lhs) fun left leftCode hleft => ?_
      rw [BinaryOp.warnings]
      cases op.opcode? with
      | some opcode =>
          exact Yields.pure ⟨rfl, by simp [Lowering.commit, ← hright.2, ← hleft.2]⟩
      | none =>
          refine ⟨⟨.dynamic, []⟩, ?_, rfl, rfl⟩
          rw [EStateM.run_bind, warn_run]
          simp
  | .call name args => by
      rw [lowerExpr, Layout.expr, Expr.warnings]
      refine Yields.bind (resolveFunction_yields name g) fun f found hfound => ?_
      subst hfound
      dsimp only
      by_cases harity : f.params.length = args.length
      · rw [if_neg (not_not_intro harity), if_neg (not_not_intro harity),
          ← List.append_nil (Expr.argWarnings args)]
        refine Yields.bind (lowerArgs_yields _ args) fun code _ heq => ?_
        subst heq
        exact Yields.pure ⟨rfl, rfl⟩
      · rw [if_pos harity, if_pos harity]
        exact Yields.error _ _
  | .index name index => by
      rw [lowerExpr, Layout.expr, Expr.warnings]
      refine Yields.bind (resolveArray_yields name g) fun array _ heq => ?_
      subst heq
      cases hindex : index.literalInt? with
      | some i =>
          obtain rfl := Expr.eq_int_of_literalInt? hindex
          refine Yields.bind (Yields.ofExcept _) fun offset _ heq => ?_
          subst heq
          exact Yields.pure ⟨rfl, rfl⟩
      | none =>
          rw [← List.append_nil index.warnings]
          refine Yields.bind (lowerExpr_yields _ index) fun l code hl => ?_
          exact Yields.pure ⟨rfl, by rw [← hl.2]; rfl⟩

/-- Arguments are lowered from the last one to the first. -/
theorem lowerArgs_yields (g : Generator) : (es : List Expr) →
    Yields (lowerArgs es) g (Expr.argWarnings es)
      (Layout.reversed (Scoping.find g.scopes) es) Eq
  | [] => by
      rw [lowerArgs, Layout.reversed, Expr.argWarnings]
      exact Yields.pure rfl
  | e :: es => by
      rw [lowerArgs, Layout.reversed, Expr.argWarnings]
      refine Yields.bind (lowerArgs_yields g es) fun others _ heq => ?_
      subst heq
      rw [← List.append_nil e.warnings]
      refine Yields.bind (lowerExpr_yields _ e) fun first code hfirst => ?_
      exact Yields.pure (by rw [hfirst.2])
end

/-- A step that adds the code `r` and keeps the scopes, or fails as `r` does. -/
def Emits (x : GenM α) (g : Generator) (w : List Diagnostic)
    (r : Except CompileError (List Instruction)) (a : α) : Prop :=
  match r with
  | .ok code => x.run g = .ok a (g.after code g.scopes w)
  | .error e => ∃ g', x.run g = .error e g'

section

variable {g : Generator} {w w' : List Diagnostic} {r r' : Except CompileError (List Instruction)}

theorem Emits.run_ok {x : GenM α} {a : α} {code : List Instruction} (h : Emits x g w r a)
    (hr : r = .ok code) : x.run g = .ok a (g.after code g.scopes w) := by
  subst hr
  exact h

theorem Emits.run_error {x : GenM α} {a : α} {e : CompileError} (h : Emits x g w r a)
    (hr : r = .error e) : ∃ g', x.run g = .error e g' := by
  subst hr
  exact h

/-- A step that succeeds has added the code. -/
theorem Emits.run_eq_ok {x : GenM α} {a b : α} {g' : Generator} (h : Emits x g w r a)
    (hrun : x.run g = .ok b g') : ∃ code, r = .ok code ∧ g' = g.after code g.scopes w := by
  cases r with
  | error e =>
      obtain ⟨g'', hfail⟩ := h
      rw [hrun] at hfail
      contradiction
  | ok code =>
      cases hrun.symm.trans h
      exact ⟨code, rfl, rfl⟩

theorem Emits.discarded {x : GenM α} {a : α} (h : Emits x g w r a) :
    Emits (discard x) g w r () := by
  cases r with
  | error e =>
      obtain ⟨g', hrun⟩ := h
      exact ⟨g', by rw [discard_run, hrun]⟩
  | ok code =>
      change x.run g = _ at h
      change (discard x).run g = _
      rw [discard_run, h]

theorem Emits.bind {x : GenM α} {f : α → GenM β} {a : α} {b : β} (hx : Emits x g w r a)
    (hf : ∀ code, Emits (f a) (g.after code g.scopes w) w' r' b) :
    Emits (x >>= f) g (w ++ w') (do
      let first ← r
      let others ← r'
      pure (first ++ others)) b := by
  cases r with
  | error e =>
      obtain ⟨g', hrun⟩ := hx
      exact ⟨g', by rw [EStateM.run_bind, hrun]⟩
  | ok code =>
      have hnext := hf code
      change x.run g = _ at hx
      cases r' with
      | error e =>
          obtain ⟨g', hrun⟩ := hnext
          exact ⟨g', by rw [EStateM.run_bind, hx]; exact hrun⟩
      | ok others =>
          change (x >>= f).run g = _
          change (f a).run _ = _ at hnext
          rw [EStateM.run_bind, hx]
          simpa using hnext

end

/-- Adding an expression to the block adds the code of the layout. -/
theorem emitExpr_emits (e : Expr) (g : Generator) :
    Emits (emitExpr e) g e.warnings (Layout.expr (Scoping.find g.scopes) e) e.lowered := by
  have h := lowerExpr_yields g e
  unfold Yields at h
  unfold Emits
  cases hcode : Layout.expr (Scoping.find g.scopes) e with
  | error err =>
      rw [hcode] at h
      obtain ⟨raised, -, hrun⟩ := h
      exact ⟨g.after [] g.scopes raised,
        by simp only [emitExpr, compileExpr, EStateM.run_bind, hrun]⟩
  | ok code =>
      rw [hcode] at h
      obtain ⟨l, hrun, hkind, hcommit⟩ := h
      simp only [emitExpr, compileExpr, EStateM.run_bind, hrun, hkind, hcommit, EStateM.run_pure,
        emit_run, after_scopes, after_after, List.nil_append, List.append_nil]

theorem emitReversed_emits (es : List Expr) (g : Generator) :
    Emits (emitReversed es) g (Expr.argWarnings es)
      (Layout.reversed (Scoping.find g.scopes) es) () := by
  induction es with
  | nil =>
      rw [emitReversed, Layout.reversed, Expr.argWarnings]
      exact congrArg _ (after_nil g).symm
  | cons e es ih =>
      rw [emitReversed, Layout.reversed, Expr.argWarnings]
      exact Emits.bind ih fun code => (emitExpr_emits e _).discarded

theorem emitAll_emits (es : List Expr) (g : Generator) :
    Emits (emitAll es) g (es.flatMap Expr.warnings)
      (Layout.inOrder (Scoping.find g.scopes) es) () := by
  induction es generalizing g with
  | nil =>
      rw [emitAll, Layout.inOrder]
      exact congrArg _ (after_nil g).symm
  | cons e es ih =>
      rw [emitAll, Layout.inOrder, List.flatMap_cons]
      exact Emits.bind (emitExpr_emits e g).discarded fun code => ih (g.after code g.scopes _)

end Generator

end PadCompiler
