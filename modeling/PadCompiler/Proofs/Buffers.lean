import PadCompiler.Proofs.Steps

/-!
# PadCompiler.Proofs.Buffers

Expressions that are lowered into a buffer.

`lowerInto` pushes the code of an expression to a buffer that belongs to the caller, one piece after
the other, and what it has pushed stays there when it fails.  A literal and a pad query push
nothing.  `compileInto` lowers into a buffer of its own first and commits that buffer to the
caller's only when nothing has failed.

`Fills` compares such a step with one that returns its code.  It is kept by sequencing, by pushes
and by buffers of one's own, so that `lowerInto` fills the buffer with what `lowerExpr` returns:

* `compileInto_run`, `emitExpr_eq_emitThrough` — the code comes out the same through buffers;
* `compileInto_atomic` — a buffer gets the whole code of `Layout.expr`, or it stays as it was.
-/

namespace PadCompiler

namespace Generator

/-! ## Steps with a buffer -/

/-- The generator and the code that is being collected. -/
structure Buffered where
  generator : Generator
  ops : List Instruction

/-- Steps that collect code in a buffer.  A step that fails leaves the buffer as far as it came. -/
abbrev BufferM := EStateM CompileError Buffered

/-- A step that does not use the buffer. -/
def quiet (x : GenM α) : BufferM α := fun s =>
  match x.run s.generator with
  | .ok a g => .ok a ⟨g, s.ops⟩
  | .error e g => .error e ⟨g, s.ops⟩

/-- Adds code to the buffer. -/
def push (code : List Instruction) : BufferM Unit :=
  modify fun s => ⟨s.generator, s.ops ++ code⟩

/-- Lets a step collect its code in a buffer of its own, and gives that buffer. -/
def aside (x : BufferM α) : BufferM (α × List Instruction) := fun s =>
  match x.run ⟨s.generator, []⟩ with
  | .ok a s' => .ok (a, s'.ops) ⟨s'.generator, s.ops⟩
  | .error e s' => .error e ⟨s'.generator, s.ops⟩

/-- Commits what was lowered into a buffer of its own. -/
def commit (kind : Lowered) (pending : List Instruction) : BufferM Unit :=
  push (Lowering.mk kind pending).commit

/-- Lowers into a buffer of its own and commits that. -/
def committed (x : BufferM Lowered) : BufferM Lowered := do
  let (kind, pending) ← aside x
  commit kind pending
  pure kind

mutual
/-- Lowers an expression into the buffer and classifies it. -/
def lowerInto : Expr → BufferM Lowered
  | .literal value => pure (.static value)
  | .padWidth => pure (.query .width)
  | .padHeight => pure (.query .height)
  | .ident name => do
    let (slot, depth) ← quiet (resolveScalar name)
    push [.address .push slot depth]
    pure .dynamic
  | .randomInt bound => do
    let _ ← committed (lowerInto bound)
    push [.plain .irnd]
    pure .dynamic
  | .binary op lhs rhs => do
    let (right, rightOps) ← aside (lowerInto rhs)
    let (left, leftOps) ← aside (lowerInto lhs)
    match op.opcode? with
    | some opcode =>
      commit right rightOps
      commit left leftOps
      push [.plain opcode]
      pure .dynamic
    | none =>
      quiet (warn (unsupportedMessage op))
      pure .dynamic
  | .call name args => do
    let signature ← quiet (resolveFunction name)
    if signature.params.length ≠ args.length then
      throw (.arity name signature.params.length args.length)
    argsInto args
    push [.pushNat args.length]
    push [.label signature.label]
    push [.plain .call]
    pure .dynamic
  | .index name index => do
    let array ← quiet (resolveArray name)
    match index.literalInt? with
    | some i =>
      let offset ← quiet (ofExcept (checkBounds name i array.length))
      push [.pushNat 1]
      push [.address .pushA (array.base + offset) array.depth]
      pure .dynamic
    | none =>
      let _ ← committed (lowerInto index)
      push [.address .pushOffset array.base array.depth]
      pure .dynamic

/-- Commits arguments to the buffer, the last one first. -/
def argsInto : List Expr → BufferM Unit
  | [] => pure ()
  | e :: es => do
    argsInto es
    let _ ← committed (lowerInto e)
    pure ()
end

/-- Lowers an expression and commits it to the buffer. -/
def compileInto (e : Expr) : BufferM Lowered :=
  committed (lowerInto e)

/-- Adds the code of an expression to the current block, through an empty buffer. -/
def emitThrough (e : Expr) : GenM Lowered := fun g =>
  match (compileInto e).run ⟨g, []⟩ with
  | .ok kind s => .ok kind { s.generator with block := s.generator.block.extend s.ops }
  | .error err s => .error err s.generator

/-! ## Elementary steps -/

@[simp] theorem push_run (code : List Instruction) (s : Buffered) :
    (push code).run s = .ok () ⟨s.generator, s.ops ++ code⟩ := rfl

@[simp] theorem commit_run (kind : Lowered) (pending : List Instruction) (s : Buffered) :
    (commit kind pending).run s =
      .ok () ⟨s.generator, s.ops ++ (Lowering.mk kind pending).commit⟩ := rfl

theorem quiet_run (x : GenM α) (s : Buffered) :
    (quiet x).run s = match x.run s.generator with
      | .ok a g => .ok a ⟨g, s.ops⟩
      | .error e g => .error e ⟨g, s.ops⟩ := rfl

theorem aside_run (x : BufferM α) (s : Buffered) :
    (aside x).run s = match x.run ⟨s.generator, []⟩ with
      | .ok a s' => .ok (a, s'.ops) ⟨s'.generator, s.ops⟩
      | .error e s' => .error e ⟨s'.generator, s.ops⟩ := rfl

/-- What was collected elsewhere is added as a whole, or not at all. -/
theorem committed_run (x : BufferM Lowered) (s : Buffered) :
    (committed x).run s = match x.run ⟨s.generator, []⟩ with
      | .ok kind s' => .ok kind ⟨s'.generator, s.ops ++ (Lowering.mk kind s'.ops).commit⟩
      | .error e s' => .error e ⟨s'.generator, s.ops⟩ := by
  rw [committed, EStateM.run_bind, aside_run]
  cases x.run ⟨s.generator, []⟩ <;> rfl

/-! ## Buffers and returned code -/

/-- The step adds code to any buffer where the other one returns it: `P a code b` says what goes
with a value `b` of the other one.  They fail together, and then any part of the code may be in the
buffer. -/
def Fills (x : BufferM α) (y : GenM β) (P : α → List Instruction → β → Prop) : Prop :=
  ∀ g ops, match y.run g with
    | .ok b g' => ∃ a code, P a code b ∧ x.run ⟨g, ops⟩ = .ok a ⟨g', ops ++ code⟩
    | .error e g' => ∃ code, x.run ⟨g, ops⟩ = .error e ⟨g', ops ++ code⟩

namespace Fills

variable {x : BufferM α} {y : GenM β} {P : α → List Instruction → β → Prop}

/-- A step that adds code and is done. -/
theorem done (a : α) {b : β} (code : List Instruction) (hP : P a code b)
    (hrun : ∀ s : Buffered, x.run s = .ok a ⟨s.generator, s.ops ++ code⟩) :
    Fills x (pure b) P :=
  fun g ops => ⟨a, code, hP, hrun ⟨g, ops⟩⟩

/-- A step that adds no code. -/
theorem nothing (a : α) {b : β} (hP : P a [] b) : Fills (pure a : BufferM α) (pure b) P :=
  .done a [] hP fun s => by rw [EStateM.run_pure, List.append_nil]

theorem throw (e : CompileError) : Fills (throw e : BufferM α) (throw e : GenM β) P :=
  fun g ops => ⟨[], by rw [List.append_nil]; rfl⟩

/-- Code that is already in the buffer counts with the code that follows. -/
theorem bind {f : α → BufferM γ} {h : β → GenM δ} {Q : γ → List Instruction → δ → Prop}
    (hx : Fills x y P)
    (hf : ∀ a code b, P a code b → Fills (f a) (h b) fun c others d => Q c (code ++ others) d) :
    Fills (x >>= f) (y >>= h) Q := by
  intro g ops
  have hfirst := hx g ops
  rw [EStateM.run_bind, EStateM.run_bind]
  cases hy : y.run g with
  | error e g' =>
      rw [hy] at hfirst
      obtain ⟨code, hrun⟩ := hfirst
      exact ⟨code, by rw [hrun]⟩
  | ok b g' =>
      rw [hy] at hfirst
      obtain ⟨a, code, hP, hrun⟩ := hfirst
      have hnext := hf a code b hP g' (ops ++ code)
      dsimp only
      rw [hrun]
      dsimp only
      cases hb : (h b).run g' with
      | error e g'' =>
          rw [hb] at hnext
          obtain ⟨others, hrun'⟩ := hnext
          exact ⟨code ++ others, by rw [hrun', List.append_assoc]⟩
      | ok d g'' =>
          rw [hb] at hnext
          obtain ⟨c, others, hQ, hrun'⟩ := hnext
          exact ⟨c, code ++ others, hQ, by rw [hrun', List.append_assoc]⟩

/-- A step that does not use the buffer adds nothing to it. -/
theorem quiet (z : GenM β) : Fills (quiet z) z fun a code b => a = b ∧ code = [] := by
  intro g ops
  cases hz : z.run g with
  | error e g' => exact ⟨[], by rw [quiet_run, hz, List.append_nil]⟩
  | ok b g' => exact ⟨b, [], ⟨rfl, rfl⟩, by rw [quiet_run, hz, List.append_nil]⟩

/-- A step with a buffer of its own gives the code and adds nothing. -/
theorem aside (hx : Fills x y P) :
    Fills (aside x) y fun a code b => P a.1 a.2 b ∧ code = [] := by
  intro g ops
  have hinside := hx g []
  cases hy : y.run g with
  | error e g' =>
      rw [hy] at hinside
      obtain ⟨code, hrun⟩ := hinside
      exact ⟨[], by rw [aside_run, hrun, List.append_nil]⟩
  | ok b g' =>
      rw [hy] at hinside
      obtain ⟨a, code, hP, hrun⟩ := hinside
      exact ⟨(a, code), [], ⟨hP, rfl⟩, by rw [aside_run, hrun, List.append_nil]; rfl⟩

end Fills

/-- The classification and the code of a lowered expression. -/
def Matches (kind : Lowered) (code : List Instruction) (l : Lowering) : Prop :=
  l = ⟨kind, code⟩

/-- Committing adds what a lowered expression commits to. -/
theorem Fills.committed {x : BufferM Lowered} {y : GenM Lowering} (hx : Fills x y Matches) :
    Fills (committed x) y fun kind code l => kind = l.kind ∧ code = l.commit := by
  intro g ops
  have hinside := hx g []
  cases hy : y.run g with
  | error e g' =>
      rw [hy] at hinside
      obtain ⟨code, hrun⟩ := hinside
      exact ⟨[], by rw [committed_run, hrun, List.append_nil]⟩
  | ok l g' =>
      rw [hy] at hinside
      obtain ⟨kind, code, rfl, hrun⟩ := hinside
      exact ⟨kind, (Lowering.mk kind code).commit, ⟨rfl, rfl⟩, by rw [committed_run, hrun]; rfl⟩

mutual
/-- Lowering into a buffer adds the code that lowering returns. -/
theorem lowerInto_fills : (e : Expr) → Fills (lowerInto e) (lowerExpr e) Matches
  | .literal value => by
      rw [lowerInto, lowerExpr]
      exact .nothing (Lowered.static value) rfl
  | .padWidth => by
      rw [lowerInto, lowerExpr]
      exact .nothing (Lowered.query .width) rfl
  | .padHeight => by
      rw [lowerInto, lowerExpr]
      exact .nothing (Lowered.query .height) rfl
  | .ident name => by
      rw [lowerInto, lowerExpr]
      refine .bind (.quiet _) fun found _ _ ⟨hfound, hcode⟩ => ?_
      subst hfound hcode
      exact .done Lowered.dynamic [.address .push found.1 found.2] rfl fun s => rfl
  | .randomInt bound => by
      rw [lowerInto, lowerExpr]
      refine .bind (lowerInto_fills bound).committed fun _ _ l ⟨_, hcode⟩ => ?_
      subst hcode
      exact .done Lowered.dynamic [.plain .irnd] rfl fun s => rfl
  | .binary op lhs rhs => by
      rw [lowerInto, lowerExpr]
      refine .bind (lowerInto_fills rhs).aside fun right _ _ ⟨hright, hcode⟩ => ?_
      subst hright hcode
      refine .bind (lowerInto_fills lhs).aside fun left _ _ ⟨hleft, hcode⟩ => ?_
      subst hleft hcode
      cases op.opcode? with
      | some opcode =>
          let operands := (Lowering.mk right.1 right.2).commit ++ (Lowering.mk left.1 left.2).commit
          exact .done Lowered.dynamic (operands ++ [Instruction.plain opcode]) rfl fun s => by
            simp only [EStateM.run_bind, commit_run, push_run, EStateM.run_pure, operands,
              List.append_assoc]
      | none =>
          refine .bind (.quiet _) fun _ _ _ ⟨_, hcode⟩ => ?_
          subst hcode
          exact .nothing Lowered.dynamic rfl
  | .call name args => by
      rw [lowerInto, lowerExpr]
      refine .bind (.quiet _) fun signature _ _ ⟨hsignature, hcode⟩ => ?_
      subst hsignature hcode
      by_cases harity : signature.params.length = args.length
      · rw [if_neg (not_not_intro harity), if_neg (not_not_intro harity)]
        refine .bind (argsInto_fills args) fun _ _ code hcode => ?_
        subst hcode
        refine .done Lowered.dynamic
          [.pushNat args.length, .label signature.label, .plain .call] rfl fun s => ?_
        simp only [EStateM.run_bind, push_run, EStateM.run_pure, List.append_assoc,
          List.cons_append, List.nil_append]
      · rw [if_pos harity, if_pos harity]
        exact .throw _
  | .index name index => by
      rw [lowerInto, lowerExpr]
      refine .bind (.quiet _) fun array _ _ ⟨harray, hcode⟩ => ?_
      subst harray hcode
      cases index.literalInt? with
      | some i =>
          refine .bind (.quiet _) fun offset _ _ ⟨hoffset, hcode⟩ => ?_
          subst hoffset hcode
          refine .done Lowered.dynamic
            [.pushNat 1, .address .pushA (array.base + offset) array.depth] rfl fun s => ?_
          simp only [EStateM.run_bind, push_run, EStateM.run_pure, List.append_assoc,
            List.singleton_append]
      | none =>
          refine .bind (lowerInto_fills index).committed fun _ _ l ⟨_, hcode⟩ => ?_
          subst hcode
          exact .done Lowered.dynamic [.address .pushOffset array.base array.depth] rfl fun s => rfl

/-- Arguments add their code in the order in which it is returned. -/
theorem argsInto_fills : (es : List Expr) →
    Fills (argsInto es) (lowerArgs es) fun _ code code' => code = code'
  | [] => by
      rw [argsInto, lowerArgs]
      exact .nothing () rfl
  | e :: es => by
      rw [argsInto, lowerArgs]
      refine .bind (argsInto_fills es) fun _ _ others hcode => ?_
      subst hcode
      refine .bind (lowerInto_fills e).committed fun _ _ l ⟨_, hcode⟩ => ?_
      subst hcode
      exact .nothing () (by rw [List.append_nil])
end

/-! ## Expressions through buffers -/

/-- Lowering into a buffer, by what lowering returns. -/
theorem lowerInto_run (e : Expr) (g : Generator) (ops : List Instruction) :
    match (lowerExpr e).run g with
    | .ok l g' => (lowerInto e).run ⟨g, ops⟩ = .ok l.kind ⟨g', ops ++ l.code⟩
    | .error err g' => ∃ code, (lowerInto e).run ⟨g, ops⟩ = .error err ⟨g', ops ++ code⟩ := by
  have hfills := lowerInto_fills e g ops
  cases hlower : (lowerExpr e).run g with
  | error err g' =>
      rw [hlower] at hfills
      exact hfills
  | ok l g' =>
      rw [hlower] at hfills
      obtain ⟨kind, code, rfl, hrun⟩ := hfills
      exact hrun

/-- A compiled expression adds the code that comes of it, or nothing. -/
theorem compileInto_run (e : Expr) (g : Generator) (ops : List Instruction) :
    (compileInto e).run ⟨g, ops⟩ = match (compileExpr e).run g with
      | .ok (kind, code) g' => .ok kind ⟨g', ops ++ code⟩
      | .error err g' => .error err ⟨g', ops⟩ := by
  have hinside := lowerInto_run e g []
  rw [compileInto, committed_run, compileExpr, EStateM.run_bind]
  cases hlower : (lowerExpr e).run g with
  | error err g' =>
      rw [hlower] at hinside
      obtain ⟨code, hrun⟩ := hinside
      rw [hrun]
  | ok l g' =>
      rw [hlower] at hinside
      rw [hinside]
      rfl

/-- Going through a buffer makes no difference to the block. -/
theorem emitExpr_eq_emitThrough (e : Expr) : emitExpr e = emitThrough e := by
  funext g
  change (emitExpr e).run g = _
  rw [emitThrough, compileInto_run, emitExpr, EStateM.run_bind]
  cases (compileExpr e).run g <;> rfl

/-- No code is kept for what is known without code. -/
theorem lowerExpr_code {e : Expr} {g g' : Generator} {l : Lowering} {code : List Instruction}
    (hrun : (lowerExpr e).run g = .ok l g') (hl : Lowers e l code) :
    l.code = if e.lowered = .dynamic then code else [] := by
  obtain ⟨hkind, hcommit⟩ := hl
  by_cases hdynamic : e.lowered = .dynamic
  · rw [if_pos hdynamic, ← hcommit, Lowering.commit, hkind, hdynamic]
  · rw [if_neg hdynamic]
    cases e with
    | literal value =>
        rw [lowerExpr] at hrun
        cases hrun
        rfl
    | padWidth | padHeight =>
        rw [lowerExpr] at hrun
        cases hrun
        rfl
    | _ => exact absurd rfl hdynamic

/-- Whatever the state and the buffer are, a compiled expression either adds its whole code to the
buffer or leaves the buffer as it was.  The scopes and the block stay as they were in both cases:
`g.after [] g.scopes w` differs from `g` in the warnings only.

Lowering classifies by form, and adds no code for a literal and for a query of the pad.  An
expression that is added to the block adds the same code, or none. -/
theorem compileInto_atomic (e : Expr) (g : Generator) (ops : List Instruction) :
    (match Layout.expr (Scoping.find g.scopes) e with
      | .ok code =>
        (compileInto e).run ⟨g, ops⟩ =
            .ok e.lowered ⟨g.after [] g.scopes e.warnings, ops ++ code⟩ ∧
          (lowerInto e).run ⟨g, ops⟩ = .ok e.lowered
            ⟨g.after [] g.scopes e.warnings, ops ++ if e.lowered = .dynamic then code else []⟩ ∧
          (compileExpr e).run g = .ok (e.lowered, code) (g.after [] g.scopes e.warnings) ∧
          (emitExpr e).run g = .ok e.lowered (g.after code g.scopes e.warnings)
      | .error err => ∃ raised, raised <+: e.warnings ∧
        (compileInto e).run ⟨g, ops⟩ = .error err ⟨g.after [] g.scopes raised, ops⟩ ∧
        (∃ part, (lowerInto e).run ⟨g, ops⟩ =
          .error err ⟨g.after [] g.scopes raised, ops ++ part⟩) ∧
        (compileExpr e).run g = .error err (g.after [] g.scopes raised) ∧
        (emitExpr e).run g = .error err (g.after [] g.scopes raised)) ∧
      (∀ v, e.lowered = .static v ↔ e = .literal v) ∧
      (∀ q, e.lowered = .query q ↔ e = .padWidth ∧ q = .width ∨ e = .padHeight ∧ q = .height) := by
  refine ⟨?_, fun v => by cases e <;> simp [Expr.lowered],
    fun q => by cases e <;> simp [Expr.lowered, eq_comm]⟩
  have hyields := lowerExpr_yields g e
  have hlower := lowerInto_run e g ops
  rw [compileInto_run]
  unfold Yields at hyields
  cases hcode : Layout.expr (Scoping.find g.scopes) e with
  | error err =>
      rw [hcode] at hyields
      obtain ⟨raised, hraised, hrun⟩ := hyields
      have hcompile : (compileExpr e).run g = .error err (g.after [] g.scopes raised) :=
        bind_run_error hrun
      rw [hrun] at hlower
      refine ⟨raised, hraised, ?_, hlower, hcompile, bind_run_error hcompile⟩
      rw [hcompile]
  | ok code =>
      rw [hcode] at hyields
      obtain ⟨l, hrun, hl⟩ := hyields
      have hcompile : (compileExpr e).run g =
          .ok (e.lowered, code) (g.after [] g.scopes e.warnings) := by
        rw [compileExpr, bind_run_ok hrun, EStateM.run_pure, hl.1, hl.2]
      rw [hrun] at hlower
      refine ⟨?_, ?_, hcompile, ?_⟩
      · rw [hcompile]
      · dsimp only at hlower
        rw [hlower, lowerExpr_code hrun hl, hl.1]
      · rw [emitExpr, bind_run_ok hcompile]
        simp only [EStateM.run_bind, EStateM.run_pure, emit_run, after_scopes, after_after,
          List.nil_append, List.append_nil]

/-- A state with a function of two parameters. -/
def Demo.paired : Generator :=
  { initial {} with
    scopes := (ScopeStack.declareFunction {} "f" ⟨"f", [⟨"a", .int⟩, ⟨"b", .int⟩], .int⟩).2 }

/-- The last argument comes first.  When the other one fails, lowering has pushed it already, but
nothing is committed. -/
example : (lowerInto (.call "f" [.ident "x", .int 1])).run ⟨Demo.paired, [.plain .halt]⟩ =
      .error (.unresolved "x") ⟨Demo.paired, [.plain .halt, .push (.int 1)]⟩ ∧
    (compileInto (.call "f" [.ident "x", .int 1])).run ⟨Demo.paired, [.plain .halt]⟩ =
      .error (.unresolved "x") ⟨Demo.paired, [.plain .halt]⟩ :=
  ⟨rfl, rfl⟩

end Generator

end PadCompiler
