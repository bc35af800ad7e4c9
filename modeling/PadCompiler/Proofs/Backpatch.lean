import PadCompiler.Proofs.Rewind
import PadCompiler.Proofs.Steps

/-!
# PadCompiler.Proofs.Backpatch

The generator, which reserves places and fills them in later, makes the same code
as the one-pass layout.

`Lays` compares a step of the generator with a layout, from every state.  It holds of
each kind of statement, and for the constructs of every body it holds of, so that one
law covers every nesting:

* `compileIf_lays`, `compileIfElse_lays`, `compileLoop_lays` — every reservation is
  filled in, and with the offset that the layout computes from lengths;
* `compileStmts_lays` — the same of statement lists, so what is added depends on the scopes
  and the statements only.

In a block too long for signed words an offset cannot be computed; that is the only way
in which the two may differ.
-/

namespace PadCompiler.Generator

/-! ## Steps and layouts -/

/-- How a step from `g` goes with an outcome of the layout: it adds the code, `bound`
instructions at the most, leaves the scopes behind and raises the warnings `w`; or it
fails in the same way; or the block is too long for signed words. -/
inductive LaysAt (x : GenM Unit) (g : Generator) (w : List Diagnostic) (bound : Nat) :
    Except CompileError (List Instruction × ScopeStack) → Prop
  | ok {code s} (hlen : code.length ≤ bound) (hrun : x.run g = .ok () (g.after code s w)) :
    LaysAt x g w bound (.ok (code, s))
  | error {e} (hrun : ∃ g', x.run g = .error e g') : LaysAt x g w bound (.error e)
  | overflow {r} (hrun : ∃ g', x.run g = .error (.fault .subOverflow) g')
    (hlong : signedLimit ≤ (g.block.here + bound : Nat)) : LaysAt x g w bound r

/-- From every state, a step does what the layout says of the scopes there. -/
def Lays (x : GenM Unit) (layout : Layout ScopeStack) (w : List Diagnostic) (bound : Nat) :
    Prop :=
  ∀ g, LaysAt x g w bound (layout g.scopes)

/-- Where a part fails, the whole does. -/
theorem LaysAt.fails {x y : GenM Unit} {g start : Generator} {w w' : List Diagnostic}
    {b b' : Nat} {e : CompileError} (hx : LaysAt x start w b (.error e))
    (hy : ∀ e, (∃ g', x.run start = .error e g') → ∃ g', y.run g = .error e g')
    (hb : start.block.here + b ≤ g.block.here + b') : LaysAt y g w' b' (.error e) := by
  cases hx with
  | error hrun => exact .error (hy e hrun)
  | overflow hrun hlong => exact .overflow (hy _ hrun) (by omega)

/-- A step that succeeds leaves the state that the layout says. -/
theorem Lays.run_ok {x : GenM Unit} {layout : Layout ScopeStack} {w : List Diagnostic}
    {bound : Nat} (h : Lays x layout w bound) {g g' : Generator} (hrun : x.run g = .ok () g') :
    ∃ code s, layout g.scopes = .ok (code, s) ∧ g' = g.after code s w := by
  have hlays := h g
  generalize layout g.scopes = r at hlays
  cases hlays with
  | error hfail => simp [hrun] at hfail
  | overflow hfail => simp [hrun] at hfail
  | @ok code s _ hok =>
      rw [hrun] at hok
      injection hok with _ hstate
      exact ⟨code, s, rfl, hstate⟩

/-- A step of each, one after the other. -/
theorem Lays.bind {x y : GenM Unit} {f h : Layout ScopeStack} {w w' : List Diagnostic}
    {b b' : Nat} (hx : Lays x f w b) (hy : Lays y h w' b') :
    Lays (do x; y) (Layout.seq f h) (w ++ w') (b + b') := by
  intro g
  rw [Layout.seq]
  have hfirst := hx g
  have hfails : ∀ e, (∃ g', x.run g = .error e g') →
      ∃ g', (do x; y : GenM Unit).run g = .error e g' := by
    rintro e ⟨g', hrun⟩
    exact ⟨g', by rw [EStateM.run_bind, hrun]⟩
  cases hf : f g.scopes with
  | error e =>
      rw [hf] at hfirst
      exact hfirst.fails hfails (by omega)
  | ok p =>
      obtain ⟨first, s⟩ := p
      rw [hf] at hfirst
      cases hfirst with
      | overflow hrun hlong => exact .overflow (hfails _ hrun) (by omega)
      | ok hlen hrun =>
          have hsecond := hy (g.after first s w)
          have hbound : (g.after first s w).block.here + b' ≤ g.block.here + (b + b') := by
            simp
            omega
          have hfails' : ∀ e, (∃ g', y.run (g.after first s w) = .error e g') →
              ∃ g', (do x; y : GenM Unit).run g = .error e g' := by
            rintro e ⟨g', hrun'⟩
            exact ⟨g', by rw [EStateM.run_bind, hrun]; exact hrun'⟩
          rw [after_scopes] at hsecond
          dsimp only [ok_bind]
          cases hh : h s with
          | error e =>
              rw [hh] at hsecond
              exact hsecond.fails hfails' hbound
          | ok q =>
              obtain ⟨others, t⟩ := q
              rw [hh] at hsecond
              cases hsecond with
              | overflow hrun' hlong => exact .overflow (hfails' _ hrun') (by omega)
              | ok hlen' hrun' =>
                  refine .ok (by simp; omega) ?_
                  rw [EStateM.run_bind, hrun]
                  simpa using hrun'

/-! ## Statements without a body -/

theorem compileVarDecl_lays (decl : VarDecl) :
    Lays (compileVarDecl decl) (Layout.varDecl decl) decl.init.warnings
      (decl.init.codeBound + 3) := by
  intro g
  have hinit := emitExpr_emits decl.init g
  rw [Layout.varDecl]
  cases hcode : Layout.expr (Scoping.find g.scopes) decl.init with
  | error e =>
      obtain ⟨g', hrun⟩ := hinit.run_error hcode
      exact .error (by simp [compileVarDecl, hrun])
  | ok init =>
      have hrun := hinit.run_ok hcode
      have hlen := Layout.expr_length_le _ hcode
      cases hslot : Scoping.scalar g.scopes decl.name decl.ty decl.init.lowered with
      | error e => exact .error (by simp [compileVarDecl, hrun, hslot])
      | ok p =>
          obtain ⟨slot, s⟩ := p
          refine .ok (by simp; omega) ?_
          simp [compileVarDecl, hrun, hslot]

theorem compileAssign_lays (assignment : Assignment) :
    Lays (compileAssign assignment) (Layout.assign assignment) assignment.value.warnings
      (assignment.value.codeBound + 3) := by
  intro g
  have hvalue := emitExpr_emits assignment.value g
  have hassign : Scoping.assign g.scopes assignment.name assignment.value.lowered =
      (g.scopes.setHint assignment.name assignment.value.lowered).map fun found =>
        ((found.1.entity.storage, found.1.depth), found.2) := rfl
  rw [Layout.assign, hassign]
  cases hcode : Layout.expr (Scoping.find g.scopes) assignment.value with
  | error e =>
      obtain ⟨g', hrun⟩ := hvalue.run_error hcode
      exact .error (by simp [compileAssign, hrun])
  | ok value =>
      have hrun := hvalue.run_ok hcode
      have hlen := Layout.expr_length_le _ hcode
      cases hset : g.scopes.setHint assignment.name assignment.value.lowered with
      | error e => exact .error (by simp [compileAssign, hrun, hset])
      | ok p =>
          obtain ⟨⟨entity, depth⟩, s⟩ := p
          cases entity with
          | scalar ty slot hint =>
              refine .ok (by simp; omega) ?_
              simp [compileAssign, hrun, hset]
              simp [after, Block.extend]
          | array ty base length =>
              exact .error (by
                simp [compileAssign, hrun, hset, Entity.kind, Storage.kind, Entity.storage])
          | function f =>
              exact .error (by
                simp [compileAssign, hrun, hset, Entity.kind, Storage.kind, Entity.storage])

theorem compileArrayDecl_lays (name : String) (ty : Ty) (size : Expr) (es : List Expr) :
    Lays (compileArrayDecl name ty size es) (Layout.arrayDecl name ty size es)
      (Expr.argWarnings es) (Expr.argsBound es + 7) := by
  intro g
  rw [Layout.arrayDecl]
  cases hlength : arrayLength name size with
  | error e => exact .error (by simp [compileArrayDecl, hlength])
  | ok length =>
      rw [ok_bind, Layout.elements]
      cases es with
      | nil =>
          cases hbase : Scoping.array g.scopes name ty length with
          | error e => exact .error (by simp [compileArrayDecl, hlength, hbase])
          | ok p =>
              obtain ⟨base, s⟩ := p
              refine .ok (by simp) ?_
              simp [compileArrayDecl, hlength, hbase, Expr.argWarnings]
      | cons e es =>
          rw [if_neg (by simp)]
          by_cases hcount : (e :: es).length = length
          · have helements := emitReversed_emits (e :: es) g
            rw [if_neg (not_not_intro hcount)]
            cases hcode : Layout.reversed (Scoping.find g.scopes) (e :: es) with
            | error err =>
                obtain ⟨g', hrun⟩ := helements.run_error hcode
                exact .error (by simp [compileArrayDecl, hlength, ← hcount, hrun])
            | ok code =>
                have hrun := helements.run_ok hcode
                have hlen := Layout.reversed_length_le _ hcode
                rw [ok_bind]
                cases hbase : Scoping.array g.scopes name ty length with
                | error err =>
                    exact .error (by simp_all [compileArrayDecl])
                | ok p =>
                    obtain ⟨base, s⟩ := p
                    refine .ok (by simp; omega) ?_
                    simp_all [compileArrayDecl]
          · rw [if_pos hcount]
            exact .error (by simp_all [compileArrayDecl])

theorem compileArrayAssign_lays (name : String) (index value : Expr) :
    Lays (compileArrayAssign name index value) (Layout.arrayAssign name index value)
      (value.warnings ++ index.warnings) (value.codeBound + index.codeBound + 5) := by
  intro g
  have hvalue := emitExpr_emits value g
  rw [Layout.arrayAssign]
  cases hcode : Layout.expr (Scoping.find g.scopes) value with
  | error e =>
      obtain ⟨g', hrun⟩ := hvalue.run_error hcode
      exact .error (by simp [compileArrayAssign, hrun])
  | ok code =>
      have hrun := hvalue.run_ok hcode
      have hlen := Layout.expr_length_le _ hcode
      rw [ok_bind]
      cases harray : Layout.array (Scoping.find g.scopes) name with
      | error e => exact .error (by simp [compileArrayAssign, hrun, harray])
      | ok array =>
          rw [ok_bind, Layout.elementSlot]
          cases hindex : index.literalInt? with
          | some i =>
              obtain rfl := Expr.eq_int_of_literalInt? hindex
              dsimp only
              cases hoffset : checkBounds name i array.length with
              | error e =>
                  exact .error (by simp [compileArrayAssign, hrun, harray, hindex, hoffset])
              | ok offset =>
                  refine .ok (by simp [Expr.codeBound]; omega) ?_
                  simp [compileArrayAssign, hrun, harray, hindex, hoffset, Expr.warnings]
          | none =>
              have hemits := emitExpr_emits index
                (g.after (code ++ [.pushNat 1]) g.scopes value.warnings)
              rw [after_scopes] at hemits
              cases hslot : Layout.expr (Scoping.find g.scopes) index with
              | error e =>
                  obtain ⟨g', hrun'⟩ := hemits.run_error hslot
                  exact .error (by simp [compileArrayAssign, hrun, harray, hindex, hrun'])
              | ok slot =>
                  have hrun' := hemits.run_ok hslot
                  have hlen' := Layout.expr_length_le _ hslot
                  refine .ok (by simp; omega) ?_
                  simp [compileArrayAssign, hrun, harray, hindex, hrun']

theorem compileOutput_lays (e : Expr) (op arrayOp : Opcode) :
    Lays (compileOutput e op arrayOp) (Layout.output e op arrayOp) e.warnings
      (e.codeBound + 3) := by
  intro g
  have hident := arrayIdent_run e g
  have hemits := emitExpr_emits e g
  rw [Layout.output]
  cases harray : Layout.arrayIdent (Scoping.find g.scopes) e with
  | some array =>
      obtain ⟨name, rfl⟩ : ∃ name, e = .ident name := by
        cases e <;> simp_all [Layout.arrayIdent]
      refine .ok (by simp [Expr.codeBound]) ?_
      simp [compileOutput, hident, harray, emitWholeArray, Expr.warnings]
  | none =>
      cases hcode : Layout.expr (Scoping.find g.scopes) e with
      | error err =>
          obtain ⟨g', hrun⟩ := hemits.run_error hcode
          exact .error (by simp [compileOutput, hident, harray, hrun])
      | ok code =>
          have hrun := hemits.run_ok hcode
          have hlen := Layout.expr_length_le _ hcode
          refine .ok (by simp; omega) ?_
          simp [compileOutput, hident, harray, hrun]

/-- Operands in order and an opcode, whatever the number of operands. -/
theorem operation_lays (es : List Expr) (op : Opcode) :
    Lays (do emitAll es; emit [.plain op]) (Layout.operation es op)
      (es.flatMap Expr.warnings) (Expr.argsBound es + 1) := by
  intro g
  have hemits := emitAll_emits es g
  rw [Layout.operation]
  cases hcode : Layout.inOrder (Scoping.find g.scopes) es with
  | error e =>
      obtain ⟨g', hrun⟩ := hemits.run_error hcode
      exact .error (by simp [hrun])
  | ok code =>
      have hrun := hemits.run_ok hcode
      have hlen := Layout.inOrder_length_le _ hcode
      refine .ok (by simp; omega) ?_
      simp [hrun]

/-! ## Frames -/

section

variable {x : GenM Unit} {g : Generator} (before before' code : List Instruction)
  {s s' : ScopeStack} {w w' : List Diagnostic}

/-- Steps that succeed inside a frame: closing it fills in its size.  They may also fill
in what was reserved before the frame was opened. -/
theorem inFrame_run (hbefore : before'.length = before.length)
    (hx : x.run (g.after (before ++ [.reserved, .plain .oframe]) s.enter w) =
      .ok () (g.after (before' ++ .reserved :: .plain .oframe :: code) s' w')) :
    (inFrame x).run (g.after before s w) = match Scoping.leave s' with
      | .ok (size, t) => .ok () (g.after (before' ++ framed size code) t w')
      | .error e => .error e
        (g.after (before' ++ .reserved :: .plain .oframe :: code) s' w') := by
  have hindex : g.block.here + before.length = g.block.here + before'.length := by omega
  cases hleave : Scoping.leave s' with
  | error e => simp [inFrame, openFrame, closeFrame, hx, hleave]
  | ok p =>
      obtain ⟨size, t⟩ := p
      have hpatch := patchCount_run g before' (.plain .oframe :: code) t w' _ size hindex
      simp [inFrame, openFrame, closeFrame, hx, hleave, hpatch, framed]

theorem inFrame_error {e : CompileError}
    (hx : ∃ g', x.run (g.after (before ++ [.reserved, .plain .oframe]) s.enter w) =
      .error e g') :
    ∃ g', (inFrame x).run (g.after before s w) = .error e g' := by
  obtain ⟨g', hrun⟩ := hx
  exact ⟨g', by simp [inFrame, openFrame, hrun]⟩

/-- A construct whose frame holds `code`: what is left to it is to close the scope. -/
theorem LaysAt.framed {y : GenM Unit} {bound : Nat}
    (hy : y.run g = (inFrame x).run (g.after before g.scopes []))
    (hbefore : before'.length = before.length)
    (hlen : before.length + code.length + 3 ≤ bound)
    (hx : x.run (g.after (before ++ [.reserved, .plain .oframe]) g.scopes.enter []) =
      .ok () (g.after (before' ++ .reserved :: .plain .oframe :: code) s w)) :
    LaysAt y g w bound (do
      let (size, s) ← Scoping.leave s
      pure (before' ++ PadCompiler.framed size code, s)) := by
  have hframe := inFrame_run before before' code hbefore hx
  rw [← hy] at hframe
  cases hleave : Scoping.leave s with
  | error e => exact .error ⟨_, by rw [hframe, hleave]⟩
  | ok p =>
      obtain ⟨size, t⟩ := p
      refine .ok ?_ (by rw [hframe, hleave])
      simp only [PadCompiler.framed, List.length_append, List.length_cons, List.length_nil]
      omega

end

/-! ## Constructs -/

/-- A test, negated. -/
theorem compileTest_emits (test : Expr) (g : Generator) :
    Emits (compileTest test) g test.warnings
      (do let code ← Layout.expr (Scoping.find g.scopes) test; pure (negated code)) () := by
  have hemits := emitExpr_emits test g
  unfold Emits
  cases hcode : Layout.expr (Scoping.find g.scopes) test with
  | error e =>
      obtain ⟨g', hrun⟩ := hemits.run_error hcode
      exact ⟨g', by simp [compileTest, hrun]⟩
  | ok code =>
      have hrun := hemits.run_ok hcode
      simp [compileTest, hrun, negated, pure, Except.pure]

/-- A step that is told where the code ends. -/
theorem here_bind_run (f : Nat → GenM Unit) (g : Generator) :
    (do f (← here) : GenM Unit).run g = (f g.block.here).run g := rfl

/-- A reserved jump. -/
theorem reserve_jmp_run (f : Reservation → GenM Unit) (g : Generator) :
    (do let r ← reserve; emit [.plain .jmp]; f r : GenM Unit).run g =
      (f ⟨g.block.here⟩).run (g.after [.reserved, .plain .jmp] g.scopes []) := by
  simp

section

variable {body otherwise : GenM Unit} {layout layout' : Layout ScopeStack}
  {w w' : List Diagnostic} {b b' : Nat}

/-- A nested block: the code of its body in a frame. -/
theorem inFrame_lays (hbody : Lays body layout w b) :
    Lays (inFrame body) (Layout.nested layout) w (b + 3) := by
  intro g
  let opened := g.after [.reserved, .plain .oframe] g.scopes.enter []
  have hstart : (inFrame body).run g = (inFrame body).run (g.after [] g.scopes []) := by
    rw [after_nil]
  have hinside : LaysAt body opened w b (layout g.scopes.enter) := hbody opened
  have hbound : opened.block.here + b ≤ g.block.here + (b + 3) := by simp [opened]; omega
  have hfails : ∀ e, (∃ g', body.run opened = .error e g') →
      ∃ g', (inFrame body).run g = .error e g' := by
    intro e hrun
    rw [hstart]
    exact inFrame_error [] hrun
  change LaysAt _ g w _ (do
    let (code, s) ← layout g.scopes.enter
    let (size, s) ← Scoping.leave s
    pure (framed size code, s))
  cases hcode : layout g.scopes.enter with
  | error e =>
      rw [hcode] at hinside
      exact hinside.fails hfails hbound
  | ok p =>
      obtain ⟨code, s⟩ := p
      rw [hcode] at hinside
      dsimp only [ok_bind]
      cases hinside with
      | overflow hrun hlong => exact .overflow (hfails _ hrun) (by omega)
      | ok hlen hrun =>
          exact LaysAt.framed [] [] code hstart rfl (by simp; omega) (by simpa [opened] using hrun)

/-- The part of a conditional that comes before the alternative, if any. -/
theorem guarded_lays (test : Expr) (hbody : Lays body layout w b) :
    Lays (do compileTest test; emit [.plain .cjmp]; body) (fun s => do
      let test ← Layout.expr (Scoping.find s) test
      let (body, s) ← layout s
      pure (negated test ++ .plain .cjmp :: body, s)) (test.warnings ++ w)
      (test.codeBound + b + 3) := by
  intro g
  have htest := compileTest_emits test g
  change LaysAt _ g _ _ (do
    let test ← Layout.expr (Scoping.find g.scopes) test
    let (body, s) ← layout g.scopes
    pure (negated test ++ .plain .cjmp :: body, s))
  cases hcode : Layout.expr (Scoping.find g.scopes) test with
  | error e =>
      obtain ⟨g', hrun⟩ := htest.run_error (by rw [hcode]; rfl)
      exact .error ⟨g', by simp [hrun]⟩
  | ok testCode =>
      have hrunTest := htest.run_ok (by rw [hcode]; rfl)
      have hlenTest := Layout.expr_length_le _ hcode
      let tested := g.after (negated testCode ++ [.plain .cjmp]) g.scopes test.warnings
      have hstart : (do compileTest test; emit [.plain .cjmp]; body : GenM Unit).run g =
          body.run tested := by
        simp [hrunTest, tested]
      have hbound : tested.block.here + b ≤ g.block.here + (test.codeBound + b + 3) := by
        simp [tested, negated]
        omega
      have hbodyAt : LaysAt body tested w b (layout g.scopes) := hbody tested
      dsimp only [ok_bind]
      cases hlayout : layout g.scopes with
      | error e =>
          rw [hlayout] at hbodyAt
          exact hbodyAt.fails (fun _ => by rw [hstart]; exact id) hbound
      | ok p =>
          obtain ⟨code, s⟩ := p
          rw [hlayout] at hbodyAt
          cases hbodyAt with
          | overflow hrun hlong => exact .overflow (by rw [hstart]; exact hrun) (by omega)
          | ok hlen hrun =>
              refine .ok (by simp [negated]; omega) ?_
              rw [hstart, hrun]
              simp [tested]

/-- A construct with a reserved push in front, whose frame starts with a guarded body: it
does what `rest` does from the end of the body. -/
theorem guardedFrame_lays (test : Expr) (hbody : Lays body layout w b) {x rest : GenM Unit}
    {g : Generator} {bound : Nat}
    (k : List Instruction → List Instruction → ScopeStack →
      Except CompileError (List Instruction × ScopeStack))
    (hx : x.run g = (inFrame (do (do compileTest test; emit [.plain .cjmp]; body); rest)).run
      (g.after [.reserved] g.scopes []))
    (hbound : test.codeBound + b + 6 ≤ bound)
    (hrest : ∀ testCode code s inside, inside = negated testCode ++ .plain .cjmp :: code →
      inside.length ≤ test.codeBound + b + 3 →
      (∀ g', rest.run (g.after (.reserved :: .reserved :: .plain .oframe :: inside) s
          (test.warnings ++ w)) = .ok () g' →
        (do (do compileTest test; emit [.plain .cjmp]; body); rest : GenM Unit).run
          (g.after ([.reserved] ++ [.reserved, .plain .oframe]) g.scopes.enter []) =
            .ok () g') →
      (∀ e, (∃ g', rest.run (g.after (.reserved :: .reserved :: .plain .oframe :: inside) s
          (test.warnings ++ w)) = .error e g') → ∃ g', x.run g = .error e g') →
      LaysAt x g w' bound (k testCode code s)) :
    LaysAt x g w' bound (do
      let test ← Layout.expr (Scoping.find g.scopes.enter) test
      let (code, s) ← layout g.scopes.enter
      k test code s) := by
  let guarded : GenM Unit := do compileTest test; emit [.plain .cjmp]; body
  let opened := g.after ([.reserved] ++ [.reserved, .plain .oframe]) g.scopes.enter []
  have hfails : ∀ e, (∃ g', (do guarded; rest : GenM Unit).run opened = .error e g') →
      ∃ g', x.run g = .error e g' := by
    intro e hrun
    rw [hx]
    exact inFrame_error [.reserved] hrun
  have hfailsGuarded : ∀ e, (∃ g', guarded.run opened = .error e g') →
      ∃ g', x.run g = .error e g' := by
    rintro e ⟨g', hrun⟩
    exact hfails e ⟨g', by rw [EStateM.run_bind, hrun]⟩
  have hopened : opened.block.here + (test.codeBound + b + 3) ≤ g.block.here + bound := by
    simp [opened]
    omega
  have hguarded : LaysAt guarded opened (test.warnings ++ w) (test.codeBound + b + 3) (do
      let test ← Layout.expr (Scoping.find g.scopes.enter) test
      let (body, s) ← layout g.scopes.enter
      pure (negated test ++ .plain .cjmp :: body, s)) := guarded_lays test hbody opened
  cases hcode : Layout.expr (Scoping.find g.scopes.enter) test with
  | error e =>
      rw [hcode] at hguarded
      exact hguarded.fails hfailsGuarded hopened
  | ok testCode =>
      rw [hcode] at hguarded
      dsimp only [ok_bind] at hguarded ⊢
      cases hlayout : layout g.scopes.enter with
      | error e =>
          rw [hlayout] at hguarded
          exact hguarded.fails hfailsGuarded hopened
      | ok p =>
          obtain ⟨code, s⟩ := p
          rw [hlayout] at hguarded
          dsimp only [ok_bind] at hguarded ⊢
          cases hguarded with
          | overflow hrun hlong => exact .overflow (hfailsGuarded _ hrun) (by omega)
          | ok hlen hrun =>
              rw [after_after, List.nil_append] at hrun
              have hthen : (do guarded; rest : GenM Unit).run opened = rest.run (g.after
                  (.reserved :: .reserved :: .plain .oframe ::
                    (negated testCode ++ .plain .cjmp :: code)) s (test.warnings ++ w)) := by
                rw [EStateM.run_bind, hrun]
                rfl
              exact hrest testCode code s _ rfl hlen (fun g' h => hthen.trans h)
                fun e h => hfails e (by rw [hthen]; exact h)

/-- A conditional without alternative: the push in front, reserved before the frame is
opened, is filled in when the end of the body is reached. -/
theorem compileIf_lays (test : Expr) (hbody : Lays body layout w b) :
    Lays (compileIf test body) (Layout.conditional test layout) (test.warnings ++ w)
      (test.codeBound + b + 7) := by
  intro g
  let close : GenM Unit := do patchJump ⟨g.block.here⟩ (← here)
  have hstart : (compileIf test body).run g =
      (inFrame (do (do compileTest test; emit [.plain .cjmp]; body); close)).run
        (g.after [.reserved] g.scopes []) := by
    simp [compileIf, close]
  refine guardedFrame_lays test hbody (fun test code s => do
    let (size, s) ← Scoping.leave s
    pure (conditionalCode size test code, s)) hstart (by omega) ?_
  intro testCode code s inside hinside hlen hok hfails
  let ended := g.after (.reserved :: .reserved :: .plain .oframe :: inside) s (test.warnings ++ w)
  have hhere : ended.block.here = g.block.here + (inside.length + 3) := by simp [ended]
  have hclose : close.run ended =
      (patchJump ⟨g.block.here⟩ (g.block.here + (inside.length + 3))).run ended := by
    rw [here_bind_run (patchJump ⟨g.block.here⟩), hhere]
  have hdist : ((g.block.here + (inside.length + 3) : Nat) : Int) - g.block.here =
      inside.length + 3 := by omega
  have hpatch := patchJump_run g [] (.reserved :: .plain .oframe :: inside) s
    (test.warnings ++ w) g.block.here (g.block.here + (inside.length + 3)) (by simp)
  simp only [List.nil_append] at hpatch
  rw [← hclose, hdist] at hpatch
  rcases hpatch with hpatch | ⟨hpatch, hlong⟩
  · subst hinside
    exact LaysAt.framed [.reserved] [jumpBy _] _ hstart rfl
      (by simp only [List.length_singleton]; omega) (hok _ hpatch)
  · exact .overflow (hfails _ ⟨_, hpatch⟩) (by omega)

/-- A conditional with an alternative.  The alternative is made in a rewound scope, which
does for a fresh one because its size has no say in the code. -/
theorem compileIfElse_lays (test : Expr) (hbody : Lays body layout w b)
    (hotherwise : Lays otherwise layout' w' b') (hraise : ∀ h, Tracks (Raised h) layout' layout') :
    Lays (compileIfElse test body otherwise) (Layout.alternative test layout layout')
      (test.warnings ++ w ++ w') (test.codeBound + b + b' + 9) := by
  intro g
  let front : Reservation := ⟨g.block.here⟩
  let finish (skip : Reservation) : GenM Unit := do patchJump skip (← here)
  let second (skip : Reservation) : GenM Unit := do rewindScope; otherwise; finish skip
  let close : GenM Unit := do
    let skip ← reserve
    emit [.plain .jmp]
    patchJump front (← here)
    second skip
  have hstart : (compileIfElse test body otherwise).run g =
      (inFrame (do (do compileTest test; emit [.plain .cjmp]; body); close)).run
        (g.after [.reserved] g.scopes []) := by
    simp [compileIfElse, close, second, finish, front]
  refine guardedFrame_lays test hbody (fun test code s => do
    let (otherwise, t) ← layout' (Scoping.fresh s)
    let (size, t) ← Scoping.leave t
    pure (alternativeCode (Nat.max (Scoping.size s) size) test code otherwise, t))
    hstart (by omega) ?_
  intro testCode code s inside hinside hlen hok hfails
  let toElse := jumpBy (inside.length + 5)
  let opening := Instruction.reserved :: .plain .oframe :: inside
  let ended := g.after (.reserved :: opening) s (test.warnings ++ w)
  let jumped := g.after (.reserved :: (opening ++ [.reserved, .plain .jmp])) s (test.warnings ++ w)
  let skip : Reservation := ⟨g.block.here + (inside.length + 3)⟩
  have hfirst : close.run ended = (do
      patchJump front (g.block.here + (inside.length + 5))
      second skip : GenM Unit).run jumped := by
    have hhere : ended.block.here = g.block.here + (inside.length + 3) := by
      simp [ended, opening]
    have hhere' : jumped.block.here = g.block.here + (inside.length + 5) := by
      simp [jumped, opening]
    have hjumped : ended.after [.reserved, .plain .jmp] s [] = jumped := by
      simp [ended, jumped, opening]
    rw [reserve_jmp_run (fun skip => do patchJump front (← here); second skip),
      here_bind_run (fun n => do patchJump front n; second _), hhere, after_scopes, hjumped, hhere']
  have hdist : ((g.block.here + (inside.length + 5) : Nat) : Int) - g.block.here =
      inside.length + 5 := by omega
  rcases patchJump_run g [] (opening ++ [.reserved, .plain .jmp]) s (test.warnings ++ w)
      g.block.here (g.block.here + (inside.length + 5)) (by simp) with hpatch | ⟨hpatch, hlong⟩
  · let patched := toElse :: (opening ++ [.reserved, .plain .jmp])
    let rewound := g.after patched s.rewind (test.warnings ++ w)
    have hsecond : close.run ended = (do otherwise; finish skip : GenM Unit).run rewound := by
      rw [List.nil_append, hdist] at hpatch
      rw [hfirst, bind_run_ok hpatch, bind_run_ok (rewindScope_run _), after_after, List.append_nil,
        List.append_nil]
      rfl
    have hbound : rewound.block.here + b' ≤ g.block.here + (test.codeBound + b + b' + 9) := by
      simp [rewound, patched, opening]
      omega
    have hfailsElse : ∀ e, (∃ g', otherwise.run rewound = .error e g') →
        ∃ g', (compileIfElse test body otherwise).run g = .error e g' := by
      rintro e ⟨g', hrun⟩
      exact hfails e ⟨g', hsecond.trans (bind_run_error hrun)⟩
    have helse : LaysAt otherwise rewound w' b' (layout' s.rewind) := hotherwise rewound
    have hagree : Agree (Raised s.inner.slots 0) (layout' (Scoping.fresh s)) (layout' s.rewind) :=
      hraise _ 0 _ _ (ScopeStack.rewind_eq_raise s)
    generalize layout' s.rewind = rewoundLayout at helse hagree
    dsimp only
    generalize layout' (Scoping.fresh s) = freshLayout at hagree ⊢
    cases hagree with
    | error e => exact helse.fails hfailsElse hbound
    | @ok elseCode t u hu =>
        cases helse with
        | overflow hrun hlong => exact .overflow (hfailsElse _ hrun) (by omega)
        | ok hlenElse hrun =>
            subst hu
            let target := g.block.here + (inside.length + (5 + elseCode.length))
            let warned := test.warnings ++ w ++ w'
            let raised := t.raise s.inner.slots 0
            have hstate : rewound.after elseCode raised w' =
                g.after (toElse :: opening ++ .reserved :: .plain .jmp :: elseCode) raised
                  warned := by
              simp [rewound, patched, warned]
            have hhere : (g.after (toElse :: opening ++ .reserved :: .plain .jmp :: elseCode) raised
                warned).block.here = target := by
              simp [opening, target]
              omega
            have hfinish : close.run ended = (patchJump skip target).run
                (g.after (toElse :: opening ++ .reserved :: .plain .jmp :: elseCode) raised
                  warned) := by
              rw [hsecond, bind_run_ok hrun, here_bind_run (patchJump skip), hstate, hhere]
            have hdist' : (target : Int) - (g.block.here + (inside.length + 3) : Nat) =
                elseCode.length + 2 := by omega
            have hpatch' := patchJump_run g (toElse :: opening) (.plain .jmp :: elseCode) raised
              warned (g.block.here + (inside.length + 3)) target (by simp [opening])
            rw [← hfinish, hdist'] at hpatch'
            rcases hpatch' with hpatch' | ⟨hpatch', hlong⟩
            · have hlays : LaysAt _ g warned (test.codeBound + b + b' + 9) _ :=
                LaysAt.framed [.reserved] [toElse]
                  (inside ++ jumpBy (elseCode.length + 2) :: .plain .jmp :: elseCode) hstart rfl
                  (by simp; omega) (hok _ hpatch')
              rw [ScopeStack.leave_raise_zero] at hlays
              subst hinside
              dsimp only [ok_bind]
              cases hleave : Scoping.leave t with
              | error e => rw [hleave] at hlays; exact hlays
              | ok p => rw [hleave] at hlays; exact hlays
            · exact .overflow (hfails _ ⟨_, hpatch'⟩) (by omega)
  · exact .overflow (hfails _ ⟨_, hfirst.trans (bind_run_error hpatch)⟩) (by omega)

end

/-- The end of a loop: a jump back to the test, and the way out filled in. -/
theorem loopEnd_run (g : Generator) (opening guard turn : List Instruction) (s : ScopeStack)
    (w : List Diagnostic) (top exit : Nat) (htop : top = g.block.here + opening.length)
    (hexit : exit = top + guard.length) :
    let close : GenM Unit := do
      let back ← reserve
      emit [.plain .jmp]
      patchJump back top
      patchJump ⟨exit⟩ (← here)
    let ended := g.after (opening ++ guard ++ .reserved :: .plain .cjmp :: turn) s w
    close.run ended = .ok () (g.after (opening ++ (guard ++
        jumpBy (turn.length + 4) :: .plain .cjmp :: turn ++
        [jumpBy (-(guard.length + turn.length + 2)), .plain .jmp])) s w) ∨
      (∃ g', close.run ended = .error (.fault .subOverflow) g') ∧
        signedLimit ≤ (exit + turn.length + 4 : Nat) := by
  intro close ended
  let before := opening ++ guard ++ .reserved :: .plain .cjmp :: turn
  let back := exit + turn.length + 2
  let again := jumpBy (-(guard.length + turn.length + 2))
  let jumped := g.after (before ++ [.reserved, .plain .jmp]) s w
  have hback : back = g.block.here + before.length := by
    simp [back, before, hexit, htop]
    omega
  have hfirst : close.run ended = (do
      patchJump ⟨back⟩ top; patchJump ⟨exit⟩ (← here) : GenM Unit).run jumped := by
    have hhere : ended.block.here = back := by rw [hback, after_here]
    have hjumped : ended.after [.reserved, .plain .jmp] s [] = jumped := by
      simp [ended, jumped, before]
    rw [reserve_jmp_run (fun back => do patchJump back top; patchJump ⟨exit⟩ (← here)), hhere,
      after_scopes, hjumped]
  have hdist : (top : Int) - back = -(guard.length + turn.length + 2) := by omega
  have hpatch := patchJump_run g before [.plain .jmp] s w back top hback
  rw [hdist] at hpatch
  rcases hpatch with hpatch | ⟨hpatch, hlong⟩
  · let patched := g.after (opening ++ guard ++ .reserved :: (.plain .cjmp :: turn ++
      [again, .plain .jmp])) s w
    have hpatched : g.after (before ++ again :: [.plain .jmp]) s w = patched := by
      simp [before, patched]
    have hhere : patched.block.here = exit + turn.length + 4 := by
      simp [patched, hexit, htop]
      omega
    have hsecond : close.run ended = (patchJump ⟨exit⟩ (exit + turn.length + 4)).run patched := by
      rw [hfirst, bind_run_ok hpatch, here_bind_run (patchJump ⟨exit⟩), hpatched, hhere]
    have hdist' : ((exit + turn.length + 4 : Nat) : Int) - exit = turn.length + 4 := by omega
    have hpatch' := patchJump_run g (opening ++ guard) (.plain .cjmp :: turn ++
      [again, .plain .jmp]) s w exit (exit + turn.length + 4) (by simp [hexit, htop]; omega)
    rw [← hsecond, hdist'] at hpatch'
    rcases hpatch' with hpatch' | ⟨hpatch', hlong⟩
    · exact .inl (by simpa only [List.append_assoc, List.cons_append] using hpatch')
    · exact .inr ⟨⟨_, hpatch'⟩, by omega⟩
  · exact .inr ⟨⟨_, hfirst.trans (bind_run_error hpatch)⟩, by omega⟩

/-- A part that may be absent. -/
theorem optional_lays {x : α → GenM Unit} {part : α → Layout ScopeStack}
    {w : α → List Diagnostic} {bound : α → Nat} (hx : ∀ a, Lays (x a) (part a) (w a) (bound a))
    (o : Option α) :
    Lays (o.forM x) (Layout.optional part o) (o.elim [] w) (o.elim 0 bound) := by
  cases o with
  | some a => exact hx a
  | none =>
      intro g
      exact .ok (Nat.le_refl 0) (by simp [Option.forM])

/-- A loop: the first instruction of the test is where its last jump leads. -/
theorem compileLoop_lays {body : GenM Unit} {layout : Layout ScopeStack} {w : List Diagnostic}
    {b : Nat} (init : Option VarDecl) (test : Expr) (step : Option Assignment)
    (hbody : Lays body layout w b) :
    Lays (compileLoop init test step body) (Layout.loop init test step layout)
      (init.elim [] (·.init.warnings) ++ test.warnings ++ w ++ step.elim [] (·.value.warnings))
      (init.elim 0 (·.init.codeBound + 3) + test.codeBound + b +
        step.elim 0 (·.value.codeBound + 3) + 9) := by
  intro g
  rw [Layout.loop_eq]
  have hinit := optional_lays compileVarDecl_lays init
  have hturn := Lays.bind hbody (optional_lays compileAssign_lays step)
  generalize init.elim [] (·.init.warnings) = initWarnings at hinit ⊢
  generalize init.elim 0 (·.init.codeBound + 3) = initBound at hinit ⊢
  generalize step.elim [] (·.value.warnings) = stepWarnings at hturn ⊢
  generalize step.elim 0 (·.value.codeBound + 3) = stepBound at hturn ⊢
  let turn : GenM Unit := do body; step.forM compileAssign
  let close (top : Nat) (exit : Reservation) : GenM Unit := do
    let back ← reserve
    emit [.plain .jmp]
    patchJump back top
    patchJump exit (← here)
  let repeated (top : Nat) : GenM Unit := do
    compileTest test
    let exit ← reserve
    emit [.plain .cjmp]
    turn
    close top exit
  let inside : GenM Unit := do init.forM compileVarDecl; repeated (← here)
  let opened := g.after ([] ++ [.reserved, .plain .oframe]) g.scopes.enter []
  have hstart : (compileLoop init test step body).run g =
      (inFrame inside).run (g.after [] g.scopes []) := by
    simp [compileLoop, inside, repeated, close, turn]
  have hfails : ∀ e, (∃ g', inside.run opened = .error e g') →
      ∃ g', (compileLoop init test step body).run g = .error e g' := by
    intro e hrun
    rw [hstart]
    exact inFrame_error [] hrun
  have hfailsInit : ∀ e, (∃ g', (init.forM compileVarDecl).run opened = .error e g') →
      ∃ g', (compileLoop init test step body).run g = .error e g' := by
    rintro e ⟨g', hrun⟩
    exact hfails e ⟨g', bind_run_error hrun⟩
  have hinitAt := hinit opened
  have hopened : opened.block.here = g.block.here + 2 := by simp [opened]
  rw [after_scopes] at hinitAt
  dsimp only [Scoping.enter]
  cases hinitCode : Layout.optional Layout.varDecl init g.scopes.enter with
  | error e =>
      rw [hinitCode] at hinitAt
      exact hinitAt.fails hfailsInit (by omega)
  | ok p =>
      obtain ⟨initCode, s⟩ := p
      rw [hinitCode] at hinitAt
      dsimp only [ok_bind]
      cases hinitAt with
      | overflow hrun hlong => exact .overflow (hfailsInit _ hrun) (by omega)
      | ok hlenInit hrunInit =>
          let opening := Instruction.reserved :: .plain .oframe :: initCode
          let top := g.block.here + opening.length
          let started := g.after opening s initWarnings
          have hrepeated : inside.run opened = (repeated top).run started := by
            have hstate : opened.after initCode s initWarnings = started := by
              simp [opened, started, opening]
            have hhere : started.block.here = top := after_here _ _ _ _
            rw [bind_run_ok hrunInit, here_bind_run repeated, hstate, hhere]
          have htest := compileTest_emits test started
          rw [after_scopes] at htest
          cases htestCode : Layout.expr (Scoping.find s) test with
          | error e =>
              obtain ⟨g', hrun⟩ := htest.run_error (by rw [htestCode]; rfl)
              exact .error (hfails e ⟨g', hrepeated.trans (bind_run_error hrun)⟩)
          | ok testCode =>
              have hrunTest := htest.run_ok (by rw [htestCode]; rfl)
              have hlenTest := Layout.expr_length_le _ htestCode
              let guard := negated testCode
              let warned := initWarnings ++ test.warnings
              let tested := g.after (opening ++ guard ++ [.reserved, .plain .cjmp]) s warned
              let exit := top + guard.length
              have hturning : inside.run opened = (do turn; close top ⟨exit⟩ : GenM Unit).run
                  tested := by
                have hhere : (started.after guard s test.warnings).block.here = exit := by
                  rw [after_here, after_here]
                have hstate : ((started.after guard s test.warnings).after [.reserved] s []).after
                    [.plain .cjmp] s [] = tested := by
                  simp [started, tested, warned]
                rw [hrepeated, bind_run_ok hrunTest, bind_run_ok (reserve_run _),
                  bind_run_ok (emit_run _ _), after_scopes, after_scopes, after_scopes, hhere,
                  hstate]
              have hfailsTurn : ∀ e, (∃ g', turn.run tested = .error e g') →
                  ∃ g', (compileLoop init test step body).run g = .error e g' := by
                rintro e ⟨g', hrun⟩
                exact hfails e ⟨g', hturning.trans (bind_run_error hrun)⟩
              have hguard : guard.length ≤ test.codeBound + 2 := by
                simp [guard, negated]
                omega
              have htop : top = g.block.here + (initCode.length + 2) := by simp [top, opening]
              have htested : tested.block.here = exit + 2 := by
                simp [tested, exit, top]
                omega
              have hturnAt := hturn tested
              rw [after_scopes] at hturnAt
              dsimp only [ok_bind]
              cases hturnCode : Layout.seq layout (Layout.optional Layout.assign step) s with
              | error e =>
                  rw [hturnCode] at hturnAt
                  exact hturnAt.fails hfailsTurn (by omega)
              | ok q =>
                  obtain ⟨turnCode, t⟩ := q
                  rw [hturnCode] at hturnAt
                  dsimp only [ok_bind]
                  cases hturnAt with
                  | overflow hrun hlong => exact .overflow (hfailsTurn _ hrun) (by omega)
                  | ok hlenTurn hrunTurn =>
                      have hstate : tested.after turnCode t (w ++ stepWarnings) =
                          g.after (opening ++ guard ++ .reserved :: .plain .cjmp :: turnCode) t
                            (warned ++ (w ++ stepWarnings)) := by
                        simp [tested]
                      rw [hstate] at hrunTurn
                      have hwarned : initWarnings ++ test.warnings ++ w ++ stepWarnings =
                          warned ++ (w ++ stepWarnings) := by
                        simp [warned]
                      rw [hwarned]
                      have hclose := hturning.trans (bind_run_ok hrunTurn)
                      rcases loopEnd_run g opening guard turnCode t _ top exit rfl rfl with
                        hend | ⟨⟨g', hend⟩, hlong⟩
                      · rw [← hclose] at hend
                        refine LaysAt.framed [] [] _ hstart rfl ?_ ?_
                        · simp [negated]
                          omega
                        · simpa [opened, opening, guard] using hend
                      · exact .overflow (hfails _ ⟨g', hclose.trans hend⟩) (by omega)

/-! ## Statements -/

mutual
/-- The code of a statement comes out as the layout says. -/
theorem compileStmt_lays : (s : Stmt) →
    Lays (compileStmt s) (Layout.stmt s) s.warnings s.codeBound
  | .varDecl decl => by
      simpa only [compileStmt, Layout.stmt, Stmt.warnings, Stmt.codeBound] using
        compileVarDecl_lays decl
  | .arrayDecl name ty size es => by
      simpa only [compileStmt, Layout.stmt, Stmt.warnings, Stmt.codeBound] using
        compileArrayDecl_lays name ty size es
  | .assign assignment => by
      simpa only [compileStmt, Layout.stmt, Stmt.warnings, Stmt.codeBound] using
        compileAssign_lays assignment
  | .arrayAssign name index value => by
      simpa only [compileStmt, Layout.stmt, Stmt.warnings, Stmt.codeBound] using
        compileArrayAssign_lays name index value
  | .print value => by
      simpa only [compileStmt, Layout.stmt, Stmt.warnings, Stmt.codeBound] using
        compileOutput_lays value .print .printA
  | .delay duration => by
      simpa only [compileStmt, emitAll, bind_pure_unit, Layout.stmt, Stmt.warnings,
        Stmt.codeBound] using operation_lays [duration] .delay
  | .write x y color => by
      simpa only [compileStmt, Layout.stmt, Stmt.warnings, Stmt.codeBound] using
        operation_lays [x, y, color] .write
  | .writeBox x y width height color => by
      simpa only [compileStmt, Layout.stmt, Stmt.warnings, Stmt.codeBound] using
        operation_lays [x, y, width, height, color] .writeBox
  | .conditional test body none => by
      simpa only [compileStmt, Layout.stmt, Stmt.warnings, Stmt.codeBound] using
        compileIf_lays test (compileStmts_lays body)
  | .conditional test body (some otherwise) => by
      simpa only [compileStmt, Layout.stmt, Stmt.warnings, Stmt.codeBound] using
        compileIfElse_lays test (compileStmts_lays body) (compileStmts_lays otherwise)
          fun h => (raise_simulation h).stmts otherwise
  | .whileLoop test body => by
      simpa only [compileStmt, Layout.stmt, Stmt.warnings, Stmt.codeBound, Option.elim,
        List.nil_append, List.append_nil, Nat.zero_add, Nat.add_zero] using
        compileLoop_lays none test none (compileStmts_lays body)
  | .forLoop init test step body => by
      simpa only [compileStmt, Layout.stmt, Stmt.warnings, Stmt.codeBound] using
        compileLoop_lays init test step (compileStmts_lays body)
  | .ret value => by
      simpa only [compileStmt, Layout.stmt, Stmt.warnings, Stmt.codeBound] using
        compileOutput_lays value .ret .reta
  | .block body => by
      simpa only [compileStmt, Layout.stmt, Stmt.warnings, Stmt.codeBound] using
        inFrame_lays (compileStmts_lays body)
  | .function name params result body => fun g => by
      simp only [compileStmt, Layout.stmt, throw_eq_error]
      exact .error ⟨g, throw_run _ g⟩

/-- The code of statements comes out as the layout says. -/
theorem compileStmts_lays : (ss : List Stmt) →
    Lays (compileStmts ss) (Layout.stmts ss) (Stmt.listWarnings ss) (Stmt.listBound ss)
  | [] => fun g => by
      simp only [compileStmts, Layout.stmts, Stmt.listWarnings, Stmt.listBound]
      exact .ok (Nat.le_refl 0) (by simp)
  | s :: ss => by
      simpa only [compileStmts, Layout.stmts, Stmt.listWarnings, Stmt.listBound] using
        Lays.bind (compileStmt_lays s) (compileStmts_lays ss)
end

/-- Statements that compile leave the state that the layout says. -/
theorem compileStmts_run_ok {ss : List Stmt} {g g' : Generator}
    (hrun : (compileStmts ss).run g = .ok () g') :
    ∃ code s, Layout.stmts ss g.scopes = .ok (code, s) ∧
      g' = g.after code s (Stmt.listWarnings ss) :=
  (compileStmts_lays ss).run_ok hrun

/-- Whenever statements compile, the block is the old code, untouched, and after it the code
of the one-pass layout of the statements in the open scopes.  From any other state with the
same scopes the same code is added, whatever the block holds there; and all jumps of the
block land where they should. -/
theorem compileStmts_appends_layout (ss : List Stmt) (g g' : Generator)
    (hrun : (compileStmts ss).run g = .ok () g') :
    ∃ code s, Layout.stmts ss g.scopes = .ok (code, s) ∧
      g'.block = ⟨g.block.label, g.block.code ++ code⟩ ∧ g'.scopes = s ∧
      (∀ other other', other.scopes = g.scopes → (compileStmts ss).run other = .ok () other' →
        other'.block = ⟨other.block.label, other.block.code ++ code⟩) ∧
      ((g'.block.code.length : Int) < signedLimit → JumpsLand g'.block.code) := by
  obtain ⟨code, s, hlayout, rfl⟩ := compileStmts_run_ok hrun
  refine ⟨code, s, hlayout, rfl, rfl, ?_, jumpsLand⟩
  intro other other' hscopes hother
  obtain ⟨code', s', hlayout', rfl⟩ := compileStmts_run_ok hother
  rw [hscopes, hlayout] at hlayout'
  cases hlayout'
  rfl

/-- A loop around a conditional whose alternative holds an empty block. -/
def countingLoop : List Stmt :=
  [.forLoop (some ⟨"i", .int, .int 0⟩) (.binary .lt (.ident "i") .padWidth)
    (some ⟨"i", .binary .add (.ident "i") (.int 1)⟩)
    [.conditional (.ident "i") [.print (.ident "i")] (some [.block []])]]

/-- The loop is added to a block that holds code already. -/
theorem countingLoop_appended :
    let g := { Generator.initial {} with block := ⟨"main", [.plain .clear]⟩ }
    ∃ g' code s, (compileStmts countingLoop).run g = .ok () g' ∧
      Layout.stmts countingLoop g.scopes = .ok (code, s) ∧
      g'.block = ⟨"main", .plain .clear :: code⟩ := by
  intro g
  obtain ⟨g', hrun⟩ := run_ok_of_succeeds (x := compileStmts countingLoop) (g := g)
    (by decide +kernel)
  obtain ⟨code, s, hlayout, hblock, -⟩ := compileStmts_appends_layout countingLoop g g' hrun
  exact ⟨g', code, s, hrun, hlayout, hblock⟩

end PadCompiler.Generator
