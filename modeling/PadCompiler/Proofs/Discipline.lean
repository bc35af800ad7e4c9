import PadCompiler.Demo
import PadCompiler.Proofs.Blocks
import PadCompiler.Proofs.Flow

/-!
# PadCompiler.Proofs.Discipline

What holds on every path through code that the generator makes, for programs without `and` and
`or`.

* `operand_stack_discipline` — expressions leave one value and statements none, and neither
  reads operands that it did not push;
* `compile_balances_frames` — frames are opened and closed as they stand in the code, whatever
  way was taken, and no path leaves its block;
* `compile_orders_cjmp` — where a `cjmp` finds its target: beneath the comparison in a
  conditional, above it in a loop.
-/

namespace PadCompiler

/-! ## Code without jumps -/

/-- Instructions after which every path goes on to the next one. -/
def Instruction.isSteady (i : Instruction) : Bool :=
  i.isCalm && !i.op.ends

theorem Instruction.jump?_of_isCalm {i : Instruction} (hcalm : i.isCalm = true)
    (stack : List Mark) : i.jump? stack = none := by
  obtain ⟨op, operand⟩ := i
  cases op <;> first | rfl | simp [isCalm] at hcalm

/-- Where all instructions are steady, the scan is a path. -/
theorem Scans.reaches {code : List Instruction} {start w : Point}
    (hsteady : ∀ k i, start.pc ≤ k → code[k]? = some i → i.isSteady = true)
    (h : Scans code start w) : Reaches code start w := by
  induction h with
  | start => exact .start
  | @pass w w' i h hat hpass ih =>
      have hi := hsteady w.pc i h.le hat
      simp only [Instruction.isSteady, Bool.and_eq_true, Bool.not_eq_true'] at hi
      refine .next true ih ?_
      simp [Point.next, hat, hpass, hi.2, Instruction.jump?_of_isCalm hi.1]

theorem BinaryOp.isSteady_opcode {op : BinaryOp} {opcode : Opcode}
    (h : op.opcode? = some opcode) : (Instruction.plain opcode).isSteady = true := by
  cases op <;> first | contradiction | (cases h; rfl)

mutual
/-- The code of an expression is steady. -/
theorem ExprCode.steady {find : Lookup} {e : Expr} {code : List Instruction} :
    ExprCode find e code → code.all Instruction.isSteady = true
  | .literal value => rfl
  | .padWidth => rfl
  | .padHeight => rfl
  | .ident hfind => rfl
  | .randomInt hbound => by
      rw [List.all_append, hbound.steady]
      rfl
  | .binary hop hright hleft => by
      rw [List.all_append, List.all_append, hright.steady, hleft.steady, List.all_cons,
        BinaryOp.isSteady_opcode hop]
      rfl
  | .unsupported lhs rhs hop => rfl
  | .call hfind hargs => by
      rw [List.all_append, hargs.steady]
      rfl
  | .element hfind hindex hoffset => rfl
  | .computed hfind hlit hindex => by
      rw [List.all_append, hindex.steady]
      rfl

theorem ArgsCode.steady {find : Lookup} {es : List Expr} {code : List Instruction} :
    ArgsCode find es code → code.all Instruction.isSteady = true
  | .nil => rfl
  | .cons hothers hfirst => by
      rw [List.all_append, hothers.steady, hfirst.steady]
      rfl
end

/-! ## Stretches of code -/

/-- The instruction at the point finds its operands above `base`, and the path goes on unless the
instruction ends it. -/
def Point.StaysAbove (code : List Instruction) (base : List Mark) (w : Point) : Prop :=
  ∃ extra, w.stack = extra ++ base ∧ ∀ i, code[w.pc]? = some i →
    (∃ e, i.effect w.pc w.stack = some e ∧ e.takes ≤ extra.length) ∧
      (i.op.ends = false → ∀ jump, ∃ w', w.next code jump = some w')

section

variable {code : List Instruction} {start stop w : Point} {base : List Mark}

theorem Coherent.staysAbove {i : Instruction} (h : Coherent code start base w i)
    (hat : code[w.pc]? = some i) : w.StaysAbove code base := by
  obtain ⟨extra, e, hstack, heffect, htakes⟩ := h.operands
  refine ⟨extra, hstack, fun j hj => ?_⟩
  cases hat.symm.trans hj
  exact ⟨⟨e, heffect, htakes⟩, h.proceeds hat⟩

/-- A stretch of code that the scan walks to its end. -/
theorem Walks.covers (h : Walks code start base start stop) (hstop : stop.pc = code.length) :
    ∀ k, start.pc ≤ k → k < code.length → CoherentAt code start base k ∨ EndsAt code k :=
  fun k hle hlt => .inl (h.coherent k hle (hstop ▸ hlt))

/-- No path gets past the end of the stretch. -/
theorem Reaches.le_length (h : Walks code start base start stop) (hstop : stop.pc = code.length)
    (hw : Reaches code start w) : w.pc ≤ code.length := by
  cases hw with
  | start => exact hstop ▸ h.scans.le
  | @next v _ jump hv hnext =>
      have hscans := hv.scans (h.covers hstop)
      obtain ⟨i, hat, hcoherent⟩ := hscans.coherent (h.covers hstop) hnext
      obtain ⟨hlt, -⟩ := List.getElem?_eq_some_iff.mp hat
      rcases (hcoherent.next hscans hat hnext).2 with hpc | hlt'
      · omega
      · omega

/-- Paths through the stretch stay above the operands that were there before. -/
theorem Walks.staysAbove (h : Walks code start base start stop) (hstop : stop.pc = code.length)
    {marks : List Mark} (hstack : stop.stack = marks ++ base) (hw : Reaches code start w) :
    w.StaysAbove code base := by
  have hscans := hw.scans (h.covers hstop)
  rcases Nat.lt_or_ge w.pc code.length with hlt | hge
  · obtain ⟨i, hat, hcoherent⟩ := (h.coherent w.pc hscans.le (hstop ▸ hlt)).at hscans
    exact hcoherent.staysAbove hat
  · have hle := hw.le_length h hstop
    obtain rfl := hscans.unique h.scans (by omega)
    refine ⟨marks, hstack, fun i hi => ?_⟩
    have hnone := List.getElem?_eq_none hge
    rw [hi] at hnone
    contradiction

end

/-- Expression code at the end of a block: a path to the end of it leaves one value, and all
paths stay above what was there before. -/
theorem ExprCode.disciplined {find : Lookup} {e : Expr} {code : List Instruction}
    (h : ExprCode find e code) (hfree : e.isLogicFree = true) (before : List Instruction)
    (hlen : ((before ++ code).length : Int) < signedLimit) (stack : List Mark) (frames : Int) :
    ∃ m : Mark, m.isValue = true ∧
      Reaches (before ++ code) ⟨before.length, stack, frames⟩
        ⟨(before ++ code).length, m :: stack, frames⟩ ∧
      ∀ w, Reaches (before ++ code) ⟨before.length, stack, frames⟩ w →
        w.StaysAbove (before ++ code) stack ∧
        (w.pc = (before ++ code).length → w = ⟨(before ++ code).length, m :: stack, frames⟩) := by
  have hat : CodeAt (before ++ code) before.length code := ⟨before, [], by simp, rfl⟩
  have hstart : Scans (before ++ code) ⟨before.length, stack, frames⟩
      ⟨before.length, [] ++ stack, frames⟩ := .start
  obtain ⟨marks, ⟨hone, hvalues⟩, hwalks⟩ := h.leaves hlen hfree hstart hat
  obtain ⟨m, rfl⟩ := List.length_eq_one_iff.mp hone
  rw [← List.length_append] at hwalks
  have hsteady : ∀ k i, before.length ≤ k → (before ++ code)[k]? = some i →
      i.isSteady = true := by
    intro k i hle hi
    rw [List.getElem?_append_right hle] at hi
    exact List.all_eq_true.mp h.steady i (List.mem_of_getElem? hi)
  refine ⟨m, hvalues m (by simp), hwalks.scans.reaches hsteady, fun w hw => ⟨?_, fun hpc => ?_⟩⟩
  · exact hwalks.staysAbove rfl rfl hw
  · exact (hw.scans (hwalks.covers rfl)).unique hwalks.scans hpc

/-- Statement code at the end of a block: along all paths nothing is left above what was there
before where statements begin and end and where jumps lead. -/
theorem Shaped.disciplined {ss : List Stmt} {code : List Instruction} {bounds : List Nat}
    (h : Shaped ss code bounds) (hfree : Stmt.allLogicFree ss = true)
    (before : List Instruction) (hlen : ((before ++ code).length : Int) < signedLimit)
    {stack : List Mark} {frames : Int} {w : Point}
    (hw : Reaches (before ++ code) ⟨before.length, stack, frames⟩ w) :
    w.StaysAbove (before ++ code) stack ∧
      (∀ k ∈ bounds, w.pc = before.length + k → w.stack = stack) ∧
      ∀ index, before.length ≤ index → Leads (before ++ code) index w.pc → w.stack = stack := by
  have hat : CodeAt (before ++ code) before.length code := ⟨before, [], by simp, rfl⟩
  obtain ⟨hwalks, hbounds⟩ := h.settles hlen hfree
    (.start : Scans (before ++ code) ⟨before.length, stack, frames⟩ _) (Int.le_refl _) hat
  rw [← List.length_append] at hwalks
  have hscans := hw.scans (hwalks.covers rfl)
  refine ⟨hwalks.staysAbove rfl (List.nil_append stack).symm hw, ?_, ?_⟩
  · intro k hk hpc
    obtain ⟨frames', hk⟩ := hbounds k hk
    rw [hscans.unique hk hpc]
  · rintro index hle ⟨offset, hpush, htarget⟩
    obtain ⟨i, hi, hoffset⟩ := Option.bind_eq_some_iff.mp hpush
    obtain ⟨hlt, -⟩ := List.getElem?_eq_some_iff.mp hi
    obtain ⟨v, j, hv, rfl, hj, hcoherent⟩ := hwalks.coherent index hle hlt
    cases hi.symm.trans hj
    obtain ⟨u, hu, hpc, hstack⟩ := hcoherent.leads offset hoffset
    have hsame : (u.pc : Int) = w.pc := hpc.trans (jumpTarget_eq_ok htarget)
    rw [hscans.unique hu (Int.ofNat.inj hsame.symm), hstack]

namespace Generator

/-- Code that comes of an expression is its layout. -/
theorem compileExpr_run_ok {e : Expr} {g g' : Generator} {kind : Lowered}
    {code : List Instruction} (h : (compileExpr e).run g = .ok (kind, code) g') :
    Layout.expr (Scoping.find g.scopes) e = .ok code := by
  have hyields := lowerExpr_yields g e
  unfold Yields at hyields
  cases hcode : Layout.expr (Scoping.find g.scopes) e with
  | error err =>
      rw [hcode] at hyields
      obtain ⟨raised, -, hrun⟩ := hyields
      simp only [compileExpr, EStateM.run_bind, hrun] at h
      contradiction
  | ok code' =>
      rw [hcode] at hyields
      obtain ⟨l, hrun, -, hcommit⟩ := hyields
      simp only [compileExpr, EStateM.run_bind, hrun, hcommit, EStateM.run_pure] at h
      cases h
      rfl

/-- Statements make a block no longer than their bound says. -/
theorem compileStmts_length_le {ss : List Stmt} {g g' : Generator}
    (hrun : (compileStmts ss).run g = .ok () g') :
    g'.block.code.length ≤ g.block.here + Stmt.listBound ss := by
  have hlays := compileStmts_lays ss g
  generalize Layout.stmts ss g.scopes = r at hlays
  cases hlays with
  | @ok code s hlen hok =>
      rw [hok] at hrun
      cases hrun
      have hhere : (g.after code s (Stmt.listWarnings ss)).block.here =
          g.block.here + code.length := after_here ..
      exact Nat.le_trans (Nat.le_of_eq hhere) (Nat.add_le_add_left hlen _)
  | error hfail => simp [hrun] at hfail
  | overflow hfail => simp [hrun] at hfail

end Generator

/-- Running the code of an expression on any stack never takes what was there before and leaves
exactly one value more.  Along every path through the code of statements, no instruction takes
what was on the stack at the start, and exactly that is left where a statement begins or ends
and where a jump leads.

Array lengths in scope are signed words, as all declared ones are, and so is the length of the
block. -/
theorem operand_stack_discipline :
    (∀ e g g' kind code, (Generator.compileExpr e).run g = .ok (kind, code) g' →
      e.isLogicFree = true → ∀ before : List Instruction,
      ((before ++ code).length : Int) < signedLimit → ∀ stack frames,
      ∃ m : Mark, m.isValue = true ∧
        Reaches (before ++ code) ⟨before.length, stack, frames⟩
          ⟨(before ++ code).length, m :: stack, frames⟩ ∧
        ∀ w, Reaches (before ++ code) ⟨before.length, stack, frames⟩ w →
          w.StaysAbove (before ++ code) stack ∧
          (w.pc = (before ++ code).length →
            w = ⟨(before ++ code).length, m :: stack, frames⟩)) ∧
    ∀ ss g g', (Generator.compileStmts ss).run g = .ok () g' → Stmt.allLogicFree ss = true →
      g.scopes.Fits → (g'.block.code.length : Int) < signedLimit →
      ∃ code bounds, g'.block.code = g.block.code ++ code ∧ Shaped ss code bounds ∧
        g'.scopes.Fits ∧
        ∀ stack frames w, Reaches g'.block.code ⟨g.block.here, stack, frames⟩ w →
          w.StaysAbove g'.block.code stack ∧
          (∀ k ∈ bounds, w.pc = g.block.here + k → w.stack = stack) ∧
          ∀ index, g.block.here ≤ index → Leads g'.block.code index w.pc → w.stack = stack := by
  constructor
  · intro e g g' kind code hrun hfree before hlen stack frames
    have hcode := Layout.exprCode_of_ok e (Generator.compileExpr_run_ok hrun)
    exact hcode.disciplined hfree before hlen stack frames
  · intro ss g g' hrun hfree hfits hlen
    obtain ⟨code, s, hlayout, rfl⟩ := Generator.compileStmts_run_ok hrun
    obtain ⟨bounds, hshaped, hfits'⟩ := Layout.stmts_shapes ss hfits hlayout
    exact ⟨code, bounds, rfl, hshaped, hfits', fun stack frames w hw =>
      hshaped.disciplined hfree g.block.code hlen hw⟩

/-- The counting loop and an expression, each behind other code. -/
theorem countingLoop_operand_stack :
    let g := { Generator.initial {} with block := ⟨"main", [.plain .clear]⟩ }
    let e := Expr.binary .sub (.randomInt .padHeight) (.int 2)
    let value := [.push (.int 2), .plain .height, .plain .irnd, .plain .sub]
    ((Generator.compileExpr e).run g = .ok (.dynamic, value) g ∧
      ∃ m, Reaches (.plain .clear :: value) ⟨1, [], 0⟩ ⟨5, [m], 0⟩) ∧
    ∃ g' code bounds, (Generator.compileStmts Generator.countingLoop).run g = .ok () g' ∧
      g'.block.code = .plain .clear :: code ∧ Shaped Generator.countingLoop code bounds ∧
      ∀ stack frames w, Reaches g'.block.code ⟨1, stack, frames⟩ w →
        w.StaysAbove g'.block.code stack := by
  intro g e value
  obtain ⟨hexpr, hstmts⟩ := operand_stack_discipline
  constructor
  · have hrun : (Generator.compileExpr e).run g = .ok (.dynamic, value) g := rfl
    obtain ⟨m, -, hreaches, -⟩ := hexpr e g g .dynamic value hrun (by decide) [.plain .clear]
      (by decide) [] 0
    exact ⟨hrun, m, hreaches⟩
  · obtain ⟨g', hrun⟩ := Generator.run_ok_of_succeeds
      (x := Generator.compileStmts Generator.countingLoop) (g := g) (by decide +kernel)
    have hle := Generator.compileStmts_length_le hrun
    have hbound : ((g.block.here + Stmt.listBound Generator.countingLoop : Nat) : Int) <
        signedLimit := by decide
    have hfits : g.scopes.Fits := List.forall_mem_cons.mpr ⟨.empty, by simp [g, Generator.initial]⟩
    obtain ⟨code, bounds, hblock, hshaped, -, hpaths⟩ :=
      hstmts _ g g' hrun (by decide) hfits (by omega)
    exact ⟨g', code, bounds, hrun, hblock, hshaped, fun stack frames w hw =>
      (hpaths stack frames w hw).1⟩

/-! ## Blocks -/

/-- The code of a block, on any stack: it is coherent but for a last `ret`, which may lack its
value, and its last instruction ends every path. -/
structure BlockCoherent (code : List Instruction) : Prop where
  coherent : ∀ stack k, k < code.length →
    CoherentAt code { stack } stack k ∨ code[k]? = some (.plain .ret)
  last : EndsAt code (code.length - 1)
  nonempty : 0 < code.length

theorem Program.isLogicFree_function {p : Program} (hfree : p.isLogicFree = true)
    {d : FunctionDecl} (hd : d ∈ p.functions) : Stmt.allLogicFree d.body = true := by
  have hitem := Stmt.allLogicFree_eq_true.mp hfree _ (mem_items_of_mem_functions hd)
  simpa only [Stmt.isLogicFree] using hitem

theorem Program.isLogicFree_statements {p : Program} (hfree : p.isLogicFree = true) :
    Stmt.allLogicFree p.statements = true :=
  Stmt.allLogicFree_eq_true.mpr fun s hs =>
    Stmt.allLogicFree_eq_true.mp hfree s (List.mem_filter.mp hs).1

theorem Frame.Fits.addParams {f : Frame} (hf : f.Fits) (params : List Param) :
    (f.addParams params).Fits := by
  induction params generalizing f with
  | nil => exact hf
  | cons param params ih => exact ih (hf.add param.name 1 trivial)

theorem Frame.Fits.addFunctions {f : Frame} (hf : f.Fits) (ds : List FunctionDecl) :
    (f.addFunctions ds).Fits := by
  induction ds generalizing f with
  | nil => exact hf
  | cons d ds ih => exact ih (hf.add d.name 0 trivial)

/-- The code of a `return` ends with an instruction that ends every path. -/
theorem SimpleCode.getLast?_of_isReturn {s : Stmt} {code : List Instruction}
    (h : SimpleCode s code) (hs : s.isReturn = true) :
    ∃ i, code.getLast? = some i ∧ i.op.ends = true := by
  cases s with
  | ret value =>
      cases h with
      | outputArray base depth hs hlength =>
          cases hs
          exact ⟨.plain .reta, rfl, rfl⟩
      | output hs hvalue =>
          cases hs
          exact ⟨.plain .ret, by simp, rfl⟩
      | operation hs hvalues => cases hs
  | _ => cases hs

/-- So does the code of statements of which the last is a `return`. -/
theorem Shaped.getLast?_of_endsWithReturn {ss : List Stmt} {code : List Instruction}
    {bounds : List Nat} (h : Shaped ss code bounds)
    (hss : Generator.endsWithReturn ss = true) :
    ∃ i, code.getLast? = some i ∧ i.op.ends = true := by
  induction h with
  | nil => contradiction
  | @cons s ss first others bounds bounds' hfirst hothers ihFirst ihOthers =>
      cases ss with
      | nil =>
          cases hothers with
          | nil =>
              rw [List.append_nil]
              exact ihFirst hss
      | cons s' ss =>
          obtain ⟨i, hlast, hends⟩ := ihOthers hss
          exact ⟨i, by rw [List.getLast?_append, hlast]; rfl, hends⟩
  | simple hcode => exact hcode.getLast?_of_isReturn hss
  | @loop find s _ _ _ _ _ _ _ l size hs =>
      cases s with
      | ret value => contradiction
      | _ => contradiction
  | _ => contradiction

theorem EndsAt.of_getLast? {code : List Instruction} {i : Instruction}
    (hlast : code.getLast? = some i) (hends : i.op.ends = true) : EndsAt code (code.length - 1) :=
  ⟨i, by rw [← List.getLast?_eq_getElem?, hlast], hends⟩

theorem BlockCoherent.of_walks {code front ending : List Instruction}
    (hcode : code = front ++ ending) (hending : ending = [] ∨ ending = [.plain .ret])
    (hwalks : ∀ stack, Walks code { stack } stack { stack } ⟨front.length, stack, 0⟩)
    (hlast : EndsAt code (code.length - 1)) : BlockCoherent code where
  coherent stack k hk := by
    rcases Nat.lt_or_ge k front.length with hlt | hge
    · exact .inl ((hwalks stack).coherent k (Nat.zero_le k) hlt)
    · subst hcode
      rcases hending with rfl | rfl
      · rw [List.append_nil] at hk
        omega
      · rw [List.length_append, List.length_singleton] at hk
        obtain rfl : k = front.length := by omega
        exact .inr (by simp)
  last := hlast
  nonempty := by
    obtain ⟨i, hi, -⟩ := hlast
    obtain ⟨hlt, -⟩ := List.getElem?_eq_some_iff.mp hi
    omega

/-- The block of a function. -/
theorem FunctionCode.blockCoherent {top : Frame} {d : FunctionDecl} {code : List Instruction}
    (h : FunctionCode top d code) (htop : top.Fits) (hfree : Stmt.allLogicFree d.body = true)
    (hlen : (code.length : Int) < signedLimit) : BlockCoherent code := by
  obtain @⟨body, g, hbody⟩ := h
  obtain ⟨bounds, hshaped, -⟩ := hbody.shaped (Frame.Fits.empty.addParams d.params)
    (by simpa using htop)
  let opening : List Instruction := [.pushNat g.used, .plain .alloc]
  have hwalks : ∀ ending, ((opening ++ body ++ ending).length : Int) < signedLimit → ∀ stack,
      Walks (opening ++ body ++ ending) { stack } stack { stack }
        ⟨(opening ++ body).length, stack, 0⟩ := by
    intro ending hlen stack
    have hopening : Leaves (opening ++ body ++ ending) { stack } stack 0 opening :=
      (Gives.nil.topped.pushNat g.used).clear rfl fun _ _ => rfl
    have hsettles := hopening.settles.append (hshaped.settles hlen hfree)
    have hall := (hsettles .start (Int.le_refl 0) ⟨[], ending, by simp, rfl⟩).1
    rwa [Nat.zero_add] at hall
  by_cases hreturn : Generator.endsWithReturn d.body = true
  · rw [if_pos hreturn] at hlen ⊢
    obtain ⟨i, hlast, hends⟩ := hshaped.getLast?_of_endsWithReturn hreturn
    exact .of_walks rfl (.inl rfl) (hwalks [] hlen)
      (.of_getLast? (by simp [List.getLast?_cons, hlast]) hends)
  · rw [if_neg hreturn] at hlen ⊢
    exact .of_walks rfl (.inr rfl) (hwalks _ hlen)
      (.of_getLast? (i := .plain .ret) (by simp [List.getLast?_cons]) rfl)

/-- Clearing the pad leaves nothing on the stack. -/
theorem Config.clearing_leaves (config : Config) {code : List Instruction} {start : Point}
    {base : List Mark} : Leaves code start base 0 config.clearing := by
  rw [clearing]
  cases config.clearColor with
  | none => exact Gives.nil
  | some color =>
      exact (Gives.nil.topped.push (m := .literal (.color color)) rfl fun _ _ => rfl).clear rfl
        fun _ _ => rfl

/-- The block of the statements. -/
theorem MainCode.blockCoherent {config : Config} {top : Frame} {ss : List Stmt}
    {code : List Instruction} (h : MainCode config top ss code) (htop : top.Fits)
    (hfree : Stmt.allLogicFree ss = true) (hlen : (code.length : Int) < signedLimit) :
    BlockCoherent code := by
  obtain @⟨body, g, hbody⟩ := h
  obtain ⟨bounds, hshaped, -⟩ := hbody.shaped htop (by simp)
  let inside := framed g.used (config.clearing ++ body)
  let whole : List Instruction := inside ++ [.plain .halt]
  have hwalks : ∀ stack, Walks whole { stack } stack { stack } ⟨whole.length, stack, 0⟩ := by
    intro stack
    have hbody : Settles whole { stack } stack _ (config.clearing ++ body) :=
      config.clearing_leaves.settles.append (hshaped.settles hlen hfree)
    have hat : CodeAt whole 0 (inside ++ [.plain .halt]) := ⟨[], [], by simp [whole], rfl⟩
    have hframe := (hbody.framed g.used .start (Int.le_refl 0) hat.left).1
    have hhalt : Coherent whole { stack } stack ⟨0 + inside.length, stack, 0⟩ (.plain .halt) :=
      { operands := ⟨[], _, rfl, rfl, Nat.le_refl _⟩
        jumps := nofun
        leads := nofun
        closes := nofun
        halts := fun _ => rfl
        tests := nofun }
    have hlength : whole.length = 0 + inside.length + 1 := by simp [whole]
    rw [hlength]
    exact hframe.trans (hhalt.walks hframe.scans hat.right rfl)
  exact .of_walks (List.append_nil _).symm (.inl rfl) hwalks
    (.of_getLast? (i := .plain .halt) (by simp) rfl)

/-- All blocks of a program. -/
theorem Compiled.blockCoherent {config : Config} {p : Program} {blocks : List Block}
    (h : Compiled config p blocks) (hfree : p.isLogicFree = true) {b : Block} (hb : b ∈ blocks)
    (hlen : (b.code.length : Int) < signedLimit) : BlockCoherent b.code := by
  have htop : p.topFrame.Fits := Frame.Fits.empty.addFunctions p.functions
  rcases h.mem hb with ⟨d, hd, hfunction⟩ | hmain
  · exact hfunction.blockCoherent htop (p.isLogicFree_function hfree hd) hlen
  · exact hmain.blockCoherent htop (p.isLogicFree_statements hfree) hlen

theorem BlockCoherent.covers {code : List Instruction} (h : BlockCoherent code)
    (stack : List Mark) (k : Nat) (hk : k < code.length) :
    CoherentAt code { stack } stack k ∨ EndsAt code k :=
  (h.coherent stack k hk).imp_right fun hret => ⟨.plain .ret, hret, rfl⟩

/-- Wherever a path of a block gets, there is an instruction; it is coherent, or the `ret` that
ends the block. -/
theorem BlockCoherent.reached {code : List Instruction} (h : BlockCoherent code)
    {stack : List Mark} {w : Point} (hw : Reaches code { stack } w) :
    Scans code { stack } w ∧ ∃ i, code[w.pc]? = some i ∧
      (Coherent code { stack } stack w i ∨ i = .plain .ret) := by
  have hcovers : ∀ k, (Point.mk 0 stack 0).pc ≤ k → k < code.length → _ :=
    fun k _ hk => h.covers stack k hk
  have hscans := hw.scans hcovers
  have hlt := hw.lt_length hcovers h.last h.nonempty
  refine ⟨hscans, ?_⟩
  rcases h.coherent stack w.pc hlt with hindex | hret
  · obtain ⟨i, hat, hcoherent⟩ := hindex.at hscans
    exact ⟨i, hat, .inl hcoherent⟩
  · exact ⟨_, hret, .inr rfl⟩

/-- On every path through a block of an accepted program, the number of frames that are open is
that of the `oframe`s less the `cframe`s before the index, whatever way was taken.  A frame is
closed only if one is open, a program halts only if none is, and there is always a next
instruction unless the path ends with this one. -/
theorem compile_balances_frames {config : Config} {p : Program} {image : Image}
    (hcompile : compile config p = .ok image) (hfree : p.isLogicFree = true) {b : Block}
    (hb : b ∈ image.blocks) (hlen : (b.code.length : Int) < signedLimit) {stack : List Mark}
    {w : Point} (hw : Reaches b.code { stack } w) :
    ∃ i, b.code[w.pc]? = some i ∧ w.frames = framesOpened (b.code.take w.pc) ∧
      (i.op = .cframe → 0 < w.frames) ∧ (i.op = .halt → w.frames = 0) ∧
      (i.op.ends = false → ∀ jump, ∃ w', w.next b.code jump = some w') := by
  have hblock := (compiled_of_compile hcompile).1.blockCoherent hfree hb hlen
  obtain ⟨hscans, i, hat, hcoherent | rfl⟩ := hblock.reached hw
  · exact ⟨i, hat, hscans.frames_eq, hcoherent.closes, hcoherent.halts, hcoherent.proceeds hat⟩
  · exact ⟨_, hat, hscans.frames_eq, nofun, nofun, nofun⟩

/-- The blocks of the demo: a function, and statements with a loop. -/
theorem compile_demo_balances_frames :
    ∃ image, compile {} Demo.program = .ok image ∧ image.blocks.length = 2 ∧
      ∀ b ∈ image.blocks, ∀ w, Reaches b.code {} w →
        ∃ i, b.code[w.pc]? = some i ∧ w.frames = framesOpened (b.code.take w.pc) := by
  have hbound : (Demo.program.codeBound : Int) < signedLimit := by decide
  have hblocks : (compile {} Demo.program).toOption.map (·.blocks.length) = some 2 := by
    decide +kernel
  cases hcompile : compile {} Demo.program with
  | error e =>
      rw [hcompile] at hblocks
      cases hblocks
  | ok image =>
      rw [hcompile] at hblocks
      refine ⟨image, rfl, Option.some.inj hblocks, fun b hb w hw => ?_⟩
      have hle := (compiled_of_compile hcompile).2 b hb
      obtain ⟨i, hat, hframes, -⟩ :=
        compile_balances_frames hcompile (by decide) hb (by omega) hw
      exact ⟨i, hat, hframes⟩

/-- Where a `cjmp` finds its operands.  The comparison right before it lies on top, with the
target of a conditional beneath; if a target is pushed right before it, as in a loop, that lies
on top, with the comparison beneath. -/
theorem compile_orders_cjmp {config : Config} {p : Program} {image : Image}
    (hcompile : compile config p = .ok image) (hfree : p.isLogicFree = true) {b : Block}
    (hb : b ∈ image.blocks) (hlen : (b.code.length : Int) < signedLimit) {stack : List Mark}
    {w : Point} (hw : Reaches b.code { stack } w) {i : Instruction}
    (hat : b.code[w.pc]? = some i) (hop : i.op = .cjmp) :
    ∃ t, b.code[w.pc - 1]? = some (.plain .eq) ∧ w.stack = .computed :: .target t :: stack ∨
      (∃ offset, b.code[w.pc - 1]? = some ⟨.push, some (.pc offset)⟩) ∧
        w.stack = .target t :: .computed :: stack := by
  have hblock := (compiled_of_compile hcompile).1.blockCoherent hfree hb hlen
  obtain ⟨-, j, hat', hcoherent | rfl⟩ := hblock.reached hw
  · cases hat.symm.trans hat'
    exact hcoherent.tests hop
  · cases hat.symm.trans hat'
    cases hop

/-- A loop around a conditional. -/
theorem compile_countingLoop_orders_cjmp :
    ∃ image, compile {} ⟨Generator.countingLoop⟩ = .ok image ∧ ∀ b ∈ image.blocks, ∀ w i,
      Reaches b.code {} w → b.code[w.pc]? = some i → i.op = .cjmp →
        ∃ t, w.stack = [.computed, .target t] ∨ w.stack = [.target t, .computed] := by
  have hbound : ((Program.mk Generator.countingLoop).codeBound : Int) < signedLimit := by decide
  have hblocks : (compile {} ⟨Generator.countingLoop⟩).toOption.isSome = true := by
    decide +kernel
  cases hcompile : compile {} ⟨Generator.countingLoop⟩ with
  | error e =>
      rw [hcompile] at hblocks
      cases hblocks
  | ok image =>
      refine ⟨image, rfl, fun b hb w i hw hat hop => ?_⟩
      have hle := (compiled_of_compile hcompile).2 b hb
      obtain ⟨t, ⟨-, hstack⟩ | ⟨-, hstack⟩⟩ :=
        compile_orders_cjmp hcompile (by decide) hb (by omega) hw hat hop
      · exact ⟨t, .inl hstack⟩
      · exact ⟨t, .inr hstack⟩

/-- An endless loop without a body. -/
def endlessLoop : Program :=
  ⟨[.whileLoop (.int 1) []]⟩

/-- The `cjmp` of the endless loop has its target on top and the comparison beneath. -/
theorem compile_endlessLoop_target_on_top :
    ∃ image b w, compile { clearColor := none } endlessLoop = .ok image ∧ b ∈ image.blocks ∧
      Reaches b.code {} w ∧ b.code[w.pc]? = some (.plain .cjmp) ∧
      w.stack = [.target 11, .computed] := by
  let code : List Instruction :=
    [.pushNat 0, .plain .oframe, .pushNat 0, .plain .oframe, .push (.int 1), .push (.int 0),
      .plain .eq, jumpBy 4, .plain .cjmp, jumpBy (-5), .plain .jmp, .plain .cframe,
      .plain .cframe, .plain .halt]
  have hblocks : (compile { clearColor := none } endlessLoop).toOption.map (·.blocks) =
      some [⟨"main", code⟩] := by decide +kernel
  have hreaches : Reaches code {} ⟨8, [.target 11, .computed], 2⟩ :=
    Reaches.start.follow (List.replicate 8 false) (by decide +kernel)
  cases hcompile : compile { clearColor := none } endlessLoop with
  | error e =>
      rw [hcompile] at hblocks
      cases hblocks
  | ok image =>
      rw [hcompile] at hblocks
      have hmain : image.blocks = [⟨"main", code⟩] := Option.some.inj hblocks
      exact ⟨image, ⟨"main", code⟩, _, rfl, by simp [hmain], hreaches, rfl, rfl⟩

end PadCompiler
