import PadCompiler.Proofs.Backpatch
import PadCompiler.Proofs.Translation

/-!
# PadCompiler.Proofs.Blocks

The blocks of a whole program.

* `FunctionCode`, `MainCode` — the code of a function and of the top-level statements;
* `Compiled` — the blocks of a program, one for each function and the last for the
  statements;
* `generate_runs` — all that can come of a program: its blocks, a report about the program,
  or a fault that the size of the program excuses.
-/

namespace PadCompiler

/-! ## Frames of functions -/

/-- Puts parameters on the next slots. -/
def Frame.addParams (f : Frame) : List Param → Frame
  | [] => f
  | param :: params => (f.add param.name 1 .scalar).addParams params

/-- Puts functions among the names. -/
def Frame.addFunctions (f : Frame) : List FunctionDecl → Frame
  | [] => f
  | d :: ds =>
    (f.add d.name 0 fun _ => .function (Text.lower d.name) d.params.length).addFunctions ds

/-- The names of a program's functions. -/
def Program.topFrame (p : Program) : Frame :=
  ({} : Frame).addFunctions p.functions

theorem Frame.addParams_used (f : Frame) (params : List Param) :
    (f.addParams params).used = f.used + params.length := by
  induction params generalizing f with
  | nil => rfl
  | cons param params ih =>
      rw [addParams, ih, add_used, List.length_cons]
      omega

theorem Frame.addFunctions_used (f : Frame) (ds : List FunctionDecl) :
    (f.addFunctions ds).used = f.used := by
  induction ds generalizing f with
  | nil => rfl
  | cons d ds ih =>
      rw [addFunctions, ih]
      rfl

theorem Program.topFrame_used (p : Program) : p.topFrame.used = 0 :=
  Frame.addFunctions_used {} p.functions

theorem Frame.addParams_stacked {f : Frame} (hf : Stacked f.names f.used) (params : List Param) :
    Stacked (f.addParams params).names (f.addParams params).used := by
  induction params generalizing f with
  | nil => exact hf
  | cons param params ih => exact ih (.scalar param.name hf)

theorem Frame.addFunctions_stacked {f : Frame} (hf : Stacked f.names f.used)
    (ds : List FunctionDecl) :
    Stacked (f.addFunctions ds).names (f.addFunctions ds).used := by
  induction ds generalizing f with
  | nil => exact hf
  | cons d ds ih => exact ih (.function d.name _ _ hf)

theorem Program.topFrame_stacked (p : Program) : Stacked p.topFrame.names p.topFrame.used :=
  Frame.addFunctions_stacked .nil p.functions

/-! ## Blocks -/

/-- The code of a function: the size of its frame, `alloc`, the body, and a `ret` unless the
body ends with one. -/
inductive FunctionCode (top : Frame) (d : FunctionDecl) : List Instruction → Prop
  | mk {body g} (hbody : Laid [top] (({} : Frame).addParams d.params) d.body body g) :
    FunctionCode top d (.pushNat g.used :: .plain .alloc ::
      (body ++ if Generator.endsWithReturn d.body then [] else [.plain .ret]))

/-- The code that clears the pad at the start, if it is to be cleared. -/
def Config.clearing (config : Config) : List Instruction :=
  config.clearColor.elim [] fun color => [.push (.color color), .plain .clear]

theorem Config.clearing_length_le (config : Config) : config.clearing.length ≤ 2 := by
  rw [clearing]
  cases config.clearColor <;> simp

/-- The code of the top-level statements, in a frame of their own. -/
inductive MainCode (config : Config) (top : Frame) (ss : List Stmt) : List Instruction → Prop
  | mk {body g} (hbody : Laid [] top ss body g) :
    MainCode config top ss
      (framed g.used (config.clearing ++ body) ++ [.plain .halt])

/-- The blocks of functions, in the order of the functions. -/
inductive FunctionBlocks (top : Frame) : List FunctionDecl → List Block → Prop
  | nil : FunctionBlocks top [] []
  | cons {d ds code blocks} (hcode : FunctionCode top d code)
    (hrest : FunctionBlocks top ds blocks) :
    FunctionBlocks top (d :: ds) (⟨Text.lower d.name, code⟩ :: blocks)

/-- The blocks of a program. -/
inductive Compiled (config : Config) (p : Program) : List Block → Prop
  | mk {blocks code} (hfunctions : FunctionBlocks p.topFrame p.functions blocks)
    (hmain : MainCode config p.topFrame p.statements code) :
    Compiled config p (blocks ++ [⟨Text.lower mainLabel, code⟩])

theorem FunctionBlocks.mem {top : Frame} {ds : List FunctionDecl} {blocks : List Block}
    (h : FunctionBlocks top ds blocks) {b : Block} (hb : b ∈ blocks) :
    ∃ d ∈ ds, FunctionCode top d b.code := by
  induction h with
  | nil => contradiction
  | @cons d ds code blocks hcode hrest ih =>
      rcases List.mem_cons.mp hb with rfl | hb
      · exact ⟨d, List.mem_cons_self, hcode⟩
      · obtain ⟨d', hd', hcode'⟩ := ih hb
        exact ⟨d', List.mem_cons_of_mem d hd', hcode'⟩

/-- Every block is the block of a function or of the statements. -/
theorem Compiled.mem {config : Config} {p : Program} {blocks : List Block}
    (h : Compiled config p blocks) {b : Block} (hb : b ∈ blocks) :
    (∃ d ∈ p.functions, FunctionCode p.topFrame d b.code) ∨
      MainCode config p.topFrame p.statements b.code := by
  cases h with
  | mk hfunctions hmain =>
      rcases List.mem_append.mp hb with hb | hb
      · exact .inl (hfunctions.mem hb)
      · cases List.mem_singleton.mp hb
        exact .inr hmain

namespace Generator

/-! ## Runs -/

/-- A step succeeds with `P`, or fails with a report or with an excused fault. -/
def Runs (x : GenM Unit) (g : Generator) (excused : Fault → Prop) (P : Generator → Prop) : Prop :=
  match x.run g with
  | .ok _ g' => P g'
  | .error e _ => e.isReport = true ∨ ∃ f, e = .fault f ∧ excused f

section

variable {x y : GenM Unit} {g g' : Generator} {excused : Fault → Prop} {P Q : Generator → Prop}

theorem Runs.ok (hrun : x.run g = .ok () g') (h : P g') : Runs x g excused P := by
  rw [Runs, hrun]
  exact h

theorem Runs.fails {e : CompileError} (hrun : ∃ g', x.run g = .error e g')
    (h : e.isReport = true ∨ ∃ f, e = .fault f ∧ excused f) : Runs x g excused P := by
  obtain ⟨g', hrun⟩ := hrun
  rw [Runs, hrun]
  exact h

theorem Runs.bind (hx : Runs x g excused P) (hy : ∀ g', P g' → Runs y g' excused Q) :
    Runs (do x; y) g excused Q := by
  unfold Runs at hx
  cases hrun : x.run g with
  | ok a g' =>
      rw [hrun] at hx
      have hnext := hy g' hx
      rw [Runs] at hnext ⊢
      rw [bind_run_ok hrun]
      exact hnext
  | error e g' =>
      rw [hrun] at hx
      exact .fails ⟨g', bind_run_error hrun⟩ hx

theorem Runs.mono (hx : Runs x g excused P) (hPQ : ∀ g', P g' → Q g') : Runs x g excused Q := by
  unfold Runs at hx ⊢
  cases hrun : x.run g with
  | ok a g' =>
      rw [hrun] at hx
      exact hPQ g' hx
  | error e g' =>
      rw [hrun] at hx
      exact hx

/-- A step that starts as another one does. -/
theorem Runs.start {start : Generator} (hrun : x.run g = y.run start)
    (hy : Runs y start excused P) : Runs x g excused P := by
  rw [Runs, hrun]
  exact hy

end

/-! ## Statements and parameters -/

section

variable {g : Generator} {f : Frame} {fs : List Frame} {excused : Fault → Prop}

/-- Statements add the code that the rules give. -/
theorem compileStmts_runs (ss : List Stmt) (hs : Represents g.scopes (f :: fs))
    (hadd : f.Exceeds ss → excused .addOverflow)
    (hsub : signedLimit ≤ (g.block.here + Stmt.listBound ss : Nat) → excused .subOverflow) :
    Runs (compileStmts ss) g excused fun g' => ∃ code s h,
      g' = g.after code s (Stmt.listWarnings ss) ∧ code.length ≤ Stmt.listBound ss ∧
      Laid fs f ss code h ∧ Represents s (h :: fs) := by
  have hlays := compileStmts_lays ss g
  have hfollows := Layout.stmts_follows ss hs
  generalize Layout.stmts ss g.scopes = r at hlays hfollows
  cases hlays with
  | @ok code s hlen hrun =>
      obtain ⟨h, hlaid, hs'⟩ := hfollows
      exact .ok hrun ⟨code, s, h, rfl, hlen, hlaid, hs'⟩
  | error hrun =>
      refine .fails hrun (hfollows.imp id ?_)
      rintro ⟨he, hlong⟩
      exact ⟨.addOverflow, he, hadd hlong⟩
  | overflow hrun hlong => exact .fails hrun (.inr ⟨.subOverflow, rfl, hsub hlong⟩)

/-- Declares the parameters of a function. -/
def declareParams (params : List Param) : GenM Unit :=
  params.forM fun param => discard (declareScalar param.name param.ty .dynamic)

/-- Parameters take one slot each. -/
theorem declareParams_cases (params : List Param) (hs : Represents g.scopes (f :: fs)) :
    (∃ s, (declareParams params).run g = .ok () (g.after [] s []) ∧
        Represents s (f.addParams params :: fs)) ∨
      (∃ g', (declareParams params).run g = .error (.fault .addOverflow) g') ∧
        wordLimit ≤ f.used + params.length := by
  induction params generalizing g f with
  | nil => exact .inl ⟨g.scopes, by rw [after_nil]; exact EStateM.run_pure .., hs⟩
  | cons param params ih =>
      have hsum : (param :: params).length = params.length + 1 := rfl
      rw [declareParams, List.forM_eq_forM, List.forM_cons]
      rcases hs.scalar param.name param.ty .dynamic with ⟨s, hscalar, hs'⟩ | ⟨hscalar, hlong⟩
      · have hrun : (discard (declareScalar param.name param.ty .dynamic)).run g =
            .ok () (g.after [] s []) := by
          rw [discard_run, declareScalar_run, hscalar]
        have hrest := ih (g := g.after [] s []) hs'
        rw [bind_run_ok hrun]
        rw [Frame.add_used] at hrest
        rcases hrest with ⟨s', hrun', hs''⟩ | ⟨hfails, hlong⟩
        · rw [after_after, List.nil_append, List.nil_append] at hrun'
          exact .inl ⟨s', hrun', hs''⟩
        · exact .inr ⟨hfails, by omega⟩
      · have hrun : (discard (declareScalar param.name param.ty .dynamic)).run g =
            .error (.fault .addOverflow) g := by
          rw [discard_run, declareScalar_run, hscalar]
        exact .inr ⟨⟨g, bind_run_error hrun⟩, by omega⟩

end

/-! ## Functions -/

/-- The state in which the parameters of a function are declared. -/
def functionStart (d : FunctionDecl) (g : Generator) : Generator :=
  { g with block := .empty d.name }.after [.reserved, .plain .alloc] g.scopes.enter []

/-- What is done after the body of a function. -/
def endFunction (d : FunctionDecl) : GenM Unit := do
  if !endsWithReturn d.body then
    emit [.plain .ret]
  let slots ← closeScope
  patchCount ⟨0⟩ slots
  finishBlock

theorem compileFunction_run (d : FunctionDecl) (g : Generator) :
    (compileFunction d).run g = (do
      declareParams d.params
      (do compileStmts d.body; endFunction d) : GenM Unit).run (functionStart d g) := by
  have hhere : (Block.empty d.name).here = 0 := rfl
  simp [compileFunction, beginBlock, functionStart, declareParams, endFunction, hhere]

/-- The block is put with the finished ones, and the scope is closed. -/
theorem endFunction_run (d : FunctionDecl) (g : Generator) (code : List Instruction)
    (warned : List Diagnostic) {s : ScopeStack} {h top : Frame} (hs : Represents s [h, top]) :
    ∃ g', (endFunction d).run ((functionStart d g).after code s warned) = .ok () g' ∧
      g'.config = g.config ∧ Represents g'.scopes [top] ∧
      g'.image.blocks = g.image.blocks ++ [⟨Text.lower d.name, .pushNat h.used :: .plain .alloc ::
        (code ++ if endsWithReturn d.body then [] else [.plain .ret])⟩] := by
  obtain ⟨s', hleave, hs'⟩ := hs.leave
  let emptied : Generator := { g with block := .empty d.name }
  let tail : List Instruction := if endsWithReturn d.body then [] else [.plain .ret]
  let ended := emptied.after (.reserved :: .plain .alloc :: (code ++ tail)) s' warned
  have hpatch := patchCount_run emptied [] (.plain .alloc :: (code ++ tail)) s' warned 0 h.used rfl
  have hclose : (endFunction d).run ((functionStart d g).after code s warned) =
      (do patchCount ⟨0⟩ h.used; finishBlock : GenM Unit).run ended := by
    cases hret : endsWithReturn d.body <;>
      simp [endFunction, hret, hleave, ended, tail, functionStart, emptied]
  exact ⟨_, hclose.trans (bind_run_ok hpatch), rfl, hs', rfl⟩

/-- The block of a function is put with the finished ones, and the scopes are left as they
were. -/
theorem compileFunction_runs (d : FunctionDecl) {g : Generator} {top : Frame}
    {excused : Fault → Prop} (hs : Represents g.scopes [top])
    (hadd : (({} : Frame).addParams d.params).Exceeds d.body → excused .addOverflow)
    (hsub : signedLimit ≤ (Stmt.listBound d.body + 3 : Nat) → excused .subOverflow) :
    Runs (compileFunction d) g excused fun g' =>
      g'.config = g.config ∧ Represents g'.scopes [top] ∧ ∃ code, FunctionCode top d code ∧
        code.length ≤ Stmt.listBound d.body + 3 ∧
        g'.image.blocks = g.image.blocks ++ [⟨Text.lower d.name, code⟩] := by
  refine .start (compileFunction_run d g) ?_
  rcases declareParams_cases (g := functionStart d g) d.params hs.enter with
    ⟨s, hdeclare, hparams⟩ | ⟨⟨g', hfails⟩, hlong⟩
  case inr =>
    have hexceeds : (({} : Frame).addParams d.params).Exceeds d.body :=
      .inl (by rw [Frame.addParams_used]; omega)
    exact .fails ⟨g', bind_run_error hfails⟩ (.inr ⟨_, rfl, hadd hexceeds⟩)
  refine .start (bind_run_ok hdeclare) ?_
  have hbound : (((functionStart d g).after [] s []).block.here + Stmt.listBound d.body) =
      Stmt.listBound d.body + 2 := Nat.add_comm 2 _
  refine .bind (compileStmts_runs d.body hparams hadd fun hlong => hsub (by omega)) ?_
  rintro _ ⟨code, s', h, rfl, hlen, hlaid, hs'⟩
  obtain ⟨g', hend, hconfig, hs'', hblocks⟩ :=
    endFunction_run d g code (Stmt.listWarnings d.body) hs'
  refine .ok (by simpa using hend) ⟨hconfig, hs'', _, .mk hlaid, ?_, hblocks⟩
  simp only [List.length_cons, List.length_append]
  split <;> simp only [List.length_nil, List.length_singleton] <;> omega

/-- All functions get their blocks, in order. -/
theorem compileFunctions_runs (ds : List FunctionDecl) {g : Generator} {top : Frame}
    {excused : Fault → Prop} (hs : Represents g.scopes [top])
    (hadd : ∀ d ∈ ds, (({} : Frame).addParams d.params).Exceeds d.body → excused .addOverflow)
    (hsub : ∀ d ∈ ds, signedLimit ≤ (Stmt.listBound d.body + 3 : Nat) →
      excused .subOverflow) :
    Runs (ds.forM compileFunction) g excused fun g' =>
      g'.config = g.config ∧ Represents g'.scopes [top] ∧ ∃ blocks,
        FunctionBlocks top ds blocks ∧
        (∀ b ∈ blocks, ∃ d ∈ ds, b.code.length ≤ Stmt.listBound d.body + 3) ∧
        g'.image.blocks = g.image.blocks ++ blocks := by
  induction ds generalizing g with
  | nil =>
      exact .ok (EStateM.run_pure ..) ⟨rfl, hs, [], .nil, by simp, (List.append_nil _).symm⟩
  | cons d ds ih =>
      rw [List.forM_eq_forM, List.forM_cons]
      refine .bind (compileFunction_runs d hs (hadd d (by simp)) (hsub d (by simp))) ?_
      rintro g' ⟨hconfig, hs', code, hcode, hlen, hblocks⟩
      refine .mono (ih hs' (fun d hd => hadd d (by simp [hd])) fun d hd => hsub d (by simp [hd])) ?_
      rintro g'' ⟨hconfig', hs'', blocks, hrest, hlens, hblocks'⟩
      refine ⟨hconfig'.trans hconfig, hs'', _, .cons hcode hrest, ?_, ?_⟩
      · intro b hb
        rcases List.mem_cons.mp hb with rfl | hb
        · exact ⟨d, by simp, hlen⟩
        · obtain ⟨d', hd', hle⟩ := hlens b hb
          exact ⟨d', by simp [hd'], hle⟩
      · rw [hblocks', hblocks, List.append_assoc]
        rfl

/-- A function is made known in any case; what its name stood for decides about the rest. -/
theorem registerFunction_run (d : FunctionDecl) (g : Generator) :
    (registerFunction d).run g =
      match g.scopes.declareFunction d.name ⟨Text.lower d.name, d.params, d.result⟩ with
      | (none, s) => .ok () (g.after [] s [])
      | (some _, s) =>
          match g.config.redeclaration with
          | .reject => .error (.redeclared d.name) (g.after [] s [])
          | .warn => .ok () (g.after [] s [⟨"function '" ++ d.name ++ "' already exists"⟩]) := by
  rw [registerFunction]
  rcases hdeclare : g.scopes.declareFunction d.name ⟨Text.lower d.name, d.params, d.result⟩ with
    ⟨_ | b, s⟩
  · simp [hdeclare, after, Block.extend]
  · cases hconfig : g.config.redeclaration <;> simp [hdeclare, hconfig, after, Block.extend]

/-- A function is made known, unless its name stands for something already and that is to be
rejected. -/
theorem registerFunction_cases (d : FunctionDecl) {g : Generator} {f : Frame} {fs : List Frame}
    (hs : Represents g.scopes (f :: fs)) :
    (∃ g', (registerFunction d).run g = .error (.redeclared d.name) g' ∧
        g.config.redeclaration = .reject ∧ f.names.lookup d.name ≠ none) ∨
      ∃ g', (registerFunction d).run g = .ok () g' ∧
        (g.config.redeclaration = .reject → f.names.lookup d.name = none) ∧
        g'.config = g.config ∧ Represents g'.scopes (f.addFunctions [d] :: fs) ∧
        g'.image.blocks = g.image.blocks := by
  let signature : Signature := ⟨Text.lower d.name, d.params, d.result⟩
  have hknown : Represents (g.scopes.declareFunction d.name signature).2
      (f.addFunctions [d] :: fs) := hs.function d.name signature
  have hprevious : (g.scopes.declareFunction d.name signature).1.map (·.entity.storage) =
      f.names.lookup d.name := by
    cases hs with
    | cons hinner houter => exact hinner.names d.name
  have hrun := registerFunction_run d g
  rcases hdeclare : g.scopes.declareFunction d.name signature with ⟨_ | b, s⟩
  all_goals rw [hdeclare] at hrun hknown hprevious
  · exact .inr ⟨_, hrun, fun _ => hprevious.symm, rfl, hknown, rfl⟩
  · cases hconfig : g.config.redeclaration with
    | reject =>
        rw [hconfig] at hrun
        exact .inl ⟨_, hrun, rfl, by simp [← hprevious]⟩
    | warn =>
        rw [hconfig] at hrun
        exact .inr ⟨_, hrun, nofun, rfl, hknown, rfl⟩

/-- Functions are made known before any code is made. -/
theorem registerFunctions_runs (ds : List FunctionDecl) {g : Generator} {f : Frame}
    {excused : Fault → Prop} (hs : Represents g.scopes [f]) :
    Runs (ds.forM registerFunction) g excused fun g' =>
      g'.config = g.config ∧ Represents g'.scopes [f.addFunctions ds] ∧
        g'.image.blocks = g.image.blocks := by
  induction ds generalizing g f with
  | nil => exact .ok (EStateM.run_pure ..) ⟨rfl, hs, rfl⟩
  | cons d ds ih =>
      rw [List.forM_eq_forM, List.forM_cons]
      rcases registerFunction_cases d hs with
        ⟨g', hrun, -, -⟩ | ⟨g', hrun, -, hconfig, hs', hblocks⟩
      · exact .fails ⟨g', bind_run_error hrun⟩ (.inl rfl)
      · refine .start (bind_run_ok hrun) (.mono (ih hs') ?_)
        rintro g'' ⟨hconfig', hs'', hblocks'⟩
        exact ⟨hconfig'.trans hconfig, hs'', hblocks'.trans hblocks⟩

/-! ## Programs -/

/-- The state in which the top-level statements are compiled. -/
def mainStart (g : Generator) : Generator :=
  { g with block := .empty mainLabel }.after (.reserved :: .plain .oframe :: g.config.clearing)
    g.scopes []

/-- What is done after the top-level statements. -/
def endMain : GenM Unit := do
  let g ← get
  patchCount ⟨0⟩ g.scopes.inner.slots
  emit [.plain .cframe, .plain .halt]
  finishBlock

theorem compileMain_run (ss : List Stmt) (g : Generator) :
    (compileMain ss).run g = (do compileStmts ss; endMain : GenM Unit).run (mainStart g) := by
  have hhere : (Block.empty mainLabel).here = 0 := rfl
  cases hcolor : g.config.clearColor <;>
    simp [compileMain, beginBlock, mainStart, endMain, hhere, Config.clearing, hcolor]

/-- The block of the top-level statements is put with the finished ones. -/
theorem endMain_run (g : Generator) (code : List Instruction) (warned : List Diagnostic)
    {s : ScopeStack} {h : Frame} {fs : List Frame} (hs : Represents s (h :: fs)) :
    ∃ g', endMain.run ((mainStart g).after code s warned) = .ok () g' ∧
      g'.image.blocks = g.image.blocks ++ [⟨Text.lower mainLabel,
        framed h.used (g.config.clearing ++ code) ++ [.plain .halt]⟩] := by
  have hslots : s.inner.slots = h.used := hs.size
  let emptied : Generator := { g with block := .empty mainLabel }
  let inside := g.config.clearing ++ code
  have hpatch := patchCount_run emptied [] (.plain .oframe :: inside) s warned 0 h.used rfl
  have hclose : endMain.run ((mainStart g).after code s warned) = (do
      patchCount ⟨0⟩ h.used
      emit [.plain .cframe, .plain .halt]
      finishBlock : GenM Unit).run
        (emptied.after (.reserved :: .plain .oframe :: inside) s warned) := by
    simp [endMain, hslots, mainStart, emptied, inside]
  refine ⟨_, hclose.trans ((bind_run_ok hpatch).trans (bind_run_ok (emit_run _ _))), ?_⟩
  simp [framed, after, Block.extend, emptied, inside, Block.empty]

/-- The block of the top-level statements comes last. -/
theorem compileMain_runs (ss : List Stmt) {g : Generator} {top : Frame} {excused : Fault → Prop}
    (hs : Represents g.scopes [top]) (hadd : top.Exceeds ss → excused .addOverflow)
    (hsub : signedLimit ≤ (Stmt.listBound ss + 6 : Nat) → excused .subOverflow) :
    Runs (compileMain ss) g excused fun g' => ∃ code, MainCode g.config top ss code ∧
      code.length ≤ Stmt.listBound ss + 6 ∧
      g'.image.blocks = g.image.blocks ++ [⟨Text.lower mainLabel, code⟩] := by
  refine .start (compileMain_run ss g) ?_
  have hopening := g.config.clearing_length_le
  have hhere : (mainStart g).block.here = g.config.clearing.length + 2 := rfl
  refine .bind (compileStmts_runs ss hs hadd fun hlong => hsub (by omega)) ?_
  rintro _ ⟨code, s, h, rfl, hlen, hlaid, hs'⟩
  obtain ⟨g', hend, hblocks⟩ := endMain_run g code (Stmt.listWarnings ss) hs'
  refine .ok hend ⟨_, .mk hlaid, ?_, hblocks⟩
  simp only [framed, List.length_append, List.length_cons, List.length_nil]
  omega

end Generator

/-- The most instructions that a block of a program takes. -/
def Program.codeBound (p : Program) : Nat :=
  Stmt.listBound p.items + 6

/-- The faults that the size of a program accounts for: a scope takes more slots than there
are words, or the code may be too long for signed words. -/
def Program.Excuses (p : Program) : Fault → Prop
  | .addOverflow => ∃ n ∈ p.slotTotals, wordLimit ≤ n
  | .subOverflow => signedLimit ≤ p.codeBound
  | .depthMismatch .. => False

section

variable {s : Stmt} {ss : List Stmt}

theorem Stmt.codeBound_le_listBound (hs : s ∈ ss) : s.codeBound ≤ Stmt.listBound ss := by
  induction ss with
  | nil => contradiction
  | cons t ss ih =>
      rw [listBound]
      rcases List.mem_cons.mp hs with rfl | hs
      · omega
      · have hle := ih hs
        omega

theorem Stmt.listBound_filter_le (keep : Stmt → Bool) (ss : List Stmt) :
    Stmt.listBound (ss.filter keep) ≤ Stmt.listBound ss := by
  induction ss with
  | nil => exact Nat.le_refl 0
  | cons t ss ih =>
      rw [listBound]
      cases hkeep : keep t with
      | true =>
          rw [List.filter_cons_of_pos hkeep, listBound]
          omega
      | false =>
          rw [List.filter_cons_of_neg (by simp [hkeep])]
          omega

theorem Stmt.mem_listTotals {n : Nat} :
    n ∈ Stmt.listTotals ss ↔ ∃ s ∈ ss, n ∈ s.scopeTotals := by
  induction ss with
  | nil => simp [listTotals]
  | cons t ss ih => simp [listTotals, ih]

end

section

variable {p : Program}

/-- A function of a program is one of its items. -/
theorem Program.mem_items_of_mem_functions {d : FunctionDecl} (hd : d ∈ p.functions) :
    .function d.name d.params d.result d.body ∈ p.items := by
  obtain ⟨s, hs, hfunction⟩ := List.mem_filterMap.mp hd
  cases s with
  | function name params result body =>
      cases hfunction
      exact hs
  | _ => contradiction

/-- The scope of a function and those inside it are scopes of the program. -/
theorem Program.slotTotals_function {d : FunctionDecl} (hd : d ∈ p.functions) {n : Nat}
    (hn : n ∈ (d.params.length + Stmt.listSlots d.body) :: Stmt.listTotals d.body) :
    n ∈ p.slotTotals := by
  have hitem := mem_items_of_mem_functions hd
  refine List.mem_cons_of_mem _ (Stmt.mem_listTotals.mpr ⟨_, hitem, ?_⟩)
  rw [Stmt.scopeTotals]
  exact hn

/-- So are the scope of the statements and those inside it. -/
theorem Program.slotTotals_statements {n : Nat}
    (hn : n ∈ Stmt.listSlots p.statements :: Stmt.listTotals p.statements) :
    n ∈ p.slotTotals := by
  rcases List.mem_cons.mp hn with rfl | hn
  · exact List.mem_cons_self
  · obtain ⟨s, hs, hn⟩ := Stmt.mem_listTotals.mp hn
    have hitem := (List.mem_filter.mp hs).1
    exact List.mem_cons_of_mem _ (Stmt.mem_listTotals.mpr ⟨s, hitem, hn⟩)

theorem Program.excuses_function {d : FunctionDecl} (hd : d ∈ p.functions)
    (h : (({} : Frame).addParams d.params).Exceeds d.body) : p.Excuses .addOverflow := by
  rcases h with hlong | ⟨n, hn, hlong⟩
  · refine ⟨_, slotTotals_function hd List.mem_cons_self, ?_⟩
    rw [Frame.addParams_used] at hlong
    exact Nat.le_trans hlong (Nat.le_of_eq (by simp))
  · exact ⟨n, slotTotals_function hd (List.mem_cons_of_mem _ hn), hlong⟩

theorem Program.excuses_statements (h : p.topFrame.Exceeds p.statements) :
    p.Excuses .addOverflow := by
  rcases h with hlong | ⟨n, hn, hlong⟩
  · rw [topFrame_used, Nat.zero_add] at hlong
    exact ⟨_, List.mem_cons_self .., hlong⟩
  · exact ⟨n, slotTotals_statements (List.mem_cons_of_mem _ hn), hlong⟩

theorem Program.function_le_codeBound {d : FunctionDecl} (hd : d ∈ p.functions) :
    Stmt.listBound d.body + 3 ≤ p.codeBound := by
  have hle := Stmt.codeBound_le_listBound (mem_items_of_mem_functions hd)
  rw [Stmt.codeBound] at hle
  rw [codeBound]
  omega

theorem Program.statements_le_codeBound (p : Program) :
    Stmt.listBound p.statements + 6 ≤ p.codeBound :=
  Nat.add_le_add_right (Stmt.listBound_filter_le _ p.items) 6

end

/-- All that can come of a program: its blocks, a report, or an excused fault. -/
theorem Generator.generate_runs (config : Config) (p : Program) :
    Runs (generate p) (.initial config) p.Excuses fun g =>
      Compiled config p g.image.blocks ∧
        ∀ b ∈ g.image.blocks, b.code.length ≤ p.codeBound := by
  refine .bind (registerFunctions_runs p.functions Represents.initial) ?_
  rintro g ⟨hconfig, hs, hblocks⟩
  refine .bind (compileFunctions_runs p.functions hs (fun d hd => Program.excuses_function hd)
    fun d hd hlong => ?_) ?_
  · have hle := Program.function_le_codeBound hd
    exact Int.le_trans hlong (Int.ofNat_le.mpr hle)
  rintro g' ⟨hconfig', hs', blocks, hfunctions, hlens, hblocks'⟩
  have hle := p.statements_le_codeBound
  refine .mono (compileMain_runs p.statements hs' Program.excuses_statements fun hlong =>
    Int.le_trans hlong (Int.ofNat_le.mpr hle)) ?_
  rintro g'' ⟨code, hmain, hlen, hblocks''⟩
  rw [hconfig', hconfig] at hmain
  rw [hblocks'', hblocks', hblocks]
  refine ⟨.mk hfunctions hmain, ?_⟩
  intro b hb
  rcases List.mem_append.mp hb with hb | hb
  · obtain ⟨d, hd, hblen⟩ := hlens b hb
    exact Nat.le_trans hblen (Program.function_le_codeBound hd)
  · cases List.mem_singleton.mp hb
    exact Nat.le_trans hlen hle

/-- A program gives blocks, which are then checked, or it fails with a report or an excused
fault. -/
theorem compile_outcome (config : Config) (p : Program) :
    (∃ image : Image, Compiled config p image.blocks ∧
        (∀ b ∈ image.blocks, b.code.length ≤ p.codeBound) ∧
        compile config p = (image.verify.mapError .verify).map fun _ => image) ∨
      ∃ e, compile config p = .error e ∧
        (e.isReport = true ∨ ∃ f, e = .fault f ∧ p.Excuses f) := by
  have hruns := Generator.generate_runs config p
  rw [Generator.Runs] at hruns
  rw [compile]
  cases hrun : (Generator.generate p).run (.initial config) with
  | error e g =>
      rw [hrun] at hruns
      exact .inr ⟨e, rfl, hruns⟩
  | ok _ g =>
      rw [hrun] at hruns
      refine .inl ⟨g.image, hruns.1, hruns.2, ?_⟩
      dsimp only
      cases g.image.verify <;> rfl

/-- The blocks of an accepted program. -/
theorem compiled_of_compile {config : Config} {p : Program} {image : Image}
    (h : compile config p = .ok image) :
    Compiled config p image.blocks ∧ ∀ b ∈ image.blocks, b.code.length ≤ p.codeBound := by
  rcases compile_outcome config p with ⟨image', hcompiled, hlens, hcompile⟩ | ⟨e, he, -⟩
  · rw [h] at hcompile
    cases hverify : image'.verify with
    | error e =>
        rw [hverify] at hcompile
        contradiction
    | ok _ =>
        rw [hverify] at hcompile
        cases hcompile
        exact ⟨hcompiled, hlens⟩
  · rw [h] at he
    contradiction

end PadCompiler
