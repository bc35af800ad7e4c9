import PadCompiler.Proofs.Verified
import PadCompiler.Proofs.WellFormed

/-!
# PadCompiler.Proofs.Acceptance

A program is accepted if it is well-formed, and only then.

The steps of the generator are judged one by one: making the functions known goes by their names
being distinct, if that is asked for, and the code of a function and of the statements goes by
the judgement of its body in the scopes that are open there.

* `compile_judges` — a program that is not well-formed is not compiled, and one that is gets no
  report;
* `compile_ok_iff_wellFormed` — a program that is small enough is compiled exactly if it is
  well-formed.
-/

namespace PadCompiler

/-! ## Names of frames -/

theorem Frame.addParams_denoted (f : Frame) (params : List Param) :
    (f.addParams params).denoted =
      (params.map fun param => (param.name, .scalar)).reverse ++ f.denoted := by
  induction params generalizing f with
  | nil => rfl
  | cons param params ih =>
      rw [addParams, ih, add_denoted, List.map_cons, List.reverse_cons, List.append_assoc]
      rfl

theorem Frame.addFunctions_denoted (f : Frame) (ds : List FunctionDecl) :
    (f.addFunctions ds).denoted =
      (ds.map fun d => (d.name, .function d.params.length)).reverse ++ f.denoted := by
  induction ds generalizing f with
  | nil => rfl
  | cons d ds ih =>
      rw [addFunctions, ih, add_denoted, List.map_cons, List.reverse_cons, List.append_assoc]
      rfl

theorem FunctionDecl.addParams_denoted (d : FunctionDecl) :
    (({} : Frame).addParams d.params).denoted = d.paramNames :=
  (Frame.addParams_denoted {} d.params).trans (List.append_nil _)

theorem Program.topFrame_denoted (p : Program) : p.topFrame.denoted = p.functionNames :=
  (Frame.addFunctions_denoted {} p.functions).trans (List.append_nil _)

/-- The functions have names that are new to the frame and differ from one another. -/
def Frame.Free (f : Frame) (ds : List FunctionDecl) : Prop :=
  (∀ d ∈ ds, f.names.lookup d.name = none) ∧ (ds.map (·.name)).Nodup

theorem Frame.free_cons {f : Frame} {d : FunctionDecl} {ds : List FunctionDecl} :
    f.Free (d :: ds) ↔ f.names.lookup d.name = none ∧ (f.addFunctions [d]).Free ds := by
  have hlookup : ∀ name, (f.addFunctions [d]).names.lookup name = none ↔
      name ≠ d.name ∧ f.names.lookup name = none := by
    intro name
    rw [addFunctions, addFunctions, add, List.lookup_cons]
    by_cases hname : name = d.name
    · simp [hname]
    · rw [beq_false_of_ne hname]
      simp [hname]
  simp only [Free, hlookup, List.forall_mem_cons, List.map_cons, List.nodup_cons, List.mem_map]
  grind

namespace Generator

/-! ## Steps -/

/-- The state that a step leaves, or why it fails. -/
def result (x : GenM Unit) (g : Generator) : Except CompileError Generator :=
  match x.run g with
  | .ok _ g' => .ok g'
  | .error e _ => .error e

section

variable {x y : GenM Unit} {g g' : Generator}

theorem result_ok (hrun : x.run g = .ok () g') : result x g = .ok g' := by
  rw [result, hrun]

theorem result_error {e : CompileError} (hrun : x.run g = .error e g') :
    result x g = .error e := by
  rw [result, hrun]

theorem result_eq {start : Generator} (hrun : x.run g = y.run start) :
    result x g = result y start := by
  rw [result, hrun, result]

theorem result_bind (x y : GenM Unit) (g : Generator) :
    result (do x; y) g = result x g >>= result y := by
  cases hrun : x.run g with
  | ok a g' =>
      rw [result_ok hrun, result_eq (bind_run_ok hrun)]
      rfl
  | error e g' =>
      rw [result_error hrun, result_error (bind_run_error hrun)]
      rfl

end

/-! ## Statements and functions -/

/-- Statements are compiled if they are well-formed, and only then. -/
theorem compileStmts_judges (ss : List Stmt) {g : Generator} {f : Frame} {fs : List Frame}
    (hs : Represents g.scopes (f :: fs)) :
    Judges (result (compileStmts ss) g)
      (Stmt.ListWellFormed (fs.map Frame.denoted) f.denoted ss) fun g' =>
        ∃ code s h, g' = g.after code s (Stmt.listWarnings ss) ∧ Represents s (h :: fs) := by
  have hlays := compileStmts_lays ss g
  have hchecks := Layout.stmts_checks ss hs
  generalize Layout.stmts ss g.scopes = r at hlays hchecks
  cases hlays with
  | @ok code s hlen hrun =>
      obtain ⟨hwf, h, hs', -⟩ := hchecks
      rw [result_ok hrun]
      exact .ok hwf ⟨code, s, h, rfl, hs'⟩
  | error hrun =>
      obtain ⟨g', hrun⟩ := hrun
      rw [result_error hrun]
      exact hchecks
  | overflow hrun hlong =>
      obtain ⟨g', hrun⟩ := hrun
      rw [result_error hrun]
      exact .fault _

/-- A function sees its parameters and the functions. -/
theorem compileFunction_judges (d : FunctionDecl) {g : Generator} {top : Frame}
    (hs : Represents g.scopes [top]) :
    Judges (result (compileFunction d) g)
      (Stmt.ListWellFormed [top.denoted] d.paramNames d.body) fun g' =>
        Represents g'.scopes [top] := by
  rw [result_eq (compileFunction_run d g)]
  rcases declareParams_cases (g := functionStart d g) d.params hs.enter with
    ⟨s, hrun, hparams⟩ | ⟨⟨g', hrun⟩, -⟩
  · have hbody := compileStmts_judges (g := (functionStart d g).after [] s []) d.body hparams
    rw [d.addParams_denoted] at hbody
    rw [result_eq (bind_run_ok hrun), result_bind]
    refine .bind hbody id ?_
    rintro _ hwf ⟨code, s', h, rfl, hs'⟩
    obtain ⟨g', hend, -, hs'', -⟩ := endFunction_run d g code (Stmt.listWarnings d.body) hs'
    rw [after_after, List.nil_append, List.nil_append, result_ok hend]
    exact .ok hwf hs''
  · rw [result_error (bind_run_error hrun)]
    exact .fault _

theorem compileFunctions_judges (ds : List FunctionDecl) {g : Generator} {top : Frame}
    (hs : Represents g.scopes [top]) :
    Judges (result (ds.forM compileFunction) g)
      (∀ d ∈ ds, Stmt.ListWellFormed [top.denoted] d.paramNames d.body) fun g' =>
        Represents g'.scopes [top] := by
  induction ds generalizing g with
  | nil => exact .ok (by simp) hs
  | cons d ds ih =>
      rw [List.forM_eq_forM, List.forM_cons, result_bind]
      simp only [List.forall_mem_cons]
      refine .bind (compileFunction_judges d hs) And.left fun g' hd hs' => ?_
      rw [← bind_pure (result _ g')]
      exact .bind (ih hs') And.right fun g'' hds hs'' => .ok ⟨hd, hds⟩ hs''

/-- Functions are made known if their names are new, or else it is enough to warn. -/
theorem registerFunctions_judges (ds : List FunctionDecl) {g : Generator} {f : Frame}
    (hs : Represents g.scopes [f]) :
    Judges (result (ds.forM registerFunction) g)
      (g.config.redeclaration = .reject → f.Free ds) fun g' =>
        Represents g'.scopes [f.addFunctions ds] := by
  induction ds generalizing g f with
  | nil => exact .ok (fun _ => by simp [Frame.Free]) hs
  | cons d ds ih =>
      rw [List.forM_eq_forM, List.forM_cons]
      rcases registerFunction_cases d hs with
        ⟨g', hrun, hreject, hknown⟩ | ⟨g', hrun, hnew, hconfig, hs', -⟩
      · rw [result_error (bind_run_error hrun)]
        exact .error _ fun h => hknown ((h hreject).1 d List.mem_cons_self)
      · have hfree : (g.config.redeclaration = .reject → f.Free (d :: ds)) ↔
            (g'.config.redeclaration = .reject → (f.addFunctions [d]).Free ds) := by
          rw [hconfig, Frame.free_cons]
          exact ⟨fun h hreject => (h hreject).2, fun h hreject => ⟨hnew hreject, h hreject⟩⟩
        rw [result_eq (bind_run_ok hrun), hfree]
        exact ih hs'

/-! ## Programs -/

/-- The statements see the functions and what they declare. -/
theorem compileMain_judges (ss : List Stmt) {g : Generator} {top : Frame}
    (hs : Represents g.scopes [top]) :
    Judges (result (compileMain ss) g) (Stmt.ListWellFormed [] top.denoted ss) fun _ => True := by
  rw [result_eq (compileMain_run ss g), result_bind]
  refine .bind (compileStmts_judges (g := mainStart g) ss hs) id ?_
  rintro _ hwf ⟨code, s, h, rfl, hs'⟩
  obtain ⟨g', hend, -⟩ := endMain_run g code (Stmt.listWarnings ss) hs'
  rw [result_ok hend]
  exact .ok hwf trivial

theorem generate_judges (config : Config) (p : Program) :
    Judges (result (generate p) (.initial config)) (p.WellFormed config) fun _ => True := by
  rw [generate, result_bind]
  refine .bind (registerFunctions_judges p.functions Represents.initial)
    (fun h hreject => ⟨by simp, h.distinct hreject⟩) fun g hdistinct hs => ?_
  rw [result_bind]
  refine .bind (compileFunctions_judges p.functions hs)
    (p.topFrame_denoted ▸ Program.WellFormed.functions) fun g' hfunctions hs' => ?_
  rw [← bind_pure (result _ g')]
  refine .bind (compileMain_judges p.statements hs')
    (p.topFrame_denoted ▸ Program.WellFormed.statements) fun _ hstatements _ => ?_
  refine .ok ⟨fun hreject => (hdistinct hreject).2, ?_, ?_⟩ trivial
  · exact p.topFrame_denoted ▸ hfunctions
  · exact p.topFrame_denoted ▸ hstatements

end Generator

/-- Only well-formed programs are compiled, and only others get a report. -/
theorem compile_judges (config : Config) (p : Program) :
    Judges (compile config p) (p.WellFormed config) fun _ => True := by
  have hgenerate := Generator.generate_judges config p
  rw [compile]
  unfold Generator.result at hgenerate
  cases hrun : (Generator.generate p).run (.initial config) with
  | error e g =>
      rw [hrun] at hgenerate
      exact hgenerate
  | ok _ g =>
      rw [hrun] at hgenerate
      dsimp only
      cases g.image.verify with
      | error e => exact fun hreport => absurd hreport Bool.false_ne_true
      | ok _ => exact hgenerate

/-- Where no scope needs more slots than there are words, only well-formed programs are accepted,
and a program whose code can be held in memory is accepted exactly if it is well-formed. -/
theorem compile_ok_iff_wellFormed (config : Config) (p : Program)
    (hslots : ∀ n ∈ p.slotTotals, n < wordLimit) :
    ((∃ image, compile config p = .ok image) → p.WellFormed config) ∧
      ((p.codeBound : Int) < signedLimit →
        ((∃ image, compile config p = .ok image) ↔ p.WellFormed config)) := by
  have hjudges := compile_judges config p
  have haccepted : (∃ image, compile config p = .ok image) → p.WellFormed config := by
    rintro ⟨image, hcompile⟩
    rw [hcompile] at hjudges
    exact hjudges.1
  refine ⟨haccepted, fun hcode => ⟨haccepted, fun hwf => ?_⟩⟩
  cases hcompile : compile config p with
  | ok image => exact ⟨image, rfl⟩
  | error e =>
      rw [hcompile] at hjudges
      rcases compile_error hcompile with hreport | ⟨f, -, hexcuses⟩ | ⟨-, hlong⟩
      · exact absurd hwf (hjudges hreport)
      · exact absurd hexcuses (Program.not_excuses hcode hslots f)
      · omega

/-- The demo is accepted.  A branch that puts out a variable of the other branch is not. -/
theorem compile_demo_of_wellFormed :
    (∃ image, compile {} Demo.program = .ok image) ∧
      ¬∃ image, compile {} ⟨[.conditional (.int 1) [.varDecl ⟨"x", .int, .int 1⟩]
        (some [.print (.ident "x")])]⟩ = .ok image := by
  constructor
  · have hwf : Demo.program.WellFormed {} := by decide +kernel
    exact ((compile_ok_iff_wellFormed {} Demo.program (by decide)).2 (by decide)).mpr hwf
  · intro haccepted
    exact absurd ((compile_ok_iff_wellFormed _ _ (by decide)).1 haccepted) (by decide)

end PadCompiler
