import PadCompiler.Proofs.Acceptance

/-!
# PadCompiler.Proofs.Diagnostics

Which warnings an accepted program raises, and in which order.

`Warns` says what a step of the generator adds to the warnings whenever it succeeds.  It is kept by
sequencing, and most steps add nothing.  Statements add a warning for each operator without code, in
the order of `Stmt.warnings`, also where the code of an operand is dropped; making the functions
known adds one for each name that was declared before.

The order of lowering is not the order in which a program is read.  `Program.logic` lists the
operators as they are read, wherever they stand, and the warnings are a permutation of it: none is
missing, and none is raised twice.

* `Program.warnings_perm` — a well-formed program raises one warning for each logical operator;
* `compile_diagnostics` — the diagnostics of an accepted program are the redeclarations of its
  functions and then those warnings, in the order in which the code is made.
-/

namespace PadCompiler

/-! ## Logical operators in the source -/

/-- The operator, if it is a logical one. -/
def BinaryOp.logic : BinaryOp → List BinaryOp
  | .and => [.and]
  | .or => [.or]
  | _ => []

mutual
/-- The logical operators of an expression, as they are read. -/
def Expr.logic : Expr → List BinaryOp
  | .binary op lhs rhs => lhs.logic ++ op.logic ++ rhs.logic
  | .call _ args => Expr.listLogic args
  | .randomInt bound => bound.logic
  | .index _ i => i.logic
  | .literal _ | .ident _ | .padWidth | .padHeight => []

/-- The logical operators of expressions, as they are read. -/
def Expr.listLogic : List Expr → List BinaryOp
  | [] => []
  | e :: es => e.logic ++ Expr.listLogic es
end

mutual
/-- The logical operators of a statement, as they are read. -/
def Stmt.logic : Stmt → List BinaryOp
  | .varDecl decl => decl.init.logic
  | .arrayDecl _ _ size es => size.logic ++ Expr.listLogic es
  | .assign assignment => assignment.value.logic
  | .arrayAssign _ index value => index.logic ++ value.logic
  | .print value | .ret value | .delay value => value.logic
  | .write x y color => Expr.listLogic [x, y, color]
  | .writeBox x y width height color => Expr.listLogic [x, y, width, height, color]
  | .conditional test body none => test.logic ++ Stmt.listLogic body
  | .conditional test body (some otherwise) =>
    test.logic ++ Stmt.listLogic body ++ Stmt.listLogic otherwise
  | .whileLoop test body => test.logic ++ Stmt.listLogic body
  | .forLoop init test step body =>
    init.elim [] (·.init.logic) ++ test.logic ++ step.elim [] (·.value.logic) ++
      Stmt.listLogic body
  | .block body | .function _ _ _ body => Stmt.listLogic body

/-- The logical operators of statements, as they are read. -/
def Stmt.listLogic : List Stmt → List BinaryOp
  | [] => []
  | s :: ss => s.logic ++ Stmt.listLogic ss
end

/-- The logical operators of a program, as they are read. -/
def Program.logic (p : Program) : List BinaryOp :=
  Stmt.listLogic p.items

/-- The warning about a logical operator. -/
def BinaryOp.warning (op : BinaryOp) : Diagnostic :=
  ⟨Generator.unsupportedMessage op⟩

/-! ## Warnings as permutations -/

/-- The warnings are those about the operators, in some order. -/
def About (warnings : List Diagnostic) (ops : List BinaryOp) : Prop :=
  warnings.Perm (ops.map BinaryOp.warning)

namespace About

variable {w w' : List Diagnostic} {ops ops' : List BinaryOp}

theorem nil : About [] [] :=
  .refl _

theorem append (h : About w ops) (h' : About w' ops') : About (w ++ w') (ops ++ ops') := by
  rw [About, List.map_append]
  exact List.Perm.append h h'

/-- What is lowered first may be read last. -/
theorem swap (h : About w ops) (h' : About w' ops') : About (w ++ w') (ops' ++ ops) :=
  List.perm_append_comm.trans (h'.append h)

end About

/-- The operators without an opcode are the logical ones. -/
theorem BinaryOp.warnings_about (op : BinaryOp) : About op.warnings op.logic := by
  cases op <;> exact .refl _

mutual
/-- An expression raises one warning for each logical operator in it. -/
theorem Expr.warnings_about : (e : Expr) → About e.warnings e.logic
  | .literal _ | .ident _ | .padWidth | .padHeight => by
      simpa only [Expr.warnings, Expr.logic] using .nil
  | .randomInt bound => by simpa only [Expr.warnings, Expr.logic] using bound.warnings_about
  | .index _ i => by simpa only [Expr.warnings, Expr.logic] using i.warnings_about
  | .call _ args => by simpa only [Expr.warnings, Expr.logic] using Expr.argWarnings_about args
  | .binary op lhs rhs => by
      rw [Expr.warnings, Expr.logic, List.append_assoc, List.append_assoc]
      have hoperands := lhs.warnings_about.append op.warnings_about
      rw [← List.append_assoc lhs.logic]
      exact rhs.warnings_about.swap hoperands

/-- Arguments raise the warnings of each of them. -/
theorem Expr.argWarnings_about : (es : List Expr) → About (Expr.argWarnings es) (Expr.listLogic es)
  | [] => by simpa only [Expr.argWarnings, Expr.listLogic] using .nil
  | e :: es => by
      rw [Expr.argWarnings, Expr.listLogic]
      exact (Expr.argWarnings_about es).swap e.warnings_about
end

/-- So do expressions that are lowered in order. -/
theorem Expr.flatMap_warnings_about (es : List Expr) :
    About (es.flatMap Expr.warnings) (Expr.listLogic es) := by
  induction es with
  | nil => exact .nil
  | cons e es ih =>
      rw [List.flatMap_cons, Expr.listLogic]
      exact e.warnings_about.append ih

/-- A literal has no operators. -/
theorem Expr.logic_of_literalInt? {e : Expr} {n : Int64} (h : e.literalInt? = some n) :
    e.logic = [] := by
  rw [Expr.eq_int_of_literalInt? h, Expr.logic]

mutual
/-- A well-formed statement raises one warning for each logical operator in it.  The size of an
array is never lowered, but a well-formed size is a literal. -/
theorem Stmt.warnings_about : (s : Stmt) → {outer : List Names} → {scope : Names} →
    s.WellFormed outer scope → About s.warnings s.logic
  | .varDecl decl, _, _, _ => by
      simpa only [Stmt.warnings, Stmt.logic] using decl.init.warnings_about
  | .arrayDecl _ _ size es, _, _, h => by
      obtain ⟨⟨n, hsize, -⟩, -⟩ := h
      simpa only [Stmt.warnings, Stmt.logic, Expr.logic_of_literalInt? hsize, List.nil_append]
        using Expr.argWarnings_about es
  | .assign assignment, _, _, _ => by
      simpa only [Stmt.warnings, Stmt.logic] using assignment.value.warnings_about
  | .arrayAssign _ index value, _, _, _ => by
      simpa only [Stmt.warnings, Stmt.logic] using value.warnings_about.swap index.warnings_about
  | .print value, _, _, _ => by simpa only [Stmt.warnings, Stmt.logic] using value.warnings_about
  | .ret value, _, _, _ => by simpa only [Stmt.warnings, Stmt.logic] using value.warnings_about
  | .delay duration, _, _, _ => by
      simpa only [Stmt.warnings, Stmt.logic, List.flatMap_cons, List.flatMap_nil, List.append_nil]
        using duration.warnings_about
  | .write x y color, _, _, _ => by
      simpa only [Stmt.warnings, Stmt.logic] using Expr.flatMap_warnings_about [x, y, color]
  | .writeBox x y width height color, _, _, _ => by
      simpa only [Stmt.warnings, Stmt.logic] using
        Expr.flatMap_warnings_about [x, y, width, height, color]
  | .conditional test body none, _, _, h => by
      rw [Stmt.WellFormed] at h
      simpa only [Stmt.warnings, Stmt.logic] using
        test.warnings_about.append (Stmt.listWarnings_about body h.2)
  | .conditional test body (some otherwise), _, _, h => by
      rw [Stmt.WellFormed] at h
      simpa only [Stmt.warnings, Stmt.logic] using
        (test.warnings_about.append (Stmt.listWarnings_about body h.2.1)).append
          (Stmt.listWarnings_about otherwise h.2.2)
  | .whileLoop test body, _, _, h => by
      rw [Stmt.WellFormed] at h
      simpa only [Stmt.warnings, Stmt.logic] using
        test.warnings_about.append (Stmt.listWarnings_about body h.2)
  | .forLoop init test step body, _, _, h => by
      rw [Stmt.WellFormed] at h
      have hinit : About (init.elim [] (·.init.warnings)) (init.elim [] (·.init.logic)) := by
        cases init with
        | none => exact .nil
        | some decl => exact decl.init.warnings_about
      have hstep : About (step.elim [] (·.value.warnings)) (step.elim [] (·.value.logic)) := by
        cases step with
        | none => exact .nil
        | some a => exact a.value.warnings_about
      have hturn := (Stmt.listWarnings_about body h.2.2.1).swap hstep
      simpa only [Stmt.warnings, Stmt.logic, List.append_assoc] using
        (hinit.append test.warnings_about).append hturn
  | .block body, _, _, h => by
      rw [Stmt.WellFormed] at h
      simpa only [Stmt.warnings, Stmt.logic] using Stmt.listWarnings_about body h
  | .function .., _, _, h => by
      rw [Stmt.WellFormed] at h
      contradiction

/-- So do well-formed statements. -/
theorem Stmt.listWarnings_about : (ss : List Stmt) → {outer : List Names} → {scope : Names} →
    Stmt.ListWellFormed outer scope ss → About (Stmt.listWarnings ss) (Stmt.listLogic ss)
  | [], _, _, _ => by simpa only [Stmt.listWarnings, Stmt.listLogic] using .nil
  | s :: ss, _, _, h => by
      rw [Stmt.ListWellFormed] at h
      simpa only [Stmt.listWarnings, Stmt.listLogic] using
        (s.warnings_about h.1).append (Stmt.listWarnings_about ss h.2)
end

/-! ## Warnings of a program -/

/-- The warnings about operators: those of the functions, then those of the statements. -/
def Program.warnings (p : Program) : List Diagnostic :=
  p.functions.flatMap (Stmt.listWarnings ·.body) ++ Stmt.listWarnings p.statements

/-- Functions and statements have the operators of all items. -/
theorem Stmt.listLogic_split (ss : List Stmt) :
    ((ss.filterMap Stmt.function?).flatMap (Stmt.listLogic ·.body) ++
      Stmt.listLogic (ss.filter (·.function?.isNone))).Perm (Stmt.listLogic ss) := by
  induction ss with
  | nil => exact .refl _
  | cons s ss ih =>
      rw [Stmt.listLogic]
      cases hs : s.function? with
      | some d =>
          have hlogic : s.logic = Stmt.listLogic d.body := by
            cases s with
            | function name params result body =>
                cases hs
                rw [Stmt.logic]
            | _ => contradiction
          rw [List.filterMap_cons_some hs, List.filter_cons_of_neg (by simp [hs]),
            List.flatMap_cons, List.append_assoc, hlogic]
          exact ih.append_left _
      | none =>
          rw [List.filterMap_cons_none hs, List.filter_cons_of_pos (by simp [hs]), Stmt.listLogic]
          refine .trans ?_ (ih.append_left s.logic)
          rw [← List.append_assoc, ← List.append_assoc]
          exact List.perm_append_comm.append_right _

/-- A well-formed program raises one warning for each logical operator in it. -/
theorem Program.warnings_perm {config : Config} {p : Program} (h : p.WellFormed config) :
    p.warnings.Perm (p.logic.map BinaryOp.warning) := by
  have hfunctions : ∀ ds : List FunctionDecl, (∀ d ∈ ds, d ∈ p.functions) →
      About (ds.flatMap (Stmt.listWarnings ·.body)) (ds.flatMap (Stmt.listLogic ·.body)) := by
    intro ds hds
    induction ds with
    | nil => exact .nil
    | cons d ds ih =>
        obtain ⟨hd, hrest⟩ := List.forall_mem_cons.mp hds
        exact (Stmt.listWarnings_about d.body (h.functions d hd)).append (ih hrest)
  have hstatements := Stmt.listWarnings_about p.statements h.statements
  have hall := (hfunctions p.functions fun _ hd => hd).append hstatements
  exact hall.trans ((Stmt.listLogic_split p.items).map _)

/-! ## What steps add -/

namespace Generator

/-- Whenever the step succeeds, it adds these warnings. -/
def Warns (x : GenM α) (w : List Diagnostic) : Prop :=
  ∀ ⦃g a g'⦄, x.run g = .ok a g' → g'.image.diagnostics = g.image.diagnostics ++ w

namespace Warns

variable {w w' : List Diagnostic}

theorem bind {x : GenM α} {f : α → GenM β} (hx : Warns x w) (hf : ∀ a, Warns (f a) w') :
    Warns (x >>= f) (w ++ w') := by
  intro g b g' hrun
  obtain ⟨a, g₁, hfirst, hrest⟩ := bind_run_eq_ok hrun
  rw [hf a hrest, hx hfirst, List.append_assoc]

/-- A step without warnings before another one. -/
theorem andThen {x : GenM α} {f : α → GenM β} (hx : Warns x []) (hf : ∀ a, Warns (f a) w) :
    Warns (x >>= f) w :=
  hx.bind hf

/-- A step that leaves the warnings alone. -/
theorem silent {x : GenM α}
    (h : ∀ ⦃g a g'⦄, x.run g = .ok a g' → g'.image.diagnostics = g.image.diagnostics) :
    Warns x [] :=
  fun _ _ _ hrun => (h hrun).trans (List.append_nil _).symm

theorem get : Warns get [] :=
  .silent fun g a g' hrun => by
    cases hrun
    rfl

theorem emit (code : List Instruction) : Warns (emit code) [] :=
  .silent fun g a g' hrun => by
    cases hrun
    rfl

theorem closeScope : Warns closeScope [] :=
  .silent fun g a g' hrun => by
    rw [closeScope_run] at hrun
    split at hrun
    · cases hrun
      exact List.append_nil _
    · contradiction

theorem declareScalar (name : String) (ty : Ty) (hint : Lowered) :
    Warns (declareScalar name ty hint) [] :=
  .silent fun g a g' hrun => by
    rw [declareScalar_run] at hrun
    split at hrun
    · cases hrun
      exact List.append_nil _
    · contradiction

theorem patchCount (reservation : Reservation) (count : Nat) :
    Warns (patchCount reservation count) [] :=
  .silent fun g a g' hrun => by
    simp only [Generator.patchCount, EStateM.run_bind, EStateM.run_get, ofExcept_run] at hrun
    cases hpatch : g.block.patchCount reservation count with
    | error e => simp [hpatch] at hrun
    | ok block =>
        simp only [hpatch, EStateM.run_set] at hrun
        cases hrun
        rfl

theorem finishBlock : Warns finishBlock [] :=
  .silent fun g a g' hrun => by
    cases hrun
    rfl

theorem declareParams (params : List Param) : Warns (declareParams params) [] := by
  induction params with
  | nil =>
      refine .silent fun g a g' hrun => ?_
      cases hrun
      rfl
  | cons param params ih =>
      have hfirst : Warns (discard (Generator.declareScalar param.name param.ty .dynamic)) [] := by
        intro g a g' hrun
        rw [discard_run] at hrun
        split at hrun
        · next hdeclare =>
            cases hrun
            exact declareScalar _ _ _ hdeclare
        · contradiction
      exact .andThen hfirst fun _ => ih

theorem compileStmts (ss : List Stmt) : Warns (compileStmts ss) (Stmt.listWarnings ss) := by
  intro g a g' hrun
  obtain ⟨code, s, -, rfl⟩ := compileStmts_run_ok hrun
  rfl

end Warns

/-! ## Functions and statements -/

theorem endFunction_warns (d : FunctionDecl) : Warns (endFunction d) [] := by
  have hclose : Warns (do
      let slots ← closeScope
      patchCount ⟨0⟩ slots
      finishBlock) [] :=
    .andThen .closeScope fun _ => .andThen (.patchCount _ _) fun _ => .finishBlock
  unfold endFunction
  cases endsWithReturn d.body with
  | true => exact hclose
  | false => exact .andThen (.emit _) fun _ => hclose

theorem endMain_warns : Warns endMain [] :=
  .andThen .get fun _ => .andThen (.patchCount _ _) fun _ =>
    .andThen (.emit _) fun _ => .finishBlock

/-- A function raises the warnings of its body. -/
theorem compileFunction_warns (d : FunctionDecl) :
    Warns (compileFunction d) (Stmt.listWarnings d.body) := by
  have hbody : Warns (do compileStmts d.body; endFunction d) (Stmt.listWarnings d.body) := by
    simpa using Warns.bind (.compileStmts d.body) fun _ => endFunction_warns d
  intro g a g' hrun
  rw [compileFunction_run] at hrun
  have hstart : (functionStart d g).image.diagnostics = g.image.diagnostics :=
    List.append_nil _
  rw [← hstart]
  exact Warns.andThen (.declareParams d.params) (fun _ => hbody) hrun

theorem compileFunctions_warn (ds : List FunctionDecl) :
    Warns (ds.forM compileFunction) (ds.flatMap (Stmt.listWarnings ·.body)) := by
  induction ds with
  | nil =>
      refine .silent fun g a g' hrun => ?_
      cases hrun
      rfl
  | cons d ds ih => exact .bind (compileFunction_warns d) fun _ => ih

theorem compileMain_warns (ss : List Stmt) : Warns (compileMain ss) (Stmt.listWarnings ss) := by
  have hbody : Warns (do compileStmts ss; endMain) (Stmt.listWarnings ss) := by
    simpa using Warns.bind (.compileStmts ss) fun _ => endMain_warns
  intro g a g' hrun
  rw [compileMain_run] at hrun
  have hstart : (mainStart g).image.diagnostics = g.image.diagnostics := List.append_nil _
  rw [← hstart]
  exact hbody hrun

end Generator

/-! ## Redeclarations -/

/-- The functions with a name that one before them has, or that is among `earlier`. -/
def redeclaredAfter (earlier : List String) : List FunctionDecl → List FunctionDecl
  | [] => []
  | d :: ds =>
    (if d.name ∈ earlier then [d] else []) ++ redeclaredAfter (d.name :: earlier) ds

/-- The functions of a program with a name that an earlier one has, in order. -/
def Program.redeclared (p : Program) : List FunctionDecl :=
  redeclaredAfter [] p.functions

/-- The warning about a function with the name of an earlier one. -/
def FunctionDecl.redeclaration (d : FunctionDecl) : Diagnostic :=
  ⟨"function '" ++ d.name ++ "' already exists"⟩

namespace Generator

/-- A function that was made known has a name that was new, or there is a warning about it.  The
latter is not allowed where that is to be rejected. -/
theorem registerFunction_ok {d : FunctionDecl} {g g' : Generator} {earlier : List String}
    (hknown : ∀ name, (g.scopes.inner.lookup name).isSome = true ↔ name ∈ earlier)
    (hrun : (registerFunction d).run g = .ok () g') :
    g' = g.after []
        (g.scopes.declareFunction d.name ⟨Text.lower d.name, d.params, d.result⟩).2
        ((if d.name ∈ earlier then [d] else []).map FunctionDecl.redeclaration) ∧
      (g.config.redeclaration = .reject → d.name ∉ earlier) := by
  rw [registerFunction_run, ScopeStack.declareFunction] at hrun
  cases hlookup : g.scopes.inner.lookup d.name with
  | none =>
      have hnew : d.name ∉ earlier := by simp [← hknown d.name, hlookup]
      rw [hlookup] at hrun
      cases hrun
      rw [if_neg hnew]
      exact ⟨rfl, fun _ => hnew⟩
  | some b =>
      have hold : d.name ∈ earlier := by simp [← hknown d.name, hlookup]
      rw [if_pos hold]
      cases hconfig : g.config.redeclaration with
      | reject =>
          rw [hlookup, hconfig] at hrun
          contradiction
      | warn =>
          rw [hlookup, hconfig] at hrun
          cases hrun
          exact ⟨rfl, nofun⟩

/-- Making functions known warns of each name that the innermost scope has already, and where that
is to be rejected there is none. -/
theorem registerFunctions_warn (ds : List FunctionDecl) {earlier : List String} {g g' : Generator}
    (hknown : ∀ name, (g.scopes.inner.lookup name).isSome = true ↔ name ∈ earlier)
    (hrun : (ds.forM registerFunction).run g = .ok () g') :
    g'.image.diagnostics = g.image.diagnostics ++
        (redeclaredAfter earlier ds).map FunctionDecl.redeclaration ∧
      (g.config.redeclaration = .reject → redeclaredAfter earlier ds = []) := by
  induction ds generalizing earlier g with
  | nil =>
      cases hrun
      simp [redeclaredAfter]
  | cons d ds ih =>
      rw [List.forM_eq_forM, List.forM_cons] at hrun
      obtain ⟨_, g₁, hfirst, hrest⟩ := bind_run_eq_ok hrun
      obtain ⟨rfl, hnew⟩ := registerFunction_ok hknown hfirst
      have hknown' : ∀ name, ((g.scopes.declareFunction d.name
          ⟨Text.lower d.name, d.params, d.result⟩).2.inner.lookup name).isSome = true ↔
            name ∈ d.name :: earlier := by
        intro name
        rw [ScopeStack.declareFunction, Scope.lookup_insert, List.mem_cons, ← hknown name]
        by_cases hname : name = d.name <;> simp [hname]
      obtain ⟨hwarnings, hreject⟩ := ih hknown' hrest
      refine ⟨?_, fun hconfig => ?_⟩
      · rw [hwarnings, redeclaredAfter, List.map_append, ← List.append_assoc]
        rfl
      · rw [redeclaredAfter, if_neg (hnew hconfig), hreject hconfig]
        rfl

end Generator

/-! ## Diagnostics of accepted programs -/

/-- The diagnostics of an accepted program are the redeclarations of its functions, of which there
are none if they are rejected, and then one warning for each logical operator, in the order in
which the code is made. -/
theorem compile_diagnostics {config : Config} {p : Program} {image : Image}
    (hcompile : compile config p = .ok image) :
    image.diagnostics = p.redeclared.map FunctionDecl.redeclaration ++ p.warnings ∧
      (config.redeclaration = .reject → p.redeclared = []) ∧
      p.warnings.Perm (p.logic.map BinaryOp.warning) := by
  have hwf : p.WellFormed config := by
    have hjudges := compile_judges config p
    rw [hcompile] at hjudges
    exact hjudges.1
  obtain ⟨-, g, hrun, rfl⟩ := compile_eq_ok.mp hcompile
  rw [Generator.generate] at hrun
  obtain ⟨_, g₁, hregister, hcode⟩ := Generator.bind_run_eq_ok hrun
  have hempty : ∀ name,
      ((Generator.initial config).scopes.inner.lookup name).isSome = true ↔ name ∈ [] := by
    simp [Generator.initial, Scope.lookup]
  obtain ⟨hredeclared, hreject⟩ := Generator.registerFunctions_warn p.functions hempty hregister
  have hwarned := Generator.Warns.bind (Generator.compileFunctions_warn p.functions)
    (fun _ => Generator.compileMain_warns p.statements) hcode
  refine ⟨?_, hreject, Program.warnings_perm hwf⟩
  rw [hwarned, hredeclared]
  rfl

/-- A function that is declared twice, a loop with operators in each of its parts, and operators
below an operator without code. -/
def Demo.logical : Program where
  items := [
    .function "f" [⟨"n", .int⟩] .int [.ret (.binary .or (.ident "n") (.int 1))],
    .arrayDecl "row" .bool (.int 2) [.int 0, .binary .and (.int 0) (.int 1)],
    .forLoop (some ⟨"i", .bool, .binary .or (.int 0) (.int 1)⟩)
      (.binary .and (.ident "i") (.int 1))
      (some ⟨"i", .binary .or (.ident "i") (.int 1)⟩)
      [.arrayAssign "row" (.binary .and (.int 0) (.int 1)) (.binary .or (.int 0) (.int 1))],
    .function "f" [⟨"n", .int⟩] .int [.ret (.int 0)],
    .print (.binary .and (.binary .or (.int 0) (.int 1))
      (.call "f" [.binary .and (.int 0) (.int 1)]))]

/-- The second declaration is reported first, then the operators: the body of the loop comes before
its step, the value of the element before its index, and the outer operator last. -/
theorem compile_logical_diagnostics :
    ∃ image : Image, compile {} Demo.logical = .ok image ∧
      image.diagnostics = ⟨"function 'f' already exists"⟩ ::
        [.or, .and, .or, .and, .or, .and, .or, .and, .or, .and].map BinaryOp.warning ∧
      image.diagnostics.length = 1 + Demo.logical.logic.length := by
  have haccepted : (compile {} Demo.logical).toOption.isSome = true := by decide +kernel
  cases hcompile : compile {} Demo.logical with
  | error e =>
      rw [hcompile] at haccepted
      contradiction
  | ok image =>
      obtain ⟨hdiagnostics, -, -⟩ := compile_diagnostics hcompile
      have hlist : Demo.logical.redeclared.map FunctionDecl.redeclaration ++ Demo.logical.warnings =
          ⟨"function 'f' already exists"⟩ ::
            [.or, .and, .or, .and, .or, .and, .or, .and, .or, .and].map BinaryOp.warning := by
        decide +kernel
      refine ⟨image, rfl, hdiagnostics.trans hlist, ?_⟩
      rw [hdiagnostics, hlist]
      rfl

end PadCompiler
