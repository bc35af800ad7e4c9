import PadCompiler.Proofs.ScopeEffects

/-!
# PadCompiler.Proofs.LoopHeaders

The names in the header of a loop.

A loop has one scope for its variable and for what its body declares.  The condition is compiled
when the variable is declared, the step when the body is compiled as well.  So a name that stands in
both may stand for two things: it is the same one unless the body itself declares the name, and then
the step means what the body declares last.  What is declared in constructs inside the body makes no
difference.

* `forLoop_header_names` — what the names of the condition stand for in the step.
-/

namespace PadCompiler

/-! ## Names in expressions -/

mutual
/-- All names in an expression: those of variables, arrays and functions. -/
def Expr.identifiers : Expr → List String
  | .ident name => [name]
  | .binary _ lhs rhs => lhs.identifiers ++ rhs.identifiers
  | .call name args => name :: Expr.listIdentifiers args
  | .randomInt bound => bound.identifiers
  | .index name i => name :: i.identifiers
  | .literal _ | .padWidth | .padHeight => []

/-- All names in expressions. -/
def Expr.listIdentifiers : List Expr → List String
  | [] => []
  | e :: es => e.identifiers ++ Expr.listIdentifiers es
end

/-- A literal has no names. -/
theorem Expr.identifiers_of_literalInt? {e : Expr} {n : Int64} (h : e.literalInt? = some n) :
    e.identifiers = [] := by
  rw [Expr.eq_int_of_literalInt? h, identifiers]

namespace Layout

variable {find : Lookup}

theorem scalar_finds {name : String} {place : Nat × Nat} (h : scalar find name = .ok place) :
    ∃ found, find name = .ok found := by
  obtain ⟨found, hfind, -⟩ := bind_eq_ok.mp h
  exact ⟨found, hfind⟩

theorem array_finds {name : String} {a : ScopeStack.ArrayRef} (h : array find name = .ok a) :
    ∃ found, find name = .ok found :=
  ⟨_, array_eq_ok h⟩

theorem function_finds {name : String} {f : String × Nat} (h : function find name = .ok f) :
    ∃ found, find name = .ok found := by
  obtain ⟨found, hfind, -⟩ := bind_eq_ok.mp h
  exact ⟨found, hfind⟩

mutual
/-- Every name in an expression with code stands for something, also where the operator has no
code. -/
theorem expr_finds : (e : Expr) → {code : List Instruction} → expr find e = .ok code →
    ∀ name ∈ e.identifiers, ∃ place, find name = .ok place
  | .literal _, _, _ | .padWidth, _, _ | .padHeight, _, _ => by simp [Expr.identifiers]
  | .ident name, _, h => by
      obtain ⟨place, hplace, -⟩ := bind_eq_ok.mp h
      simpa [Expr.identifiers] using scalar_finds hplace
  | .randomInt bound, _, h => by
      obtain ⟨code, hbound, -⟩ := bind_eq_ok.mp h
      rw [Expr.identifiers]
      exact expr_finds bound hbound
  | .binary op lhs rhs, _, h => by
      obtain ⟨right, hright, h⟩ := bind_eq_ok.mp h
      obtain ⟨left, hleft, -⟩ := bind_eq_ok.mp h
      rw [Expr.identifiers]
      exact List.forall_mem_append.mpr ⟨expr_finds lhs hleft, expr_finds rhs hright⟩
  | .call name args, _, h => by
      rw [expr] at h
      obtain ⟨f, hf, h⟩ := bind_eq_ok.mp h
      rw [Expr.identifiers]
      refine List.forall_mem_cons.mpr ⟨function_finds hf, ?_⟩
      dsimp only at h
      split at h
      · contradiction
      · obtain ⟨code, hargs, -⟩ := bind_eq_ok.mp h
        exact reversed_finds args hargs
  | .index name i, _, h => by
      rw [expr] at h
      obtain ⟨a, ha, h⟩ := bind_eq_ok.mp h
      rw [Expr.identifiers]
      refine List.forall_mem_cons.mpr ⟨array_finds ha, ?_⟩
      cases hi : i.literalInt? with
      | some n => simp [Expr.identifiers_of_literalInt? hi]
      | none =>
          rw [hi] at h
          obtain ⟨code, hindex, -⟩ := bind_eq_ok.mp h
          exact expr_finds i hindex

theorem reversed_finds : (es : List Expr) → {code : List Instruction} →
    reversed find es = .ok code → ∀ name ∈ Expr.listIdentifiers es, ∃ place, find name = .ok place
  | [], _, _ => by simp [Expr.listIdentifiers]
  | e :: es, _, h => by
      rw [reversed] at h
      obtain ⟨others, hothers, h⟩ := bind_eq_ok.mp h
      obtain ⟨first, hfirst, -⟩ := bind_eq_ok.mp h
      rw [Expr.listIdentifiers]
      exact List.forall_mem_append.mpr ⟨expr_finds e hfirst, reversed_finds es hothers⟩
end

end Layout

/-! ## Places -/

/-- The name stands for this place, wherever it is read and wherever it is assigned to. -/
def ScopeStack.StandsFor (s : ScopeStack) (name : String) (place : Storage × Nat) : Prop :=
  Scoping.find s name = .ok place ∧ ∀ hint, ∃ t, Scoping.assign s name hint = .ok (place, t)

namespace ScopeStack

variable {s : ScopeStack} {name : String}

/-- What is found in scopes can be changed there. -/
theorem modifyIn_of_resolveIn {f : Binding → Binding} {hops : Nat} {scopes : List Scope}
    {b : Binding} (h : resolveIn name hops scopes = .ok b) :
    ∃ scope rest, modifyIn name f scopes = some (f b, scope :: rest) ∧ hops ≤ b.depth := by
  induction scopes generalizing hops with
  | nil => contradiction
  | cons scope scopes ih =>
      rw [resolveIn] at h
      rw [modifyIn]
      split at h
      · split at h
        · next hdepth =>
            cases h
            exact ⟨_, _, rfl, Nat.le_of_eq hdepth.symm⟩
        · contradiction
      · obtain ⟨scope', rest, hmodify, hle⟩ := ih h
        exact ⟨scope, scope' :: rest, by rw [hmodify]; rfl, Nat.le_of_succ_le hle⟩

/-- What is not found in the innermost scope is at least one frame away. -/
theorem depth_pos_of_find {place : Storage × Nat} (hnone : s.inner.lookup name = none)
    (h : Scoping.find s name = .ok place) : 0 < place.2 := by
  obtain ⟨b, hb, rfl⟩ := map_eq_ok.mp h
  rw [resolve, toList, resolveIn, hnone] at hb
  obtain ⟨-, -, -, hle⟩ := modifyIn_of_resolveIn (f := id) hb
  exact hle

/-- A name that can be read is assigned to in the same place. -/
theorem standsFor_of_find {place : Storage × Nat} (h : Scoping.find s name = .ok place) :
    s.StandsFor name place := by
  refine ⟨h, fun hint => ?_⟩
  obtain ⟨b, hb, rfl⟩ := map_eq_ok.mp h
  obtain ⟨scope, rest, hmodify, -⟩ := modifyIn_of_resolveIn
    (f := fun b => { b with entity := b.entity.withHint hint }) hb
  refine ⟨⟨scope, rest⟩, map_eq_ok.mpr ⟨_, by rw [setHint, hmodify], ?_⟩⟩
  obtain ⟨entity, depth⟩ := b
  cases entity <;> rfl

end ScopeStack

/-! ## The states of a loop -/

namespace Generator

variable {decl : VarDecl} {test : Expr} {step : Assignment} {body : List Stmt}
  {g g' head next : Generator}

/-- From the state `g`, a loop with these parts compiles its condition in the state `head`, where
the variable is declared, and its step in the state `next`, where the body is compiled too. -/
structure LoopStates (decl : VarDecl) (test : Expr) (step : Assignment) (body : List Stmt)
    (g head next : Generator) : Prop where
  start : (do discard openFrame; compileVarDecl decl : GenM Unit).run g = .ok () head
  turn : (do compileTest test; discard reserve; emit [.plain .cjmp]; compileStmts body :
    GenM Unit).run head = .ok () next
  step : ∃ last, (compileAssign step).run next = .ok () last

/-- A loop that compiles goes through these states. -/
theorem forLoop_states
    (hrun : (compileStmt (.forLoop (some decl) test (some step) body)).run g = .ok () g') :
    ∃ head next, LoopStates decl test step body g head next := by
  rw [compileStmt, compileLoop, inFrame] at hrun
  obtain ⟨size, opened, hopen, hrun⟩ := bind_run_eq_ok hrun
  obtain ⟨_, closing, hinside, -⟩ := bind_run_eq_ok hrun
  obtain ⟨_, head, hdecl, hinside⟩ := bind_run_eq_ok hinside
  obtain ⟨top, head', hhere, hinside⟩ := bind_run_eq_ok hinside
  cases hhere
  obtain ⟨_, tested, htest, hinside⟩ := bind_run_eq_ok hinside
  obtain ⟨exit, reserved, hreserve, hinside⟩ := bind_run_eq_ok hinside
  obtain ⟨_, guarded, hemit, hinside⟩ := bind_run_eq_ok hinside
  obtain ⟨_, next, hbody, hinside⟩ := bind_run_eq_ok hinside
  obtain ⟨_, last, hstep, -⟩ := bind_run_eq_ok hinside
  have hopen' : (discard openFrame).run g = .ok () opened := by rw [discard_run, hopen]
  have hreserve' : (discard reserve).run tested = .ok () reserved := by rw [discard_run, hreserve]
  refine ⟨head, next, ?_, ?_, last, hstep⟩
  · rw [bind_run_ok hopen']
    exact hdecl
  · rw [bind_run_ok htest, bind_run_ok hreserve', bind_run_ok hemit]
    exact hbody

namespace LoopStates

/-- The condition is compiled in the scope of the variable. -/
theorem head_unhinted (h : LoopStates decl test step body g head next) :
    head.scopes.unhinted = g.scopes.enter.unhinted.declareAll [.varDecl decl] := by
  obtain ⟨_, opened, hopen, hdecl⟩ := bind_run_eq_ok h.start
  have hopened : opened.scopes = g.scopes.enter := by
    rw [discard_run] at hopen
    cases hopen
    rfl
  obtain ⟨code, s, hcode, rfl⟩ := (compileVarDecl_lays decl).run_ok hdecl
  rw [hopened] at hcode
  exact Layout.varDecl_declares decl hcode

/-- Between the condition and the step there is the body. -/
theorem body_run (h : LoopStates decl test step body g head next) :
    (∃ code, Layout.expr (Scoping.find head.scopes) test = .ok code) ∧
      ∃ guarded, guarded.scopes = head.scopes ∧ (compileStmts body).run guarded = .ok () next := by
  obtain ⟨_, tested, htest, hturn⟩ := bind_run_eq_ok h.turn
  obtain ⟨_, reserved, hreserve, hturn⟩ := bind_run_eq_ok hturn
  obtain ⟨_, guarded, hemit, hbody⟩ := bind_run_eq_ok hturn
  obtain ⟨code, hcode, rfl⟩ := (compileTest_emits test head).run_eq_ok htest
  obtain ⟨testCode, htestCode, -⟩ := bind_eq_ok.mp hcode
  refine ⟨⟨testCode, htestCode⟩, guarded, ?_, hbody⟩
  rw [discard_run, reserve_run] at hreserve
  cases hreserve
  cases hemit
  rfl

/-- The step is compiled in the scope of the variable, with what the body declares. -/
theorem next_unhinted (h : LoopStates decl test step body g head next) :
    next.scopes.unhinted = g.scopes.enter.unhinted.declareAll (.varDecl decl :: body) := by
  obtain ⟨-, guarded, hguarded, hbody⟩ := h.body_run
  rw [compileStmts_unhinted hbody, hguarded, h.head_unhinted]
  exact ScopeStack.declareAll_append

/-- As many scopes are open for the step as for the condition. -/
theorem outer_length (h : LoopStates decl test step body g head next) :
    next.scopes.outer.length = head.scopes.outer.length := by
  have houter : next.scopes.unhinted.outer = head.scopes.unhinted.outer := by
    rw [h.next_unhinted, h.head_unhinted]
    rfl
  simpa [ScopeStack.unhinted] using congrArg List.length houter

/-- The variable of the loop is the only name in its scope before the body. -/
theorem find_head (h : LoopStates decl test step body g head next) {name : String}
    {place : Storage × Nat} (hfind : Scoping.find head.scopes name = .ok place) :
    place = (.scalar 0, 0) ∨ 0 < place.2 := by
  have hinner : head.scopes.unhinted.inner.lookup name =
      if name = decl.name then some ⟨.scalar decl.ty 0 .dynamic, 0⟩ else none := by
    rw [h.head_unhinted]
    exact Scope.put_lookup (s := {}) decl.name name 1 (.scalar decl.ty · .dynamic)
  rw [← ScopeStack.find_unhinted] at hfind
  by_cases hname : name = decl.name
  · rw [if_pos hname] at hinner
    rw [ScopeStack.find_inner hinner rfl] at hfind
    exact .inl (Except.ok.inj hfind).symm
  · rw [if_neg hname] at hinner
    exact .inr (ScopeStack.depth_pos_of_find hinner hfind)

end LoopStates

end Generator

/-- What is declared after the first slot does not lie on it. -/
theorem LastDeclared.ne_first {name : String} {slot : Nat} {ss : List Stmt} {storage : Storage}
    (h : LastDeclared name slot ss storage) (hslot : 0 < slot) : storage ≠ .scalar 0 := by
  obtain ⟨before, stmt, after, -, -, -, hstorage⟩ := h
  rintro rfl
  cases stmt with
  | varDecl decl =>
      have hfirst : slot + Stmt.listSlots before = 0 :=
        Storage.scalar.inj (Option.some.inj hstorage)
      omega
  | _ => simp [Stmt.storage?] at hstorage

open Generator in
/-- The condition and the step of a loop that compiles are compiled with the same number of open
scopes.  Every name of the condition stands for something there.  What stands for something in the
condition stands for the same in the step, at the same depth, where it is read and where it is
assigned to, unless the body declares it in its own list of statements.  Then it stands for what the
body declares last, another thing in the frame of the loop. -/
theorem forLoop_header_names {decl : VarDecl} {test : Expr} {step : Assignment} {body : List Stmt}
    {g g' : Generator}
    (hrun : (compileStmt (.forLoop (some decl) test (some step) body)).run g = .ok () g') :
    ∃ head next, LoopStates decl test step body g head next ∧
      next.scopes.outer.length = head.scopes.outer.length ∧
      (∀ name ∈ test.identifiers, ∃ place, Scoping.find head.scopes name = .ok place) ∧
      ∀ name place, Scoping.find head.scopes name = .ok place →
        (name ∉ body.flatMap Stmt.declared → next.scopes.StandsFor name place) ∧
        (name ∈ body.flatMap Stmt.declared → ∃ storage, LastDeclared name 1 body storage ∧
          next.scopes.StandsFor name (storage, 0) ∧ (storage, 0) ≠ place) := by
  obtain ⟨head, next, hstates⟩ := forLoop_states hrun
  obtain ⟨⟨code, htest⟩, guarded, hguarded, hbody⟩ := hstates.body_run
  refine ⟨head, next, hstates, hstates.outer_length, Layout.expr_finds test htest, ?_⟩
  intro name place hplace
  obtain ⟨hkept, hdeclared⟩ := compileStmts_find hbody name
  rw [hguarded] at hkept hdeclared
  refine ⟨fun hfree => ScopeStack.standsFor_of_find ((hkept hfree).trans hplace), fun hbound => ?_⟩
  obtain ⟨storage, hfind, hlast⟩ := hdeclared hbound
  have hcursor : head.scopes.inner.cursor = 1 := congrArg (·.inner.cursor) hstates.head_unhinted
  rw [hcursor] at hlast
  refine ⟨storage, hlast, ScopeStack.standsFor_of_find hfind, ?_⟩
  rintro rfl
  -- At depth 0 the condition finds nothing but the variable of the loop, in the first slot.
  rcases hstates.find_head hplace with heq | hpos
  · exact hlast.ne_first Nat.one_pos (Prod.mk.inj heq).1
  · exact absurd hpos (Nat.lt_irrefl 0)

/-- A loop that counts to three. -/
def Demo.counting (body : List Stmt) : Stmt :=
  .forLoop (some ⟨"i", .int, .int 0⟩) (.binary .lt (.ident "i") (.int 3))
    (some ⟨"i", .binary .add (.ident "i") (.int 1)⟩) body

/-- A body that declares the name of the variable in a block of its own, and another name. -/
def Demo.inBlock : List Stmt :=
  [.block [.varDecl ⟨"i", .int, .int 7⟩], .varDecl ⟨"k", .int, .int 1⟩]

open Generator in
/-- What the block declares makes no difference to the step. -/
theorem counting_inBlock_header_names :
    ∃ g' head next, (compileStmt (Demo.counting Demo.inBlock)).run (.initial {}) = .ok () g' ∧
      LoopStates ⟨"i", .int, .int 0⟩ (.binary .lt (.ident "i") (.int 3))
        ⟨"i", .binary .add (.ident "i") (.int 1)⟩ Demo.inBlock (.initial {}) head next ∧
      Scoping.find head.scopes "i" = .ok (.scalar 0, 0) ∧
      next.scopes.StandsFor "i" (.scalar 0, 0) := by
  obtain ⟨g', hrun⟩ := run_ok_of_succeeds (x := compileStmt (Demo.counting Demo.inBlock))
    (g := .initial {}) (by decide +kernel)
  obtain ⟨head, next, hstates, -, -, hnames⟩ := forLoop_header_names hrun
  have hhead : Scoping.find head.scopes "i" = .ok (.scalar 0, 0) := by
    rw [← ScopeStack.find_unhinted, hstates.head_unhinted]
    rfl
  exact ⟨g', head, next, hrun, hstates, hhead, (hnames "i" _ hhead).1 (by decide)⟩

/-- A body that declares the name of the variable again. -/
def Demo.redeclared : List Stmt :=
  [.varDecl ⟨"i", .int, .int 7⟩]

open Generator in
/-- The condition reads the variable of the loop, in the first slot.  The step reads what the body
declares, in the second slot, and assigns to that. -/
theorem counting_redeclared_header_names :
    (compile { clearColor := none } { items := [Demo.counting Demo.redeclared] }).toOption.map
        (fun image => image.blocks.map fun b => b.code.map Instruction.text) =
      some [["push 0", "oframe", "push 2", "oframe", "push 0", "push 0", "push 0", "st",
        "push 3", "push [0:0]", "lt", "push 0", "eq", "push #PC+14", "cjmp",
        "push 7", "push 1", "push 0", "st",
        "push 1", "push [1:0]", "add", "push 1", "push 0", "st",
        "push #PC-17", "jmp", "cframe", "cframe", "halt"]] ∧
    ∃ g' head next, (compileStmt (Demo.counting Demo.redeclared)).run (.initial {}) = .ok () g' ∧
      LoopStates ⟨"i", .int, .int 0⟩ (.binary .lt (.ident "i") (.int 3))
        ⟨"i", .binary .add (.ident "i") (.int 1)⟩ Demo.redeclared (.initial {}) head next ∧
      Scoping.find head.scopes "i" = .ok (.scalar 0, 0) ∧
      next.scopes.StandsFor "i" (.scalar 1, 0) ∧
      ¬ next.scopes.StandsFor "i" (.scalar 0, 0) := by
  refine ⟨by decide +kernel, ?_⟩
  obtain ⟨g', hrun⟩ := run_ok_of_succeeds (x := compileStmt (Demo.counting Demo.redeclared))
    (g := .initial {}) (by decide +kernel)
  obtain ⟨head, next, hstates⟩ := forLoop_states hrun
  have hhead : Scoping.find head.scopes "i" = .ok (.scalar 0, 0) := by
    rw [← ScopeStack.find_unhinted, hstates.head_unhinted]
    rfl
  have hnext : Scoping.find next.scopes "i" = .ok (.scalar 1, 0) := by
    rw [← ScopeStack.find_unhinted, hstates.next_unhinted]
    rfl
  refine ⟨g', head, next, hrun, hstates, hhead, ScopeStack.standsFor_of_find hnext, fun h => ?_⟩
  exact absurd (Except.ok.inj (hnext.symm.trans h.1)) (by decide)

end PadCompiler
