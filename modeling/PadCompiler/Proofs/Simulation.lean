import PadCompiler.Proofs.Layout

/-!
# PadCompiler.Proofs.Simulation

The layout asks no more of the scopes than `Scoping` offers.  So two ways to keep
scopes that answer alike give the same code: from related scopes the layout either
fails with the same error on both sides, or makes the same code and leaves related
scopes (`Scoping.Simulation.stmts`).

A relation carries a level, which goes up by one inside a nested scope.  It lets a
relation say that two stacks differ in one scope that is not the innermost.
-/

namespace PadCompiler

/-! ## Outcomes that agree -/

variable {α β σ τ σ' τ' : Type}

/-- Both fail with the same error, or both give the same value and related scopes. -/
inductive Agree (R : σ → τ → Prop) :
    Except CompileError (α × σ) → Except CompileError (α × τ) → Prop
  | ok (a : α) {s : σ} {t : τ} (h : R s t) : Agree R (.ok (a, s)) (.ok (a, t))
  | error (e : CompileError) : Agree R (.error e) (.error e)

theorem Agree.bind {R : σ → τ → Prop} {R' : σ' → τ' → Prop}
    {x : Except CompileError (α × σ)} {y : Except CompileError (α × τ)}
    {f : α × σ → Except CompileError (β × σ')} {g : α × τ → Except CompileError (β × τ')}
    (hxy : Agree R x y) (hfg : ∀ a s t, R s t → Agree R' (f (a, s)) (g (a, t))) :
    Agree R' (x >>= f) (y >>= g) := by
  cases hxy with
  | ok a h => exact hfg a _ _ h
  | error e => exact .error e

/-- Sequences that start in the same way agree if what follows does. -/
theorem Agree.after {R : σ → τ → Prop} (x : Except CompileError α)
    {f : α → Except CompileError (β × σ)} {g : α → Except CompileError (β × τ)}
    (hfg : ∀ a, Agree R (f a) (g a)) : Agree R (x >>= f) (x >>= g) := by
  cases x with
  | ok a => exact hfg a
  | error e => exact .error e

/-! ## Scopes that answer alike -/

/-- A relation between two ways to keep scopes that every operation respects. -/
structure Scoping.Simulation [Scoping σ] [Scoping τ] (R : Nat → σ → τ → Prop) : Prop where
  find {k s t} : R k s t → Scoping.find s = Scoping.find t
  scalar {k s t} (name ty hint) : R k s t →
    Agree (R k) (Scoping.scalar s name ty hint) (Scoping.scalar t name ty hint)
  array {k s t} (name ty length) : R k s t →
    Agree (R k) (Scoping.array s name ty length) (Scoping.array t name ty length)
  assign {k s t} (name hint) : R k s t →
    Agree (R k) (Scoping.assign s name hint) (Scoping.assign t name hint)
  enter {k s t} : R k s t → R (k + 1) (Scoping.enter s) (Scoping.enter t)
  leave {k s t} : R (k + 1) s t → Agree (R k) (Scoping.leave s) (Scoping.leave t)
  fresh {k s t} : R (k + 1) s t → R (k + 1) (Scoping.fresh s) (Scoping.fresh t)
  size {k s t} : R (k + 1) s t → Scoping.size s = Scoping.size t

/-- Layouts that agree on related scopes. -/
def Tracks (R : Nat → σ → τ → Prop) (f : Layout σ) (g : Layout τ) : Prop :=
  ∀ k s t, R k s t → Agree (R k) (f s) (g t)

/-- A part that may be absent. -/
theorem Tracks.optional {R : Nat → σ → τ → Prop} {part : α → Layout σ} {part' : α → Layout τ}
    (h : ∀ a, Tracks R (part a) (part' a)) (o : Option α) :
    Tracks R (Layout.optional part o) (Layout.optional part' o) := by
  cases o with
  | some a => exact h a
  | none => exact fun k s t hst => .ok _ hst

theorem Tracks.seq {R : Nat → σ → τ → Prop} {f f' : Layout σ} {g g' : Layout τ}
    (hfirst : Tracks R f g) (hsecond : Tracks R f' g') :
    Tracks R (Layout.seq f f') (Layout.seq g g') := by
  intro k s t h
  refine .bind (hfirst k s t h) fun first s t h => ?_
  exact .bind (hsecond k s t h) fun second s t h => .ok _ h

namespace Scoping.Simulation

variable [Scoping σ] [Scoping τ] {R : Nat → σ → τ → Prop}

theorem varDecl (sim : Simulation R) (decl : VarDecl) :
    Tracks R (Layout.varDecl decl) (Layout.varDecl decl) := by
  intro k s t h
  rw [Layout.varDecl, Layout.varDecl, sim.find h]
  refine .after _ fun init => ?_
  exact .bind (sim.scalar _ _ _ h) fun slot s t h => .ok _ h

theorem assignment (sim : Simulation R) (a : Assignment) :
    Tracks R (Layout.assign a) (Layout.assign a) := by
  intro k s t h
  rw [Layout.assign, Layout.assign, sim.find h]
  refine .after _ fun value => ?_
  refine .bind (sim.assign _ _ h) fun found s t h => ?_
  obtain ⟨storage, depth⟩ := found
  cases storage with
  | scalar slot => exact .ok _ h
  | array base length => exact .error _
  | function label arity => exact .error _

theorem arrayDecl (sim : Simulation R) (name : String) (ty : Ty) (size : Expr) (es : List Expr) :
    Tracks R (Layout.arrayDecl name ty size es) (Layout.arrayDecl name ty size es) := by
  intro k s t h
  rw [Layout.arrayDecl, Layout.arrayDecl, sim.find h]
  refine .after _ fun length => .after _ fun values => ?_
  exact .bind (sim.array _ _ _ h) fun base s t h => .ok _ h

theorem arrayAssign (sim : Simulation R) (name : String) (index value : Expr) :
    Tracks R (Layout.arrayAssign name index value) (Layout.arrayAssign name index value) := by
  intro k s t h
  rw [Layout.arrayAssign, Layout.arrayAssign, sim.find h]
  exact .after _ fun value => .after _ fun array => .after _ fun slot => .ok _ h

theorem output (sim : Simulation R) (e : Expr) (op arrayOp : Opcode) :
    Tracks R (Layout.output e op arrayOp) (Layout.output e op arrayOp) := by
  intro k s t h
  rw [Layout.output, Layout.output, sim.find h]
  cases Layout.arrayIdent (Scoping.find t) e with
  | some array => exact .ok _ h
  | none => exact .after _ fun value => .ok _ h

theorem operation (sim : Simulation R) (es : List Expr) (op : Opcode) :
    Tracks R (Layout.operation es op) (Layout.operation es op) := by
  intro k s t h
  rw [Layout.operation, Layout.operation, sim.find h]
  exact .after _ fun values => .ok _ h

section

variable {f f' : Layout σ} {g g' : Layout τ}

theorem nested (sim : Simulation R) (hbody : Tracks R f g) :
    Tracks R (Layout.nested f) (Layout.nested g) := by
  intro k s t h
  refine .bind (hbody _ _ _ (sim.enter h)) fun body s t h => ?_
  exact .bind (sim.leave h) fun size s t h => .ok _ h

theorem conditional (sim : Simulation R) (test : Expr) (hbody : Tracks R f g) :
    Tracks R (Layout.conditional test f) (Layout.conditional test g) := by
  intro k s t h
  have hin := sim.enter h
  rw [Layout.conditional, Layout.conditional, sim.find hin]
  refine .after _ fun test => .bind (hbody _ _ _ hin) fun body s t h => ?_
  exact .bind (sim.leave h) fun size s t h => .ok _ h

theorem alternative (sim : Simulation R) (test : Expr) (hbody : Tracks R f g)
    (helse : Tracks R f' g') :
    Tracks R (Layout.alternative test f f') (Layout.alternative test g g') := by
  intro k s t h
  have hin := sim.enter h
  rw [Layout.alternative, Layout.alternative, sim.find hin]
  refine .after _ fun test => .bind (hbody _ _ _ hin) fun body s t h => ?_
  dsimp only
  rw [sim.size h]
  refine .bind (helse _ _ _ (sim.fresh h)) fun otherwise s t h => ?_
  exact .bind (sim.leave h) fun size s t h => .ok _ h

theorem loop (sim : Simulation R) (init : Option VarDecl) (test : Expr) (step : Option Assignment)
    (hbody : Tracks R f g) :
    Tracks R (Layout.loop init test step f) (Layout.loop init test step g) := by
  intro k s t h
  refine .bind (Tracks.optional sim.varDecl init _ _ _ (sim.enter h)) fun init s t h => ?_
  dsimp only
  rw [sim.find h]
  refine .after _ fun test => .bind (hbody _ _ _ h) fun body s t h => ?_
  refine .bind (Tracks.optional sim.assignment step _ _ _ h) fun step s t h => ?_
  exact .bind (sim.leave h) fun size s t h => .ok _ h

end

mutual
/-- The layout of a statement agrees on related scopes. -/
theorem stmt (sim : Simulation R) : (s : Stmt) → Tracks R (Layout.stmt s) (Layout.stmt s)
  | .varDecl decl => by simpa only [Layout.stmt] using sim.varDecl decl
  | .arrayDecl name ty size es => by
      simpa only [Layout.stmt] using sim.arrayDecl name ty size es
  | .assign assignment => by simpa only [Layout.stmt] using sim.assignment assignment
  | .arrayAssign name index value => by
      simpa only [Layout.stmt] using sim.arrayAssign name index value
  | .print value => by simpa only [Layout.stmt] using sim.output value _ _
  | .delay duration => by simpa only [Layout.stmt] using sim.operation _ _
  | .write x y color => by simpa only [Layout.stmt] using sim.operation _ _
  | .writeBox x y width height color => by simpa only [Layout.stmt] using sim.operation _ _
  | .conditional test body none => by
      simpa only [Layout.stmt] using sim.conditional test (stmts sim body)
  | .conditional test body (some otherwise) => by
      simpa only [Layout.stmt] using sim.alternative test (stmts sim body) (stmts sim otherwise)
  | .whileLoop test body => by
      simpa only [Layout.stmt] using sim.loop none test none (stmts sim body)
  | .forLoop init test step body => by
      simpa only [Layout.stmt] using sim.loop init test step (stmts sim body)
  | .ret value => by simpa only [Layout.stmt] using sim.output value _ _
  | .block body => by simpa only [Layout.stmt] using sim.nested (stmts sim body)
  | .function name params result body => fun k s t h => by
      simpa only [Layout.stmt] using .error _

/-- The layout of statements agrees on related scopes. -/
theorem stmts (sim : Simulation R) : (ss : List Stmt) → Tracks R (Layout.stmts ss) (Layout.stmts ss)
  | [] => fun k s t h => by simpa only [Layout.stmts] using .ok _ h
  | s :: ss => by simpa only [Layout.stmts] using .seq (stmt sim s) (stmts sim ss)
end

end Scoping.Simulation

end PadCompiler
