import PadCompiler.Proofs.Names
import PadCompiler.Proofs.Simulation
import PadCompiler.Proofs.Steps

/-!
# PadCompiler.Proofs.Parallel

Two runs of the generator side by side.  The states may differ in the scopes, as far as a
relation `R` allows, and in the image that was there before; everything else is the same
(`Twin`).  The second run may work on other names than the first, which `r` tells.

`Respects r R` says that every operation on scopes respects the relation and the names.  Then each
step ends in the same way on both sides, with the same value or with the same error about the other
name, adds the same code, blocks and warnings, and leaves states that differ by no more
(`Alongside`):

* `Respects.lowerExpr`, `Respects.emitExpr` — expressions;
* `Respects.compileIf`, `Respects.compileIfElse`, `Respects.compileLoop` — constructs, over any
  bodies that run alongside each other;
* `Respects.compileStmts` — statements and the same statements with other names.

Where all names stay, the relation is a `Congruence`, and one step runs in `Parallel` with itself.

The layouts of `PadCompiler.Proofs.Simulation` would not do here, because a jump that cannot be
computed is no part of a layout.
-/

namespace PadCompiler

/-! ## Images -/

namespace Image

/-- Puts blocks and warnings after those that are there. -/
def add (i more : Image) : Image where
  blocks := i.blocks ++ more.blocks
  diagnostics := i.diagnostics ++ more.diagnostics

/-- The image without blocks and warnings. -/
def none : Image :=
  ⟨[], []⟩

@[simp] theorem add_none (i : Image) : i.add none = i := by
  simp [add, none]

@[simp] theorem none_add (i : Image) : none.add i = i := by
  simp [add, none]

theorem add_assoc (i j k : Image) : (i.add j).add k = i.add (j.add k) := by
  simp [add]

end Image

/-! ## Outcomes side by side -/

variable {r : String → String}

/-- Both give the same value and related scopes, or both fail, the second with the error of the
first about the other name. -/
inductive AgreeAs (r : String → String) (R : ScopeStack → ScopeStack → Prop) :
    Except CompileError (α × ScopeStack) → Except CompileError (α × ScopeStack) → Prop
  | ok (a : α) {s t : ScopeStack} (hst : R s t) : AgreeAs r R (.ok (a, s)) (.ok (a, t))
  | error (e : CompileError) : AgreeAs r R (.error e) (.error (e.rename r))

theorem mapError_rename_id (x : Except CompileError α) :
    x.mapError (CompileError.rename id) = x := by
  cases x <;> simp [CompileError.rename_id]

/-- Outcomes that agree do so where all names stay. -/
theorem Agree.agreeAs {R : ScopeStack → ScopeStack → Prop}
    {x y : Except CompileError (α × ScopeStack)} (h : Agree R x y) : AgreeAs id R x y := by
  cases h with
  | ok a hst => exact .ok a hst
  | error e => simpa only [CompileError.rename_id] using AgreeAs.error (r := id) e

/-! ## What is looked up under other names -/

/-- Names stand for the same under one look-up as the other names under the other. -/
def Lookup.Renamed (r : String → String) (find find' : Lookup) : Prop :=
  ∀ name, find' (r name) = (find name).mapError (CompileError.rename r)

namespace Layout

variable {find find' : Lookup}

theorem scalar_rename (h : find.Renamed r find') (name : String) :
    scalar find' (r name) = (scalar find name).mapError (CompileError.rename r) := by
  rw [scalar, scalar, h name]
  cases find name with
  | error e => rfl
  | ok found =>
      obtain ⟨storage, depth⟩ := found
      cases storage <;> rfl

theorem array_rename (h : find.Renamed r find') (name : String) :
    array find' (r name) = (array find name).mapError (CompileError.rename r) := by
  rw [array, array, h name]
  cases find name with
  | error e => rfl
  | ok found =>
      obtain ⟨storage, depth⟩ := found
      cases storage <;> rfl

theorem function_rename (h : find.Renamed r find') (name : String) :
    function find' (r name) = (function find name).mapError (CompileError.rename r) := by
  rw [function, function, h name]
  cases find name with
  | error e => rfl
  | ok found =>
      obtain ⟨storage, depth⟩ := found
      cases storage <;> rfl

theorem arrayIdent_rename (h : find.Renamed r find') (e : Expr) :
    arrayIdent find' (e.rename r) = arrayIdent find e := by
  cases e with
  | ident name =>
      rw [Expr.rename, arrayIdent, arrayIdent, array_rename h name]
      cases array find name <;> rfl
  | _ => simp [Expr.rename, arrayIdent]

end Layout

theorem checkBounds_rename (name : String) (index : Int64) (length : Nat) :
    checkBounds (r name) index length =
      (checkBounds name index length).mapError (CompileError.rename r) := by
  unfold checkBounds
  split <;> rfl

theorem Generator.arrayLength_rename (name : String) (size : Expr) :
    arrayLength (r name) (size.rename r) =
      (arrayLength name size).mapError (CompileError.rename r) := by
  rw [arrayLength, arrayLength, Expr.literalInt?_rename]
  cases size.literalInt? with
  | none => rfl
  | some n =>
      dsimp only
      split <;> rfl

namespace Generator

/-! ## States side by side -/

/-- Two states that differ in their scopes, as `R` allows, and in the images they go on from. -/
structure Twin (R : ScopeStack → ScopeStack → Prop) (i j : Image) (g h : Generator) : Prop where
  config : g.config = h.config
  block : g.block = h.block
  scopes : R g.scopes h.scopes
  image : ∃ more, g.image = i.add more ∧ h.image = j.add more

/-- Both runs succeed with the same value, or both fail, the second with the error of the first
about the other name; either way the states go together. -/
inductive Coupled (r : String → String) (T : Generator → Generator → Prop) :
    EStateM.Result CompileError Generator α → EStateM.Result CompileError Generator α → Prop
  | ok (a : α) {g h : Generator} (hT : T g h) : Coupled r T (.ok a g) (.ok a h)
  | error (e : CompileError) {g h : Generator} (hT : T g h) :
    Coupled r T (.error e g) (.error (e.rename r) h)

theorem Coupled.errorAs {T : Generator → Generator → Prop} {e e' : CompileError} {g h : Generator}
    (he : e.rename r = e') (hT : T g h) :
    Coupled (α := α) r T (.error e g) (.error e' h) :=
  he ▸ .error e hT

/-- What comes of a step that changes the scopes and no more. -/
def rescoped (g : Generator) :
    Except CompileError (α × ScopeStack) → EStateM.Result CompileError Generator α
  | .ok (a, s) => .ok a (g.after [] s [])
  | .error e => .error e g

/-- From states that differ as `R` allows, the second step ends as the first does, but for the
names. -/
def Alongside (r : String → String) (R : ScopeStack → ScopeStack → Prop) (x y : GenM α) : Prop :=
  ∀ i j g h, Twin R i j g h → Coupled r (Twin R i j) (x.run g) (y.run h)

section

variable {R : ScopeStack → ScopeStack → Prop} {i j : Image} {g h : Generator}

/-- Adding the same code and warnings keeps states together. -/
theorem Twin.after (hT : Twin R i j g h) (code : List Instruction) {s t : ScopeStack}
    (hst : R s t) (w : List Diagnostic) : Twin R i j (g.after code s w) (h.after code t w) where
  config := hT.config
  block := congrArg (Block.extend · code) hT.block
  scopes := hst
  image := by
    obtain ⟨more, hg, hh⟩ := hT.image
    exact ⟨⟨more.blocks, more.diagnostics ++ w⟩, by simp [Generator.after, hg, Image.add],
      by simp [Generator.after, hh, Image.add]⟩

/-- Changing the block in the same way keeps states together. -/
theorem Twin.withBlock (hT : Twin R i j g h) (block : Block) :
    Twin R i j { g with block := block } { h with block := block } :=
  ⟨hT.config, rfl, hT.scopes, hT.image⟩

namespace Alongside

theorem pure (a : α) : Alongside r R (Pure.pure a) (Pure.pure a) :=
  fun _ _ _ _ hT => .ok a hT

theorem throw (e : CompileError) : Alongside r R (throw e : GenM α) (throw (e.rename r)) :=
  fun _ _ _ _ hT => .error e hT

theorem bind {x y : GenM α} {f f' : α → GenM β} (hxy : Alongside r R x y)
    (hf : ∀ a, Alongside r R (f a) (f' a)) : Alongside r R (x >>= f) (y >>= f') := by
  intro i j g h hT
  have hfirst := hxy i j g h hT
  rw [EStateM.run_bind, EStateM.run_bind]
  generalize x.run g = result, y.run h = result' at hfirst
  cases hfirst with
  | ok a hT => exact hf a i j _ _ hT
  | error e hT => exact .error e hT

theorem discard {x y : GenM α} (hxy : Alongside r R x y) :
    Alongside r R (discard x) (discard y) := by
  intro i j g h hT
  have hfirst := hxy i j g h hT
  rw [discard_run, discard_run]
  generalize x.run g = result, y.run h = result' at hfirst
  cases hfirst with
  | ok a hT => exact .ok () hT
  | error e hT => exact .error e hT

theorem ofExcept (x : Except CompileError α) :
    Alongside r R (ofExcept x) (ofExcept (x.mapError (CompileError.rename r))) := by
  cases x with
  | ok a => exact .pure a
  | error e => exact .throw e

/-- A part that may be absent. -/
theorem optional {x y : α → GenM Unit} {f : α → α} (hxy : ∀ a, Alongside r R (x a) (y (f a)))
    (o : Option α) : Alongside r R (o.forM x) ((o.map f).forM y) := by
  cases o with
  | some a => exact hxy a
  | none => exact .pure ()

theorem forM {x y : α → GenM Unit} {f : α → α} (l : List α)
    (hxy : ∀ a ∈ l, Alongside r R (x a) (y (f a))) :
    Alongside r R (l.forM x) ((l.map f).forM y) := by
  induction l with
  | nil => exact .pure ()
  | cons a l ih =>
      exact .bind (hxy a List.mem_cons_self) fun _ =>
        ih fun b hb => hxy b (List.mem_cons_of_mem a hb)

/-- Steps that change the scopes and no more. -/
theorem changing {x y : GenM α} (f f' : ScopeStack → Except CompileError (α × ScopeStack))
    (hx : ∀ g, x.run g = g.rescoped (f g.scopes)) (hy : ∀ g, y.run g = g.rescoped (f' g.scopes))
    (hf : ∀ s t, R s t → AgreeAs r R (f s) (f' t)) : Alongside r R x y := by
  intro i j g h hT
  have hagree := hf _ _ hT.scopes
  rw [hx g, hy h]
  generalize f g.scopes = result, f' h.scopes = result' at hagree
  cases hagree with
  | ok a hst => exact .ok a (hT.after [] hst [])
  | error e => exact .error e hT

/-- A step that changes the block and no more.  Its errors carry no name of the program. -/
theorem onBlock {x : GenM α} (f : Block → Except CompileError (α × Block))
    (hx : ∀ g, x.run g = match f g.block with
      | .ok (a, block) => .ok a { g with block := block }
      | .error e => .error e g)
    (hf : ∀ block, (f block).mapError (CompileError.rename r) = f block) :
    Alongside r R x x := by
  intro i j g h hT
  have hnames := hf g.block
  rw [hx g, hx h, ← hT.block]
  cases hblock : f g.block with
  | ok p => exact .ok p.1 (hT.withBlock p.2)
  | error e =>
      rw [hblock] at hnames
      injection hnames with hnames
      exact .errorAs hnames hT

/-! ## Elementary steps -/

theorem emit (code : List Instruction) : Alongside r R (emit code) (emit code) :=
  .onBlock (fun block => .ok ((), block.extend code)) (fun g => by simp [Generator.emit])
    fun _ => rfl

theorem here : Alongside r R here here :=
  .onBlock (fun block => .ok (block.here, block)) (fun _ => rfl) fun _ => rfl

theorem reserve : Alongside r R reserve reserve :=
  .onBlock (fun block => .ok block.reserve) (fun _ => rfl) fun _ => rfl

theorem beginBlock (label : String) : Alongside r R (beginBlock label) (beginBlock label) :=
  .onBlock (fun _ => .ok ((), .empty label)) (fun _ => rfl) fun _ => rfl

end Alongside

end

end Generator

/-- Filling in a reservation fails with errors that carry no name of the program. -/
theorem Block.fill_rename (b : Block) (reservation : Reservation) (operand : Operand) :
    (b.fill reservation operand).mapError (CompileError.rename r) = b.fill reservation operand := by
  unfold fill
  split
  · split <;> rfl
  · rfl

theorem Block.patchJump_rename (b : Block) (reservation : Reservation) (target : Nat) :
    (b.patchJump reservation target).mapError (CompileError.rename r) =
      b.patchJump reservation target := by
  unfold patchJump
  cases jumpOffset reservation.index target with
  | error f => rfl
  | ok offset =>
      have hfill := b.fill_rename (r := r) reservation (.pc offset)
      rw [mapError_ok, ok_bind]
      cases hresult : b.fill reservation (.pc offset) with
      | ok block => rfl
      | error e =>
          rw [hresult] at hfill
          rw [error_bind]
          injection hfill with hnames
          rw [mapError_error, hnames]

namespace Generator

section

variable {R : ScopeStack → ScopeStack → Prop}

namespace Alongside

theorem patchJump (reservation : Reservation) (target : Nat) :
    Alongside r R (patchJump reservation target) (patchJump reservation target) := by
  refine .onBlock (fun block => (block.patchJump reservation target).map fun p => ((), p.2))
    (fun g => ?_) fun block => ?_
  · cases hpatch : g.block.patchJump reservation target <;>
      simp [Generator.patchJump, hpatch, Except.map]
  · have hnames := block.patchJump_rename (r := r) reservation target
    cases hpatch : block.patchJump reservation target with
    | ok p => rfl
    | error e => simpa [hpatch, Except.map] using hnames

theorem patchCount (reservation : Reservation) (count : Nat) :
    Alongside r R (patchCount reservation count) (patchCount reservation count) := by
  refine .onBlock (fun block => (block.patchCount reservation count).map ((), ·)) (fun g => ?_)
    fun block => ?_
  · cases hpatch : g.block.patchCount reservation count <;>
      simp [Generator.patchCount, hpatch, Except.map]
  · have hnames := block.fill_rename (r := r) reservation (.value (.int (Int64.ofNat count)))
    rw [Block.patchCount]
    cases hpatch : block.fill reservation (.value (.int (Int64.ofNat count))) with
    | ok p => rfl
    | error e => simpa [hpatch, Except.map] using hnames

theorem warn (message : String) : Alongside r R (warn message) (warn message) := by
  intro i j g h hT
  rw [warn_run, warn_run]
  exact .ok () (hT.after [] hT.scopes [⟨message⟩])

theorem finishBlock : Alongside r R finishBlock finishBlock := by
  intro i j g h hT
  obtain ⟨more, hg, hh⟩ := hT.image
  refine .ok () ⟨hT.config, rfl, hT.scopes, ⟨more.blocks ++ [g.block], more.diagnostics⟩, ?_, ?_⟩
  · simp [hg, Image.add]
  · simp [hh, hT.block, Image.add]

end Alongside

end

end Generator

/-! ## Relations that every step respects -/

/-- A relation between scopes that every operation of the generator respects, where the second
scopes have other names. -/
structure Respects (r : String → String) (R : ScopeStack → ScopeStack → Prop) : Prop where
  find {s t : ScopeStack} : R s t → Lookup.Renamed r (Scoping.find s) (Scoping.find t)
  scalar {s t : ScopeStack} (name : String) (ty : Ty) (hint : Lowered) : R s t →
    AgreeAs r R (Scoping.scalar s name ty hint) (Scoping.scalar t (r name) ty hint)
  array {s t : ScopeStack} (name : String) (ty : Ty) (length : Nat) : R s t →
    AgreeAs r R (Scoping.array s name ty length) (Scoping.array t (r name) ty length)
  assign {s t : ScopeStack} (name : String) (hint : Lowered) : R s t →
    AgreeAs r R (Scoping.assign s name hint) (Scoping.assign t (r name) hint)
  enter {s t : ScopeStack} : R s t → R (Scoping.enter s) (Scoping.enter t)
  leave {s t : ScopeStack} : R s t → AgreeAs r R (Scoping.leave s) (Scoping.leave t)
  rewind {s t : ScopeStack} : R s t → R s.rewind t.rewind

/-- A call, where a function is a label and a number of parameters. -/
def Generator.lowerCall (name : String) (args : List Expr) (find : Lookup) : GenM Lowering := do
  let (label, arity) ← ofExcept (Layout.function find name)
  if arity ≠ args.length then
    throw (.arity name arity args.length)
  let code ← lowerArgs args
  pure ⟨.dynamic, code ++ [.pushNat args.length, .label label, .plain .call]⟩

theorem Generator.lowerCall_run (name : String) (args : List Expr) (g : Generator) :
    (lowerExpr (.call name args)).run g = (lowerCall name args (Scoping.find g.scopes)).run g := by
  rw [lowerExpr, lowerCall, ← function_eq]
  cases hfunction : g.scopes.function name <;>
    simp [resolveFunction, hfunction, Except.map]

/-- The part of an assignment after its value. -/
def Generator.store (name : String) (hint : Lowered) : GenM Unit := do
  let g ← get
  let (b, scopes) ← ofExcept (g.scopes.setHint name hint)
  set { g with scopes := scopes }
  match b.entity with
  | .scalar _ slot _ => emit [.pushNat slot, .pushNat b.depth, .plain .st]
  | other => throw (.notA name .variable other.kind)

theorem Generator.compileAssign_eq (a : Assignment) :
    compileAssign a = (do
      let hint ← emitExpr a.value
      store a.name hint) := rfl

/-- It needs no more of the name than `Scoping.assign` tells. -/
theorem Generator.store_run (name : String) (hint : Lowered) (g : Generator) :
    (store name hint).run g = match Scoping.assign g.scopes name hint with
      | .ok ((.scalar slot, depth), s) =>
          .ok () (g.after [.pushNat slot, .pushNat depth, .plain .st] s [])
      | .ok ((storage, _), s) => .error (.notA name .variable storage.kind) (g.after [] s [])
      | .error e => .error e g := by
  have hassign : Scoping.assign g.scopes name hint = (g.scopes.setHint name hint).map fun found =>
      ((found.1.entity.storage, found.1.depth), found.2) := rfl
  rw [hassign]
  cases hset : g.scopes.setHint name hint with
  | error e => simp [store, hset, Except.map]
  | ok p =>
      obtain ⟨⟨entity, depth⟩, s⟩ := p
      cases entity <;>
        simp [store, hset, Except.map, Entity.storage, Storage.kind, Entity.kind, after,
          Block.extend]

namespace Respects

open Generator

variable {R : ScopeStack → ScopeStack → Prop}

/-- Steps that need no more of the scopes than what names stand for. -/
theorem reading (hR : Respects r R) {x y : GenM α} (k k' : Lookup → GenM α)
    (hx : ∀ g, x.run g = (k (Scoping.find g.scopes)).run g)
    (hy : ∀ g, y.run g = (k' (Scoping.find g.scopes)).run g)
    (hk : ∀ find find', Lookup.Renamed r find find' → Alongside r R (k find) (k' find')) :
    Alongside r R x y := by
  intro i j g h hT
  rw [hx g, hy h]
  exact hk _ _ (hR.find hT.scopes) i j g h hT

theorem openScope (hR : Respects r R) : Alongside r R openScope openScope := by
  have hrun (g : Generator) :
      Generator.openScope.run g = g.rescoped (.ok ((), Scoping.enter g.scopes)) := openScope_run g
  exact .changing (fun s => .ok ((), Scoping.enter s)) (fun s => .ok ((), Scoping.enter s)) hrun
    hrun fun _ _ hst => .ok () (hR.enter hst)

theorem closeScope (hR : Respects r R) : Alongside r R closeScope closeScope := by
  have hrun (g : Generator) : Generator.closeScope.run g = g.rescoped (Scoping.leave g.scopes) := by
    rw [closeScope_run]
    cases Scoping.leave g.scopes <;> rfl
  exact .changing Scoping.leave Scoping.leave hrun hrun fun _ _ hst => hR.leave hst

theorem rewindScope (hR : Respects r R) : Alongside r R rewindScope rewindScope := by
  have hrun (g : Generator) :
      Generator.rewindScope.run g = g.rescoped (.ok ((), g.scopes.rewind)) := rewindScope_run g
  exact .changing (fun s => .ok ((), s.rewind)) (fun s => .ok ((), s.rewind)) hrun hrun
    fun _ _ hst => .ok () (hR.rewind hst)

theorem declareScalar (hR : Respects r R) (name : String) (ty : Ty) (hint : Lowered) :
    Alongside r R (declareScalar name ty hint) (declareScalar (r name) ty hint) := by
  have hrun (name : String) (g : Generator) : (Generator.declareScalar name ty hint).run g =
      g.rescoped (Scoping.scalar g.scopes name ty hint) := by
    rw [declareScalar_run]
    cases Scoping.scalar g.scopes name ty hint <;> rfl
  exact .changing (Scoping.scalar · name ty hint) (Scoping.scalar · (r name) ty hint) (hrun name)
    (hrun (r name)) fun _ _ hst => hR.scalar name ty hint hst

theorem declareArray (hR : Respects r R) (name : String) (ty : Ty) (length : Nat) :
    Alongside r R (declareArray name ty length) (declareArray (r name) ty length) := by
  have hrun (name : String) (g : Generator) : (Generator.declareArray name ty length).run g =
      g.rescoped (Scoping.array g.scopes name ty length) := by
    rw [declareArray_run]
    cases Scoping.array g.scopes name ty length <;> rfl
  exact .changing (Scoping.array · name ty length) (Scoping.array · (r name) ty length) (hrun name)
    (hrun (r name)) fun _ _ hst => hR.array name ty length hst

/-! ## Expressions -/

theorem resolveScalar (hR : Respects r R) (name : String) :
    Alongside r R (resolveScalar name) (resolveScalar (r name)) := by
  refine hR.reading (fun find => Generator.ofExcept (Layout.scalar find name))
    (fun find => Generator.ofExcept (Layout.scalar find (r name)))
    (fun g => by rw [← scalar_eq]; rfl) (fun g => by rw [← scalar_eq]; rfl)
    fun find find' hfind => ?_
  rw [Layout.scalar_rename hfind]
  exact .ofExcept _

theorem resolveArray (hR : Respects r R) (name : String) :
    Alongside r R (resolveArray name) (resolveArray (r name)) := by
  refine hR.reading (fun find => Generator.ofExcept (Layout.array find name))
    (fun find => Generator.ofExcept (Layout.array find (r name)))
    (fun g => by rw [← array_eq]; rfl) (fun g => by rw [← array_eq]; rfl) fun find find' hfind => ?_
  rw [Layout.array_rename hfind]
  exact .ofExcept _

theorem inBounds (name : String) (index : Int64) (length : Nat) :
    Alongside r R (Generator.ofExcept (checkBounds name index length))
      (Generator.ofExcept (checkBounds (r name) index length)) := by
  rw [checkBounds_rename]
  exact .ofExcept _

mutual
/-- Expressions are lowered in the same way. -/
theorem lowerExpr (hR : Respects r R) : (e : Expr) →
    Alongside r R (lowerExpr e) (lowerExpr (e.rename r))
  | .literal value => by
      rw [Expr.rename, Generator.lowerExpr]
      exact .pure _
  | .padWidth => by
      rw [Expr.rename, Generator.lowerExpr]
      exact .pure _
  | .padHeight => by
      rw [Expr.rename, Generator.lowerExpr]
      exact .pure _
  | .ident name => by
      rw [Expr.rename, Generator.lowerExpr, Generator.lowerExpr]
      exact .bind (hR.resolveScalar name) fun _ => .pure _
  | .randomInt bound => by
      rw [Expr.rename, Generator.lowerExpr, Generator.lowerExpr]
      exact .bind (lowerExpr hR bound) fun _ => .pure _
  | .binary op lhs rhs => by
      rw [Expr.rename, Generator.lowerExpr, Generator.lowerExpr]
      refine .bind (lowerExpr hR rhs) fun _ => .bind (lowerExpr hR lhs) fun _ => ?_
      cases op.opcode? with
      | some opcode => exact .pure _
      | none => exact .bind (.warn _) fun _ => .pure _
  | .call name args => by
      rw [Expr.rename]
      refine hR.reading (lowerCall name args) (lowerCall (r name) (Expr.renameAll r args))
        (lowerCall_run name args) (lowerCall_run _ _) fun find find' hfind => ?_
      rw [lowerCall, lowerCall, Layout.function_rename hfind, Expr.length_renameAll]
      refine .bind (.ofExcept _) fun found => ?_
      by_cases harity : found.2 = args.length
      · simp only [harity, ne_eq, not_true_eq_false, if_false]
        exact .bind (lowerArgs hR args) fun _ => .pure _
      · simp only [harity, ne_eq, not_false_eq_true, if_true]
        exact .bind (.throw _) fun _ => .bind (lowerArgs hR args) fun _ => .pure _
  | .index name index => by
      rw [Expr.rename, Generator.lowerExpr, Generator.lowerExpr, Expr.literalInt?_rename]
      refine .bind (hR.resolveArray name) fun array => ?_
      cases index.literalInt? with
      | some i => exact .bind (inBounds name i array.length) fun _ => .pure _
      | none => exact .bind (lowerExpr hR index) fun _ => .pure _

theorem lowerArgs (hR : Respects r R) : (es : List Expr) →
    Alongside r R (lowerArgs es) (lowerArgs (Expr.renameAll r es))
  | [] => by
      rw [Expr.renameAll, Generator.lowerArgs]
      exact .pure _
  | e :: es => by
      rw [Expr.renameAll, Generator.lowerArgs, Generator.lowerArgs]
      exact .bind (lowerArgs hR es) fun _ => .bind (lowerExpr hR e) fun _ => .pure _
end

theorem emitExpr (hR : Respects r R) (e : Expr) :
    Alongside r R (emitExpr e) (emitExpr (e.rename r)) :=
  .bind (.bind (hR.lowerExpr e) fun _ => .pure _) fun _ => .bind (.emit _) fun _ => .pure _

theorem emitReversed (hR : Respects r R) (es : List Expr) :
    Alongside r R (emitReversed es) (emitReversed (Expr.renameAll r es)) := by
  induction es with
  | nil =>
      rw [Expr.renameAll]
      exact .pure ()
  | cons e es ih =>
      rw [Expr.renameAll]
      exact .bind ih fun _ => .discard (hR.emitExpr e)

theorem emitAll (hR : Respects r R) (es : List Expr) :
    Alongside r R (emitAll es) (emitAll (es.map (Expr.rename r))) := by
  induction es with
  | nil => exact .pure ()
  | cons e es ih => exact .bind (.discard (hR.emitExpr e)) fun _ => ih

/-! ## Statements without a body -/

theorem compileVarDecl (hR : Respects r R) (decl : VarDecl) :
    Alongside r R (compileVarDecl decl) (compileVarDecl (decl.rename r)) :=
  .bind (hR.emitExpr _) fun _ => .bind (hR.declareScalar _ _ _) fun _ => .emit _

theorem compileAssign (hR : Respects r R) (a : Assignment) :
    Alongside r R (compileAssign a) (compileAssign (a.rename r)) := by
  rw [compileAssign_eq, compileAssign_eq]
  refine .bind (hR.emitExpr a.value) fun hint => ?_
  intro i j g h hT
  have hagree := hR.assign a.name hint hT.scopes
  rw [store_run, store_run, Assignment.rename]
  generalize Scoping.assign g.scopes a.name hint = result,
    Scoping.assign h.scopes (r a.name) hint = result' at hagree
  cases hagree with
  | error e => exact .error e hT
  | ok found hst =>
      obtain ⟨storage, depth⟩ := found
      cases storage with
      | scalar slot => exact .ok () (hT.after _ hst [])
      | array base length => exact .error (.notA a.name _ _) (hT.after [] hst [])
      | function label arity => exact .error (.notA a.name _ _) (hT.after [] hst [])

theorem compileArrayDecl (hR : Respects r R) (name : String) (ty : Ty) (size : Expr)
    (es : List Expr) :
    Alongside r R (compileArrayDecl name ty size es)
      (compileArrayDecl (r name) ty (size.rename r) (Expr.renameAll r es)) := by
  have hdeclare (length : Nat) : Alongside r R (do
        let base ← Generator.declareArray name ty length
        emit [.pushNat length, .pushNat base, .pushNat 0, .plain .sta]) (do
        let base ← Generator.declareArray (r name) ty length
        emit [.pushNat length, .pushNat base, .pushNat 0, .plain .sta]) :=
    .bind (hR.declareArray name ty length) fun _ => .emit _
  rw [Generator.compileArrayDecl, Generator.compileArrayDecl, arrayLength_rename,
    Expr.isEmpty_renameAll, Expr.length_renameAll]
  refine .bind (.ofExcept _) fun length => ?_
  by_cases hempty : es.isEmpty = true
  · simp only [hempty, if_true]
    exact .bind (.emit _) fun _ => hdeclare length
  · by_cases hcount : es.length = length
    · simp only [hempty, hcount, ne_eq, not_true_eq_false, if_false]
      exact .bind (hR.emitReversed es) fun _ => hdeclare length
    · simp only [hempty, hcount, ne_eq, not_false_eq_true, if_true]
      exact .bind (.throw _) fun _ => .bind (hR.emitReversed es) fun _ => hdeclare length

theorem compileArrayAssign (hR : Respects r R) (name : String) (index value : Expr) :
    Alongside r R (compileArrayAssign name index value)
      (compileArrayAssign (r name) (index.rename r) (value.rename r)) := by
  rw [Generator.compileArrayAssign, Generator.compileArrayAssign, Expr.literalInt?_rename]
  refine .bind (.discard (hR.emitExpr value)) fun _ => .bind (hR.resolveArray name) fun array =>
    .bind (.emit _) fun _ => ?_
  cases index.literalInt? with
  | some i => exact .bind (inBounds name i _) fun _ => .bind (.emit _) fun _ => .emit _
  | none =>
      exact .bind (.discard (hR.emitExpr index)) fun _ => .bind (.emit _) fun _ => .emit _

theorem arrayIdent (hR : Respects r R) (e : Expr) :
    Alongside r R (arrayIdent e) (arrayIdent (e.rename r)) := by
  refine hR.reading (fun find => pure (Layout.arrayIdent find e))
    (fun find => pure (Layout.arrayIdent find (e.rename r))) (arrayIdent_run e) (arrayIdent_run _)
    fun find find' hfind => ?_
  rw [Layout.arrayIdent_rename hfind]
  exact .pure _

theorem compileOutput (hR : Respects r R) (e : Expr) (op arrayOp : Opcode) :
    Alongside r R (compileOutput e op arrayOp) (compileOutput (e.rename r) op arrayOp) := by
  refine .bind (hR.arrayIdent e) fun found => ?_
  cases found with
  | some array => exact .emit _
  | none => exact .bind (.discard (hR.emitExpr e)) fun _ => .emit _

/-! ## Constructs -/

section

variable {body body' otherwise otherwise' : GenM Unit}

theorem inFrame (hR : Respects r R) (hbody : Alongside r R body body') :
    Alongside r R (inFrame body) (inFrame body') := by
  refine .bind (.bind .reserve fun _ => .bind (.emit _) fun _ => .bind hR.openScope fun _ =>
    .pure _) fun frame => .bind hbody fun _ => ?_
  exact .bind hR.closeScope fun _ => .bind (.patchCount _ _) fun _ => .emit _

theorem compileTest (hR : Respects r R) (test : Expr) :
    Alongside r R (compileTest test) (compileTest (test.rename r)) :=
  .bind (.discard (hR.emitExpr test)) fun _ => .emit _

theorem compileIf (hR : Respects r R) (test : Expr) (hbody : Alongside r R body body') :
    Alongside r R (compileIf test body) (compileIf (test.rename r) body') := by
  refine .bind .reserve fun skipBody => hR.inFrame ?_
  refine .bind (hR.compileTest test) fun _ => .bind (.emit _) fun _ => .bind hbody fun _ => ?_
  exact .bind .here fun _ => .patchJump _ _

theorem compileIfElse (hR : Respects r R) (test : Expr) (hbody : Alongside r R body body')
    (hotherwise : Alongside r R otherwise otherwise') :
    Alongside r R (compileIfElse test body otherwise)
      (compileIfElse (test.rename r) body' otherwise') := by
  refine .bind .reserve fun skipBody => hR.inFrame ?_
  refine .bind (hR.compileTest test) fun _ => .bind (.emit _) fun _ => .bind hbody fun _ => ?_
  refine .bind .reserve fun skipElse => .bind (.emit _) fun _ => .bind .here fun _ => ?_
  refine .bind (.patchJump _ _) fun _ => .bind hR.rewindScope fun _ => ?_
  exact .bind hotherwise fun _ => .bind .here fun _ => .patchJump _ _

theorem compileLoop (hR : Respects r R) (init : Option VarDecl) (test : Expr)
    (step : Option Assignment) (hbody : Alongside r R body body') :
    Alongside r R (compileLoop init test step body)
      (compileLoop (init.map (VarDecl.rename r)) (test.rename r) (step.map (Assignment.rename r))
        body') := by
  refine hR.inFrame (.bind (.optional hR.compileVarDecl init) fun _ => .bind .here fun top => ?_)
  refine .bind (hR.compileTest test) fun _ => .bind .reserve fun exit => .bind (.emit _) fun _ => ?_
  refine .bind hbody fun _ => .bind (.optional hR.compileAssign step) fun _ => ?_
  refine .bind .reserve fun back => .bind (.emit _) fun _ => .bind (.patchJump _ _) fun _ => ?_
  exact .bind .here fun _ => .patchJump _ _

end

/-! ## Statements -/

mutual
theorem compileStmt (hR : Respects r R) : (s : Stmt) →
    Alongside r R (compileStmt s) (compileStmt (s.rename r))
  | .varDecl decl => by
      simpa only [Stmt.rename, Generator.compileStmt] using hR.compileVarDecl decl
  | .arrayDecl name ty size es => by
      simpa only [Stmt.rename, Generator.compileStmt] using hR.compileArrayDecl name ty size es
  | .assign assignment => by
      simpa only [Stmt.rename, Generator.compileStmt] using hR.compileAssign assignment
  | .arrayAssign name index value => by
      simpa only [Stmt.rename, Generator.compileStmt] using hR.compileArrayAssign name index value
  | .print value => by
      simpa only [Stmt.rename, Generator.compileStmt] using hR.compileOutput value _ _
  | .delay duration => by
      simpa only [Stmt.rename, Generator.compileStmt] using
        .bind (.discard (hR.emitExpr duration)) fun _ => .emit _
  | .write x y color => by
      simpa only [Stmt.rename, Generator.compileStmt] using
        .bind (hR.emitAll [x, y, color]) fun _ => .emit _
  | .writeBox x y width height color => by
      simpa only [Stmt.rename, Generator.compileStmt] using
        .bind (hR.emitAll [x, y, width, height, color]) fun _ => .emit _
  | .conditional test body none => by
      simpa only [Stmt.rename, Generator.compileStmt] using
        hR.compileIf test (compileStmts hR body)
  | .conditional test body (some otherwise) => by
      simpa only [Stmt.rename, Generator.compileStmt] using
        hR.compileIfElse test (compileStmts hR body) (compileStmts hR otherwise)
  | .whileLoop test body => by
      simpa only [Stmt.rename, Generator.compileStmt, Option.map_none] using
        hR.compileLoop none test none (compileStmts hR body)
  | .forLoop init test step body => by
      simpa only [Stmt.rename, Generator.compileStmt] using
        hR.compileLoop init test step (compileStmts hR body)
  | .ret value => by
      simpa only [Stmt.rename, Generator.compileStmt] using hR.compileOutput value _ _
  | .block body => by
      simpa only [Stmt.rename, Generator.compileStmt] using hR.inFrame (compileStmts hR body)
  | .function name params result body => by
      simpa only [Stmt.rename, Generator.compileStmt] using .throw (.nestedFunction name)

/-- Statements run alongside the same statements with other names. -/
theorem compileStmts (hR : Respects r R) : (ss : List Stmt) →
    Alongside r R (compileStmts ss) (compileStmts (Stmt.renameAll r ss))
  | [] => by simpa only [Stmt.renameAll, Generator.compileStmts] using .pure ()
  | s :: ss => by
      simpa only [Stmt.renameAll, Generator.compileStmts] using
        .bind (compileStmt hR s) fun _ => compileStmts hR ss
end

end Respects

/-! ## One program twice -/

namespace Generator

/-- Both runs succeed with the same value, or both fail with the same error; either way the states
go together. -/
inductive Together (T : Generator → Generator → Prop) :
    EStateM.Result CompileError Generator α → EStateM.Result CompileError Generator α → Prop
  | ok (a : α) {g h : Generator} (hT : T g h) : Together T (.ok a g) (.ok a h)
  | error (e : CompileError) {g h : Generator} (hT : T g h) : Together T (.error e g) (.error e h)

/-- From states that differ as `R` allows, a step ends in the same way on both sides. -/
def Parallel (R : ScopeStack → ScopeStack → Prop) (x : GenM α) : Prop :=
  ∀ i j g h, Twin R i j g h → Together (Twin R i j) (x.run g) (x.run h)

section

variable {R : ScopeStack → ScopeStack → Prop}

/-- Where all names stay, a step runs alongside itself. -/
theorem parallel_iff {x : GenM α} : Parallel R x ↔ Alongside id R x x := by
  constructor
  · intro hx i j g h hT
    have hsame := hx i j g h hT
    generalize x.run g = result, x.run h = result' at hsame
    cases hsame with
    | ok a hT => exact .ok a hT
    | error e hT => exact .errorAs e.rename_id hT
  · intro hx i j g h hT
    have hsame := hx i j g h hT
    generalize x.run g = result, x.run h = result' at hsame
    cases hsame with
    | ok a hT => exact .ok a hT
    | error e hT =>
        rw [CompileError.rename_id]
        exact .error e hT

namespace Parallel

theorem bind {x : GenM α} {f : α → GenM β} (hx : Parallel R x) (hf : ∀ a, Parallel R (f a)) :
    Parallel R (x >>= f) :=
  parallel_iff.mpr (.bind (parallel_iff.mp hx) fun a => parallel_iff.mp (hf a))

theorem discard {x : GenM α} (hx : Parallel R x) : Parallel R (discard x) :=
  parallel_iff.mpr (.discard (parallel_iff.mp hx))

theorem forM {x : α → GenM Unit} (hx : ∀ a, Parallel R (x a)) (l : List α) :
    Parallel R (l.forM x) := by
  have hall := Alongside.forM (y := x) (f := id) l fun a _ => parallel_iff.mp (hx a)
  rw [List.map_id] at hall
  exact parallel_iff.mpr hall

theorem emit (code : List Instruction) : Parallel R (emit code) :=
  parallel_iff.mpr (.emit code)

theorem patchCount (reservation : Reservation) (count : Nat) :
    Parallel R (patchCount reservation count) :=
  parallel_iff.mpr (.patchCount reservation count)

theorem finishBlock : Parallel R finishBlock :=
  parallel_iff.mpr .finishBlock

end Parallel

end

end Generator

/-- A relation between scopes that every operation of the generator respects. -/
structure Congruence (R : ScopeStack → ScopeStack → Prop) : Prop extends
    Scoping.Simulation fun _ => R where
  rewind {s t : ScopeStack} : R s t → R s.rewind t.rewind

namespace Congruence

open Generator

variable {R : ScopeStack → ScopeStack → Prop}

theorem respects (hR : Congruence R) : Respects id R where
  find hst name := by
    rw [mapError_rename_id, ← hR.find (k := 0) hst]
    rfl
  scalar name ty hint hst := (hR.scalar (k := 0) name ty hint hst).agreeAs
  array name ty length hst := (hR.array (k := 0) name ty length hst).agreeAs
  assign name hint hst := (hR.assign (k := 0) name hint hst).agreeAs
  enter hst := hR.enter (k := 0) hst
  leave hst := (hR.leave (k := 0) hst).agreeAs
  rewind hst := hR.rewind hst

theorem closeScope (hR : Congruence R) : Parallel R closeScope :=
  parallel_iff.mpr hR.respects.closeScope

theorem declareScalar (hR : Congruence R) (name : String) (ty : Ty) (hint : Lowered) :
    Parallel R (declareScalar name ty hint) :=
  parallel_iff.mpr (hR.respects.declareScalar name ty hint)

/-- Statements run in parallel. -/
theorem compileStmts (hR : Congruence R) (ss : List Stmt) : Parallel R (compileStmts ss) := by
  have hsame := hR.respects.compileStmts ss
  rw [Stmt.renameAll_id] at hsame
  exact parallel_iff.mpr hsame

end Congruence

end PadCompiler
