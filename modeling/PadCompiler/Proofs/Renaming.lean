import Mathlib.Logic.Equiv.Basic
import PadCompiler.Demo
import PadCompiler.Proofs.Blocks
import PadCompiler.Proofs.Parallel

/-!
# PadCompiler.Proofs.Renaming

What a variable is called has no say in the code.  Scopes can be renamed as programs can, and as
long as different names stay different, every operation on scopes does the same under the other
names (`respects_rename`):

* `Scope.lookup_rename`, `Scope.insert_rename`, `Scope.lift_rename` — one scope;
* `ScopeStack.resolve_rename`, `ScopeStack.declare_rename`, `ScopeStack.leave_rename` — the open
  scopes.

The names of functions stay, because they are the labels of the blocks: `compile_rename`.
-/

namespace PadCompiler

variable (r : String → String)

/-! ## Bindings -/

/-- A signature whose parameters have other names. -/
def Signature.rename (f : Signature) : Signature :=
  { f with params := f.params.map (Param.rename r) }

/-- A thing with other names in it. -/
def Entity.rename : Entity → Entity
  | .scalar ty slot hint => .scalar ty slot hint
  | .array ty base length => .array ty base length
  | .function signature => .function (signature.rename r)

/-- A binding with other names in it. -/
def Binding.rename (b : Binding) : Binding :=
  { b with entity := b.entity.rename r }

/-- Other names lie in the same places. -/
@[simp] theorem Entity.storage_rename (e : Entity) : (e.rename r).storage = e.storage := by
  cases e <;> simp [rename, storage, Signature.rename]

@[simp] theorem Entity.withHint_rename (e : Entity) (hint : Lowered) :
    (e.rename r).withHint hint = (e.withHint hint).rename r := by
  cases e <;> simp [rename, withHint]

/-! ## One scope -/

namespace Scope

/-- A name and its binding, both renamed. -/
def renameEntry (entry : String × Binding) : String × Binding :=
  (r entry.1, entry.2.rename r)

/-- A scope with other names. -/
def rename (s : Scope) : Scope :=
  { s with bindings := s.bindings.map (renameEntry r) }

variable {r} {s : Scope}

theorem lookup_rename (hr : Function.Injective r) (name : String) :
    (s.rename r).lookup (r name) = (s.lookup name).map (Binding.rename r) := by
  obtain ⟨bindings, cursor, highWater⟩ := s
  simp only [rename, lookup]
  induction bindings with
  | nil => rfl
  | cons entry rest ih =>
      obtain ⟨key, b⟩ := entry
      by_cases hname : name = key
      · simp [hname, renameEntry]
      · have hother : (r name == r key) = false := by simp [hr.eq_iff, hname]
        have hsame : (name == key) = false := by simp [hname]
        simp only [List.map_cons, List.lookup_cons, renameEntry, hother, hsame]
        exact ih

theorem insert_rename (hr : Function.Injective r) (name : String) (b : Binding) :
    (s.rename r).insert (r name) (b.rename r) = (s.insert name b).rename r := by
  have hkeep : (fun entry : String × Binding => entry.1 != r name) ∘ renameEntry r =
      fun entry => entry.1 != name := by
    funext entry
    simp [renameEntry, bne, hr.beq_eq]
  simp [insert, rename, List.filter_map, hkeep, renameEntry]

/-- A new hint is recorded under the other name. -/
theorem modify_rename (hr : Function.Injective r) (name : String) (f : Binding → Binding)
    (hf : ∀ b, f (b.rename r) = (f b).rename r) :
    (s.rename r).modify (r name) f = (s.modify name f).rename r := by
  have hentry (entry : String × Binding) :
      (if (renameEntry r entry).1 = r name
        then ((renameEntry r entry).1, f (renameEntry r entry).2) else renameEntry r entry) =
      renameEntry r (if entry.1 = name then (entry.1, f entry.2) else entry) := by
    by_cases hname : entry.1 = name
    · simp [renameEntry, hname, hf]
    · simp [renameEntry, hname, hr.eq_iff]
  simp only [modify, rename, List.map_map, Function.comp_def, hentry]

theorem take_rename (n : Nat) :
    (s.rename r).take n = (s.take n).map fun taken => (taken.1, taken.2.rename r) := by
  by_cases hfits : s.cursor + n < wordLimit <;> simp [take, rename, hfits, Except.map]

theorem deepen_rename : (s.rename r).deepen = s.deepen.rename r := by
  simp [deepen, rename, renameEntry, Binding.rename, Function.comp_def]

end Scope

theorem Scope.lift_rename {r : String → String} (s : Scope) :
    (s.rename r).lift = s.lift.map (Scope.rename r) := by
  have hentry (entry : String × Binding) :
      liftBinding (renameEntry r entry) = (liftBinding entry).map (renameEntry r) := by
    obtain ⟨name, entity, depth⟩ := entry
    cases depth <;> rfl
  simp only [lift, rename, mapM_map_comm hentry]
  cases s.bindings.mapM liftBinding <;> rfl

/-! ## The open scopes -/

namespace ScopeStack

/-- The open scopes with other names. -/
def rename (s : ScopeStack) : ScopeStack :=
  ⟨s.inner.rename r, s.outer.map (Scope.rename r)⟩

variable {r} {s : ScopeStack}

theorem enter_rename : (s.rename r).enter = s.enter.rename r := by
  have hempty : Scope.rename r {} = {} := rfl
  simp [enter, rename, toList, Function.comp_def, Scope.deepen_rename, hempty]

theorem rewind_rename : (s.rename r).rewind = s.rewind.rename r := by
  simp [rewind, rename, Scope.rename]

theorem leave_rename :
    (s.rename r).leave = s.leave.map fun left => (left.1.rename r, left.2.rename r) := by
  obtain ⟨inner, outer⟩ := s
  cases outer with
  | nil => rfl
  | cons parent rest =>
      simp only [leave, rename, List.map_cons, Scope.lift_rename, mapM_map_comm Scope.lift_rename]
      cases parent.lift with
      | error f => rfl
      | ok parent => cases rest.mapM Scope.lift <;> rfl

theorem declare_rename (hr : Function.Injective r) (name : String) (size : Nat)
    (entity : Nat → Entity) (hentity : ∀ slot, (entity slot).rename r = entity slot) :
    (s.rename r).declare (r name) size entity =
      (s.declare name size entity).map fun made => (made.1, made.2.rename r) := by
  simp only [declare, rename, Scope.take_rename]
  cases s.inner.take size with
  | error f => rfl
  | ok taken =>
      have hinsert := Scope.insert_rename (s := taken.2) hr name ⟨entity taken.1, 0⟩
      simp only [Binding.rename, hentity] at hinsert
      simp only [Except.map, ok_bind, hinsert]
      rfl

theorem resolve_rename (hr : Function.Injective r) (name : String) :
    (s.rename r).resolve (r name) =
      ((s.resolve name).map (Binding.rename r)).mapError (CompileError.rename r) := by
  suffices h : ∀ (ss : List Scope) (hops : Nat),
      resolveIn (r name) hops (ss.map (Scope.rename r)) =
        ((resolveIn name hops ss).map (Binding.rename r)).mapError (CompileError.rename r) from
    h s.toList 0
  intro ss
  induction ss with
  | nil => exact fun hops => rfl
  | cons scope ss ih =>
      intro hops
      rw [List.map_cons, resolveIn, resolveIn, Scope.lookup_rename hr]
      cases scope.lookup name with
      | none => exact ih (hops + 1)
      | some b =>
          simp only [Option.map_some, Binding.rename]
          split <;> rfl

theorem modifyIn_rename (hr : Function.Injective r) (name : String) {f : Binding → Binding}
    (hf : ∀ b, f (b.rename r) = (f b).rename r) (ss : List Scope) :
    modifyIn (r name) f (ss.map (Scope.rename r)) =
      (modifyIn name f ss).map fun found => (found.1.rename r, found.2.map (Scope.rename r)) := by
  induction ss with
  | nil => rfl
  | cons scope ss ih =>
      rw [List.map_cons, modifyIn, modifyIn, Scope.lookup_rename hr]
      cases scope.lookup name with
      | none =>
          simp only [Option.map_none, ih, Option.map_map]
          rfl
      | some b =>
          simp only [Option.map_some, hf, Scope.modify_rename hr name f hf]
          rfl

theorem setHint_rename (hr : Function.Injective r) (name : String) (hint : Lowered) :
    (s.rename r).setHint (r name) hint =
      ((s.setHint name hint).map fun found => (found.1.rename r, found.2.rename r)).mapError
        (CompileError.rename r) := by
  have hupdate (b : Binding) : (⟨(b.rename r).entity.withHint hint, b.depth⟩ : Binding) =
      Binding.rename r ⟨b.entity.withHint hint, b.depth⟩ := by
    simp [Binding.rename]
  have htoList : (s.rename r).toList = s.toList.map (Scope.rename r) := rfl
  have hfound := modifyIn_rename hr name (f := fun b => ⟨b.entity.withHint hint, b.depth⟩) hupdate
    s.toList
  simp only [setHint, htoList, hfound]
  cases modifyIn name (fun b => ⟨b.entity.withHint hint, b.depth⟩) s.toList with
  | none => rfl
  | some found =>
      obtain ⟨b, ss⟩ := found
      cases ss <;> rfl

end ScopeStack

variable {r}

/-- As long as different names stay different, every operation on scopes respects other names. -/
theorem respects_rename (hr : Function.Injective r) : Respects r fun s t => t = s.rename r where
  find := by
    rintro s _ rfl name
    rw [find_scopeStack, find_scopeStack, ScopeStack.resolve_rename hr]
    cases s.resolve name with
    | error e => rfl
    | ok b => simp [Except.map, Binding.rename]
  scalar := by
    rintro s _ name ty hint rfl
    simp only [Scoping.scalar, ScopeStack.declareScalar]
    rw [ScopeStack.declare_rename hr name 1 _ fun _ => rfl]
    cases s.declare name 1 fun slot => .scalar ty slot hint with
    | error f => exact .error (.fault f)
    | ok made => exact .ok made.1 rfl
  array := by
    rintro s _ name ty length rfl
    simp only [Scoping.array, ScopeStack.declareArray]
    rw [ScopeStack.declare_rename hr name length _ fun _ => rfl]
    cases s.declare name length fun base => .array ty base length with
    | error f => exact .error (.fault f)
    | ok made => exact .ok made.1 rfl
  assign := by
    rintro s _ name hint rfl
    simp only [Scoping.assign, ScopeStack.setHint_rename hr]
    cases s.setHint name hint with
    | error e => exact .error e
    | ok found =>
        simp only [Except.map, mapError_ok, Binding.rename, Entity.storage_rename]
        exact .ok _ rfl
  enter := by
    rintro s _ rfl
    exact ScopeStack.enter_rename
  leave := by
    rintro s _ rfl
    have hnames : s.leave.mapError (CompileError.rename r) = s.leave := by
      unfold ScopeStack.leave
      cases s.outer with
      | nil => rfl
      | cons parent rest =>
          dsimp only
          cases parent.lift with
          | error f => rfl
          | ok parent => cases rest.mapM Scope.lift <;> rfl
    simp only [Scoping.leave, ScopeStack.leave_rename]
    cases hleave : s.leave with
    | error e =>
        rw [hleave] at hnames
        injection hnames with hnames
        simpa only [Except.map, hnames] using AgreeAs.error (r := r) e
    | ok left => exact .ok _ rfl
  rewind := by
    rintro s _ rfl
    exact ScopeStack.rewind_rename

theorem ScopeStack.declareFunction_rename (hr : Function.Injective r) (s : ScopeStack)
    (name : String) (f : Signature) :
    (s.rename r).declareFunction (r name) (f.rename r) =
      ((s.declareFunction name f).1.map (Binding.rename r),
        (s.declareFunction name f).2.rename r) := by
  have hinsert := Scope.insert_rename (s := s.inner) hr name ⟨.function f, 0⟩
  simp only [declareFunction, rename, Scope.lookup_rename hr]
  rw [← hinsert]
  rfl

namespace Generator

/-! ## Functions -/

/-- A function that keeps its name is made known in the same way. -/
theorem registerFunction_alongside (hr : Function.Injective r) {d : FunctionDecl}
    (hd : r d.name = d.name) :
    Alongside r (fun s t => t = s.rename r) (registerFunction d)
      (registerFunction (d.rename r)) := by
  intro i j g h hT
  have hdeclare := ScopeStack.declareFunction_rename hr g.scopes d.name
    ⟨Text.lower d.name, d.params, d.result⟩
  have hsignature : Signature.rename r ⟨Text.lower d.name, d.params, d.result⟩ =
      ⟨Text.lower d.name, d.params.map (Param.rename r), d.result⟩ := rfl
  rw [← hT.scopes, hd, hsignature] at hdeclare
  rw [registerFunction_run, registerFunction_run, FunctionDecl.rename, hd, hdeclare, ← hT.config]
  rcases g.scopes.declareFunction d.name ⟨Text.lower d.name, d.params, d.result⟩ with ⟨_ | b, s⟩
  · exact .ok () (hT.after [] rfl [])
  · cases g.config.redeclaration with
    | warn => exact .ok () (hT.after [] rfl _)
    | reject =>
        exact .errorAs (congrArg CompileError.redeclared hd) (hT.after [] rfl [])

/-- So is its block the same, whatever its parameters and variables are called. -/
theorem compileFunction_alongside {R : ScopeStack → ScopeStack → Prop} (hR : Respects r R)
    {d : FunctionDecl} (hd : r d.name = d.name) :
    Alongside r R (compileFunction d) (compileFunction (d.rename r)) := by
  rw [compileFunction, compileFunction, FunctionDecl.rename, hd]
  simp only [endsWithReturn_rename]
  refine .bind (.beginBlock _) fun _ => .bind hR.openScope fun _ => .bind .reserve fun size =>
    .bind (.emit _) fun _ => ?_
  refine .bind (.forM d.params fun param _ => .discard (hR.declareScalar _ _ _)) fun _ =>
    .bind (hR.compileStmts d.body) fun _ => ?_
  cases endsWithReturn d.body with
  | true => exact .bind hR.closeScope fun _ => .bind (.patchCount _ _) fun _ => .finishBlock
  | false =>
      exact .bind (.emit _) fun _ => .bind hR.closeScope fun _ => .bind (.patchCount _ _) fun _ =>
        .finishBlock

/-! ## Programs -/

theorem compileMain_alongside (hr : Function.Injective r) (ss : List Stmt) :
    Alongside r (fun s t => t = s.rename r) (compileMain ss)
      (compileMain (Stmt.renameAll r ss)) := by
  -- The size of the frame is read off the scopes, and names make no difference to it.
  have hend : Alongside r (fun s t => t = s.rename r) endMain endMain := by
    intro i j g h hT
    have hslots : h.scopes.inner.slots = g.scopes.inner.slots := by
      rw [hT.scopes]
      rfl
    have hrun (g : Generator) : endMain.run g = (do
        patchCount ⟨0⟩ g.scopes.inner.slots
        emit [.plain .cframe, .plain .halt]
        finishBlock : GenM Unit).run g := rfl
    rw [hrun g, hrun h, hslots]
    exact Alongside.bind (.patchCount _ _) (fun _ => .bind (.emit _) fun _ => .finishBlock)
      i j g h hT
  intro i j g h hT
  have hstart : Twin (fun s t => t = s.rename r) i j (mainStart g) (mainStart h) := by
    have hopen := (hT.withBlock (.empty mainLabel)).after
      (.reserved :: .plain .oframe :: g.config.clearing) hT.scopes []
    simpa only [mainStart, hT.config] using hopen
  rw [compileMain_run, compileMain_run]
  exact Alongside.bind ((respects_rename hr).compileStmts ss) (fun _ => hend) i j _ _ hstart

/-- All blocks of a program are the same under other names for its variables. -/
theorem generate_alongside (hr : Function.Injective r) {p : Program}
    (hfixed : ∀ d ∈ p.functions, r d.name = d.name) :
    Alongside r (fun s t => t = s.rename r) (generate p) (generate (p.rename r)) := by
  rw [generate, generate, Program.functions_rename, Program.statements_rename]
  refine .bind (.forM _ fun d hd => registerFunction_alongside hr (hfixed d hd)) fun _ => ?_
  refine .bind (.forM _ fun d hd => ?_) fun _ => compileMain_alongside hr p.statements
  exact compileFunction_alongside (respects_rename hr) (hfixed d hd)

end Generator

/-- What variables are called makes no difference: other names for them, all still different, give
the same blocks and warnings, or the same error about the other name. -/
theorem compile_rename {config : Config} {p : Program} {r : String → String}
    (hr : Function.Injective r) (hfixed : ∀ d ∈ p.functions, r d.name = d.name) :
    compile config (p.rename r) = (compile config p).mapError (CompileError.rename r) := by
  have hinitial : Generator.Twin (fun s t => t = s.rename r) .none .none
      (.initial config) (.initial config) :=
    ⟨rfl, rfl, rfl, .none, rfl, rfl⟩
  have hruns := Generator.generate_alongside hr hfixed _ _ _ _ hinitial
  rw [compile, compile]
  generalize (Generator.generate p).run (.initial config) = result,
    (Generator.generate (p.rename r)).run (.initial config) = result' at hruns
  cases hruns with
  | error e hT => rfl
  | ok _ hT =>
      obtain ⟨more, hg, hh⟩ := hT.image
      rw [Image.none_add] at hg hh
      dsimp only
      rw [hg, hh]
      cases more.verify <;> rfl

/-- The demo with two names exchanged, and a program that fails about one of them. -/
theorem compile_rename_total :
    (∃ image, compile {} Demo.program = .ok image ∧
        compile {} (Demo.program.rename (Equiv.swap "total" "w")) = .ok image) ∧
      compile {} (Program.rename (Equiv.swap "total" "w") ⟨[.print (.ident "w")]⟩) =
        .error (.unresolved "total") := by
  have hswap : Function.Injective (Equiv.swap "total" "w") := (Equiv.swap "total" "w").injective
  constructor
  · have haccepted : (compile {} Demo.program).toOption.isSome = true := by decide +kernel
    cases hcompile : compile {} Demo.program with
    | error e =>
        rw [hcompile] at haccepted
        contradiction
    | ok image =>
        refine ⟨image, rfl, ?_⟩
        rw [compile_rename hswap (by decide), hcompile, mapError_ok]
  · have hfails : compile {} ⟨[.print (.ident "w")]⟩ = .error (.unresolved "w") :=
      rfl
    rw [compile_rename hswap (by decide), hfails]
    rfl

end PadCompiler
