import Mathlib.Data.List.Forall2
import PadCompiler.Proofs.Frames
import PadCompiler.Proofs.Parallel

/-!
# PadCompiler.Proofs.Hints

Declared types and hints are kept and never asked for.  States that differ in nothing else are
`Retyped`; of a signature, the label and the number of parameters have to be the same.

The relation does not assume that the state was reached, so that stored depths may be anything, and
closing a scope may fail, on both sides in the same way (`Scope.Retyped.lift`).  No operation on
scopes tells retyped ones apart (`retyped_congruence`), and then no statement does
(`Congruence.compileStmts`).
-/

namespace PadCompiler

/-! ## Results that correspond -/

/-- Both succeed with related values, or both fail with the same error. -/
inductive Corresponds (R : α → β → Prop) : Except ε α → Except ε β → Prop
  | ok {a b} (h : R a b) : Corresponds R (.ok a) (.ok b)
  | error (e : ε) : Corresponds R (.error e) (.error e)

namespace Corresponds

theorem bind {R : α → β → Prop} {S : γ → δ → Prop} {x : Except ε α} {y : Except ε β}
    {f : α → Except ε γ} {g : β → Except ε δ} (hxy : Corresponds R x y)
    (hfg : ∀ a b, R a b → Corresponds S (f a) (g b)) : Corresponds S (x >>= f) (y >>= g) := by
  cases hxy with
  | ok h => exact hfg _ _ h
  | error e => exact .error e

theorem map {R : α → β → Prop} {S : γ → δ → Prop} {x : Except ε α} {y : Except ε β} {f : α → γ}
    {g : β → δ} (hxy : Corresponds R x y) (hfg : ∀ a b, R a b → S (f a) (g b)) :
    Corresponds S (x.map f) (y.map g) := by
  cases hxy with
  | ok h => exact .ok (hfg _ _ h)
  | error e => exact .error e

theorem mapError {R : α → β → Prop} {x : Except ε α} {y : Except ε β} (hxy : Corresponds R x y)
    (f : ε → δ) : Corresponds R (x.mapError f) (y.mapError f) := by
  cases hxy with
  | ok h => exact .ok h
  | error e => exact .error (f e)

/-- What is done to related lists, one element after the other. -/
theorem mapM {R : α → β → Prop} {S : γ → δ → Prop} {xs : List α} {ys : List β}
    {f : α → Except ε γ} {g : β → Except ε δ} (hxs : List.Forall₂ R xs ys)
    (hfg : ∀ a b, R a b → Corresponds S (f a) (g b)) :
    Corresponds (List.Forall₂ S) (xs.mapM f) (ys.mapM g) := by
  induction hxs with
  | nil => exact .ok .nil
  | cons hhead htail ih =>
      rw [List.mapM_cons, List.mapM_cons]
      exact (hfg _ _ hhead).bind fun _ _ hfirst => ih.bind fun _ _ hrest => .ok (.cons hfirst hrest)

/-- Results with a value that is the same on both sides. -/
theorem agree {R : σ → τ → Prop} {x : Except CompileError (α × σ)}
    {y : Except CompileError (α × τ)}
    (h : Corresponds (fun p q => p.1 = q.1 ∧ R p.2 q.2) x y) : Agree R x y := by
  cases h with
  | @ok p q h =>
      obtain ⟨a, s⟩ := p
      obtain ⟨b, t⟩ := q
      obtain ⟨rfl, hst⟩ := h
      exact .ok a hst
  | error e => exact .error e

end Corresponds

/-! ## States that differ in types and hints -/

/-- Two things that differ in declared types and hints at most, and two functions in what their
parameters are called. -/
inductive Entity.Retyped : Entity → Entity → Prop
  | scalar (ty ty' : Ty) (slot : Nat) (hint hint' : Lowered) :
    Retyped (.scalar ty slot hint) (.scalar ty' slot hint')
  | array (ty ty' : Ty) (base length : Nat) :
    Retyped (.array ty base length) (.array ty' base length)
  | function (label : String) {params params' : List Param} (result result' : Ty)
    (harity : params.length = params'.length) :
    Retyped (.function ⟨label, params, result⟩) (.function ⟨label, params', result'⟩)

/-- A name that stands for such things, as many frames away. -/
structure Binding.Retyped (b c : String × Binding) : Prop where
  name : b.1 = c.1
  entity : b.2.entity.Retyped c.2.entity
  depth : b.2.depth = c.2.depth

/-- Two scopes that differ in declared types and hints at most. -/
structure Scope.Retyped (s t : Scope) : Prop where
  bindings : List.Forall₂ Binding.Retyped s.bindings t.bindings
  cursor : s.cursor = t.cursor
  highWater : s.highWater = t.highWater

/-- So do the open scopes. -/
def ScopeStack.Retyped (s t : ScopeStack) : Prop :=
  List.Forall₂ Scope.Retyped s.toList t.toList

/-- Two states that differ in declared types and hints at most. -/
structure Generator.Retyped (g h : Generator) : Prop where
  config : g.config = h.config
  block : g.block = h.block
  image : g.image = h.image
  scopes : g.scopes.Retyped h.scopes

/-! ## Things -/

namespace Entity.Retyped

theorem refl (e : Entity) : e.Retyped e := by
  cases e with
  | scalar ty slot hint => exact .scalar ty ty slot hint hint
  | array ty base length => exact .array ty ty base length
  | function signature => exact .function signature.label signature.result signature.result rfl

theorem storage {e e' : Entity} (h : e.Retyped e') : e.storage = e'.storage := by
  cases h with
  | scalar ty ty' slot hint hint' => rfl
  | array ty ty' base length => rfl
  | function label result result' harity => simp [Entity.storage, harity]

theorem withHint {e e' : Entity} (h : e.Retyped e') (hint : Lowered) :
    (e.withHint hint).Retyped (e'.withHint hint) := by
  cases h with
  | scalar ty ty' slot => exact .scalar ty ty' slot hint hint
  | array ty ty' base length => exact .array ty ty' base length
  | function label result result' harity => exact .function label result result' harity

end Entity.Retyped

/-! ## One scope -/

namespace Scope.Retyped

variable {s t : Scope}

/-- A name stands for something in both scopes or in none. -/
theorem lookup (h : s.Retyped t) (name : String) :
    s.lookup name = none ∧ t.lookup name = none ∨
      ∃ b c, s.lookup name = some b ∧ t.lookup name = some c ∧
        b.entity.Retyped c.entity ∧ b.depth = c.depth := by
  have hbindings := h.bindings
  rw [Scope.lookup, Scope.lookup]
  generalize s.bindings = bs, t.bindings = cs at hbindings
  induction hbindings with
  | nil => exact .inl ⟨rfl, rfl⟩
  | @cons b c bs cs hhead htail ih =>
      rw [List.lookup_cons, List.lookup_cons, ← hhead.name]
      cases name == b.1 with
      | true => exact .inr ⟨b.2, c.2, rfl, rfl, hhead.entity, hhead.depth⟩
      | false => exact ih

/-- Changes of bindings that respect the relation. -/
theorem map (h : s.Retyped t) {f : String × Binding → String × Binding}
    (hf : ∀ b c, Binding.Retyped b c → Binding.Retyped (f b) (f c)) :
    Scope.Retyped { s with bindings := s.bindings.map f }
      { t with bindings := t.bindings.map f } where
  bindings := List.rel_map hf h.bindings
  cursor := h.cursor
  highWater := h.highWater

theorem deepen (h : s.Retyped t) : s.deepen.Retyped t.deepen :=
  h.map fun _ _ hbc => ⟨hbc.name, hbc.entity, congrArg (· + 1) hbc.depth⟩

theorem modify (h : s.Retyped t) (name : String) (hint : Lowered) :
    let update (b : Binding) : Binding := { b with entity := b.entity.withHint hint }
    (s.modify name update).Retyped (t.modify name update) := by
  refine h.map fun b c hbc => ?_
  rw [← hbc.name]
  by_cases hname : b.1 = name
  · simp only [hname, if_true]
    exact ⟨rfl, hbc.entity.withHint hint, hbc.depth⟩
  · simpa only [hname, if_false] using hbc

/-- All depths are brought down on both sides, or one is 0 on both. -/
theorem lift (h : s.Retyped t) : Corresponds Scope.Retyped s.lift t.lift := by
  refine (Corresponds.mapM h.bindings fun b c hbc => ?_).bind fun bs cs hbindings =>
    .ok ⟨hbindings, h.cursor, h.highWater⟩
  rw [liftBinding, liftBinding, ← hbc.depth]
  cases b.2.depth with
  | zero => exact .error _
  | succ depth => exact .ok ⟨hbc.name, hbc.entity, rfl⟩

theorem insert (h : s.Retyped t) (name : String) (entity : Entity) :
    (s.insert name ⟨entity, 0⟩).Retyped (t.insert name ⟨entity, 0⟩) where
  bindings := by
    refine .cons ⟨rfl, .refl entity, rfl⟩ (List.rel_filter (fun b c hbc => ?_) h.bindings)
    simp [hbc.name]
  cursor := h.cursor
  highWater := h.highWater

/-- The same slots are handed out. -/
theorem take (h : s.Retyped t) (n : Nat) :
    Corresponds (fun p q => p.1 = q.1 ∧ p.2.Retyped q.2) (s.take n) (t.take n) := by
  rw [Scope.take, Scope.take, ← h.cursor, ← h.highWater]
  by_cases hfits : s.cursor + n < wordLimit
  · rw [if_pos hfits, if_pos hfits]
    exact .ok ⟨rfl, h.bindings, rfl, rfl⟩
  · rw [if_neg hfits, if_neg hfits]
    exact .error _

theorem empty : Scope.Retyped {} {} :=
  ⟨.nil, rfl, rfl⟩

end Scope.Retyped

/-! ## The open scopes -/

namespace ScopeStack.Retyped

variable {s t : ScopeStack}

/-- Names are found in the same places, and stored depths are right or wrong on both sides. -/
theorem resolveIn {ss ts : List Scope} (h : List.Forall₂ Scope.Retyped ss ts) (name : String)
    (hops : Nat) :
    (ScopeStack.resolveIn name hops ss).map (fun b => (b.entity.storage, b.depth)) =
      (ScopeStack.resolveIn name hops ts).map (fun b => (b.entity.storage, b.depth)) := by
  induction h generalizing hops with
  | nil => rfl
  | cons hhead htail ih =>
      rw [ScopeStack.resolveIn, ScopeStack.resolveIn]
      rcases hhead.lookup name with ⟨hs, ht⟩ | ⟨b, c, hs, ht, hentity, hdepth⟩
      · rw [hs, ht]
        exact ih (hops + 1)
      · rw [hs, ht]
        by_cases hhops : c.depth = hops <;> simp [hdepth, hhops, Except.map, hentity.storage]

/-- A new hint is recorded on both sides or on none. -/
theorem modifyIn {ss ts : List Scope} (h : List.Forall₂ Scope.Retyped ss ts) (name : String)
    (hint : Lowered) :
    let update (b : Binding) : Binding := { b with entity := b.entity.withHint hint }
    ScopeStack.modifyIn name update ss = none ∧ ScopeStack.modifyIn name update ts = none ∨
      ∃ b c ss' ts', ScopeStack.modifyIn name update ss = some (b, ss') ∧
        ScopeStack.modifyIn name update ts = some (c, ts') ∧ b.entity.Retyped c.entity ∧
        b.depth = c.depth ∧ List.Forall₂ Scope.Retyped ss' ts' := by
  intro update
  induction h with
  | nil => exact .inl ⟨rfl, rfl⟩
  | @cons s t ss ts hhead htail ih =>
      rw [ScopeStack.modifyIn, ScopeStack.modifyIn]
      rcases hhead.lookup name with ⟨hs, ht⟩ | ⟨b, c, hs, ht, hentity, hdepth⟩
      · rw [hs, ht]
        rcases ih with ⟨hss, hts⟩ | ⟨b, c, ss', ts', hss, hts, hentity, hdepth, hrest⟩
        · exact .inl ⟨by rw [hss]; rfl, by rw [hts]; rfl⟩
        · exact .inr ⟨b, c, s :: ss', t :: ts', by rw [hss]; rfl, by rw [hts]; rfl, hentity, hdepth,
            .cons hhead hrest⟩
      · rw [hs, ht]
        exact .inr ⟨update b, update c, _, _, rfl, rfl, hentity.withHint hint, hdepth,
          .cons (hhead.modify name hint) htail⟩

theorem declare (h : s.Retyped t) (name : String) (n : Nat) (entity : Nat → Entity) :
    Agree ScopeStack.Retyped ((s.declare name n entity).mapError .fault)
      ((t.declare name n entity).mapError .fault) := by
  cases h with
  | cons hinner houter =>
      refine Corresponds.agree (.mapError ((hinner.take n).bind fun p q hpq => ?_) _)
      obtain ⟨slot, inner⟩ := p
      obtain ⟨slot', inner'⟩ := q
      obtain ⟨rfl, htaken⟩ := hpq
      exact .ok ⟨rfl, .cons (htaken.insert name (entity slot)) houter⟩

theorem assign (h : s.Retyped t) (name : String) (hint : Lowered) :
    Agree ScopeStack.Retyped (Scoping.assign s name hint) (Scoping.assign t name hint) := by
  simp only [Scoping.assign, setHint]
  rcases modifyIn h name hint with ⟨hs, ht⟩ | ⟨b, c, ss, ts, hs, ht, hentity, hdepth, hrest⟩
  · rw [hs, ht]
    exact .error _
  · rw [hs, ht]
    cases hrest with
    | nil => exact .error _
    | cons hinner houter =>
        simp only [Except.map, hentity.storage, hdepth]
        exact .ok _ (.cons hinner houter)

theorem leave (h : s.Retyped t) :
    Agree ScopeStack.Retyped (Scoping.leave s) (Scoping.leave t) := by
  obtain ⟨inner, outer⟩ := s
  obtain ⟨inner', outer'⟩ := t
  cases h with
  | cons hinner houter =>
      cases houter with
      | nil => exact .error _
      | @cons parent parent' rest rest' hparent hrest =>
          -- of the scope that is closed, only the size is handed out
          have hleave : Corresponds (fun p q => p.1.slots = q.1.slots ∧ p.2.Retyped q.2)
              (ScopeStack.leave ⟨inner, parent :: rest⟩)
              (ScopeStack.leave ⟨inner', parent' :: rest'⟩) :=
            .bind (.mapError hparent.lift _) fun _ _ hparent =>
              .bind (.mapError (.mapM hrest fun _ _ => Scope.Retyped.lift) _) fun _ _ hrest =>
                .ok ⟨hinner.highWater, .cons hparent hrest⟩
          exact (hleave.map fun p q hpq => hpq).agree

end ScopeStack.Retyped

/-- No operation asks for a type or a hint. -/
theorem retyped_congruence : Congruence ScopeStack.Retyped where
  find {k s t} h := funext fun name => ScopeStack.Retyped.resolveIn h name 0
  scalar {k s t} name ty hint h := h.declare name 1 fun slot => .scalar ty slot hint
  array {k s t} name ty length h := h.declare name length fun base => .array ty base length
  assign {k s t} name hint h := h.assign name hint
  enter {k s t} h := .cons .empty (List.rel_map (fun _ _ hst => hst.deepen) h)
  leave {k s t} h := h.leave
  fresh {k s t} h := by
    cases h with
    | cons hinner houter => exact .cons .empty houter
  size {k s t} h := by
    cases h with
    | cons hinner houter => exact hinner.highWater
  rewind {s t} h := by
    cases h with
    | cons hinner houter => exact .cons ⟨.nil, rfl, hinner.highWater⟩ houter

/-! ## States -/

namespace Generator

/-- States that differ in types and hints are states side by side, with the same image. -/
theorem retyped_iff {g h : Generator} {i : Image} :
    Twin ScopeStack.Retyped i i g h ↔ Retyped g h ∧ ∃ more, g.image = i.add more := by
  constructor
  · intro hT
    obtain ⟨more, hg, hh⟩ := hT.image
    exact ⟨⟨hT.config, hT.block, hg.trans hh.symm, hT.scopes⟩, more, hg⟩
  · rintro ⟨hsame, more, hg⟩
    exact ⟨hsame.config, hsame.block, hsame.scopes, more, hg, hsame.image.symm.trans hg⟩

/-- Types and hints are bookkeeping: from states that differ in nothing else, statements end in the
same way, with the same code, blocks and warnings, and in states that differ in nothing else. -/
theorem compileStmts_retyped {g h : Generator} (hsame : g.Retyped h) (ss : List Stmt) :
    Together Retyped ((compileStmts ss).run g) ((compileStmts ss).run h) := by
  have hT : Twin ScopeStack.Retyped g.image g.image g h :=
    retyped_iff.mpr ⟨hsame, .none, g.image.add_none.symm⟩
  have hend := retyped_congruence.compileStmts ss g.image g.image g h hT
  generalize (compileStmts ss).run g = result, (compileStmts ss).run h = result' at hend ⊢
  cases hend with
  | ok a hT => exact .ok a (retyped_iff.mp hT).1
  | error e hT => exact .error e (retyped_iff.mp hT).1

end Generator

open Generator

/-- A variable in an inner scope, an array and a function in an outer one. -/
def Demo.annotated (ty : Ty) (hint : Lowered) (param : Param) : Generator where
  config := {}
  scopes := {
    inner := ⟨[("x", ⟨.scalar ty 0 hint, 0⟩)], 1, 1⟩
    outer := [⟨[("v", ⟨.array ty 0 2, 1⟩), ("F", ⟨.function ⟨"f", [param], ty⟩, 1⟩)], 2, 2⟩] }
  block := .empty mainLabel
  image := .none

/-- Reads all three, and records a new hint inside a branch. -/
def Demo.annotatedUse : List Stmt :=
  [.conditional (.ident "x") [.assign ⟨"x", .call "F" [.index "v" (.int 1)]⟩] none,
    .print (.ident "v")]

/-- An integer with a known value, and a colour without; both are accepted. -/
theorem compileStmts_annotated :
    (Demo.annotated .int (.static (.int 7)) ⟨"n", .int⟩).Retyped
        (Demo.annotated .color .dynamic ⟨"c", .bool⟩) ∧
      Together Retyped
        ((compileStmts Demo.annotatedUse).run (Demo.annotated .int (.static (.int 7)) ⟨"n", .int⟩))
        ((compileStmts Demo.annotatedUse).run (Demo.annotated .color .dynamic ⟨"c", .bool⟩)) ∧
      ∃ g, (compileStmts Demo.annotatedUse).run (Demo.annotated .color .dynamic ⟨"c", .bool⟩) =
        .ok () g := by
  have hsame : (Demo.annotated .int (.static (.int 7)) ⟨"n", .int⟩).Retyped
      (Demo.annotated .color .dynamic ⟨"c", .bool⟩) := by
    refine ⟨rfl, rfl, rfl, .cons ⟨.cons ⟨rfl, .scalar .., rfl⟩ .nil, rfl, rfl⟩ (.cons ?_ .nil)⟩
    exact ⟨.cons ⟨rfl, .array .., rfl⟩ (.cons ⟨rfl, .function "f" _ _ rfl, rfl⟩ .nil), rfl, rfl⟩
  exact ⟨hsame, compileStmts_retyped hsame Demo.annotatedUse, _, rfl⟩

end PadCompiler
