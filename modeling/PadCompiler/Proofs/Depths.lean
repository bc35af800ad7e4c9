import PadCompiler.Proofs.Frames

/-!
# PadCompiler.Proofs.Depths

The depth of a binding is stored with it, and every opening and closing of a scope changes all of
them.  Here the stored depths are compared with depths that nobody stores: a `NameStack` is a list
of scopes that hold things only, and how far away a thing is, is the position of its scope in the
list at the time of the question.

* `ScopeStack.perform`, `NameStack.perform` — the operations on scopes, one by one;
* `ScopeStack.perform_view` — a step: both give the same answer and go on to the same scopes;
* `ScopeStack.run_view` — a run of any length;
* `NameStack.run_nested` — what a run leaves of the scopes that were open before.

No answer depends on what is stored, so the check of depths in `ScopeStack.resolve` never fails, and
no depth is ever brought below zero.
-/

namespace PadCompiler

/-! ## Operations -/

namespace ScopeStack

/-- An operation on the open scopes. -/
inductive Action where
  | enter
  | leave
  | rewind
  | scalar (name : String) (ty : Ty) (hint : Lowered)
  | array (name : String) (ty : Ty) (length : Nat)
  | function (name : String) (signature : Signature)
  /-- Looks a name up to change its hint. -/
  | setHint (name : String) (hint : Lowered)
  | resolve (name : String)

/-- What an operation answers. -/
inductive Answer where
  | done
  /-- The scope that was closed. -/
  | closed (scope : Scope)
  /-- The first of the slots that were taken. -/
  | slot (n : Nat)
  /-- What the name stood for before. -/
  | replaced (previous : Option Binding)
  | found (b : Binding)
  | refused (e : CompileError)

/-- The answer of an operation and the scopes after it; an operation that is refused changes
nothing. -/
def conclude (s : σ) (answer : α → Answer) : Except CompileError (α × σ) → Answer × σ
  | .ok (a, t) => (answer a, t)
  | .error e => (.refused e, s)

/-- Performs an operation. -/
def perform (s : ScopeStack) : Action → Answer × ScopeStack
  | .enter => (.done, s.enter)
  | .leave => conclude s .closed s.leave
  | .rewind => (.done, s.rewind)
  | .scalar name ty hint => conclude s .slot ((s.declareScalar name ty hint).mapError .fault)
  | .array name ty length => conclude s .slot ((s.declareArray name ty length).mapError .fault)
  | .function name signature =>
    let (previous, t) := s.declareFunction name signature
    (.replaced previous, t)
  | .setHint name hint => conclude s .found (s.setHint name hint)
  | .resolve name => conclude s .found ((s.resolve name).map (·, s))

/-- Performs operations one after the other. -/
def run (s : ScopeStack) : List Action → List Answer × ScopeStack
  | [] => ([], s)
  | a :: as => ((s.perform a).1 :: ((s.perform a).2.run as).1, ((s.perform a).2.run as).2)

end ScopeStack

open ScopeStack (Action Answer conclude)

/-! ## Scopes without depths -/

/-- The things of one scope and its use of slots. -/
structure NameScope where
  names : List (String × Entity) := []
  cursor : Nat := 0
  highWater : Nat := 0

namespace NameScope

/-- Binds a name, in place of what it stood for. -/
def insert (s : NameScope) (name : String) (entity : Entity) : NameScope :=
  { s with names := (name, entity) :: s.names.filter (·.1 != name) }

/-- Changes the hint of a name. -/
def setHint (name : String) (hint : Lowered) (s : NameScope) : NameScope :=
  { s with names := s.names.map fun entry =>
      if entry.1 = name then (entry.1, entry.2.withHint hint) else entry }

/-- The scope as it is seen from `depth` frames further in. -/
def seen (s : NameScope) (depth : Nat) : Scope where
  bindings := s.names.map fun entry => (entry.1, ⟨entry.2, depth⟩)
  cursor := s.cursor
  highWater := s.highWater

end NameScope

/-- The open scopes, the innermost one and the others from the inside out. -/
structure NameStack where
  inner : NameScope := {}
  outer : List NameScope := []

namespace NameStack

def toList (p : NameStack) : List NameScope :=
  p.inner :: p.outer

/-- What a name stands for in the innermost of the scopes that hold it.  Its depth is the number of
scopes further in. -/
def find (name : String) (ss : List NameScope) : Option Binding := do
  let depth ← ss.findIdx? fun s => (s.names.lookup name).isSome
  let scope ← ss[depth]?
  let entity ← scope.names.lookup name
  pure ⟨entity, depth⟩

/-- Changes the scope that is `depth` scopes further out. -/
def modify (p : NameStack) (f : NameScope → NameScope) : (depth : Nat) → NameStack
  | 0 => { p with inner := f p.inner }
  | depth + 1 => { p with outer := p.outer.modify depth f }

/-- Takes slots of the innermost scope for a name. -/
def declare (p : NameStack) (name : String) (size : Nat) (entity : Nat → Entity) :
    Except CompileError (Nat × NameStack) :=
  let slot := p.inner.cursor
  if slot + size < wordLimit then
    let taken := { p.inner with
      cursor := slot + size, highWater := Nat.max p.inner.highWater (slot + size) }
    .ok (slot, { p with inner := taken.insert name (entity slot) })
  else .error (.fault .addOverflow)

/-- Performs an operation. -/
def perform (p : NameStack) : Action → Answer × NameStack
  | .enter => (.done, ⟨{}, p.toList⟩)
  | .leave =>
    match p.outer with
    | [] => (.refused (.internal .topLevelScope), p)
    | parent :: rest => (.closed (p.inner.seen 0), ⟨parent, rest⟩)
  | .rewind => (.done, { p with inner := { p.inner with names := [], cursor := 0 } })
  | .scalar name ty hint => conclude p .slot (p.declare name 1 (.scalar ty · hint))
  | .array name ty length => conclude p .slot (p.declare name length (.array ty · length))
  | .function name signature =>
    (.replaced ((p.inner.names.lookup name).map (⟨·, 0⟩)),
      { p with inner := p.inner.insert name (.function signature) })
  | .setHint name hint =>
    match find name p.toList with
    | some b => (.found { b with entity := b.entity.withHint hint },
        p.modify (.setHint name hint) b.depth)
    | none => (.refused (.unresolved name), p)
  | .resolve name =>
    match find name p.toList with
    | some b => (.found b, p)
    | none => (.refused (.unresolved name), p)

/-- Performs operations one after the other. -/
def run (p : NameStack) : List Action → List Answer × NameStack
  | [] => ([], p)
  | a :: as => ((p.perform a).1 :: ((p.perform a).2.run as).1, ((p.perform a).2.run as).2)

/-- Scopes with depths by their positions, the first being `depth` frames away. -/
def viewFrom : (depth : Nat) → List NameScope → List Scope
  | _, [] => []
  | depth, s :: ss => s.seen depth :: viewFrom (depth + 1) ss

/-- The open scopes with depths by their positions. -/
def view (p : NameStack) : ScopeStack where
  inner := p.inner.seen 0
  outer := viewFrom 1 p.outer

end NameStack

theorem NameStack.toList_view (p : NameStack) : p.view.toList = viewFrom 0 p.toList := rfl

/-! ## One scope -/

namespace NameScope

variable (s : NameScope) (k : Nat) (name : String)

theorem lookup_seen : (s.seen k).lookup name = (s.names.lookup name).map (⟨·, k⟩) := by
  simp only [Scope.lookup, seen]
  induction s.names with
  | nil => rfl
  | cons entry rest ih =>
      rw [List.map_cons, List.lookup_cons, List.lookup_cons]
      cases name == entry.1 with
      | true => rfl
      | false => exact ih

theorem insert_seen (entity : Entity) :
    (s.seen k).insert name ⟨entity, k⟩ = (s.insert name entity).seen k := by
  simp [Scope.insert, NameScope.insert, seen, List.filter_map, Function.comp_def]

theorem deepen_seen : (s.seen k).deepen = s.seen (k + 1) := by
  simp [Scope.deepen, seen]

theorem lift_seen : (s.seen (k + 1)).lift = .ok (s.seen k) := by
  have hdepth : ∀ entry ∈ (s.seen (k + 1)).bindings, entry.2.depth = k + 1 := by
    intro entry hentry
    obtain ⟨named, -, rfl⟩ := List.mem_map.mp hentry
    rfl
  rw [Scope.lift_eq hdepth]
  simp [seen]

theorem modify_seen (hint : Lowered) :
    (s.seen k).modify name (fun b => { b with entity := b.entity.withHint hint }) =
      (s.setHint name hint).seen k := by
  simp only [Scope.modify, setHint, seen, List.map_map]
  congr 1
  apply List.map_congr_left
  intro entry _
  by_cases h : entry.1 = name <;> simp [h]

end NameScope

/-! ## The open scopes -/

namespace NameStack

theorem map_deepen_viewFrom (k : Nat) (ss : List NameScope) :
    (viewFrom k ss).map Scope.deepen = viewFrom (k + 1) ss := by
  induction ss generalizing k with
  | nil => rfl
  | cons s ss ih => simp [viewFrom, NameScope.deepen_seen, ih]

theorem mapM_lift_viewFrom (k : Nat) (ss : List NameScope) :
    (viewFrom (k + 1) ss).mapM Scope.lift = .ok (viewFrom k ss) := by
  induction ss generalizing k with
  | nil => rfl
  | cons s ss ih =>
      rw [viewFrom, List.mapM_cons, NameScope.lift_seen, ih]
      rfl

/-- A name is found in the first scope, or one scope further out than among the others. -/
theorem find_cons (name : String) (s : NameScope) (ss : List NameScope) :
    find name (s :: ss) = match s.names.lookup name with
      | some entity => some ⟨entity, 0⟩
      | none => (find name ss).map fun b => ⟨b.entity, b.depth + 1⟩ := by
  cases hs : s.names.lookup name with
  | some entity => simp [find, List.findIdx?_cons, hs]
  | none =>
      simp only [find, List.findIdx?_cons, hs, Option.isSome_none]
      cases ss.findIdx? fun s => (s.names.lookup name).isSome with
      | none => simp
      | some depth =>
          cases hscope : ss[depth]? with
          | none => simp [hscope]
          | some scope => cases hentity : scope.names.lookup name <;> simp [hscope, hentity]

/-- The check of the stored depth passes, and the depth is the position. -/
theorem resolveIn_viewFrom (name : String) (k : Nat) (ss : List NameScope) :
    ScopeStack.resolveIn name k (viewFrom k ss) = match find name ss with
      | some b => .ok ⟨b.entity, b.depth + k⟩
      | none => .error (.unresolved name) := by
  induction ss generalizing k with
  | nil => rfl
  | cons s ss ih =>
      rw [viewFrom, ScopeStack.resolveIn, NameScope.lookup_seen, find_cons]
      cases s.names.lookup name with
      | some entity => simp
      | none =>
          rw [Option.map_none, ih]
          cases find name ss with
          | none => rfl
          | some b => simp [Nat.add_assoc, Nat.add_comm 1 k]

/-- The hint is changed in the scope where the name is found. -/
theorem modifyIn_viewFrom (name : String) (hint : Lowered) (k : Nat) (ss : List NameScope) :
    ScopeStack.modifyIn name (fun b => { b with entity := b.entity.withHint hint })
        (viewFrom k ss) = (find name ss).map fun b =>
      (⟨b.entity.withHint hint, b.depth + k⟩,
        viewFrom k (ss.modify b.depth (.setHint name hint))) := by
  induction ss generalizing k with
  | nil => rfl
  | cons s ss ih =>
      rw [viewFrom, ScopeStack.modifyIn, NameScope.lookup_seen, find_cons]
      cases s.names.lookup name with
      | some entity => simp [NameScope.modify_seen, viewFrom]
      | none =>
          rw [Option.map_none, ih]
          cases find name ss with
          | none => rfl
          | some b => simp [viewFrom, Nat.add_assoc, Nat.add_comm 1 k]

theorem toList_modify (p : NameStack) (f : NameScope → NameScope) (depth : Nat) :
    (p.modify f depth).toList = p.toList.modify depth f := by
  cases depth <;> simp [modify, toList]

theorem declare_view (p : NameStack) (name : String) (size : Nat) (entity : Nat → Entity) :
    (p.view.declare name size entity).mapError .fault =
      (p.declare name size entity).map fun (slot, q) => (slot, q.view) := by
  have hcursor : p.view.inner.cursor = p.inner.cursor := rfl
  rw [ScopeStack.declare, Scope.take, declare, hcursor]
  by_cases hfits : p.inner.cursor + size < wordLimit
  · rw [if_pos hfits, if_pos hfits, ok_bind]
    simp only [Except.map, view, ← NameScope.insert_seen]
    rfl
  · rw [if_neg hfits, if_neg hfits]
    rfl

theorem leave_view (p : NameStack) :
    p.view.leave = match p.outer with
      | [] => .error (.internal .topLevelScope)
      | parent :: rest => .ok (p.inner.seen 0, view ⟨parent, rest⟩) := by
  cases houter : p.outer with
  | nil => simp [view, ScopeStack.leave, houter, viewFrom]
  | cons parent rest =>
      simp only [view, ScopeStack.leave, houter, viewFrom, NameScope.lift_seen, mapM_lift_viewFrom,
        mapError_ok, ok_bind]
      rfl

theorem resolve_view (p : NameStack) (name : String) :
    p.view.resolve name = match find name p.toList with
      | some b => .ok b
      | none => .error (.unresolved name) :=
  resolveIn_viewFrom name 0 p.toList

theorem setHint_view (p : NameStack) (name : String) (hint : Lowered) :
    p.view.setHint name hint = match find name p.toList with
      | some b =>
        .ok (⟨b.entity.withHint hint, b.depth⟩, (p.modify (.setHint name hint) b.depth).view)
      | none => .error (.unresolved name) := by
  rw [ScopeStack.setHint, toList_view, modifyIn_viewFrom]
  cases find name p.toList with
  | none => rfl
  | some b =>
      rw [Option.map_some, ← toList_modify]
      rfl

end NameStack

/-! ## Steps and runs -/

namespace ScopeStack

/-- One step: the same answer, and the same scopes after it. -/
theorem perform_view (p : NameStack) (a : Action) :
    p.view.perform a = ((p.perform a).1, (p.perform a).2.view) := by
  have hconclude {α : Type} (answer : α → Answer) (r : Except CompileError (α × NameStack)) :
      conclude p.view answer (r.map fun (a, q) => (a, q.view)) =
        ((conclude p answer r).1, (conclude p answer r).2.view) := by
    cases r <;> rfl
  cases a with
  | enter =>
      rw [perform, ScopeStack.enter, NameStack.toList_view, NameStack.map_deepen_viewFrom]
      rfl
  | leave =>
      rw [perform, NameStack.perform, NameStack.leave_view]
      cases p.outer <;> rfl
  | rewind => rfl
  | scalar name ty hint =>
      rw [perform, declareScalar, NameStack.declare_view, hconclude]
      rfl
  | array name ty length =>
      rw [perform, declareArray, NameStack.declare_view, hconclude]
      rfl
  | function name signature =>
      simp only [perform, declareFunction, NameStack.perform, NameStack.view, NameScope.lookup_seen,
        NameScope.insert_seen]
  | setHint name hint =>
      rw [perform, NameStack.perform, NameStack.setHint_view]
      cases NameStack.find name p.toList <;> rfl
  | resolve name =>
      rw [perform, NameStack.perform, NameStack.resolve_view]
      cases NameStack.find name p.toList <;> rfl

/-- A run of any length. -/
theorem run_view (p : NameStack) (as : List Action) :
    p.view.run as = ((p.run as).1, (p.run as).2.view) := by
  induction as generalizing p with
  | nil => rfl
  | cons a as ih =>
      rw [run, perform_view, ih]
      rfl

end ScopeStack

/-! ## What a run leaves behind -/

/-- Operations that close no scope but those that they open. -/
inductive ScopeStack.Nested : List Action → Prop
  | nil : Nested []
  | step {a as} (henter : a ≠ .enter) (hleave : a ≠ .leave) (h : Nested as) : Nested (a :: as)
  | scope {as bs} (hinside : Nested as) (hafter : Nested bs) :
    Nested (.enter :: as ++ .leave :: bs)

/-- The scope with all hints forgotten. -/
def Scope.unhinted (s : Scope) : Scope :=
  { s with bindings := s.bindings.map fun entry =>
      (entry.1, { entry.2 with entity := entry.2.entity.withHint .dynamic }) }

/-- The scope with all hints forgotten. -/
def NameScope.unhinted (s : NameScope) : NameScope :=
  { s with names := s.names.map fun entry => (entry.1, entry.2.withHint .dynamic) }

/-- The newest hint counts. -/
theorem Entity.withHint_withHint (entity : Entity) (hint hint' : Lowered) :
    (entity.withHint hint).withHint hint' = entity.withHint hint' := by
  cases entity <;> rfl

theorem NameScope.unhinted_setHint (name : String) (hint : Lowered) (s : NameScope) :
    (s.setHint name hint).unhinted = s.unhinted := by
  simp only [setHint, unhinted, List.map_map]
  congr 1
  apply List.map_congr_left
  intro entry _
  by_cases h : entry.1 = name <;> simp [h, Entity.withHint_withHint]

namespace NameStack

theorem unhinted_viewFrom (k : Nat) (ss : List NameScope) :
    (viewFrom k ss).map Scope.unhinted = viewFrom k (ss.map NameScope.unhinted) := by
  induction ss generalizing k with
  | nil => rfl
  | cons s ss ih =>
      simp [viewFrom, ih, Scope.unhinted, NameScope.unhinted, NameScope.seen]

theorem run_append (p : NameStack) (as bs : List Action) :
    p.run (as ++ bs) = ((p.run as).1 ++ ((p.run as).2.run bs).1, ((p.run as).2.run bs).2) := by
  induction as generalizing p with
  | nil => rfl
  | cons a as ih => simp [run, ih]

theorem modify_outer (p : NameStack) (name : String) (hint : Lowered) (depth : Nat) :
    (p.modify (.setHint name hint) depth).outer.map NameScope.unhinted =
      p.outer.map NameScope.unhinted := by
  cases depth with
  | zero => rfl
  | succ depth =>
      simp only [modify]
      induction p.outer generalizing depth with
      | nil => simp
      | cons s ss ih =>
          cases depth with
          | zero => simp [NameScope.unhinted_setHint]
          | succ depth => simpa using ih depth

/-- A step inside a scope leaves the scopes around it, but for hints. -/
theorem perform_outer (p : NameStack) {a : Action} (henter : a ≠ .enter) (hleave : a ≠ .leave) :
    (p.perform a).2.outer.map NameScope.unhinted = p.outer.map NameScope.unhinted := by
  have hdeclare (name : String) (size : Nat) (entity : Nat → Entity) :
      (conclude p .slot (p.declare name size entity)).2.outer = p.outer := by
    by_cases hfits : p.inner.cursor + size < wordLimit <;> simp [declare, hfits, conclude]
  cases a with
  | enter => contradiction
  | leave => contradiction
  | rewind => rfl
  | scalar name ty hint => rw [perform, hdeclare]
  | array name ty length => rw [perform, hdeclare]
  | function name signature => rfl
  | setHint name hint =>
      rw [perform]
      cases find name p.toList with
      | none => rfl
      | some b => exact modify_outer p name hint b.depth
  | resolve name =>
      rw [perform]
      cases find name p.toList <;> rfl

/-- Inside a scope that was opened there are scopes around it, so that it can be closed. -/
theorem run_inside (p : NameStack) {as : List Action}
    (h : ((p.perform .enter).2.run as).2.outer.map NameScope.unhinted =
      (p.perform .enter).2.outer.map NameScope.unhinted) :
    ∃ parent rest, ((p.perform .enter).2.run as).2.outer = parent :: rest ∧
      (parent :: rest).map NameScope.unhinted = p.toList.map NameScope.unhinted := by
  cases houter : ((p.perform .enter).2.run as).2.outer with
  | nil =>
      rw [houter] at h
      simp [perform, toList] at h
  | cons parent rest =>
      rw [houter] at h
      exact ⟨parent, rest, rfl, h⟩

theorem perform_leave {p : NameStack} {parent : NameScope} {rest : List NameScope}
    (h : p.outer = parent :: rest) :
    p.perform .leave = (.closed (p.inner.seen 0), ⟨parent, rest⟩) := by
  simp [perform, h]

/-- So does a run that closes no scope but those that it opens. -/
theorem run_nested {as : List Action} (h : ScopeStack.Nested as) (p : NameStack) :
    (p.run as).2.outer.map NameScope.unhinted = p.outer.map NameScope.unhinted := by
  induction h generalizing p with
  | nil => rfl
  | step henter hleave h ih =>
      rw [run, ih, perform_outer p henter hleave]
  | @scope as bs hinside hafter ihInside ihAfter =>
      -- inside the scope, hints of the scopes around it may change, and nothing else of them
      obtain ⟨parent, rest, houter, hunhinted⟩ := p.run_inside (ihInside _)
      rw [List.cons_append, run, run_append, run, ihAfter, perform_leave houter]
      exact (List.cons.inj hunhinted).2

/-- A scope that is opened and closed again leaves the scopes around it, but for hints. -/
theorem run_scope {as : List Action} (h : ScopeStack.Nested as) (p : NameStack) :
    ∃ answers scope q, p.run (.enter :: as ++ [.leave]) = (answers ++ [.closed scope], q) ∧
      q.toList.map NameScope.unhinted = p.toList.map NameScope.unhinted := by
  obtain ⟨parent, rest, houter, hunhinted⟩ := p.run_inside (run_nested h _)
  rw [List.cons_append, run, run_append, run, perform_leave houter]
  exact ⟨.done :: ((p.perform .enter).2.run as).1, _, ⟨parent, rest⟩, rfl, hunhinted⟩

/-- The only fault of an operation is that there are no slots left. -/
theorem fault_perform {p : NameStack} {a : Action} {f : Fault}
    (h : (p.perform a).1 = .refused (.fault f)) : f = .addOverflow := by
  have hdeclare (name : String) (size : Nat) (entity : Nat → Entity)
      (h : (conclude p .slot (p.declare name size entity)).1 = .refused (.fault f)) :
      f = .addOverflow := by
    by_cases hfits : p.inner.cursor + size < wordLimit <;> simp_all [declare, conclude]
  cases a with
  | enter => simp [perform] at h
  | leave => cases houter : p.outer <;> simp [perform, houter] at h
  | rewind => simp [perform] at h
  | scalar name ty hint => exact hdeclare _ _ _ h
  | array name ty length => exact hdeclare _ _ _ h
  | function name signature => simp [perform] at h
  | setHint name hint => cases hfind : find name p.toList <;> simp [perform, hfind] at h
  | resolve name => cases hfind : find name p.toList <;> simp [perform, hfind] at h

theorem fault_run {p : NameStack} {as : List Action} {f : Fault}
    (h : .refused (.fault f) ∈ (p.run as).1) : f = .addOverflow := by
  induction as generalizing p with
  | nil => simp [run] at h
  | cons a as ih =>
      rcases List.mem_cons.mp h with hfirst | hrest
      · exact fault_perform hfirst.symm
      · exact ih hrest

end NameStack

theorem ScopeStack.perform_leave_only {s : ScopeStack} (h : s.outer = []) :
    s.perform .leave = (.refused (.internal .topLevelScope), s) := by
  simp [perform, leave, h, conclude]

/-- Stored depths are recomputed depths: whatever is done with scopes, starting from one that is
empty, every answer and the scopes afterwards are those of scopes that store no depths.  So no
check of a depth fails and none is brought below zero, the only scope is not closed, and a scope
that is opened and closed leaves the bindings of the others at their depths. -/
theorem depths_are_positions (actions : List Action) :
    ∃ answers p, ({} : NameStack).run actions = (answers, p) ∧
      ({} : ScopeStack).run actions = (answers, p.view) ∧
      (∀ f, .refused (.fault f) ∈ answers → f = .addOverflow) ∧
      (p.view.outer = [] →
        p.view.perform .leave = (.refused (.internal .topLevelScope), p.view)) ∧
      ∀ inside, ScopeStack.Nested inside → ∃ answers scope after,
        p.view.run (.enter :: inside ++ [.leave]) = (answers ++ [.closed scope], after) ∧
          after.toList.map Scope.unhinted = p.view.toList.map Scope.unhinted := by
  refine ⟨_, _, rfl, ScopeStack.run_view {} actions, fun f => NameStack.fault_run,
    ScopeStack.perform_leave_only, ?_⟩
  intro inside hinside
  obtain ⟨answers, scope, q, hq, hsame⟩ :=
    NameStack.run_scope hinside (({} : NameStack).run actions).2
  refine ⟨answers, scope, q.view, ?_, ?_⟩
  · rw [ScopeStack.run_view, hq]
  · rw [NameStack.toList_view, NameStack.toList_view, NameStack.unhinted_viewFrom, hsame,
      NameStack.unhinted_viewFrom]

/-- A name is bound in both of two scopes, and looked up from the inner one, from a third one and
after that one is closed. -/
def Demo.shadowing : List Action :=
  [.scalar "x" .int .dynamic, .scalar "y" .int .dynamic, .enter, .scalar "x" .bool .dynamic,
    .resolve "y", .enter, .resolve "x", .leave, .resolve "x", .leave, .leave]

theorem shadowed_depths_are_positions :
    ∃ p : NameStack, ({} : ScopeStack).run Demo.shadowing =
        ([.slot 0, .slot 1, .done, .slot 0, .found ⟨.scalar .int 1 .dynamic, 1⟩, .done,
          .found ⟨.scalar .bool 0 .dynamic, 1⟩, .closed {}, .found ⟨.scalar .bool 0 .dynamic, 0⟩,
          .closed ⟨[("x", ⟨.scalar .bool 0 .dynamic, 0⟩)], 1, 1⟩,
          .refused (.internal .topLevelScope)], p.view) ∧
      ∃ answers scope after, p.view.run [.enter, .setHint "x" .dynamic, .leave] =
          (answers ++ [.closed scope], after) ∧
        after.toList.map Scope.unhinted = p.view.toList.map Scope.unhinted := by
  obtain ⟨answers, p, hnames, hscopes, -, -, hnested⟩ := depths_are_positions Demo.shadowing
  obtain ⟨rfl, -⟩ := Prod.mk.inj hnames
  exact ⟨p, hscopes, hnested [.setHint "x" .dynamic] (.step nofun nofun .nil)⟩

end PadCompiler
