import PadCompiler.Proofs.Simulation

/-!
# PadCompiler.Proofs.Rewind

A scope that was rewound is a fresh one but for the size it remembers, and the size
of a scope has no say in the code made inside it.

`ScopeStack.raise` puts the size of one scope up.  Every operation commutes with it
(`raise_simulation`), so code comes out the same and the raised size is there at the
end.
-/

namespace PadCompiler

/-! ## One scope -/

namespace Scope

/-- The same scope with a frame of at least `h` slots. -/
def raise (h : Nat) (s : Scope) : Scope :=
  { s with highWater := Nat.max h s.highWater }

@[simp] theorem lookup_raise (h : Nat) (s : Scope) (name : String) :
    (s.raise h).lookup name = s.lookup name := rfl

theorem take_raise (h : Nat) (s : Scope) (n : Nat) :
    (s.raise h).take n = (s.take n).map fun (slot, t) => (slot, t.raise h) := by
  have hmax : Nat.max (Nat.max h s.highWater) (s.cursor + n) =
      Nat.max h (Nat.max s.highWater (s.cursor + n)) := Nat.max_assoc _ _ _
  by_cases hfits : s.cursor + n < wordLimit <;> simp [take, raise, hfits, hmax, Except.map]

theorem lift_raise (h : Nat) (s : Scope) : (s.raise h).lift = s.lift.map (raise h) := by
  simp only [lift, raise]
  cases s.bindings.mapM liftBinding <;> rfl

end Scope

/-! ## Lists of scopes -/

section

variable (h : Nat)

theorem map_deepen_modify (k : Nat) (l : List Scope) :
    (l.modify k (Scope.raise h)).map Scope.deepen =
      (l.map Scope.deepen).modify k (Scope.raise h) := by
  induction l generalizing k with
  | nil => simp
  | cons scope rest ih => cases k <;> simp [ih, Scope.deepen, Scope.raise]

theorem mapM_lift_modify (k : Nat) (l : List Scope) :
    (l.modify k (Scope.raise h)).mapM Scope.lift =
      (l.mapM Scope.lift).map (List.modify · k (Scope.raise h)) := by
  induction l generalizing k with
  | nil => simp [Except.map, pure, Except.pure]
  | cons scope rest ih =>
      cases k with
      | zero =>
          simp only [List.modify_zero_cons, List.mapM_cons, Scope.lift_raise]
          cases scope.lift with
          | error e => rfl
          | ok scope' => cases rest.mapM Scope.lift <;> rfl
      | succ k =>
          simp only [List.modify_succ_cons, List.mapM_cons, ih]
          cases scope.lift with
          | error e => rfl
          | ok scope' => cases rest.mapM Scope.lift <;> rfl

theorem resolveIn_modify (name : String) (hops k : Nat) (l : List Scope) :
    ScopeStack.resolveIn name hops (l.modify k (Scope.raise h)) =
      ScopeStack.resolveIn name hops l := by
  induction l generalizing k hops with
  | nil => simp
  | cons scope rest ih =>
      cases k <;> simp [ScopeStack.resolveIn, ih]

theorem modifyIn_modify (name : String) (f : Binding → Binding) (k : Nat) (l : List Scope) :
    ScopeStack.modifyIn name f (l.modify k (Scope.raise h)) =
      (ScopeStack.modifyIn name f l).map fun (b, l) => (b, l.modify k (Scope.raise h)) := by
  induction l generalizing k with
  | nil => simp [ScopeStack.modifyIn]
  | cons scope rest ih =>
      cases k with
      | zero =>
          simp only [List.modify_zero_cons, ScopeStack.modifyIn, Scope.lookup_raise]
          cases scope.lookup name with
          | some b => rfl
          | none => cases ScopeStack.modifyIn name f rest <;> rfl
      | succ k =>
          simp only [List.modify_succ_cons, ScopeStack.modifyIn, ih]
          cases scope.lookup name with
          | some b => rfl
          | none => cases ScopeStack.modifyIn name f rest <;> rfl

end

/-! ## The open scopes -/

namespace ScopeStack

/-- The same scopes where the one `k` hops up has a frame of at least `h` slots. -/
def raise (h : Nat) : Nat → ScopeStack → ScopeStack
  | 0, s => { s with inner := s.inner.raise h }
  | k + 1, s => { s with outer := s.outer.modify k (Scope.raise h) }

variable (h : Nat)

theorem toList_raise (k : Nat) (s : ScopeStack) :
    (s.raise h k).toList = s.toList.modify k (Scope.raise h) := by
  cases k <;> rfl

theorem enter_raise (k : Nat) (s : ScopeStack) :
    (s.raise h k).enter = s.enter.raise h (k + 1) := by
  simp only [enter, toList_raise, map_deepen_modify]
  rfl

/-- A rewound scope is a fresh one that remembers its size. -/
theorem rewind_eq_raise (s : ScopeStack) :
    s.rewind = (Scoping.fresh s).raise s.inner.slots 0 := by
  simp [rewind, Scoping.fresh, raise, Scope.raise, Scope.slots]

theorem resolve_raise (k : Nat) (s : ScopeStack) (name : String) :
    (s.raise h k).resolve name = s.resolve name := by
  rw [resolve, toList_raise, resolveIn_modify]
  rfl

theorem declare_raise (k : Nat) (s : ScopeStack) (name : String) (size : Nat)
    (entity : Nat → Entity) :
    (s.raise h k).declare name size entity =
      (s.declare name size entity).map fun (slot, t) => (slot, t.raise h k) := by
  cases k with
  | zero =>
      simp only [declare, raise, Scope.take_raise]
      cases s.inner.take size <;> rfl
  | succ k =>
      simp only [declare, raise]
      cases s.inner.take size <;> rfl

theorem setHint_raise (k : Nat) (s : ScopeStack) (name : String) (hint : Lowered) :
    (s.raise h k).setHint name hint =
      (s.setHint name hint).map fun (b, t) => (b, t.raise h k) := by
  simp only [setHint, toList_raise, modifyIn_modify]
  cases hmod : modifyIn name (fun b => { b with entity := b.entity.withHint hint }) s.toList with
  | none => rfl
  | some p =>
      obtain ⟨b, l⟩ := p
      cases l with
      | nil => simp [Except.map]
      | cons inner outer => cases k <;> rfl

theorem leave_raise (k : Nat) (s : ScopeStack) :
    (s.raise h (k + 1)).leave = s.leave.map fun (scope, t) => (scope, t.raise h k) := by
  simp only [leave, raise]
  cases s.outer with
  | nil => simp [Except.map]
  | cons parent rest =>
      cases k with
      | zero =>
          simp only [List.modify_zero_cons, Scope.lift_raise]
          cases parent.lift with
          | error e => rfl
          | ok parent' => cases rest.mapM Scope.lift <;> rfl
      | succ k =>
          simp only [List.modify_succ_cons, mapM_lift_modify]
          cases parent.lift with
          | error e => rfl
          | ok parent' => cases rest.mapM Scope.lift <;> rfl

/-- Closing a raised scope gives the raised size. -/
theorem leave_raise_zero (s : ScopeStack) :
    Scoping.leave (s.raise h 0) =
      (Scoping.leave s).map fun (size, t) => (Nat.max h size, t) := by
  simp only [Scoping.leave, leave, raise]
  cases s.outer with
  | nil => rfl
  | cons parent rest =>
      dsimp only
      cases parent.lift with
      | error e => rfl
      | ok parent' => cases rest.mapM Scope.lift <;> rfl

end ScopeStack

/-! ## Code in a raised scope -/

/-- The second stack is the first one with the scope `k` hops up raised. -/
def Raised (h k : Nat) (s t : ScopeStack) : Prop :=
  t = s.raise h k

/-- An outcome agrees with the same outcome on raised scopes. -/
theorem agree_raised (h k : Nat) {x y : Except CompileError (α × ScopeStack)}
    (hxy : y = x.map fun (a, s) => (a, s.raise h k)) : Agree (Raised h k) x y := by
  subst hxy
  cases x with
  | error e => exact .error e
  | ok p => exact .ok p.1 rfl

/-- Every operation commutes with raising a scope. -/
theorem raise_simulation (h : Nat) : Scoping.Simulation (Raised h) where
  find := by
    rintro k s _ rfl
    funext name
    exact congrArg (Except.map _) (ScopeStack.resolve_raise h k s name).symm
  scalar := by
    rintro k s _ name ty hint rfl
    refine agree_raised h k ?_
    simp only [Scoping.scalar, ScopeStack.declareScalar, ScopeStack.declare_raise]
    cases s.declare name 1 fun slot => .scalar ty slot hint <;> rfl
  array := by
    rintro k s _ name ty length rfl
    refine agree_raised h k ?_
    simp only [Scoping.array, ScopeStack.declareArray, ScopeStack.declare_raise]
    cases s.declare name length fun base => .array ty base length <;> rfl
  assign := by
    rintro k s _ name hint rfl
    refine agree_raised h k ?_
    simp only [Scoping.assign, ScopeStack.setHint_raise]
    cases s.setHint name hint <;> rfl
  enter := by
    rintro k s _ rfl
    exact ScopeStack.enter_raise h k s
  leave := by
    rintro k s _ rfl
    refine agree_raised h k ?_
    simp only [Scoping.leave, ScopeStack.leave_raise]
    cases s.leave <;> rfl
  fresh := by
    rintro k s _ rfl
    rfl
  size := by
    rintro k s _ rfl
    rfl

end PadCompiler
