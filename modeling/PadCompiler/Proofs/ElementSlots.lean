import PadCompiler.Proofs.Allocation
import PadCompiler.Proofs.Backpatch
import PadCompiler.Proofs.Places
import PadCompiler.Proofs.Translation

/-!
# PadCompiler.Proofs.ElementSlots

The slot of an array element is the sum of the first slot of the array and an offset.  The sum is
not checked where it is made, and it need not be: the array ends below a cursor, and the cursor is
checked whenever slots are taken.

* `ScopeStack.Keeps.perform`, `ScopeStack.Keeps.run` — a step and a run: whatever is done with
  scopes, all places in them end on words;
* `ScopeStack.Made.element_lt` — so the slot of an element is a word;
* `CheckedScopes` — scopes in which every look-up checks where an array ends;
* `Generator.compileStmts_checked` — the check makes no difference to the code of statements, nor to
  the errors, at any depth of nesting.
-/

namespace PadCompiler

open ScopeStack (Action Answer conclude)

/-! ## Places that end on words -/

/-- The slots of the place are words, and so is the number of the one after them. -/
def Storage.InWords : Storage → Prop
  | .scalar slot => slot + 1 < wordLimit
  | .array base length => base + length < wordLimit
  | .function _ _ => True

namespace ScopeStack

variable {s : ScopeStack}

/-- An operation that is refused changes nothing. -/
theorem Keeps.conclude {P : Storage → Prop} {answer : α → Answer}
    {outcome : Except CompileError (α × ScopeStack)} (hs : s.Keeps P)
    (h : ∀ a t, outcome = .ok (a, t) → t.Keeps P) : (conclude s answer outcome).2.Keeps P := by
  cases outcome with
  | error e => exact hs
  | ok r => exact h r.1 r.2 rfl

/-- A step: slots are taken with a check. -/
theorem Keeps.perform (hs : s.Keeps Storage.InWords) (a : Action) :
    (s.perform a).2.Keeps Storage.InWords := by
  cases a with
  | enter => exact hs.enter
  | leave => exact hs.conclude fun scope t h => hs.leave (congrArg (Except.map _) h)
  | rewind => exact hs.fresh rfl
  | scalar name ty hint =>
      exact hs.conclude fun slot t h => hs.declare (mapError_eq_ok.mp h) fun _ hlt => hlt
  | array name ty length =>
      exact hs.conclude fun slot t h => hs.declare (mapError_eq_ok.mp h) fun _ hlt => hlt
  | function name signature =>
      obtain ⟨hinner, houter⟩ := List.forall_mem_cons.mp hs
      exact List.forall_mem_cons.mpr ⟨Scope.Keeps.insert hinner name trivial, houter⟩
  | setHint name hint =>
      exact hs.conclude fun b t h => hs.assign (congrArg (Except.map _) h)
  | resolve name =>
      refine hs.conclude fun b t h => ?_
      obtain ⟨found, -, hfound⟩ := map_eq_ok.mp h
      cases hfound
      exact hs

/-- A run of any length. -/
theorem Keeps.run (hs : s.Keeps Storage.InWords) (actions : List Action) :
    (s.run actions).2.Keeps Storage.InWords := by
  induction actions generalizing s with
  | nil => exact hs
  | cons a actions ih => exact ih (hs.perform a)

theorem Made.keeps (h : s.Made) : s.Keeps Storage.InWords := by
  obtain ⟨actions, rfl⟩ := h
  have hstart : ({} : ScopeStack).Keeps Storage.InWords :=
    List.forall_mem_cons.mpr ⟨.empty, nofun⟩
  exact hstart.run actions

/-- The slot of an element is a word. -/
theorem Made.element_lt (h : s.Made) {name : String} {array : ArrayRef} {i : Int64} {offset : Nat}
    (harray : s.array name = .ok array) (hoffset : checkBounds name i array.length = .ok offset) :
    array.base + offset < wordLimit := by
  rw [array_eq] at harray
  have hend : array.base + array.length < wordLimit := h.keeps.find (Layout.array_eq_ok harray)
  have hlt := (checkBounds_eq_ok hoffset).2
  omega

end ScopeStack

/-! ## Checked look-up -/

/-- The open scopes, for look-ups that check where an array ends. -/
structure CheckedScopes where
  scopes : ScopeStack

/-- An array that ends past the words is not found. -/
def Storage.checked : Storage × Nat → Except CompileError (Storage × Nat)
  | (.array base length, depth) =>
    if base + length < wordLimit then .ok (.array base length, depth)
    else .error (.fault .addOverflow)
  | found => .ok found

theorem Storage.checked_eq {storage : Storage} (h : storage.InWords) (depth : Nat) :
    checked (storage, depth) = .ok (storage, depth) := by
  cases storage with
  | scalar slot => rfl
  | array base length => exact if_pos h
  | function label arity => rfl

/-- All else is as it is without the check. -/
instance : Scoping CheckedScopes where
  find s name := Scoping.find s.scopes name >>= Storage.checked
  scalar s name ty hint :=
    (Scoping.scalar s.scopes name ty hint).map fun (slot, t) => (slot, ⟨t⟩)
  array s name ty length :=
    (Scoping.array s.scopes name ty length).map fun (base, t) => (base, ⟨t⟩)
  assign s name hint := (Scoping.assign s.scopes name hint).map fun (found, t) => (found, ⟨t⟩)
  enter s := ⟨Scoping.enter s.scopes⟩
  leave s := (Scoping.leave s.scopes).map fun (size, t) => (size, ⟨t⟩)
  fresh s := ⟨Scoping.fresh s.scopes⟩
  size s := Scoping.size s.scopes

/-- The same scopes with the check, which all their places pass. -/
def WithChecks (_ : Nat) (s : ScopeStack) (t : CheckedScopes) : Prop :=
  t = ⟨s⟩ ∧ s.Keeps Storage.InWords

theorem agree_checked {k : Nat} {x : Except CompileError (α × ScopeStack)}
    (h : ∀ a s, x = .ok (a, s) → s.Keeps Storage.InWords) :
    Agree (WithChecks k) x (x.map fun (a, s) => (a, ⟨s⟩)) := by
  cases x with
  | error e => exact .error e
  | ok r => exact .ok r.1 ⟨rfl, h r.1 r.2 rfl⟩

/-- Every operation keeps the places in the words, so no look-up fails for the check. -/
theorem withChecks_simulation : Scoping.Simulation WithChecks where
  find := by
    rintro k s _ ⟨rfl, hs⟩
    funext name
    have hchecked : Scoping.find (⟨s⟩ : CheckedScopes) name =
        Scoping.find s name >>= Storage.checked := rfl
    rw [hchecked]
    cases hfind : Scoping.find s name with
    | error e => rfl
    | ok found => exact (Storage.checked_eq (hs.find hfind) found.2).symm
  scalar := by
    rintro k s _ name ty hint ⟨rfl, hs⟩
    exact agree_checked fun slot t h => hs.declare (mapError_eq_ok.mp h) fun _ hlt => hlt
  array := by
    rintro k s _ name ty length ⟨rfl, hs⟩
    exact agree_checked fun base t h => hs.declare (mapError_eq_ok.mp h) fun _ hlt => hlt
  assign := by
    rintro k s _ name hint ⟨rfl, hs⟩
    exact agree_checked fun found t h => hs.assign h
  enter := by
    rintro k s _ ⟨rfl, hs⟩
    exact ⟨rfl, hs.enter⟩
  leave := by
    rintro k s _ ⟨rfl, hs⟩
    exact agree_checked fun size t h => hs.leave h
  fresh := by
    rintro k s _ ⟨rfl, hs⟩
    exact ⟨rfl, hs.fresh rfl⟩
  size := by
    rintro k s _ ⟨rfl, hs⟩
    rfl

/-- Where all places are in the words, the check makes no difference to a layout. -/
theorem Layout.stmts_checked {s : ScopeStack} (hs : s.Keeps Storage.InWords) (ss : List Stmt) :
    (stmts ss (⟨s⟩ : CheckedScopes)).map (fun (code, t) => (code, t.scopes)) = stmts ss s := by
  have hagree := withChecks_simulation.stmts ss 0 s ⟨s⟩ ⟨rfl, hs⟩
  generalize stmts ss s = x at hagree
  generalize stmts ss (⟨s⟩ : CheckedScopes) = y at hagree
  cases hagree with
  | ok code h =>
      obtain ⟨rfl, -⟩ := h
      rfl
  | error e => rfl

/-- In scopes that operations made, statements are compiled as the layout says that checks every
array it looks up: no slot of an element is past the words, however deep it is nested, in code that
is made and in code that is given up. -/
theorem Generator.compileStmts_checked {g : Generator} (hmade : g.scopes.Made) (ss : List Stmt) :
    LaysAt (compileStmts ss) g (Stmt.listWarnings ss) (Stmt.listBound ss)
      ((Layout.stmts ss (⟨g.scopes⟩ : CheckedScopes)).map fun (code, s) => (code, s.scopes)) := by
  rw [Layout.stmts_checked hmade.keeps]
  exact compileStmts_lays ss g

end PadCompiler
