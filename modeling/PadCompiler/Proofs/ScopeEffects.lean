import PadCompiler.Proofs.Allocation
import PadCompiler.Proofs.Backpatch
import PadCompiler.Proofs.Depths
import PadCompiler.Proofs.Meaning
import PadCompiler.Proofs.Translation

/-!
# PadCompiler.Proofs.ScopeEffects

What statements leave of the scopes that were open before, whatever these scopes are.

The innermost scope gets what the statements declare in it: `Scope.declareAll` binds one name after
the other to the next free slots.  Nothing else is changed but hints, so that scopes are compared
with their hints forgotten.  A scope that is opened inside a statement is closed again, and that
brings all depths back (`ScopeStack.leave_unhinted`).

* `Layout.stmts_declares`, `Generator.compileStmts_unhinted` — the scopes after statements are those
  before them, with what the statements declare;
* `Generator.compileStmts_find` — what names stand for afterwards;
* `Generator.compileStmts_keeps_scopes` — the outer scopes are the same as before, and the innermost
  one has its earlier things, a cursor that is moved by what is declared in it, and the high-water
  mark that belongs to that.
-/

namespace PadCompiler

/-! ## Scopes without hints -/

/-- The binding with its hint forgotten. -/
def Binding.unhinted (b : Binding) : Binding :=
  { b with entity := b.entity.withHint .dynamic }

theorem Binding.unhinted_storage (b : Binding) : b.unhinted.entity.storage = b.entity.storage := by
  obtain ⟨entity, depth⟩ := b
  cases entity <;> rfl

namespace Scope

variable {s : Scope}

theorem lookup_unhinted (name : String) :
    s.unhinted.lookup name = (s.lookup name).map Binding.unhinted := by
  obtain ⟨bindings, cursor, highWater⟩ := s
  simp only [unhinted, lookup]
  induction bindings with
  | nil => rfl
  | cons entry rest ih =>
      rw [List.map_cons, List.lookup_cons, List.lookup_cons, ih]
      cases name == entry.1 <;> rfl

theorem insert_unhinted (name : String) (b : Binding) :
    s.unhinted.insert name b.unhinted = (s.insert name b).unhinted := by
  simp [insert, unhinted, Binding.unhinted, List.filter_map, Function.comp_def]

theorem modify_unhinted (name : String) (hint : Lowered) :
    (s.modify name fun b => { b with entity := b.entity.withHint hint }).unhinted =
      s.unhinted := by
  simp only [modify, unhinted, List.map_map]
  congr 1
  apply List.map_congr_left
  intro entry _
  by_cases hname : entry.1 = name <;> simp [hname, Entity.withHint_withHint]

theorem deepen_unhinted : s.unhinted.deepen = s.deepen.unhinted := by
  simp [deepen, unhinted, Function.comp_def]

theorem lift_unhinted : s.unhinted.lift = s.lift.map unhinted := by
  let forget (entry : String × Binding) : String × Binding := (entry.1, entry.2.unhinted)
  have hentry (entry : String × Binding) :
      liftBinding (forget entry) = (liftBinding entry).map forget := by
    obtain ⟨name, entity, depth⟩ := entry
    cases depth <;> rfl
  have hbindings := mapM_map_comm hentry s.bindings
  rw [lift, lift]
  change (do let bindings ← (s.bindings.map forget).mapM liftBinding; _) = _
  rw [hbindings]
  cases s.bindings.mapM liftBinding <;> rfl

/-- Bringing a scope nearer undoes putting it further away. -/
theorem lift_deepen : s.deepen.lift = .ok s := by
  have hbindings : ∀ l : List (String × Binding),
      (l.map fun entry => (entry.1, { entry.2 with depth := entry.2.depth + 1 })).mapM
        liftBinding = Except.ok l := by
    intro l
    induction l with
    | nil => rfl
    | cons entry l ih =>
        rw [List.map_cons, List.mapM_cons, ih]
        rfl
  rw [lift, deepen, hbindings]
  rfl

/-! ## Declarations -/

/-- The scope with a name on the next `n` free slots. -/
def put (s : Scope) (name : String) (n : Nat) (entity : Nat → Entity) : Scope :=
  let cursor := s.cursor + n
  insert { s with cursor := cursor, highWater := Nat.max s.highWater cursor } name
    ⟨entity s.cursor, 0⟩

/-- The scope with what a statement declares in it.  Hints are forgotten. -/
def declare (s : Scope) : Stmt → Scope
  | .varDecl decl => s.put decl.name 1 (.scalar decl.ty · .dynamic)
  | .arrayDecl name ty size _ => s.put name size.spelledLength (.array ty · size.spelledLength)
  | _ => s

/-- The scope with what statements declare in it. -/
def declareAll (s : Scope) (ss : List Stmt) : Scope :=
  ss.foldl declare s

theorem put_unhinted (name : String) (n : Nat) (entity : Nat → Entity) :
    (s.put name n entity).unhinted =
      s.unhinted.put name n fun slot => (entity slot).withHint .dynamic :=
  (insert_unhinted name _).symm

theorem put_lookup (name other : String) (n : Nat) (entity : Nat → Entity) :
    (s.put name n entity).lookup other =
      if other = name then some ⟨entity s.cursor, 0⟩ else s.lookup other :=
  lookup_insert _ name other _

/-- Slots are taken for what is declared. -/
theorem declare_cursor (stmt : Stmt) : (s.declare stmt).cursor = s.cursor + stmt.slots := by
  cases stmt <;> rfl

theorem declareAll_cursor (ss : List Stmt) :
    (s.declareAll ss).cursor = s.cursor + Stmt.listSlots ss := by
  induction ss generalizing s with
  | nil => rfl
  | cons stmt ss ih =>
      rw [Stmt.listSlots, ← Nat.add_assoc, ← declare_cursor]
      exact ih

/-- The mark follows the cursor. -/
theorem declareAll_highWater (hs : s.cursor ≤ s.highWater) (ss : List Stmt) :
    (s.declareAll ss).highWater = max s.highWater (s.declareAll ss).cursor := by
  induction ss generalizing s with
  | nil => exact (Nat.max_eq_left hs).symm
  | cons stmt ss ih =>
      have hstep : (s.declare stmt).highWater = max s.highWater (s.declare stmt).cursor := by
        cases stmt with
        | varDecl decl => rfl
        | arrayDecl name ty size es => rfl
        | _ => exact (Nat.max_eq_left hs).symm
      have hrest := ih (s := s.declare stmt) (by omega)
      have hgrown : (s.declare stmt).cursor ≤ ((s.declare stmt).declareAll ss).cursor := by
        rw [declareAll_cursor]
        exact Nat.le_add_right ..
      have hcons : s.declareAll (stmt :: ss) = (s.declare stmt).declareAll ss := rfl
      rw [hcons]
      omega

/-- Names that are not declared keep what they stand for. -/
theorem lookup_declare {stmt : Stmt} {name : String} (hname : name ∉ stmt.declared) :
    (s.declare stmt).lookup name = s.lookup name := by
  cases stmt with
  | varDecl decl =>
      rw [declare, put_lookup, if_neg (by simpa [Stmt.declared] using hname)]
  | arrayDecl other ty size es =>
      rw [declare, put_lookup, if_neg (by simpa [Stmt.declared] using hname)]
  | _ => rfl

theorem lookup_declareAll {ss : List Stmt} {name : String}
    (hname : name ∉ ss.flatMap Stmt.declared) : (s.declareAll ss).lookup name = s.lookup name := by
  induction ss generalizing s with
  | nil => rfl
  | cons stmt ss ih =>
      rw [List.flatMap_cons, List.mem_append, not_or] at hname
      exact (ih hname.2).trans (lookup_declare hname.1)

end Scope

/-- Where the thing that a statement declares is kept, if its first slot is this one. -/
def Stmt.storage? (slot : Nat) : Stmt → Option Storage
  | .varDecl _ => some (.scalar slot)
  | .arrayDecl _ _ size _ => some (.array slot size.spelledLength)
  | _ => none

/-- The name is declared last by this statement among others, and its first slot comes after the
slots of the statements before. -/
def LastDeclared (name : String) (slot : Nat) (ss : List Stmt) (storage : Storage) : Prop :=
  ∃ before stmt after, ss = before ++ stmt :: after ∧ name ∈ stmt.declared ∧
    name ∉ after.flatMap Stmt.declared ∧
    stmt.storage? (slot + Stmt.listSlots before) = some storage

/-- A declared name stands for what is declared last. -/
theorem Scope.lookup_declareAll_last {s : Scope} {ss : List Stmt} {name : String}
    (hname : name ∈ ss.flatMap Stmt.declared) :
    ∃ b, (s.declareAll ss).lookup name = some b ∧ b.depth = 0 ∧
      LastDeclared name s.cursor ss b.entity.storage := by
  induction ss generalizing s with
  | nil => simp at hname
  | cons stmt ss ih =>
      by_cases hlater : name ∈ ss.flatMap Stmt.declared
      · obtain ⟨b, hb, hdepth, before, last, after, rfl, hlast, hafter, hstorage⟩ :=
          ih (s := s.declare stmt) hlater
        refine ⟨b, hb, hdepth, stmt :: before, last, after, rfl, hlast, hafter, ?_⟩
        rwa [declare_cursor, Nat.add_assoc, ← Stmt.listSlots] at hstorage
      · have hfirst : name ∈ stmt.declared := by
          rw [List.flatMap_cons, List.mem_append] at hname
          exact hname.resolve_right hlater
        have hkept : (s.declareAll (stmt :: ss)).lookup name = (s.declare stmt).lookup name :=
          lookup_declareAll hlater
        rw [hkept]
        cases stmt with
        | varDecl decl =>
            obtain rfl := List.mem_singleton.mp hfirst
            exact ⟨_, by rw [declare, put_lookup, if_pos rfl], rfl,
              [], .varDecl decl, ss, rfl, hfirst, hlater, rfl⟩
        | arrayDecl other ty size es =>
            obtain rfl := List.mem_singleton.mp hfirst
            exact ⟨_, by rw [declare, put_lookup, if_pos rfl], rfl,
              [], .arrayDecl name ty size es, ss, rfl, hfirst, hlater, rfl⟩
        | _ => simp [Stmt.declared] at hfirst

/-! ## The open scopes -/

namespace ScopeStack

/-- The open scopes with their hints forgotten. -/
def unhinted (s : ScopeStack) : ScopeStack :=
  ⟨s.inner.unhinted, s.outer.map Scope.unhinted⟩

/-- The open scopes with what statements declare in the innermost one. -/
def declareAll (s : ScopeStack) (ss : List Stmt) : ScopeStack :=
  { s with inner := s.inner.declareAll ss }

variable {s t t' : ScopeStack} {ss ss' : List Stmt}

theorem declareAll_append :
    (s.declareAll ss).declareAll ss' = s.declareAll (ss ++ ss') := by
  simp [declareAll, Scope.declareAll, List.foldl_append]

theorem toList_unhinted : s.unhinted.toList = s.toList.map Scope.unhinted := rfl

theorem unhinted_inj (h : s.toList.map Scope.unhinted = t.toList.map Scope.unhinted) :
    s.unhinted = t.unhinted := by
  obtain ⟨hinner, houter⟩ := List.cons.inj h
  rw [unhinted, unhinted, hinner, houter]

/-- A declaration takes slots of the innermost scope for its name. -/
theorem declare_eq_ok {name : String} {n slot : Nat} {entity : Nat → Entity}
    (h : s.declare name n entity = .ok (slot, t)) : t = ⟨s.inner.put name n entity, s.outer⟩ := by
  obtain ⟨⟨first, inner⟩, htake, h⟩ := bind_eq_ok.mp h
  rw [Scope.take] at htake
  split at htake
  · cases htake
    cases h
    rfl
  · contradiction

/-- Closing brings the scopes around the innermost one nearer. -/
theorem leave_eq_ok {scope : Scope} (h : s.leave = .ok (scope, t)) :
    s.outer.mapM Scope.lift = .ok t.toList := by
  obtain ⟨inner, outer⟩ := s
  cases outer with
  | nil => contradiction
  | cons parent rest =>
      rw [leave] at h
      obtain ⟨parent', hparent, h⟩ := bind_eq_ok.mp h
      obtain ⟨rest', hrest, h⟩ := bind_eq_ok.mp h
      cases h
      rw [mapError_eq_ok] at hparent hrest
      rw [List.mapM_cons, hparent, hrest]
      rfl

/-- What was opened is closed: if the scopes around the innermost one are those around a scope that
was opened, hints aside, closing gives the scopes from before. -/
theorem leave_unhinted {scope : Scope}
    (houter : t.outer.map Scope.unhinted = s.enter.outer.map Scope.unhinted)
    (h : t.leave = .ok (scope, t')) : t'.unhinted = s.unhinted := by
  have hlift : (t.outer.map Scope.unhinted).mapM Scope.lift =
      .ok (t'.toList.map Scope.unhinted) := by
    rw [mapM_map_comm fun _ => Scope.lift_unhinted, leave_eq_ok h]
    rfl
  have hdeepened : s.enter.outer.map Scope.unhinted =
      (s.toList.map Scope.unhinted).map Scope.deepen := by
    simp [enter, Function.comp_def, Scope.deepen_unhinted]
  have hback : ∀ scopes : List Scope, (scopes.map Scope.deepen).mapM Scope.lift = .ok scopes := by
    intro scopes
    induction scopes with
    | nil => rfl
    | cons scope scopes ih =>
        rw [List.map_cons, List.mapM_cons, Scope.lift_deepen, ih]
        rfl
  rw [houter, hdeepened, hback] at hlift
  exact unhinted_inj (Except.ok.inj hlift).symm

/-- Recording a hint changes nothing else. -/
theorem setHint_unhinted {name : String} {hint : Lowered} {b : Binding}
    (h : s.setHint name hint = .ok (b, t)) : t.unhinted = s.unhinted := by
  have hscopes : ∀ (ss ss' : List Scope) (b : Binding),
      modifyIn name (fun b => { b with entity := b.entity.withHint hint }) ss = some (b, ss') →
        ss'.map Scope.unhinted = ss.map Scope.unhinted := by
    intro ss
    induction ss with
    | nil => nofun
    | cons scope ss ih =>
        intro ss' b h
        rw [modifyIn] at h
        split at h
        · cases h
          rw [List.map_cons, List.map_cons, Scope.modify_unhinted]
        · rw [Option.map_eq_some_iff] at h
          obtain ⟨⟨b', rest⟩, hrest, h⟩ := h
          cases h
          rw [List.map_cons, List.map_cons, ih _ _ hrest]
  rw [setHint] at h
  split at h
  · next b' inner outer hmodify =>
      cases h
      exact unhinted_inj (hscopes _ _ _ hmodify)
  · contradiction

end ScopeStack

/-! ## Statements -/

namespace Layout

/-- Wherever the code can be made, the scopes afterwards are those before with what the statements
declare. -/
def Declares (layout : Layout ScopeStack) (ss : List Stmt) : Prop :=
  ∀ ⦃s code s'⦄, layout s = .ok (code, s') → s'.unhinted = s.unhinted.declareAll ss

section

variable {layout layout' : Layout ScopeStack} {ss ss' : List Stmt}

theorem Declares.seq (h : Declares layout ss) (h' : Declares layout' ss') :
    Declares (seq layout layout') (ss ++ ss') := by
  intro s code s' hcode
  obtain ⟨⟨first, t⟩, hfirst, hcode⟩ := bind_eq_ok.mp hcode
  obtain ⟨⟨others, t'⟩, hothers, hcode⟩ := bind_eq_ok.mp hcode
  cases hcode
  rw [h' hothers, h hfirst, ScopeStack.declareAll_append]

/-- The scopes around the innermost one stay as they were. -/
theorem Declares.outer (h : Declares layout ss) {s s' : ScopeStack} {code : List Instruction}
    (hcode : layout s = .ok (code, s')) :
    s'.outer.map Scope.unhinted = s.outer.map Scope.unhinted :=
  congrArg ScopeStack.outer (h hcode)

theorem varDecl_declares (decl : VarDecl) : Declares (varDecl decl) [.varDecl decl] := by
  intro s code s' hcode
  obtain ⟨init, -, hcode⟩ := bind_eq_ok.mp hcode
  obtain ⟨⟨slot, t⟩, hslot, hcode⟩ := bind_eq_ok.mp hcode
  cases hcode
  obtain rfl := ScopeStack.declare_eq_ok (mapError_eq_ok.mp hslot)
  exact congrArg (ScopeStack.mk · _) (Scope.put_unhinted ..)

theorem arrayDecl_declares (name : String) (ty : Ty) (size : Expr) (es : List Expr) :
    Declares (arrayDecl name ty size es) [.arrayDecl name ty size es] := by
  intro s code s' hcode
  obtain ⟨length, hlength, hcode⟩ := bind_eq_ok.mp hcode
  obtain ⟨values, -, hcode⟩ := bind_eq_ok.mp hcode
  obtain ⟨⟨base, t⟩, hbase, hcode⟩ := bind_eq_ok.mp hcode
  cases hcode
  obtain rfl := ScopeStack.declare_eq_ok (mapError_eq_ok.mp hbase)
  obtain ⟨rfl, -⟩ := arrayLength_eq_ok hlength
  exact congrArg (ScopeStack.mk · _) (Scope.put_unhinted ..)

theorem assign_declares (assignment : Assignment) : Declares (assign assignment) [] := by
  intro s code s' hcode
  obtain ⟨value, -, hcode⟩ := bind_eq_ok.mp hcode
  obtain ⟨⟨found, t⟩, hassign, hcode⟩ := bind_eq_ok.mp hcode
  obtain ⟨⟨b, t⟩, hset, heq⟩ := map_eq_ok.mp hassign
  cases heq
  dsimp only at hcode
  split at hcode
  · cases hcode
    exact ScopeStack.setHint_unhinted hset
  · contradiction

/-- Code that leaves the scopes alone. -/
theorem Declares.still (h : ∀ s code s', layout s = .ok (code, s') → s' = s) :
    Declares layout [] := by
  intro s code s' hcode
  rw [h s code s' hcode]
  rfl

theorem arrayAssign_declares (name : String) (index value : Expr) :
    Declares (arrayAssign name index value) [] := by
  refine .still fun s code s' hcode => ?_
  obtain ⟨value, -, hcode⟩ := bind_eq_ok.mp hcode
  obtain ⟨array, -, hcode⟩ := bind_eq_ok.mp hcode
  obtain ⟨slot, -, hcode⟩ := bind_eq_ok.mp hcode
  cases hcode
  rfl

theorem output_declares (e : Expr) (op arrayOp : Opcode) : Declares (output e op arrayOp) [] := by
  refine .still fun s code s' hcode => ?_
  unfold output at hcode
  split at hcode
  · cases hcode
    rfl
  · obtain ⟨value, -, hcode⟩ := bind_eq_ok.mp hcode
    cases hcode
    rfl

theorem operation_declares (es : List Expr) (op : Opcode) : Declares (operation es op) [] := by
  refine .still fun s code s' hcode => ?_
  obtain ⟨values, -, hcode⟩ := bind_eq_ok.mp hcode
  cases hcode
  rfl

theorem optional_declares {part : α → Layout ScopeStack} {made : α → List Stmt}
    (h : ∀ a, Declares (part a) (made a)) (o : Option α) :
    Declares (optional part o) (o.elim [] made) := by
  cases o with
  | some a => exact h a
  | none =>
      refine .still fun s code s' hcode => ?_
      cases hcode
      rfl

/-- What was opened inside is closed. -/
theorem leave_unhinted {s t t' : ScopeStack} {size : Nat}
    (houter : t.outer.map Scope.unhinted = s.enter.outer.map Scope.unhinted)
    (h : Scoping.leave t = .ok (size, t')) : t'.unhinted = s.unhinted := by
  obtain ⟨⟨scope, t''⟩, hleave, heq⟩ := map_eq_ok.mp h
  cases heq
  exact ScopeStack.leave_unhinted houter hleave

theorem nested_declares (h : Declares layout ss) : Declares (nested layout) [] := by
  intro s code s' hcode
  obtain ⟨⟨body, t⟩, hbody, hcode⟩ := bind_eq_ok.mp hcode
  obtain ⟨⟨size, t'⟩, hleave, hcode⟩ := bind_eq_ok.mp hcode
  cases hcode
  exact leave_unhinted (h.outer hbody) hleave

theorem conditional_declares (test : Expr) (h : Declares layout ss) :
    Declares (conditional test layout) [] := by
  intro s code s' hcode
  obtain ⟨testCode, -, hcode⟩ := bind_eq_ok.mp hcode
  obtain ⟨⟨body, t⟩, hbody, hcode⟩ := bind_eq_ok.mp hcode
  obtain ⟨⟨size, t'⟩, hleave, hcode⟩ := bind_eq_ok.mp hcode
  cases hcode
  exact leave_unhinted (h.outer hbody) hleave

theorem alternative_declares (test : Expr) (h : Declares layout ss) (h' : Declares layout' ss') :
    Declares (alternative test layout layout') [] := by
  intro s code s' hcode
  obtain ⟨testCode, -, hcode⟩ := bind_eq_ok.mp hcode
  obtain ⟨⟨body, t⟩, hbody, hcode⟩ := bind_eq_ok.mp hcode
  obtain ⟨⟨otherwise, u⟩, hotherwise, hcode⟩ := bind_eq_ok.mp hcode
  obtain ⟨⟨size, u'⟩, hleave, hcode⟩ := bind_eq_ok.mp hcode
  cases hcode
  -- a fresh scope in place of the innermost one has the same scopes around it
  have hfresh := h'.outer hotherwise
  have hbranch := h.outer hbody
  exact leave_unhinted (hfresh.trans hbranch) hleave

theorem loop_declares (init : Option VarDecl) (test : Expr) (step : Option Assignment)
    (h : Declares layout ss) : Declares (loop init test step layout) [] := by
  intro s code s' hcode
  obtain ⟨⟨initCode, t⟩, hinit, hcode⟩ := bind_eq_ok.mp hcode
  obtain ⟨testCode, -, hcode⟩ := bind_eq_ok.mp hcode
  obtain ⟨⟨body, u⟩, hbody, hcode⟩ := bind_eq_ok.mp hcode
  obtain ⟨⟨stepCode, v⟩, hstep, hcode⟩ := bind_eq_ok.mp hcode
  obtain ⟨⟨size, v'⟩, hleave, hcode⟩ := bind_eq_ok.mp hcode
  cases hcode
  have hstart := (optional_declares varDecl_declares init).outer hinit
  have hturn := (optional_declares assign_declares step).outer hstep
  exact leave_unhinted ((hturn.trans (h.outer hbody)).trans hstart) hleave

end

mutual
/-- A statement that is no declaration leaves the innermost scope as it was, too. -/
theorem stmt_declares : (s : Stmt) → Declares (stmt s) [s]
  | .varDecl decl => by
      rw [stmt]
      exact varDecl_declares decl
  | .arrayDecl name ty size es => by
      rw [stmt]
      exact arrayDecl_declares name ty size es
  | .assign assignment => by
      rw [stmt]
      exact assign_declares assignment
  | .arrayAssign name index value => by
      rw [stmt]
      exact arrayAssign_declares name index value
  | .print value => by
      rw [stmt]
      exact output_declares value .print .printA
  | .delay duration => by
      rw [stmt]
      exact operation_declares [duration] .delay
  | .write x y color => by
      rw [stmt]
      exact operation_declares [x, y, color] .write
  | .writeBox x y width height color => by
      rw [stmt]
      exact operation_declares [x, y, width, height, color] .writeBox
  | .conditional test body none => by
      rw [stmt]
      exact conditional_declares test (stmts_declares body)
  | .conditional test body (some otherwise) => by
      rw [stmt]
      exact alternative_declares test (stmts_declares body) (stmts_declares otherwise)
  | .whileLoop test body => by
      rw [stmt]
      exact loop_declares none test none (stmts_declares body)
  | .forLoop init test step body => by
      rw [stmt]
      exact loop_declares init test step (stmts_declares body)
  | .ret value => by
      rw [stmt]
      exact output_declares value .ret .reta
  | .block body => by
      rw [stmt]
      exact nested_declares (stmts_declares body)
  | .function name params result body => by
      rw [stmt]
      exact fun _ _ _ hcode => nomatch hcode

/-- Statements leave the scopes with what they declare. -/
theorem stmts_declares : (ss : List Stmt) → Declares (stmts ss) ss
  | [] => by
      rw [stmts]
      refine .still fun s code s' hcode => ?_
      cases hcode
      rfl
  | s :: ss => by
      rw [stmts]
      exact (stmt_declares s).seq (stmts_declares ss)
end

end Layout

/-! ## Look-up -/

namespace ScopeStack

variable {s : ScopeStack} {ss : List Stmt} {name : String}

/-- No look-up reads a hint. -/
theorem find_unhinted (s : ScopeStack) (name : String) :
    Scoping.find s.unhinted name = Scoping.find s name := by
  have hscopes : ∀ (scopes : List Scope) (hops : Nat),
      resolveIn name hops (scopes.map Scope.unhinted) =
        (resolveIn name hops scopes).map Binding.unhinted := by
    intro scopes
    induction scopes with
    | nil => exact fun _ => rfl
    | cons scope scopes ih =>
        intro hops
        rw [List.map_cons, resolveIn, resolveIn, Scope.lookup_unhinted]
        cases scope.lookup name with
        | none => exact ih (hops + 1)
        | some b =>
            dsimp only [Option.map_some, Binding.unhinted]
            split <;> rfl
  rw [find_scopeStack, find_scopeStack, resolve, toList_unhinted, hscopes, ← resolve]
  cases s.resolve name with
  | error e => rfl
  | ok b =>
      simp only [Except.map, Binding.unhinted_storage]
      rfl

/-- What a name stands for depends on the innermost scope and on those around it. -/
theorem find_congr {t : ScopeStack} (hinner : s.inner.lookup name = t.inner.lookup name)
    (houter : s.outer = t.outer) : Scoping.find s name = Scoping.find t name := by
  rw [find_scopeStack, find_scopeStack, resolve, resolve, toList, toList, resolveIn, resolveIn,
    hinner, houter]

/-- The innermost scope comes first. -/
theorem find_inner {b : Binding} (hb : s.inner.lookup name = some b) (hdepth : b.depth = 0) :
    Scoping.find s name = .ok (b.entity.storage, 0) := by
  rw [find_scopeStack, resolve, toList, resolveIn, hb]
  simp [hdepth, Except.map]

theorem find_declareAll (hname : name ∉ ss.flatMap Stmt.declared) :
    Scoping.find (s.declareAll ss) name = Scoping.find s name :=
  find_congr (Scope.lookup_declareAll hname) rfl

theorem find_declareAll_last (hname : name ∈ ss.flatMap Stmt.declared) :
    ∃ storage, Scoping.find (s.declareAll ss) name = .ok (storage, 0) ∧
      LastDeclared name s.inner.cursor ss storage := by
  obtain ⟨b, hb, hdepth, hlast⟩ := Scope.lookup_declareAll_last (s := s.inner) hname
  exact ⟨b.entity.storage, find_inner hb hdepth, hlast⟩

end ScopeStack

namespace Generator

variable {ss : List Stmt} {g g' : Generator}

/-- Whatever the state was, statements leave the scopes with what they declare, hints aside. -/
theorem compileStmts_unhinted (hrun : (compileStmts ss).run g = .ok () g') :
    g'.scopes.unhinted = g.scopes.unhinted.declareAll ss := by
  obtain ⟨code, s, hcode, rfl⟩ := compileStmts_run_ok hrun
  exact Layout.stmts_declares ss hcode

/-- After statements, a name that they do not declare stands for what it stood for before, whatever
is declared inside of them; one that they declare stands for what is declared last. -/
theorem compileStmts_find (hrun : (compileStmts ss).run g = .ok () g') (name : String) :
    (name ∉ ss.flatMap Stmt.declared →
        Scoping.find g'.scopes name = Scoping.find g.scopes name) ∧
      (name ∈ ss.flatMap Stmt.declared → ∃ storage,
        Scoping.find g'.scopes name = .ok (storage, 0) ∧
          LastDeclared name g.scopes.inner.cursor ss storage) := by
  rw [← ScopeStack.find_unhinted g'.scopes, ← ScopeStack.find_unhinted g.scopes,
    compileStmts_unhinted hrun]
  exact ⟨ScopeStack.find_declareAll, ScopeStack.find_declareAll_last⟩

/-- Whatever the state was, statements leave the blocks and the open scopes as they were, hints
aside, but for what they declare in the innermost scope: its other names stand for what they stood
for, its cursor grows by the slots that the statements themselves declare, and its mark follows the
cursor. -/
theorem compileStmts_keeps_scopes (hrun : (compileStmts ss).run g = .ok () g') :
    g'.scopes.toList.length = g.scopes.toList.length ∧ g'.block.label = g.block.label ∧
      g'.image.blocks = g.image.blocks ∧ g'.config = g.config ∧
      g'.scopes.outer.map Scope.unhinted = g.scopes.outer.map Scope.unhinted ∧
      (∀ name, name ∉ ss.flatMap Stmt.declared →
        (g'.scopes.inner.lookup name).map Binding.unhinted =
          (g.scopes.inner.lookup name).map Binding.unhinted) ∧
      g'.scopes.inner.cursor = g.scopes.inner.cursor + Stmt.listSlots ss ∧
      (g.scopes.Made → g'.scopes.inner.highWater =
        max g.scopes.inner.highWater g'.scopes.inner.cursor) := by
  have hscopes := compileStmts_unhinted hrun
  have hinner : g'.scopes.inner.unhinted = g.scopes.inner.unhinted.declareAll ss :=
    congrArg (·.inner) hscopes
  have houter : g'.scopes.outer.map Scope.unhinted = g.scopes.outer.map Scope.unhinted :=
    congrArg (·.outer) hscopes
  have hcursor : g'.scopes.inner.cursor = g.scopes.inner.cursor + Stmt.listSlots ss := by
    have hgrown := Scope.declareAll_cursor (s := g.scopes.inner.unhinted) ss
    rwa [← hinner] at hgrown
  have hlength : g'.scopes.toList.length = g.scopes.toList.length := by
    have hcount := congrArg List.length houter
    simpa [ScopeStack.toList] using hcount
  have hlabel : g'.block.label = g.block.label ∧ g'.image.blocks = g.image.blocks ∧
      g'.config = g.config := by
    obtain ⟨code, s, -, rfl⟩ := compileStmts_run_ok hrun
    exact ⟨rfl, rfl, rfl⟩
  refine ⟨hlength, hlabel.1, hlabel.2.1, hlabel.2.2, houter, fun name hname => ?_, hcursor,
    fun hmade => ?_⟩
  · rw [← Scope.lookup_unhinted, hinner, Scope.lookup_declareAll hname, Scope.lookup_unhinted]
  · have hmark := Scope.declareAll_highWater (s := g.scopes.inner.unhinted) hmade.cursor_le ss
    rwa [← hinner] at hmark

end Generator

/-- Statements that declare a name again, and another one inside of a loop. -/
def Demo.redeclaring : List Stmt :=
  [.varDecl ⟨"y", .int, .int 1⟩,
    .whileLoop (.ident "y") [.varDecl ⟨"x", .int, .int 7⟩, .assign ⟨"y", .int 0⟩],
    .arrayDecl "b" .int (.int 2) []]

open Generator in
/-- In the second of two branches, they keep the array that the loop hides, and take more slots than
the first branch did. -/
theorem redeclaring_keeps_scopes :
    ∃ g', (compileStmts Demo.redeclaring).run
        { initial {} with scopes := ScopeStack.after Demo.branches } = .ok () g' ∧
      g'.scopes.toList.length = 2 ∧ g'.block.label = "main" ∧
      (g'.scopes.inner.lookup "x").map Binding.unhinted = some ⟨.array .int 2 1, 0⟩ ∧
      g'.scopes.inner.cursor = 6 ∧ g'.scopes.inner.highWater = 6 := by
  obtain ⟨g', hrun⟩ := run_ok_of_succeeds (x := compileStmts Demo.redeclaring)
    (g := { initial {} with scopes := ScopeStack.after Demo.branches }) (by decide +kernel)
  obtain ⟨hopen, hlabel, -, -, -, hkept, hcursor, hmark⟩ := compileStmts_keeps_scopes hrun
  refine ⟨g', hrun, hopen, hlabel, hkept "x" (by decide), hcursor, ?_⟩
  rw [hmark ⟨_, rfl⟩, hcursor]
  rfl

end PadCompiler
