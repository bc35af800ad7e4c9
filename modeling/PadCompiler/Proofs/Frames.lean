import PadCompiler.Proofs.Layout

/-!
# PadCompiler.Proofs.Frames

The open scopes without what no code depends on.  A `Frame` keeps the places of its
names, the newest first, and the number of slots in use.  How far away a frame is, is its
position in the list, so nothing has to be put further away or brought back.

`Represents` says that a scope stack shows the same frames.  Every operation on scopes
keeps it, and none of them fails but for a name that is not there or a slot number that
is no word:

* `Represents.find` — names are found in the same places;
* `Represents.declare`, `Represents.assign` — declarations and assignments;
* `Represents.enter`, `Represents.leave` — opening and closing a scope.
-/

namespace PadCompiler

/-! ## Frames -/

/-- The places of names, the newest first, and the number of slots in use. -/
structure Frame where
  names : List (String × Storage) := []
  used : Nat := 0

/-- Puts a name on the next `n` free slots. -/
def Frame.add (f : Frame) (name : String) (n : Nat) (storage : Nat → Storage) : Frame where
  names := (name, storage f.used) :: f.names
  used := f.used + n

@[simp] theorem Frame.add_used (f : Frame) (name : String) (n : Nat) (storage : Nat → Storage) :
    (f.add name n storage).used = f.used + n := rfl

/-- What a name stands for in the first of the frames that has it, the first being `hops`
away. -/
def findFrom (name : String) : (hops : Nat) → List Frame → Except CompileError (Storage × Nat)
  | _, [] => .error (.unresolved name)
  | hops, f :: fs =>
    match f.names.lookup name with
    | some storage => .ok (storage, hops)
    | none => findFrom name (hops + 1) fs

/-- What names stand for. -/
def findIn (fs : List Frame) : Lookup :=
  fun name => findFrom name 0 fs

/-- A thing is found in one of the frames. -/
theorem findFrom_eq_ok {name : String} {hops : Nat} {fs : List Frame} {found : Storage × Nat}
    (h : findFrom name hops fs = .ok found) :
    ∃ k f, found.2 = hops + k ∧ fs[k]? = some f ∧ f.names.lookup name = some found.1 := by
  induction fs generalizing hops with
  | nil => simp [findFrom] at h
  | cons f fs ih =>
      rw [findFrom] at h
      cases hname : f.names.lookup name with
      | some storage =>
          rw [hname] at h
          cases h
          exact ⟨0, f, rfl, rfl, hname⟩
      | none =>
          rw [hname] at h
          obtain ⟨k, f', hdepth, hf, hlookup⟩ := ih h
          exact ⟨k + 1, f', by omega, hf, hlookup⟩

/-- Names lie on slots one after the other from slot 0 on, the newest on the last of the `n`
slots.  Arrays are not empty, and functions take no slot. -/
inductive Stacked : List (String × Storage) → (n : Nat) → Prop
  | nil : Stacked [] 0
  | scalar {names n} (name : String) (h : Stacked names n) :
    Stacked ((name, .scalar n) :: names) (n + 1)
  | array {names n length} (name : String) (hlength : 0 < length) (h : Stacked names n) :
    Stacked ((name, .array n length) :: names) (n + length)
  | function {names n} (name label : String) (arity : Nat) (h : Stacked names n) :
    Stacked ((name, .function label arity) :: names) n

/-- Where things end: the first slot after them. -/
def Storage.stop : Storage → Nat
  | .scalar slot => slot + 1
  | .array base length => base + length
  | .function .. => 0

/-- Nothing lies beyond the slots in use. -/
theorem Stacked.stop_le {names : List (String × Storage)} {n : Nat} (h : Stacked names n)
    {name : String} {storage : Storage} (hmem : (name, storage) ∈ names) : storage.stop ≤ n := by
  induction h with
  | nil => contradiction
  | scalar name' h ih =>
      rcases List.mem_cons.mp hmem with heq | hmem
      · cases heq
        exact Nat.le_refl _
      · have hle := ih hmem
        omega
  | array name' hlength h ih =>
      rcases List.mem_cons.mp hmem with heq | hmem
      · cases heq
        exact Nat.le_refl _
      · have hle := ih hmem
        omega
  | function name' label arity h ih =>
      rcases List.mem_cons.mp hmem with heq | hmem
      · cases heq
        exact Nat.zero_le _
      · exact ih hmem

/-- Arrays are not empty. -/
theorem Stacked.length_pos {names : List (String × Storage)} {n : Nat} (h : Stacked names n)
    {name : String} {base length : Nat} (hmem : (name, .array base length) ∈ names) :
    0 < length := by
  induction h with
  | nil => contradiction
  | scalar name' h ih =>
      rcases List.mem_cons.mp hmem with heq | hmem
      · cases heq
      · exact ih hmem
  | array name' hlength h ih =>
      rcases List.mem_cons.mp hmem with heq | hmem
      · cases heq
        exact hlength
      · exact ih hmem
  | function name' label arity h ih =>
      rcases List.mem_cons.mp hmem with heq | hmem
      · cases heq
      · exact ih hmem

/-! ## One scope -/

/-- Changes of bindings that keep the places keep what is looked up. -/
theorem lookup_storage_map {g : String × Binding → String × Binding}
    (hg : ∀ entry, (g entry).1 = entry.1 ∧ (g entry).2.entity.storage = entry.2.entity.storage)
    (l : List (String × Binding)) (name : String) :
    ((l.map g).lookup name).map (·.entity.storage) =
      (l.lookup name).map (·.entity.storage) := by
  induction l with
  | nil => rfl
  | cons entry rest ih =>
      obtain ⟨hkey, hstorage⟩ := hg entry
      rw [List.map_cons, List.lookup_cons, List.lookup_cons, hkey]
      cases name == entry.1 with
      | true => simp [hstorage]
      | false => simpa using ih

theorem lookup_filter_ne {name other : String} (hne : other ≠ name)
    (l : List (String × Binding)) :
    (l.filter (·.1 != name)).lookup other = l.lookup other := by
  induction l with
  | nil => rfl
  | cons entry rest ih =>
      by_cases hkey : entry.1 = name
      · have hother : (other == entry.1) = false := by simp [hkey, hne]
        rw [List.filter_cons_of_neg (by simp [hkey]), ih, List.lookup_cons, hother]
      · rw [List.filter_cons_of_pos (by simp [hkey]), List.lookup_cons, List.lookup_cons, ih]

/-- A new hint keeps the places. -/
theorem withHint_storage (name : String) (hint : Lowered) (entry : String × Binding) :
    let entry' := if entry.1 = name
      then (entry.1, { entry.2 with entity := entry.2.entity.withHint hint }) else entry
    entry'.1 = entry.1 ∧ entry'.2.entity.storage = entry.2.entity.storage := by
  by_cases hname : entry.1 = name
  · obtain ⟨key, entity, depth⟩ := entry
    cases entity <;> simp_all [Entity.withHint, Entity.storage]
  · simp [hname]

theorem Scope.mem_of_lookup {s : Scope} {name : String} {b : Binding}
    (hb : s.lookup name = some b) : (name, b) ∈ s.bindings := by
  obtain ⟨before, after, hbindings, -⟩ := List.lookup_eq_some_iff.mp hb
  simp [hbindings]

/-- A name stands for what it was bound to last. -/
theorem Scope.lookup_insert (s : Scope) (name other : String) (b : Binding) :
    (s.insert name b).lookup other = if other = name then some b else s.lookup other := by
  rw [insert, lookup, List.lookup_cons]
  by_cases hother : other = name
  · simp [hother]
  · rw [beq_false_of_ne hother, if_neg hother]
    exact lookup_filter_ne hother s.bindings

/-- A name that is bound as far away as the others. -/
theorem Scope.depth_insert {s : Scope} {k : Nat} (h : ∀ entry ∈ s.bindings, entry.2.depth = k)
    (name : String) (entity : Entity) :
    ∀ entry ∈ (s.insert name ⟨entity, k⟩).bindings, entry.2.depth = k := by
  intro entry hentry
  rcases List.mem_cons.mp hentry with rfl | hentry
  · rfl
  · exact h entry (List.mem_filter.mp hentry).1

/-- Bindings that are all `k + 1` frames away come to be `k` frames away. -/
theorem Scope.lift_eq {s : Scope} {k : Nat} (h : ∀ entry ∈ s.bindings, entry.2.depth = k + 1) :
    s.lift = .ok { s with bindings := s.bindings.map fun entry =>
      (entry.1, { entry.2 with depth := k }) } := by
  let nearer (entry : String × Binding) : String × Binding :=
    (entry.1, { entry.2 with depth := k })
  have hbindings : ∀ l : List (String × Binding), (∀ entry ∈ l, entry.2.depth = k + 1) →
      l.mapM Scope.liftBinding = Except.ok (l.map nearer) := by
    intro l hl
    induction l with
    | nil => rfl
    | cons entry rest ih =>
        have hentry : Scope.liftBinding entry = .ok (nearer entry) := by
          rw [Scope.liftBinding, hl entry (by simp)]
        rw [List.mapM_cons, hentry, ih fun e he => hl e (by simp [he])]
        rfl
  rw [lift, hbindings s.bindings h]
  rfl

/-- A scope `depth` frames away shows a frame. -/
structure Scope.Shows (depth : Nat) (s : Scope) (f : Frame) : Prop where
  depth : ∀ entry ∈ s.bindings, entry.2.depth = depth
  names : ∀ name, (s.lookup name).map (·.entity.storage) = f.names.lookup name
  cursor : s.cursor = f.used
  highWater : s.highWater = f.used

namespace Scope.Shows

variable {k : Nat} {s : Scope} {f : Frame}

theorem empty : Scope.Shows 0 {} {} :=
  ⟨by simp, by simp [Scope.lookup], rfl, rfl⟩

/-- What is found in a scope has the depth of the scope. -/
theorem lookup_depth (h : Scope.Shows k s f) {name : String} {b : Binding}
    (hb : s.lookup name = some b) : b.depth = k :=
  h.depth (name, b) (Scope.mem_of_lookup hb)

/-- Changes of bindings that keep the places and put all of them `k'` frames away. -/
theorem map {k' : Nat} (h : Scope.Shows k s f) {g : String × Binding → String × Binding}
    (hg : ∀ entry, (g entry).1 = entry.1 ∧ (g entry).2.entity.storage = entry.2.entity.storage)
    (hdepth : ∀ entry, entry.2.depth = k → (g entry).2.depth = k') :
    Scope.Shows k' { s with bindings := s.bindings.map g } f where
  depth := by
    intro entry hentry
    obtain ⟨entry', hmem, rfl⟩ := List.mem_map.mp hentry
    exact hdepth entry' (h.depth entry' hmem)
  names name := by
    rw [← h.names name]
    exact lookup_storage_map hg s.bindings name
  cursor := h.cursor
  highWater := h.highWater

theorem deepen (h : Scope.Shows k s f) : Scope.Shows (k + 1) s.deepen f :=
  h.map (fun _ => ⟨rfl, rfl⟩) fun _ hdepth => by simp [hdepth]

theorem modify (h : Scope.Shows k s f) (name : String) (hint : Lowered) :
    Scope.Shows k
      (s.modify name fun b => { b with entity := b.entity.withHint hint }) f := by
  refine h.map (withHint_storage name hint) fun entry hdepth => ?_
  by_cases hname : entry.1 = name <;> simp [hname, hdepth]

/-- A scope whose bindings are at least one frame away can be brought nearer. -/
theorem lift (h : Scope.Shows (k + 1) s f) :
    ∃ s', s.lift = .ok s' ∧ Scope.Shows k s' f :=
  ⟨_, Scope.lift_eq h.depth, h.map (fun _ => ⟨rfl, rfl⟩) fun _ _ => rfl⟩

/-- Putting a name on the next `n` slots. -/
theorem insert (h : Scope.Shows 0 s f) (name : String) (n : Nat) (entity : Nat → Entity) :
    Scope.Shows 0
      (Scope.insert { s with cursor := f.used + n, highWater := f.used + n } name
        ⟨entity f.used, 0⟩)
      (f.add name n fun slot => (entity slot).storage) where
  depth := Scope.depth_insert h.depth name _
  names := by
    intro other
    rw [Scope.lookup_insert, Frame.add, List.lookup_cons]
    by_cases hother : other = name
    · simp [hother]
    · have hne : (other == name) = false := by simp [hother]
      rw [if_neg hother, hne, ← h.names other]
      rfl
  cursor := rfl
  highWater := rfl

/-- Slots are handed out one after the other. -/
theorem take (h : Scope.Shows 0 s f) {n : Nat} (hn : f.used + n < wordLimit) :
    s.take n = .ok (f.used, { s with cursor := f.used + n, highWater := f.used + n }) := by
  have hmax : Nat.max f.used (f.used + n) = f.used + n :=
    Nat.max_eq_right (Nat.le_add_right _ _)
  rw [Scope.take, h.cursor, h.highWater, if_pos hn, hmax]

end Scope.Shows

/-! ## Lists of scopes -/

/-- Steps that can be done before or after a change are done so on a whole list. -/
theorem mapM_map_comm {f : α → Except ε α} {change : α → α}
    (h : ∀ a, f (change a) = (f a).map change) (l : List α) :
    (l.map change).mapM f = (l.mapM f).map (List.map change) := by
  induction l with
  | nil => rfl
  | cons a l ih =>
      rw [List.map_cons, List.mapM_cons, List.mapM_cons, h a, ih]
      cases f a with
      | error e => rfl
      | ok b => cases l.mapM f <;> rfl

/-- Scopes show frames one by one, the first of them `k` frames away. -/
inductive ShowsFrom : Nat → List Scope → List Frame → Prop
  | nil (k : Nat) : ShowsFrom k [] []
  | cons {k s f ss fs} (hhead : Scope.Shows k s f) (htail : ShowsFrom (k + 1) ss fs) :
    ShowsFrom k (s :: ss) (f :: fs)

namespace ShowsFrom

variable {k : Nat} {ss : List Scope} {fs : List Frame}

theorem deepen (h : ShowsFrom k ss fs) : ShowsFrom (k + 1) (ss.map Scope.deepen) fs := by
  induction h with
  | nil k => exact .nil (k + 1)
  | cons hhead htail ih => exact .cons hhead.deepen ih

theorem lift {ss : List Scope} {fs : List Frame} (h : ShowsFrom (k + 1) ss fs) :
    ∃ ss', ss.mapM Scope.lift = .ok ss' ∧ ShowsFrom k ss' fs := by
  induction ss generalizing k fs with
  | nil =>
      cases h
      exact ⟨[], rfl, .nil k⟩
  | cons s ss ih =>
      cases h with
      | cons hhead htail =>
          obtain ⟨s', hs, hshows⟩ := hhead.lift
          obtain ⟨ss', hss, hrest⟩ := ih htail
          exact ⟨s' :: ss', by rw [List.mapM_cons, hs, hss]; rfl, .cons hshows hrest⟩

/-- Names are found in the same places, and the stored depths are right. -/
theorem resolveIn (h : ShowsFrom k ss fs) (name : String) :
    (ScopeStack.resolveIn name k ss).map (fun b => (b.entity.storage, b.depth)) =
      findFrom name k fs := by
  induction h with
  | nil k => rfl
  | @cons k s f ss fs hhead htail ih =>
      rw [ScopeStack.resolveIn, findFrom, ← hhead.names name]
      cases hname : s.lookup name with
      | none => simpa using ih
      | some b =>
          have hdepth := hhead.lookup_depth hname
          simp [hdepth, Except.map]

/-- A new hint keeps the places; it is recorded where the name is found. -/
theorem modifyIn (h : ShowsFrom k ss fs) (name : String) (hint : Lowered) :
    let update (b : Binding) : Binding := { b with entity := b.entity.withHint hint }
    ScopeStack.modifyIn name update ss = none ∧
        findFrom name k fs = .error (.unresolved name) ∨
      ∃ b ss', ScopeStack.modifyIn name update ss = some (b, ss') ∧
        findFrom name k fs = .ok (b.entity.storage, b.depth) ∧ ShowsFrom k ss' fs := by
  intro update
  induction h with
  | nil k => exact .inl ⟨rfl, rfl⟩
  | @cons k s f ss fs hhead htail ih =>
      rw [ScopeStack.modifyIn, findFrom, ← hhead.names name]
      cases hname : s.lookup name with
      | some b =>
          have hdepth := hhead.lookup_depth hname
          refine .inr ⟨update b, _, rfl, ?_, .cons (hhead.modify name hint) htail⟩
          obtain ⟨entity, depth⟩ := b
          subst hdepth
          cases entity <;> rfl
      | none =>
          rcases ih with ⟨hnone, hfind⟩ | ⟨b, ss', hsome, hfind, hshows⟩
          · exact .inl ⟨by rw [hnone]; rfl, hfind⟩
          · exact .inr ⟨b, s :: ss', by rw [hsome]; rfl, hfind, .cons hhead hshows⟩

end ShowsFrom

/-! ## The open scopes -/

/-- The open scopes show these frames, from the inside out. -/
def Represents (s : ScopeStack) (fs : List Frame) : Prop :=
  ShowsFrom 0 s.toList fs

namespace Represents

variable {s : ScopeStack} {f : Frame} {fs : List Frame}

/-- At the start there is the top-level scope. -/
theorem initial : Represents {} [{}] :=
  .cons Scope.Shows.empty (.nil 1)

theorem find (h : Represents s fs) : Scoping.find s = findIn fs := by
  funext name
  exact ShowsFrom.resolveIn h name

theorem enter (h : Represents s fs) : Represents (Scoping.enter s) ({} :: fs) :=
  .cons Scope.Shows.empty h.deepen

/-- A scope inside another one can be closed. -/
theorem leave {g : Frame} (h : Represents s (f :: g :: fs)) :
    ∃ s', Scoping.leave s = .ok (f.used, s') ∧ Represents s' (g :: fs) := by
  obtain ⟨inner, outer⟩ := s
  cases h with
  | cons hinner houter =>
      obtain ⟨scopes, hlift, hshows⟩ := houter.lift
      cases houter with
      | @cons k parent g rest fs hparent hrest =>
          obtain ⟨parent', hparent', hshowsParent⟩ := hparent.lift
          obtain ⟨rest', hrest', hshowsRest⟩ := hrest.lift
          refine ⟨⟨parent', rest'⟩, ?_, .cons hshowsParent hshowsRest⟩
          rw [← hinner.highWater]
          simp [Scoping.leave, ScopeStack.leave, hparent', hrest', Except.map, Scope.slots, pure,
            Except.pure]

theorem fresh (h : Represents s (f :: fs)) : Represents (Scoping.fresh s) ({} :: fs) := by
  cases h with
  | cons hinner houter => exact .cons Scope.Shows.empty houter

theorem size (h : Represents s (f :: fs)) : Scoping.size s = f.used := by
  cases h with
  | cons hinner houter => exact hinner.highWater

/-- A declaration takes the next free slots, as long as slot numbers are words. -/
theorem declare (h : Represents s (f :: fs)) (name : String) (n : Nat) (entity : Nat → Entity) :
    (∃ s', s.declare name n entity = .ok (f.used, s') ∧
        Represents s' (f.add name n (fun slot => (entity slot).storage) :: fs)) ∨
      s.declare name n entity = .error .addOverflow ∧ wordLimit ≤ f.used + n := by
  cases h with
  | cons hinner houter =>
      by_cases hfits : f.used + n < wordLimit
      · refine .inl ⟨⟨_, s.outer⟩, ?_, .cons (hinner.insert name n entity) houter⟩
        rw [ScopeStack.declare, hinner.take hfits]
        rfl
      · refine .inr ⟨?_, by omega⟩
        rw [ScopeStack.declare, Scope.take, hinner.cursor, if_neg hfits]
        rfl

/-- A function takes no slots. -/
theorem function (h : Represents s (f :: fs)) (name : String) (signature : Signature) :
    Represents (s.declareFunction name signature).2
      (f.add name 0 (fun _ => .function signature.label signature.params.length) :: fs) := by
  cases h with
  | cons hinner houter =>
      have hinsert := hinner.insert name 0 fun _ => .function signature
      rw [Nat.add_zero] at hinsert
      have hsame : Scope.mk s.inner.bindings f.used f.used = s.inner :=
        congr (congrArg _ hinner.cursor.symm) hinner.highWater.symm
      rw [hsame] at hinsert
      exact .cons hinsert houter

theorem scalar (h : Represents s (f :: fs)) (name : String) (ty : Ty) (hint : Lowered) :
    (∃ s', Scoping.scalar s name ty hint = .ok (f.used, s') ∧
        Represents s' (f.add name 1 .scalar :: fs)) ∨
      Scoping.scalar s name ty hint = .error (.fault .addOverflow) ∧
        wordLimit ≤ f.used + 1 := by
  rcases h.declare name 1 fun slot => .scalar ty slot hint with
    ⟨s', hdeclare, hshows⟩ | ⟨hdeclare, hlong⟩
  · exact .inl ⟨s', by simp [Scoping.scalar, ScopeStack.declareScalar, hdeclare],
      hshows⟩
  · exact .inr ⟨by simp [Scoping.scalar, ScopeStack.declareScalar, hdeclare],
      hlong⟩

theorem array (h : Represents s (f :: fs)) (name : String) (ty : Ty) (length : Nat) :
    (∃ s', Scoping.array s name ty length = .ok (f.used, s') ∧
        Represents s' (f.add name length (.array · length) :: fs)) ∨
      Scoping.array s name ty length = .error (.fault .addOverflow) ∧
        wordLimit ≤ f.used + length := by
  rcases h.declare name length fun base => .array ty base length with
    ⟨s', hdeclare, hshows⟩ | ⟨hdeclare, hlong⟩
  · exact .inl ⟨s', by simp [Scoping.array, ScopeStack.declareArray, hdeclare],
      hshows⟩
  · exact .inr ⟨by simp [Scoping.array, ScopeStack.declareArray, hdeclare],
      hlong⟩

theorem assign (h : Represents s fs) (name : String) (hint : Lowered) :
    ∃ s', Represents s' fs ∧
      Scoping.assign s name hint = (findIn fs name).map fun found => (found, s') := by
  rcases ShowsFrom.modifyIn h name hint with ⟨hnone, hfind⟩ | ⟨b, ss', hsome, hfind, hshows⟩
  · refine ⟨s, h, ?_⟩
    rw [findIn, hfind, Scoping.assign, instScopingScopeStack]
    simp only [ScopeStack.setHint, hnone]
    rfl
  · cases hshows with
    | nil => cases h
    | cons hinner houter =>
        refine ⟨⟨_, _⟩, .cons hinner houter, ?_⟩
        rw [findIn, hfind, Scoping.assign, instScopingScopeStack]
        simp only [ScopeStack.setHint, hsome]
        rfl

end Represents

end PadCompiler
