import PadCompiler.Proofs.Acceptance
import PadCompiler.Proofs.Parallel

/-!
# PadCompiler.Proofs.Separate

The block of a function depends on its declaration, on the configuration and on the numbers of
parameters of the functions, and on nothing else in the program.  The same is true of the
statements.

Scopes that have the same names in the same places are `Alike`, and no step of the generator tells
them apart (`alike_congruence`).  Between two functions only the top-level scope is open, with the
functions as its names, so that every function starts from scopes that are alike wherever it stands:

* `compileFunctions_cases` — each function adds the same to the image, whatever was made before;
* `compile_separately` — the blocks of programs with the same signatures.
-/

namespace PadCompiler

/-! ## One scope -/

/-- Two scopes, `depth` frames away, with the same names in the same places and the same use of
slots. -/
structure Scope.Alike (depth : Nat) (s t : Scope) : Prop where
  left : ∀ entry ∈ s.bindings, entry.2.depth = depth
  right : ∀ entry ∈ t.bindings, entry.2.depth = depth
  names : ∀ name,
    (s.lookup name).map (·.entity.storage) = (t.lookup name).map (·.entity.storage)
  cursor : s.cursor = t.cursor
  highWater : s.highWater = t.highWater

namespace Scope.Alike

variable {k : Nat} {s t : Scope}

theorem empty (k highWater : Nat) : Scope.Alike k ⟨[], 0, highWater⟩ ⟨[], 0, highWater⟩ :=
  ⟨by simp, by simp, fun _ => rfl, rfl, rfl⟩

/-- A name stands for something in both scopes or in none. -/
theorem lookup (h : Scope.Alike k s t) (name : String) :
    s.lookup name = none ∧ t.lookup name = none ∨
      ∃ b c, s.lookup name = some b ∧ t.lookup name = some c ∧
        b.entity.storage = c.entity.storage ∧ b.depth = k ∧ c.depth = k := by
  have hnames := h.names name
  cases hs : s.lookup name with
  | none =>
      rw [hs, Option.map_none] at hnames
      exact .inl ⟨rfl, Option.map_eq_none_iff.mp hnames.symm⟩
  | some b =>
      rw [hs, Option.map_some] at hnames
      obtain ⟨c, ht, hstorage⟩ := Option.map_eq_some_iff.mp hnames.symm
      exact .inr ⟨b, c, rfl, ht, hstorage.symm, h.left _ (mem_of_lookup hs),
        h.right _ (mem_of_lookup ht)⟩

/-- Changes of bindings that keep the places and put all of them `k'` frames away. -/
theorem map {k' : Nat} (h : Scope.Alike k s t) {g : String × Binding → String × Binding}
    (hg : ∀ entry, (g entry).1 = entry.1 ∧ (g entry).2.entity.storage = entry.2.entity.storage)
    (hdepth : ∀ entry, entry.2.depth = k → (g entry).2.depth = k') :
    Scope.Alike k' { s with bindings := s.bindings.map g }
      { t with bindings := t.bindings.map g } where
  left := List.forall_mem_map.mpr fun entry hentry => hdepth entry (h.left entry hentry)
  right := List.forall_mem_map.mpr fun entry hentry => hdepth entry (h.right entry hentry)
  names name := by
    have hnames := h.names name
    rw [Scope.lookup, Scope.lookup] at hnames ⊢
    rw [lookup_storage_map hg, lookup_storage_map hg, hnames]
  cursor := h.cursor
  highWater := h.highWater

theorem deepen (h : Scope.Alike k s t) : Scope.Alike (k + 1) s.deepen t.deepen :=
  h.map (fun _ => ⟨rfl, rfl⟩) fun _ hdepth => by simp [hdepth]

theorem modify (h : Scope.Alike k s t) (name : String) (hint : Lowered) :
    let update (b : Binding) : Binding := { b with entity := b.entity.withHint hint }
    Scope.Alike k (s.modify name update) (t.modify name update) := by
  refine h.map (withHint_storage name hint) fun entry hdepth => ?_
  by_cases hname : entry.1 = name <;> simp [hname, hdepth]

theorem lift (h : Scope.Alike (k + 1) s t) :
    ∃ s' t', s.lift = .ok s' ∧ t.lift = .ok t' ∧ Scope.Alike k s' t' :=
  ⟨_, _, lift_eq h.left, lift_eq h.right, h.map (fun _ => ⟨rfl, rfl⟩) fun _ _ => rfl⟩

/-- The same name bound to the same place. -/
theorem insert (h : Scope.Alike k s t) (name : String) (entity : Entity) :
    Scope.Alike k (s.insert name ⟨entity, k⟩) (t.insert name ⟨entity, k⟩) where
  left := depth_insert h.left name entity
  right := depth_insert h.right name entity
  names := by
    intro other
    rw [lookup_insert, lookup_insert]
    by_cases hother : other = name
    · rw [if_pos hother, if_pos hother]
    · rw [if_neg hother, if_neg hother, h.names other]
  cursor := h.cursor
  highWater := h.highWater

/-- The same slots are handed out. -/
theorem take (h : Scope.Alike k s t) (n : Nat) :
    (∃ s' t', s.take n = .ok (s.cursor, s') ∧ t.take n = .ok (s.cursor, t') ∧
        Scope.Alike k s' t') ∨
      s.take n = .error .addOverflow ∧ t.take n = .error .addOverflow := by
  rw [Scope.take, Scope.take, ← h.cursor, ← h.highWater]
  by_cases hfits : s.cursor + n < wordLimit
  · rw [if_pos hfits, if_pos hfits]
    exact .inl ⟨_, _, rfl, rfl, h.left, h.right, h.names, rfl, rfl⟩
  · rw [if_neg hfits, if_neg hfits]
    exact .inr ⟨rfl, rfl⟩

end Scope.Alike

/-! ## Lists of scopes -/

/-- Scopes that are alike one by one, the first of them `k` frames away. -/
inductive AlikeFrom : Nat → List Scope → List Scope → Prop
  | nil (k : Nat) : AlikeFrom k [] []
  | cons {k s t ss ts} (hhead : Scope.Alike k s t) (htail : AlikeFrom (k + 1) ss ts) :
    AlikeFrom k (s :: ss) (t :: ts)

namespace AlikeFrom

variable {k : Nat} {ss ts : List Scope}

theorem deepen (h : AlikeFrom k ss ts) :
    AlikeFrom (k + 1) (ss.map Scope.deepen) (ts.map Scope.deepen) := by
  induction h with
  | nil k => exact .nil (k + 1)
  | cons hhead htail ih => exact .cons hhead.deepen ih

theorem lift (h : AlikeFrom (k + 1) ss ts) :
    ∃ ss' ts', ss.mapM Scope.lift = .ok ss' ∧ ts.mapM Scope.lift = .ok ts' ∧
      AlikeFrom k ss' ts' := by
  induction ss generalizing k ts with
  | nil =>
      cases h
      exact ⟨[], [], rfl, rfl, .nil k⟩
  | cons s ss ih =>
      cases h with
      | cons hhead htail =>
          obtain ⟨s', t', hs, ht, halike⟩ := hhead.lift
          obtain ⟨ss', ts', hss, hts, hrest⟩ := ih htail
          refine ⟨s' :: ss', t' :: ts', ?_, ?_, .cons halike hrest⟩
          · rw [List.mapM_cons, hs, hss]
            rfl
          · rw [List.mapM_cons, ht, hts]
            rfl

/-- Names are found in the same places. -/
theorem resolveIn (h : AlikeFrom k ss ts) (name : String) :
    (ScopeStack.resolveIn name k ss).map (fun b => (b.entity.storage, b.depth)) =
      (ScopeStack.resolveIn name k ts).map (fun b => (b.entity.storage, b.depth)) := by
  induction h with
  | nil k => rfl
  | cons hhead htail ih =>
      rw [ScopeStack.resolveIn, ScopeStack.resolveIn]
      rcases hhead.lookup name with ⟨hs, ht⟩ | ⟨b, c, hs, ht, hstorage, hb, hc⟩
      · rw [hs, ht]
        exact ih
      · simp [hs, ht, hb, hc, hstorage, Except.map]

/-- A new hint is recorded on both sides or on none. -/
theorem modifyIn (h : AlikeFrom k ss ts) (name : String) (hint : Lowered) :
    let update (b : Binding) : Binding := { b with entity := b.entity.withHint hint }
    ScopeStack.modifyIn name update ss = none ∧ ScopeStack.modifyIn name update ts = none ∨
      ∃ b c ss' ts', ScopeStack.modifyIn name update ss = some (b, ss') ∧
        ScopeStack.modifyIn name update ts = some (c, ts') ∧
        b.entity.storage = c.entity.storage ∧ b.depth = c.depth ∧ AlikeFrom k ss' ts' := by
  intro update
  have hupdate (b : Binding) : (update b).entity.storage = b.entity.storage := by
    obtain ⟨entity, depth⟩ := b
    cases entity <;> rfl
  induction h with
  | nil k => exact .inl ⟨rfl, rfl⟩
  | @cons k s t ss ts hhead htail ih =>
      rw [ScopeStack.modifyIn, ScopeStack.modifyIn]
      rcases hhead.lookup name with ⟨hs, ht⟩ | ⟨b, c, hs, ht, hstorage, hb, hc⟩
      · rw [hs, ht]
        rcases ih with ⟨hss, hts⟩ | ⟨b, c, ss', ts', hss, hts, hstorage, hdepth, hrest⟩
        · exact .inl ⟨by rw [hss]; rfl, by rw [hts]; rfl⟩
        · exact .inr ⟨b, c, s :: ss', t :: ts', by rw [hss]; rfl, by rw [hts]; rfl, hstorage,
            hdepth, .cons hhead hrest⟩
      · rw [hs, ht]
        exact .inr ⟨update b, update c, _, _, rfl, rfl, by rw [hupdate, hupdate, hstorage],
          hb.trans hc.symm, .cons (hhead.modify name hint) htail⟩

end AlikeFrom

/-! ## The open scopes -/

/-- The open scopes are alike, from the inside out. -/
def ScopeStack.Alike (s t : ScopeStack) : Prop :=
  AlikeFrom 0 s.toList t.toList

namespace ScopeStack.Alike

variable {s t : ScopeStack}

theorem declare (h : s.Alike t) (name : String) (n : Nat) (entity : Nat → Entity) :
    Agree ScopeStack.Alike ((s.declare name n entity).mapError .fault)
      ((t.declare name n entity).mapError .fault) := by
  cases h with
  | cons hinner houter =>
      rw [ScopeStack.declare, ScopeStack.declare]
      rcases hinner.take n with ⟨inner, inner', hs, ht, halike⟩ | ⟨hs, ht⟩
      · rw [hs, ht]
        exact .ok s.inner.cursor (.cons (halike.insert name _) houter)
      · rw [hs, ht]
        exact .error _

theorem assign (h : s.Alike t) (name : String) (hint : Lowered) :
    Agree ScopeStack.Alike (Scoping.assign s name hint) (Scoping.assign t name hint) := by
  simp only [Scoping.assign, setHint]
  rcases AlikeFrom.modifyIn h name hint with
    ⟨hs, ht⟩ | ⟨b, c, ss, ts, hs, ht, hstorage, hdepth, halike⟩
  · rw [hs, ht]
    exact .error _
  · rw [hs, ht]
    cases halike with
    | nil => exact .error _
    | cons hinner houter =>
        have hfound : (b.entity.storage, b.depth) = (c.entity.storage, c.depth) := by
          rw [hstorage, hdepth]
        simp only [Except.map, hfound]
        exact .ok _ (.cons hinner houter)

theorem leave (h : s.Alike t) :
    Agree ScopeStack.Alike (Scoping.leave s) (Scoping.leave t) := by
  obtain ⟨inner, outer⟩ := s
  obtain ⟨inner', outer'⟩ := t
  cases h with
  | cons hinner houter =>
      cases houter with
      | nil => exact .error _
      | cons hparent hrest =>
          obtain ⟨parent, parent', hp, hp', hparent⟩ := hparent.lift
          obtain ⟨rest, rest', hr, hr', hrest⟩ := hrest.lift
          have hslots : inner.slots = inner'.slots := hinner.highWater
          simp only [Scoping.leave, ScopeStack.leave, hp, hp', hr, hr', mapError_ok, ok_bind]
          simp only [pure, Except.pure, Except.map, hslots]
          exact .ok _ (.cons hparent hrest)

end ScopeStack.Alike

/-- No operation tells scopes apart that are alike. -/
theorem alike_congruence : Congruence ScopeStack.Alike where
  find {k s t} h := funext (AlikeFrom.resolveIn h)
  scalar {k s t} name ty hint h := h.declare name 1 fun slot => .scalar ty slot hint
  array {k s t} name ty length h := h.declare name length fun base => .array ty base length
  assign {k s t} name hint h := h.assign name hint
  enter {k s t} h := .cons (.empty 0 0) (AlikeFrom.deepen h)
  leave {k s t} h := h.leave
  fresh {k s t} h := by
    cases h with
    | cons hinner houter => exact .cons (.empty 0 0) houter
  size {k s t} h := by
    cases h with
    | cons hinner houter => exact hinner.highWater
  rewind {s t} h := by
    cases h with
    | cons hinner houter =>
        have hempty := Scope.Alike.empty 0 s.inner.highWater
        exact .cons ⟨hempty.left, hempty.right, hempty.names, rfl, hinner.highWater⟩ houter

/-! ## Signatures -/

/-- The number of parameters of the function with this name; the last declaration of the name
decides. -/
def Program.arity? (p : Program) (name : String) : Option Nat :=
  (p.functions.reverse.find? (·.name == name)).map (·.params.length)

theorem Frame.addFunctions_names (f : Frame) (ds : List FunctionDecl) :
    (f.addFunctions ds).names = (ds.reverse.map fun d =>
      (d.name, .function (Text.lower d.name) d.params.length)) ++ f.names := by
  induction ds generalizing f with
  | nil => rfl
  | cons d ds ih =>
      rw [addFunctions, ih, List.reverse_cons, List.map_append, List.append_assoc]
      rfl

/-- The top-level names are the functions. -/
theorem Program.topFrame_lookup (p : Program) (name : String) :
    p.topFrame.names.lookup name = (p.arity? name).map (.function (Text.lower name)) := by
  rw [topFrame, Frame.addFunctions_names, arity?]
  generalize p.functions.reverse = ds
  induction ds with
  | nil => rfl
  | cons d ds ih =>
      rw [List.map_cons, List.cons_append, List.lookup_cons, List.find?_cons]
      by_cases hname : d.name = name
      · simp [hname]
      · have hne : (name == d.name) = false := by simp [Ne.symm hname]
        rw [hne, beq_false_of_ne hname]
        exact ih

/-- Functions with distinct names are found in any order. -/
theorem find?_of_nodup {ds : List FunctionDecl} (hdistinct : (ds.map (·.name)).Nodup)
    {d : FunctionDecl} (hd : d ∈ ds) : ds.find? (·.name == d.name) = some d := by
  induction ds with
  | nil => contradiction
  | cons d' ds ih =>
      rw [List.map_cons, List.nodup_cons] at hdistinct
      rw [List.find?_cons]
      rcases List.mem_cons.mp hd with rfl | hd
      · simp
      · have hne : d'.name ≠ d.name := fun heq =>
          hdistinct.1 (heq ▸ List.mem_map_of_mem hd)
        rw [beq_false_of_ne hne]
        exact ih hdistinct.2 hd

theorem Program.arity?_eq_of_perm {p q : Program} (hperm : q.functions.Perm p.functions)
    (hdistinct : (p.functions.map (·.name)).Nodup) : q.arity? = p.arity? := by
  funext name
  have hp : (p.functions.reverse.map (·.name)).Nodup :=
    ((List.reverse_perm p.functions).map _).nodup_iff.mpr hdistinct
  have hperm' : q.functions.reverse.Perm p.functions.reverse :=
    (List.reverse_perm _).trans (hperm.trans (List.reverse_perm _).symm)
  have hq : (q.functions.reverse.map (·.name)).Nodup := (hperm'.map _).nodup_iff.mpr hp
  rw [arity?, arity?]
  by_cases hknown : ∃ d ∈ p.functions.reverse, d.name = name
  · obtain ⟨d, hd, rfl⟩ := hknown
    rw [find?_of_nodup hp hd, find?_of_nodup hq (hperm'.mem_iff.mpr hd)]
  · have hnone (ds : List FunctionDecl) (hds : ∀ d ∈ ds, d ∈ p.functions.reverse) :
        ds.find? (·.name == name) = none :=
      List.find?_eq_none.mpr fun d hd hname => hknown ⟨d, hds d hd, by simpa using hname⟩
    rw [hnone _ fun _ hd => hperm'.mem_iff.mp hd, hnone _ fun _ hd => hd]

namespace Generator

/-! ## Between two blocks -/

/-- Only the top-level scope is open, and its names are functions with these numbers of
parameters. -/
structure Ready (config : Config) (arity : String → Option Nat) (g : Generator) : Prop where
  config : g.config = config
  scopes : ∃ top : Frame, Represents g.scopes [top] ∧ top.used = 0 ∧
    ∀ name, top.names.lookup name = (arity name).map (.function (Text.lower name))

variable {config : Config} {arity : String → Option Nat} {g h : Generator}

/-- Nothing has been made yet. -/
structure Fresh (config : Config) (arity : String → Option Nat) (g : Generator) : Prop extends
    Ready config arity g where
  image : g.image = .none

/-- States between two blocks are alike. -/
theorem Ready.alike (hg : Ready config arity g) (hh : Ready config arity h) :
    g.scopes.Alike h.scopes := by
  obtain ⟨top, hs, hused, hnames⟩ := hg.scopes
  obtain ⟨top', ht, hused', hnames'⟩ := hh.scopes
  unfold Represents at hs ht
  unfold ScopeStack.Alike
  generalize g.scopes.toList = ss at hs
  generalize h.scopes.toList = ts at ht
  cases hs with
  | cons hs hnil =>
      cases hnil
      cases ht with
      | cons ht hnil =>
          cases hnil
          refine .cons ⟨hs.depth, ht.depth, fun name => ?_, ?_, ?_⟩ (.nil 1)
          · rw [hs.names, ht.names, hnames, hnames']
          · rw [hs.cursor, ht.cursor, hused, hused']
          · rw [hs.highWater, ht.highWater, hused, hused']

/-- Where a program's functions are known, its code can be made. -/
theorem ready_of_registered {p : Program}
    (hrun : (p.functions.forM registerFunction).run (.initial config) = .ok () g) :
    Ready config p.arity? g ∧ g.image.blocks = [] := by
  have hruns : Runs (p.functions.forM registerFunction) (.initial config) (fun _ => True) _ :=
    registerFunctions_runs p.functions Represents.initial
  rw [Runs, hrun] at hruns
  obtain ⟨hconfig, hs, hblocks⟩ := hruns
  exact ⟨⟨hconfig, p.topFrame, hs, p.topFrame_used, p.topFrame_lookup⟩, hblocks⟩

/-- Functions with names that are new are made known without a warning. -/
theorem registerFunctions_free (ds : List FunctionDecl) {f : Frame}
    (hs : Represents g.scopes [f]) (hfree : f.Free ds) :
    ∃ s, (ds.forM registerFunction).run g = .ok () { g with scopes := s } := by
  induction ds generalizing g f with
  | nil => exact ⟨g.scopes, rfl⟩
  | cons d ds ih =>
      obtain ⟨hnew, hrest⟩ := Frame.free_cons.mp hfree
      let signature : Signature := ⟨Text.lower d.name, d.params, d.result⟩
      let known : Generator := { g with scopes := (g.scopes.declareFunction d.name signature).2 }
      have hknown : Represents known.scopes [f.addFunctions [d]] := hs.function d.name signature
      have hnone : (g.scopes.declareFunction d.name signature).1 = none := by
        cases hs with
        | cons hinner houter =>
            rw [← hinner.names, Option.map_eq_none_iff] at hnew
            exact hnew
      have hrun : (registerFunction d).run g = .ok () known := by
        simp [registerFunction, signature, known, hnone]
      obtain ⟨s, hds⟩ := ih hknown hrest
      rw [List.forM_eq_forM, List.forM_cons, bind_run_ok hrun]
      exact ⟨s, hds⟩

/-! ## Blocks side by side -/

section

variable {R : ScopeStack → ScopeStack → Prop}

/-- A function runs in parallel, whatever block and image there were before. -/
theorem compileFunction_together (hR : Congruence R) (d : FunctionDecl)
    (hconfig : g.config = h.config) (hs : R g.scopes h.scopes) :
    Together (Twin R g.image h.image) ((compileFunction d).run g) ((compileFunction d).run h) := by
  have hstart : Twin R g.image h.image (functionStart d g) (functionStart d h) :=
    ⟨hconfig, rfl, hR.enter (k := 0) hs, .none, by simp [functionStart, after],
      by simp [functionStart, after]⟩
  have hparams : Parallel R (declareParams d.params) :=
    .forM (fun _ => .discard (hR.declareScalar _ _ _)) d.params
  have hclose : Parallel R (do
      let slots ← closeScope
      patchCount ⟨0⟩ slots
      finishBlock) :=
    .bind hR.closeScope fun _ => .bind (.patchCount _ _) fun _ => .finishBlock
  have hend : Parallel R (endFunction d) := by
    unfold endFunction
    cases endsWithReturn d.body with
    | true => exact hclose
    | false => exact .bind (.emit _) fun _ => hclose
  rw [compileFunction_run, compileFunction_run]
  exact Parallel.bind hparams (fun _ => .bind (hR.compileStmts d.body) fun _ => hend) _ _ _ _ hstart

/-- So do the statements. -/
theorem compileMain_together (hR : Congruence R) (ss : List Stmt)
    (hconfig : g.config = h.config) (hs : R g.scopes h.scopes) :
    Together (Twin R g.image h.image) ((compileMain ss).run g) ((compileMain ss).run h) := by
  have hstart : Twin R g.image h.image (mainStart g) (mainStart h) :=
    ⟨hconfig, by simp [mainStart, after, hconfig], hs, .none, by simp [mainStart, after],
      by simp [mainStart, after]⟩
  have hend : Parallel R endMain := by
    intro i j g h hT
    have hslots : g.scopes.inner.slots = h.scopes.inner.slots := hR.size (k := 0) hT.scopes
    change Together _ ((do
      patchCount ⟨0⟩ g.scopes.inner.slots
      emit [.plain .cframe, .plain .halt]
      finishBlock : GenM Unit).run g) ((do
      patchCount ⟨0⟩ h.scopes.inner.slots
      emit [.plain .cframe, .plain .halt]
      finishBlock : GenM Unit).run h)
    rw [hslots]
    exact Parallel.bind (.patchCount _ _)
      (fun _ => .bind (.emit _) fun _ => .finishBlock) i j g h hT
  rw [compileMain_run, compileMain_run]
  exact Parallel.bind (hR.compileStmts ss) (fun _ => hend) _ _ _ _ hstart

end

/-- What a step adds to the image, if there is nothing in it. -/
def added (x : GenM Unit) (h : Generator) : Image :=
  match x.run h with
  | .ok _ h' => h'.image
  | .error _ h' => h'.image

/-- Where a step runs in parallel with one that has an empty image to go on from, it succeeds if
the other does, and adds what the other leaves. -/
theorem Together.added {R : ScopeStack → ScopeStack → Prop} {x : GenM Unit}
    (hempty : h.image = .none)
    (htogether : Together (Twin R g.image h.image) (x.run g) (x.run h)) :
    (∃ g', x.run g = .ok () g' ∧ g'.image = g.image.add (added x h)) ∧ succeeds x h = true ∨
      (∃ e g', x.run g = .error e g') ∧ succeeds x h = false := by
  rw [succeeds, Generator.added]
  rw [hempty] at htogether
  generalize x.run g = r, x.run h = r' at htogether
  cases htogether with
  | ok a hT =>
      obtain ⟨more, hg, hh⟩ := hT.image
      rw [Image.none_add] at hh
      exact .inl ⟨⟨_, rfl, hg.trans (congrArg _ hh.symm)⟩, rfl⟩
  | error e hT => exact .inr ⟨⟨e, _, rfl⟩, rfl⟩

/-! ## Functions -/

/-- The block of a function, if its code is made first. -/
def blockOf (h : Generator) (d : FunctionDecl) : Block :=
  (added (compileFunction d) h).blocks.headD (.empty d.name)

/-- The warnings that come up in a function. -/
def warnedBy (h : Generator) (d : FunctionDecl) : List Diagnostic :=
  (added (compileFunction d) h).diagnostics

/-- A function adds one block. -/
theorem compileFunction_added (d : FunctionDecl) (hh : Fresh config arity h)
    (hsucceeds : succeeds (compileFunction d) h = true) :
    added (compileFunction d) h = ⟨[blockOf h d], warnedBy h d⟩ ∧
      (blockOf h d).label = Text.lower d.name := by
  obtain ⟨h', hrun⟩ := run_ok_of_succeeds hsucceeds
  obtain ⟨top, hs, -, -⟩ := hh.scopes
  have hruns : Runs (compileFunction d) h (fun _ => True) _ :=
    compileFunction_runs d hs (fun _ => trivial) fun _ => trivial
  rw [Runs, hrun] at hruns
  obtain ⟨-, -, code, -, -, hblocks⟩ := hruns
  have hadded : added (compileFunction d) h = h'.image := by rw [added, hrun]
  rw [hh.image] at hblocks
  have hblock : (added (compileFunction d) h).blocks = [⟨Text.lower d.name, code⟩] := by
    rw [hadded, hblocks]
    rfl
  have hof : blockOf h d = ⟨Text.lower d.name, code⟩ := by rw [blockOf, hblock]; rfl
  exact ⟨by rw [hof, ← hblock, warnedBy], by rw [hof]⟩

/-- A function adds its block to whatever is there, or fails wherever it stands. -/
theorem compileFunction_cases (d : FunctionDecl) (hg : Ready config arity g)
    (hh : Fresh config arity h) :
    (∃ g', (compileFunction d).run g = .ok () g' ∧ Ready config arity g' ∧
        g'.image = g.image.add ⟨[blockOf h d], warnedBy h d⟩) ∧
        succeeds (compileFunction d) h = true ∨
      (∃ e g', (compileFunction d).run g = .error e g') ∧
        succeeds (compileFunction d) h = false := by
  have htogether := compileFunction_together alike_congruence d (hg.config.trans hh.config.symm)
    (hg.alike hh.toReady)
  rcases htogether.added hh.image with ⟨⟨g', hrun, himage⟩, hsucceeds⟩ | hfails
  · obtain ⟨top, hs, hused, hnames⟩ := hg.scopes
    have hruns : Runs (compileFunction d) g (fun _ => True) _ :=
      compileFunction_runs d hs (fun _ => trivial) fun _ => trivial
    rw [Runs, hrun] at hruns
    rw [(compileFunction_added d hh hsucceeds).1] at himage
    exact .inl ⟨⟨g', hrun, ⟨hruns.1.trans hg.config, top, hruns.2.1, hused, hnames⟩, himage⟩,
      hsucceeds⟩
  · exact .inr hfails

/-- Functions add their blocks one after the other, unless one of them fails. -/
theorem compileFunctions_cases (ds : List FunctionDecl) (hg : Ready config arity g)
    (hh : Fresh config arity h) :
    (∃ g', (ds.forM compileFunction).run g = .ok () g' ∧ Ready config arity g' ∧
        g'.image = g.image.add ⟨ds.map (blockOf h), ds.flatMap (warnedBy h)⟩) ∧
        (∀ d ∈ ds, succeeds (compileFunction d) h = true) ∨
      (∃ e g', (ds.forM compileFunction).run g = .error e g') ∧
        ∃ d ∈ ds, succeeds (compileFunction d) h = false := by
  induction ds generalizing g with
  | nil => exact .inl ⟨⟨g, rfl, hg, g.image.add_none.symm⟩, by simp⟩
  | cons d ds ih =>
      rw [List.forM_eq_forM, List.forM_cons]
      rcases compileFunction_cases d hg hh with
        ⟨⟨g', hrun, hg', himage⟩, hd⟩ | ⟨⟨e, g', hrun⟩, hd⟩
      · rw [bind_run_ok hrun]
        rcases ih hg' with ⟨⟨g'', hrun', hg'', himage'⟩, hds⟩ | ⟨hfails, d', hd', hfailed⟩
        · refine .inl ⟨⟨g'', hrun', hg'', ?_⟩, List.forall_mem_cons.mpr ⟨hd, hds⟩⟩
          rw [himage', himage, Image.add_assoc]
          rfl
        · exact .inr ⟨hfails, d', List.mem_cons_of_mem d hd', hfailed⟩
      · exact .inr ⟨⟨e, g', bind_run_error hrun⟩, d, List.mem_cons_self, hd⟩

/-! ## Programs -/

/-- The block of the statements comes last. -/
theorem compileMain_added (ss : List Stmt) (hh : Fresh config arity h)
    (hsucceeds : succeeds (compileMain ss) h = true) :
    ∃ main : Block, (added (compileMain ss) h).blocks = [main] ∧
      main.label = Text.lower mainLabel := by
  obtain ⟨h', hrun⟩ := run_ok_of_succeeds hsucceeds
  obtain ⟨top, hs, -, -⟩ := hh.scopes
  have hruns : Runs (compileMain ss) h (fun _ => True) _ :=
    compileMain_runs ss hs (fun _ => trivial) fun _ => trivial
  rw [Runs, hrun] at hruns
  obtain ⟨code, -, -, hblocks⟩ := hruns
  rw [hh.image] at hblocks
  exact ⟨_, by rw [added, hrun]; exact hblocks, rfl⟩

/-- Once its functions are known, a program is made of their blocks and the block of the
statements, each the same as in `h`. -/
theorem generate_cases (p : Program)
    (hrun : (p.functions.forM registerFunction).run (.initial config) = .ok () g)
    (hh : Fresh config p.arity? h) :
    (∃ g', (generate p).run (.initial config) = .ok () g' ∧
        g'.image = (g.image.add ⟨p.functions.map (blockOf h), p.functions.flatMap (warnedBy h)⟩).add
          (added (compileMain p.statements) h)) ∧
        (∀ d ∈ p.functions, succeeds (compileFunction d) h = true) ∧
        succeeds (compileMain p.statements) h = true ∨
      (∃ e g', (generate p).run (.initial config) = .error e g') ∧
        ¬((∀ d ∈ p.functions, succeeds (compileFunction d) h = true) ∧
          succeeds (compileMain p.statements) h = true) := by
  have hg := (ready_of_registered hrun).1
  rw [generate, bind_run_ok hrun]
  rcases compileFunctions_cases p.functions hg hh with
    ⟨⟨g', hrun', hg', himage⟩, hds⟩ | ⟨⟨e, g', hrun'⟩, d, hd, hfailed⟩
  · rw [bind_run_ok hrun']
    have htogether := compileMain_together alike_congruence p.statements
      (hg'.config.trans hh.config.symm) (hg'.alike hh.toReady)
    rcases htogether.added hh.image with ⟨⟨g'', hmain, himage'⟩, hsucceeds⟩ | ⟨hfails, hfailed⟩
    · exact .inl ⟨⟨g'', hmain, by rw [himage', himage]⟩, hds, hsucceeds⟩
    · exact .inr ⟨hfails, fun hall => by simp [hfailed] at hall⟩
  · refine .inr ⟨⟨e, g', bind_run_error hrun'⟩, fun hall => ?_⟩
    have hsucceeds := hall.1 d hd
    simp [hfailed] at hsucceeds

end Generator

open Generator

/-- An accepted program, its functions known. -/
theorem registered_of_compile {config : Config} {p : Program} {image : Image}
    (hp : compile config p = .ok image) :
    ∃ g, (p.functions.forM registerFunction).run (.initial config) = .ok () g := by
  obtain ⟨-, g, hrun, -⟩ := compile_eq_ok.mp hp
  rw [generate] at hrun
  cases hregister : (p.functions.forM registerFunction).run (.initial config) with
  | ok _ g' => exact ⟨g', rfl⟩
  | error e g' =>
      rw [bind_run_error hregister] at hrun
      contradiction

/-- The parts of an accepted program. -/
theorem image_of_compile {config : Config} {p : Program} {image : Image} {g h : Generator}
    (hp : compile config p = .ok image)
    (hrun : (p.functions.forM registerFunction).run (.initial config) = .ok () g)
    (hh : Fresh config p.arity? h) :
    image = (g.image.add ⟨p.functions.map (blockOf h), p.functions.flatMap (warnedBy h)⟩).add
        (added (compileMain p.statements) h) ∧
      (∀ d ∈ p.functions, succeeds (compileFunction d) h = true) ∧
      succeeds (compileMain p.statements) h = true := by
  obtain ⟨-, g', hgenerate, rfl⟩ := compile_eq_ok.mp hp
  rcases generate_cases p hrun hh with ⟨⟨g'', hrun', himage⟩, hall⟩ | ⟨⟨e, g'', hrun'⟩, -⟩
  · rw [hgenerate] at hrun'
    cases hrun'
    exact ⟨himage, hall⟩
  · rw [hgenerate] at hrun'
    contradiction

/-- The blocks of an accepted program, each made as in `h`. -/
theorem blocks_of_compile {config : Config} {p : Program} {image : Image} {h : Generator}
    (hp : compile config p = .ok image) (hh : Fresh config p.arity? h) :
    ∃ main : Block, (added (compileMain p.statements) h).blocks = [main] ∧
      main.label = Text.lower mainLabel ∧
      image.blocks = p.functions.map (blockOf h) ++ [main] ∧
      ∀ d ∈ p.functions, (blockOf h d).label = Text.lower d.name := by
  obtain ⟨g, hrun⟩ := registered_of_compile hp
  obtain ⟨himage, hfunctions, hstatements⟩ := image_of_compile hp hrun hh
  obtain ⟨main, hmain, hlabel⟩ := compileMain_added p.statements hh hstatements
  refine ⟨main, hmain, hlabel, ?_, fun d hd => ?_⟩
  · simp [himage, Image.add, (ready_of_registered hrun).2, hmain]
  · exact (compileFunction_added d hh (hfunctions d hd)).2

/-- Where functions have distinct names, another order of them is accepted too, and changes no more
than the order of what they add. -/
theorem compile_permuted {config : Config} {p q : Program} {image : Image} {h : Generator}
    (hp : compile config p = .ok image) (hh : Fresh config p.arity? h)
    (hdistinct : (p.functions.map (·.name)).Nodup) (hperm : q.functions.Perm p.functions)
    (hsame : q.statements = p.statements) :
    ∃ image', compile config q = .ok image' ∧
      image'.blocks = q.functions.map (blockOf h) ++ (added (compileMain p.statements) h).blocks ∧
      image'.diagnostics.Perm image.diagnostics := by
  have hdistinct' : (q.functions.map (·.name)).Nodup := (hperm.map _).nodup_iff.mpr hdistinct
  have harity : q.arity? = p.arity? := Program.arity?_eq_of_perm hperm hdistinct
  obtain ⟨s, hrun⟩ := registerFunctions_free (g := .initial config) p.functions Represents.initial
    ⟨fun _ _ => rfl, hdistinct⟩
  obtain ⟨s', hrun'⟩ := registerFunctions_free (g := .initial config) q.functions Represents.initial
    ⟨fun _ _ => rfl, hdistinct'⟩
  obtain ⟨himage, hfunctions, hstatements⟩ := image_of_compile hp hrun hh
  have hfunctions' : ∀ d ∈ q.functions, succeeds (compileFunction d) h = true :=
    fun d hd => hfunctions d (hperm.mem_iff.mp hd)
  rcases generate_cases q hrun' (harity ▸ hh) with
    ⟨⟨g, hgenerate, himage'⟩, -⟩ | ⟨-, hfailed⟩
  · rw [hsame] at himage'
    have hblocks : g.image.blocks.Perm image.blocks := by
      rw [himage, himage']
      exact ((hperm.map (blockOf h)).append_left []).append_right _
    have hdiagnostics : g.image.diagnostics.Perm image.diagnostics := by
      rw [himage, himage']
      exact ((hperm.flatMap_right (warnedBy h)).append_left []).append_right _
    have hverify : g.image.verify = .ok () :=
      Image.verify_eq_ok.mpr fun b hb =>
        Image.verify_eq_ok.mp (compile_eq_ok.mp hp).1 b (hblocks.mem_iff.mp hb)
    exact ⟨g.image, compile_eq_ok.mpr ⟨hverify, g, hgenerate, rfl⟩, by rw [himage']; rfl,
      hdiagnostics⟩
  · exact absurd ⟨hfunctions', hsame ▸ hstatements⟩ hfailed

/-- The code that a program is compiled to is made declaration by declaration.  Every function of
an accepted program has a block that any other accepted program with the same signatures has too,
at the place of that function; where the statements are the same, so is the last block.  In
particular, functions with distinct names may be put in any order: the program is still accepted,
and its blocks and warnings are the same but for their order. -/
theorem compile_separately (config : Config) (p : Program) (image : Image)
    (hp : compile config p = .ok image) :
    ∃ (block : FunctionDecl → Block) (main : Block),
      image.blocks = p.functions.map block ++ [main] ∧
      (∀ d ∈ p.functions, (block d).label = Text.lower d.name) ∧
      main.label = Text.lower mainLabel ∧
      (∀ q image', compile config q = .ok image' → (∀ name, q.arity? name = p.arity? name) →
        ∃ main', image'.blocks = q.functions.map block ++ [main'] ∧
          (q.statements = p.statements → main' = main)) ∧
      (∀ q, (p.functions.map (·.name)).Nodup → q.functions.Perm p.functions →
        q.statements = p.statements →
        ∃ image', compile config q = .ok image' ∧
          image'.blocks = q.functions.map block ++ [main] ∧
          image'.diagnostics.Perm image.diagnostics) := by
  obtain ⟨g, hrun⟩ := registered_of_compile hp
  have hregistered := (ready_of_registered hrun).1
  -- Every block is compared with the one made right after the functions of `p` are known.
  let h : Generator := { g with image := .none }
  have hh : Fresh config p.arity? h := ⟨⟨hregistered.config, hregistered.scopes⟩, rfl⟩
  obtain ⟨main, hmain, hlabel, hblocks, hlabels⟩ := blocks_of_compile hp hh
  refine ⟨blockOf h, main, hblocks, hlabels, hlabel, ?_, ?_⟩
  · intro q image' hq harity
    have hh' : Fresh config q.arity? h := (funext harity : q.arity? = p.arity?) ▸ hh
    obtain ⟨main', hmain', -, hblocks', -⟩ := blocks_of_compile hq hh'
    refine ⟨main', hblocks', fun hsame => ?_⟩
    rw [hsame, hmain] at hmain'
    exact (List.cons.inj hmain').1.symm
  · intro q hdistinct hperm hsame
    obtain ⟨image', hq, hblocks', hdiagnostics⟩ := compile_permuted hp hh hdistinct hperm hsame
    exact ⟨image', hq, by rw [hblocks', hmain], hdiagnostics⟩

/-- A function of one parameter. -/
def Demo.double : Stmt :=
  .function "Double" [⟨"n", .int⟩] .int [.ret (.binary .add (.ident "n") (.ident "n"))]

/-- The function and another one that calls it. -/
def Demo.callers : Program where
  items := [
    Demo.double,
    .function "Quadruple" [⟨"m", .int⟩] .int
      [.ret (.call "Double" [.call "Double" [.ident "m"]])],
    .print (.call "Quadruple" [.int 2])]

/-- The function after the statements of another program, where the other function is not the
same. -/
def Demo.caller : Program where
  items := [
    .varDecl ⟨"n", .int, .call "Double" [.int 1]⟩,
    .function "Quadruple" [⟨"k", .float⟩] .float [.ret (.ident "k")],
    Demo.double]

/-- The function has the same block in both programs.  In the first, it may come last. -/
theorem compile_callers_separately :
    ∃ (callers reversed caller : Image) (double quadruple other main main' : Block),
      compile {} Demo.callers = .ok callers ∧ callers.blocks = [double, quadruple, main] ∧
      compile {} ⟨Demo.callers.items.reverse⟩ = .ok reversed ∧
        reversed.blocks = [quadruple, double, main] ∧
      compile {} Demo.caller = .ok caller ∧ caller.blocks = [other, double, main'] := by
  have hok {r : Except CompileError Image} (h : r.toOption.isSome = true) :
      ∃ image, r = .ok image := by
    cases r with
    | ok image => exact ⟨image, rfl⟩
    | error e => cases h
  have harity : ∀ name, Demo.caller.arity? name = Demo.callers.arity? name := by
    intro name
    by_cases hdouble : "Double" = name
    · subst hdouble
      rfl
    · by_cases hquadruple : "Quadruple" = name
      · subst hquadruple
        rfl
      · simp [Program.arity?, Program.functions, Demo.caller, Demo.callers, Demo.double,
          List.filterMap_cons, Stmt.function?, hdouble, hquadruple]
  obtain ⟨callers, hp⟩ := hok (r := compile {} Demo.callers) (by decide +kernel)
  obtain ⟨caller, hq⟩ := hok (r := compile {} Demo.caller) (by decide +kernel)
  obtain ⟨block, main, hblocks, -, -, hother, hpermuted⟩ := compile_separately {} _ callers hp
  obtain ⟨reversed, hr, hreversed, -⟩ :=
    hpermuted ⟨Demo.callers.items.reverse⟩ (by decide) (.swap _ _ []) rfl
  obtain ⟨main', hcaller, -⟩ := hother Demo.caller caller hq harity
  exact ⟨callers, reversed, caller, _, _, _, main, main', hp, hblocks, hr, hreversed, hq, hcaller⟩

end PadCompiler
