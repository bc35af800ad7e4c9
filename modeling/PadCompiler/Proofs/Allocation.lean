import Mathlib.Data.List.Induction
import Mathlib.Data.List.Pairwise
import Mathlib.Order.Bounds.Basic
import PadCompiler.Proofs.Depths

/-!
# PadCompiler.Proofs.Allocation

Slots are handed out by a cursor that only a rewind sets back, and a rewind forgets all names of its
scope.  So no two things of a scope ever share a slot, whatever is done with scopes.

* `Unshared` — things that share no slot and end below the cursor;
* `NameScope.Step` — what one operation makes of a scope that stays open;
* `NameStack.perform_levels` — every operation is such a step for each scope that it leaves open;
* `ScopeStack.HadCursor` — the cursors that an open scope ever had, also before it was rewound;
* `slots_never_alias` — what a run of any length leaves.
-/

namespace PadCompiler

open ScopeStack (Action Answer conclude)

/-! ## Slots of things -/

/-- The slots that a thing takes, in order. -/
def Entity.slots : Entity → List Nat
  | .scalar _ slot _ => [slot]
  | .array _ base length => List.range' base length
  | .function _ => []

/-- Where the slots of a thing end. -/
def Entity.limit : Entity → Nat
  | .scalar _ slot _ => slot + 1
  | .array _ base length => base + length
  | .function _ => 0

theorem Entity.lt_limit {e : Entity} {slot : Nat} (h : slot ∈ e.slots) : slot < e.limit := by
  cases e with
  | scalar ty first hint =>
      rw [List.mem_singleton.mp h]
      exact Nat.lt_succ_self first
  | array ty base length => exact (List.mem_range'_1.mp h).2
  | function signature => exact absurd h List.not_mem_nil

@[simp] theorem Entity.slots_withHint (e : Entity) (hint : Lowered) :
    (e.withHint hint).slots = e.slots := by
  cases e <;> rfl

@[simp] theorem Entity.limit_withHint (e : Entity) (hint : Lowered) :
    (e.withHint hint).limit = e.limit := by
  cases e <;> rfl

/-- Things that share no slot and end below the cursor. -/
structure Unshared (entities : List Entity) (cursor : Nat) : Prop where
  apart : entities.Pairwise fun x y => x.slots.Disjoint y.slots
  below : ∀ x ∈ entities, x.limit ≤ cursor

namespace Unshared

variable {entities others : List Entity} {cursor cursor' : Nat}

theorem nil : Unshared [] cursor :=
  ⟨.nil, nofun⟩

/-- Some of the things share no slot either. -/
theorem sublist (h : Unshared entities cursor) (hsub : others.Sublist entities) :
    Unshared others cursor :=
  ⟨h.apart.sublist hsub, fun x hx => h.below x (hsub.subset hx)⟩

/-- A thing on slots that come after all others. -/
theorem cons {e : Entity} (h : Unshared entities cursor) (hfirst : ∀ slot ∈ e.slots, cursor ≤ slot)
    (hlimit : e.limit ≤ cursor') (hle : cursor ≤ cursor') : Unshared (e :: entities) cursor' := by
  constructor
  · refine List.pairwise_cons.mpr ⟨fun x hx slot hslot hshared => ?_, h.apart⟩
    have hbelow := h.below x hx
    have hlt := x.lt_limit hshared
    have hle := hfirst slot hslot
    omega
  · refine List.forall_mem_cons.mpr ⟨hlimit, fun x hx => ?_⟩
    exact Nat.le_trans (h.below x hx) hle

/-- Hints make no difference to slots. -/
theorem unhinted_iff :
    Unshared (entities.map (·.withHint .dynamic)) cursor ↔ Unshared entities cursor := by
  constructor
  · rintro ⟨hapart, hbelow⟩
    exact ⟨by simpa [List.pairwise_map] using hapart, by simpa using hbelow⟩
  · rintro ⟨hapart, hbelow⟩
    exact ⟨by simpa [List.pairwise_map] using hapart, by simpa using hbelow⟩

end Unshared

/-! ## One scope -/

/-- The things of a scope. -/
def Scope.entities (s : Scope) : List Entity :=
  s.bindings.map (·.2.entity)

namespace NameScope

variable {s t : NameScope}

/-- The things of a scope. -/
def entities (s : NameScope) : List Entity :=
  s.names.map (·.2)

theorem entities_seen (s : NameScope) (k : Nat) : (s.seen k).entities = s.entities := by
  simp [Scope.entities, entities, seen]

theorem entities_unhinted (s : NameScope) :
    s.unhinted.entities = s.entities.map (·.withHint .dynamic) := by
  simp [entities, unhinted]

/-- The scope with a name on the next `n` free slots. -/
def put (s : NameScope) (name : String) (n : Nat) (entity : Entity) : NameScope :=
  insert { s with
    cursor := s.cursor + n, highWater := Nat.max s.highWater (s.cursor + n) } name entity

/-- What one operation makes of a scope that stays open. -/
inductive Step (s : NameScope) : NameScope → Prop
  | rewind : Step s { s with names := [], cursor := 0 }
  | put (name : String) {n : Nat} {entity : Entity} (hslots : entity.slots = List.range' s.cursor n)
      (hlimit : entity.limit = s.cursor + n) : Step s (s.put name n entity)
  | function (name : String) (signature : Signature) : Step s (s.insert name (.function signature))
  | hints {t : NameScope} (h : t.unhinted = s.unhinted) : Step s t

theorem Step.refl (s : NameScope) : Step s s :=
  .hints rfl

/-- Things share no slot after a step if they share none before. -/
theorem Step.unshared (h : s.Step t) (hs : Unshared s.entities s.cursor) :
    Unshared t.entities t.cursor := by
  -- what a name stood for goes when it is bound anew
  have hkept (name : String) : Unshared ((s.names.filter (·.1 != name)).map (·.2)) s.cursor :=
    hs.sublist (List.filter_sublist.map _)
  cases h with
  | rewind => exact .nil
  | put name hslots hlimit =>
      refine (hkept name).cons (fun slot hslot => ?_) (Nat.le_of_eq hlimit) (Nat.le_add_right ..)
      rw [hslots] at hslot
      exact (List.mem_range'_1.mp hslot).1
  | function name signature => exact (hkept name).cons nofun (Nat.zero_le _) (Nat.le_refl _)
  | hints h =>
      have hcursor : t.cursor = s.cursor := congrArg (·.cursor) h
      have hentities := congrArg entities h
      rw [entities_unhinted, entities_unhinted] at hentities
      rw [hcursor, ← Unshared.unhinted_iff, hentities]
      exact Unshared.unhinted_iff.mpr hs

/-- The mark follows the cursor. -/
theorem Step.highWater (h : s.Step t) (hs : s.cursor ≤ s.highWater) :
    t.highWater = max s.highWater t.cursor := by
  cases h with
  | rewind => exact (Nat.max_eq_left (Nat.zero_le _)).symm
  | put name hslots hlimit => rfl
  | function name signature => exact (Nat.max_eq_left hs).symm
  | hints h =>
      have hcursor : t.cursor = s.cursor := congrArg (·.cursor) h
      have hmark : t.highWater = s.highWater := congrArg (·.highWater) h
      rw [hmark, hcursor, Nat.max_eq_left hs]

end NameScope

/-! ## The open scopes -/

/-- The open scopes from the outside in. -/
def ScopeStack.levels (s : ScopeStack) : List Scope :=
  s.toList.reverse

/-- The cursors of the open scopes from the outside in. -/
def ScopeStack.cursors (s : ScopeStack) : List Nat :=
  s.levels.map Scope.cursor

/-- What is in a list with one thing more. -/
theorem getElem?_concat_eq_some {l : List α} {a b : α} {n : Nat} (h : (l ++ [a])[n]? = some b) :
    l[n]? = some b ∨ n = l.length ∧ b = a := by
  rw [List.getElem?_append] at h
  split at h
  · exact .inl h
  · rw [List.getElem?_singleton] at h
    split at h
    · exact .inr ⟨by omega, (Option.some.inj h).symm⟩
    · contradiction

namespace NameStack

variable {p : NameStack}

/-- The open scopes from the outside in. -/
def levels (p : NameStack) : List NameScope :=
  p.toList.reverse

theorem levels_mk (s : NameScope) (outer : List NameScope) :
    levels ⟨s, outer⟩ = outer.reverse ++ [s] := by
  simp [levels, toList]

theorem viewFrom_getElem? (k : Nat) (ss : List NameScope) (n : Nat) :
    (viewFrom k ss)[n]? = ss[n]?.map (·.seen (k + n)) := by
  induction ss generalizing k n with
  | nil => rfl
  | cons s ss ih =>
      cases n with
      | zero => rfl
      | succ n => rw [viewFrom, List.getElem?_cons_succ, List.getElem?_cons_succ, ih,
          Nat.add_right_comm, Nat.add_assoc]

theorem length_viewFrom (k : Nat) (ss : List NameScope) : (viewFrom k ss).length = ss.length := by
  induction ss generalizing k with
  | nil => rfl
  | cons s ss ih => rw [viewFrom, List.length_cons, List.length_cons, ih]

theorem levels_view {level : Nat} {scope : Scope} (h : p.view.levels[level]? = some scope) :
    ∃ s k, p.levels[level]? = some s ∧ scope = s.seen k := by
  rw [ScopeStack.levels, toList_view] at h
  have hlt := (List.getElem?_eq_some_iff.mp h).1
  rw [List.length_reverse, length_viewFrom] at hlt
  rw [List.getElem?_reverse (by rwa [length_viewFrom]), viewFrom_getElem?, length_viewFrom] at h
  obtain ⟨s, hs, rfl⟩ := Option.map_eq_some_iff.mp h
  exact ⟨s, _, by rw [levels, List.getElem?_reverse hlt, hs], rfl⟩

theorem cursors_view (p : NameStack) : p.view.cursors = p.levels.map NameScope.cursor := by
  have hcursors : ∀ (k : Nat) (ss : List NameScope),
      (viewFrom k ss).map Scope.cursor = ss.map NameScope.cursor := by
    intro k ss
    induction ss generalizing k with
    | nil => rfl
    | cons s ss ih =>
        rw [viewFrom, List.map_cons, List.map_cons, ih]
        rfl
  rw [ScopeStack.cursors, ScopeStack.levels, toList_view, List.map_reverse, hcursors, levels,
    List.map_reverse]

/-- A step of the innermost scope leaves the others. -/
theorem levels_inner {t u : NameScope} {level : Nat} (h : p.inner.Step t)
    (hu : (NameStack.mk t p.outer).levels[level]? = some u) :
    ∃ s, p.levels[level]? = some s ∧ s.Step u := by
  have hlevels : p.levels = p.outer.reverse ++ [p.inner] := levels_mk p.inner p.outer
  rw [levels_mk] at hu
  rw [hlevels]
  rcases getElem?_concat_eq_some hu with hsame | ⟨rfl, rfl⟩
  · have hlt := (List.getElem?_eq_some_iff.mp hsame).1
    exact ⟨u, by rw [List.getElem?_append_left hlt, hsame], .refl u⟩
  · exact ⟨p.inner, List.getElem?_concat_length .., h⟩

/-- A new hint is a step of the scope that it is in. -/
theorem levels_modify {name : String} {hint : Lowered} {depth level : Nat} {t : NameScope}
    (h : (p.modify (.setHint name hint) depth).levels[level]? = some t) :
    ∃ s, p.levels[level]? = some s ∧ s.Step t := by
  have hinner : (p.modify (.setHint name hint) depth).inner.unhinted = p.inner.unhinted := by
    cases depth with
    | zero => exact NameScope.unhinted_setHint name hint p.inner
    | succ depth => rfl
  have hlevels : (p.modify (.setHint name hint) depth).levels.map NameScope.unhinted =
      p.levels.map NameScope.unhinted := by
    simp only [levels, toList, List.reverse_cons, List.map_append, List.map_reverse,
      modify_outer p name hint depth, List.map_cons, List.map_nil, hinner]
  have hat := congrArg (·[level]?) hlevels
  simp only [List.getElem?_map, h, Option.map_some] at hat
  obtain ⟨s, hs, hsame⟩ := Option.map_eq_some_iff.mp hat.symm
  exact ⟨s, hs, .hints hsame.symm⟩

/-- After an operation, an open scope is new, or a step of the scope at its level before. -/
theorem perform_levels {a : Action} {level : Nat} {t : NameScope}
    (h : (p.perform a).2.levels[level]? = some t) :
    level = p.levels.length ∧ t = {} ∨ ∃ s, p.levels[level]? = some s ∧ s.Step t := by
  have hstill (h : p.levels[level]? = some t) :
      ∃ s, p.levels[level]? = some s ∧ s.Step t := ⟨t, h, .refl t⟩
  have hdeclare (name : String) (n : Nat) (entity : Nat → Entity)
      (hslots : (entity p.inner.cursor).slots = List.range' p.inner.cursor n)
      (hlimit : (entity p.inner.cursor).limit = p.inner.cursor + n)
      (h : (conclude p Answer.slot (p.declare name n entity)).2.levels[level]? = some t) :
      ∃ s, p.levels[level]? = some s ∧ s.Step t := by
    by_cases hfits : p.inner.cursor + n < wordLimit
    · simp only [declare, if_pos hfits, conclude] at h
      exact levels_inner (.put name hslots hlimit) h
    · simp only [declare, if_neg hfits, conclude] at h
      exact hstill h
  cases a with
  | enter =>
      rw [perform, levels_mk] at h
      rcases getElem?_concat_eq_some h with hsame | hnew
      · exact .inr (hstill hsame)
      · exact .inl hnew
  | leave =>
      rw [perform] at h
      split at h
      · exact .inr (hstill h)
      · next parent rest houter =>
          have hlevels : p.levels = NameStack.levels ⟨parent, rest⟩ ++ [p.inner] := by
            simp [levels, toList, houter]
          refine .inr (hstill ?_)
          rw [hlevels, List.getElem?_append_left (List.getElem?_eq_some_iff.mp h).1, h]
  | rewind => exact .inr (levels_inner .rewind h)
  | scalar name ty hint => exact .inr (hdeclare name 1 (.scalar ty · hint) rfl rfl h)
  | array name ty length => exact .inr (hdeclare name length (.array ty · length) rfl rfl h)
  | function name signature => exact .inr (levels_inner (.function name signature) h)
  | setHint name hint =>
      rw [perform] at h
      split at h
      · exact .inr (levels_modify h)
      · exact .inr (hstill h)
  | resolve name =>
      rw [perform] at h
      split at h
      · exact .inr (hstill h)
      · exact .inr (hstill h)

end NameStack

/-! ## Runs -/

/-- The open scopes after operations, which start from one scope that is empty. -/
def ScopeStack.after (actions : List Action) : ScopeStack :=
  (({} : ScopeStack).run actions).2

/-- The open scopes after operations, which start from one scope that is empty. -/
def NameStack.after (actions : List Action) : NameStack :=
  (({} : NameStack).run actions).2

theorem NameStack.after_concat (actions : List Action) (a : Action) :
    after (actions ++ [a]) = ((after actions).perform a).2 := by
  rw [after, run_append]
  rfl

theorem ScopeStack.after_eq_view (actions : List Action) :
    after actions = (NameStack.after actions).view :=
  congrArg Prod.snd (run_view {} actions)

namespace ScopeStack

/-- The scope that is open at this level had this cursor at some time, and has been open since. -/
def HadCursor (actions : List Action) (level cursor : Nat) : Prop :=
  ∃ before later, actions = before ++ later ∧ (after before).cursors[level]? = some cursor ∧
    ∀ between, between <+: later → level < (after (before ++ between)).cursors.length

/-- The cursors after one more operation are the present one and, if the scope was open before,
those it had until then. -/
theorem hadCursor_concat {actions : List Action} {a : Action} {level cursor : Nat} :
    HadCursor (actions ++ [a]) level cursor ↔
      (after (actions ++ [a])).cursors[level]? = some cursor ∨
        HadCursor actions level cursor ∧ level < (after (actions ++ [a])).cursors.length := by
  constructor
  · rintro ⟨before, later, hactions, hcursor, hopen⟩
    rcases List.eq_nil_or_concat later with rfl | ⟨later, last, rfl⟩
    · rw [List.append_nil] at hactions
      exact .inl (hactions ▸ hcursor)
    · have hnow := hopen _ (List.prefix_refl _)
      rw [← hactions] at hnow
      rw [List.concat_eq_append, ← List.append_assoc] at hactions
      obtain ⟨rfl, -⟩ := List.append_inj' hactions rfl
      refine .inr ⟨⟨before, later, rfl, hcursor, fun between hbetween => ?_⟩, hnow⟩
      exact hopen between (hbetween.trans (List.prefix_concat last later))
  · rintro (hcursor | ⟨⟨before, later, rfl, hcursor, hopen⟩, hnow⟩)
    · refine ⟨_, [], (List.append_nil _).symm, hcursor, fun between hbetween => ?_⟩
      rw [List.prefix_nil.mp hbetween, List.append_nil]
      exact (List.getElem?_eq_some_iff.mp hcursor).1
    · refine ⟨before, later ++ [a], List.append_assoc .., hcursor, fun between hbetween => ?_⟩
      rcases List.prefix_concat_iff.mp hbetween with rfl | hbetween
      · rwa [← List.append_assoc]
      · exact hopen between hbetween

theorem HadCursor.lt {actions : List Action} {level cursor : Nat}
    (h : HadCursor actions level cursor) : level < (after actions).cursors.length := by
  obtain ⟨before, later, rfl, -, hopen⟩ := h
  exact hopen later (List.prefix_refl later)

theorem cursors_after (actions : List Action) :
    (after actions).cursors = (NameStack.after actions).levels.map NameScope.cursor := by
  rw [after_eq_view, NameStack.cursors_view]

theorem cursor_after {actions : List Action} {level : Nat} {s : NameScope}
    (h : (NameStack.after actions).levels[level]? = some s) :
    (after actions).cursors[level]? = some s.cursor := by
  rw [cursors_after, List.getElem?_map, h]
  rfl

/-- While a scope is open, each operation adds the present cursor to those that it ever had. -/
theorem hadCursors_concat {actions : List Action} {a : Action} {level cursor : Nat}
    (h : (after (actions ++ [a])).cursors[level]? = some cursor) :
    {c | HadCursor (actions ++ [a]) level c} = insert cursor {c | HadCursor actions level c} := by
  have hlt := (List.getElem?_eq_some_iff.mp h).1
  ext c
  rw [Set.mem_ofPred_eq, hadCursor_concat, h, and_iff_left hlt, Option.some.injEq, eq_comm]
  rfl

end ScopeStack

open ScopeStack (HadCursor)

namespace NameStack

/-- The mark of an open scope is the largest cursor that it ever had, and its things share no
slot. -/
structure Tracks (actions : List Action) (level : Nat) (s : NameScope) : Prop where
  unshared : Unshared s.entities s.cursor
  greatest : IsGreatest {cursor | HadCursor actions level cursor} s.highWater

/-- The present cursor is one of those that the scope ever had. -/
theorem hadCursor_now {actions : List Action} {level : Nat} {s : NameScope}
    (h : (after actions).levels[level]? = some s) : HadCursor actions level s.cursor := by
  have hcursor := ScopeStack.cursor_after h
  refine ⟨actions, [], (List.append_nil _).symm, hcursor, fun between hbetween => ?_⟩
  rw [List.prefix_nil.mp hbetween, List.append_nil]
  exact (List.getElem?_eq_some_iff.mp hcursor).1

/-- A scope that was never anything but empty. -/
theorem tracks_new {actions : List Action} {level : Nat}
    (h : (after actions).levels[level]? = some {})
    (honly : ∀ cursor, HadCursor actions level cursor → cursor = 0) : Tracks actions level {} where
  unshared := .nil
  greatest := ⟨hadCursor_now h, fun cursor hcursor => Nat.le_of_eq (honly cursor hcursor)⟩

/-- Every open scope tracks its cursors, after a run of any length. -/
theorem after_tracks {actions : List Action} {level : Nat} {t : NameScope}
    (h : (after actions).levels[level]? = some t) : Tracks actions level t := by
  induction actions using List.reverseRecOn generalizing level t with
  | nil =>
      have hlevels : (after []).levels = [] ++ [({} : NameScope)] := rfl
      obtain hnone | ⟨-, rfl⟩ := getElem?_concat_eq_some (hlevels ▸ h)
      · contradiction
      · refine tracks_new h fun cursor hcursor => ?_
        obtain ⟨before, later, hnil, hcursor, -⟩ := hcursor
        obtain ⟨rfl, rfl⟩ := List.append_eq_nil_iff.mp hnil.symm
        exact (Option.some.inj ((ScopeStack.cursor_after h).symm.trans hcursor)).symm
  | append_singleton actions a ih =>
      have hnow := ScopeStack.cursor_after h
      have hstep := h
      rw [after_concat] at hstep
      rcases perform_levels hstep with ⟨rfl, rfl⟩ | ⟨s, hs, hstep⟩
      · refine tracks_new h fun cursor hcursor => ?_
        rcases ScopeStack.hadCursor_concat.mp hcursor with hcursor | ⟨hcursor, -⟩
        · exact (Option.some.inj (hnow.symm.trans hcursor)).symm
        · -- no scope was open at this level before
          have hbefore := hcursor.lt
          rw [ScopeStack.cursors_after, List.length_map] at hbefore
          exact absurd hbefore (Nat.lt_irrefl _)
      · obtain ⟨hunshared, hgreatest⟩ := ih hs
        have hle : s.cursor ≤ s.highWater := hgreatest.2 (hadCursor_now hs)
        refine ⟨hstep.unshared hunshared, ?_⟩
        rw [ScopeStack.hadCursors_concat hnow, hstep.highWater hle, max_comm]
        exact hgreatest.insert t.cursor

end NameStack

/-! ## Declarations and look-up -/

namespace ScopeStack

/-- The name that an operation declares and the slots that it takes. -/
def Action.takes : Action → Option (String × Nat)
  | .scalar name _ _ => some (name, 1)
  | .array name _ length => some (name, length)
  | _ => none

theorem levels_after {actions : List Action} {level : Nat} {scope : Scope}
    (h : (after actions).levels[level]? = some scope) :
    Unshared scope.entities scope.cursor ∧ scope.cursor ≤ scope.slots ∧
      IsGreatest {cursor | HadCursor actions level cursor} scope.slots := by
  rw [after_eq_view] at h
  obtain ⟨s, k, hs, rfl⟩ := NameStack.levels_view h
  obtain ⟨hunshared, hgreatest⟩ := NameStack.after_tracks hs
  rw [NameScope.entities_seen]
  exact ⟨hunshared, hgreatest.2 (NameStack.hadCursor_now hs), hgreatest⟩

theorem mem_levels {s : ScopeStack} {scope : Scope} (h : scope ∈ s.toList) :
    ∃ level : Nat, s.levels[level]? = some scope :=
  List.mem_iff_getElem?.mp (List.mem_reverse.mpr h)

/-- Scopes that operations made, starting from one that is empty.  Nothing else makes scopes. -/
def Made (s : ScopeStack) : Prop :=
  ∃ actions, s = after actions

theorem Made.cursor_le {s : ScopeStack} (h : s.Made) : s.inner.cursor ≤ s.inner.highWater := by
  obtain ⟨actions, rfl⟩ := h
  obtain ⟨level, hlevel⟩ := mem_levels (s := after actions) List.mem_cons_self
  exact (levels_after hlevel).2.1

/-- What a name stands for is in the scope that its depth tells. -/
theorem resolveIn_eq_ok {name : String} {hops : Nat} {scopes : List Scope} {b : Binding}
    (h : resolveIn name hops scopes = .ok b) :
    ∃ n scope, scopes[n]? = some scope ∧ scope.lookup name = some b ∧ b.depth = hops + n := by
  induction scopes generalizing hops with
  | nil => contradiction
  | cons scope scopes ih =>
      rw [resolveIn] at h
      split at h
      · next found hfound =>
          split at h
          · next hdepth =>
              cases h
              exact ⟨0, scope, rfl, hfound, hdepth⟩
          · contradiction
      · obtain ⟨n, inner, hinner, hlookup, hdepth⟩ := ih h
        exact ⟨n + 1, inner, hinner, hlookup, by omega⟩

/-- Two names of one scope share no slot. -/
theorem disjoint_of_lookup {s : Scope} (h : Unshared s.entities s.cursor) {name name' : String}
    {b b' : Binding} (hb : s.lookup name = some b) (hb' : s.lookup name' = some b')
    (hne : name ≠ name') : b.entity.slots.Disjoint b'.entity.slots := by
  have hapart := List.pairwise_map.mp h.apart
  have : Std.Symm fun x y : String × Binding => x.2.entity.slots.Disjoint y.2.entity.slots :=
    ⟨fun _ _ hxy _ hy hx => hxy hx hy⟩
  exact hapart.forall (Scope.mem_of_lookup hb) (Scope.mem_of_lookup hb') fun heq =>
    hne (congrArg Prod.fst heq)

theorem disjoint_of_resolve {actions : List Action} {name name' : String} {b b' : Binding}
    (hb : (after actions).resolve name = .ok b) (hb' : (after actions).resolve name' = .ok b')
    (hne : name ≠ name') (hdepth : b.depth = b'.depth) :
    b.entity.slots.Disjoint b'.entity.slots := by
  obtain ⟨n, scope, hscope, hlookup, hn⟩ := resolveIn_eq_ok hb
  obtain ⟨n', scope', hscope', hlookup', hn'⟩ := resolveIn_eq_ok hb'
  obtain rfl : n = n' := by omega
  cases hscope.symm.trans hscope'
  obtain ⟨level, hlevel⟩ := mem_levels (List.mem_of_getElem? hscope)
  exact disjoint_of_lookup (levels_after hlevel).1 hlookup hlookup' hne

/-- A declaration binds its name to the slots from the cursor on. -/
theorem declare_slots {s : ScopeStack} {name : String} {n slot : Nat} {entity : Nat → Entity}
    (h : (conclude s .slot ((s.declare name n entity).mapError .fault)).1 = .slot slot) :
    slot = s.inner.cursor ∧
      (conclude s .slot ((s.declare name n entity).mapError .fault)).2.inner.lookup name =
        some ⟨entity slot, 0⟩ := by
  cases hdeclare : s.declare name n entity with
  | error f =>
      rw [hdeclare] at h
      exact nomatch h
  | ok r =>
      obtain ⟨first, t⟩ := r
      rw [hdeclare] at h
      cases h
      obtain ⟨⟨cursor, inner⟩, htake, hput⟩ := bind_eq_ok.mp hdeclare
      rw [Scope.take] at htake
      split at htake
      · cases htake
        cases hput
        exact ⟨rfl, by rw [mapError_ok, conclude, Scope.lookup_insert, if_pos rfl]⟩
      · contradiction

/-- What is declared gets slots that nothing in the scope has, not even what its name stood for
before. -/
theorem takes_fresh {actions : List Action} {a : Action} {name : String} {n slot : Nat}
    (ha : a.takes = some (name, n)) (hslot : ((after actions).perform a).1 = .slot slot) :
    (∃ b, ((after actions).perform a).2.inner.lookup name = some b ∧
        b.entity.slots = List.range' slot n) ∧
      ∀ other b, (after actions).inner.lookup other = some b →
        b.entity.slots.Disjoint (List.range' slot n) := by
  have hdeclared : slot = (after actions).inner.cursor ∧
      ∃ b, ((after actions).perform a).2.inner.lookup name = some b ∧
        b.entity.slots = List.range' slot n := by
    cases a with
    | scalar name ty hint =>
        cases ha
        obtain ⟨hcursor, hlookup⟩ := declare_slots hslot
        exact ⟨hcursor, _, hlookup, rfl⟩
    | array name ty length =>
        cases ha
        obtain ⟨hcursor, hlookup⟩ := declare_slots hslot
        exact ⟨hcursor, _, hlookup, rfl⟩
    | _ => contradiction
  obtain ⟨rfl, hbound⟩ := hdeclared
  refine ⟨hbound, fun other b hb taken hshared htaken => ?_⟩
  obtain ⟨level, hlevel⟩ := mem_levels (s := after actions) List.mem_cons_self
  have hbelow := (levels_after hlevel).1.below b.entity
    (List.mem_map_of_mem (f := fun entry => entry.2.entity) (Scope.mem_of_lookup hb))
  have hlt := b.entity.lt_limit hshared
  have hle := (List.mem_range'_1.mp htaken).1
  omega

end ScopeStack

/-- Whatever is done with scopes, starting from one that is empty: the things of each open scope
share no slot and end below its cursor, and its mark is the largest cursor that it ever had, before
it was rewound or since.  A name that is declared, anew or again, gets slots that nothing in the
scope has.  So different names never stand for the same slot of the same scope. -/
theorem slots_never_alias (actions : List Action) :
    (∀ (level : Nat) (scope : Scope), (ScopeStack.after actions).levels[level]? = some scope →
        Unshared scope.entities scope.cursor ∧ scope.cursor ≤ scope.slots ∧
          IsGreatest {cursor | HadCursor actions level cursor} scope.slots) ∧
      (∀ a name n slot, a.takes = some (name, n) →
        ((ScopeStack.after actions).perform a).1 = .slot slot →
          (∃ b, ((ScopeStack.after actions).perform a).2.inner.lookup name = some b ∧
              b.entity.slots = List.range' slot n) ∧
            ∀ other b, (ScopeStack.after actions).inner.lookup other = some b →
              b.entity.slots.Disjoint (List.range' slot n)) ∧
      ∀ name name' b b', name ≠ name' → (ScopeStack.after actions).resolve name = .ok b →
        (ScopeStack.after actions).resolve name' = .ok b' → b.depth = b'.depth →
          b.entity.slots.Disjoint b'.entity.slots :=
  ⟨fun _ _ => ScopeStack.levels_after, fun _ _ _ _ => ScopeStack.takes_fresh,
    fun _ _ _ _ hne hb hb' => ScopeStack.disjoint_of_resolve hb hb' hne⟩

/-- Two branches in one frame, the second of which declares a name twice and then an array. -/
def Demo.branches : List Action :=
  [.scalar "x" .int .dynamic, .enter, .array "a" .int 4, .rewind, .scalar "y" .int .dynamic,
    .scalar "y" .bool .dynamic, .array "x" .int 1]

/-- In the second branch the mark is still that of the first one, and the names have slots of their
own, all below the cursor. -/
theorem branches_never_alias :
    HadCursor Demo.branches 1 4 ∧ (∀ cursor, HadCursor Demo.branches 1 cursor → cursor ≤ 4) ∧
      ∃ b b', (ScopeStack.after Demo.branches).resolve "x" = .ok b ∧
        (ScopeStack.after Demo.branches).resolve "y" = .ok b' ∧ b.depth = b'.depth ∧
        b.entity.slots = [2] ∧ b'.entity.slots = [1] ∧ b.entity.slots.Disjoint b'.entity.slots := by
  obtain ⟨hlevels, -, hresolve⟩ := slots_never_alias Demo.branches
  obtain ⟨-, -, hmark, hgreatest⟩ := hlevels 1 (ScopeStack.after Demo.branches).inner rfl
  exact ⟨hmark, fun cursor hcursor => hgreatest hcursor,
    ⟨.array .int 2 1, 0⟩, ⟨.scalar .bool 1 .dynamic, 0⟩, rfl, rfl, rfl, rfl, rfl,
    hresolve "x" "y" _ _ (by decide) rfl rfl rfl⟩

end PadCompiler
