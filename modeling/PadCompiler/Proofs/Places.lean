import PadCompiler.Proofs.Layout

/-!
# PadCompiler.Proofs.Places

What holds of every place in the open scopes.

A property of places that holds of all that is declared holds of all that is ever looked up
(`ScopeStack.Keeps.find`), whatever else is done with scopes: a scope is opened with nothing in it,
closing one brings the others nearer, and a new hint moves nothing.
-/

namespace PadCompiler

variable {P : Storage → Prop}

/-- Every result of a pass over a list comes of one of its members. -/
theorem exists_mem_of_mapM {f : α → Except ε β} {l : List α} {l' : List β}
    (h : l.mapM f = .ok l') {b : β} (hb : b ∈ l') : ∃ a ∈ l, f a = .ok b := by
  induction l generalizing l' with
  | nil =>
      rw [List.mapM_nil, pure_eq_ok] at h
      rw [← h] at hb
      contradiction
  | cons a l ih =>
      rw [List.mapM_cons] at h
      obtain ⟨c, hc, h⟩ := bind_eq_ok.mp h
      obtain ⟨cs, hcs, h⟩ := bind_eq_ok.mp h
      rw [pure_eq_ok] at h
      rw [← h] at hb
      rcases List.mem_cons.mp hb with rfl | hb
      · exact ⟨a, List.mem_cons_self, hc⟩
      · obtain ⟨a', ha', hfa⟩ := ih hcs hb
        exact ⟨a', List.mem_cons_of_mem a ha', hfa⟩

/-! ## One scope -/

/-- Every place in a scope has the property. -/
def Scope.Keeps (P : Storage → Prop) (s : Scope) : Prop :=
  ∀ entry ∈ s.bindings, P entry.2.entity.storage

namespace Scope.Keeps

variable {s : Scope}

theorem empty : ({} : Scope).Keeps P := by
  intro entry hentry
  contradiction

theorem insert (hs : s.Keeps P) (name : String) {b : Binding} (hb : P b.entity.storage) :
    (s.insert name b).Keeps P := by
  intro entry hentry
  rcases List.mem_cons.mp hentry with rfl | hentry
  · exact hb
  · exact hs entry (List.mem_filter.mp hentry).1

/-- Changes of bindings that keep the places. -/
theorem map (hs : s.Keeps P) {g : String × Binding → String × Binding}
    (hg : ∀ entry, (g entry).2.entity.storage = entry.2.entity.storage) :
    ({ s with bindings := s.bindings.map g } : Scope).Keeps P := by
  intro entry hentry
  obtain ⟨entry', hmem, rfl⟩ := List.mem_map.mp hentry
  rw [hg]
  exact hs entry' hmem

theorem modify (hs : s.Keeps P) (name : String) (hint : Lowered) :
    (s.modify name fun b => { b with entity := b.entity.withHint hint }).Keeps P := by
  refine hs.map fun entry => ?_
  obtain ⟨key, entity, depth⟩ := entry
  by_cases hkey : key = name
  · cases entity <;> simp [hkey, Entity.withHint, Entity.storage]
  · simp [hkey]

theorem lift {s' : Scope} (hs : s.Keeps P) (h : s.lift = .ok s') : s'.Keeps P := by
  obtain ⟨bindings, hbindings, h⟩ := bind_eq_ok.mp h
  rw [pure_eq_ok] at h
  subst h
  intro entry hentry
  obtain ⟨entry', hmem, hlift⟩ := exists_mem_of_mapM hbindings hentry
  have hkept := hs entry' hmem
  unfold Scope.liftBinding at hlift
  split at hlift
  · contradiction
  · cases hlift
    exact hkept

theorem lookup (hs : s.Keeps P) {name : String} {b : Binding} (h : s.lookup name = some b) :
    P b.entity.storage := by
  obtain ⟨before, after, hbindings, -⟩ := List.lookup_eq_some_iff.mp h
  exact hs (name, b) (by simp [hbindings])

end Scope.Keeps

/-! ## The open scopes -/

/-- Every place in the open scopes has the property. -/
def ScopeStack.Keeps (P : Storage → Prop) (s : ScopeStack) : Prop :=
  ∀ scope ∈ s.toList, scope.Keeps P

namespace ScopeStack.Keeps

variable {s s' : ScopeStack}

theorem find (hs : s.Keeps P) {name : String} {storage : Storage} {depth : Nat}
    (h : Scoping.find s name = .ok (storage, depth)) : P storage := by
  suffices hresolve : ∀ hops scopes b, (∀ scope ∈ scopes, scope.Keeps P) →
      resolveIn name hops scopes = .ok b → P b.entity.storage by
    obtain ⟨b, hb, hfound⟩ := map_eq_ok.mp h
    cases hfound
    exact hresolve 0 s.toList b hs hb
  intro hops scopes b hscopes hb
  induction scopes generalizing hops with
  | nil => contradiction
  | cons scope rest ih =>
      obtain ⟨hscope, hrest⟩ := List.forall_mem_cons.mp hscopes
      rw [resolveIn] at hb
      cases hlookup : scope.lookup name with
      | none =>
          rw [hlookup] at hb
          exact ih (hops + 1) hrest hb
      | some b' =>
          simp only [hlookup] at hb
          split at hb
          · cases hb
            exact hscope.lookup hlookup
          · contradiction

theorem enter (hs : s.Keeps P) : (Scoping.enter s).Keeps P := by
  refine List.forall_mem_cons.mpr ⟨.empty, fun scope hscope => ?_⟩
  obtain ⟨scope', hmem, rfl⟩ := List.mem_map.mp hscope
  exact (hs scope' hmem).map fun entry => rfl

/-- A scope with nothing in it may take the place of the innermost one. -/
theorem fresh (hs : s.Keeps P) {inner : Scope} (hinner : inner.bindings = []) :
    (ScopeStack.mk inner s.outer).Keeps P := by
  refine List.forall_mem_cons.mpr ⟨fun entry hentry => ?_, (List.forall_mem_cons.mp hs).2⟩
  rw [hinner] at hentry
  contradiction

theorem leave (hs : s.Keeps P) {size : Nat} (h : Scoping.leave s = .ok (size, s')) :
    s'.Keeps P := by
  obtain ⟨⟨scope, scopes⟩, hleave, hfound⟩ := map_eq_ok.mp h
  cases hfound
  obtain ⟨-, houter⟩ := List.forall_mem_cons.mp hs
  unfold ScopeStack.leave at hleave
  split at hleave
  · contradiction
  · next parent rest heq =>
      obtain ⟨hparent, hrest⟩ := List.forall_mem_cons.mp (heq ▸ houter)
      obtain ⟨parent', hparent', hleave⟩ := bind_eq_ok.mp hleave
      obtain ⟨rest', hrest', hleave⟩ := bind_eq_ok.mp hleave
      rw [pure_eq_ok] at hleave
      cases hleave
      refine List.forall_mem_cons.mpr ⟨hparent.lift (mapError_eq_ok.mp hparent'), ?_⟩
      intro scope hscope
      obtain ⟨scope', hmem, hlift⟩ := exists_mem_of_mapM (mapError_eq_ok.mp hrest') hscope
      exact (hrest scope' hmem).lift hlift

/-- What is declared ends on a slot whose number is a word. -/
theorem declare (hs : s.Keeps P) {name : String} {size slot : Nat} {entity : Nat → Entity}
    (h : s.declare name size entity = .ok (slot, s'))
    (hentity : ∀ slot, slot + size < wordLimit → P (entity slot).storage) : s'.Keeps P := by
  obtain ⟨hinner, houter⟩ := List.forall_mem_cons.mp hs
  obtain ⟨⟨first, scope⟩, htake, h⟩ := bind_eq_ok.mp h
  rw [pure_eq_ok] at h
  cases h
  unfold Scope.take at htake
  simp only at htake
  split at htake
  · next hlt =>
      cases htake
      exact List.forall_mem_cons.mpr ⟨Scope.Keeps.insert hinner name (hentity _ hlt), houter⟩
  · contradiction

theorem assign (hs : s.Keeps P) {name : String} {hint : Lowered} {found : Storage × Nat}
    (h : Scoping.assign s name hint = .ok (found, s')) : s'.Keeps P := by
  suffices hmodify : ∀ scopes b scopes', (∀ scope ∈ scopes, scope.Keeps P) →
      modifyIn name (fun b => { b with entity := b.entity.withHint hint }) scopes =
        some (b, scopes') → ∀ scope ∈ scopes', scope.Keeps P by
    obtain ⟨⟨b, scopes⟩, hset, hfound⟩ := map_eq_ok.mp h
    cases hfound
    unfold ScopeStack.setHint at hset
    simp only at hset
    split at hset
    · next b' inner outer hmodified =>
        cases hset
        exact hmodify s.toList _ _ hs hmodified
    · contradiction
  intro scopes b scopes' hscopes hmodified
  induction scopes generalizing b scopes' with
  | nil => contradiction
  | cons scope rest ih =>
      obtain ⟨hscope, hrest⟩ := List.forall_mem_cons.mp hscopes
      rw [modifyIn] at hmodified
      cases hlookup : scope.lookup name with
      | some b' =>
          rw [hlookup] at hmodified
          cases hmodified
          exact List.forall_mem_cons.mpr ⟨hscope.modify name hint, hrest⟩
      | none =>
          simp only [hlookup] at hmodified
          obtain ⟨⟨b', rest'⟩, hmodified', heq⟩ := Option.map_eq_some_iff.mp hmodified
          cases heq
          exact List.forall_mem_cons.mpr ⟨hscope, ih _ _ hrest hmodified'⟩

end ScopeStack.Keeps

end PadCompiler
