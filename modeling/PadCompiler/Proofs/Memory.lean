import PadCompiler.Proofs.Frames
import PadCompiler.Proofs.Machine

/-!
# PadCompiler.Proofs.Memory

An environment and a chain of frames that hold the same.

`Held` speaks of one frame: its names, each with the cells it has and with what it stands
for.  The names lie on slots one after the other, so no two share a cell.  `Stored` puts
frames one inside the other.

* `Stored.scalar`, `Stored.array` — a name stands for what its cells hold, and a change to
  the cells is a change to the name and to no other;
* `Stored.declareScalar`, `Stored.declareArray` — new names;
* `Stored.enter`, `Stored.leave`, `Stored.endScope` — where frames and scopes begin and end.
-/

namespace PadCompiler

/-! ## Cells -/

/-- The cells from `slot` on hold these values. -/
def Run (cells : List Value) (slot : Nat) (values : List Value) : Prop :=
  ∀ i, i < values.length → cells[slot + i]? = values[i]?

section

variable {cells cells' values : List Value} {slot k : Nat}

theorem Run.stop_le (h : Run cells slot values) (hpos : 0 < values.length) :
    slot + values.length ≤ cells.length := by
  have hlast := h (values.length - 1) (by omega)
  rw [List.getElem?_eq_getElem (by omega : values.length - 1 < values.length)] at hlast
  have hlt := (List.getElem?_eq_some_iff.mp hlast).1
  omega

theorem Run.congr (h : Run cells slot values)
    (hsame : ∀ i, slot ≤ i → i < slot + values.length → cells'[i]? = cells[i]?) :
    Run cells' slot values := by
  intro i hi
  rw [hsame (slot + i) (by omega) (by omega)]
  exact h i hi

/-- One value of several. -/
theorem Run.element (h : Run cells slot values) (hk : k < values.length) (blank : Value) :
    Run cells (slot + k) [values.getD k blank] := by
  intro i hi
  have hzero : i = 0 := by simpa using hi
  subst hzero
  rw [Nat.add_zero, h k hk]
  simp [hk]

theorem Run.drop_take (h : Run cells slot values) (hpos : 0 < values.length) :
    (cells.drop slot).take values.length = values := by
  have hle := h.stop_le hpos
  apply List.ext_getElem?
  intro i
  by_cases hi : i < values.length
  · rw [List.getElem?_take_of_lt hi, List.getElem?_drop, h i hi]
  · rw [List.getElem?_eq_none (by simp; omega), List.getElem?_eq_none (by omega)]

theorem overwrite_length (hle : slot + values.length ≤ cells.length) :
    (overwrite cells slot values).length = cells.length := by
  simp only [overwrite, List.length_append, List.length_take, List.length_drop]
  omega

/-- The new values are there. -/
theorem overwrite_run (hle : slot + values.length ≤ cells.length) :
    Run (overwrite cells slot values) slot values := by
  intro i hi
  have htake : (cells.take slot).length = slot := by
    rw [List.length_take]
    omega
  rw [overwrite, List.append_assoc, List.getElem?_append_right (by omega), htake,
    Nat.add_sub_cancel_left, List.getElem?_append_left hi]

/-- The other cells are left alone. -/
theorem overwrite_other {i : Nat} (hle : slot + values.length ≤ cells.length)
    (hi : i < slot ∨ slot + values.length ≤ i) :
    (overwrite cells slot values)[i]? = cells[i]? := by
  have htake : (cells.take slot).length = slot := by
    rw [List.length_take]
    omega
  rw [overwrite, List.append_assoc]
  rcases hi with hi | hi
  · rw [List.getElem?_append_left (by omega), List.getElem?_take_of_lt hi]
  · rw [List.getElem?_append_right (by omega), List.getElem?_append_right (by omega), htake,
      List.getElem?_drop]
    congr 1
    omega

/-- Another value in place of one of several. -/
theorem Run.overwrite {v : Value} (h : Run cells slot values) (hk : k < values.length)
    (hle : slot + k + [v].length ≤ cells.length) :
    Run (overwrite cells (slot + k) [v]) slot (values.set k v) := by
  intro i hi
  rw [List.length_set] at hi
  rw [List.getElem?_set]
  split
  · next heq =>
      subst heq
      exact overwrite_run hle 0 Nat.one_pos
  · next hne =>
      rw [overwrite_other hle (by simp only [List.length_singleton]; omega)]
      exact h i hi

end

/-! ## One frame -/

/-- The cells of a thing hold what it stands for. -/
def Storage.Has (cells : List Value) : Storage → Datum → Prop
  | .scalar slot, .scalar value => Run cells slot [value]
  | .array base length, .array values =>
    0 < length ∧ values.length = length ∧ Run cells base values
  | _, _ => False

/-- The first slot of a thing. -/
def Storage.start : Storage → Nat
  | .scalar slot => slot
  | .array base _ => base
  | .function .. => 0

theorem Storage.start_le_stop (storage : Storage) : storage.start ≤ storage.stop := by
  cases storage with
  | scalar slot => exact Nat.le_succ slot
  | array base length => exact Nat.le_add_right base length
  | function label arity => exact Nat.le_refl 0

theorem Storage.Has.congr {cells cells' : List Value} {storage : Storage} {datum : Datum}
    (h : storage.Has cells datum)
    (hsame : ∀ i, storage.start ≤ i → i < storage.stop → cells'[i]? = cells[i]?) :
    storage.Has cells' datum := by
  cases storage with
  | scalar slot =>
      cases datum with
      | scalar value => exact Run.congr h hsame
      | array values => cases h
  | array base length =>
      cases datum with
      | scalar value => cases h
      | array values =>
          obtain ⟨hpos, hlength, hrun⟩ := h
          subst hlength
          exact ⟨hpos, rfl, hrun.congr hsame⟩
  | function label arity => cases datum <;> cases h

/-- The cells hold what the names stand for.  Every thing starts where the older ones end: the
first `n` cells are in use. -/
inductive Held (cells : List Value) : List (String × Storage) → Env → (n : Nat) → Prop
  | nil : Held cells [] [] 0
  | cons {storage datum names env} (name : String) (hhas : storage.Has cells datum)
    (h : Held cells names env storage.start) :
    Held cells ((name, storage) :: names) ((name, datum) :: env) storage.stop

namespace Held

variable {cells cells' : List Value} {names : List (String × Storage)} {env : Env} {n : Nat}
  {name : String} {storage : Storage}

theorem congr (h : Held cells names env n) (hsame : ∀ i, i < n → cells'[i]? = cells[i]?) :
    Held cells' names env n := by
  induction h with
  | nil => exact .nil
  | @cons storage datum names env name hhas h ih =>
      have hle := storage.start_le_stop
      exact .cons name (hhas.congr fun i _ hi => hsame i hi) (ih fun i hi => hsame i (by omega))

theorem length (h : Held cells names env n) : env.length = names.length := by
  induction h with
  | nil => rfl
  | cons name hhas h ih => rw [List.length_cons, List.length_cons, ih]

theorem lookup_none (h : Held cells names env n) (hname : names.lookup name = none) :
    env.lookup name = none := by
  induction h with
  | nil => rfl
  | cons other hhas h ih =>
      rw [List.lookup_cons] at hname ⊢
      cases hkey : name == other with
      | true =>
          rw [hkey] at hname
          cases hname
      | false =>
          rw [hkey] at hname
          exact ih hname

/-- A name that has cells stands for what they hold. -/
theorem lookup (h : Held cells names env n) (hname : names.lookup name = some storage) :
    storage.stop ≤ n ∧ ∃ datum, env.lookup name = some datum ∧ storage.Has cells datum := by
  induction h with
  | nil => cases hname
  | @cons newer datum names env other hhas h ih =>
      rw [List.lookup_cons] at hname ⊢
      cases hkey : name == other with
      | true =>
          rw [hkey] at hname
          cases hname
          exact ⟨Nat.le_refl _, datum, rfl, hhas⟩
      | false =>
          rw [hkey] at hname
          obtain ⟨hle, hfound⟩ := ih hname
          exact ⟨Nat.le_trans hle newer.start_le_stop, hfound⟩

/-- Other values in the cells of a name change that name only. -/
theorem set {datum : Datum} (h : Held cells names env n)
    (hname : names.lookup name = some storage) (hhas : storage.Has cells' datum)
    (hsame : ∀ i, i < storage.start ∨ storage.stop ≤ i → cells'[i]? = cells[i]?) :
    Held cells' names (Env.set name datum env) n := by
  induction h with
  | nil => cases hname
  | @cons newer old names env other hold h ih =>
      rw [List.lookup_cons] at hname
      rw [Env.set]
      cases hkey : name == other with
      | true =>
          rw [hkey] at hname
          cases hname
          exact .cons other hhas (h.congr fun i hi => hsame i (.inl hi))
      | false =>
          rw [hkey] at hname
          -- the newer name lies beyond the cells that change
          obtain ⟨hle, -⟩ := h.lookup hname
          exact .cons other (hold.congr fun i hi _ => hsame i (.inr (Nat.le_trans hle hi)))
            (ih hname)

/-- How many cells the names have does not depend on what they hold. -/
theorem used_eq (h : Held cells names env n) {env' : Env} {n' : Nat}
    (h' : Held cells' names env' n') : n = n' := by
  cases h with
  | nil =>
      cases h'
      rfl
  | cons name hhas h =>
      cases h'
      rfl

/-- Older names are held when newer ones are forgotten. -/
theorem forget {new : List (String × Storage)} (h : Held cells (new ++ names) env n) :
    ∃ older, Held cells names (env.drop new.length) older := by
  induction new generalizing env n with
  | nil => exact ⟨n, h⟩
  | cons entry new ih =>
      cases h with
      | cons name hhas h => exact ih h

end Held

/-! ## Frames -/

/-- The frames hold what the names stand for. -/
inductive Stored : List Frame → List (List Value) → Env → Prop
  | nil : Stored [] [] []
  | cons {f fs cells frames own env} (hsize : (cells.length : Int) < signedLimit)
    (hheld : Held cells f.names own f.used) (hrest : Stored fs frames env) :
    Stored (f :: fs) (cells :: frames) (own ++ env)

theorem Env.set_append_left {name : String} {datum : Datum} {own : Env} (env : Env)
    (h : own.lookup name ≠ none) :
    Env.set name datum (own ++ env) = Env.set name datum own ++ env := by
  induction own with
  | nil => exact absurd rfl h
  | cons entry own ih =>
      obtain ⟨other, old⟩ := entry
      rw [List.cons_append, Env.set, Env.set]
      cases hkey : name == other with
      | true => rfl
      | false =>
          rw [List.lookup_cons, hkey] at h
          simp [ih h]

theorem Env.set_append_right {name : String} {datum : Datum} {own : Env} (env : Env)
    (h : own.lookup name = none) :
    Env.set name datum (own ++ env) = own ++ Env.set name datum env := by
  induction own with
  | nil => rfl
  | cons entry own ih =>
      obtain ⟨other, old⟩ := entry
      rw [List.lookup_cons] at h
      rw [List.cons_append, Env.set]
      cases hkey : name == other with
      | true => simp [hkey] at h
      | false =>
          rw [hkey] at h
          simp [ih h]

/-- A thing that has cells is found in its frame. -/
theorem Stored.findFrom {fs : List Frame} {frames : List (List Value)} {env : Env}
    (h : Stored fs frames env) {name : String} {hops : Nat} {storage : Storage} {depth : Nat}
    (hfind : PadCompiler.findFrom name hops fs = .ok (storage, depth)) :
    ∃ k cells datum, depth = hops + k ∧ frames[k]? = some cells ∧
      (cells.length : Int) < signedLimit ∧ env.lookup name = some datum ∧
      storage.Has cells datum ∧
      ∀ cells' datum', cells'.length = cells.length → storage.Has cells' datum' →
        (∀ i, i < storage.start ∨ storage.stop ≤ i → cells'[i]? = cells[i]?) →
        Stored fs (frames.set k cells') (Env.set name datum' env) := by
  induction h generalizing hops with
  | nil => cases hfind
  | @cons f fs cells frames own env hsize hheld hrest ih =>
      rw [PadCompiler.findFrom] at hfind
      cases hname : f.names.lookup name with
      | some found =>
          rw [hname] at hfind
          cases hfind
          obtain ⟨-, datum, hlookup, hhas⟩ := hheld.lookup hname
          refine ⟨0, cells, datum, rfl, rfl, hsize, ?_, hhas, ?_⟩
          · rw [List.lookup_append, hlookup, Option.some_or]
          · intro cells' datum' hlength hhas' hsame
            rw [Env.set_append_left env (by simp [hlookup])]
            exact .cons (hlength ▸ hsize) (hheld.set hname hhas' hsame) hrest
      | none =>
          rw [hname] at hfind
          have hnone := hheld.lookup_none hname
          obtain ⟨k, cells', datum, hdepth, hcells, hsize', hlookup, hhas, hset⟩ := ih hfind
          refine ⟨k + 1, cells', datum, by omega, hcells, hsize', ?_, hhas, ?_⟩
          · rw [List.lookup_append, hnone, Option.none_or, hlookup]
          · intro cells'' datum' hlength hhas' hsame
            rw [Env.set_append_right env hnone]
            exact .cons hsize hheld (hset cells'' datum' hlength hhas' hsame)

/-! ## Reading and writing -/

/-- The sizes of frames. -/
def sizes (frames : List (List Value)) : List Nat :=
  frames.map List.length

section

variable {frames : List (List Value)} {cells values : List Value} {slot depth : Nat}

theorem readRun_eq (hcells : frames[depth]? = some cells) (hrun : Run cells slot values)
    (hpos : 0 < values.length) : readRun frames slot depth values.length = some values := by
  rw [readRun, hcells, Option.bind_eq_bind, Option.bind_some, if_pos (hrun.stop_le hpos),
    hrun.drop_take hpos]

theorem writeRun_eq (hcells : frames[depth]? = some cells)
    (hle : slot + values.length ≤ cells.length) :
    writeRun frames slot depth values = some (frames.set depth (overwrite cells slot values)) := by
  rw [writeRun, hcells, Option.bind_eq_bind, Option.bind_some, if_pos hle]

theorem sizes_set {cells' : List Value} (hcells : frames[depth]? = some cells)
    (hlength : cells'.length = cells.length) : sizes (frames.set depth cells') = sizes frames := by
  rw [sizes, List.map_set, hlength]
  refine List.ext_getElem? fun i => ?_
  rw [List.getElem?_set]
  split
  · next heq =>
      subst heq
      have hlt := (List.getElem?_eq_some_iff.mp hcells).1
      rw [if_pos (by simpa using hlt), sizes, List.getElem?_map, hcells]
      rfl
  · rfl

end

namespace Stored

variable {f g : Frame} {fs : List Frame} {frames : List (List Value)} {env : Env} {name : String}
  {depth : Nat}

/-- Reading and writing a variable. -/
theorem scalar {slot : Nat} (h : Stored fs frames env)
    (hfind : findIn fs name = .ok (.scalar slot, depth)) :
    (slot : Int) < signedLimit ∧ depth < frames.length ∧ ∃ v, env.scalar name = .ok v ∧
      readRun frames slot depth 1 = some [v] ∧
      ∀ v', ∃ frames', writeRun frames slot depth [v'] = some frames' ∧
        sizes frames' = sizes frames ∧ Stored fs frames' (Env.set name (.scalar v') env) := by
  obtain ⟨k, cells, datum, hdepth, hcells, hsize, hlookup, hhas, hset⟩ := h.findFrom hfind
  rw [Nat.zero_add] at hdepth
  subst hdepth
  cases datum with
  | array values => cases hhas
  | scalar v =>
      have hle := Run.stop_le hhas Nat.one_pos
      have hlt := (List.getElem?_eq_some_iff.mp hcells).1
      simp only [List.length_singleton] at hle
      refine ⟨by omega, hlt, v, by rw [Env.scalar, hlookup], ?_, fun v' => ?_⟩
      · exact readRun_eq hcells hhas Nat.one_pos
      · have hlength : (overwrite cells slot [v']).length = cells.length := overwrite_length hle
        refine ⟨_, writeRun_eq hcells hle, sizes_set hcells hlength, ?_⟩
        exact hset _ (.scalar v') hlength (overwrite_run hle) fun i hi => overwrite_other hle hi

/-- Reading and writing an array. -/
theorem array {base length : Nat} (h : Stored fs frames env)
    (hfind : findIn fs name = .ok (.array base length, depth)) :
    (base + length : Int) < signedLimit ∧ depth < frames.length ∧ ∃ values,
      env.array name = .ok values ∧ values.length = length ∧
      readRun frames base depth length = some values ∧
      ∀ k, k < length →
        (∀ blank, readRun frames (base + k) depth 1 = some [values.getD k blank]) ∧
        ∀ v, ∃ frames', writeRun frames (base + k) depth [v] = some frames' ∧
          sizes frames' = sizes frames ∧
          Stored fs frames' (Env.set name (.array (values.set k v)) env) := by
  obtain ⟨k, cells, datum, hdepth, hcells, hsize, hlookup, hhas, hset⟩ := h.findFrom hfind
  rw [Nat.zero_add] at hdepth
  subst hdepth
  cases datum with
  | scalar v => cases hhas
  | array values =>
      obtain ⟨hpos, hlength, hrun⟩ := hhas
      subst hlength
      have hle := hrun.stop_le hpos
      have hlt := (List.getElem?_eq_some_iff.mp hcells).1
      refine ⟨by omega, hlt, values, by rw [Env.array, hlookup], rfl,
        readRun_eq hcells hrun hpos, fun k hk => ⟨fun blank => ?_, fun v => ?_⟩⟩
      · exact readRun_eq hcells (hrun.element hk blank) Nat.one_pos
      · have hle' : base + k + [v].length ≤ cells.length := by
          simp only [List.length_singleton]
          omega
        have hlength := overwrite_length hle'
        refine ⟨_, writeRun_eq hcells hle', sizes_set hcells hlength, ?_⟩
        refine hset _ (.array (values.set k v)) hlength ⟨hpos, by simp, ?_⟩ fun i hi =>
          overwrite_other hle' ?_
        · exact hrun.overwrite hk hle'
        · simp only [Storage.start, Storage.stop, List.length_singleton] at hi ⊢
          omega

/-- A new variable. -/
theorem declareScalar (h : Stored (f :: fs) frames env) (name : String) (v : Value)
    (hroom : f.used + 1 ≤ (sizes frames).headD 0) :
    (f.used : Int) < signedLimit ∧ ∃ frames', writeRun frames f.used 0 [v] = some frames' ∧
      sizes frames' = sizes frames ∧
      Stored (f.add name 1 .scalar :: fs) frames' ((name, .scalar v) :: env) := by
  cases h with
  | @cons f fs cells frames own env hsize hheld hrest =>
      have hle : f.used + [v].length ≤ cells.length := hroom
      have hlength := overwrite_length hle
      have hlt : (f.used : Int) < signedLimit := by
        simp only [List.length_singleton] at hle
        omega
      refine ⟨hlt, _, writeRun_eq rfl hle, sizes_set rfl hlength, ?_⟩
      have hheld' := hheld.congr fun i hi => overwrite_other hle (.inl hi)
      have hnew : Held _ (f.add name 1 .scalar).names ((name, .scalar v) :: own)
          (f.add name 1 .scalar).used :=
        .cons name (overwrite_run hle) hheld'
      have hstored := Stored.cons (hlength ▸ hsize) hnew hrest
      exact hstored

/-- A new array. -/
theorem declareArray (h : Stored (f :: fs) frames env) (name : String) {values : List Value}
    (hpos : 0 < values.length) (hroom : f.used + values.length ≤ (sizes frames).headD 0) :
    (f.used + values.length : Int) < signedLimit ∧
      ∃ frames', writeRun frames f.used 0 values = some frames' ∧
        sizes frames' = sizes frames ∧
        Stored (f.add name values.length (.array · values.length) :: fs) frames'
          ((name, .array values) :: env) := by
  cases h with
  | @cons f fs cells frames own env hsize hheld hrest =>
      have hle : f.used + values.length ≤ cells.length := hroom
      have hlength := overwrite_length hle
      refine ⟨by omega, _, writeRun_eq rfl hle, sizes_set rfl hlength, ?_⟩
      have hheld' := hheld.congr fun i hi => overwrite_other hle (.inl hi)
      have hnew : Held _ (f.add name values.length (.array · values.length)).names
          ((name, .array values) :: own) (f.add name values.length (.array · values.length)).used :=
        .cons name ⟨hpos, rfl, overwrite_run hle⟩ hheld'
      have hstored := Stored.cons (hlength ▸ hsize) hnew hrest
      exact hstored

/-- A new frame has no names. -/
theorem enter (h : Stored fs frames env) {size : Nat} (hsize : (size : Int) < signedLimit)
    (blank : Value) : Stored ({} :: fs) (List.replicate size blank :: frames) env := by
  have hlength : ((List.replicate size blank).length : Int) < signedLimit := by
    rw [List.length_replicate]
    exact hsize
  have hnone : Held (List.replicate size blank) ({} : Frame).names [] ({} : Frame).used := .nil
  have hstored := Stored.cons hlength hnone h
  exact hstored

/-- A frame without names can be closed. -/
theorem leave (h : Stored ({} :: fs) frames env) :
    ∃ cells outer, frames = cells :: outer ∧ Stored fs outer env := by
  cases h with
  | cons hsize hheld hrest =>
      cases hheld
      exact ⟨_, _, rfl, hrest⟩

theorem frames_length (h : Stored fs frames env) : frames.length = fs.length := by
  induction h with
  | nil => rfl
  | cons hsize hheld hrest ih => rw [List.length_cons, List.length_cons, ih]

/-- The names alone tell how long the environment is. -/
theorem env_length {frames' : List (List Value)} {env' : Env} (h : Stored fs frames env)
    (h' : Stored fs frames' env') : env'.length = env.length := by
  induction h generalizing frames' env' with
  | nil =>
      cases h'
      rfl
  | cons hsize hheld hrest ih =>
      cases h' with
      | cons hsize' hheld' hrest' =>
          rw [List.length_append, List.length_append, hheld'.length, hheld.length, ih hrest']

/-- At the end of a scope its names are dropped.  The cells stay as they are. -/
theorem endScope {new : List (String × Storage)} {frames' : List (List Value)} {env' : Env}
    (h : Stored (f :: fs) frames env) (h' : Stored (g :: fs) frames' env')
    (hnames : g.names = new ++ f.names) :
    Stored (f :: fs) frames' (env'.drop (env'.length - env.length)) := by
  cases h with
  | @cons f fs cells frames own env hsize hheld hrest =>
      cases h' with
      | @cons g fs cells' frames' own' env' hsize' hheld' hrest' =>
          rw [hnames] at hheld'
          have hown' : own'.length = new.length + own.length := by
            rw [hheld'.length, List.length_append, hheld.length]
          have hshort : new.length ≤ own'.length := by omega
          have hcount : (own' ++ env').length - (own ++ env).length = new.length := by
            rw [List.length_append, List.length_append, hrest.env_length hrest', hown']
            omega
          obtain ⟨older, hforget⟩ := hheld'.forget
          have holder := hheld.used_eq hforget
          subst holder
          rw [hcount, List.drop_append_of_le_length hshort]
          exact .cons hsize' hforget hrest'

end Stored

end PadCompiler
