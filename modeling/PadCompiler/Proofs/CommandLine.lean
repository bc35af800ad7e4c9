import Mathlib.Data.List.Basic
import PadCompiler.Shell.Disk

/-!
# PadCompiler.Proofs.CommandLine

The readers of the command line, each of which looks through the line on its own, against one
reading that goes from left to right and gives every argument one role: `reading`.

* `firstFile_eq` — the input file is the first argument in that role;
* `hasFlag_iff` — a flag is seen as a flag and as the value of another one;
* `rolesFrom_taken` — what stands after the first occurrence of a flag is its value exactly if that
  occurrence is a flag;
* `readers_agree_iff` — so the readers agree with the reading exactly on lines where no flag stands
  for something else first.
-/

namespace PadCompiler.Shell

/-! ## Roles -/

/-- What an argument is there for. -/
inductive Role where
  /-- The name that the program is called by. -/
  | program
  | flag
  /-- The value of the flag before it. -/
  | value (flag : String)
  | file
deriving DecidableEq, Repr

/-- The arguments with their roles, from left to right.  `pending` is the flag that the first of
them is the value of. -/
def rolesFrom : (pending : Option String) → List String → List (String × Role)
  | _, [] => []
  | some flag, arg :: rest => (arg, .value flag) :: rolesFrom none rest
  | none, arg :: rest =>
    if arg ∈ valueFlags then (arg, .flag) :: rolesFrom (some arg) rest
    else (arg, if isFlag arg then .flag else .file) :: rolesFrom none rest

/-- A command line with the role of everything in it. -/
def reading : List String → List (String × Role)
  | [] => []
  | name :: args => (name, .program) :: rolesFrom none args

theorem rolesFrom_map_fst (pending : Option String) (args : List String) :
    (rolesFrom pending args).map (·.1) = args := by
  induction args generalizing pending with
  | nil => cases pending <;> rfl
  | cons arg rest ih =>
      cases pending with
      | some flag => rw [rolesFrom, List.map_cons, ih]
      | none =>
          rw [rolesFrom]
          split <;> rw [List.map_cons, ih]

theorem mem_iff_exists_role (pending : Option String) {args : List String} {arg : String} :
    arg ∈ args ↔ ∃ role, (arg, role) ∈ rolesFrom pending args := by
  calc arg ∈ args ↔ arg ∈ (rolesFrom pending args).map (·.1) := by rw [rolesFrom_map_fst]
    _ ↔ ∃ role, (arg, role) ∈ rolesFrom pending args := by simp

theorem reading_map_fst (line : List String) : (reading line).map (·.1) = line := by
  cases line with
  | nil => rfl
  | cons name args => rw [reading, List.map_cons, rolesFrom_map_fst]

/-- Where nothing is pending, the first argument is no value. -/
theorem rolesFrom_none_head {args : List String} {e : String × Role}
    (h : (rolesFrom none args)[0]? = some e) : e.2 = .flag ∨ e.2 = .file := by
  cases args with
  | nil => contradiction
  | cons arg rest =>
      rw [rolesFrom] at h
      split at h
      · cases h
        exact .inl rfl
      · cases h
        cases isFlag arg with
        | true => exact .inl rfl
        | false => exact .inr rfl

/-- A file does not look like a flag, and no argument is the name of the program. -/
theorem role_of_isFlag {pending : Option String} {args : List String} {f : String} {role : Role}
    (hf : isFlag f = true) (h : (f, role) ∈ rolesFrom pending args) :
    role = .flag ∨ ∃ g, role = .value g := by
  induction args generalizing pending with
  | nil => cases pending <;> contradiction
  | cons arg rest ih =>
      cases pending with
      | some flag =>
          rw [rolesFrom, List.mem_cons] at h
          rcases h with heq | hrest
          · cases heq
            exact .inr ⟨flag, rfl⟩
          · exact ih hrest
      | none =>
          rw [rolesFrom] at h
          split at h
          · rcases List.mem_cons.mp h with heq | hrest
            · cases heq
              exact .inl rfl
            · exact ih hrest
          · rcases List.mem_cons.mp h with heq | hrest
            · cases heq
              rw [if_pos hf]
              exact .inl rfl
            · exact ih hrest

/-! ## The input file -/

/-- The input file is the first argument that stands as a file. -/
theorem firstFile_eq (args : List String) :
    firstFile args = ((rolesFrom none args).find? (·.2 == .file)).map (·.1) := by
  fun_induction firstFile args with
  | case1 => rfl
  | case2 arg harg => simp [rolesFrom, harg]
  | case3 arg harg value rest ih => simp [rolesFrom, harg, ih]
  | case4 arg rest harg hflag ih => simp [rolesFrom, harg, hflag, ih]
  | case5 arg rest harg hflag => simp [rolesFrom, harg, hflag]

theorem inputFile_eq (line : List String) :
    inputFile line = ((reading line).find? (·.2 == .file)).map (·.1) := by
  cases line with
  | nil => rfl
  | cons name args =>
      rw [inputFile, List.tail_cons, firstFile_eq, reading, List.find?_cons_of_neg (by simp)]

/-! ## Flags -/

/-- A flag is there if it stands as a flag, or as the value of another. -/
theorem hasFlag_iff {f : String} (hf : isFlag f = true) (line : List String) :
    hasFlag f line = true ↔
      (f, .flag) ∈ reading line ∨ ∃ g, (f, .value g) ∈ reading line := by
  cases line with
  | nil => simp [hasFlag, reading]
  | cons name args =>
      rw [hasFlag, List.tail_cons, List.contains_iff_mem, mem_iff_exists_role none]
      constructor
      · rintro ⟨role, hrole⟩
        rcases role_of_isFlag hf hrole with rfl | ⟨g, rfl⟩
        · exact .inl (List.mem_cons_of_mem _ hrole)
        · exact .inr ⟨g, List.mem_cons_of_mem _ hrole⟩
      · rintro (h | ⟨g, h⟩)
        · exact ⟨.flag, by simpa [reading] using h⟩
        · exact ⟨.value g, by simpa [reading] using h⟩

/-! ## Values -/

theorem flagValue_eq_absent_iff (f : String) (line : List String) :
    flagValue f line = .absent ↔ f ∉ line := by
  fun_induction flagValue f line with
  | case1 => simp
  | case2 => simp
  | case3 => simp
  | case4 arg rest harg ih => simp [ih, Ne.symm harg]

theorem flagValue_eq_given_iff (f v : String) (args : List String) :
    flagValue f args = .given v ↔ args[args.idxOf f + 1]? = some v := by
  fun_induction flagValue f args with
  | case1 => simp
  | case2 => simp
  | case3 => simp
  | case4 arg rest harg ih => simp [ih, List.idxOf_cons_ne rest harg]

/-- What stands after the first occurrence of a flag is the value of the flag exactly if that
occurrence stands as a flag.  If not, it is a flag or a file. -/
theorem rolesFrom_taken {f : String} (hf : f ∈ valueFlags) {pending : Option String}
    {args : List String} {e : String × Role}
    (h : (rolesFrom pending args)[args.idxOf f + 1]? = some e) :
    (rolesFrom pending args).lookup f = some .flag ∧ e.2 = .value f ∨
      (rolesFrom pending args).lookup f ≠ some .flag ∧ (e.2 = .flag ∨ e.2 = .file) := by
  induction args generalizing pending with
  | nil => cases pending <;> contradiction
  | cons arg rest ih =>
      by_cases harg : arg = f
      · subst harg
        rw [List.idxOf_cons_self, Nat.zero_add] at h
        cases pending with
        | some flag =>
            rw [rolesFrom, List.getElem?_cons_succ] at h
            exact .inr ⟨by simp [rolesFrom], rolesFrom_none_head h⟩
        | none =>
            rw [rolesFrom, if_pos hf, List.getElem?_cons_succ] at h
            refine .inl ⟨by simp [rolesFrom, hf], ?_⟩
            cases rest with
            | nil => contradiction
            | cons value rest =>
                cases h
                rfl
      · have hlookup (role : Role) (others : List (String × Role)) :
            ((arg, role) :: others).lookup f = others.lookup f := by
          rw [List.lookup_cons, beq_false_of_ne (Ne.symm harg)]
        rw [List.idxOf_cons_ne rest harg] at h
        cases pending with
        | some flag =>
            rw [rolesFrom, List.getElem?_cons_succ] at h
            rw [rolesFrom, hlookup]
            exact ih h
        | none =>
            rw [rolesFrom] at h ⊢
            split at h
            · next hvalue =>
                rw [List.getElem?_cons_succ] at h
                rw [if_pos hvalue, hlookup]
                exact ih h
            · next hvalue =>
                rw [List.getElem?_cons_succ] at h
                rw [if_neg hvalue, hlookup]
                exact ih h

theorem reading_taken {f : String} (hf : f ∈ valueFlags) {line : List String} {e : String × Role}
    (h : (reading line)[line.idxOf f + 1]? = some e) :
    (reading line).lookup f = some .flag ∧ e.2 = .value f ∨
      (reading line).lookup f ≠ some .flag ∧ (e.2 = .flag ∨ e.2 = .file) := by
  cases line with
  | nil => contradiction
  | cons name args =>
      rw [reading, List.getElem?_cons_succ] at h
      rw [reading, List.lookup_cons]
      by_cases hname : name = f
      · rw [hname, List.idxOf_cons_self] at h
        exact .inr ⟨by simp [hname], rolesFrom_none_head h⟩
      · rw [List.idxOf_cons_ne args hname] at h
        rw [beq_false_of_ne (Ne.symm hname)]
        exact rolesFrom_taken hf h

theorem reading_getElem?_fst (args : List String) (i : Nat) :
    args[i]? = (reading args)[i]?.map (·.1) := by
  rw [← List.getElem?_map, reading_map_fst]

/-- The value that is found for a flag stands in the reading, as a value only of that flag. -/
theorem flagValue_taken {f : String} (hf : f ∈ valueFlags) {line : List String} {v : String}
    (h : flagValue f line = .given v) :
    ∃ role, (reading line)[line.idxOf f + 1]? = some (v, role) ∧
      ((reading line).lookup f = some .flag ∧ role = .value f ∨
        (reading line).lookup f ≠ some .flag ∧ (role = .flag ∨ role = .file)) := by
  rw [flagValue_eq_given_iff, reading_getElem?_fst] at h
  obtain ⟨⟨arg, role⟩, htaken, rfl⟩ := Option.map_eq_some_iff.mp h
  exact ⟨role, htaken, reading_taken hf htaken⟩

/-! ## Agreement -/

/-- The readers take every argument for what it is there for. -/
structure ReadAlike (line : List String) : Prop where
  /-- A flag that is seen stands as a flag. -/
  flags : ∀ f, isFlag f = true → hasFlag f line = true → (f, .flag) ∈ reading line
  /-- A value is looked for after an argument that stands as a flag. -/
  values : ∀ f ∈ valueFlags, flagValue f line ≠ .absent → (reading line).lookup f = some .flag
  /-- What is found there stands as the value of that flag. -/
  taken : ∀ f ∈ valueFlags, ∀ v, flagValue f line = .given v →
    (reading line)[line.idxOf f + 1]? = some (v, .value f)
  /-- The input file is the first argument that stands as a file. -/
  input : inputFile line = ((reading line).find? (·.2 == .file)).map (·.1)
  /-- It is not the argument where a value is found. -/
  apart : ∀ f ∈ valueFlags, (reading line).findIdx? (·.2 == .file) ≠ some (line.idxOf f + 1)

theorem readAlike_iff (line : List String) :
    ReadAlike line ↔
      (∀ f, isFlag f = true → f ∈ line.tail → (f, .flag) ∈ reading line) ∧
        ∀ f ∈ valueFlags, f ∈ line → (reading line).lookup f = some .flag := by
  have hpresent (f : String) : flagValue f line ≠ .absent ↔ f ∈ line := by
    rw [ne_eq, flagValue_eq_absent_iff, not_not]
  constructor
  · intro h
    exact ⟨fun f hf hmem => h.flags f hf (List.contains_iff_mem.mpr hmem),
      fun f hf hmem => h.values f hf ((hpresent f).mpr hmem)⟩
  · rintro ⟨hflags, hvalues⟩
    refine ⟨fun f hf hhas => hflags f hf (List.contains_iff_mem.mp hhas),
      fun f hf hthere => hvalues f hf ((hpresent f).mp hthere), fun f hf v hv => ?_,
      inputFile_eq line, fun f hf hfile => ?_⟩
    · have hflag := hvalues f hf ((hpresent f).mp (by rw [hv]; nofun))
      obtain ⟨role, htaken, ⟨-, rfl⟩ | ⟨hno, -⟩⟩ := flagValue_taken hf hv
      · exact htaken
      · exact absurd hflag hno
    · obtain ⟨hlt, hrole, -⟩ := List.findIdx?_eq_some_iff_getElem.mp hfile
      have hat := List.getElem?_eq_getElem hlt
      have hmem : f ∈ line := by
        rw [← List.length_map (·.1), reading_map_fst] at hlt
        exact List.idxOf_lt_length_iff.mp (Nat.lt_of_succ_lt hlt)
      rcases reading_taken hf hat with ⟨-, hvalue⟩ | ⟨hno, -⟩
      · simp [hvalue] at hrole
      · exact hno (hvalues f hf hmem)

/-- The input file is always the first argument that stands as a file.  A flag is seen where it
stands as a flag or as a value, and the value of a flag is what stands after its first occurrence:
its value exactly if that occurrence stands as a flag, and otherwise another flag or a file.  So the
readers agree with the reading from left to right exactly if every flag that is there stands as a
flag somewhere, and those with values where they occur first. -/
theorem readers_agree_iff (line : List String) :
    inputFile line = ((reading line).find? (·.2 == .file)).map (·.1) ∧
      (∀ f, isFlag f = true → (hasFlag f line = true ↔
        (f, .flag) ∈ reading line ∨ ∃ g, (f, .value g) ∈ reading line)) ∧
      (∀ f ∈ valueFlags, ∀ v, flagValue f line = .given v → ∃ role,
        (reading line)[line.idxOf f + 1]? = some (v, role) ∧
          ((reading line).lookup f = some .flag ∧ role = .value f ∨
            (reading line).lookup f ≠ some .flag ∧ (role = .flag ∨ role = .file))) ∧
      (ReadAlike line ↔
        (∀ f, isFlag f = true → f ∈ line.tail → (f, .flag) ∈ reading line) ∧
          ∀ f ∈ valueFlags, f ∈ line → (reading line).lookup f = some .flag) :=
  ⟨inputFile_eq line, fun _ hf => hasFlag_iff hf line, fun _ hf _ hv => flagValue_taken hf hv,
    readAlike_iff line⟩

/-- The text goes to one file and the compiled program to another. -/
theorem usual_line_agrees :
    ReadAlike ["parl", "prog.bin", "-o", "prog.txt", "--emit-bin", "prog.out"] := by
  obtain ⟨-, -, -, hagree⟩ :=
    readers_agree_iff ["parl", "prog.bin", "-o", "prog.txt", "--emit-bin", "prog.out"]
  have hflags : ∀ f ∈ ["prog.bin", "-o", "prog.txt", "--emit-bin", "prog.out"],
      isFlag f = true → (f, .flag) ∈
        reading ["parl", "prog.bin", "-o", "prog.txt", "--emit-bin", "prog.out"] := by
    decide
  exact hagree.mpr ⟨fun f hf hmem => hflags f hmem hf, by decide⟩

/-- The text is to go to a file that has the name of a flag.  The flag is taken to be there, with
the input file as its value: what is read is also written. -/
theorem overwriting_line :
    reading ["parl", "-o", "--emit-bin", "prog.bin"] =
        [("parl", .program), ("-o", .flag), ("--emit-bin", .value "-o"), ("prog.bin", .file)] ∧
      flagValue "--emit-bin" ["parl", "-o", "--emit-bin", "prog.bin"] = .given "prog.bin" ∧
      inputFile ["parl", "-o", "--emit-bin", "prog.bin"] = some "prog.bin" ∧
      ¬ ReadAlike ["parl", "-o", "--emit-bin", "prog.bin"] :=
  ⟨by decide, by decide, by decide, fun h => h.apart "--emit-bin" (by decide) (by decide)⟩

end PadCompiler.Shell
