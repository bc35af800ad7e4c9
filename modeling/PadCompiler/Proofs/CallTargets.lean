import Mathlib.Data.List.Nodup
import PadCompiler.Demo
import PadCompiler.Proofs.CallSites

/-!
# PadCompiler.Proofs.CallTargets

Which blocks the calls of a program select.

The labels in a block are the names of the functions that its source calls, in the order of the
code and in small letters (`Sites.labels`).  Blocks carry the names of their functions in small
letters too, and the last one carries `mainLabel`.

So a label stands for one block as long as no other function has the same small letters.  Names
that differ only in capitals are accepted nevertheless, even where redeclarations are rejected.
-/

namespace PadCompiler

/-! ## Programs -/

/-- Functions with distinct names have one block each. -/
theorem FunctionBlocks.exists_map {top : Frame} {ds : List FunctionDecl} {blocks : List Block}
    (h : FunctionBlocks top ds blocks) (hdistinct : (ds.map (·.name)).Nodup) :
    ∃ block : FunctionDecl → Block, blocks = ds.map block ∧
      ∀ d ∈ ds, (block d).label = Text.lower d.name ∧ FunctionCode top d (block d).code := by
  induction h with
  | nil => exact ⟨fun d => ⟨d.name, []⟩, rfl, by simp⟩
  | @cons d ds code blocks hcode hrest ih =>
      rw [List.map_cons, List.nodup_cons] at hdistinct
      obtain ⟨block, rfl, hblock⟩ := ih hdistinct.2
      let block' : FunctionDecl → Block := fun d' =>
        if d'.name = d.name then ⟨Text.lower d.name, code⟩ else block d'
      have hfirst : block' d = ⟨Text.lower d.name, code⟩ := if_pos rfl
      have hsame : ∀ d' ∈ ds, block' d' = block d' := fun d' hd' =>
        if_neg fun heq : d'.name = d.name => hdistinct.1 (heq ▸ List.mem_map_of_mem hd')
      refine ⟨block', by rw [List.map_cons, hfirst, List.map_congr_left hsame], ?_⟩
      refine List.forall_mem_cons.mpr ⟨?_, fun d' hd' => ?_⟩
      · rw [hfirst]
        exact ⟨rfl, hcode⟩
      · rw [hsame d' hd']
        exact hblock d' hd'

/-- The blocks that a label stands for. -/
def Image.labelled (image : Image) (label : String) : List Block :=
  image.blocks.filter (·.label == label)

/-- The functions that a program calls. -/
def Program.calls (p : Program) : List String :=
  p.functions.flatMap (fun d => Stmt.listCalls d.body) ++ Stmt.listCalls p.statements

/-- A filter keeps one member of a list without repetitions if it keeps no other one. -/
theorem filter_eq_singleton_iff {l : List α} (hdistinct : l.Nodup) {keep : α → Bool} {a : α}
    (ha : a ∈ l) (hkeep : keep a = true) :
    l.filter keep = [a] ↔ ∀ b ∈ l, keep b = true → b = a := by
  constructor
  · intro h b hb hkeep'
    have hmem : b ∈ l.filter keep := List.mem_filter.mpr ⟨hb, hkeep'⟩
    simpa [h] using hmem
  · intro h
    have hmem : a ∈ l.filter keep := List.mem_filter.mpr ⟨ha, hkeep⟩
    have hall : ∀ b ∈ l.filter keep, b = a := fun b hb =>
      h b (List.mem_filter.mp hb).1 (List.mem_filter.mp hb).2
    have hnodup := hdistinct.filter keep
    cases hfilter : l.filter keep with
    | nil => simp [hfilter] at hmem
    | cons b rest =>
        rw [hfilter] at hall hnodup
        obtain ⟨rfl, hrest⟩ := List.forall_mem_cons.mp hall
        cases rest with
        | nil => rfl
        | cons c rest => simp [hrest c List.mem_cons_self] at hnodup

section

variable {p : Program} {image : Image} {block : FunctionDecl → Block} {main : Block}
  (hblocks : image.blocks = p.functions.map block ++ [main]) (hmain : main.label = mainLabel)
  (hlabels : ∀ d ∈ p.functions, (block d).label = Text.lower d.name)

include hblocks hmain hlabels

/-- The labels are as distinct as the names in small letters are. -/
theorem labels_nodup_iff :
    (image.blocks.map (·.label)).Nodup ↔ (p.functions.map fun d => Text.lower d.name).Nodup ∧
      ∀ d ∈ p.functions, Text.lower d.name ≠ mainLabel := by
  have hsame : (p.functions.map block).map (·.label) =
      p.functions.map fun d => Text.lower d.name := by
    rw [List.map_map]
    exact List.map_congr_left hlabels
  rw [hblocks, List.map_append, hsame, List.nodup_append]
  simp [hmain]

/-- The label of a function stands for its block, and for no other one unless names agree in small
letters. -/
theorem labelled_eq_singleton_iff (hdistinct : (p.functions.map (·.name)).Nodup) {d : FunctionDecl}
    (hd : d ∈ p.functions) :
    image.labelled (Text.lower d.name) = [block d] ↔ Text.lower d.name ≠ mainLabel ∧
      ∀ d' ∈ p.functions, Text.lower d'.name = Text.lower d.name → d' = d := by
  let keep (d' : FunctionDecl) : Bool := Text.lower d'.name == Text.lower d.name
  have hfunctions : (p.functions.map block).filter (·.label == Text.lower d.name) =
      (p.functions.filter keep).map block := by
    rw [List.filter_map]
    refine congrArg (List.map block) (List.filter_congr fun d' hd' => ?_)
    simp [keep, hlabels d' hd']
  have hlabelled : image.labelled (Text.lower d.name) = (p.functions.filter keep).map block ++
      if mainLabel = Text.lower d.name then [main] else [] := by
    by_cases hlabel : mainLabel = Text.lower d.name <;>
      simp [Image.labelled, hblocks, hfunctions, hmain, hlabel]
  have hone : p.functions.filter keep = [d] ↔
      ∀ d' ∈ p.functions, Text.lower d'.name = Text.lower d.name → d' = d := by
    rw [filter_eq_singleton_iff (.of_map _ hdistinct) hd (by simp [keep])]
    simp [keep]
  rw [hlabelled, ← hone]
  have hmem : d ∈ p.functions.filter keep := by simp [hd, keep]
  by_cases hlabel : mainLabel = Text.lower d.name
  · have hlong : (p.functions.filter keep).map block ++ [main] ≠ [block d] := by
      intro heq
      have hlen := congrArg List.length heq
      have hpos := List.length_pos_of_mem hmem
      simp only [List.length_append, List.length_map, List.length_singleton] at hlen
      omega
    simp [hlabel, hlong]
  · have hsingle : (p.functions.filter keep).map block = [block d] ↔
        p.functions.filter keep = [d] := by
      constructor
      · intro heq
        obtain ⟨d', hd', -⟩ := List.map_eq_singleton_iff.mp heq
        rw [hd', List.mem_singleton] at hmem
        rw [hd', hmem]
      · intro heq
        rw [heq, List.map_singleton]
    simp [hlabel, hsingle, Ne.symm hlabel]

end

/-- Where redeclarations are rejected, the functions of an accepted program have distinct names.
Each has one block, labelled with its name in small letters, and the last block is labelled
`mainLabel`.  The labels in a block are the functions that its source calls, in small letters, and
each of them is among the functions of the program.

The labels are distinct exactly if the names in small letters are, and none of them is the last
block's.  A call selects the block of the function that its name stands for, and no other one
exactly if no other function has the same small letters, nor the last block. -/
theorem compile_call_targets {config : Config} {p : Program} {image : Image}
    (hreject : config.redeclaration = .reject) (hcompile : compile config p = .ok image) :
    (p.functions.map (·.name)).Nodup ∧ ∃ (block : FunctionDecl → Block) (main : Block),
      image.blocks = p.functions.map block ++ [main] ∧
      (∀ d ∈ p.functions, (block d).label = Text.lower d.name ∧
        FunctionCode p.topFrame d (block d).code ∧
        callees (block d).code = (Stmt.listCalls d.body).map Text.lower) ∧
      (main.label = mainLabel ∧ MainCode config p.topFrame p.statements main.code ∧
        callees main.code = (Stmt.listCalls p.statements).map Text.lower) ∧
      ((image.blocks.map (·.label)).Nodup ↔ (p.functions.map fun d => Text.lower d.name).Nodup ∧
        ∀ d ∈ p.functions, Text.lower d.name ≠ mainLabel) ∧
      ∀ name ∈ p.calls, ∃ d ∈ p.functions, d.name = name ∧
        block d ∈ image.labelled (Text.lower name) ∧
        (image.labelled (Text.lower name) = [block d] ↔ Text.lower name ≠ mainLabel ∧
          ∀ d' ∈ p.functions, Text.lower d'.name = Text.lower name → d' = d) := by
  have hdistinct : (p.functions.map (·.name)).Nodup := by
    have hjudges := compile_judges config p
    rw [hcompile] at hjudges
    exact hjudges.1.distinct hreject
  have hcompiled := (compiled_of_compile hcompile).1
  obtain ⟨blocks, diagnostics⟩ := image
  cases hcompiled with
  | @mk functions code hfunctions hmain =>
      obtain ⟨block, rfl, hblock⟩ := hfunctions.exists_map hdistinct
      let main : Block := ⟨Text.lower mainLabel, code⟩
      have hlabel : main.label = mainLabel := Text.lower_mainLabel
      have hlabels := fun d hd => (hblock d hd).1
      have htargets := fun d hd => (hblock d hd).2.sites p.topFrame_knows
      have hmainTargets := hmain.sites p.topFrame_knows
      refine ⟨hdistinct, block, main, rfl, fun d hd => ⟨hlabels d hd, (hblock d hd).2,
        (htargets d hd).labels⟩, ⟨hlabel, hmain, hmainTargets.labels⟩,
        labels_nodup_iff rfl hlabel hlabels, fun name hname => ?_⟩
      have hknown : ∃ d ∈ p.functions, d.name = name := by
        rcases List.mem_append.mp hname with hname | hname
        · obtain ⟨d, hd, hname⟩ := List.mem_flatMap.mp hname
          exact (htargets d hd).known name hname
        · exact hmainTargets.known name hname
      obtain ⟨d, hd, rfl⟩ := hknown
      refine ⟨d, hd, rfl, ?_, labelled_eq_singleton_iff rfl hlabel hlabels hdistinct hd⟩
      exact List.mem_filter.mpr
        ⟨List.mem_append_left _ (List.mem_map_of_mem hd), by simp [hlabels d hd]⟩

/-- In the demo, the one call selects the block of its function and no other one. -/
theorem compile_demo_call_targets :
    ∃ (image : Image) (area main : Block),
      compile { redeclaration := .reject } Demo.program = .ok image ∧
        image.blocks = [area, main] ∧ (image.blocks.map (·.label)).Nodup ∧
        callees main.code = ["area"] ∧ image.labelled "area" = [area] := by
  have haccepted : (compile { redeclaration := .reject } Demo.program).toOption.isSome = true := by
    decide +kernel
  cases hcompile : compile { redeclaration := .reject } Demo.program with
  | error e =>
      rw [hcompile] at haccepted
      contradiction
  | ok image =>
      obtain ⟨-, block, main, hblocks, -, ⟨-, -, hmain⟩, hlabels, hcalls⟩ :=
        compile_call_targets rfl hcompile
      obtain ⟨d, hd, hname, -, hone⟩ := hcalls "Area" (by decide +kernel)
      have hfunctions : Demo.program.functions = [d] := by
        obtain ⟨area, harea⟩ : ∃ area, Demo.program.functions = [area] := ⟨_, rfl⟩
        rw [harea, List.mem_singleton] at hd
        rw [harea, hd]
      have hlower : Text.lower d.name = "area" := by
        rw [hname]
        decide +kernel
      have hlabel : Text.lower "Area" = "area" := by decide +kernel
      rw [hfunctions] at hblocks hlabels hone
      rw [hlabel] at hone
      refine ⟨image, block d, main, rfl, hblocks, hlabels.mpr ?_, ?_, hone.mpr ?_⟩
      · simpa [hlower] using (by decide : "area" ≠ mainLabel)
      · exact hmain.trans (by decide +kernel)
      · exact ⟨by decide, by simp⟩

/-- Two functions whose names differ in capitals only, and a call of the second one. -/
def Demo.cased : Program where
  items := [
    .function "f" [⟨"a", .int⟩] .int [.ret (.ident "a")],
    .function "F" [⟨"a", .int⟩] .int [.ret (.int 0)],
    .print (.call "F" [.int 7])]

/-- They are accepted, and the label of the call stands for both blocks. -/
theorem compile_cased_labels :
    ∃ image : Image, compile { redeclaration := .reject } Demo.cased = .ok image ∧
      image.blocks.map (·.label) = ["f", "f", "main"] ∧
      ¬ (image.blocks.map (·.label)).Nodup ∧
      image.blocks.map (callees ·.code) = [[], [], ["f"]] ∧
      (image.labelled "f").length = 2 := by
  have hfacts : (compile { redeclaration := .reject } Demo.cased).toOption.map (fun image =>
      (image.blocks.map (·.label), image.blocks.map (callees ·.code),
        (image.labelled "f").length)) =
      some (["f", "f", "main"], [[], [], ["f"]], 2) := by
    decide +kernel
  cases hcompile : compile { redeclaration := .reject } Demo.cased with
  | error e =>
      rw [hcompile] at hfacts
      contradiction
  | ok image =>
      rw [hcompile] at hfacts
      obtain ⟨hlabels, hcallees, hlength⟩ : image.blocks.map (·.label) = ["f", "f", "main"] ∧
          image.blocks.map (callees ·.code) = [[], [], ["f"]] ∧
          (image.labelled "f").length = 2 := by
        simpa [Except.toOption] using hfacts
      exact ⟨image, rfl, hlabels, by rw [hlabels]; decide, hcallees, hlength⟩

end PadCompiler
