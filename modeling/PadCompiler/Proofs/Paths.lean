import PadCompiler.Proofs.Machine

/-!
# PadCompiler.Proofs.Paths

The ways through a block, as far as the code alone tells them.

A path keeps of each operand only what the code says of it: a literal, a jump target, a label,
or that it is computed when the code runs.  Every instruction takes and leaves operands as its
stack effect says; besides those of the machine these are

```text
call  ( args.. argc label -- r )     alloc ( n -- )
ret   ( v -- )                       reta  ( v.. n -- )
```

A `cjmp` may go either way, and `ret`, `reta` and `halt` end a path.

* `Reaches` — the points that some path gets to;
* `Scans` — the points met by going through the code in order, from one instruction to the
  next whatever it does;
* `Reaches.scans` — where the code is `Coherent`, every point of a path is one of the scan.
-/

namespace PadCompiler

/-! ## Operands -/

/-- What is known of an operand. -/
inductive Mark where
  | literal (v : Value)
  /-- A value that is known only when the code runs. -/
  | computed
  /-- The index that a jump leads to. -/
  | target (index : Int)
  /-- The label of a function. -/
  | label (name : String)
deriving DecidableEq

/-- Whether an operand is a value of the program. -/
def Mark.isValue : Mark → Bool
  | .literal _ | .computed => true
  | .target _ | .label _ => false

/-- The number that a literal counts. -/
def Mark.count? : Mark → Option Nat
  | .literal v => v.index?
  | _ => none

/-- How many operands an instruction takes off the stack, and what it leaves in their place. -/
structure Effect where
  takes : Nat
  gives : List Mark := []

/-- The effects that are the same on every stack. -/
def Opcode.effect? : Opcode → Option Effect
  | .add | .sub | .mul | .div | .lt | .le | .gt | .ge | .eq => some ⟨2, [.computed]⟩
  | .width | .height => some ⟨0, [.computed]⟩
  | .irnd => some ⟨1, [.computed]⟩
  | .st => some ⟨3, []⟩
  | .oframe | .alloc | .print | .delay | .clear | .ret => some ⟨1, []⟩
  | .write => some ⟨3, []⟩
  | .writeBox => some ⟨5, []⟩
  | .cframe | .halt => some ⟨0, []⟩
  | _ => none

/-- The stack effect of the instruction at an index.  The instructions that go by a count need
it as a literal, a jump needs its target, and a call its label. -/
def Instruction.effect (index : Nat) (stack : List Mark) (i : Instruction) : Option Effect :=
  match i.op, i.operand, stack with
  | .push, some (.value v), _ => some ⟨0, [.literal v]⟩
  | .push, some (.pc offset), _ => some ⟨0, [.target (index + offset.toInt)]⟩
  | .push, some (.label name), _ => some ⟨0, [.label name]⟩
  | .push, some (.address ..), _ => some ⟨0, [.computed]⟩
  | .pushA, some (.address ..), n :: _ =>
    n.count?.map fun count => ⟨1, List.replicate count .computed⟩
  | .pushOffset, some (.address ..), _ => some ⟨1, [.computed]⟩
  | .dupa, none, v :: n :: _ => n.count?.map fun count => ⟨2, List.replicate count v⟩
  | .sta, none, _ :: _ :: n :: _ => n.count?.map fun count => ⟨count + 3, []⟩
  | .printA, none, n :: _ => n.count?.map fun count => ⟨count + 1, []⟩
  | .reta, none, n :: _ => n.count?.map fun count => ⟨count + 1, []⟩
  | .call, none, .label _ :: argc :: _ =>
    argc.count?.map fun count => ⟨count + 2, [.computed]⟩
  | .jmp, none, .target _ :: _ => some ⟨1, []⟩
  | .cjmp, none, .target _ :: _ :: _ => some ⟨2, []⟩
  | .cjmp, none, _ :: .target _ :: _ => some ⟨2, []⟩
  | op, none, _ => op.effect?
  | _, _, _ => none

/-- Where an instruction may jump to: a `cjmp` finds its target among its two operands. -/
def Instruction.jump? (stack : List Mark) (i : Instruction) : Option Int :=
  match i.op, stack with
  | .jmp, .target t :: _ => some t
  | .cjmp, .target t :: _ :: _ => some t
  | .cjmp, _ :: .target t :: _ => some t
  | _, _ => none

/-- The number of open frames after an instruction. -/
def Instruction.adjust (frames : Int) (i : Instruction) : Int :=
  match i.op with
  | .oframe => frames + 1
  | .cframe => frames - 1
  | _ => frames

/-- The opcodes that end a path. -/
def Opcode.ends : Opcode → Bool
  | .ret | .reta | .halt => true
  | _ => false

/-! ## Paths -/

/-- A point on the way through a block: an index, the operands there with the top one first, and
the number of frames that were opened less the number that were closed. -/
structure Point where
  pc : Nat := 0
  stack : List Mark := []
  frames : Int := 0
deriving DecidableEq

namespace Point

/-- The point behind an instruction, in the order of the code. -/
def pass (w : Point) (i : Instruction) : Option Point := do
  let e ← i.effect w.pc w.stack
  if e.takes ≤ w.stack.length then
    some ⟨w.pc + 1, e.gives ++ w.stack.drop e.takes, i.adjust w.frames⟩
  else none

/-- The next point of a path.  A `cjmp` jumps if `jump` says so. -/
def next (code : List Instruction) (jump : Bool) (w : Point) : Option Point := do
  let i ← code[w.pc]?
  if i.op.ends then none
  else
    let passed ← w.pass i
    match i.jump? w.stack with
    | none => some passed
    | some t =>
      if i.op = .cjmp ∧ jump = false then some passed
      else if 0 ≤ t then some { passed with pc := t.toNat }
      else none

/-- The point where a path gets by a list of choices. -/
def follow (code : List Instruction) : List Bool → Point → Option Point
  | [], w => some w
  | jump :: jumps, w => do follow code jumps (← w.next code jump)

end Point

/-- The points that some path through the code gets to. -/
inductive Reaches (code : List Instruction) (start : Point) : Point → Prop
  | start : Reaches code start start
  | next {w w' : Point} (jump : Bool) (h : Reaches code start w)
    (hnext : w.next code jump = some w') : Reaches code start w'

/-- A path is given by its choices. -/
theorem Reaches.follow {code : List Instruction} {start w w' : Point} (h : Reaches code start w)
    (jumps : List Bool) (hfollow : w.follow code jumps = some w') : Reaches code start w' := by
  induction jumps generalizing w with
  | nil =>
      cases hfollow
      exact h
  | cons jump jumps ih =>
      obtain ⟨v, hnext, hrest⟩ := Option.bind_eq_some_iff.mp hfollow
      exact ih (.next jump h hnext) hrest

/-! ## Going through the code in order -/

/-- The points met by going through the code in order. -/
inductive Scans (code : List Instruction) (start : Point) : Point → Prop
  | start : Scans code start start
  | pass {w w' : Point} {i : Instruction} (h : Scans code start w)
    (hat : code[w.pc]? = some i) (hpass : w.pass i = some w') : Scans code start w'

/-- All that passing an instruction does. -/
theorem Point.pass_eq_some {w w' : Point} {i : Instruction} :
    w.pass i = some w' ↔ ∃ e, i.effect w.pc w.stack = some e ∧ e.takes ≤ w.stack.length ∧
      w' = ⟨w.pc + 1, e.gives ++ w.stack.drop e.takes, i.adjust w.frames⟩ := by
  simp only [Point.pass, Option.bind_eq_bind, Option.bind_eq_some_iff,
    Option.ite_none_right_eq_some, Option.some.injEq, @eq_comm _ w']

theorem Point.pass_pc {w w' : Point} {i : Instruction} (h : w.pass i = some w') :
    w'.pc = w.pc + 1 := by
  obtain ⟨e, -, -, rfl⟩ := Point.pass_eq_some.mp h
  rfl

theorem Point.pass_frames {w w' : Point} {i : Instruction} (h : w.pass i = some w') :
    w'.frames = i.adjust w.frames := by
  obtain ⟨e, -, -, rfl⟩ := Point.pass_eq_some.mp h
  rfl

namespace Scans

variable {code : List Instruction} {start w w' : Point}

theorem le (h : Scans code start w) : start.pc ≤ w.pc := by
  induction h with
  | start => exact Nat.le_refl _
  | pass h hat hpass ih =>
      have hpc := Point.pass_pc hpass
      omega

/-- An index is met at one point only. -/
theorem unique (h : Scans code start w) (h' : Scans code start w') (hpc : w.pc = w'.pc) :
    w = w' := by
  induction h generalizing w' with
  | start =>
      cases h' with
      | start => rfl
      | pass h' hat' hpass' =>
          have hle := h'.le
          have hnext := Point.pass_pc hpass'
          omega
  | pass h hat hpass ih =>
      have hnext := Point.pass_pc hpass
      cases h' with
      | start =>
          have hle := h.le
          omega
      | pass h' hat' hpass' =>
          have hnext' := Point.pass_pc hpass'
          obtain rfl := ih h' (by omega)
          rw [hat] at hat'
          cases hat'
          rw [hpass] at hpass'
          exact Option.some.inj hpass'

end Scans

/-- The frames that the code opens less those it closes, whatever order it runs in. -/
def framesOpened (code : List Instruction) : Int :=
  (code.countP (·.op == .oframe) : Int) - code.countP (·.op == .cframe)

theorem framesOpened_concat (code : List Instruction) (i : Instruction) :
    framesOpened (code ++ [i]) = i.adjust (framesOpened code) := by
  obtain ⟨op, operand⟩ := i
  simp only [framesOpened, List.countP_append, List.countP_singleton, Instruction.adjust]
  cases op <;> simp <;> omega

/-- The scan counts frames as they stand in the code. -/
theorem Scans.frames_eq {code : List Instruction} {stack : List Mark} {w : Point}
    (h : Scans code { stack } w) : w.frames = framesOpened (code.take w.pc) := by
  induction h with
  | start => rfl
  | @pass w w' i h hat hpass ih =>
      have htake : code.take w'.pc = code.take w.pc ++ [i] := by
        rw [Point.pass_pc hpass, List.take_add_one, hat]
        rfl
      rw [Point.pass_frames hpass, htake, framesOpened_concat, ih]

/-! ## Coherent code -/

/-- What makes the paths go as the scan does at a point `w` where the instruction is `i`.  The
operands in `base` lie beneath those that the code has to do with. -/
structure Coherent (code : List Instruction) (start : Point) (base : List Mark) (w : Point)
    (i : Instruction) : Prop where
  /-- The instruction finds its operands above `base`. -/
  operands : ∃ extra e, w.stack = extra ++ base ∧ i.effect w.pc w.stack = some e ∧
    e.takes ≤ extra.length
  /-- It jumps only to an index that the scan meets with the same operands and frames. -/
  jumps : ∀ t passed, i.jump? w.stack = some t → w.pass i = some passed →
    ∃ n : Nat, t = n ∧ n < code.length ∧ Scans code start { passed with pc := n }
  /-- Where a jump target that it pushes lies, nothing is left above `base`. -/
  leads : ∀ offset, i.pcOffset = some offset →
    ∃ v, Scans code start v ∧ (v.pc : Int) = w.pc + offset.toInt ∧ v.stack = base
  /-- It closes only a frame that was opened on the way. -/
  closes : i.op = .cframe → start.frames < w.frames
  /-- It halts only where all of those are closed. -/
  halts : i.op = .halt → w.frames = start.frames
  /-- Right before a `cjmp` comes the comparison, which lies above the target then, or the push
  of the target, which lies above the comparison. -/
  tests : i.op = .cjmp → ∃ t,
    code[w.pc - 1]? = some (.plain .eq) ∧ w.stack = .computed :: .target t :: base ∨
    (∃ offset, code[w.pc - 1]? = some ⟨.push, some (.pc offset)⟩) ∧
      w.stack = .target t :: .computed :: base

/-- The scan meets an index, and the code is coherent there. -/
def CoherentAt (code : List Instruction) (start : Point) (base : List Mark) (index : Nat) :
    Prop :=
  ∃ w i, Scans code start w ∧ w.pc = index ∧ code[index]? = some i ∧
    Coherent code start base w i

/-- The instruction at an index ends every path. -/
def EndsAt (code : List Instruction) (index : Nat) : Prop :=
  ∃ i, code[index]? = some i ∧ i.op.ends = true

section

variable {code : List Instruction} {start w w' : Point} {base : List Mark} {i : Instruction}

/-- What is known of an index is known of every point of the scan there. -/
theorem CoherentAt.at (h : CoherentAt code start base w.pc) (hw : Scans code start w) :
    ∃ i, code[w.pc]? = some i ∧ Coherent code start base w i := by
  obtain ⟨v, i, hv, hpc, hat, hcoherent⟩ := h
  obtain rfl := hv.unique hw hpc
  exact ⟨i, hat, hcoherent⟩

/-- An instruction that finds its operands can be passed. -/
theorem Coherent.pass (h : Coherent code start base w i) : ∃ passed, w.pass i = some passed := by
  obtain ⟨extra, e, hstack, heffect, htakes⟩ := h.operands
  have henough : e.takes ≤ w.stack.length := by
    rw [hstack, List.length_append]
    omega
  exact ⟨_, Point.pass_eq_some.mpr ⟨e, heffect, henough, rfl⟩⟩

/-- A path goes on from an instruction that does not end it, whatever it chooses. -/
theorem Coherent.proceeds (h : Coherent code start base w i) (hat : code[w.pc]? = some i)
    (hends : i.op.ends = false) (jump : Bool) : ∃ w', w.next code jump = some w' := by
  obtain ⟨passed, hpass⟩ := h.pass
  simp only [Point.next, hat, hpass, hends, Option.bind_eq_bind, Option.bind_some]
  cases hjump : i.jump? w.stack with
  | none => exact ⟨passed, rfl⟩
  | some t =>
      obtain ⟨n, rfl, -, -⟩ := h.jumps t passed hjump hpass
      by_cases hstay : i.op = .cjmp ∧ jump = false
      · exact ⟨passed, by simp [hstay]⟩
      · exact ⟨{ passed with pc := n }, by simp [hstay]⟩

/-- One step of a path keeps to the scan, and gets to the next instruction or into the code. -/
theorem Coherent.next (h : Coherent code start base w i) (hw : Scans code start w)
    (hat : code[w.pc]? = some i) {jump : Bool} (hnext : w.next code jump = some w') :
    Scans code start w' ∧ (w'.pc = w.pc + 1 ∨ w'.pc < code.length) := by
  obtain ⟨passed, hpass⟩ := h.pass
  have hstep : Scans code start passed ∧ (passed.pc = w.pc + 1 ∨ passed.pc < code.length) :=
    ⟨hw.pass hat hpass, .inl (Point.pass_pc hpass)⟩
  simp only [Point.next, hat, hpass, Option.bind_eq_bind, Option.bind_some] at hnext
  split at hnext
  · contradiction
  · cases hjump : i.jump? w.stack with
    | none =>
        rw [hjump] at hnext
        cases hnext
        exact hstep
    | some t =>
        obtain ⟨n, rfl, hlt, hscans⟩ := h.jumps t passed hjump hpass
        simp only [hjump] at hnext
        split at hnext
        · cases hnext
          exact hstep
        · rw [if_pos (Int.natCast_nonneg n)] at hnext
          cases hnext
          exact ⟨hscans, .inr hlt⟩

/-- No path goes on from an instruction that ends it. -/
theorem EndsAt.not_next (h : EndsAt code w.pc) (jump : Bool) : w.next code jump ≠ some w' := by
  obtain ⟨i, hat, hends⟩ := h
  simp [Point.next, hat, hends]

section

variable (hcoherent : ∀ k, start.pc ≤ k → k < code.length →
  CoherentAt code start base k ∨ EndsAt code k)
include hcoherent

/-- Where a path goes on, the code is coherent. -/
theorem Scans.coherent (hw : Scans code start w) {jump : Bool}
    (hnext : w.next code jump = some w') :
    ∃ i, code[w.pc]? = some i ∧ Coherent code start base w i := by
  obtain ⟨i, hat, -⟩ := Option.bind_eq_some_iff.mp hnext
  obtain ⟨hlt, -⟩ := List.getElem?_eq_some_iff.mp hat
  rcases hcoherent w.pc hw.le hlt with hindex | hends
  · exact hindex.at hw
  · exact absurd hnext (hends.not_next jump)

/-- Where the code is coherent, all points of paths are points of the scan. -/
theorem Reaches.scans (h : Reaches code start w) : Scans code start w := by
  induction h with
  | start => exact .start
  | next jump h hnext ih =>
      obtain ⟨i, hat, hw⟩ := ih.coherent hcoherent hnext
      exact (hw.next ih hat hnext).1

/-- If besides the last instruction ends every path, no path leaves the code. -/
theorem Reaches.lt_length (hlast : EndsAt code (code.length - 1)) (hstart : start.pc < code.length)
    (h : Reaches code start w) : w.pc < code.length := by
  induction h with
  | start => exact hstart
  | @next w w' jump h hnext ih =>
      obtain ⟨i, hat, hw⟩ := (h.scans hcoherent).coherent hcoherent hnext
      rcases (hw.next (h.scans hcoherent) hat hnext).2 with hpc | hlt
      · -- the next instruction would be past the end only if this were the last one
        by_cases hend : w.pc = code.length - 1
        · exact absurd hnext ((hend ▸ hlast).not_next jump)
        · omega
      · exact hlt

end

end

end PadCompiler
