import PadCompiler.Proofs.Layout
import PadCompiler.Proofs.Meaning

/-!
# PadCompiler.Proofs.Machine

The stack machine that blocks are made for.

It has a stack of operands, a chain of frames, and a log of what it did.  Every instruction
does to the operands what its stack effect says:

```text
st    ( v slot depth -- )        sta        ( v.. n slot depth -- )
pusha ( n -- v.. )               push +     ( i -- v )
dupa  ( n v -- v.. )             irnd       ( max -- n )
write ( x y c -- )               write_box  ( x y w h c -- )
cjmp  ( target cond -- )         printa     ( v.. n -- )
jmp   ( target -- )              oframe     ( n -- )
```

In a run of values the first one is on top.  A `cjmp` finds its target among its two
operands.

* `Machine.run` — some number of steps;
* `Goes` — a run of at least some number of steps;
* `CodeAt` — code that stands at an index of a block.
-/

namespace PadCompiler

/-! ## Machines -/

/-- What is on the stack: a value, or the index that a jump leads to. -/
inductive Item where
  | value (v : Value)
  | target (index : Int)
deriving DecidableEq

/-- The state of the machine.  The top of the stack and the innermost frame come first. -/
structure Machine where
  pc : Nat := 0
  stack : List Item := []
  frames : List (List Value) := []
  log : Log := {}
deriving DecidableEq

/-- Takes a number of values from the stack, the top one first. -/
def popValues : Nat → List Item → Option (List Value × List Item)
  | 0, stack => some ([], stack)
  | n + 1, .value v :: stack => do
    let (values, stack) ← popValues n stack
    pure (v :: values, stack)
  | _ + 1, _ => none

/-- Cells with other values from some slot on. -/
def overwrite (cells : List Value) (slot : Nat) (values : List Value) : List Value :=
  cells.take slot ++ values ++ cells.drop (slot + values.length)

/-- The values in a run of slots. -/
def readRun (frames : List (List Value)) (slot depth count : Nat) : Option (List Value) := do
  let cells ← frames[depth]?
  if slot + count ≤ cells.length then some ((cells.drop slot).take count) else none

/-- The frames with other values in a run of slots. -/
def writeRun (frames : List (List Value)) (slot depth : Nat) (values : List Value) :
    Option (List (List Value)) := do
  let cells ← frames[depth]?
  if slot + values.length ≤ cells.length then
    some (frames.set depth (overwrite cells slot values))
  else none

/-- How many operands the opcodes take that only do something with values. -/
def Opcode.operands? : Opcode → Option Nat
  | .print | .delay | .clear => some 1
  | .write => some 3
  | .writeBox => some 5
  | _ => none

/-- The operator that an opcode applies. -/
def Opcode.operator? : Opcode → Option BinaryOp
  | .add => some .add
  | .sub => some .sub
  | .mul => some .mul
  | .div => some .div
  | .lt => some .lt
  | .le => some .le
  | .gt => some .gt
  | .ge => some .ge
  | .eq => some .eq
  | _ => none

namespace Machine

/-- The machine at the next instruction with another stack. -/
def next (m : Machine) (stack : List Item) : Machine :=
  { m with pc := m.pc + 1, stack }

/-- The machine where a jump leads. -/
def jump (m : Machine) (target : Int) (stack : List Item) : Option Machine :=
  if 0 ≤ target then some { m with pc := target.toNat, stack } else none

variable (host : Host)

/-- The machine at a jump that is made only for some values. -/
def jumpIf (m : Machine) (v : Value) (target : Int) (stack : List Item) : Option Machine :=
  if host.jumps v then m.jump target stack else some (m.next stack)

/-- What an instruction does.  The instructions of functions do nothing here. -/
def execute (m : Machine) (i : Instruction) : Option Machine :=
  match i.op, i.operand, m.stack with
  | .push, some (.value v), stack => some (m.next (.value v :: stack))
  | .push, some (.pc offset), stack => some (m.next (.target (m.pc + offset.toInt) :: stack))
  | .push, some (.address slot depth), stack => do
    let values ← readRun m.frames slot.toNat depth.toNat 1
    pure (m.next (values.map .value ++ stack))
  | .pushA, some (.address slot depth), .value n :: stack => do
    let values ← readRun m.frames slot.toNat depth.toNat (← n.index?)
    pure (m.next (values.map .value ++ stack))
  | .pushOffset, some (.address slot depth), .value i :: stack => do
    let values ← readRun m.frames (slot.toNat + (← i.index?)) depth.toNat 1
    pure (m.next (values.map .value ++ stack))
  | .st, none, .value depth :: .value slot :: .value v :: stack => do
    let frames ← writeRun m.frames (← slot.index?) (← depth.index?) [v]
    pure { m.next stack with frames }
  | .sta, none, .value depth :: .value slot :: .value n :: stack => do
    let (values, stack) ← popValues (← n.index?) stack
    let frames ← writeRun m.frames (← slot.index?) (← depth.index?) values
    pure { m.next stack with frames }
  | .dupa, none, .value v :: .value n :: stack => do
    pure (m.next (List.replicate (← n.index?) (.value v) ++ stack))
  | .jmp, none, .target target :: stack => m.jump target stack
  | .cjmp, none, .target target :: .value v :: stack => m.jumpIf host v target stack
  | .cjmp, none, .value v :: .target target :: stack => m.jumpIf host v target stack
  | .oframe, none, .value n :: stack => do
    pure { m.next stack with frames := List.replicate (← n.index?) host.blank :: m.frames }
  | .cframe, none, stack =>
    match m.frames with
    | _ :: frames => some { m.next stack with frames }
    | [] => none
  | .width, none, stack => some (m.next (.value host.width :: stack))
  | .height, none, stack => some (m.next (.value host.height :: stack))
  | .irnd, none, .value bound :: stack =>
    some { m.next (.value (host.draw m.log.drawn bound) :: stack) with
      log := m.log.drew (m.log.drawn + 1) }
  | .printA, none, .value n :: stack => do
    let (values, stack) ← popValues (← n.index?) stack
    pure { m.next stack with log := m.log.add .printA values }
  | op, none, stack =>
    match op.operands?, op.operator?, stack with
    | some n, _, stack => do
      let (values, stack) ← popValues n stack
      pure { m.next stack with log := m.log.add op values.reverse }
    | none, some operator, .value left :: .value right :: stack =>
      some (m.next (.value (host.apply operator left right) :: stack))
    | _, _, _ => none
  | _, _, _ => none

/-- One step in a block. -/
def step (code : List Instruction) (m : Machine) : Option Machine := do
  m.execute host (← code[m.pc]?)

/-- A number of steps in a block. -/
def run (code : List Instruction) : Nat → Machine → Option Machine
  | 0, m => some m
  | n + 1, m => do run code n (← m.step host code)

end Machine

/-! ## Runs -/

/-- The machine gets from one state to another in at least `n` steps. -/
def Goes (host : Host) (block : List Instruction) (n : Nat) (m m' : Machine) : Prop :=
  ∃ k, n ≤ k ∧ m.run host block k = some m'

/-- Code that stands at an index of a block. -/
def CodeAt (block : List Instruction) (pc : Nat) (code : List Instruction) : Prop :=
  ∃ before after, block = before ++ code ++ after ∧ before.length = pc

section

variable {block code others : List Instruction} {i : Instruction} {pc : Nat}

theorem CodeAt.left (h : CodeAt block pc (code ++ others)) : CodeAt block pc code := by
  obtain ⟨before, after, hblock, hpc⟩ := h
  exact ⟨before, others ++ after, by simp [hblock], hpc⟩

theorem CodeAt.right (h : CodeAt block pc (code ++ others)) :
    CodeAt block (pc + code.length) others := by
  obtain ⟨before, after, hblock, hpc⟩ := h
  exact ⟨before ++ code, after, by simp [hblock], by simp [hpc]⟩

theorem CodeAt.tail (h : CodeAt block pc (i :: code)) : CodeAt block (pc + 1) code := by
  have hone : CodeAt block pc ([i] ++ code) := h
  exact hone.right

theorem CodeAt.head (h : CodeAt block pc (i :: code)) : block[pc]? = some i := by
  obtain ⟨before, after, hblock, hpc⟩ := h
  simp [hblock, ← hpc]

/-- The same code at the same index. -/
theorem CodeAt.moved (h : CodeAt block pc code) {pc' : Nat} (heq : pc' = pc) :
    CodeAt block pc' code :=
  heq ▸ h

theorem CodeAt.length_le (h : CodeAt block pc code) : pc + code.length ≤ block.length := by
  obtain ⟨before, after, hblock, hpc⟩ := h
  simp only [hblock, List.length_append]
  omega

end

namespace Goes

variable {host : Host} {block code : List Instruction} {i : Instruction} {m m' m'' : Machine}
  {a b : Nat}

theorem refl (m : Machine) : Goes host block 0 m m :=
  ⟨0, Nat.le_refl 0, rfl⟩

theorem mono (h : Goes host block a m m') (hle : b ≤ a) : Goes host block b m m' := by
  obtain ⟨k, hk, hrun⟩ := h
  exact ⟨k, Nat.le_trans hle hk, hrun⟩

/-- One step, and what follows. -/
theorem cons (hat : CodeAt block m.pc (i :: code)) (hexec : m.execute host i = some m')
    (h : Goes host block a m' m'') : Goes host block (a + 1) m m'' := by
  obtain ⟨k, hk, hrun⟩ := h
  refine ⟨k + 1, by omega, ?_⟩
  have hstep : m.step host block = some m' := by
    rw [Machine.step, hat.head]
    exact hexec
  rw [Machine.run, hstep]
  exact hrun

theorem one (hat : CodeAt block m.pc (i :: code)) (hexec : m.execute host i = some m') :
    Goes host block 1 m m' :=
  .cons hat hexec (.refl m')

theorem trans (h : Goes host block a m m') (h' : Goes host block b m' m'') :
    Goes host block (a + b) m m'' := by
  obtain ⟨k, hk, hrun⟩ := h
  induction k generalizing a m with
  | zero =>
      cases hrun
      exact h'.mono (by omega)
  | succ k ih =>
      rw [Machine.run] at hrun
      cases hstep : m.step host block with
      | none =>
          rw [hstep] at hrun
          cases hrun
      | some next =>
          rw [hstep] at hrun
          have hrest : Goes host block (a - 1 + b) next m'' := ih (by omega) hrun
          obtain ⟨j, hj, hrun'⟩ := hrest
          refine ⟨j + 1, by omega, ?_⟩
          rw [Machine.run, hstep]
          exact hrun'

end Goes

/-! ## Instructions -/

/-- The number that a count or a slot is pushed as. -/
theorem index?_ofNat {n : Nat} (h : (n : Int) < signedLimit) :
    (Value.int (Int64.ofNat n)).index? = some n := by
  rw [Value.index?, toInt_ofNat_of_lt h, if_pos (Int.natCast_nonneg n), Int.toNat_natCast]

theorem popValues_map (values : List Value) (stack : List Item) :
    popValues values.length (values.map .value ++ stack) = some (values, stack) := by
  induction values with
  | nil => rfl
  | cons v values ih => simp [popValues, ih]

namespace Machine

/-- The machine past some code that left values on the stack, with another number of draws. -/
def pass (m : Machine) (length : Nat) (values : List Value) (drawn : Nat) : Machine :=
  { m with
    pc := m.pc + length
    stack := values.map .value ++ m.stack
    log := m.log.drew drawn }

section

variable (m : Machine) (length length' : Nat) (values values' : List Value) (drawn drawn' : Nat)

@[simp] theorem pass_pc : (m.pass length values drawn).pc = m.pc + length := rfl

@[simp] theorem pass_pass : (m.pass length values drawn).pass length' values' drawn' =
    m.pass (length + length') (values' ++ values) drawn' := by
  simp [pass, Log.drew, Nat.add_assoc]

end

/-- The machine past some code that left the stack as it was. -/
def onward (m : Machine) (length : Nat) (frames : List (List Value)) (log : Log) : Machine :=
  { m with pc := m.pc + length, frames, log }

section

variable (m : Machine) (length length' : Nat) (frames frames' : List (List Value))
  (log log' : Log)

@[simp] theorem onward_pc : (m.onward length frames log).pc = m.pc + length := rfl

@[simp] theorem onward_frames : (m.onward length frames log).frames = frames := rfl

@[simp] theorem onward_onward : (m.onward length frames log).onward length' frames' log' =
    m.onward (length + length') frames' log' := by
  simp [onward, Nat.add_assoc]

end

end Machine

section

variable {host : Host} {m : Machine} {slot depth count : Nat} {stack : List Item} {n v : Value}
  {values : List Value} {frames : List (List Value)}

theorem execute_push_address (hslot : (slot : Int) < signedLimit)
    (hdepth : (depth : Int) < signedLimit) (hread : readRun m.frames slot depth 1 = some values) :
    m.execute host (.address .push slot depth) =
      some (m.next (values.map .value ++ m.stack)) := by
  simp only [Machine.execute, Instruction.address]
  rw [toNat_ofNat_of_lt hslot, toNat_ofNat_of_lt hdepth, hread]
  rfl

theorem execute_pushA (hslot : (slot : Int) < signedLimit) (hdepth : (depth : Int) < signedLimit)
    (hstack : m.stack = .value n :: stack) (hcount : n.index? = some count)
    (hread : readRun m.frames slot depth count = some values) :
    m.execute host (.address .pushA slot depth) = some (m.next (values.map .value ++ stack)) := by
  simp only [Machine.execute, Instruction.address, hstack]
  rw [toNat_ofNat_of_lt hslot, toNat_ofNat_of_lt hdepth, hcount, Option.bind_eq_bind,
    Option.bind_some, hread]
  rfl

theorem execute_pushOffset (hslot : (slot : Int) < signedLimit)
    (hdepth : (depth : Int) < signedLimit) (hstack : m.stack = .value n :: stack)
    (hcount : n.index? = some count)
    (hread : readRun m.frames (slot + count) depth 1 = some values) :
    m.execute host (.address .pushOffset slot depth) =
      some (m.next (values.map .value ++ stack)) := by
  simp only [Machine.execute, Instruction.address, hstack]
  rw [toNat_ofNat_of_lt hslot, toNat_ofNat_of_lt hdepth, hcount, Option.bind_eq_bind,
    Option.bind_some, hread]
  rfl

theorem execute_st {slotValue depthValue : Value}
    (hstack : m.stack = .value depthValue :: .value slotValue :: .value v :: stack)
    (hslot : slotValue.index? = some slot) (hdepth : depthValue.index? = some depth)
    (hwrite : writeRun m.frames slot depth [v] = some frames) :
    m.execute host (.plain .st) = some { m.next stack with frames } := by
  simp only [Machine.execute, Instruction.plain, hstack, hslot, hdepth, Option.bind_eq_bind,
    Option.bind_some, hwrite]
  rfl

theorem execute_sta {slotValue depthValue : Value}
    (hwrite : writeRun m.frames slot depth values = some frames)
    (hstack : m.stack = .value depthValue :: .value slotValue :: .value n ::
      (values.map .value ++ stack))
    (hslot : slotValue.index? = some slot) (hdepth : depthValue.index? = some depth)
    (hcount : n.index? = some values.length) :
    m.execute host (.plain .sta) = some { m.next stack with frames } := by
  simp only [Machine.execute, Instruction.plain, hstack, hslot, hdepth, hcount,
    Option.bind_eq_bind, Option.bind_some, popValues_map, hwrite]
  rfl

theorem execute_dupa (hstack : m.stack = .value v :: .value n :: stack)
    (hcount : n.index? = some count) : m.execute host (.plain .dupa) =
      some (m.next ((List.replicate count v).map .value ++ stack)) := by
  simp only [Machine.execute, Instruction.plain, hstack, hcount, Option.bind_eq_bind,
    Option.bind_some, List.map_replicate]
  rfl

theorem execute_oframe (hstack : m.stack = .value n :: stack) (hcount : n.index? = some count) :
    m.execute host (.plain .oframe) =
      some { m.next stack with frames := List.replicate count host.blank :: m.frames } := by
  simp only [Machine.execute, Instruction.plain, hstack, hcount, Option.bind_eq_bind,
    Option.bind_some]
  rfl

theorem execute_cframe {cells : List Value} (hframes : m.frames = cells :: frames) :
    m.execute host (.plain .cframe) = some { m.next m.stack with frames } := by
  simp only [Machine.execute, Instruction.plain, hframes]

theorem execute_printA (hstack : m.stack = .value n :: (values.map .value ++ stack))
    (hcount : n.index? = some values.length) : m.execute host (.plain .printA) =
      some { m.next stack with log := m.log.add .printA values } := by
  simp only [Machine.execute, Instruction.plain, hstack, hcount, Option.bind_eq_bind,
    Option.bind_some, popValues_map]
  rfl

/-- A push of a jump target. -/
theorem execute_jumpBy {distance : Int} (hlow : -signedLimit ≤ distance)
    (hhigh : distance < signedLimit) : m.execute host (jumpBy distance) =
      some (m.next (.target (m.pc + distance) :: m.stack)) := by
  have hword := toInt_ofInt_of_lt hlow hhigh
  simp only [Machine.execute, jumpBy, hword]

theorem jump_eq {target : Int} {pc : Nat} (htarget : target = pc) :
    m.jump target stack = some { m with pc, stack } := by
  subst htarget
  simp [Machine.jump]

theorem execute_jmp {target : Int} {pc : Nat} (hstack : m.stack = .target target :: stack)
    (htarget : target = pc) : m.execute host (.plain .jmp) = some { m with pc, stack } := by
  simp only [Machine.execute, Instruction.plain, hstack]
  exact jump_eq htarget

/-- A `cjmp` finds its target above or below the value. -/
theorem execute_cjmp {target : Int}
    (hstack : m.stack = .value v :: .target target :: stack ∨
      m.stack = .target target :: .value v :: stack) :
    m.execute host (.plain .cjmp) = m.jumpIf host v target stack := by
  rcases hstack with hstack | hstack
  · simp only [Machine.execute, Instruction.plain, hstack]
  · simp only [Machine.execute, Instruction.plain, hstack]

theorem jumpIf_pos {target : Int} {pc : Nat} (hjumps : host.jumps v = true)
    (htarget : target = pc) : m.jumpIf host v target stack = some { m with pc, stack } := by
  rw [Machine.jumpIf, if_pos hjumps]
  exact jump_eq htarget

theorem jumpIf_neg {target : Int} (hjumps : host.jumps v = false) :
    m.jumpIf host v target stack = some (m.next stack) := by
  rw [Machine.jumpIf, hjumps]
  rfl

/-- The opcodes that only do something with values. -/
theorem execute_operation {op : Opcode} (hop : op.operands? = some values.length)
    (hstack : m.stack = values.map .value ++ stack) : m.execute host (.plain op) =
      some { m.next stack with log := m.log.add op values.reverse } := by
  have hexec : ∀ arity, op.operands? = some arity → m.execute host (.plain op) = (do
      let (values, stack) ← popValues arity m.stack
      pure { m.next stack with log := m.log.add op values.reverse }) := by
    intro arity hop
    cases op <;> cases hop <;> rfl
  rw [hexec _ hop, hstack, popValues_map]
  rfl

/-- The opcode of an operator applies it. -/
theorem execute_operator {op : BinaryOp} {opcode : Opcode} {left right : Value}
    (hplain : op.isPlain = true) (hop : op.opcode? = some opcode)
    (hstack : m.stack = .value left :: .value right :: stack) :
    m.execute host (.plain opcode) =
      some (m.next (.value (host.apply op left right) :: stack)) := by
  obtain ⟨pc, items, frames, log⟩ := m
  subst hstack
  cases op with
  | notEq => cases hplain
  | and => cases hplain
  | or => cases hplain
  | _ =>
      cases hop
      rfl

end

/-! ## Sequences of instructions -/

section

variable {host : Host} {block rest : List Instruction} {m m' m'' : Machine} {i : Instruction}
  {slot depth count size : Nat} {stack : List Item} {v : Value} {values : List Value}
  {frames : List (List Value)}

/-- One instruction more. -/
theorem Goes.last (h : Goes host block 0 m m') (hat : CodeAt block m'.pc (i :: rest))
    (hexec : m'.execute host i = some m'') : Goes host block 0 m m'' :=
  (h.trans (.one hat hexec)).mono (Nat.zero_le 1)

/-- `push <slot>` `push <depth>` `st` -/
theorem goes_store (hat : CodeAt block m.pc [.pushNat slot, .pushNat depth, .plain .st])
    (hslot : (slot : Int) < signedLimit) (hdepth : (depth : Int) < signedLimit)
    (hstack : m.stack = .value v :: stack)
    (hwrite : writeRun m.frames slot depth [v] = some frames) :
    Goes host block 0 m { m with pc := m.pc + 3, stack, frames } := by
  have hpushed : Goes host block 0 m _ := ((Goes.refl m).last hat rfl).last hat.tail rfl
  exact hpushed.last hat.tail.tail (execute_st (congrArg (_ :: _ :: ·) hstack) (index?_ofNat hslot)
    (index?_ofNat hdepth) hwrite)

/-- `push <n>` `push <slot>` `push <depth>` `sta` -/
theorem goes_storeRun
    (hat : CodeAt block m.pc [.pushNat values.length, .pushNat slot, .pushNat depth, .plain .sta])
    (hcount : (values.length : Int) < signedLimit) (hslot : (slot : Int) < signedLimit)
    (hdepth : (depth : Int) < signedLimit) (hstack : m.stack = values.map .value ++ stack)
    (hwrite : writeRun m.frames slot depth values = some frames) :
    Goes host block 0 m { m with pc := m.pc + 4, stack, frames } := by
  have hpushed : Goes host block 0 m _ :=
    (((Goes.refl m).last hat rfl).last hat.tail rfl).last hat.tail.tail rfl
  exact hpushed.last hat.tail.tail.tail (execute_sta hwrite (congrArg (_ :: _ :: _ :: ·) hstack)
    (index?_ofNat hslot) (index?_ofNat hdepth) (index?_ofNat hcount))

/-- `push <size>` `oframe` -/
theorem goes_open (hat : CodeAt block m.pc (.pushNat size :: .plain .oframe :: rest))
    (hsize : (size : Int) < signedLimit) :
    Goes host block 0 m
      { m with pc := m.pc + 2, frames := List.replicate size host.blank :: m.frames } := by
  have hpushed : Goes host block 0 m _ := (Goes.refl m).last hat rfl
  exact hpushed.last hat.tail (execute_oframe rfl (index?_ofNat hsize))

end

end PadCompiler
