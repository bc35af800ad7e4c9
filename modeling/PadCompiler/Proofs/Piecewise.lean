import PadCompiler.Proofs.Layout

/-!
# PadCompiler.Proofs.Piecewise

What is read off code piece by piece: the labels that it pushes, the slots that it names.

The code of a construct is the code of its parts, in order, with jumps and a frame around it.  So
where two pieces give their data one after the other, and jumps give none, a construct gives what
its frame and its parts give: `Piecewise.conditional`, `Piecewise.alternative`, `Piecewise.loop`.
-/

namespace PadCompiler

/-- Instructions that only steer: jumps and their targets, what negates a condition, and the ends
of frames. -/
def Instruction.isSteering (i : Instruction) : Bool :=
  match i.operand with
  | none => i.op == .eq || i.op == .cjmp || i.op == .jmp || i.op == .cframe
  | some (.pc _) => i.op == .push
  | some (.value _) => i.op == .push
  | _ => false

/-- What holds of each kind of them holds of all. -/
theorem Instruction.of_isSteering {P : Instruction → Prop} {i : Instruction}
    (h : i.isSteering = true) (eq : P (.plain .eq)) (cjmp : P (.plain .cjmp))
    (jmp : P (.plain .jmp)) (cframe : P (.plain .cframe)) (literal : ∀ v, P (.push v))
    (target : ∀ offset, P ⟨.push, some (.pc offset)⟩) : P i := by
  obtain ⟨op, operand⟩ := i
  cases operand with
  | none =>
      simp only [isSteering, Bool.or_eq_true, beq_iff_eq] at h
      rcases h with ((rfl | rfl) | rfl) | rfl
      · exact eq
      · exact cjmp
      · exact jmp
      · exact cframe
  | some operand =>
      cases operand with
      | value v =>
          have hop : op = .push := beq_iff_eq.mp h
          exact hop ▸ literal v
      | pc offset =>
          have hop : op = .push := beq_iff_eq.mp h
          exact hop ▸ target offset
      | _ => contradiction

/-- Data that code gives, with `opening` for the two instructions that open a frame. -/
structure Piecewise (Gives : List Instruction → List α → Prop) (opening : Nat → List α) :
    Prop where
  append {code others : List Instruction} {data data' : List α} :
    Gives code data → Gives others data' → Gives (code ++ others) (data ++ data')
  /-- Steering gives no data. -/
  steer {code : List Instruction} : code.all Instruction.isSteering = true → Gives code []
  enter (size : Nat) : Gives [.pushNat size, .plain .oframe] (opening size)

namespace Piecewise

variable {Gives : List Instruction → List α → Prop} {opening : Nat → List α}
  {code test body otherwise init step : List Instruction}
  {data tested inBody inOtherwise inInit inStep : List α}

theorem before (h : Piecewise Gives opening) (hcode : Gives code data) (others : List Instruction)
    (hothers : others.all Instruction.isSteering = true) : Gives (code ++ others) data := by
  simpa using h.append hcode (h.steer hothers)

theorem after (h : Piecewise Gives opening) (hcode : Gives code data) (others : List Instruction)
    (hothers : others.all Instruction.isSteering = true) : Gives (others ++ code) data := by
  simpa using h.append (h.steer hothers) hcode

theorem framed (h : Piecewise Gives opening) (hcode : Gives code data) (size : Nat) :
    Gives (framed size code) (opening size ++ data) :=
  h.append (h.enter size) (h.before hcode [.plain .cframe] rfl)

theorem negated (h : Piecewise Gives opening) (htest : Gives test tested) :
    Gives (negated test) tested :=
  h.before htest [.push (.int 0), .plain .eq] rfl

/-- The guard and what it guards. -/
theorem guarded (h : Piecewise Gives opening) (htest : Gives test tested)
    (hbody : Gives body inBody) :
    Gives (PadCompiler.negated test ++ Instruction.plain .cjmp :: body) (tested ++ inBody) :=
  h.append (h.negated htest) (h.after hbody [.plain .cjmp] rfl)

theorem conditional (h : Piecewise Gives opening) (htest : Gives test tested)
    (hbody : Gives body inBody) (size : Nat) :
    Gives (conditionalCode size test body) (opening size ++ (tested ++ inBody)) :=
  h.after (h.framed (h.guarded htest hbody) size) [jumpBy _] rfl

theorem alternative (h : Piecewise Gives opening) (htest : Gives test tested)
    (hbody : Gives body inBody) (hotherwise : Gives otherwise inOtherwise) (size : Nat) :
    Gives (alternativeCode size test body otherwise)
      (opening size ++ (tested ++ inBody ++ inOtherwise)) :=
  have hskipped := h.after hotherwise [jumpBy (otherwise.length + 2), .plain .jmp] rfl
  h.after (h.framed (h.append (h.guarded htest hbody) hskipped) size) [jumpBy _] rfl

theorem loop (h : Piecewise Gives opening) (hinit : Gives init inInit) (htest : Gives test tested)
    (hbody : Gives body inBody) (hstep : Gives step inStep) (size : Nat) :
    Gives (loopCode size init test body step)
      (opening size ++ (inInit ++ tested ++ inBody ++ inStep)) := by
  have hturn := h.after (h.append hbody hstep)
    [jumpBy ((body ++ step).length + 4), .plain .cjmp] rfl
  have hinside := h.before (h.append (h.append hinit (h.negated htest)) hturn)
    [jumpBy (-((PadCompiler.negated test).length + (body ++ step).length + 2)), .plain .jmp] rfl
  simpa [loopCode] using h.framed hinside size

end Piecewise

end PadCompiler
