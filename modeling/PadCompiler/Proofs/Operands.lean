import PadCompiler.Proofs.Paths
import PadCompiler.Proofs.Translation

/-!
# PadCompiler.Proofs.Operands

What code without jumps does to the operand stack.

* `Walks` — the scan goes on from one point to another, and the code between them is coherent;
* `Leaves` — wherever it stands, a piece of code leaves a number of values above the operands
  that it finds, and reads none of those;
* `ExprCode.leaves` — the code of an expression leaves one value.

The logical operators have no code, so all of this is about programs without them.
-/

namespace PadCompiler

/-! ## Programs without logical operators -/

/-- Every operator but `and` and `or`. -/
def BinaryOp.isLogicFree : BinaryOp → Bool
  | .and | .or => false
  | _ => true

mutual
/-- Expressions without `and` and `or`. -/
def Expr.isLogicFree : Expr → Bool
  | .binary op lhs rhs => op.isLogicFree && lhs.isLogicFree && rhs.isLogicFree
  | .call _ args => Expr.allLogicFree args
  | .randomInt bound => bound.isLogicFree
  | .index _ i => i.isLogicFree
  | .literal _ | .ident _ | .padWidth | .padHeight => true

/-- None of the expressions has `and` or `or`. -/
def Expr.allLogicFree : List Expr → Bool
  | [] => true
  | e :: es => e.isLogicFree && Expr.allLogicFree es
end

mutual
/-- Statements without `and` and `or`. -/
def Stmt.isLogicFree : Stmt → Bool
  | .varDecl decl => decl.init.isLogicFree
  | .arrayDecl _ _ size es => size.isLogicFree && Expr.allLogicFree es
  | .assign a => a.value.isLogicFree
  | .arrayAssign _ index value => index.isLogicFree && value.isLogicFree
  | .print e | .delay e | .ret e => e.isLogicFree
  | .write x y color => Expr.allLogicFree [x, y, color]
  | .writeBox x y width height color => Expr.allLogicFree [x, y, width, height, color]
  | .conditional test body none => test.isLogicFree && Stmt.allLogicFree body
  | .conditional test body (some otherwise) =>
    test.isLogicFree && Stmt.allLogicFree body && Stmt.allLogicFree otherwise
  | .whileLoop test body => test.isLogicFree && Stmt.allLogicFree body
  | .forLoop init test step body =>
    init.all (·.init.isLogicFree) && test.isLogicFree && step.all (·.value.isLogicFree) &&
      Stmt.allLogicFree body
  | .block body => Stmt.allLogicFree body
  | .function _ _ _ body => Stmt.allLogicFree body

/-- None of the statements has `and` or `or`. -/
def Stmt.allLogicFree : List Stmt → Bool
  | [] => true
  | s :: ss => s.isLogicFree && Stmt.allLogicFree ss
end

/-- Programs without `and` and `or`. -/
def Program.isLogicFree (p : Program) : Bool :=
  Stmt.allLogicFree p.items

theorem Stmt.allLogicFree_eq_true {ss : List Stmt} :
    Stmt.allLogicFree ss = true ↔ ∀ s ∈ ss, s.isLogicFree = true := by
  induction ss with
  | nil => simp [allLogicFree]
  | cons s ss ih => simp [allLogicFree, ih]

/-- Neither has any part of a loop without them. -/
theorem Stmt.isLogicFree_of_loop? {s : Stmt} {l : LoopParts} (hs : s.loop? = some l)
    (hfree : s.isLogicFree = true) :
    Stmt.allLogicFree l.start = true ∧ l.test.isLogicFree = true ∧
      Stmt.allLogicFree l.body = true ∧ Stmt.allLogicFree l.advance = true := by
  cases s with
  | whileLoop test body =>
      cases hs
      simpa [Stmt.isLogicFree, LoopParts.start, LoopParts.advance, Stmt.allLogicFree] using hfree
  | forLoop init test step body =>
      cases hs
      simp only [Stmt.isLogicFree, Bool.and_eq_true] at hfree
      obtain ⟨⟨⟨hinit, htest⟩, hstep⟩, hbody⟩ := hfree
      refine ⟨?_, htest, hbody, ?_⟩
      · cases init with
        | none => rfl
        | some decl => simpa [LoopParts.start, Stmt.allLogicFree, Stmt.isLogicFree] using hinit
      · cases step with
        | none => rfl
        | some a => simpa [LoopParts.advance, Stmt.allLogicFree, Stmt.isLogicFree] using hstep
  | _ => contradiction

/-- The operators without an opcode are the logical ones. -/
theorem BinaryOp.isLogicFree_of_opcode? {op : BinaryOp} (h : op.opcode? = none) :
    op.isLogicFree = false := by
  cases op <;> first | rfl | cases h

/-! ## Walks -/

/-- The scan gets from `w` to `w'`, and at every index between them the code is coherent. -/
structure Walks (code : List Instruction) (start : Point) (base : List Mark) (w w' : Point) :
    Prop where
  scans : Scans code start w'
  coherent : ∀ k, w.pc ≤ k → k < w'.pc → CoherentAt code start base k

/-- Instructions that have nothing to do with jumps or frames. -/
def Instruction.isCalm (i : Instruction) : Bool :=
  i.pcOffset.isNone && !([.jmp, .cjmp, .oframe, .cframe, .halt] : List Opcode).contains i.op

section

variable {code rest : List Instruction} {start w w' v : Point} {base extra : List Mark}
  {i : Instruction} {e : Effect}

theorem Walks.refl (h : Scans code start w) : Walks code start base w w :=
  ⟨h, fun _ hle hlt => absurd hle (Nat.not_le_of_lt hlt)⟩

theorem Walks.trans (h : Walks code start base w v) (h' : Walks code start base v w') :
    Walks code start base w w' := by
  refine ⟨h'.scans, fun k hle hlt => ?_⟩
  rcases Nat.lt_or_ge k v.pc with hk | hk
  · exact h.coherent k hle hk
  · exact h'.coherent k hk hlt

/-- One instruction, where the code is coherent. -/
theorem Coherent.walks (h : Coherent code start base w i) (hw : Scans code start w)
    (hat : CodeAt code w.pc (i :: rest)) (hpass : w.pass i = some w') :
    Walks code start base w w' := by
  have hpc := Point.pass_pc hpass
  refine ⟨hw.pass hat.head hpass, fun k hle hlt => ?_⟩
  obtain rfl : w.pc = k := by omega
  exact ⟨w, i, hw, rfl, hat.head, h⟩

theorem Coherent.of_isCalm (hcalm : i.isCalm = true) (hstack : w.stack = extra ++ base)
    (heffect : i.effect w.pc w.stack = some e) (htakes : e.takes ≤ extra.length) :
    Coherent code start base w i := by
  obtain ⟨op, operand⟩ := i
  simp only [Instruction.isCalm, List.contains_cons, List.contains_nil, Bool.and_eq_true,
    Option.isNone_iff_eq_none, Bool.not_eq_true', Bool.or_eq_false_iff, beq_eq_false_iff_ne,
    ne_eq] at hcalm
  obtain ⟨hpc, hjmp, hcjmp, -, hclose, hhalt, -⟩ := hcalm
  refine ⟨⟨extra, e, hstack, heffect, htakes⟩, ?_, ?_, fun h => absurd h hclose,
    fun h => absurd h hhalt, fun h => absurd h hcjmp⟩
  · intro t passed hjump
    unfold Instruction.jump? at hjump
    split at hjump
    · exact absurd ‹op = .jmp› hjmp
    · exact absurd ‹op = .cjmp› hcjmp
    · exact absurd ‹op = .cjmp› hcjmp
    · contradiction
  · intro offset hoffset
    rw [hpc] at hoffset
    contradiction

theorem Instruction.adjust_of_isCalm (hcalm : i.isCalm = true) (frames : Int) :
    i.adjust frames = frames := by
  obtain ⟨op, operand⟩ := i
  cases op <;> first | rfl | simp [isCalm] at hcalm

/-- One more calm instruction. -/
theorem Walks.calm (h : Walks code start base w v) (hat : CodeAt code v.pc (i :: rest))
    (hcalm : i.isCalm = true) (hstack : v.stack = extra ++ base)
    (heffect : i.effect v.pc v.stack = some e) (htakes : e.takes ≤ extra.length) :
    Walks code start base w ⟨v.pc + 1, e.gives ++ v.stack.drop e.takes, v.frames⟩ := by
  have henough : e.takes ≤ v.stack.length := by
    rw [hstack, List.length_append]
    omega
  have hpass := Point.pass_eq_some.mpr ⟨e, heffect, henough, rfl⟩
  rw [Instruction.adjust_of_isCalm hcalm] at hpass
  exact h.trans ((Coherent.of_isCalm hcalm hstack heffect htakes).walks h.scans hat hpass)

end

/-! ## Pieces of code -/

/-- Wherever the piece stands, it leaves operands for which `P` holds above those that it finds,
and reads none of the latter. -/
def Gives (code : List Instruction) (start : Point) (base : List Mark) (P : List Mark → Prop)
    (piece : List Instruction) : Prop :=
  ∀ ⦃pc frames extra⦄, Scans code start ⟨pc, extra ++ base, frames⟩ → CodeAt code pc piece →
    ∃ marks, P marks ∧ Walks code start base ⟨pc, extra ++ base, frames⟩
      ⟨pc + piece.length, marks ++ (extra ++ base), frames⟩

/-- A number of values. -/
def Values (n : Nat) (marks : List Mark) : Prop :=
  marks.length = n ∧ ∀ m ∈ marks, m.isValue = true

/-- The operands in `top` above `n` others. -/
def Topped (top : List Mark) (n : Nat) (marks : List Mark) : Prop :=
  ∃ others, marks = top ++ others ∧ others.length = n

/-- The piece leaves a number of values. -/
abbrev Leaves (code : List Instruction) (start : Point) (base : List Mark) (n : Nat)
    (piece : List Instruction) : Prop :=
  Gives code start base (Values n) piece

theorem Values.nil : Values 0 [] :=
  ⟨rfl, by simp⟩

theorem Values.append {n k : Nat} {marks marks' : List Mark} (h : Values n marks)
    (h' : Values k marks') : Values (n + k) (marks' ++ marks) := by
  refine ⟨by simp [h.1, h'.1, Nat.add_comm], fun m hm => ?_⟩
  rcases List.mem_append.mp hm with hm | hm
  · exact h'.2 m hm
  · exact h.2 m hm

theorem Values.replicate (n : Nat) {m : Mark} (hm : m.isValue = true) :
    Values n (List.replicate n m) := by
  refine ⟨List.length_replicate, fun m' hm' => ?_⟩
  rw [List.eq_of_mem_replicate hm']
  exact hm

/-- The mark of a number that was pushed. -/
def Mark.number (n : Nat) : Mark :=
  .literal (.int (Int64.ofNat n))

theorem Mark.count?_number {n : Nat} (h : (n : Int) < signedLimit) :
    (Mark.number n).count? = some n :=
  index?_ofNat h

namespace Gives

variable {code piece others : List Instruction} {start : Point} {base top gives : List Mark}
  {P Q R : List Mark → Prop} {i : Instruction} {m : Mark} {n k : Nat}

theorem nil : Leaves code start base 0 [] := by
  intro pc frames extra hscans _
  exact ⟨[], .nil, .refl hscans⟩

theorem mono (h : Gives code start base P piece) (hPQ : ∀ marks, P marks → Q marks) :
    Gives code start base Q piece := by
  intro pc frames extra hscans hat
  obtain ⟨marks, hmarks, hwalks⟩ := h hscans hat
  exact ⟨marks, hPQ marks hmarks, hwalks⟩

theorem topped (h : Leaves code start base n piece) : Gives code start base (Topped [] n) piece :=
  h.mono fun marks hmarks => ⟨marks, rfl, hmarks.1⟩

theorem leaves (h : Gives code start base (· = gives) piece) (hgives : Values n gives) :
    Leaves code start base n piece :=
  h.mono fun _ hmarks => hmarks ▸ hgives

theorem append (h : Gives code start base P piece) (h' : Gives code start base Q others)
    (hR : ∀ marks marks', P marks → Q marks' → R (marks' ++ marks)) :
    Gives code start base R (piece ++ others) := by
  intro pc frames extra hscans hat
  obtain ⟨marks, hmarks, hwalks⟩ := h hscans hat.left
  have hscans' := hwalks.scans
  rw [← List.append_assoc] at hscans'
  obtain ⟨marks', hmarks', hwalks'⟩ := h' hscans' hat.right
  refine ⟨marks' ++ marks, hR marks marks' hmarks hmarks', ?_⟩
  simp only [List.append_assoc, List.length_append, ← Nat.add_assoc] at hwalks' ⊢
  exact hwalks.trans hwalks'

/-- One more instruction, whose operands are among those that the piece leaves. -/
theorem andThen {takes : Nat} (h : Gives code start base (Topped top n) piece)
    (hcalm : i.isCalm = true)
    (heffect : ∀ pc stack, i.effect pc (top ++ stack) = some ⟨takes, gives⟩)
    (htakes : takes ≤ top.length + n)
    (hQ : ∀ others : List Mark, others.length = n → Q (gives ++ (top ++ others).drop takes)) :
    Gives code start base Q (piece ++ [i]) := by
  intro pc frames extra hscans hat
  obtain ⟨_, ⟨others, rfl, rfl⟩, hwalks⟩ := h hscans hat.left
  have henough : takes ≤ (top ++ others).length := by simpa using htakes
  have heffect' := heffect (pc + piece.length) (others ++ (extra ++ base))
  rw [← List.append_assoc] at heffect'
  have hnext := hwalks.calm hat.right hcalm
    (List.append_assoc (top ++ others) extra base).symm heffect'
    (Nat.le_trans henough (by simp))
  refine ⟨_, hQ others rfl, ?_⟩
  rw [List.drop_append_of_le_length henough] at hnext
  simpa only [List.append_assoc, List.length_append, List.length_singleton,
    ← Nat.add_assoc] using hnext

/-- A push on top of what the piece leaves. -/
theorem push (h : Gives code start base (Topped top n) piece) (hcalm : i.isCalm = true)
    (heffect : ∀ pc stack, i.effect pc stack = some ⟨0, [m]⟩) :
    Gives code start base (Topped (m :: top) n) (piece ++ [i]) :=
  h.andThen hcalm (fun pc _ => heffect pc _) (Nat.zero_le _) fun others hn =>
    ⟨others, rfl, hn⟩

/-- An instruction that takes all that the piece leaves. -/
theorem takeAll (h : Gives code start base (Topped top n) piece) (hcalm : i.isCalm = true)
    (heffect : ∀ pc stack, i.effect pc (top ++ stack) = some ⟨n + top.length, gives⟩) :
    Gives code start base (· = gives) (piece ++ [i]) := by
  refine h.andThen hcalm heffect (Nat.le_of_eq (Nat.add_comm _ _)) fun others hn => ?_
  rw [List.drop_eq_nil_of_le (by simp; omega), List.append_nil]

/-- It may leave a value. -/
theorem value (h : Gives code start base (Topped top n) piece) (hcalm : i.isCalm = true)
    (heffect : ∀ pc stack, i.effect pc (top ++ stack) = some ⟨n + top.length, [m]⟩)
    (hm : m.isValue = true) : Leaves code start base 1 (piece ++ [i]) :=
  (h.takeAll hcalm heffect).leaves (.replicate 1 hm)

/-- It may leave nothing. -/
theorem clear (h : Gives code start base (Topped top n) piece) (hcalm : i.isCalm = true)
    (heffect : ∀ pc stack, i.effect pc (top ++ stack) = some ⟨n + top.length, []⟩) :
    Leaves code start base 0 (piece ++ [i]) :=
  (h.takeAll hcalm heffect).leaves .nil

/-- Code in a block has a length that a word can count. -/
theorem of_short (hcode : (code.length : Int) < signedLimit)
    (h : (piece.length : Int) < signedLimit → Gives code start base P piece) :
    Gives code start base P piece := by
  intro pc frames extra hscans hat
  have hle := hat.length_le
  exact h (by omega) hscans hat

/-- `push <k>` -/
theorem pushNat (h : Gives code start base (Topped top n) piece) (k : Nat) :
    Gives code start base (Topped (.number k :: top) n) (piece ++ [.pushNat k]) :=
  h.push rfl fun _ _ => rfl

/-! ### Counts -/

/-- `push <n>` `pusha` -/
theorem pushA (slot depth : Nat) (hn : (n : Int) < signedLimit) :
    Leaves code start base n [.pushNat n, .address .pushA slot depth] := by
  have hpushed : Gives code start base (Topped [.number n] 0) [.pushNat n] := nil.topped.pushNat n
  have hcopied : Gives code start base (· = .replicate n .computed)
      ([.pushNat n] ++ [.address .pushA slot depth]) :=
    hpushed.takeAll rfl fun pc stack => by
      simp [Instruction.effect, Instruction.address, Mark.count?_number hn]
  exact hcopied.leaves (.replicate n rfl)

/-- `push <n>` `push <value>` `dupa` -/
theorem dupa (v : Value) (hn : (n : Int) < signedLimit) :
    Leaves code start base n [.pushNat n, .push v, .plain .dupa] := by
  have hpushed : Gives code start base (Topped [.literal v, .number n] 0)
      [.pushNat n, .push v] := (nil.topped.pushNat n).push rfl fun _ _ => rfl
  have hcopied : Gives code start base (· = .replicate n (.literal v))
      ([.pushNat n, .push v] ++ [.plain .dupa]) :=
    hpushed.takeAll rfl fun pc stack => by
      simp [Instruction.effect, Instruction.plain, Mark.count?_number hn]
  exact hcopied.leaves (.replicate n rfl)

/-- `push <n>` `push <slot>` `push <depth>` `sta` -/
theorem sta (h : Leaves code start base n piece) (slot depth : Nat)
    (hn : (n : Int) < signedLimit) :
    Leaves code start base 0
      (piece ++ [.pushNat n, .pushNat slot, .pushNat depth, .plain .sta]) := by
  have hpushed := ((h.topped.pushNat n).pushNat slot).pushNat depth
  have hstored := hpushed.clear (i := .plain .sta) rfl fun pc stack => by
    simp [Instruction.effect, Instruction.plain, Mark.count?_number hn]
  simpa using hstored

/-- `push <n>` and an opcode for whole arrays. -/
theorem whole {op : Opcode} (h : Leaves code start base n piece) (hop : op = .printA ∨ op = .reta)
    (hn : (n : Int) < signedLimit) :
    Leaves code start base 0 (piece ++ [.pushNat n, .plain op]) := by
  have hcalm : (Instruction.plain op).isCalm = true := by
    rcases hop with rfl | rfl <;> rfl
  have hput := (h.topped.pushNat n).clear hcalm fun pc stack => by
    rcases hop with rfl | rfl <;>
      simp [Instruction.effect, Instruction.plain, Mark.count?_number hn]
  simpa using hput

/-- `push <n>` `push <label>` `call` -/
theorem call (h : Leaves code start base n piece) (label : String)
    (hn : (n : Int) < signedLimit) :
    Leaves code start base 1 (piece ++ [.pushNat n, .label label, .plain .call]) := by
  have hpushed := (h.topped.pushNat n).push (i := .label label) (m := .label (Text.lower label))
    rfl fun _ _ => rfl
  have hcalled := hpushed.value (i := .plain .call) (m := .computed) rfl (fun pc stack => by
    simp [Instruction.effect, Instruction.plain, Mark.count?_number hn]) rfl
  simpa using hcalled

/-- `<value>` `push <slot>` `push <depth>` `st` -/
theorem st (h : Leaves code start base 1 piece) (slot depth : Nat) :
    Leaves code start base 0 (piece ++ [.pushNat slot, .pushNat depth, .plain .st]) := by
  have hstored := ((h.topped.pushNat slot).pushNat depth).clear (i := .plain .st) rfl
    fun _ _ => rfl
  simpa using hstored

/-- `<value>` `push 1` `<index>` `push <base>` `add` `push <depth>` `sta` -/
theorem staComputed (h : Leaves code start base 1 piece) (h' : Leaves code start base 1 others)
    (first depth : Nat) :
    Leaves code start base 0 (piece ++ .pushNat 1 :: others ++
      [.pushNat first, .plain .add, .pushNat depth, .plain .sta]) := by
  have hslot : Gives code start base (· = [.computed])
      (others ++ [.pushNat first] ++ [.plain .add]) :=
    (h'.topped.pushNat first).takeAll rfl fun _ _ => rfl
  have hplaced : Gives code start base (Topped [.computed, .number 1] 1)
      (piece ++ [.pushNat 1] ++ (others ++ [.pushNat first] ++ [.plain .add])) := by
    refine (h.topped.pushNat 1).append hslot ?_
    rintro _ _ ⟨values, rfl, hn⟩ rfl
    exact ⟨values, rfl, hn⟩
  have hstored := (hplaced.pushNat depth).clear (i := .plain .sta) rfl fun _ _ => rfl
  simpa using hstored

end Gives

/-! ## Expressions -/

/-- Every expression without `and` and `or` has code. -/
theorem ExprCode.length_pos {find : Lookup} {e : Expr} {code : List Instruction}
    (h : ExprCode find e code) (hfree : e.isLogicFree = true) : 0 < code.length := by
  cases h with
  | unsupported lhs rhs hop =>
      simp [Expr.isLogicFree, BinaryOp.isLogicFree_of_opcode? hop] at hfree
  | _ => simp only [List.length_append, List.length_cons]; omega

theorem ArgsCode.le_length {find : Lookup} {es : List Expr} {code : List Instruction}
    (h : ArgsCode find es code) (hfree : Expr.allLogicFree es = true) :
    es.length ≤ code.length := by
  cases h with
  | nil => exact Nat.le_refl _
  | @cons e es first others hothers hfirst =>
      rw [Expr.allLogicFree, Bool.and_eq_true] at hfree
      have hpos := hfirst.length_pos hfree.1
      have hle := hothers.le_length hfree.2
      simp only [List.length_cons, List.length_append]
      omega

theorem BinaryOp.effect?_opcode {op : BinaryOp} {opcode : Opcode} (h : op.opcode? = some opcode)
    (index : Nat) (stack : List Mark) :
    (Instruction.plain opcode).isCalm = true ∧
      (Instruction.plain opcode).effect index stack = some ⟨2, [.computed]⟩ := by
  cases op <;> first | contradiction | (cases h; exact ⟨rfl, rfl⟩)

section

variable {block : List Instruction} {start : Point} {base : List Mark} {find : Lookup}

mutual
/-- The code of an expression leaves one value. -/
theorem ExprCode.leaves (hblock : (block.length : Int) < signedLimit) {e : Expr}
    {code : List Instruction} (hfree : e.isLogicFree = true) :
    ExprCode find e code → Leaves block start base 1 code
  | .literal value => Gives.nil.topped.value (m := .literal value) rfl (fun _ _ => rfl) rfl
  | .padWidth => Gives.nil.topped.value (m := .computed) rfl (fun _ _ => rfl) rfl
  | .padHeight => Gives.nil.topped.value (m := .computed) rfl (fun _ _ => rfl) rfl
  | .ident hfind => Gives.nil.topped.value (m := .computed) rfl (fun _ _ => rfl) rfl
  | .randomInt hbound => by
      rw [Expr.isLogicFree] at hfree
      exact (hbound.leaves hblock hfree).topped.value (m := .computed) rfl (fun _ _ => rfl) rfl
  | .binary hop hright hleft => by
      simp only [Expr.isLogicFree, Bool.and_eq_true] at hfree
      have hoperands := (hright.leaves hblock hfree.2).append (hleft.leaves hblock hfree.1.2)
        fun _ _ => Values.append
      exact hoperands.topped.value (BinaryOp.effect?_opcode hop 0 []).1
        (fun pc stack => (BinaryOp.effect?_opcode hop pc stack).2) rfl
  | .unsupported lhs rhs hop => by
      simp [Expr.isLogicFree, BinaryOp.isLogicFree_of_opcode? hop] at hfree
  | .call hfind hargs => by
      rw [Expr.isLogicFree] at hfree
      have hle := hargs.le_length hfree
      refine .of_short hblock fun hshort => (hargs.leaves hblock hfree).call _ ?_
      rw [List.length_append] at hshort
      omega
  | .element hfind hindex hoffset => .pushA _ _ (by decide)
  | .computed hfind hlit hindex => by
      rw [Expr.isLogicFree] at hfree
      exact (hindex.leaves hblock hfree).topped.value (m := .computed) rfl (fun _ _ => rfl) rfl

/-- The code of arguments leaves as many values. -/
theorem ArgsCode.leaves (hblock : (block.length : Int) < signedLimit) {es : List Expr}
    {code : List Instruction} (hfree : Expr.allLogicFree es = true) :
    ArgsCode find es code → Leaves block start base es.length code
  | .nil => Gives.nil
  | .cons hothers hfirst => by
      rw [Expr.allLogicFree, Bool.and_eq_true] at hfree
      exact (hothers.leaves hblock hfree.2).append (hfirst.leaves hblock hfree.1)
        fun _ _ => Values.append
end

theorem InOrderCode.leaves (hblock : (block.length : Int) < signedLimit) {es : List Expr}
    {code : List Instruction} (hfree : Expr.allLogicFree es = true) (h : InOrderCode find es code) :
    Leaves block start base es.length code := by
  induction h with
  | nil => exact Gives.nil
  | @cons e es first others hfirst hothers ih =>
      rw [Expr.allLogicFree, Bool.and_eq_true] at hfree
      rw [List.length_cons, Nat.add_comm]
      exact (hfirst.leaves hblock hfree.1).append (ih hfree.2) fun _ _ => Values.append

end

end PadCompiler
