import PadCompiler.Demo
import PadCompiler.Proofs.Blocks

/-!
# PadCompiler.Proofs.Verified

Blocks that the generator makes pass the check of finished blocks, and no check of the
generator's own ever fails.

`Passes` speaks of a piece of code: the check goes through it from end to end and has as
many frames open after it as before, whatever stands around it.  A jump inside may lead out
of the piece, so a piece asks for so many instructions before and after it.

* `Laid.passes` — code of statements passes and asks for nothing around it;
* `Compiled.verify` — so do all blocks of a program.
-/

namespace PadCompiler

/-! ## Pieces of code -/

/-- The check goes through the code wherever at least `behind` instructions stand before it
and `ahead` after it. -/
def Passes (behind ahead : Nat) (code : List Instruction) : Prop :=
  ∀ label length index frames rest, behind ≤ index → index + code.length + ahead ≤ length →
    (length : Int) < signedLimit →
    Block.checkCode label length index frames (code ++ rest) =
      Block.checkCode label length (index + code.length) frames rest

/-- Instructions that neither jump nor open or close a frame. -/
def Instruction.isStraight (i : Instruction) : Bool :=
  !i.isReserved && i.pcOffset.isNone && i.op != .oframe && i.op != .cframe

/-- Code of such instructions only. -/
def Straight (code : List Instruction) : Prop :=
  ∀ i ∈ code, i.isStraight = true

namespace Passes

variable {behind ahead : Nat} {code : List Instruction}

theorem nil : Passes behind ahead [] := by
  intro label length index frames rest _ _ _
  rfl

theorem append {behind' ahead' : Nat} {others : List Instruction}
    (hcode : Passes behind ahead' code) (hothers : Passes behind' ahead others)
    (hbehind : behind' ≤ behind + code.length) (hahead : ahead' ≤ others.length + ahead) :
    Passes behind ahead (code ++ others) := by
  intro label length index frames rest hindex hlength hlimit
  rw [List.length_append] at hlength ⊢
  rw [List.append_assoc, hcode label length index frames _ hindex (by omega) hlimit,
    hothers label length _ frames rest (by omega) (by omega) hlimit, Nat.add_assoc]

theorem weaken {behind' ahead' : Nat} (h : Passes behind ahead code) (hbehind : behind ≤ behind')
    (hahead : ahead ≤ ahead') : Passes behind' ahead' code := by
  intro label length index frames rest hindex hlength hlimit
  exact h label length index frames rest (by omega) (by omega) hlimit

/-- One straight instruction. -/
theorem single {i : Instruction} (hi : i.isStraight = true) : Passes behind ahead [i] := by
  intro label length index frames rest _ _ _
  obtain ⟨op, operand⟩ := i
  simp only [Instruction.isStraight, Bool.and_eq_true, Bool.not_eq_true', bne_iff_ne, ne_eq,
    Option.isNone_iff_eq_none] at hi
  obtain ⟨⟨⟨hreserved, hpc⟩, hopen⟩, hclose⟩ := hi
  have hcheck : Block.checkInstruction label length index frames ⟨op, operand⟩ = .ok frames := by
    unfold Block.checkInstruction
    rw [hreserved, hpc]
    dsimp only
    rw [if_neg Bool.false_ne_true]
    split
    · exact absurd rfl hopen
    · exact absurd rfl hclose
    · exact absurd rfl hclose
    · rfl
  rw [List.singleton_append, Block.checkCode, hcheck]
  rfl

theorem straight (h : Straight code) : Passes behind ahead code := by
  induction code with
  | nil => exact nil
  | cons i rest ih =>
      have hrest := ih fun j hj => h j (List.mem_cons_of_mem i hj)
      have hfirst : Passes behind ahead [i] := single (h i List.mem_cons_self)
      exact hfirst.append (hrest.weaken (Nat.le_add_right _ 1) (Nat.le_refl _)) (Nat.le_refl _)
        (by omega)

/-- A jump to a place inside the block. -/
theorem checkCode_jumpBy {label : String} {length index frames : Nat} {distance : Int}
    (rest : List Instruction) (hlimit : (length : Int) < signedLimit) (hindex : index < length)
    (hlow : 0 ≤ (index : Int) + distance) (hhigh : (index : Int) + distance < length) :
    Block.checkCode label length index frames (jumpBy distance :: rest) =
      Block.checkCode label length (index + 1) frames rest := by
  have hword : (Int64.ofInt distance).toInt = distance :=
    toInt_ofInt_of_lt (by omega) (by omega)
  have htarget : jumpTarget index (Int64.ofInt distance) = .ok ((index : Int) + distance) := by
    rw [jumpTarget, hword, if_pos (by omega)]
  have hinside : ¬((index : Int) + distance < 0 ∨ (length : Int) ≤ (index : Int) + distance) := by
    omega
  have hcheck : Block.checkInstruction label length index frames (jumpBy distance) =
      .ok frames := by
    have hplain : (jumpBy distance).isReserved = false := rfl
    have hoffset : (jumpBy distance).pcOffset = some (Int64.ofInt distance) := rfl
    unfold Block.checkInstruction
    rw [hplain, hoffset]
    dsimp only
    rw [if_neg Bool.false_ne_true, htarget, mapError_ok, ok_bind, if_neg hinside]
    rfl
  rw [Block.checkCode, hcheck]
  rfl

/-- A jump forward needs its target after it. -/
theorem forward {distance : Int} (n : Nat) (hn : distance = n) :
    Passes 0 n [jumpBy distance] := by
  intro label length index frames rest _ hlength hlimit
  rw [List.length_singleton] at hlength
  exact checkCode_jumpBy rest hlimit (by omega) (by omega) (by omega)

/-- A jump back needs its target before it. -/
theorem backward {distance : Int} (n : Nat) (hn : distance = -n) :
    Passes n 0 [jumpBy distance] := by
  intro label length index frames rest hindex hlength hlimit
  rw [List.length_singleton] at hlength
  exact checkCode_jumpBy rest hlimit (by omega) (by omega) (by omega)

/-- The frame around a piece is opened before and closed after it. -/
theorem framed (size : Nat) (h : Passes 2 1 code) : Passes 0 0 (PadCompiler.framed size code) := by
  intro label length index frames rest _ hlength hlimit
  have hopen : Block.checkCode label length index frames
      (.pushNat size :: .plain .oframe :: (code ++ .plain .cframe :: rest)) =
      Block.checkCode label length (index + 2) (frames + 1) (code ++ .plain .cframe :: rest) := rfl
  have hclose : Block.checkCode label length (index + 2 + code.length) (frames + 1)
      (.plain .cframe :: rest) =
      Block.checkCode label length (index + 2 + code.length + 1) frames rest := rfl
  have hlong : (PadCompiler.framed size code).length = code.length + 3 := by
    simp [PadCompiler.framed]
  have hsplit : PadCompiler.framed size code ++ rest =
      .pushNat size :: .plain .oframe :: (code ++ .plain .cframe :: rest) := by
    simp [PadCompiler.framed]
  rw [hlong] at hlength ⊢
  rw [hsplit, hopen, h label length (index + 2) (frames + 1) _ (by omega) (by omega) hlimit, hclose]
  congr 1
  omega

end Passes

/-! ## Expressions -/

theorem Straight.append {code others : List Instruction} (hcode : Straight code)
    (hothers : Straight others) : Straight (code ++ others) := by
  intro i hi
  rcases List.mem_append.mp hi with hi | hi
  · exact hcode i hi
  · exact hothers i hi

theorem Straight.of_all {code : List Instruction} (h : code.all Instruction.isStraight = true) :
    Straight code :=
  List.all_eq_true.mp h

/-- Operators are straight. -/
theorem BinaryOp.isStraight_opcode {op : BinaryOp} {opcode : Opcode}
    (h : op.opcode? = some opcode) : (Instruction.plain opcode).isStraight = true := by
  cases op <;> cases h <;> rfl

mutual
/-- The code of expressions is straight. -/
theorem ExprCode.straight {find : Lookup} {e : Expr} {code : List Instruction} :
    ExprCode find e code → Straight code
  | .literal value => .of_all rfl
  | .padWidth => .of_all rfl
  | .padHeight => .of_all rfl
  | .ident hfind => .of_all rfl
  | .randomInt hbound => hbound.straight.append (.of_all rfl)
  | .binary hop hright hleft =>
      (hright.straight.append hleft.straight).append
        (by simpa [Straight] using BinaryOp.isStraight_opcode hop)
  | .unsupported lhs rhs hop => .of_all rfl
  | .call hfind hargs => hargs.straight.append (.of_all rfl)
  | .element hfind hindex hoffset => .of_all rfl
  | .computed hfind hlit hindex => hindex.straight.append (.of_all rfl)

theorem ArgsCode.straight {find : Lookup} {es : List Expr} {code : List Instruction} :
    ArgsCode find es code → Straight code
  | .nil => .of_all rfl
  | .cons hothers hfirst => hothers.straight.append hfirst.straight
end

theorem InOrderCode.straight {find : Lookup} {es : List Expr} {code : List Instruction}
    (h : InOrderCode find es code) : Straight code := by
  induction h with
  | nil => exact .of_all rfl
  | cons hfirst hothers ih => exact hfirst.straight.append ih

/-! ## Statements -/

/-- What puts a value out is straight. -/
theorem Stmt.output?_straight {s : Stmt} {e : Expr} {op arrayOp : Opcode}
    (hs : s.output? = some (e, op, arrayOp)) :
    Straight [.plain op] ∧ Straight [.plain arrayOp] := by
  cases s with
  | print value =>
      cases hs
      exact ⟨.of_all rfl, .of_all rfl⟩
  | ret value =>
      cases hs
      exact ⟨.of_all rfl, .of_all rfl⟩
  | _ => contradiction

theorem Stmt.operation?_straight {s : Stmt} {es : List Expr} {op : Opcode}
    (hs : s.operation? = some (es, op)) : Straight [.plain op] := by
  cases s with
  | delay duration =>
      cases hs
      exact .of_all rfl
  | write x y color =>
      cases hs
      exact .of_all rfl
  | writeBox x y width height color =>
      cases hs
      exact .of_all rfl
  | _ => contradiction

theorem negated_straight {test : List Instruction} (h : Straight test) :
    Straight (negated test) :=
  h.append (.of_all rfl)

section

variable {test body otherwise init step : List Instruction}

theorem conditionalCode_passes (size : Nat) (htest : Straight test) (hbody : Passes 0 0 body) :
    Passes 0 0 (conditionalCode size test body) := by
  have hguard : Passes 2 0 (negated test ++ [.plain .cjmp]) :=
    .straight ((negated_straight htest).append (.of_all rfl))
  have hinside : Passes 2 1 (negated test ++ .plain .cjmp :: body) := by
    have hwhole := hguard.append (hbody.weaken (Nat.zero_le 0) (Nat.zero_le 1)) (Nat.zero_le _)
      (Nat.zero_le _)
    simpa using hwhole
  have hskip := Passes.forward ((negated test ++ .plain .cjmp :: body).length + 3) rfl
  refine hskip.append (hinside.framed size) (Nat.zero_le _) ?_
  simp only [List.length_append, List.length_cons]
  omega

theorem alternativeCode_passes (size : Nat) (htest : Straight test) (hbody : Passes 0 0 body)
    (hotherwise : Passes 0 0 otherwise) :
    Passes 0 0 (alternativeCode size test body otherwise) := by
  let inside := negated test ++ .plain .cjmp :: body
  have hguard : Passes 2 0 (negated test ++ [.plain .cjmp]) :=
    .straight ((negated_straight htest).append (.of_all rfl))
  have hinside : Passes 2 0 inside := by
    have hwhole := hguard.append hbody (Nat.zero_le _) (Nat.zero_le _)
    simpa [inside] using hwhole
  have hjmp : Passes 0 0 [.plain .jmp] := .straight (.of_all rfl)
  have hjumped : Passes 0 1 (.plain .jmp :: otherwise) :=
    hjmp.append (hotherwise.weaken (Nat.zero_le 0) (Nat.zero_le 1)) (Nat.zero_le _) (Nat.zero_le _)
  have hsecond : Passes 0 1 (jumpBy (otherwise.length + 2) :: .plain .jmp :: otherwise) :=
    (Passes.forward (otherwise.length + 2) rfl).append hjumped (Nat.zero_le _) (by simp)
  have hframe := hinside.append hsecond (Nat.zero_le _) (Nat.zero_le _)
  have hskip := Passes.forward (inside.length + 5) rfl
  refine hskip.append (hframe.framed size) (Nat.zero_le _) ?_
  simp [inside]
  omega

theorem loopCode_passes (size : Nat) (hinit : Passes 0 0 init) (htest : Straight test)
    (hbody : Passes 0 0 body) (hstep : Passes 0 0 step) :
    Passes 0 0 (loopCode size init test body step) := by
  let guard := negated test
  let turn := body ++ step
  have hguard : Passes 0 0 guard := .straight (negated_straight htest)
  have hturn : Passes 0 0 turn := hbody.append hstep (Nat.zero_le _) (Nat.zero_le _)
  have hjmp : Passes 0 1 [.plain .jmp] := .straight (.of_all rfl)
  have hagain : Passes (guard.length + turn.length + 2) 1
      [jumpBy (-(guard.length + turn.length + 2)), .plain .jmp] :=
    ((Passes.backward (guard.length + turn.length + 2) rfl).weaken (Nat.le_refl _)
      (Nat.zero_le 0)).append hjmp (Nat.zero_le _) (Nat.zero_le _)
  have hturning : Passes (guard.length + 2) 1
      (turn ++ [jumpBy (-(guard.length + turn.length + 2)), .plain .jmp]) :=
    (hturn.weaken (Nat.zero_le _) (Nat.zero_le 0)).append hagain (by omega) (Nat.zero_le _)
  have hcjmp : Passes (guard.length + 1) 0 [.plain .cjmp] := .straight (.of_all rfl)
  have htested := hcjmp.append hturning (by simp) (Nat.zero_le _)
  have hstop : Passes guard.length (turn.length + 4) [jumpBy (turn.length + 4)] :=
    (Passes.forward (turn.length + 4) rfl).weaken (Nat.zero_le _) (Nat.le_refl _)
  have hleaving := hstop.append htested (by simp) (by simp)
  have hrepeated := hguard.append hleaving (by omega) (Nat.zero_le _)
  have hinside := (hinit.weaken (Nat.zero_le 2) (Nat.zero_le 0)).append hrepeated (Nat.zero_le _)
    (Nat.zero_le _)
  simpa [loopCode, guard, turn] using hinside.framed size

end

/-- The code of statements passes the check, whatever stands around it. -/
theorem Laid.passes {fs : List Frame} {f g : Frame} {ss : List Stmt} {code : List Instruction}
    (h : Laid fs f ss code g) : Passes 0 0 code := by
  induction h with
  | nil fs f => exact .nil
  | cons hfirst hothers ihFirst ihOthers =>
      exact ihFirst.append ihOthers (Nat.zero_le _) (Nat.zero_le _)
  | varDecl hinit => exact .straight (hinit.straight.append (.of_all rfl))
  | assign hvalue hfind => exact .straight (hvalue.straight.append (.of_all rfl))
  | arrayFilled fs f hlength => exact .straight (.of_all rfl)
  | arrayListed hlength hvalues => exact .straight (hvalues.straight.append (.of_all rfl))
  | setElement hvalue hfind hindex hoffset =>
      exact .straight (hvalue.straight.append (.of_all rfl))
  | @setComputed fs f name index value base length depth code slot hvalue hfind hlit hindex =>
      have hone : Straight [.pushNat 1] := .of_all rfl
      have hcount : Straight (.pushNat 1 :: slot) := hone.append hindex.straight
      exact .straight ((hvalue.straight.append hcount).append (.of_all rfl))
  | @outputArray fs f s name op arrayOp base length depth hs hfind =>
      have hvalues : Straight [.pushNat length, .address .pushA base depth, .pushNat length] :=
        .of_all rfl
      exact .straight (hvalues.append (Stmt.output?_straight hs).2)
  | output hs hvalue => exact .straight (hvalue.straight.append (Stmt.output?_straight hs).1)
  | operation hs hvalues =>
      exact .straight (hvalues.straight.append (Stmt.operation?_straight hs))
  | block hbody ih => exact (ih.weaken (Nat.zero_le 2) (Nat.zero_le 1)).framed _
  | conditional htest hbody ih => exact conditionalCode_passes _ htest.straight ih
  | alternative htest hbody hotherwise ihBody ihElse =>
      exact alternativeCode_passes _ htest.straight ihBody ihElse
  | loop hs hinit htest hbody hstep ihInit ihBody ihStep =>
      exact loopCode_passes _ ihInit htest.straight ihBody ihStep

/-! ## Blocks -/

/-- Code that asks for nothing around it makes a block that passes. -/
theorem Passes.verify {b : Block} (h : Passes 0 0 b.code)
    (hlimit : (b.code.length : Int) < signedLimit) : b.verify = .ok () := by
  have hcheck := h b.label b.code.length 0 0 [] (Nat.zero_le 0) (by omega) hlimit
  rw [List.append_nil] at hcheck
  rw [Block.verify, hcheck]
  rfl

theorem FunctionCode.passes {top : Frame} {d : FunctionDecl} {code : List Instruction}
    (h : FunctionCode top d code) : Passes 0 0 code := by
  cases h with
  | @mk body g hbody =>
      have hopening : Passes 0 0 [.pushNat g.used, .plain .alloc] := .straight (.of_all rfl)
      have hend : Passes 0 0 (if Generator.endsWithReturn d.body then [] else [.plain .ret]) := by
        split
        · exact .nil
        · exact .straight (.of_all rfl)
      have hrest := hbody.passes.append hend (Nat.zero_le _) (Nat.zero_le _)
      exact hopening.append hrest (Nat.zero_le _) (Nat.zero_le _)

theorem MainCode.passes {config : Config} {top : Frame} {ss : List Stmt}
    {code : List Instruction} (h : MainCode config top ss code) : Passes 0 0 code := by
  cases h with
  | @mk body g hbody =>
      have hclearing : Passes 2 0 config.clearing := by
        rw [Config.clearing]
        cases config.clearColor with
        | none => exact .nil
        | some color => exact .straight (.of_all rfl)
      have hinside := hclearing.append (hbody.passes.weaken (Nat.zero_le 0) (Nat.zero_le 1))
        (Nat.zero_le _) (Nat.zero_le _)
      have hhalt : Passes 0 0 [.plain .halt] := .straight (.of_all rfl)
      exact (hinside.framed g.used).append hhalt (Nat.zero_le _) (Nat.zero_le _)

/-- An image passes the check if all of its blocks do. -/
theorem Image.verify_eq_ok {image : Image} :
    image.verify = .ok () ↔ ∀ b ∈ image.blocks, b.verify = .ok () := by
  rw [verify]
  generalize image.blocks = blocks
  induction blocks with
  | nil => simp [pure, Except.pure]
  | cons b blocks ih =>
      rw [List.forM_eq_forM, List.forM_cons, List.forall_mem_cons, ← ih]
      cases b.verify with
      | ok _ => simp
      | error e => exact ⟨nofun, nofun⟩

/-- All blocks of a program pass the check. -/
theorem Compiled.verify {config : Config} {p : Program} {image : Image}
    (h : Compiled config p image.blocks)
    (hlimit : ∀ b ∈ image.blocks, (b.code.length : Int) < signedLimit) :
    image.verify = .ok () := by
  have hpass : ∀ b ∈ image.blocks, b.verify = .ok () := by
    intro b hb
    rcases h.mem hb with ⟨d, -, hcode⟩ | hcode
    · exact hcode.passes.verify (hlimit b hb)
    · exact hcode.passes.verify (hlimit b hb)
  exact Image.verify_eq_ok.mpr hpass

/-- An accepted program was turned into an image that passes the check. -/
theorem compile_eq_ok {config : Config} {p : Program} {image : Image} :
    compile config p = .ok image ↔ image.verify = .ok () ∧
      ∃ g, (Generator.generate p).run (.initial config) = .ok () g ∧ g.image = image := by
  unfold compile
  cases hrun : (Generator.generate p).run (.initial config) with
  | error e g => simp
  | ok _ g =>
      dsimp only
      cases hcheck : g.image.verify with
      | error e =>
          refine ⟨nofun, ?_⟩
          rintro ⟨hverify, g', hg', rfl⟩
          cases hg'
          rw [hcheck] at hverify
          contradiction
      | ok _ =>
          refine ⟨fun h => ?_, ?_⟩
          · cases h
            exact ⟨hcheck, g, rfl, rfl⟩
          · rintro ⟨-, g', hg', rfl⟩
            cases hg'
            rfl

/-- An accepted program renders to text. -/
theorem render_of_compile {config : Config} {p : Program} {image : Image}
    (h : compile config p = .ok image) : ∃ text, image.render = .ok text := by
  have hverify : image.verify = .ok () := (compile_eq_ok.mp h).1
  exact ⟨_, by rw [Image.render, hverify]; rfl⟩

/-- What the size of a program accounts for does not happen to one that is small enough. -/
theorem Program.not_excuses {p : Program} (hcode : (p.codeBound : Int) < signedLimit)
    (hslots : ∀ n ∈ p.slotTotals, n < wordLimit) (f : Fault) : ¬p.Excuses f := by
  cases f with
  | addOverflow =>
      rintro ⟨n, hn, hlong⟩
      have hlt := hslots n hn
      omega
  | subOverflow =>
      intro hlong
      have hle : signedLimit ≤ p.codeBound := hlong
      omega
  | depthMismatch stored hops => exact id

/-- Why a program is not accepted: it is not well formed, or it is too large. -/
theorem compile_error {config : Config} {p : Program} {e : CompileError}
    (h : compile config p = .error e) :
    e.isReport = true ∨ (∃ f, e = .fault f ∧ p.Excuses f) ∨
      (∃ v, e = .verify v) ∧ signedLimit ≤ (p.codeBound : Int) := by
  rcases compile_outcome config p with ⟨image, hcompiled, hlens, hcompile⟩ | ⟨e', he', hcases⟩
  · rw [hcompile] at h
    cases hverify : image.verify with
    | ok _ =>
        rw [hverify] at h
        cases h
    | error v =>
        rw [hverify] at h
        cases h
        refine .inr (.inr ⟨⟨v, rfl⟩, ?_⟩)
        by_cases hcode : (p.codeBound : Int) < signedLimit
        · have hok : image.verify = .ok () := hcompiled.verify fun b hb => by
            have hlen := hlens b hb
            omega
          rw [hok] at hverify
          cases hverify
        · omega
  · rw [he'] at h
    cases h
    rcases hcases with hreport | hexcused
    · exact .inl hreport
    · exact .inr (.inl hexcused)

/-- The generator never trips one of its own checks.  No program makes it report an internal
error.  A program whose code can be held in memory is not refused by the check of finished
blocks either; and if besides no scope needs more slots than there are words, no arithmetic
leaves its range and no depth is found wrong.  So every accepted program renders. -/
theorem compile_trips_no_check (config : Config) (p : Program) :
    (∀ e, compile config p ≠ .error (.internal e)) ∧
    ((p.codeBound : Int) < signedLimit →
      (∀ e, compile config p ≠ .error (.verify e)) ∧
      ((∀ n ∈ p.slotTotals, n < wordLimit) → ∀ f, compile config p ≠ .error (.fault f))) ∧
    ∀ image, compile config p = .ok image → ∃ text, image.render = .ok text := by
  refine ⟨?_, ?_, fun image => render_of_compile⟩
  · intro e h
    rcases compile_error h with hreport | ⟨f, hf, -⟩ | ⟨⟨v, hv⟩, -⟩
    · cases hreport
    · cases hf
    · cases hv
  · intro hcode
    constructor
    · intro e h
      rcases compile_error h with hreport | ⟨f, hf, -⟩ | ⟨-, hlong⟩
      · cases hreport
      · cases hf
      · omega
    · intro hslots f h
      rcases compile_error h with hreport | ⟨f', hf, hexcuses⟩ | ⟨⟨v, hv⟩, -⟩
      · cases hreport
      · exact Program.not_excuses hcode hslots f' hexcuses
      · cases hv

/-- The demo, which has a function, a loop and an array, is small enough. -/
theorem compile_demo_trips_no_check :
    (Demo.program.codeBound : Int) < signedLimit ∧ (∀ n ∈ Demo.program.slotTotals, n < wordLimit) ∧
      (∀ e, compile {} Demo.program ≠ .error (.verify e)) ∧
      ∀ f, compile {} Demo.program ≠ .error (.fault f) := by
  have hcode : (Demo.program.codeBound : Int) < signedLimit := by decide
  have hslots : ∀ n ∈ Demo.program.slotTotals, n < wordLimit := by decide
  have hchecks := (compile_trips_no_check {} Demo.program).2.1 hcode
  exact ⟨hcode, hslots, hchecks.1, hchecks.2 hslots⟩

end PadCompiler
