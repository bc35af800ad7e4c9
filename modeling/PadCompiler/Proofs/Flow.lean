import PadCompiler.Proofs.Control
import PadCompiler.Proofs.Operands
import PadCompiler.Proofs.Shapes

/-!
# PadCompiler.Proofs.Flow

Paths through the code of statements.

`Settles` speaks of a piece of code: the scan that comes to it with nothing above `base` goes
through it coherently, leaves nothing above `base` and as many frames open as before, and has
nothing above `base` where a statement begins or ends.

* `walks_open`, `walks_close`, `walks_jumpBy`, `walks_jmp`, `walks_cjmp` — the instructions that
  have to do with frames and jumps, which are coherent once their targets are on the scan;
* `Settles.framed`, `settles_conditionalCode`, `settles_alternativeCode`, `settles_loopCode` —
  the constructs;
* `Shaped.settles` — the code of statements settles.
-/

namespace PadCompiler

/-! ## Frames and jumps -/

section

variable {code rest : List Instruction} {start : Point} {base stack : List Mark}
  {pc n : Nat} {frames frames' : Int} {distance : Int}

/-- `push <size>` `oframe` -/
theorem walks_open {size : Nat} (hscans : Scans code start ⟨pc, stack, frames⟩)
    (hat : CodeAt code pc (.pushNat size :: .plain .oframe :: rest))
    (hstack : ∃ extra, stack = extra ++ base) :
    Walks code start base ⟨pc, stack, frames⟩ ⟨pc + 2, stack, frames + 1⟩ := by
  obtain ⟨extra, rfl⟩ := hstack
  have hsize : Walks code start base ⟨pc, extra ++ base, frames⟩
      ⟨pc + 1, .number size :: extra ++ base, frames⟩ :=
    (Walks.refl hscans).calm hat rfl rfl rfl (Nat.zero_le _)
  have hopen : Coherent code start base ⟨pc + 1, .number size :: extra ++ base, frames⟩
      (.plain .oframe) :=
    { operands := ⟨.number size :: extra, _, rfl, rfl, by simp⟩
      jumps := nofun
      leads := nofun
      closes := nofun
      halts := nofun
      tests := nofun }
  exact hsize.trans (hopen.walks hsize.scans hat.tail rfl)

/-- `cframe` -/
theorem walks_close (hscans : Scans code start ⟨pc, base, frames + 1⟩)
    (hframes : start.frames ≤ frames) (hat : CodeAt code pc (.plain .cframe :: rest)) :
    Walks code start base ⟨pc, base, frames + 1⟩ ⟨pc + 1, base, frames⟩ := by
  have hclose : Coherent code start base ⟨pc, base, frames + 1⟩ (.plain .cframe) :=
    { operands := ⟨[], _, rfl, rfl, Nat.le_refl _⟩
      jumps := nofun
      leads := nofun
      closes := fun _ => Int.lt_add_one_of_le hframes
      halts := nofun
      tests := nofun }
  have hpass : (Point.mk pc base (frames + 1)).pass (.plain .cframe) =
      some ⟨pc + 1, base, frames⟩ :=
    Point.pass_eq_some.mpr ⟨⟨0, []⟩, rfl, Nat.zero_le _,
      congrArg (Point.mk (pc + 1) base) (Int.add_sub_cancel frames 1).symm⟩
  exact hclose.walks hscans hat hpass

/-- The push of a jump target that is in the code. -/
theorem scans_jumpBy (hcode : (code.length : Int) < signedLimit)
    (hscans : Scans code start ⟨pc, stack, frames⟩)
    (hat : CodeAt code pc (jumpBy distance :: rest)) (hn : n < code.length)
    (hdistance : (n : Int) = pc + distance) :
    (Int64.ofInt distance).toInt = distance ∧
      Scans code start ⟨pc + 1, .target n :: stack, frames⟩ := by
  have hpc := hat.length_le
  rw [List.length_cons] at hpc
  have hword : (Int64.ofInt distance).toInt = distance :=
    toInt_ofInt_of_lt (by omega) (by omega)
  have heffect : (jumpBy distance).effect pc stack = some ⟨0, [.target n]⟩ := by
    rw [hdistance]
    simp only [Instruction.effect, jumpBy, hword]
  exact ⟨hword, hscans.pass hat.head
    (Point.pass_eq_some.mpr ⟨_, heffect, Nat.zero_le _, rfl⟩)⟩

/-- The push of a jump target that the scan meets with nothing above `base`. -/
theorem walks_jumpBy (hcode : (code.length : Int) < signedLimit)
    (hscans : Scans code start ⟨pc, stack, frames⟩)
    (hat : CodeAt code pc (jumpBy distance :: rest)) (hn : n < code.length)
    (hdistance : (n : Int) = pc + distance) (hstack : ∃ extra, stack = extra ++ base)
    (htarget : Scans code start ⟨n, base, frames'⟩) :
    Walks code start base ⟨pc, stack, frames⟩ ⟨pc + 1, .target n :: stack, frames⟩ := by
  obtain ⟨hword, hpushed⟩ := scans_jumpBy hcode hscans hat hn hdistance
  obtain ⟨extra, rfl⟩ := hstack
  have hjump : Coherent code start base ⟨pc, extra ++ base, frames⟩ (jumpBy distance) :=
    { operands := ⟨extra, _, rfl, rfl, Nat.zero_le _⟩
      jumps := nofun
      leads := by
        intro offset hoffset
        cases hoffset
        exact ⟨_, htarget, by rw [hword]; exact hdistance, rfl⟩
      closes := nofun
      halts := nofun
      tests := nofun }
  refine ⟨hpushed, fun k hle hlt => ?_⟩
  obtain rfl : pc = k := by
    dsimp only at hle hlt
    omega
  exact ⟨_, _, hscans, rfl, hat.head, hjump⟩

/-- `jmp` -/
theorem walks_jmp (hscans : Scans code start ⟨pc, .target n :: base, frames⟩)
    (hat : CodeAt code pc (.plain .jmp :: rest)) (hn : n < code.length)
    (htarget : Scans code start ⟨n, base, frames⟩) :
    Walks code start base ⟨pc, .target n :: base, frames⟩ ⟨pc + 1, base, frames⟩ := by
  have hpass : (Point.mk pc (.target n :: base) frames).pass (.plain .jmp) =
      some ⟨pc + 1, base, frames⟩ := rfl
  have hjump : Coherent code start base ⟨pc, .target n :: base, frames⟩ (.plain .jmp) :=
    { operands := ⟨[.target n], _, rfl, rfl, Nat.le_refl _⟩
      jumps := by
        intro t passed ht hpassed
        rw [hpass] at hpassed
        cases hpassed
        cases ht
        exact ⟨n, rfl, hn, htarget⟩
      leads := nofun
      closes := nofun
      halts := nofun
      tests := nofun }
  exact hjump.walks hscans hat hpass

/-- `cjmp` on the two operands in either order, if the instruction before tells which. -/
theorem walks_cjmp (hscans : Scans code start ⟨pc, stack, frames⟩)
    (hat : CodeAt code pc (.plain .cjmp :: rest)) (hn : n < code.length)
    (htarget : Scans code start ⟨n, base, frames⟩)
    (htests : code[pc - 1]? = some (.plain .eq) ∧ stack = .computed :: .target n :: base ∨
      (∃ offset, code[pc - 1]? = some ⟨.push, some (.pc offset)⟩) ∧
        stack = .target n :: .computed :: base) :
    Walks code start base ⟨pc, stack, frames⟩ ⟨pc + 1, base, frames⟩ := by
  have hpass : (Point.mk pc stack frames).pass (.plain .cjmp) =
      some ⟨pc + 1, base, frames⟩ := by
    rcases htests with ⟨-, rfl⟩ | ⟨-, rfl⟩ <;> rfl
  have hjump : Coherent code start base ⟨pc, stack, frames⟩ (.plain .cjmp) :=
    { operands := by
        rcases htests with ⟨-, rfl⟩ | ⟨-, rfl⟩
        · exact ⟨[.computed, .target n], _, rfl, rfl, Nat.le_refl _⟩
        · exact ⟨[.target n, .computed], _, rfl, rfl, Nat.le_refl _⟩
      jumps := by
        intro t passed ht hpassed
        rw [hpass] at hpassed
        cases hpassed
        refine ⟨n, ?_, hn, htarget⟩
        rcases htests with ⟨-, rfl⟩ | ⟨-, rfl⟩ <;> exact (Option.some.inj ht).symm
      leads := nofun
      closes := nofun
      halts := nofun
      tests := fun _ => ⟨n, htests⟩ }
  exact hjump.walks hscans hat hpass

end

/-! ## Tests -/

/-- `<test>` `push 0` `eq` leaves the comparison. -/
theorem Gives.negated {code test : List Instruction} {start : Point} {base : List Mark}
    (h : Leaves code start base 1 test) :
    Gives code start base (· = [.computed]) (negated test) := by
  have hpushed := h.topped.push (i := .push (.int 0)) (m := .literal (.int 0)) rfl fun _ _ => rfl
  have hcompared : Gives code start base (· = [.computed])
      (test ++ [.push (.int 0)] ++ [.plain .eq]) := hpushed.takeAll rfl fun _ _ => rfl
  simpa [PadCompiler.negated] using hcompared

/-- The comparison is the last instruction of a negated test. -/
theorem CodeAt.negated_last {code test : List Instruction} {pc : Nat}
    (hat : CodeAt code pc (negated test)) :
    code[pc + (negated test).length - 1]? = some (.plain .eq) := by
  have hlast := (hat.right).tail.head
  have hindex : pc + (negated test).length - 1 = pc + test.length + 1 := by
    simp only [negated, List.length_append, List.length_cons, List.length_nil]
    omega
  rw [hindex]
  exact hlast

/-! ## Pieces of code -/

/-- The scan goes through the piece and has nothing above `base` at its end and at `bounds`. -/
def Settles (code : List Instruction) (start : Point) (base : List Mark) (bounds : List Nat)
    (piece : List Instruction) : Prop :=
  ∀ ⦃pc frames⦄, Scans code start ⟨pc, base, frames⟩ → start.frames ≤ frames →
    CodeAt code pc piece →
    Walks code start base ⟨pc, base, frames⟩ ⟨pc + piece.length, base, frames⟩ ∧
      ∀ k ∈ bounds, ∃ frames', Scans code start ⟨pc + k, base, frames'⟩

section

variable {code piece others : List Instruction} {start : Point} {base : List Mark}
  {bounds bounds' bounds'' : List Nat}

theorem Settles.nil : Settles code start base [0] [] := by
  intro pc frames hscans _ _
  exact ⟨.refl hscans, fun k hk => ⟨frames, by simpa [List.mem_singleton.mp hk] using hscans⟩⟩

/-- Code without jumps that leaves nothing. -/
theorem Gives.settles (h : Leaves code start base 0 piece) :
    Settles code start base [0, piece.length] piece := by
  intro pc frames hscans _ hat
  have hscans' : Scans code start ⟨pc, [] ++ base, frames⟩ := hscans
  obtain ⟨marks, ⟨hmarks, -⟩, hwalks⟩ := h hscans' hat
  obtain rfl := List.eq_nil_of_length_eq_zero hmarks
  refine ⟨hwalks, fun k hk => ⟨frames, ?_⟩⟩
  simp only [List.mem_cons, List.not_mem_nil, or_false] at hk
  rcases hk with rfl | rfl
  · exact hscans
  · exact hwalks.scans

theorem Settles.append (h : Settles code start base bounds piece)
    (h' : Settles code start base bounds' others) :
    Settles code start base (bounds ++ bounds'.map (piece.length + ·)) (piece ++ others) := by
  intro pc frames hscans hframes hat
  obtain ⟨hwalks, hbounds⟩ := h hscans hframes hat.left
  obtain ⟨hwalks', hbounds'⟩ := h' hwalks.scans hframes hat.right
  constructor
  · rw [List.length_append, ← Nat.add_assoc]
    exact hwalks.trans hwalks'
  · intro k hk
    rcases List.mem_append.mp hk with hk | hk
    · exact hbounds k hk
    · obtain ⟨k', hk', rfl⟩ := List.mem_map.mp hk
      rw [← Nat.add_assoc]
      exact hbounds' k' hk'

/-- A piece of code with the indices where it begins and ends added to its bounds. -/
theorem Walks.bounded {pc : Nat} {frames : Int} (hscans : Scans code start ⟨pc, base, frames⟩)
    (hwalks : Walks code start base ⟨pc, base, frames⟩ ⟨pc + piece.length, base, frames⟩)
    (hbounds : ∀ k ∈ bounds, ∃ frames', Scans code start ⟨pc + k, base, frames'⟩) :
    Walks code start base ⟨pc, base, frames⟩ ⟨pc + piece.length, base, frames⟩ ∧
      ∀ k ∈ [0, piece.length] ++ bounds, ∃ frames', Scans code start ⟨pc + k, base, frames'⟩ := by
  refine ⟨hwalks, fun k hk => ?_⟩
  simp only [List.cons_append, List.nil_append, List.mem_cons] at hk
  rcases hk with rfl | rfl | hk
  · exact ⟨frames, hscans⟩
  · exact ⟨frames, hwalks.scans⟩
  · exact hbounds k hk

theorem Settles.framed (size : Nat) (h : Settles code start base bounds piece) :
    Settles code start base ([0, (framed size piece).length] ++ bounds.map (2 + ·))
      (framed size piece) := by
  intro pc frames hscans hframes hat
  have hopen := walks_open hscans hat ⟨[], rfl⟩
  obtain ⟨hwalks, hbounds⟩ := h hopen.scans (by omega) hat.tail.tail.left
  have hclose := walks_close hwalks.scans hframes hat.tail.tail.right
  have hlength : pc + (PadCompiler.framed size piece).length = pc + 2 + piece.length + 1 := by
    simp [PadCompiler.framed]
    omega
  refine Walks.bounded hscans ?_ fun k hk => ?_
  · rw [hlength]
    exact (hopen.trans hwalks).trans hclose
  · obtain ⟨k', hk', rfl⟩ := List.mem_map.mp hk
    rw [← Nat.add_assoc]
    exact hbounds k' hk'

end

/-! ## Conditionals and loops -/

section

variable {code test body otherwise init step : List Instruction} {start : Point}
  {base : List Mark} {bounds bounds' bounds'' : List Nat}

/-- A jump target, the start of a frame and a test: the target lies beneath the comparison.  The
scan gets past the `cjmp` whatever the target is, and the code is coherent if the scan meets the
target with as many frames. -/
theorem walks_guarded (hcode : (code.length : Int) < signedLimit) {pc n size : Nat}
    {frames distance : Int} {rest : List Instruction}
    (htest : Leaves code start base 1 test) (hscans : Scans code start ⟨pc, base, frames⟩)
    (hat : CodeAt code pc (jumpBy distance :: .pushNat size :: .plain .oframe ::
      (negated test ++ .plain .cjmp :: rest)))
    (hn : n < code.length) (hdistance : (n : Int) = pc + distance) :
    Scans code start ⟨pc + (test.length + 6), base, frames + 1⟩ ∧
      (Scans code start ⟨n, base, frames + 1⟩ → Walks code start base ⟨pc, base, frames⟩
        ⟨pc + (test.length + 6), base, frames + 1⟩) := by
  obtain ⟨-, hpushed⟩ := scans_jumpBy hcode hscans hat hn hdistance
  have hopen : Walks code start base ⟨pc + 1, .target n :: base, frames⟩
      ⟨pc + 3, [.target n] ++ base, frames + 1⟩ :=
    walks_open hpushed hat.tail ⟨[.target n], rfl⟩
  have hguard := hat.tail.tail.tail
  obtain ⟨_, rfl, hcompare⟩ := htest.negated hopen.scans hguard.left
  have hend : pc + (test.length + 6) = pc + 3 + (negated test).length + 1 := by
    simp only [negated, List.length_append, List.length_cons, List.length_nil]
    omega
  rw [hend]
  refine ⟨hcompare.scans.pass hguard.right.head rfl, fun htarget => ?_⟩
  have hjump := walks_jumpBy hcode hscans hat hn hdistance ⟨[], rfl⟩ htarget
  have htests := walks_cjmp hcompare.scans hguard.right hn htarget
    (.inl ⟨hguard.left.negated_last, rfl⟩)
  exact ((hjump.trans hopen).trans hcompare).trans htests

/-- Jumping over the body or not makes no difference to what is left. -/
theorem settles_conditionalCode (hcode : (code.length : Int) < signedLimit) (size : Nat)
    (htest : Leaves code start base 1 test) (hbody : Settles code start base bounds body) :
    Settles code start base
      ([0, (conditionalCode size test body).length] ++ bounds.map (test.length + 6 + ·))
      (conditionalCode size test body) := by
  intro pc frames hscans hframes hat
  have hsplit : conditionalCode size test body =
      jumpBy ((negated test ++ .plain .cjmp :: body).length + 3) :: .pushNat size ::
        .plain .oframe :: (negated test ++ .plain .cjmp :: (body ++ [.plain .cframe])) := by
    simp [conditionalCode, framed]
  have hlength : (conditionalCode size test body).length =
      test.length + 6 + body.length + 1 := by
    simp [conditionalCode, framed, negated]
    omega
  have hle := hat.length_le
  rw [hsplit] at hat
  have hrest : CodeAt code (pc + (test.length + 6)) (body ++ [.plain .cframe]) :=
    hat.tail.tail.tail.right.tail.moved (by simp [negated]; omega)
  -- the push leads to the `cframe`
  obtain ⟨hinside, hguarded⟩ := walks_guarded (n := pc + (test.length + 6) + body.length) hcode
    htest hscans hat (by omega) (by simp [negated]; omega)
  obtain ⟨hwalks, hbounds⟩ := hbody hinside (by omega) hrest.left
  have hclose := walks_close hwalks.scans hframes hrest.right
  refine Walks.bounded hscans ?_ fun k hk => ?_
  · rw [hlength, ← Nat.add_assoc, ← Nat.add_assoc]
    exact ((hguarded hwalks.scans).trans hwalks).trans hclose
  · obtain ⟨k', hk', rfl⟩ := List.mem_map.mp hk
    rw [← Nat.add_assoc]
    exact hbounds k' hk'

/-- Nor does it which of two branches is taken. -/
theorem settles_alternativeCode (hcode : (code.length : Int) < signedLimit) (size : Nat)
    (htest : Leaves code start base 1 test) (hbody : Settles code start base bounds body)
    (hotherwise : Settles code start base bounds' otherwise) :
    Settles code start base
      ([0, (alternativeCode size test body otherwise).length] ++
        bounds.map (test.length + 6 + ·) ++
        bounds'.map (test.length + 6 + body.length + 2 + ·))
      (alternativeCode size test body otherwise) := by
  intro pc frames hscans hframes hat
  let skip := jumpBy (otherwise.length + 2)
  have hsplit : alternativeCode size test body otherwise =
      jumpBy ((negated test ++ .plain .cjmp :: body).length + 5) :: .pushNat size ::
        .plain .oframe :: (negated test ++ .plain .cjmp ::
          (body ++ skip :: .plain .jmp :: (otherwise ++ [.plain .cframe]))) := by
    simp [alternativeCode, framed, skip]
  have hlength : (alternativeCode size test body otherwise).length =
      test.length + 6 + body.length + 2 + otherwise.length + 1 := by
    simp [alternativeCode, framed, negated]
    omega
  have hle := hat.length_le
  rw [hsplit] at hat
  have hrest : CodeAt code (pc + (test.length + 6))
      (body ++ skip :: .plain .jmp :: (otherwise ++ [.plain .cframe])) :=
    hat.tail.tail.tail.right.tail.moved (by simp [negated]; omega)
  have hbranch : CodeAt code (pc + (test.length + 6) + body.length + 2)
      (otherwise ++ [.plain .cframe]) := hrest.right.tail.tail
  -- the first push leads to the second branch, the other one to the `cframe`
  obtain ⟨hinside, hguarded⟩ := walks_guarded
    (n := pc + (test.length + 6) + body.length + 2) hcode htest hscans hat (by omega)
    (by simp [negated]; omega)
  obtain ⟨hwalks, hbounds⟩ := hbody hinside (by omega) hrest.left
  obtain ⟨-, hskip⟩ := scans_jumpBy
    (n := pc + (test.length + 6) + body.length + 2 + otherwise.length) hcode hwalks.scans
    hrest.right (by omega) (by omega)
  have hsecond : Scans code start
      ⟨pc + (test.length + 6) + body.length + 2, base, frames + 1⟩ :=
    hskip.pass hrest.right.tail.head rfl
  obtain ⟨hwalks', hbounds'⟩ := hotherwise hsecond (by omega) hbranch.left
  have hskips := walks_jumpBy hcode hwalks.scans hrest.right (by omega) (by omega) ⟨[], rfl⟩
    hwalks'.scans
  have hjumps := walks_jmp hskip hrest.right.tail (by omega) hwalks'.scans
  have hclose := walks_close hwalks'.scans hframes hbranch.right
  rw [List.append_assoc]
  refine Walks.bounded hscans ?_ fun k hk => ?_
  · have hboth := (((hguarded hsecond).trans hwalks).trans hskips).trans hjumps
    rw [hlength]
    simp only [← Nat.add_assoc] at hboth hwalks' hclose ⊢
    exact (hboth.trans hwalks').trans hclose
  · rcases List.mem_append.mp hk with hk | hk
    · obtain ⟨k', hk', rfl⟩ := List.mem_map.mp hk
      rw [← Nat.add_assoc]
      exact hbounds k' hk'
    · obtain ⟨k', hk', rfl⟩ := List.mem_map.mp hk
      obtain ⟨frames', hk'⟩ := hbounds' k' hk'
      exact ⟨frames', by simpa only [← Nat.add_assoc] using hk'⟩

/-- In a loop, the target lies above the comparison.  Each turn comes back to the test as it was
met first; a false test leads to what follows the jump back. -/
theorem walks_turnsCode (hcode : (code.length : Int) < signedLimit) {turn rest : List Instruction}
    {last : Instruction} {pc : Nat} {frames : Int} (htest : Leaves code start base 1 test)
    (hturn : Settles code start base bounds turn) (hscans : Scans code start ⟨pc, base, frames⟩)
    (hframes : start.frames ≤ frames) (hat : CodeAt code pc (turnsCode test turn ++ last :: rest)) :
    Walks code start base ⟨pc, base, frames⟩
        ⟨pc + (turnsCode test turn).length, base, frames⟩ ∧
      ∀ k ∈ bounds.map (test.length + 4 + ·),
        ∃ frames', Scans code start ⟨pc + k, base, frames'⟩ := by
  have hguard : (negated test).length = test.length + 2 := by simp [negated]
  have hlength := turnsCode_length test turn
  have hle := hat.length_le
  rw [List.length_append, List.length_cons] at hle
  have hat' := hat.left
  rw [turnsCode, List.append_assoc] at hat'
  have hatturn : CodeAt code (pc + (test.length + 4)) (turn ++
      [jumpBy (-((negated test).length + turn.length + 2)), .plain .jmp]) :=
    hat'.right.tail.tail.moved (by omega)
  -- the scan, from one part to the next
  have htop : Scans code start ⟨pc, [] ++ base, frames⟩ := hscans
  obtain ⟨_, rfl, hcompare⟩ := htest.negated htop hat'.left
  obtain ⟨-, hleave⟩ := scans_jumpBy (n := pc + (turnsCode test turn).length) hcode hcompare.scans
    hat'.right (by omega) (by omega)
  have hinside : pc + (negated test).length + 1 + 1 = pc + (test.length + 4) := by omega
  have hpast : Scans code start ⟨pc + (negated test).length + 1 + 1, base, frames⟩ :=
    hleave.pass hat'.right.tail.head rfl
  rw [hinside] at hpast
  obtain ⟨hwalks, hbounds⟩ := hturn hpast hframes hatturn.left
  obtain ⟨-, hback⟩ := scans_jumpBy (n := pc) hcode hwalks.scans hatturn.right (by omega) (by omega)
  have hend : Scans code start
      ⟨pc + (test.length + 4) + turn.length + 2, base, frames⟩ :=
    hback.pass hatturn.right.tail.head rfl
  have hexit : pc + (turnsCode test turn).length =
      pc + (test.length + 4) + turn.length + 2 := by omega
  constructor
  · rw [hexit]
    -- both targets are on the scan, so the jumps are coherent
    have hleaves := walks_jumpBy hcode hcompare.scans hat'.right (by omega) (by omega)
      ⟨[.computed], rfl⟩ (hexit ▸ hend)
    have htests := walks_cjmp hleave hat'.right.tail (by omega) (hexit ▸ hend)
      (.inr ⟨⟨_, hat'.right.head⟩, rfl⟩)
    rw [hinside] at htests
    have hagain := walks_jumpBy hcode hwalks.scans hatturn.right (by omega) (by omega)
      ⟨[], rfl⟩ hscans
    have hjumps := walks_jmp hback hatturn.right.tail (by omega) hscans
    exact ((((hcompare.trans hleaves).trans htests).trans hwalks).trans hagain).trans hjumps
  · intro k hk
    obtain ⟨k', hk', rfl⟩ := List.mem_map.mp hk
    rw [← Nat.add_assoc]
    exact hbounds k' hk'

theorem settles_loopCode (hcode : (code.length : Int) < signedLimit) (size : Nat)
    (hinit : Settles code start base bounds init) (htest : Leaves code start base 1 test)
    (hbody : Settles code start base bounds' body)
    (hstep : Settles code start base bounds'' step) :
    Settles code start base
      ([0, (loopCode size init test body step).length] ++ bounds.map (2 + ·) ++
        bounds'.map (2 + init.length + test.length + 4 + ·) ++
        bounds''.map (2 + init.length + test.length + 4 + body.length + ·))
      (loopCode size init test body step) := by
  intro pc frames hscans hframes hat
  rw [loopCode_eq] at hat ⊢
  have hinside := hat.tail.tail
  rw [List.append_assoc] at hinside
  have hopen : Walks code start base ⟨pc, base, frames⟩ ⟨pc + 2, base, frames + 1⟩ :=
    walks_open hscans hat ⟨[], rfl⟩
  obtain ⟨hwalks, hbounds⟩ := hinit hopen.scans (by omega) hinside.left
  obtain ⟨hturns, hbounds'⟩ := walks_turnsCode hcode htest (hbody.append hstep) hwalks.scans
    (by omega) hinside.right
  have hclose := walks_close hturns.scans hframes hinside.right.right
  have hlength : pc + (framed size (init ++ turnsCode test (body ++ step))).length =
      pc + 2 + init.length + (turnsCode test (body ++ step)).length + 1 := by
    simp only [framed, List.length_cons, List.length_append, List.length_nil]
    omega
  rw [List.append_assoc, List.append_assoc]
  refine Walks.bounded hscans ?_ fun k hk => ?_
  · rw [hlength]
    exact ((hopen.trans hwalks).trans hturns).trans hclose
  · simp only [List.mem_append, List.mem_map] at hk hbounds'
    rcases hk with ⟨k, hk, rfl⟩ | ⟨k, hk, rfl⟩ | ⟨k, hk, rfl⟩
    · rw [← Nat.add_assoc]
      exact hbounds k hk
    · obtain ⟨frames', hk'⟩ := hbounds' _ ⟨k, .inl hk, rfl⟩
      exact ⟨frames', by simpa only [← Nat.add_assoc] using hk'⟩
    · obtain ⟨frames', hk'⟩ := hbounds' _ ⟨_, .inr ⟨k, hk, rfl⟩, rfl⟩
      exact ⟨frames', by simpa only [← Nat.add_assoc] using hk'⟩

end

/-! ## Statements -/

theorem Stmt.arrayOp_of_output? {s : Stmt} {e : Expr} {op arrayOp : Opcode}
    (hs : s.output? = some (e, op, arrayOp)) : arrayOp = .printA ∨ arrayOp = .reta := by
  cases s with
  | print value =>
      cases hs
      exact .inl rfl
  | ret value =>
      cases hs
      exact .inr rfl
  | _ => contradiction

/-- What a statement puts out is taken off the stack. -/
theorem Stmt.effect_of_output? {s : Stmt} {e : Expr} {op arrayOp : Opcode}
    (hs : s.output? = some (e, op, arrayOp)) (hfree : s.isLogicFree = true) :
    e.isLogicFree = true ∧ (Instruction.plain op).isCalm = true ∧
      ∀ pc stack, (Instruction.plain op).effect pc stack = some ⟨1, []⟩ := by
  cases s with
  | print value =>
      cases hs
      exact ⟨by simpa only [Stmt.isLogicFree] using hfree, rfl, fun _ _ => rfl⟩
  | ret value =>
      cases hs
      exact ⟨by simpa only [Stmt.isLogicFree] using hfree, rfl, fun _ _ => rfl⟩
  | _ => contradiction

/-- An operation takes all its values off the stack. -/
theorem Stmt.effect_of_operation? {s : Stmt} {es : List Expr} {op : Opcode}
    (hs : s.operation? = some (es, op)) (hfree : s.isLogicFree = true) :
    Expr.allLogicFree es = true ∧ (Instruction.plain op).isCalm = true ∧
      ∀ pc stack, (Instruction.plain op).effect pc stack = some ⟨es.length, []⟩ := by
  cases s with
  | delay duration =>
      cases hs
      exact ⟨by simpa [Stmt.isLogicFree, Expr.allLogicFree] using hfree, rfl, fun _ _ => rfl⟩
  | write x y color =>
      cases hs
      exact ⟨by simpa only [Stmt.isLogicFree] using hfree, rfl, fun _ _ => rfl⟩
  | writeBox x y width height color =>
      cases hs
      exact ⟨by simpa only [Stmt.isLogicFree] using hfree, rfl, fun _ _ => rfl⟩
  | _ => contradiction

section

variable {block : List Instruction} {start : Point} {base : List Mark}

/-- A statement that holds no others leaves nothing on the stack. -/
theorem SimpleCode.leaves (hblock : (block.length : Int) < signedLimit) {s : Stmt}
    {code : List Instruction} (h : SimpleCode s code) (hfree : s.isLogicFree = true) :
    Leaves block start base 0 code := by
  cases h with
  | varDecl slot hinit =>
      rw [Stmt.isLogicFree] at hfree
      exact (hinit.leaves hblock hfree).st slot 0
  | assign slot depth hvalue =>
      rw [Stmt.isLogicFree] at hfree
      exact (hvalue.leaves hblock hfree).st slot depth
  | arrayFilled ty base hlength =>
      have hlt := arrayLength_lt hlength
      exact (Gives.dupa _ hlt).sta base 0 hlt
  | arrayListed ty base hlength hvalues =>
      rw [Stmt.isLogicFree, Bool.and_eq_true] at hfree
      exact (hvalues.leaves hblock hfree.2).sta base 0 (arrayLength_lt hlength)
  | setElement name index slot depth hvalue =>
      rw [Stmt.isLogicFree, Bool.and_eq_true] at hfree
      exact (hvalue.leaves hblock hfree.2).sta slot depth (by decide)
  | setComputed name base depth hvalue hindex =>
      rw [Stmt.isLogicFree, Bool.and_eq_true] at hfree
      exact (hvalue.leaves hblock hfree.2).staComputed (hindex.leaves hblock hfree.1) base depth
  | outputArray base depth hs hlength =>
      exact (Gives.pushA base depth hlength).whole (Stmt.arrayOp_of_output? hs) hlength
  | output hs hvalue =>
      obtain ⟨hfree', hcalm, heffect⟩ := Stmt.effect_of_output? hs hfree
      exact (hvalue.leaves hblock hfree').topped.clear hcalm heffect
  | operation hs hvalues =>
      obtain ⟨hfree', hcalm, heffect⟩ := Stmt.effect_of_operation? hs hfree
      exact (hvalues.leaves hblock hfree').topped.clear hcalm heffect

/-- The code of statements settles. -/
theorem Shaped.settles (hblock : (block.length : Int) < signedLimit) {ss : List Stmt}
    {code : List Instruction} {bounds : List Nat} (h : Shaped ss code bounds)
    (hfree : Stmt.allLogicFree ss = true) : Settles block start base bounds code := by
  induction h with
  | nil => exact .nil
  | cons hfirst hothers ihFirst ihOthers =>
      simp only [Stmt.allLogicFree, Bool.and_eq_true] at hfree ihFirst
      exact (ihFirst ⟨hfree.1, trivial⟩).append (ihOthers hfree.2)
  | simple hcode =>
      simp only [Stmt.allLogicFree, Bool.and_true] at hfree
      exact (hcode.leaves hblock hfree).settles
  | block size hbody ih =>
      simp only [Stmt.allLogicFree, Stmt.isLogicFree, Bool.and_true] at hfree
      exact (ih hfree).framed size
  | conditional size htest hbody ih =>
      simp only [Stmt.allLogicFree, Stmt.isLogicFree, Bool.and_true, Bool.and_eq_true] at hfree
      exact settles_conditionalCode hblock size (htest.leaves hblock hfree.1) (ih hfree.2)
  | alternative size htest hbody hotherwise ih ih' =>
      simp only [Stmt.allLogicFree, Stmt.isLogicFree, Bool.and_true, Bool.and_eq_true] at hfree
      exact settles_alternativeCode hblock size (htest.leaves hblock hfree.1.1) (ih hfree.1.2)
        (ih' hfree.2)
  | loop size hs hinit htest hbody hstep ihInit ihBody ihStep =>
      simp only [Stmt.allLogicFree, Bool.and_true] at hfree
      obtain ⟨hfreeInit, hfreeTest, hfreeBody, hfreeStep⟩ := Stmt.isLogicFree_of_loop? hs hfree
      exact settles_loopCode hblock size (ihInit hfreeInit) (htest.leaves hblock hfreeTest)
        (ihBody hfreeBody) (ihStep hfreeStep)

end

end PadCompiler
