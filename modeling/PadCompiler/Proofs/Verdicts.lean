import Mathlib.Data.Nat.Find
import PadCompiler.Proofs.JumpRange

/-!
# PadCompiler.Proofs.Verdicts

What the check of a block decides, and which fault it reports.

The check is one scan with a running count of frames.  Here each rule is stated by itself, of the
whole block: `Block.Sound`.  A rule is broken at an index (`Block.BreaksAt`) if the operand there is
still to come, if the jump there leads out of the block, or if more frames are closed than opened up
to there.

* `Block.checkCode_passed` — the scan gets past all instructions that break no rule;
* `Block.checkInstruction_unpatched`, `Block.checkInstruction_leaves` — an operand that breaks a
  rule stops the scan, and `Block.checkInstruction_counts` — else the frames may;
* `Block.verify_blames_first` — so a block is accepted exactly if it is sound, and of all faults the
  first is reported.
-/

namespace PadCompiler

namespace Block

/-! ## Rules -/

/-- How many frames the code opens. -/
def opens (code : List Instruction) : Nat :=
  code.countP (·.op == .oframe)

/-- How many frames the code closes. -/
def closes (code : List Instruction) : Nat :=
  code.countP (·.op == .cframe)

/-- The rules of a finished block. -/
structure Sound (b : Block) : Prop where
  filled : ∀ i ∈ b.code, i.operand ≠ some .reserved
  inside : ∀ (index : Nat) (i : Instruction) (offset : Int64), b.code[index]? = some i →
    i.operand = some (.pc offset) →
      0 ≤ (index : Int) + offset.toInt ∧ (index : Int) + offset.toInt < b.code.length
  nested : ∀ front, front <+: b.code → closes front ≤ opens front
  balanced : opens b.code = closes b.code

/-- The operand at this index is still to come. -/
def UnpatchedAt (b : Block) (index : Nat) : Prop :=
  ∃ i, b.code[index]? = some i ∧ i.operand = some .reserved

/-- The jump at this index leads to `target`, which is not in the block. -/
def LeavesAt (b : Block) (index : Nat) (target : Int) : Prop :=
  ∃ i offset, b.code[index]? = some i ∧ i.operand = some (.pc offset) ∧
    target = (index : Int) + offset.toInt ∧ ¬ (0 ≤ target ∧ target < b.code.length)

/-- Up to this index, that instruction included, more frames are closed than opened. -/
def UnderflowsAt (b : Block) (index : Nat) : Prop :=
  index < b.code.length ∧ opens (b.code.take (index + 1)) < closes (b.code.take (index + 1))

/-- A rule is broken at this index. -/
def BreaksAt (b : Block) (index : Nat) : Prop :=
  b.UnpatchedAt index ∨ (∃ target, b.LeavesAt index target) ∨ b.UnderflowsAt index

/-- The fault that is reported for an index: an operand that is still to come counts before a jump
out of the block, and that before the frames. -/
inductive FaultAt (b : Block) (index : Nat) : VerifyError → Prop
  | unpatched (h : b.UnpatchedAt index) : FaultAt b index (.unpatched b.label index)
  | leaves {target : Int} (hfilled : ¬ b.UnpatchedAt index) (h : b.LeavesAt index target) :
    FaultAt b index (.jumpOutOfBlock b.label index target)
  | underflows (hfilled : ¬ b.UnpatchedAt index) (hinside : ¬ ∃ target, b.LeavesAt index target)
      (h : b.UnderflowsAt index) :
    FaultAt b index (.frameUnderflow b.label index)

/-- Where a rule is broken, there is a fault to report. -/
theorem BreaksAt.exists_faultAt {b : Block} {index : Nat} (h : b.BreaksAt index) :
    ∃ e, b.FaultAt index e := by
  by_cases hunpatched : b.UnpatchedAt index
  · exact ⟨_, .unpatched hunpatched⟩
  · by_cases hleaves : ∃ target, b.LeavesAt index target
    · obtain ⟨target, hleaves⟩ := hleaves
      exact ⟨_, .leaves hunpatched hleaves⟩
    · exact ⟨_, .underflows hunpatched hleaves
        ((h.resolve_left hunpatched).resolve_left hleaves)⟩

/-- If a rule is broken at all, it is broken somewhere first. -/
theorem exists_first_fault {b : Block} (h : ∃ index, b.BreaksAt index) :
    ∃ index e, b.FaultAt index e ∧ ∀ before < index, ¬ b.BreaksAt before := by
  classical
  obtain ⟨e, he⟩ := (Nat.find_spec h).exists_faultAt
  exact ⟨Nat.find h, e, he, fun before hlt => Nat.find_min h hlt⟩

theorem framesOpened_eq (code : List Instruction) :
    framesOpened code = (opens code : Int) - closes code := rfl

end Block

theorem Instruction.isReserved_iff (i : Instruction) :
    i.isReserved = true ↔ i.operand = some .reserved := by
  unfold isReserved
  split <;> simp_all

theorem Instruction.pcOffset_iff (i : Instruction) (offset : Int64) :
    i.pcOffset = some offset ↔ i.operand = some (.pc offset) := by
  unfold pcOffset
  split <;> simp_all

namespace Block

variable {b : Block} {index : Nat}

/-- An operand fits exactly if it is filled in and does not lead out of the block. -/
theorem fitsAt_iff {i : Instruction} (hi : b.code[index]? = some i)
    (hword : ¬ b.OverflowsAt index) :
    i.FitsAt b.code.length index ↔ ¬ b.UnpatchedAt index ∧ ¬ ∃ target, b.LeavesAt index target := by
  constructor
  · intro hfits
    constructor
    · rintro ⟨j, hj, hreserved⟩
      cases hi.symm.trans hj
      have hfilled := hfits.filled
      rw [i.isReserved_iff.mpr hreserved] at hfilled
      contradiction
    · rintro ⟨target, j, offset, hj, hoffset, rfl, hout⟩
      cases hi.symm.trans hj
      exact hout (hfits.inside offset ((i.pcOffset_iff offset).mpr hoffset))
  · rintro ⟨hfilled, hinside⟩
    refine ⟨?_, fun hoverflow => hword ⟨i, hi, hoverflow⟩, fun offset hoffset => ?_⟩
    · rw [← Bool.not_eq_true, i.isReserved_iff]
      exact fun hreserved => hfilled ⟨i, hi, hreserved⟩
    · have hpc := (i.pcOffset_iff offset).mp hoffset
      exact Decidable.byContradiction fun hout => hinside ⟨_, i, offset, hi, hpc, rfl, hout⟩

/-- An instruction passes the check exactly if it breaks no rule. -/
theorem passesAt_iff (hword : ¬ b.OverflowsAt index) : b.PassesAt index ↔ ¬ b.BreaksAt index := by
  constructor
  · intro hpasses hbreaks
    have hlt : index < b.code.length := by
      rcases hbreaks with ⟨i, hi, -⟩ | ⟨target, i, offset, hi, -⟩ | ⟨hlt, -⟩
      · exact (List.getElem?_eq_some_iff.mp hi).1
      · exact (List.getElem?_eq_some_iff.mp hi).1
      · exact hlt
    have hi := List.getElem?_eq_getElem hlt
    obtain ⟨hfits, hopen⟩ := hpasses _ hi
    obtain ⟨hfilled, hinside⟩ := (fitsAt_iff hi hword).mp hfits
    obtain ⟨-, hless⟩ := (hbreaks.resolve_left hfilled).resolve_left hinside
    rw [framesOpened_eq] at hopen
    omega
  · intro hbreaks i hi
    have hlt := (List.getElem?_eq_some_iff.mp hi).1
    refine ⟨(fitsAt_iff hi hword).mpr ⟨fun h => hbreaks (.inl h), fun h => hbreaks (.inr (.inl h))⟩,
      ?_⟩
    have hless : ¬ opens (b.code.take (index + 1)) < closes (b.code.take (index + 1)) :=
      fun hless => hbreaks (.inr (.inr ⟨hlt, hless⟩))
    rw [framesOpened_eq]
    omega

/-- A block is sound exactly if no rule is broken anywhere and all frames are closed. -/
theorem sound_iff (b : Block) :
    b.Sound ↔ (∀ index, ¬ b.BreaksAt index) ∧ opens b.code = closes b.code := by
  constructor
  · intro hsound
    refine ⟨?_, hsound.balanced⟩
    rintro index (⟨i, hi, hreserved⟩ | ⟨target, i, offset, hi, hoffset, rfl, hout⟩ | ⟨-, hless⟩)
    · exact hsound.filled i (List.mem_of_getElem? hi) hreserved
    · exact hout (hsound.inside index i offset hi hoffset)
    · exact Nat.not_lt.mpr (hsound.nested _ (List.take_prefix ..)) hless
  · rintro ⟨hnone, hbalanced⟩
    refine ⟨fun i hi hreserved => ?_, fun index i offset hi hoffset => ?_, fun front hfront => ?_,
      hbalanced⟩
    · obtain ⟨index, hindex⟩ := List.mem_iff_getElem?.mp hi
      exact hnone index (.inl ⟨i, hindex, hreserved⟩)
    · exact Decidable.byContradiction fun hout =>
        hnone index (.inr (.inl ⟨_, i, offset, hi, hoffset, rfl, hout⟩))
    · cases hlength : front.length with
      | zero => simp [List.length_eq_zero_iff.mp hlength, closes]
      | succ index =>
          have hlt : index < b.code.length := by
            have hle := hfront.length_le
            omega
          have htake : b.code.take (index + 1) = front := by
            rw [← hlength, List.prefix_iff_eq_take.mp hfront]
            simp
          rw [← htake]
          exact Nat.not_lt.mp fun hless => hnone index (.inr (.inr ⟨hlt, hless⟩))

/-! ## One instruction -/

section

variable (label : String) {length : Nat} (frames : Nat) {i : Instruction}

theorem checkInstruction_unpatched (hi : i.operand = some .reserved) :
    checkInstruction label length index frames i = .error (.unpatched label index) := by
  unfold checkInstruction
  rw [i.isReserved_iff.mpr hi]
  rfl

theorem checkInstruction_leaves {offset : Int64} (hi : i.operand = some (.pc offset))
    (hword : ¬ i.OverflowsAt index)
    (hout : ¬ (0 ≤ (index : Int) + offset.toInt ∧ (index : Int) + offset.toInt < length)) :
    checkInstruction label length index frames i =
      .error (.jumpOutOfBlock label index ((index : Int) + offset.toInt)) := by
  have hoffset := (i.pcOffset_iff offset).mpr hi
  have hlt : (index : Int) + offset.toInt < signedLimit :=
    Int.not_le.mp fun hlimit => hword ⟨offset, hoffset, hlimit⟩
  have hout' : (index : Int) + offset.toInt < 0 ∨ length ≤ (index : Int) + offset.toInt := by
    omega
  unfold checkInstruction
  simp [i.filled_of_pcOffset hoffset, hoffset, jumpTarget_of_lt hlt, hout']

end

/-! ## The scan -/

/-- One step: the frames that are open at an index are counted on to the next. -/
theorem framesOpened_take {i : Instruction} (hi : b.code[index]? = some i) :
    framesOpened (b.code.take (index + 1)) = i.adjust (framesOpened (b.code.take index)) := by
  rw [List.take_add_one, hi]
  exact framesOpened_concat _ i

/-- The scan gets past instructions that break no rule, and counts the frames that are open. -/
theorem checkCode_passed {n : Nat} (hn : n ≤ b.code.length) (h : ∀ index < n, b.PassesAt index) :
    ∃ frames : Nat, (frames : Int) = framesOpened (b.code.take n) ∧
      b.verify = checkCode b.label b.code.length n frames (b.code.drop n) := by
  induction n with
  | zero => exact ⟨0, rfl, rfl⟩
  | succ n ih =>
      obtain ⟨frames, hframes, hverify⟩ := ih (by omega) fun index hlt => h index (by omega)
      have hi : b.code[n]? = some b.code[n] := List.getElem?_eq_getElem hn
      obtain ⟨hfits, hle⟩ := h n (Nat.lt_succ_self n) _ hi
      rw [framesOpened_take hi, ← hframes] at hle ⊢
      refine ⟨(b.code[n].adjust frames).toNat, Int.toNat_of_nonneg hle, ?_⟩
      rw [hverify, List.drop_eq_getElem_cons hn, checkCode, checkInstruction_counts _ _ hfits,
        if_neg (Int.not_lt.mpr hle), ok_bind]

/-- The scan stops at the first instruction that breaks a rule. -/
theorem verify_stops {i : Instruction} (hi : b.code[index]? = some i)
    (hbefore : ∀ before < index, b.PassesAt before) :
    ∃ frames : Nat, (frames : Int) = framesOpened (b.code.take index) ∧
      ∀ e, checkInstruction b.label b.code.length index frames i = .error e →
        b.verify = .error e := by
  obtain ⟨hlt, rfl⟩ := List.getElem?_eq_some_iff.mp hi
  obtain ⟨frames, hframes, hverify⟩ := checkCode_passed (Nat.le_of_lt hlt) hbefore
  refine ⟨frames, hframes, fun e he => ?_⟩
  rw [hverify, List.drop_eq_getElem_cons hlt, checkCode, he, error_bind]

/-- The scan ends if no instruction breaks a rule; what counts then is whether frames are open. -/
theorem verify_ends (h : ∀ index, b.PassesAt index) :
    closes b.code ≤ opens b.code ∧
      b.verify = if opens b.code = closes b.code then .ok ()
        else .error (.frameLeftOpen b.label (opens b.code - closes b.code)) := by
  obtain ⟨frames, hframes, hverify⟩ :=
    checkCode_passed (Nat.le_refl b.code.length) fun index _ => h index
  rw [List.take_length, framesOpened_eq] at hframes
  refine ⟨by omega, ?_⟩
  have hopen : opens b.code - closes b.code = frames := by omega
  rw [hverify, List.drop_length, checkCode, hopen]
  by_cases hbalanced : opens b.code = closes b.code
  · rw [if_pos hbalanced, if_pos (by omega)]
    rfl
  · rw [if_neg hbalanced, if_neg (by omega)]
    rfl

/-- The fault that is reported is the one at the first index where a rule is broken. -/
theorem FaultAt.verify {e : VerifyError} (h : b.FaultAt index e)
    (hwords : ∀ index, ¬ b.OverflowsAt index) (hfirst : ∀ before < index, ¬ b.BreaksAt before) :
    b.verify = .error e := by
  have hbefore : ∀ before < index, b.PassesAt before := fun before hlt =>
    (passesAt_iff (hwords before)).mpr (hfirst before hlt)
  cases h with
  | unpatched h =>
      obtain ⟨i, hi, hreserved⟩ := h
      obtain ⟨frames, -, hstops⟩ := verify_stops hi hbefore
      exact hstops _ (checkInstruction_unpatched _ _ hreserved)
  | leaves hfilled h =>
      obtain ⟨i, offset, hi, hoffset, rfl, hout⟩ := h
      obtain ⟨frames, -, hstops⟩ := verify_stops hi hbefore
      have hword : ¬ i.OverflowsAt index := fun hoverflow => hwords index ⟨i, hi, hoverflow⟩
      exact hstops _ (checkInstruction_leaves _ _ hoffset hword hout)
  | underflows hfilled hinside h =>
      obtain ⟨hlt, hless⟩ := h
      have hi := List.getElem?_eq_getElem hlt
      obtain ⟨frames, hframes, hstops⟩ := verify_stops hi hbefore
      have hfits := (fitsAt_iff hi (hwords index)).mpr ⟨hfilled, hinside⟩
      have hopen := framesOpened_take hi
      rw [← hframes, framesOpened_eq] at hopen
      exact hstops _ (by rw [checkInstruction_counts _ _ hfits, if_pos (by omega)])

/-- A block in which all jumps stay within the signed words is accepted exactly if it is sound.  If
some instruction breaks a rule, the fault at the first such index is reported; if none does, the
number of frames that are left open is. -/
theorem verify_blames_first (b : Block) (hwords : ∀ index, ¬ b.OverflowsAt index) :
    (b.verify = .ok () ↔ b.Sound) ∧
      ((∃ index, b.BreaksAt index) →
        ∃ index e, b.FaultAt index e ∧ ∀ before < index, ¬ b.BreaksAt before) ∧
      (∀ index e, b.FaultAt index e → (∀ before < index, ¬ b.BreaksAt before) →
        b.verify = .error e) ∧
      ((∀ index, ¬ b.BreaksAt index) → ¬ b.Sound → closes b.code < opens b.code ∧
        b.verify = .error (.frameLeftOpen b.label (opens b.code - closes b.code))) := by
  have hends (hnone : ∀ index, ¬ b.BreaksAt index) := verify_ends fun index =>
    (passesAt_iff (hwords index)).mpr (hnone index)
  refine ⟨?_, exists_first_fault, fun index e he hfirst => he.verify hwords hfirst, ?_⟩
  · rw [sound_iff]
    constructor
    · intro hok
      have hnone : ∀ index, ¬ b.BreaksAt index := fun index hbreaks => by
        obtain ⟨first, e, he, hfirst⟩ := exists_first_fault ⟨index, hbreaks⟩
        have herror := he.verify hwords hfirst
        rw [hok] at herror
        contradiction
      refine ⟨hnone, Decidable.byContradiction fun hopen => ?_⟩
      rw [(hends hnone).2, if_neg hopen] at hok
      contradiction
    · rintro ⟨hnone, hbalanced⟩
      rw [(hends hnone).2, if_pos hbalanced]
  · intro hnone hsound
    have hopen : opens b.code ≠ closes b.code := fun hbalanced =>
      hsound ((sound_iff b).mpr ⟨hnone, hbalanced⟩)
    obtain ⟨hle, hverify⟩ := hends hnone
    rw [if_neg hopen] at hverify
    exact ⟨by omega, hverify⟩

end Block

/-- A `cframe` that carries a jump out of the block, another one whose operand is still to come, and
at last one `cframe` too many. -/
def Demo.tangled : Block where
  label := "t"
  code := [.pushNat 1, .plain .oframe, ⟨.cframe, some (.pc 9)⟩, ⟨.cframe, some .reserved⟩,
    .plain .cframe]

/-- The first two instructions break no rule, and the third leads to index 11. -/
theorem tangled_blames_first :
    (∀ index, ¬ Demo.tangled.OverflowsAt index) ∧
      Demo.tangled.verify = .error (.jumpOutOfBlock "t" 2 11) ∧ ¬ Demo.tangled.Sound := by
  have hwords : ∀ index, ¬ Demo.tangled.OverflowsAt index := by
    rintro index ⟨i, hi, offset, hoffset, hlimit⟩
    match index, hi with
    | 0, rfl => contradiction
    | 1, rfl => contradiction
    | 2, rfl =>
        cases hoffset
        exact absurd hlimit (by decide)
    | 3, rfl => contradiction
    | 4, rfl => contradiction
  have hfault : Demo.tangled.FaultAt 2 (.jumpOutOfBlock "t" 2 11) := by
    refine .leaves ?_ ⟨_, 9, rfl, rfl, rfl, by decide⟩
    rintro ⟨i, hi, hreserved⟩
    cases hi
    contradiction
  have hfirst : ∀ before < 2, ¬ Demo.tangled.BreaksAt before := by
    intro before hlt
    obtain rfl | rfl : before = 0 ∨ before = 1 := by omega
    all_goals
      rintro (⟨i, hi, h⟩ | ⟨target, i, offset, hi, h, -⟩ | ⟨-, h⟩)
      · cases hi
        exact nomatch h
      · cases hi
        exact nomatch h
      · exact absurd h (by decide)
  obtain ⟨hsound, -, hblames, -⟩ := Block.verify_blames_first Demo.tangled hwords
  have hverify := hblames 2 _ hfault hfirst
  refine ⟨hwords, hverify, fun h => ?_⟩
  rw [hsound.mpr h] at hverify
  contradiction

end PadCompiler
