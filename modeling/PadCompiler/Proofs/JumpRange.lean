import PadCompiler.Listing
import PadCompiler.Proofs.Paths
import PadCompiler.Proofs.RoundTrip

/-!
# PadCompiler.Proofs.JumpRange

Compiled programs that were read from bytes may carry any offsets.  The check and the listing add
each one to the index it stands at, and that sum may leave the signed words.

* `Block.OverflowsAt` — the places where it does;
* `Block.verify_fault_iff` — the check of a block faults if it comes to such a place before it
  finds another rule broken;
* `Image.listing_cases` — the listing faults if there is such a place at all.

Where there is none, nothing faults: `image_faults_iff`.
-/

namespace PadCompiler

/-! ## One instruction -/

namespace Instruction

/-- At this index, the instruction leads past the signed words. -/
def OverflowsAt (i : Instruction) (index : Nat) : Prop :=
  ∃ offset, i.pcOffset = some offset ∧ signedLimit ≤ (index : Int) + offset.toInt

/-- At this index of a block of `length` instructions, the operand is filled in, and leads into
the block if it is an offset. -/
structure FitsAt (i : Instruction) (length index : Nat) : Prop where
  filled : i.isReserved = false
  word : ¬ i.OverflowsAt index
  inside : ∀ offset, i.pcOffset = some offset →
    0 ≤ (index : Int) + offset.toInt ∧ (index : Int) + offset.toInt < length

theorem filled_of_pcOffset (i : Instruction) {offset : Int64} (h : i.pcOffset = some offset) :
    i.isReserved = false := by
  obtain ⟨op, operand⟩ := i
  cases operand with
  | none => rfl
  | some operand => cases operand <;> simp_all [pcOffset, isReserved]

end Instruction

theorem jumpTarget_of_lt {index : Nat} {offset : Int64}
    (h : (index : Int) + offset.toInt < signedLimit) :
    jumpTarget index offset = .ok ((index : Int) + offset.toInt) := by
  simp [jumpTarget, h]

theorem jumpTarget_of_le {index : Nat} {offset : Int64}
    (h : signedLimit ≤ (index : Int) + offset.toInt) :
    jumpTarget index offset = .error .addOverflow := by
  simp [jumpTarget, Int.not_lt.mpr h]

namespace Block

section

variable (label : String) {length index : Nat} (frames : Nat) {i : Instruction}

theorem checkInstruction_overflows (h : i.OverflowsAt index) :
    checkInstruction label length index frames i = .error (.fault .addOverflow) := by
  obtain ⟨offset, hoffset, hlimit⟩ := h
  unfold checkInstruction
  simp [i.filled_of_pcOffset hoffset, hoffset, jumpTarget_of_le hlimit]

theorem checkInstruction_plain (op : Opcode) :
    checkInstruction label length index frames (.plain op) =
      if (Instruction.plain op).adjust frames < 0 then .error (.frameUnderflow label index)
      else .ok ((Instruction.plain op).adjust frames).toNat := by
  cases op with
  | oframe => rfl
  | cframe => cases frames with
      | zero => rfl
      | succ rest =>
          have hle : ¬ (((rest + 1 : Nat) : Int) - 1 < 0) := by omega
          have hrest : (((rest + 1 : Nat) : Int) - 1).toNat = rest := by omega
          simp only [Instruction.adjust, Instruction.plain, hle, hrest, if_false]
          rfl
  | _ => rfl

/-- An operand that fits makes no difference. -/
theorem checkInstruction_fits (h : i.FitsAt length index) :
    checkInstruction label length index frames i =
      checkInstruction label length index frames (.plain i.op) := by
  unfold checkInstruction
  cases hoffset : i.pcOffset with
  | none =>
      simp only [h.filled]
      rfl
  | some offset =>
      obtain ⟨hlow, hhigh⟩ := h.inside offset hoffset
      have hword : (index : Int) + offset.toInt < signedLimit :=
        Int.not_le.mp fun hlimit => h.word ⟨offset, hoffset, hlimit⟩
      simp only [h.filled, jumpTarget_of_lt hword, mapError_ok, ok_bind,
        Int.not_lt.mpr hlow, Int.not_le.mpr hhigh, or_self, if_false]
      rfl

theorem checkInstruction_counts (h : i.FitsAt length index) :
    checkInstruction label length index frames i =
      if i.adjust frames < 0 then .error (.frameUnderflow label index)
      else .ok (i.adjust frames).toNat := by
  rw [checkInstruction_fits _ _ h, checkInstruction_plain]
  rfl

theorem checkInstruction_unfit (hword : ¬ i.OverflowsAt index) (h : ¬ i.FitsAt length index) :
    ∃ e, checkInstruction label length index frames i = .error e ∧ ∀ f, e ≠ .fault f := by
  unfold checkInstruction
  cases hreserved : i.isReserved with
  | true => exact ⟨.unpatched label index, by simp, nofun⟩
  | false =>
      cases hoffset : i.pcOffset with
      | none => exact absurd ⟨hreserved, hword, by simp [hoffset]⟩ h
      | some offset =>
          have hlt : (index : Int) + offset.toInt < signedLimit :=
            Int.not_le.mp fun hlimit => hword ⟨offset, hoffset, hlimit⟩
          have hout : (index : Int) + offset.toInt < 0 ∨ length ≤ (index : Int) + offset.toInt := by
            by_cases hlow : (index : Int) + offset.toInt < 0
            · exact .inl hlow
            · refine .inr (Int.not_lt.mp fun hhigh => h ⟨hreserved, hword, ?_⟩)
              simp only [hoffset, Option.some.injEq, forall_eq']
              exact ⟨Int.not_lt.mp hlow, hhigh⟩
          exact ⟨.jumpOutOfBlock label index ((index : Int) + offset.toInt), by
            simp [jumpTarget_of_lt hlt, hout], nofun⟩

end

/-! ## One block -/

/-- The jump at this index leads past the signed words. -/
def OverflowsAt (b : Block) (index : Nat) : Prop :=
  ∃ i, b.code[index]? = some i ∧ i.OverflowsAt index

/-- The instruction at this index breaks no rule. -/
def PassesAt (b : Block) (index : Nat) : Prop :=
  ∀ i, b.code[index]? = some i →
    i.FitsAt b.code.length index ∧ 0 ≤ framesOpened (b.code.take (index + 1))

/-- A jump leads past the signed words, and no instruction before it breaks a rule. -/
def MeetsOverflow (b : Block) : Prop :=
  ∃ index, b.OverflowsAt index ∧ ∀ before < index, b.PassesAt before

variable {b : Block}

theorem PassesAt.not_overflowsAt {index : Nat} (h : b.PassesAt index) : ¬ b.OverflowsAt index := by
  rintro ⟨i, hi, hoverflow⟩
  exact (h i hi).1.word hoverflow

/-- The check of what is left of a block faults exactly if the check of the whole block comes to an
overflow. -/
theorem checkCode_fault_iff (done : List Instruction) {rest : List Instruction}
    (hcode : b.code = done ++ rest) {frames : Nat} (hframes : (frames : Int) = framesOpened done)
    (hdone : ∀ index < done.length, b.PassesAt index) (f : Fault) :
    checkCode b.label b.code.length done.length frames rest = .error (.fault f) ↔
      f = .addOverflow ∧ b.MeetsOverflow := by
  induction rest generalizing done frames with
  | nil =>
      have hnone : ¬ b.MeetsOverflow := by
        rintro ⟨index, ⟨i, hi, hoverflow⟩, -⟩
        have hlt := (List.getElem?_eq_some_iff.mp hi).1
        rw [hcode, List.append_nil] at hlt
        exact (hdone index hlt).not_overflowsAt ⟨i, hi, hoverflow⟩
      by_cases hzero : frames = 0
      · simp [checkCode, hzero, hnone, pure, Except.pure]
      · simp [checkCode, hzero, hnone]
  | cons i rest ih =>
      have hat : b.code[done.length]? = some i := by simp [hcode]
      have htake : b.code.take (done.length + 1) = done ++ [i] := by
        rw [List.take_add_one, hat, hcode, List.take_left]
        rfl
      rw [checkCode]
      by_cases hoverflow : i.OverflowsAt done.length
      · have hmeets : b.MeetsOverflow := ⟨done.length, ⟨i, hat, hoverflow⟩, hdone⟩
        rw [checkInstruction_overflows _ _ hoverflow, error_bind]
        simp [hmeets, eq_comm]
      · -- The check stops here for another reason unless the instruction passes.
        have hstops (h : ¬ b.PassesAt done.length) : ¬ b.MeetsOverflow := by
          rintro ⟨index, ⟨j, hj, hlimit⟩, hbefore⟩
          rcases Nat.lt_trichotomy index done.length with hlt | heq | hgt
          · exact (hdone index hlt).not_overflowsAt ⟨j, hj, hlimit⟩
          · rw [heq, hat, Option.some.injEq] at hj
            rw [heq, ← hj] at hlimit
            exact hoverflow hlimit
          · exact h (hbefore _ hgt)
        by_cases hfits : i.FitsAt b.code.length done.length
        · have hopen : framesOpened (b.code.take (done.length + 1)) = i.adjust frames := by
            rw [htake, framesOpened_concat, hframes]
          rw [checkInstruction_counts _ _ hfits]
          by_cases hunder : i.adjust frames < 0
          · have hnone := hstops fun hpasses => by
              have hle := (hpasses i hat).2
              omega
            simp [hunder, hnone]
          · have hpasses : b.PassesAt done.length := by
              intro j hj
              rw [hat, Option.some.injEq] at hj
              exact hj ▸ ⟨hfits, by omega⟩
            rw [if_neg hunder, ok_bind]
            have hopened : ((i.adjust frames).toNat : Int) = framesOpened (done ++ [i]) := by
              rw [← htake, hopen, Int.toNat_of_nonneg (Int.not_lt.mp hunder)]
            have hnext := ih (done ++ [i]) (by simp [hcode]) hopened (by
              intro index hlt
              rw [List.length_append, List.length_singleton] at hlt
              rcases Nat.lt_succ_iff_lt_or_eq.mp hlt with hlt | rfl
              · exact hdone index hlt
              · exact hpasses)
            simpa using hnext
        · obtain ⟨e, he, hreport⟩ := checkInstruction_unfit b.label frames hoverflow hfits
          have hnone := hstops fun hpasses => hfits (hpasses i hat).1
          rw [he, error_bind]
          simp [hreport f, hnone]

/-- The check of a block faults exactly if it comes to an overflow. -/
theorem verify_fault_iff (b : Block) (f : Fault) :
    b.verify = .error (.fault f) ↔ f = .addOverflow ∧ b.MeetsOverflow :=
  checkCode_fault_iff [] rfl rfl (by simp) f

/-! ## Listing a block -/

/-- A jump of the code, which begins at `index`, leads past the signed words. -/
def OverflowsFrom (index : Nat) (code : List Instruction) : Prop :=
  ∃ n i, code[n]? = some i ∧ Instruction.OverflowsAt i (index + n)

theorem overflowsFrom_cons {index : Nat} {i : Instruction} {rest : List Instruction} :
    OverflowsFrom index (i :: rest) ↔ i.OverflowsAt index ∨ OverflowsFrom (index + 1) rest := by
  constructor
  · rintro ⟨n, j, hj, hoverflow⟩
    cases n with
    | zero =>
        cases hj
        exact .inl hoverflow
    | succ n =>
        rw [List.getElem?_cons_succ] at hj
        exact .inr ⟨n, j, hj, by rwa [Nat.add_right_comm]⟩
  · rintro (hoverflow | ⟨n, j, hj, hoverflow⟩)
    · exact ⟨0, i, rfl, hoverflow⟩
    · exact ⟨n + 1, j, hj, by rwa [← Nat.add_assoc, Nat.add_right_comm]⟩

theorem overflowsFrom_zero (b : Block) :
    OverflowsFrom 0 b.code ↔ ∃ index, b.OverflowsAt index := by
  simp [OverflowsFrom, OverflowsAt]

/-- Collecting the targets fails at the first of them that is no word. -/
theorem jumpTargets_cases (index : Nat) (code : List Instruction) :
    OverflowsFrom index code ∧ jumpTargets index code = .error .addOverflow ∨
      ¬ OverflowsFrom index code ∧ ∃ targets, jumpTargets index code = .ok targets := by
  induction code generalizing index with
  | nil => exact .inr ⟨by simp [OverflowsFrom], [], rfl⟩
  | cons i rest ih =>
      rw [overflowsFrom_cons, jumpTargets]
      cases hoffset : i.pcOffset with
      | none =>
          have hword : ¬ i.OverflowsAt index := by simp [Instruction.OverflowsAt, hoffset]
          simpa [hword] using ih (index + 1)
      | some offset =>
          by_cases hlimit : signedLimit ≤ (index : Int) + offset.toInt
          · have hoverflow : i.OverflowsAt index := ⟨offset, hoffset, hlimit⟩
            exact .inl ⟨.inl hoverflow, by simp [jumpTarget_of_le hlimit]⟩
          · have hword : ¬ i.OverflowsAt index := by simp [Instruction.OverflowsAt, hoffset, hlimit]
            rcases ih (index + 1) with ⟨hrest, htargets⟩ | ⟨hrest, targets, htargets⟩ <;>
              simp [jumpTarget_of_lt (Int.not_le.mp hlimit), htargets, hword, hrest, pure,
                Except.pure]

/-- Where all targets are words, there is a line for every instruction. -/
theorem codeLines_ok (targets : List Int) {index : Nat} {code : List Instruction}
    (h : ¬ OverflowsFrom index code) : ∃ lines, codeLines targets index code = .ok lines := by
  induction code generalizing index with
  | nil => exact ⟨[], rfl⟩
  | cons i rest ih =>
      rw [overflowsFrom_cons, not_or] at h
      obtain ⟨others, hothers⟩ := ih h.2
      have hline : ∃ line, annotate index i = .ok line := by
        rw [annotate]
        cases hoffset : i.pcOffset with
        | none => cases i.op.stackEffect <;> exact ⟨_, rfl⟩
        | some offset =>
            have hlt : (index : Int) + offset.toInt < signedLimit :=
              Int.not_le.mp fun hlimit => h.1 ⟨offset, hoffset, hlimit⟩
            dsimp only
            exact ⟨_, by rw [jumpTarget_of_lt hlt]; rfl⟩
      obtain ⟨line, hline⟩ := hline
      exact ⟨_, by rw [codeLines, instructionLines, hline, hothers]; rfl⟩

theorem titledListing_cases (b : Block) :
    (∃ index, b.OverflowsAt index) ∧ b.titledListing = .error .addOverflow ∨
      (¬ ∃ index, b.OverflowsAt index) ∧ ∃ text, b.titledListing = .ok text := by
  rw [← overflowsFrom_zero, titledListing, listing]
  rcases jumpTargets_cases 0 b.code with ⟨hoverflow, htargets⟩ | ⟨hnone, targets, htargets⟩
  · exact .inl ⟨hoverflow, by rw [htargets]; rfl⟩
  · obtain ⟨lines, hlines⟩ := codeLines_ok targets hnone
    exact .inr ⟨hnone, _, by rw [htargets, ok_bind, hlines]; rfl⟩

end Block

/-! ## Compiled programs -/

namespace Image

/-- A jump of some block leads past the signed words. -/
def Overflows (image : Image) : Prop :=
  ∃ b ∈ image.blocks, ∃ index, b.OverflowsAt index

/-- A block comes to such a jump in its check, and the blocks before it are fine. -/
def MeetsOverflow (image : Image) : Prop :=
  ∃ front b back, image.blocks = front ++ b :: back ∧ (∀ c ∈ front, c.verify = .ok ()) ∧
    Block.MeetsOverflow b

theorem MeetsOverflow.overflows {image : Image} (h : image.MeetsOverflow) : image.Overflows := by
  obtain ⟨front, b, back, hblocks, -, index, hoverflow, -⟩ := h
  exact ⟨b, by simp [hblocks], index, hoverflow⟩

end Image

/-- Steps over a list fail where the first of them does. -/
theorem forM_eq_error_iff {x : α → Except ε Unit} {l : List α} {e : ε} :
    l.forM x = .error e ↔
      ∃ front a back, l = front ++ a :: back ∧ (∀ c ∈ front, x c = .ok ()) ∧ x a = .error e := by
  induction l with
  | nil => simp [pure, Except.pure]
  | cons a l ih =>
      rw [List.forM_eq_forM, List.forM_cons, ← List.forM_eq_forM]
      cases hx : x a with
      | error e' =>
          constructor
          · intro h
            cases h
            exact ⟨[], a, l, rfl, by simp, hx⟩
          · rintro ⟨front, a', back, hl, hfront, ha⟩
            cases front with
            | nil =>
                cases hl
                exact hx.symm.trans ha
            | cons c front =>
                cases hl
                have hok := hfront a List.mem_cons_self
                rw [hx] at hok
                contradiction
      | ok _ =>
          rw [ok_bind, ih]
          constructor
          · rintro ⟨front, a', back, rfl, hfront, ha⟩
            exact ⟨a :: front, a', back, rfl, List.forall_mem_cons.mpr ⟨hx, hfront⟩, ha⟩
          · rintro ⟨front, a', back, hl, hfront, ha⟩
            cases front with
            | nil =>
                cases hl
                rw [hx] at ha
                contradiction
            | cons c front =>
                cases hl
                exact ⟨front, a', back, rfl, fun c hc => hfront c (List.mem_cons_of_mem a hc), ha⟩

namespace Image

/-- The check of a compiled program faults exactly if it comes to an overflow. -/
theorem verify_fault_iff (image : Image) (f : Fault) :
    image.verify = .error (.fault f) ↔ f = .addOverflow ∧ image.MeetsOverflow := by
  rw [verify, forM_eq_error_iff]
  constructor
  · rintro ⟨front, b, back, hblocks, hfront, hb⟩
    obtain ⟨hf, hmeets⟩ := (b.verify_fault_iff f).mp hb
    exact ⟨hf, front, b, back, hblocks, hfront, hmeets⟩
  · rintro ⟨hf, front, b, back, hblocks, hfront, hmeets⟩
    exact ⟨front, b, back, hblocks, hfront, (b.verify_fault_iff f).mpr ⟨hf, hmeets⟩⟩

theorem render_fault_iff (image : Image) (f : Fault) :
    image.render = .error (.fault f) ↔ f = .addOverflow ∧ image.MeetsOverflow := by
  rw [← verify_fault_iff, render]
  cases image.verify <;> simp [pure, Except.pure]

/-- The listing of a compiled program is there unless some jump overflows. -/
theorem listing_cases (image : Image) :
    image.Overflows ∧ image.listing = .error .addOverflow ∨
      ¬ image.Overflows ∧ ∃ text, image.listing = .ok text := by
  obtain ⟨blocks, diagnostics⟩ := image
  simp only [listing, Overflows]
  suffices h : (∃ b ∈ blocks, ∃ index, b.OverflowsAt index) ∧
        blocks.mapM Block.titledListing = .error .addOverflow ∨
      (¬ ∃ b ∈ blocks, ∃ index, b.OverflowsAt index) ∧
        ∃ texts, blocks.mapM Block.titledListing = .ok texts by
    rcases h with ⟨hoverflow, hfails⟩ | ⟨hnone, texts, hok⟩
    · exact .inl ⟨hoverflow, by rw [hfails]; rfl⟩
    · exact .inr ⟨hnone, _, by rw [hok]; rfl⟩
  induction blocks with
  | nil => exact .inr ⟨by simp, [], rfl⟩
  | cons b blocks ih =>
      simp only [List.mem_cons, exists_eq_or_imp, List.mapM_cons]
      rcases b.titledListing_cases with ⟨hb, hfails⟩ | ⟨hb, text, hok⟩
      · exact .inl ⟨.inl hb, by rw [hfails]; rfl⟩
      · rcases ih with ⟨hrest, hfails⟩ | ⟨hrest, texts, htexts⟩
        · exact .inl ⟨.inr hrest, by rw [hok, hfails]; rfl⟩
        · exact .inr ⟨by simp only [hb, hrest, or_self, not_false_eq_true], _, by
            rw [hok, htexts]; rfl⟩

end Image

/-- Whatever bytes a compiled program was read from, it is listed unless some jump leads past the
signed words, and its check and its text end in a fault only if the check comes to such a jump
before it finds another rule broken. -/
theorem image_faults_iff (image : Image) :
    (image.Overflows → image.listing = .error .addOverflow) ∧
      (¬ image.Overflows → ∃ text, image.listing = .ok text) ∧
      (∀ f, image.verify = .error (.fault f) ↔ f = .addOverflow ∧ image.MeetsOverflow) ∧
      (∀ f, image.render = .error (.fault f) ↔ f = .addOverflow ∧ image.MeetsOverflow) ∧
      (image.MeetsOverflow → image.Overflows) := by
  refine ⟨fun h => ?_, fun h => ?_, image.verify_fault_iff, image.render_fault_iff, fun h =>
    h.overflows⟩
  · rcases image.listing_cases with ⟨-, hfails⟩ | ⟨hnone, -⟩
    · exact hfails
    · exact absurd h hnone
  · rcases image.listing_cases with ⟨hoverflow, -⟩ | ⟨-, hok⟩
    · exact absurd hoverflow h
    · exact hok

/-- A block that halts and then pushes the greatest offset. -/
def Image.far : Image where
  blocks := [⟨"t", [.plain .halt, ⟨.push, some (.pc 9223372036854775807)⟩]⟩]
  diagnostics := []

/-- A block that pushes the offset of its last instruction. -/
def Image.near : Image where
  blocks := [⟨"t", [⟨.push, some (.pc 1)⟩, .plain .halt]⟩]
  diagnostics := []

/-- The greatest offset leads past the signed words, and an offset into the block does not. -/
theorem image_near_far :
    (Image.far.MeetsOverflow ∧ Image.far.Overflows ∧
        Image.far.listing = .error .addOverflow) ∧
      ¬ Image.near.Overflows ∧ (∃ text, Image.near.listing = .ok text) ∧
        ∀ f, Image.near.verify ≠ .error (.fault f) := by
  obtain ⟨hfails, -, hverify, -, hoverflows⟩ := image_faults_iff Image.far
  obtain ⟨-, hlisted, hverifyNear, -, hoverflowsNear⟩ := image_faults_iff Image.near
  have hmeets : Image.far.MeetsOverflow := ((hverify _).mp rfl).2
  have hnear : ¬ Image.near.Overflows := by
    rintro ⟨b, hb, index, i, hi, offset, hoffset, hlimit⟩
    rw [List.mem_singleton.mp hb] at hi
    match index, hi with
    | 0, rfl =>
        cases hoffset
        exact absurd hlimit (by decide)
    | 1, rfl => contradiction
  exact ⟨⟨hmeets, hoverflows hmeets, hfails (hoverflows hmeets)⟩, hnear, hlisted hnear,
    fun f hfault => hnear (hoverflowsNear ((hverifyNear f).mp hfault).2)⟩

/-- These bytes are read, and then the check, the text and the listing fault. -/
theorem image_far_faults :
    Image.far.toBytes =
        [1, 1, 116, 2, 19, 0, 0, 1, 3, 254, 255, 255, 255, 255, 255, 255, 255, 255, 1, 0] ∧
      Image.ofBytes Image.far.toBytes = .ok Image.far ∧
      Image.far.verify = .error (.fault .addOverflow) ∧
      Image.far.render = .error (.fault .addOverflow) ∧
      Image.far.listing = .error .addOverflow := by
  have hsized : Image.far.Sized := by
    simp [Image.far, Image.Sized, Block.Sized, Operand.Sized, TextSized, Instruction.plain]
    decide
  refine ⟨by decide +kernel, ?_, rfl, rfl, rfl⟩
  have hread := (Wire.decodeImage_coded hsized).reads []
  rw [List.append_nil] at hread
  rw [Image.ofBytes, Image.toBytes, hread]
  rfl

end PadCompiler
