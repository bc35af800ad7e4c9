import PadCompiler.Proofs.Unambiguous
import PadCompiler.Proofs.Verdicts

/-!
# PadCompiler.Proofs.Marks

What the listing of a block shows.

The listing is text, made in two passes: one collects where the jumps lead, the other writes the
lines.  Here it is taken apart into entries, one for each instruction, which say what is shown of
that instruction, and with which characters (`ListingEntry.characters`).

* `Block.mem_jumpTargets` — the first pass collects the targets of all jumps and nothing else;
* `Block.codeLines_entries` — the second pass writes the characters of an entry for each
  instruction, in order;
* `wrapped_eq_iff` — a target that is negative is no index of a block either when it is taken as an
  unsigned word;
* `Block.listing_marks_targets` — the marks are at the targets, and the destinations that are
  written beside the jumps of an accepted block are among them.
-/

namespace PadCompiler

/-! ## Entries -/

/-- What a listing shows of one instruction. -/
structure ListingEntry where
  index : Nat
  instruction : Instruction
  /-- Whether the mark of a jump target is set. -/
  marked : Bool
  /-- Where the instruction is said to lead, if it is a jump. -/
  destination : Option Int

/-- The entry of an instruction. -/
def Instruction.entry (i : Instruction) (index : Nat) (marked : Bool) : ListingEntry where
  index := index
  instruction := i
  marked := marked
  destination := i.pcOffset.map fun offset => (index : Int) + offset.toInt

/-- The decimal digits of a number, after zeros that fill up the width; a minus sign comes first and
counts. -/
def Text.decimal (width : Nat) (n : Int) : List Char :=
  let digits := Nat.toDigits 10 n.natAbs
  if n < 0 then '-' :: (List.replicate (width - 1 - digits.length) '0' ++ digits)
  else List.replicate (width - digits.length) '0' ++ digits

namespace ListingEntry

/-- The rule above an entry with the mark, on a line of its own. -/
def rule (e : ListingEntry) : List Char :=
  if e.marked then List.replicate 6 ' ' ++ '┌' :: List.replicate 34 '─' ++ ['\n'] else []

/-- The mark of a jump target, or a gap. -/
def mark (e : ListingEntry) : Char :=
  if e.marked then '►' else ' '

/-- What stands beside the instruction, in a column of its own: an arrow up or down and the
destination, or else what the opcode does to the stack. -/
def aside (e : ListingEntry) : List Char :=
  let gap := List.replicate (16 - e.instruction.text.length) ' '
  match e.destination, e.instruction.op.stackEffect with
  | some target, _ =>
    let arrow := if target < e.index then '↑' else '↓'
    gap ++ [arrow, ' ', '(', '→', ' '] ++ Text.decimal 4 target ++ [')']
  | none, some effect => gap ++ [';', ' '] ++ effect.toList
  | none, none => []

/-- The characters of an entry: the rule, the index, the mark, the instruction and what stands
beside it. -/
def characters (e : ListingEntry) : List Char :=
  e.rule ++ Text.decimal 4 e.index ++ [' ', e.mark, ' '] ++ e.instruction.text.toList ++ e.aside ++
    ['\n']

end ListingEntry

/-! ## Columns -/

namespace Text

theorem toList_padRight (width : Nat) (s : String) :
    (padRight width s).toList = s.toList ++ List.replicate (width - s.length) ' ' := by
  simp [padRight, repeated]

theorem toList_zeroPad (width : Nat) (n : Int) : (zeroPad width n).toList = decimal width n := by
  have hlength : (toString n.natAbs).length = (Nat.toDigits 10 n.natAbs).length := by
    rw [← String.length_toList, Nat.toString_eq_repr, Nat.toList_repr]
  simp only [zeroPad, decimal, hlength]
  split <;> simp [repeated]

end Text

/-! ## One instruction -/

theorem offset_neg_iff (index : Nat) (offset : Int64) :
    offset < 0 ↔ (index : Int) + offset.toInt < index := by
  have hzero : (0 : Int64).toInt = 0 := rfl
  rw [Int64.lt_iff_toInt_lt, hzero]
  omega

namespace Block

theorem annotate_entry {i : Instruction} {index : Nat} (hword : ¬ i.OverflowsAt index)
    (marked : Bool) :
    ∃ line, annotate index i = .ok line ∧
      line.toList = i.text.toList ++ (i.entry index marked).aside := by
  unfold annotate ListingEntry.aside Instruction.entry
  cases hoffset : i.pcOffset with
  | none =>
      cases heffect : i.op.stackEffect with
      | none => exact ⟨_, rfl, by simp⟩
      | some effect => exact ⟨_, rfl, by simp [Text.toList_padRight]⟩
  | some offset =>
      have hlt : (index : Int) + offset.toInt < signedLimit :=
        Int.not_le.mp fun hlimit => hword ⟨offset, hoffset, hlimit⟩
      simp only [jumpTarget_of_lt hlt, ok_bind, offset_neg_iff index offset, Option.map_some]
      refine ⟨_, rfl, ?_⟩
      split <;> simp [Text.toList_padRight, Text.toList_zeroPad]

theorem toList_targetRule :
    targetRule.toList = List.replicate 6 ' ' ++ '┌' :: List.replicate 34 '─' := by
  rw [targetRule, Text.repeated, String.toList_append, String.toList_ofList, String.toList_ofList]
  generalize List.replicate 34 _ = line
  rfl

theorem instructionLines_entry {i : Instruction} {index : Nat} (hword : ¬ i.OverflowsAt index)
    (targets : List Int) :
    ∃ lines, instructionLines targets index i = .ok lines ∧
      (Text.unlines lines).toList =
        (i.entry index (targets.contains (index : Int))).characters := by
  unfold instructionLines ListingEntry.characters
  generalize targets.contains (index : Int) = marked
  obtain ⟨line, hline, hchars⟩ := annotate_entry hword marked
  have hindex : (i.entry index marked).index = index := rfl
  have hshown : (i.entry index marked).instruction = i := rfl
  rw [hline, ok_bind, hindex, hshown]
  refine ⟨_, rfl, ?_⟩
  rw [Text.toList_unlines]
  cases marked with
  | false =>
      simp [hchars, Text.toList_zeroPad, ListingEntry.rule, ListingEntry.mark, Instruction.entry]
  | true =>
      simp [hchars, Text.toList_zeroPad, ListingEntry.rule, ListingEntry.mark, Instruction.entry,
        toList_targetRule]

/-! ## All instructions -/

/-- The entries of the code from `index` on, with the marks at `targets`. -/
def entriesFrom (targets : List Int) (index : Nat) (code : List Instruction) : List ListingEntry :=
  (code.zipIdx index).map fun (i, n) => i.entry n (targets.contains (n : Int))

theorem codeLines_entries (targets : List Int) {index : Nat} {code : List Instruction}
    (h : ¬ OverflowsFrom index code) :
    ∃ lines, codeLines targets index code = .ok lines ∧
      (Text.unlines lines).toList =
        (entriesFrom targets index code).flatMap ListingEntry.characters := by
  induction code generalizing index with
  | nil => exact ⟨[], rfl, rfl⟩
  | cons i rest ih =>
      rw [overflowsFrom_cons, not_or] at h
      obtain ⟨first, hfirst, hshown⟩ := instructionLines_entry h.1 targets
      obtain ⟨others, hothers, hrest⟩ := ih h.2
      refine ⟨first ++ others, by rw [codeLines, hfirst, ok_bind, hothers]; rfl, ?_⟩
      rw [Text.toList_unlines] at hshown hrest
      rw [Text.toList_unlines, List.flatMap_append, hshown, hrest]
      rfl

/-- Where some jump of the code, which begins at `index`, leads. -/
def LeadsFrom (index : Nat) (code : List Instruction) (target : Int) : Prop :=
  ∃ n i offset, code[n]? = some i ∧ i.operand = some (.pc offset) ∧
    ((index + n : Nat) : Int) + offset.toInt = target

theorem leadsFrom_cons {index : Nat} {i : Instruction} {rest : List Instruction} {target : Int} :
    LeadsFrom index (i :: rest) target ↔
      (∃ offset, i.pcOffset = some offset ∧ (index : Int) + offset.toInt = target) ∨
        LeadsFrom (index + 1) rest target := by
  constructor
  · rintro ⟨n, j, offset, hj, hoffset, htarget⟩
    cases n with
    | zero =>
        cases hj
        exact .inl ⟨offset, (i.pcOffset_iff offset).mpr hoffset, htarget⟩
    | succ n =>
        rw [List.getElem?_cons_succ] at hj
        exact .inr ⟨n, j, offset, hj, hoffset, by rwa [Nat.add_right_comm, Nat.add_assoc]⟩
  · rintro (⟨offset, hoffset, htarget⟩ | ⟨n, j, offset, hj, hoffset, htarget⟩)
    · exact ⟨0, i, offset, rfl, (i.pcOffset_iff offset).mp hoffset, htarget⟩
    · exact ⟨n + 1, j, offset, hj, hoffset, by rwa [← Nat.add_assoc, Nat.add_right_comm]⟩

theorem mem_jumpTargets {index : Nat} {code : List Instruction} {targets : List Int}
    (h : jumpTargets index code = .ok targets) (target : Int) :
    target ∈ targets ↔ LeadsFrom index code target := by
  induction code generalizing index targets with
  | nil =>
      cases h
      simp [LeadsFrom]
  | cons i rest ih =>
      rw [jumpTargets] at h
      rw [leadsFrom_cons]
      cases hoffset : i.pcOffset with
      | none =>
          rw [hoffset] at h
          simp [ih h]
      | some offset =>
          rw [hoffset] at h
          obtain ⟨first, hfirst, h⟩ := bind_eq_ok.mp h
          obtain ⟨others, hothers, h⟩ := bind_eq_ok.mp h
          cases h
          rw [List.mem_cons, ih hothers, ← jumpTarget_eq_ok hfirst]
          simp [eq_comm]

/-! ## One block -/

/-- Some instruction carries an offset that leads to `target`. -/
def JumpsTo (b : Block) (target : Int) : Prop :=
  ∃ (j : Nat) (i : Instruction) (offset : Int64), b.code[j]? = some i ∧
    i.operand = some (.pc offset) ∧ (j : Int) + offset.toInt = target

theorem leadsFrom_zero (b : Block) (target : Int) :
    LeadsFrom 0 b.code target ↔ b.JumpsTo target := by
  simp [LeadsFrom, JumpsTo]

/-- A block that is accepted breaks no rule anywhere. -/
theorem not_breaksAt_of_verify {b : Block} (hwords : ∀ index, ¬ b.OverflowsAt index)
    (hok : b.verify = .ok ()) (index : Nat) : ¬ b.BreaksAt index := by
  intro hbreaks
  obtain ⟨first, e, he, hfirst⟩ := exists_first_fault ⟨index, hbreaks⟩
  rw [he.verify hwords hfirst] at hok
  contradiction

/-- The jumps of a block that is accepted lead to its instructions. -/
theorem JumpsTo.inside {b : Block} {target : Int} (h : b.JumpsTo target)
    (hwords : ∀ index, ¬ b.OverflowsAt index) (hok : b.verify = .ok ()) :
    0 ≤ target ∧ target < b.code.length := by
  obtain ⟨j, i, offset, hj, hoffset, rfl⟩ := h
  have hfine := not_breaksAt_of_verify hwords hok j
  exact Decidable.byContradiction fun hout =>
    hfine (.inr (.inl ⟨_, i, offset, hj, hoffset, rfl, hout⟩))

/-- A jump leads to a signed word, unless it leads past them. -/
theorem JumpsTo.word {b : Block} {target : Int} (h : b.JumpsTo target)
    (hwords : ∀ index, ¬ b.OverflowsAt index) : -signedLimit ≤ target ∧ target < signedLimit := by
  obtain ⟨j, i, offset, hj, hoffset, rfl⟩ := h
  have hlow := offset.le_toInt
  refine ⟨?_, Int.not_le.mp fun hlimit =>
    hwords j ⟨i, hj, offset, (i.pcOffset_iff offset).mpr hoffset, hlimit⟩⟩
  simp only [signedLimit]
  omega

end Block

/-- A signed word taken as an unsigned one is no index that is a signed word, unless it is the
same. -/
theorem wrapped_eq_iff {target : Int} {index : Nat} (hlow : -signedLimit ≤ target)
    (hhigh : target < signedLimit) (hindex : (index : Int) < signedLimit) :
    (Int64.ofInt target).toUInt64 = UInt64.ofNat index ↔ target = index := by
  constructor
  · intro hsame
    have hsigned := congrArg UInt64.toInt64 hsame
    rw [Int64.toInt64_toUInt64, UInt64.toInt64_ofNat'] at hsigned
    have hint := congrArg Int64.toInt hsigned
    rwa [toInt_ofInt_of_lt hlow hhigh, toInt_ofNat_of_lt hindex] at hint
  · rintro rfl
    rfl

/-! ## The listing -/

/-- The entry shows the instruction at index `n` of the block: with the mark if a jump leads there,
and with where it leads itself if it is a jump. -/
structure ListingEntry.Shows (e : ListingEntry) (b : Block) (n : Nat) : Prop where
  index : e.index = n
  instruction : b.code[n]? = some e.instruction
  marked : e.marked = true ↔ b.JumpsTo n
  destination (target : Int) : e.destination = some target ↔
    ∃ offset, e.instruction.operand = some (.pc offset) ∧ (n : Int) + offset.toInt = target

namespace Block

theorem getElem?_entriesFrom (targets : List Int) (code : List Instruction) (n : Nat) :
    (entriesFrom targets 0 code)[n]? =
      code[n]?.map fun i => i.entry n (targets.contains (n : Int)) := by
  rw [entriesFrom, List.getElem?_map, List.getElem?_zipIdx, Option.map_map, Nat.zero_add]
  rfl

variable {b : Block}

theorem entry_shows {n : Nat} {i : Instruction} (hi : b.code[n]? = some i)
    {targets : List Int} (htargets : jumpTargets 0 b.code = .ok targets) :
    (i.entry n (targets.contains (n : Int))).Shows b n where
  index := rfl
  instruction := hi
  marked := by
    rw [← leadsFrom_zero, ← mem_jumpTargets htargets, ← List.contains_iff_mem]
    rfl
  destination target := by
    simp [Instruction.entry, Option.map_eq_some_iff, i.pcOffset_iff]

/-- The listing is made of an entry for each instruction. -/
theorem listing_entries (hwords : ∀ index, ¬ b.OverflowsAt index) :
    ∃ (text : String) (entries : List ListingEntry),
      b.listing = .ok text ∧ text.toList = entries.flatMap ListingEntry.characters ∧
      entries.length = b.code.length ∧
      ∀ (n : Nat) (e : ListingEntry), entries[n]? = some e → e.Shows b n := by
  have hnone : ¬ OverflowsFrom 0 b.code := by
    rw [overflowsFrom_zero]
    exact fun ⟨index, hoverflow⟩ => hwords index hoverflow
  obtain ⟨-, targets, htargets⟩ := (jumpTargets_cases 0 b.code).resolve_left fun h => hnone h.1
  obtain ⟨lines, hlines, hshown⟩ := codeLines_entries targets hnone
  refine ⟨Text.unlines lines, entriesFrom targets 0 b.code, ?_, hshown, by simp [entriesFrom],
    fun n e he => ?_⟩
  · rw [listing, htargets, ok_bind, hlines]
    rfl
  · rw [getElem?_entriesFrom] at he
    obtain ⟨i, hi, rfl⟩ := Option.map_eq_some_iff.mp he
    exact entry_shows hi htargets

/-- Where no jump of a block leads past the signed words, its listing is written with the characters
of one entry for each instruction, in order; a legible instruction can be told from its text.  The
mark stands at the instructions that some jump leads to and at no others; it would stand at the same
ones if targets were compared as unsigned words, as which negative ones wrap round.  If the check
accepts the block, every destination that is written beside a jump is the index of an entry with the
mark. -/
theorem listing_marks_targets (b : Block) (hwords : ∀ index, ¬ b.OverflowsAt index) :
    ∃ (text : String) (entries : List ListingEntry),
      b.listing = .ok text ∧ text.toList = entries.flatMap ListingEntry.characters ∧
      entries.length = b.code.length ∧
      (∀ (n : Nat) (e : ListingEntry), entries[n]? = some e → e.Shows b n) ∧
      (∀ e ∈ entries, e.instruction.isLegible = true → ∀ i : Instruction, i.isLegible = true →
        i.text = e.instruction.text → i = e.instruction) ∧
      (∀ e ∈ entries, (e.index : Int) < signedLimit → (e.marked = true ↔
        ∃ target, b.JumpsTo target ∧ (Int64.ofInt target).toUInt64 = UInt64.ofNat e.index)) ∧
      (b.verify = .ok () → ∀ e ∈ entries, ∀ target, e.destination = some target →
        ∃ f ∈ entries, f.marked = true ∧ (f.index : Int) = target) := by
  obtain ⟨text, entries, hlisting, htext, hlength, hshows⟩ := listing_entries hwords
  refine ⟨text, entries, hlisting, htext, hlength, hshows,
    fun e _ he i hi htext => Instruction.text_inj hi he htext, fun e he hindex => ?_,
    fun hok e he target htarget => ?_⟩
  · obtain ⟨n, hn⟩ := List.mem_iff_getElem?.mp he
    have hentry := hshows n e hn
    rw [hentry.marked, ← hentry.index]
    constructor
    · exact fun hjumps => ⟨e.index, hjumps, rfl⟩
    · rintro ⟨target, hjumps, hsame⟩
      obtain ⟨hlow, hhigh⟩ := hjumps.word hwords
      rwa [(wrapped_eq_iff hlow hhigh hindex).mp hsame] at hjumps
  · obtain ⟨n, hn⟩ := List.mem_iff_getElem?.mp he
    have hentry := hshows n e hn
    obtain ⟨offset, hoffset, hleads⟩ := (hentry.destination target).mp htarget
    have hjumps : b.JumpsTo target := ⟨n, _, offset, hentry.instruction, hoffset, hleads⟩
    obtain ⟨hlow, hhigh⟩ := hjumps.inside hwords hok
    obtain ⟨m, rfl⟩ := Int.eq_ofNat_of_zero_le hlow
    have hm : m < entries.length := by omega
    have hfound := hshows m _ (List.getElem?_eq_getElem hm)
    exact ⟨entries[m], List.getElem_mem hm, hfound.marked.mpr hjumps, by rw [hfound.index]⟩

end Block

/-- A jump forward and a jump back, each to the push of the other. -/
def Demo.crossed : Block where
  label := "t"
  code := [.pushNat 0, .plain .oframe, ⟨.push, some (.pc 2)⟩, .plain .cjmp,
    ⟨.push, some (.pc (-2))⟩, .plain .jmp, .plain .cframe]

/-- The listing has seven entries, with the marks at the two pushes.  The second of them is shown
with its index, its mark and the index of the first. -/
theorem crossed_marks_targets :
    (∀ index, ¬ Demo.crossed.OverflowsAt index) ∧ Demo.crossed.verify = .ok () ∧
      ∃ (text : String) (entries : List ListingEntry),
        Demo.crossed.listing = .ok text ∧
        text.toList = entries.flatMap ListingEntry.characters ∧ entries.length = 7 ∧
        (∀ (n : Nat) (e : ListingEntry), entries[n]? = some e →
          (e.marked = true ↔ n = 4 ∨ n = 2)) ∧
        (∃ e, entries[4]? = some e ∧ e.characters =
          e.rule ++ "0004 ► push #PC-2      ↑ (→ 0002)\n".toList) ∧
        ∀ e ∈ entries, ∀ target, e.destination = some target →
          ∃ f ∈ entries, f.marked = true ∧ (f.index : Int) = target := by
  have htargets : Block.jumpTargets 0 Demo.crossed.code = .ok [4, 2] := rfl
  have hok : Demo.crossed.verify = .ok () := rfl
  have hwords : ∀ index, ¬ Demo.crossed.OverflowsAt index := by
    intro index hoverflow
    rcases Block.jumpTargets_cases 0 Demo.crossed.code with ⟨-, hfault⟩ | ⟨hnone, -⟩
    · rw [htargets] at hfault
      contradiction
    · exact hnone ((Block.overflowsFrom_zero _).mpr ⟨index, hoverflow⟩)
  obtain ⟨text, entries, hlisting, htext, hlength, hshows, -, -, hdestinations⟩ :=
    Block.listing_marks_targets Demo.crossed hwords
  have hmarks (n : Nat) (e : ListingEntry) (he : entries[n]? = some e) :
      e.marked = true ↔ n = 4 ∨ n = 2 := by
    rw [(hshows n e he).marked, ← Block.leadsFrom_zero, ← Block.mem_jumpTargets htargets]
    simp
    omega
  refine ⟨hwords, hok, text, entries, hlisting, htext, hlength, hmarks, ?_, hdestinations hok⟩
  have hlt : 4 < entries.length := hlength ▸ (by decide)
  obtain ⟨e, he⟩ : ∃ e, entries[4]? = some e := ⟨_, List.getElem?_eq_getElem hlt⟩
  obtain ⟨hindex, hinstruction, -, hdestination⟩ := hshows 4 e he
  have hmarked := (hmarks 4 e he).mpr (.inl rfl)
  obtain ⟨index, instruction, marked, destination⟩ := e
  cases hindex
  cases hinstruction
  cases hmarked
  have hto : destination = some 2 := (hdestination 2).mpr ⟨-2, rfl, rfl⟩
  cases hto
  exact ⟨_, he, by decide +kernel⟩

end PadCompiler
