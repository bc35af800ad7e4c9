import PadCompiler.Block

/-!
# PadCompiler.Proofs.Lowercase

Text in small letters stays as it is when it is put in small letters.

What a run of the table makes of its capitals lies apart from all runs, so it has no other small
form: `LowerRun.clears`, checked run by run.  From that follows what holds of one character,
`lowerChar_small`, and of whole texts, `lower_lower`.
-/

namespace PadCompiler.Text

/-! ## Runs -/

namespace LowerRun

/-- The small form of the first capital of a run. -/
def low (run : LowerRun) : Nat :=
  (run.first + run.shift).toNat

/-- The small form of the last capital of a run. -/
def high (run : LowerRun) : Nat :=
  (run.last + run.shift).toNat

/-- The small forms of a run lie beyond another run, or between its capitals. -/
def skips (run other : LowerRun) : Bool :=
  other.last < run.low ||
    (run.stride % other.stride == 0 || run.first == run.last) &&
      ((run.low : Int) - other.first) % other.stride != 0

/-- The small forms of a run are no capitals of these runs, which are sorted. -/
def clears (run : LowerRun) : List LowerRun → Bool
  | [] => true
  | other :: rest => run.high < other.first || run.skips other && run.clears rest

/-- The small forms of a run are characters other than `İ`. -/
def isWritten (run : LowerRun) : Bool :=
  0 ≤ run.first + run.shift && (run.high < 0x130 || 0x130 < run.low && run.high < 0xD800 ||
    0xDFFF < run.low && run.high < 0x110000)

variable {run other : LowerRun} {runs : List LowerRun} {code : Nat}

theorem mem_of_find? (h : find? code runs = some run) : run ∈ runs ∧ run.contains code = true := by
  induction runs with
  | nil => contradiction
  | cons other rest ih =>
      rw [find?] at h
      split at h
      · contradiction
      · split at h
        · cases h
          exact ⟨List.mem_cons_self, by assumption⟩
        · exact ⟨List.mem_cons_of_mem other (ih h).1, (ih h).2⟩

theorem contains_eq_true :
    run.contains code = true ↔
      run.first ≤ code ∧ code ≤ run.last ∧ (code - run.first) % run.stride = 0 := by
  simp [contains, and_assoc]

/-- The small form of a capital lies among those of its run, and as far from the first of them as
the capital lies from the first one. -/
theorem low_le_small (hstart : 0 ≤ (run.first : Int) + run.shift) (h : run.contains code = true) :
    run.low ≤ (code + run.shift).toNat ∧ (code + run.shift).toNat ≤ run.high ∧
      (code + run.shift).toNat = run.low + (code - run.first) := by
  obtain ⟨hfirst, hlast, -⟩ := contains_eq_true.mp h
  simp only [low, high]
  omega

theorem not_contains_of_skips (hstart : 0 ≤ (run.first : Int) + run.shift)
    (h : run.contains code = true) (hskips : run.skips other = true) :
    other.contains (code + run.shift).toNat = false := by
  obtain ⟨hlow, hhigh, hsmall⟩ := low_le_small hstart h
  obtain ⟨hfirst, hlast, hstride⟩ := contains_eq_true.mp h
  simp only [skips, Bool.or_eq_true, Bool.and_eq_true, decide_eq_true_eq, bne_iff_ne,
    beq_iff_eq] at hskips
  apply Bool.eq_false_iff.mpr
  intro hother
  obtain ⟨hfirst', hlast', hstride'⟩ := contains_eq_true.mp hother
  rcases hskips with hbeyond | ⟨hstep, hbetween⟩
  · omega
  · -- Whole strides keep the distance to the capitals of the other run.
    have hturns : (other.stride : Int) ∣ (code - run.first : Nat) := by
      rcases hstep with hstep | hone
      · exact Int.natCast_dvd_natCast.mpr
          (Nat.dvd_trans (Nat.dvd_of_mod_eq_zero hstep) (Nat.dvd_of_mod_eq_zero hstride))
      · have hzero : code - run.first = 0 := by omega
        simp [hzero]
    have hmeets : (other.stride : Int) ∣ ((code + run.shift).toNat - other.first : Nat) :=
      Int.natCast_dvd_natCast.mpr (Nat.dvd_of_mod_eq_zero hstride')
    have hsum : (run.low : Int) - other.first =
        ((code + run.shift).toNat - other.first : Nat) - (code - run.first : Nat) := by
      omega
    exact hbetween (Int.emod_eq_zero_of_dvd (hsum ▸ Int.dvd_sub hmeets hturns))

/-- Small forms that are clear of the runs are in none of them. -/
theorem find?_of_clears (hstart : 0 ≤ (run.first : Int) + run.shift)
    (h : run.contains code = true) (hclears : run.clears runs = true) :
    find? (code + run.shift).toNat runs = none := by
  obtain ⟨-, hhigh, -⟩ := low_le_small hstart h
  induction runs with
  | nil => rfl
  | cons other rest ih =>
      rw [find?]
      by_cases hbelow : (code + run.shift).toNat < other.first
      · simp [hbelow]
      · have hnot : ¬ run.high < other.first := by omega
        simp only [clears, hnot, decide_false, Bool.false_or, Bool.and_eq_true] at hclears
        rw [if_neg hbelow, if_neg (by simp [not_contains_of_skips hstart h hclears.1])]
        exact ih hclears.2

end LowerRun

theorem lowerRuns_clear :
    (lowerRuns.all fun run => run.isWritten && run.clears lowerRuns) = true := by
  decide +kernel

/-! ## Characters -/

/-- A character that is left as it is. -/
structure IsSmall (c : Char) : Prop where
  sigma : c ≠ 'Σ'
  dotted : c ≠ 'İ'
  fixed : lowerChar c = c

theorem lowerChar_small {c : Char} (hsigma : c ≠ 'Σ') (hdotted : c ≠ 'İ') :
    IsSmall (lowerChar c) := by
  cases hfind : LowerRun.find? c.toNat lowerRuns with
  | none =>
      have hfixed : lowerChar c = c := by simp [lowerChar, hfind]
      rw [hfixed]
      exact ⟨hsigma, hdotted, hfixed⟩
  | some run =>
      obtain ⟨hrun, hcontains⟩ := LowerRun.mem_of_find? hfind
      have hclear := List.all_eq_true.mp lowerRuns_clear run hrun
      simp only [LowerRun.isWritten, Bool.and_eq_true, Bool.or_eq_true, decide_eq_true_eq] at hclear
      obtain ⟨⟨hstart, hwritten⟩, hclears⟩ := hclear
      obtain ⟨hlow, hhigh, -⟩ := LowerRun.low_le_small hstart hcontains
      have hnone := LowerRun.find?_of_clears hstart hcontains hclears
      have hlower : lowerChar c = Char.ofNat (c.toNat + run.shift).toNat := by
        simp [lowerChar, hfind]
      rw [hlower]
      generalize (c.toNat + run.shift).toNat = n at hlow hhigh hnone
      have hvalid : n.isValidChar := by
        simp only [Nat.isValidChar]
        omega
      have hcode : (Char.ofNat n).toNat = n := by
        rw [Char.ofNat, dif_pos hvalid]
        rfl
      constructor
      · intro heq
        have hn : n = 0x3A3 := by rw [← hcode, heq]; rfl
        rw [hn] at hnone
        revert hnone
        decide +kernel
      · intro heq
        have hn : n = 0x130 := by rw [← hcode, heq]; rfl
        omega
      · simp [lowerChar, hcode, hnone]

/-! ## Texts -/

theorem lowerFrom_small (before cs : List Char) : ∀ c ∈ lowerFrom before cs, IsSmall c := by
  induction cs generalizing before with
  | nil => simp [lowerFrom]
  | cons c cs ih =>
      intro x hx
      rw [lowerFrom, List.mem_append] at hx
      rcases hx with hx | hx
      · by_cases hsigma : c = 'Σ'
        · rw [if_pos hsigma, List.mem_singleton] at hx
          subst hx
          split <;> exact ⟨by decide, by decide, by decide +kernel⟩
        · rw [if_neg hsigma] at hx
          by_cases hdotted : c = 'İ'
          · rw [if_pos hdotted] at hx
            simp only [List.mem_cons, List.not_mem_nil, or_false] at hx
            rcases hx with rfl | rfl <;> exact ⟨by decide, by decide, by decide +kernel⟩
          · rw [if_neg hdotted, List.mem_singleton] at hx
            exact hx ▸ lowerChar_small hsigma hdotted
      · exact ih _ x hx

/-- Small letters stay. -/
theorem lowerFrom_of_small {before cs : List Char} (h : ∀ c ∈ cs, IsSmall c) :
    lowerFrom before cs = cs := by
  induction cs generalizing before with
  | nil => rfl
  | cons c cs ih =>
      obtain ⟨hc, hcs⟩ := List.forall_mem_cons.mp h
      rw [lowerFrom, ih hcs]
      simp [hc.sigma, hc.dotted, hc.fixed]

/-- Text in small letters is left as it is. -/
theorem lower_lower (s : String) : lower (lower s) = lower s := by
  rw [lower, lower, String.toList_ofList, lowerFrom_of_small (lowerFrom_small [] s.toList)]

theorem lower_mainLabel : lower mainLabel = mainLabel := rfl

end PadCompiler.Text
