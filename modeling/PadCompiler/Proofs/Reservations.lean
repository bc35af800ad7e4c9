import PadCompiler.Proofs.Steps
import PadCompiler.Proofs.Verdicts

/-!
# PadCompiler.Proofs.Reservations

A block only grows, and what was held free in it is filled in at most once.

* `Block.Action`, `Block.perform` — the operations on a block, one by one;
* `Block.perform_cases` — all that an operation can do: it appends code, or it puts an operand where
  one is held free;
* `Block.perform_patch` — a patch succeeds exactly where an operand is held free;
* `Block.Action.step_run` — the code generator does the same, and its state outlives a refusal;
* `Block.next_getElem?` — a step: what an operation leaves of an instruction;
* `Block.moment_getElem?` — a run: what any number of them leaves;
* `Block.Fills.kept` — what was filled in stays as it is;
* `Block.operations_only_fill` — so much for every run.

A patch may name any place, whether or not it was handed out by a `reserve`, and any number of
times.
-/

namespace PadCompiler

namespace Block

/-! ## Operations -/

/-- An operation on a block. -/
inductive Action where
  | emit (i : Instruction)
  | emitOp (op : Opcode)
  | extend (code : List Instruction)
  | reserve
  | patchJump (r : Reservation) (target : Nat)
  | patchCount (r : Reservation) (count : Nat)

/-- Performs an operation. -/
def perform (b : Block) : Action → Except CompileError Block
  | .emit i => .ok (b.emit i)
  | .emitOp op => .ok (b.emit (.plain op))
  | .extend code => .ok (b.extend code)
  | .reserve => .ok b.reserve.2
  | .patchJump r target => (b.patchJump r target).map Prod.snd
  | .patchCount r count => b.patchCount r count

/-- The block after an operation; one that is refused changes nothing. -/
def next (b : Block) (a : Action) : Block :=
  match b.perform a with
  | .ok c => c
  | .error _ => b

/-- The block after operations one after the other. -/
def after (b : Block) (as : List Action) : Block :=
  as.foldl next b

/-- The operation is a patch of the place `index`, and `operand` is what it would put there.  A jump
whose offset is no signed word puts nothing anywhere. -/
inductive Action.Patches : Action → Nat → Operand → Prop
  | jump {r : Reservation} {target : Nat} {offset : Int64}
    (h : jumpOffset r.index target = .ok offset) :
    Patches (.patchJump r target) r.index (.pc offset)
  | count (r : Reservation) (count : Nat) :
    Patches (.patchCount r count) r.index (.value (.int (Int64.ofNat count)))

/-! ## One operation -/

variable {b c : Block} {a : Action} {index : Nat} {operand : Operand}

/-- A patch puts a jump offset or an integer, so it leaves nothing held free. -/
theorem Action.Patches.filled (h : a.Patches index operand) :
    (∃ offset, operand = .pc offset) ∨ ∃ n, operand = .value (.int n) := by
  cases h with
  | jump => exact .inl ⟨_, rfl⟩
  | count => exact .inr ⟨_, rfl⟩

theorem Action.Patches.ne_reserved (h : a.Patches index operand) : operand ≠ .reserved := by
  cases h <;> exact nofun

theorem perform_patch (h : a.Patches index operand) :
    b.perform a = b.fill ⟨index⟩ operand := by
  cases h with
  | jump hoffset =>
      rw [perform, patchJump, hoffset, mapError_ok, ok_bind]
      cases b.fill _ _ <;> rfl
  | count r count => rfl

/-- Filling in succeeds exactly where an operand is held free, and changes nothing else. -/
theorem fill_eq_ok {r : Reservation} :
    b.fill r operand = .ok c ↔ ∃ i, b.code[r.index]? = some i ∧ i.operand = some .reserved ∧
      c = { b with code := b.code.set r.index { i with operand := some operand } } := by
  unfold fill
  cases hi : b.code[r.index]? with
  | none => simp
  | some i =>
      dsimp only
      by_cases hreserved : i.isReserved
      · have hoperand := i.isReserved_iff.mp hreserved
        simp [hreserved, hoperand, eq_comm]
      · have hoperand : i.operand ≠ some .reserved := fun h => hreserved (i.isReserved_iff.mpr h)
        simp [hreserved, hoperand]

/-- A patch succeeds exactly where an operand is held free. -/
theorem perform_ok_iff (h : a.Patches index operand) :
    (∃ c, b.perform a = .ok c) ↔ b.UnpatchedAt index := by
  simp only [perform_patch h, fill_eq_ok]
  constructor
  · rintro ⟨_, i, hi, hreserved, -⟩
    exact ⟨i, hi, hreserved⟩
  · rintro ⟨i, hi, hreserved⟩
    exact ⟨_, i, hi, hreserved, rfl⟩

/-- Anywhere else it is refused, by the name of the place. -/
theorem perform_refused (h : a.Patches index operand) (hheld : ¬ b.UnpatchedAt index) :
    b.perform a = .error (.internal (.noReservation b.label index)) := by
  rw [perform_patch h, fill]
  cases hi : b.code[index]? with
  | none => rfl
  | some i =>
      have hfilled : ¬ i.isReserved := fun hreserved =>
        hheld ⟨i, hi, i.isReserved_iff.mp hreserved⟩
      exact if_neg hfilled

/-- What an operation does that succeeds: it appends code, or it puts an operand where one is held
free. -/
theorem perform_cases (h : b.perform a = .ok c) :
    (∃ code, c = b.extend code) ∨
      ∃ index operand, a.Patches index operand ∧ b.fill ⟨index⟩ operand = .ok c := by
  cases a with
  | emit i => exact .inl ⟨[i], (Except.ok.inj h).symm⟩
  | emitOp op => exact .inl ⟨[.plain op], (Except.ok.inj h).symm⟩
  | extend code => exact .inl ⟨code, (Except.ok.inj h).symm⟩
  | reserve => exact .inl ⟨[.reserved], (Except.ok.inj h).symm⟩
  | patchJump r target =>
      obtain ⟨p, hpatch, rfl⟩ := map_eq_ok.mp h
      obtain ⟨offset, hoffset, -⟩ := bind_eq_ok.mp hpatch
      have hpatches : (Action.patchJump r target).Patches r.index (.pc offset) :=
        .jump (mapError_eq_ok.mp hoffset)
      exact .inr ⟨_, _, hpatches, by rw [← perform_patch hpatches, h]⟩
  | patchCount r count => exact .inr ⟨_, _, .count r count, h⟩

/-- An operation as a step of the code generator. -/
def Action.step : Action → GenM Unit
  | .emit i => Generator.emit [i]
  | .emitOp op => Generator.emit [.plain op]
  | .extend code => Generator.emit code
  | .reserve => discard Generator.reserve
  | .patchJump r target => Generator.patchJump r target
  | .patchCount r count => Generator.patchCount r count

/-- The code generator performs an operation on its block and leaves the rest as it is; where the
operation is refused, the whole state is as it was. -/
theorem Action.step_run (a : Action) (g : Generator) :
    a.step.run g = match g.block.perform a with
      | .ok c => .ok () { g with block := c }
      | .error e => .error e g := by
  cases a with
  | emit i => rfl
  | emitOp op => rfl
  | extend code => rfl
  | reserve => rfl
  | patchJump r target =>
      simp only [step, perform, Generator.patchJump]
      cases hpatch : g.block.patchJump r target <;> simp [hpatch, Except.map]
  | patchCount r count =>
      simp only [step, perform, Generator.patchCount]
      cases hpatch : g.block.patchCount r count <;> simp [hpatch]

/-- A step: what an operation leaves of an instruction. -/
theorem next_getElem? {i : Instruction} (hi : b.code[index]? = some i) (a : Action) :
    ∃ j, (b.next a).code[index]? = some j ∧ j.op = i.op ∧ (j.operand = i.operand ∨
      i.operand = some .reserved ∧ ∃ operand, a.Patches index operand ∧
        b.perform a = .ok (b.next a) ∧ j.operand = some operand) := by
  cases hrun : b.perform a with
  | error e => exact ⟨i, by rw [next, hrun, hi], rfl, .inl rfl⟩
  | ok c =>
      have hnext : b.next a = c := by rw [next, hrun]
      rw [hnext]
      rcases perform_cases hrun with ⟨code, rfl⟩ | ⟨place, operand, hpatches, hfill⟩
      · refine ⟨i, ?_, rfl, .inl rfl⟩
        have hlt := (List.getElem?_eq_some_iff.mp hi).1
        rw [extend, List.getElem?_append_left hlt, hi]
      · obtain ⟨j, hj, hreserved, rfl⟩ := fill_eq_ok.mp hfill
        by_cases hplace : place = index
        · subst hplace
          cases hi.symm.trans hj
          have hlt := (List.getElem?_eq_some_iff.mp hi).1
          refine ⟨{ i with operand := some operand }, by simp [hlt], rfl,
            .inr ⟨hreserved, operand, hpatches, rfl, rfl⟩⟩
        · exact ⟨i, by simp [hplace, hi], rfl, .inl rfl⟩

/-! ## Runs -/

/-- The block after the first `n` operations. -/
def moment (b : Block) (as : List Action) (n : Nat) : Block :=
  b.after (as.take n)

/-- The operation after the first `n` is a patch that puts `operand` at `index`, and succeeds. -/
def Fills (b : Block) (as : List Action) (n index : Nat) (operand : Operand) : Prop :=
  ∃ a, as[n]? = some a ∧ a.Patches index operand ∧
    (b.moment as n).perform a = .ok (b.moment as (n + 1))

variable {as : List Action}

theorem moment_succ {n : Nat} (ha : as[n]? = some a) :
    b.moment as (n + 1) = (b.moment as n).next a := by
  rw [moment, after, List.take_add_one, ha, List.foldl_append]
  rfl

theorem moment_of_none {n : Nat} (ha : as[n]? = none) :
    b.moment as (n + 1) = b.moment as n := by
  rw [moment, List.take_add_one, ha]
  simp [moment]

/-- A run: what any number of operations leaves of an instruction. -/
theorem moment_getElem? {k m : Nat} (hkm : k ≤ m) {i : Instruction}
    (hi : (b.moment as k).code[index]? = some i) :
    ∃ j, (b.moment as m).code[index]? = some j ∧ j.op = i.op ∧ (j.operand = i.operand ∨
      i.operand = some .reserved ∧ ∃ n operand, k ≤ n ∧ n < m ∧ b.Fills as n index operand ∧
        j.operand = some operand) := by
  induction hkm with
  | refl => exact ⟨i, hi, rfl, .inl rfl⟩
  | @step m hkm ih =>
      obtain ⟨j, hj, hop, hoperand⟩ := ih
      have hbefore : j.operand = i.operand ∨ i.operand = some .reserved ∧
          ∃ n operand, k ≤ n ∧ n < m + 1 ∧ b.Fills as n index operand ∧
            j.operand = some operand := by
        refine hoperand.imp_right ?_
        rintro ⟨hreserved, n, operand, hkn, hnm, hfills⟩
        exact ⟨hreserved, n, operand, hkn, by omega, hfills⟩
      cases ha : as[m]? with
      | none =>
          rw [moment_of_none ha]
          exact ⟨j, hj, hop, hbefore⟩
      | some a =>
          obtain ⟨j', hj', hop', hstep⟩ := next_getElem? hj a
          rw [← moment_succ ha] at hj' hstep
          refine ⟨j', hj', hop'.trans hop, ?_⟩
          rcases hstep with hsame | ⟨hheld, operand, hpatches, hrun, hnew⟩
          · rw [hsame]
            exact hbefore
          · -- what is held free now was held free from the start
            rcases hoperand with hsame | ⟨-, n, filled, -, -, ⟨a', -, hpatches', -⟩, hfilled⟩
            · exact .inr ⟨hsame.symm.trans hheld, m, operand, hkm, Nat.lt_succ_self m,
                ⟨a, ha, hpatches, hrun⟩, hnew⟩
            · rw [hheld, Option.some.injEq] at hfilled
              exact absurd hfilled.symm hpatches'.ne_reserved

theorem length_moment_le {k m : Nat} (hkm : k ≤ m) :
    (b.moment as k).code.length ≤ (b.moment as m).code.length := by
  refine Nat.le_of_not_lt fun hlt => ?_
  obtain ⟨j, hj, -⟩ := moment_getElem? hkm (List.getElem?_eq_getElem hlt)
  exact Nat.lt_irrefl _ (List.getElem?_eq_some_iff.mp hj).1

/-- What is filled in was held free before. -/
theorem Fills.unpatchedAt {n : Nat} (h : b.Fills as n index operand) :
    (b.moment as n).UnpatchedAt index := by
  obtain ⟨a, -, hpatches, hrun⟩ := h
  rw [perform_patch hpatches] at hrun
  obtain ⟨i, hi, hreserved, -⟩ := fill_eq_ok.mp hrun
  exact ⟨i, hi, hreserved⟩

/-- What is filled in stays as it is. -/
theorem Fills.kept {n m : Nat} (h : b.Fills as n index operand) (hnm : n < m) :
    ∃ i, (b.moment as m).code[index]? = some i ∧ i.operand = some operand := by
  obtain ⟨a, -, hpatches, hrun⟩ := h
  rw [perform_patch hpatches] at hrun
  obtain ⟨i, hi, -, hnext⟩ := fill_eq_ok.mp hrun
  have hlt := (List.getElem?_eq_some_iff.mp hi).1
  have hfilled : (b.moment as (n + 1)).code[index]? = some { i with operand := some operand } := by
    simp [hnext, hlt]
  obtain ⟨j, hj, -, hsame | ⟨hheld, -⟩⟩ := moment_getElem? hnm hfilled
  · exact ⟨j, hj, hsame⟩
  · exact absurd (Option.some.inj hheld) hpatches.ne_reserved

theorem Fills.not_unpatchedAt {n m : Nat} (h : b.Fills as n index operand)
    (hnm : n < m) : ¬ (b.moment as m).UnpatchedAt index := by
  obtain ⟨i, hi, hfilled⟩ := h.kept hnm
  obtain ⟨a, -, hpatches, -⟩ := h
  rintro ⟨j, hj, hreserved⟩
  cases hi.symm.trans hj
  exact hpatches.ne_reserved (Option.some.inj (hfilled.symm.trans hreserved))

/-- A patch of one place succeeds at most once in a run. -/
theorem Fills.once {n m : Nat} {operand' : Operand}
    (h : b.Fills as n index operand) (h' : b.Fills as m index operand') : n = m := by
  rcases Nat.lt_trichotomy n m with hlt | heq | hgt
  · exact absurd h'.unpatchedAt (h.not_unpatchedAt hlt)
  · exact heq
  · exact absurd h.unpatchedAt (h'.not_unpatchedAt hgt)

/-- A block only grows, whatever is done to it and in whatever order.  No opcode changes, and an
operand changes only where it was held free, by a patch of that place, to a jump offset or an
integer; so each place is filled in at most once, and stays as it is then.  A patch succeeds exactly
where an operand is held free; one that is refused changes nothing, neither in the block nor in the
state of the code generator. -/
theorem operations_only_fill (b : Block) (as : List Action) :
    (∀ k m, k ≤ m → (b.moment as k).code.length ≤ (b.moment as m).code.length) ∧
    (∀ k m index i, k ≤ m → (b.moment as k).code[index]? = some i →
      ∃ j, (b.moment as m).code[index]? = some j ∧ j.op = i.op ∧
        (j.operand ≠ i.operand → i.operand = some .reserved ∧
          ∃ n operand, k ≤ n ∧ n < m ∧ b.Fills as n index operand ∧ j.operand = some operand ∧
            ((∃ offset, operand = .pc offset) ∨ ∃ v, operand = .value (.int v)))) ∧
    (∀ n index operand, b.Fills as n index operand →
      (∀ m operand', b.Fills as m index operand' → m = n) ∧
      ∀ m, n < m → ∃ i, (b.moment as m).code[index]? = some i ∧ i.operand = some operand) ∧
    (∀ n a index operand, a.Patches index operand →
      ((∃ c, (b.moment as n).perform a = .ok c) ↔ (b.moment as n).UnpatchedAt index) ∧
      (¬ (b.moment as n).UnpatchedAt index → (b.moment as n).perform a =
        .error (.internal (.noReservation (b.moment as n).label index)))) ∧
    (∀ n a e, as[n]? = some a → (b.moment as n).perform a = .error e →
      b.moment as (n + 1) = b.moment as n) ∧
    ∀ (a : Action) (g g' : Generator) (e : CompileError), a.step.run g = .error e g' → g' = g := by
  refine ⟨fun k m hkm => length_moment_le hkm, fun k m index i hkm hi => ?_,
    fun n index operand h => ⟨fun m operand' h' => h'.once h, fun m hnm => h.kept hnm⟩,
    fun n a index operand h => ⟨perform_ok_iff h, perform_refused h⟩, fun n a e ha hrun => ?_,
    fun a g g' e hrun => ?_⟩
  · obtain ⟨j, hj, hop, hoperand⟩ := moment_getElem? hkm hi
    refine ⟨j, hj, hop, fun hchanged => ?_⟩
    obtain ⟨hreserved, n, operand, hkn, hnm, hfills, hnew⟩ := hoperand.resolve_left hchanged
    have ⟨_, _, hpatches, _⟩ := hfills
    exact ⟨hreserved, n, operand, hkn, hnm, hfills, hnew, hpatches.filled⟩
  · rw [moment_succ ha, next, hrun]
  · rw [a.step_run] at hrun
    cases hperform : g.block.perform a with
    | ok c => simp [hperform] at hrun
    | error e' =>
        rw [hperform] at hrun
        cases hrun
        rfl

end Block

/-- A push is held free and filled in; then it is patched once more. -/
def Demo.refilled : List Block.Action :=
  [.reserve, .emitOp .cjmp, .patchJump ⟨0⟩ 2, .patchCount ⟨0⟩ 7]

/-- The second patch of a place is refused, and changes nothing. -/
theorem refilled_once :
    let b := Block.empty mainLabel
    (b.moment Demo.refilled 3).code = [⟨.push, some (.pc 2)⟩, .plain .cjmp] ∧
    (b.moment Demo.refilled 3).perform (.patchCount ⟨0⟩ 7) =
      .error (.internal (.noReservation mainLabel 0)) ∧
    (b.moment Demo.refilled 4).code = [⟨.push, some (.pc 2)⟩, .plain .cjmp] := by
  have hcode : ((Block.empty mainLabel).moment Demo.refilled 3).code =
      [⟨.push, some (.pc 2)⟩, .plain .cjmp] := by decide
  have hheld : ¬ ((Block.empty mainLabel).moment Demo.refilled 3).UnpatchedAt 0 := by
    rintro ⟨i, hi, hreserved⟩
    rw [hcode] at hi
    cases hi
    cases hreserved
  obtain ⟨-, -, -, hpatch, hsame, -⟩ :=
    Block.operations_only_fill (Block.empty mainLabel) Demo.refilled
  have hrefused := (hpatch 3 (.patchCount ⟨0⟩ 7) 0 _ (.count ⟨0⟩ 7)).2 hheld
  exact ⟨hcode, hrefused, (congrArg Block.code (hsame 3 _ _ rfl hrefused)).trans hcode⟩

end PadCompiler
