import PadCompiler.Proofs.Memory
import PadCompiler.Proofs.Translation

/-!
# PadCompiler.Proofs.Evaluation

The code of an expression leaves its value on the stack.

* `Sound` — what may come of an evaluation: a result, or a stop that is allowed;
* `ExprCode.runs`, `ArgsCode.runs`, `InOrderCode.runs` — one expression, and several of them in
  either order.
-/

namespace PadCompiler

/-! ## Sound evaluations -/

/-- An evaluation that gives a result for which `P` holds.  It may stop at an index that is
out of bounds, or out of fuel where `late` holds, but it does not go wrong. -/
def Sound (late : List Event → Prop) (r : Except Stop α) (P : α → Prop) : Prop :=
  match r with
  | .ok a => P a
  | .error .outOfBounds => True
  | .error (.outOfFuel events) => late events
  | .error .wrong => False

section

variable {late late' : List Event → Prop} {r : Except Stop α} {P Q : α → Prop}

theorem Sound.bind {next : α → Except Stop β} {R : β → Prop} (h : Sound late r P)
    (hnext : ∀ a, P a → Sound late (next a) R) : Sound late (r >>= next) R := by
  cases r with
  | ok a => exact hnext a h
  | error stop =>
      cases stop with
      | outOfBounds => trivial
      | outOfFuel events => exact h
      | wrong => exact h.elim

theorem Sound.imp (h : Sound late r P) (hlate : ∀ events, late events → late' events)
    (hP : ∀ a, P a → Q a) : Sound late' r Q := by
  cases r with
  | ok a => exact hP a h
  | error stop =>
      cases stop with
      | outOfBounds => trivial
      | outOfFuel events => exact hlate events h
      | wrong => exact h.elim

/-- A result is the result. -/
theorem Sound.result (h : Sound late r P) : Sound late r fun a => r = .ok a ∧ P a := by
  cases r with
  | ok a => exact ⟨rfl, h⟩
  | error stop =>
      cases stop with
      | outOfBounds => trivial
      | outOfFuel events => exact h
      | wrong => exact h

end

/-- An index into an array gives a position in it. -/
theorem position_sound (late : List Event → Prop) (length : Nat) (index : Value) :
    Sound late (position length index) fun k => index.index? = some k ∧ k < length := by
  rw [position]
  cases hindex : index.index? with
  | none => trivial
  | some k =>
      dsimp only
      split
      · next hlt => exact ⟨rfl, hlt⟩
      · trivial

/-- A literal index that passes the check is a position. -/
theorem position_of_checkBounds {name : String} {index : Int64} {length offset : Nat}
    (h : checkBounds name index length = .ok offset) :
    position length (.int index) = .ok offset := by
  obtain ⟨hindex, hlt⟩ := checkBounds_eq_ok h
  have hcount : (Value.int index).index? = some offset := by
    rw [Value.index?, hindex, if_pos (Int.natCast_nonneg offset), Int.toNat_natCast]
  rw [position, hcount]
  exact if_pos hlt

/-! ## Expressions -/

/-- Wherever it stands in a block, the code leaves on the stack what an evaluation gives. -/
def Computes (host : Host) (fs : List Frame) (env : Env) (code : List Instruction)
    (eval : Nat → Except Stop (α × Nat)) (pushed : α → List Value) : Prop :=
  ∀ (block : List Instruction) (m : Machine), Stored fs m.frames env →
    (m.frames.length : Int) < signedLimit → CodeAt block m.pc code →
    Sound (fun _ => False) (eval m.log.drawn) fun r =>
      Goes host block 0 m (m.pass code.length (pushed r.1) r.2)

section

variable {host : Host} {fs : List Frame} {env : Env}

/-- The code of a plain expression leaves its value on the stack. -/
theorem ExprCode.runs {e : Expr} {code : List Instruction} : ExprCode (findIn fs) e code →
    e.isPlain = true → Computes host fs env code (e.eval host env) fun v => [v]
  | .literal value, _ => by
      intro block m hstored hdeep hat
      exact (Goes.refl m).last hat rfl
  | .padWidth, _ => by
      intro block m hstored hdeep hat
      exact (Goes.refl m).last hat rfl
  | .padHeight, _ => by
      intro block m hstored hdeep hat
      exact (Goes.refl m).last hat rfl
  | .ident hfind, _ => by
      intro block m hstored hdeep hat
      obtain ⟨hslot, hdepth, v, hv, hread, -⟩ := hstored.scalar hfind
      rw [Expr.eval, hv]
      exact (Goes.refl m).last hat (execute_push_address hslot (by omega) hread)
  | @ExprCode.randomInt _ bound code hbound, hplain => by
      intro block m hstored hdeep hat
      rw [Expr.eval, List.length_append]
      refine .bind (hbound.runs hplain block m hstored hdeep hat.left) ?_
      rintro ⟨bound, drawn⟩ hgo
      exact hgo.last hat.right rfl
  | @ExprCode.binary _ op opcode lhs rhs left right hop hright hleft, hplain => by
      intro block m hstored hdeep hat
      obtain ⟨hplainOp, hplainLeft, hplainRight⟩ := Expr.isPlain_binary.mp hplain
      rw [Expr.eval]
      refine .bind (hright.runs hplainRight block m hstored hdeep hat.left.left) ?_
      rintro ⟨y, drawn⟩ hgo
      refine .bind (hleft.runs hplainLeft block (m.pass right.length [y] drawn) hstored hdeep
        hat.left.right) ?_
      rintro ⟨x, drawn'⟩ hgo'
      have hboth : Goes host block 0 m (m.pass (right ++ left).length [x, y] drawn') := by
        simpa using hgo.trans hgo'
      rw [List.length_append]
      exact hboth.last hat.right (execute_operator hplainOp hop rfl)
  | @ExprCode.unsupported _ op lhs rhs hop, hplain => by
      obtain ⟨hplainOp, -, -⟩ := Expr.isPlain_binary.mp hplain
      cases op with
      | and => cases hplainOp
      | or => cases hplainOp
      | _ => cases hop
  | .call hfind hargs, hplain => by cases hplain
  | @ExprCode.element _ name base length depth index i offset hfind hindex hoffset, _ => by
      intro block m hstored hdeep hat
      obtain ⟨hbase, hdepth, values, hvalues, hlength, -, helement⟩ := hstored.array hfind
      obtain ⟨-, hlt⟩ := checkBounds_eq_ok hoffset
      have hposition := position_of_checkBounds hoffset
      have hread := (helement offset hlt).1 host.blank
      cases Expr.eq_int_of_literalInt? hindex
      subst hlength
      rw [Expr.eval, Expr.eval, ok_bind]
      dsimp only
      rw [hvalues, ok_bind, hposition, ok_bind]
      have hcount : Goes host block 0 m (m.pass 1 [.int (Int64.ofNat 1)] m.log.drawn) :=
        (Goes.refl m).last hat rfl
      have hone := index?_ofNat (by decide : ((1 : Nat) : Int) < signedLimit)
      exact hcount.last hat.tail (execute_pushA (by omega) (by omega) rfl hone hread)
  | @ExprCode.computed _ name base length depth index code hfind hlit hindex, hplain => by
      intro block m hstored hdeep hat
      obtain ⟨hbase, hdepth, values, hvalues, hlength, -, helement⟩ := hstored.array hfind
      rw [Expr.eval, List.length_append]
      refine .bind (hindex.runs hplain block m hstored hdeep hat.left) ?_
      rintro ⟨i, drawn⟩ hgo
      dsimp only
      rw [hvalues, ok_bind]
      refine .bind (position_sound _ values.length i) ?_
      rintro k ⟨hk, hlt⟩
      rw [hlength] at hlt
      have hread := (helement k hlt).1 host.blank
      exact hgo.last hat.right (execute_pushOffset (by omega) (by omega) rfl hk hread)

/-- The last expression comes first, so the first value is on top. -/
theorem ArgsCode.runs {es : List Expr} {code : List Instruction}
    (hplain : es.all Expr.isPlain = true) (h : ArgsCode (findIn fs) es code) :
    Computes host fs env code (Expr.evalReversed host env es) id := by
  induction es generalizing code with
  | nil =>
      cases h
      intro block m hstored hdeep hat
      exact .refl m
  | cons e es ih =>
      rw [List.all_cons, Bool.and_eq_true] at hplain
      cases h with
      | @cons _ _ first others hothers hfirst =>
          intro block m hstored hdeep hat
          rw [Expr.evalReversed, List.length_append]
          refine .bind (ih hplain.2 hothers block m hstored hdeep hat.left) ?_
          rintro ⟨values, drawn⟩ hgo
          refine .bind (hfirst.runs hplain.1 block (m.pass others.length values drawn) hstored
            hdeep hat.right) ?_
          rintro ⟨value, drawn'⟩ hgo'
          have hboth := hgo.trans hgo'
          rw [Machine.pass_pass] at hboth
          exact hboth

/-- The first expression comes first, so the last value is on top. -/
theorem InOrderCode.runs {es : List Expr} {code : List Instruction}
    (hplain : es.all Expr.isPlain = true) (h : InOrderCode (findIn fs) es code) :
    Computes host fs env code (Expr.evalInOrder host env es) List.reverse := by
  induction h with
  | nil =>
      intro block m hstored hdeep hat
      exact .refl m
  | @cons e es first others hfirst hothers ih =>
      rw [List.all_cons, Bool.and_eq_true] at hplain
      intro block m hstored hdeep hat
      rw [Expr.evalInOrder, List.length_append]
      refine .bind (hfirst.runs hplain.1 block m hstored hdeep hat.left) ?_
      rintro ⟨value, drawn⟩ hgo
      refine .bind (ih hplain.2 block (m.pass first.length [value] drawn) hstored hdeep
        hat.right) ?_
      rintro ⟨values, drawn'⟩ hgo'
      have hboth := hgo.trans hgo'
      rw [Machine.pass_pass, ← List.reverse_cons] at hboth
      exact hboth

end

end PadCompiler
