import PadCompiler.Demo
import PadCompiler.Proofs.Blocks
import PadCompiler.Proofs.Control

/-!
# PadCompiler.Proofs.Preservation

The code of a program does what the program does: the machine prints, writes, delays and
clears exactly as the program that is run directly.

* `Laid.runs` — the code of statements does what they do, by induction on the rules;
* `MainCode.runs` — so does the block of a program, from its start to the `halt`.
-/

namespace PadCompiler

/-! ## Names that a step mentions -/

/-- What a frame finds under names that newer ones leave alone. -/
theorem findIn_of_new {f g : Frame} {fs : List Frame} {new : List (String × Storage)}
    (hnames : g.names = new ++ f.names) {name : String} (hname : name ∉ new.map Prod.fst) :
    findIn (g :: fs) name = findIn (f :: fs) name := by
  have hnone : new.lookup name = none := by
    rw [List.lookup_eq_none_iff]
    intro entry hentry
    have hne : name ≠ entry.1 := fun heq => hname (List.mem_map.mpr ⟨entry, hentry, heq.symm⟩)
    simpa using hne
  rw [findIn, findIn, findFrom, findFrom, hnames, List.lookup_append, hnone, Option.none_or]

/-- Code depends on the names that are mentioned. -/
theorem ExprCode.congr {find find' : Lookup} {e : Expr} {code : List Instruction} :
    ExprCode find e code → e.isPlain = true →
      (∀ name ∈ e.mentions, find' name = find name) → ExprCode find' e code
  | .literal value, _, _ => .literal value
  | .padWidth, _, _ => .padWidth
  | .padHeight, _, _ => .padHeight
  | .ident hfind, _, hsame => .ident ((hsame _ List.mem_cons_self).trans hfind)
  | .randomInt hbound, hplain, hsame => .randomInt (hbound.congr hplain hsame)
  | .binary hop hright hleft, hplain, hsame =>
      have ⟨_, hplainLeft, hplainRight⟩ := Expr.isPlain_binary.mp hplain
      .binary hop
        (hright.congr hplainRight fun name hname => hsame name (List.mem_append_right _ hname))
        (hleft.congr hplainLeft fun name hname => hsame name (List.mem_append_left _ hname))
  | .unsupported lhs rhs hop, _, _ => .unsupported lhs rhs hop
  | .call hfind hargs, hplain, _ => by cases hplain
  | .element hfind hindex hoffset, _, hsame =>
      .element ((hsame _ List.mem_cons_self).trans hfind) hindex hoffset
  | .computed hfind hlit hindex, hplain, hsame =>
      .computed ((hsame _ List.mem_cons_self).trans hfind) hlit
        (hindex.congr hplain fun name hname => hsame name (List.mem_cons_of_mem _ hname))

/-- The new names are the declared ones. -/
theorem Laid.declares {fs : List Frame} {f g : Frame} {ss : List Stmt} {code : List Instruction}
    (h : Laid fs f ss code g) : ∃ new, g.names = new ++ f.names ∧
      ∀ name ∈ new.map Prod.fst, name ∈ ss.flatMap Stmt.declared := by
  induction h with
  | cons hfirst hothers ihFirst ihOthers =>
      obtain ⟨new, hnew, hdeclared⟩ := ihFirst
      obtain ⟨newer, hnewer, hdeclared'⟩ := ihOthers
      refine ⟨newer ++ new, by rw [hnewer, hnew, List.append_assoc], ?_⟩
      intro name hname
      rw [List.map_append] at hname
      rw [← List.singleton_append, List.flatMap_append]
      rcases List.mem_append.mp hname with hname | hname
      · exact List.mem_append_right _ (hdeclared' name hname)
      · exact List.mem_append_left _ (hdeclared name hname)
  | varDecl hinit => exact ⟨[_], rfl, fun name hname => hname⟩
  | arrayFilled fs f hlength => exact ⟨[_], rfl, fun name hname => hname⟩
  | arrayListed hlength hvalues => exact ⟨[_], rfl, fun name hname => hname⟩
  | _ => exact ⟨[], rfl, fun name hname => by cases hname⟩

/-- How an assignment alone is laid out. -/
theorem Laid.of_assign {fs : List Frame} {f g : Frame} {ss : List Stmt} {a : Assignment}
    {code : List Instruction} (h : Laid fs f ss code g) (hss : ss = [.assign a]) :
    ∃ value slot depth, ExprCode (findIn (f :: fs)) a.value value ∧
      findIn (f :: fs) a.name = .ok (.scalar slot, depth) ∧
      code = value ++ [.pushNat slot, .pushNat depth, .plain .st] := by
  induction h with
  | cons hfirst hothers ihFirst ihOthers =>
      cases hss
      cases hothers
      rw [List.append_nil]
      exact ihFirst rfl
  | assign hvalue hfind =>
      cases hss
      exact ⟨_, _, _, hvalue, hfind, rfl⟩
  | outputArray hs hfind =>
      cases hss
      cases hs
  | output hs hvalue =>
      cases hss
      cases hs
  | operation hs hvalues =>
      cases hss
      cases hs
  | loop hs hinit htest hbody hstep =>
      cases hss
      cases hs
  | _ => cases hss

/-! ## All statements -/

section

variable {host : Host} {fuel : Nat}

theorem Stmt.execList_one (stmt : Stmt) :
    Stmt.execList host fuel [stmt] = stmt.exec host fuel := by
  rw [Stmt.execList, Stmt.execList]
  exact funext fun s => bind_pure _

theorem Stmt.listPlain_one {stmt : Stmt} : Stmt.listPlain [stmt] = stmt.isPlain := by
  rw [Stmt.listPlain, Stmt.listPlain, Bool.and_true]

/-- A loop is run by its parts. -/
theorem Stmt.exec_of_loop? {stmt : Stmt} {l : LoopParts} (hs : stmt.loop? = some l) :
    stmt.exec host fuel =
      State.runLoop host fuel l.init l.test l.step (Stmt.execList host fuel l.body) := by
  cases stmt with
  | whileLoop test body =>
      cases hs
      rw [Stmt.exec]
  | forLoop init test step body =>
      cases hs
      rw [Stmt.exec]
  | _ => contradiction

theorem Stmt.isPlain_of_loop? {stmt : Stmt} {l : LoopParts} (hs : stmt.loop? = some l)
    (hplain : stmt.isPlain = true) :
    Stmt.listPlain l.start = true ∧ l.test.isPlain = true ∧
      (∀ a ∈ l.step, a.isPlainAfter l.body = true) ∧ Stmt.listPlain l.body = true := by
  cases stmt with
  | whileLoop test body =>
      cases hs
      rw [Stmt.isPlain, Bool.and_eq_true] at hplain
      exact ⟨by simp [LoopParts.start, Stmt.listPlain], hplain.1, by simp, hplain.2⟩
  | forLoop init test step body =>
      cases hs
      simp only [Stmt.isPlain, Bool.and_eq_true] at hplain
      obtain ⟨⟨⟨hinit, htest⟩, hstep⟩, hbody⟩ := hplain
      refine ⟨?_, htest, ?_, hbody⟩
      · cases init with
        | none => simp [LoopParts.start, Stmt.listPlain]
        | some decl => simpa [LoopParts.start, Stmt.listPlain, Stmt.isPlain] using hinit
      · intro a ha
        cases ha
        exact hstep
  | _ => contradiction

theorem Stmt.listWritesComputed_one {stmt : Stmt} :
    Stmt.listWritesComputed [stmt] = stmt.writesComputed := by
  rw [Stmt.listWritesComputed, Stmt.listWritesComputed, Bool.or_false]

theorem Stmt.writesComputed_of_loop? {stmt : Stmt} {l : LoopParts} (hs : stmt.loop? = some l) :
    stmt.writesComputed = Stmt.listWritesComputed l.body := by
  cases stmt with
  | whileLoop test body =>
      cases hs
      rw [Stmt.writesComputed]
  | forLoop init test step body =>
      cases hs
      rw [Stmt.writesComputed]
  | _ => contradiction

theorem LoopParts.listWritesComputed_start (l : LoopParts) :
    Stmt.listWritesComputed l.start = false := by
  rw [LoopParts.start]
  cases l.init with
  | none => rfl
  | some decl => rfl

theorem LoopParts.execList_start (l : LoopParts) :
    Stmt.execList host fuel l.start = State.optional (State.runVarDecl host) l.init := by
  rw [LoopParts.start]
  cases l.init with
  | none =>
      rw [Option.toList, List.map_nil, Stmt.execList]
      rfl
  | some decl =>
      rw [Option.toList, List.map_cons, List.map_nil, Stmt.execList_one, Stmt.exec]
      rfl

/-- An operation is run by its opcode and operands. -/
theorem Stmt.exec_of_operation? {stmt : Stmt} {es : List Expr} {op : Opcode}
    (hs : stmt.operation? = some (es, op)) :
    stmt.exec host fuel = State.runOperation host op es ∧ op.operands? = some es.length ∧
      (stmt.isPlain = true → es.all Expr.isPlain = true) := by
  cases stmt with
  | delay duration =>
      cases hs
      refine ⟨by rw [Stmt.exec], rfl, fun hplain => ?_⟩
      rw [Stmt.isPlain] at hplain
      simpa using hplain
  | write x y color =>
      cases hs
      refine ⟨by rw [Stmt.exec], rfl, fun hplain => ?_⟩
      rwa [Stmt.isPlain] at hplain
  | writeBox x y width height color =>
      cases hs
      refine ⟨by rw [Stmt.exec], rfl, fun hplain => ?_⟩
      rwa [Stmt.isPlain] at hplain
  | _ => contradiction

/-- The step of a loop, which mentions nothing that the body declares. -/
theorem simulates_step {fs : List Frame} {g h k : Frame} {room : Nat} {l : LoopParts}
    {code stepCode : List Instruction} (hbody : Laid fs g l.body code h)
    (hstep : Laid fs h l.advance stepCode k) (hplain : ∀ a ∈ l.step, a.isPlainAfter l.body = true) :
    Simulates host fuel fs g g room stepCode (State.optional (State.runAssign host) l.step) := by
  rw [LoopParts.advance] at hstep
  cases hstepPart : l.step with
  | none =>
      rw [hstepPart] at hstep
      cases hstep
      exact .nil
  | some a =>
      rw [hstepPart] at hstep
      obtain ⟨value, slot, depth, hvalue, hfind, rfl⟩ := hstep.of_assign rfl
      have hafter := hplain a hstepPart
      rw [Assignment.isPlainAfter, Bool.and_eq_true, List.all_eq_true] at hafter
      obtain ⟨new, hnew, hdeclared⟩ := hbody.declares
      have hsame : ∀ name ∈ a.name :: a.value.mentions,
          findIn (g :: fs) name = findIn (h :: fs) name := by
        intro name hname
        refine (findIn_of_new hnew fun hmem => ?_).symm
        have hfree := hafter.2 name hname
        simp [hdeclared name hmem] at hfree
      have hvalue' := hvalue.congr hafter.1 fun name hname =>
        hsame name (List.mem_cons_of_mem _ hname)
      exact simulates_assign hafter.1 hvalue' ((hsame a.name List.mem_cons_self).trans hfind)

/-- The code of plain statements does what they do. -/
theorem Laid.runs {fs : List Frame} {f g : Frame} {ss : List Stmt} {code : List Instruction}
    {room : Nat} (hadds : Stmt.listWritesComputed ss = true → host.Adds)
    (hlaid : Laid fs f ss code g) (hplain : Stmt.listPlain ss = true) (hfit : ScopesFit ss)
    (hroom : g.used ≤ room) :
    Simulates host fuel fs f g room code (Stmt.execList host fuel ss) := by
  induction hlaid generalizing room with
  | nil fs f =>
      rw [Stmt.execList]
      exact .nil
  | cons hfirst hothers ihFirst ihOthers =>
      rw [Stmt.listPlain, Bool.and_eq_true] at hplain
      obtain ⟨hfitFirst, hfitOthers⟩ := scopesFit_cons.mp hfit
      have hused := hothers.used
      rw [Stmt.listWritesComputed, Bool.or_eq_true] at hadds
      have hone := ihFirst (fun h => hadds (.inl (Stmt.listWritesComputed_one.symm.trans h)))
        (Stmt.listPlain_one.trans hplain.1) (scopesFit_one.mpr hfitFirst)
        (Nat.le_trans (by omega) hroom)
      rw [Stmt.execList_one] at hone
      rw [Stmt.execList]
      exact hone.seq (ihOthers (fun h => hadds (.inr h)) hplain.2 hfitOthers hroom)
  | @varDecl fs f init decl hinit =>
      rw [Stmt.listPlain_one, Stmt.isPlain] at hplain
      rw [Stmt.execList_one, Stmt.exec]
      exact simulates_varDecl hplain hinit hroom
  | @assign fs f value slot depth a hvalue hfind =>
      rw [Stmt.listPlain_one, Stmt.isPlain] at hplain
      rw [Stmt.execList_one, Stmt.exec]
      exact simulates_assign hplain hvalue hfind
  | @arrayFilled name ty size length fs f hlength =>
      rw [Stmt.execList_one, Stmt.exec]
      exact simulates_arrayFilled ty hlength hroom
  | @arrayListed fs f name ty size es values hlength hvalues =>
      rw [Stmt.listPlain_one, Stmt.isPlain] at hplain
      rw [Stmt.execList_one, Stmt.exec]
      exact simulates_arrayListed ty hlength hplain hvalues hroom
  | @setElement fs f name index value i offset base length depth code hvalue hfind hindex hoffset =>
      rw [Stmt.listPlain_one, Stmt.isPlain, Bool.and_eq_true] at hplain
      rw [Stmt.execList_one, Stmt.exec]
      exact simulates_setElement hplain.2 hvalue hfind hindex hoffset
  | @setComputed fs f name index value base length depth code slot hvalue hfind hlit hindex =>
      rw [Stmt.listPlain_one, Stmt.isPlain, Bool.and_eq_true] at hplain
      rw [Stmt.execList_one, Stmt.exec]
      rw [Stmt.listWritesComputed_one, Stmt.writesComputed, hlit] at hadds
      exact simulates_setComputed (hadds rfl) hplain.2 hplain.1 hvalue hfind hindex
  | @outputArray fs f stmt name op arrayOp base length depth hs hfind =>
      rw [Stmt.listPlain_one] at hplain
      cases stmt with
      | print value =>
          cases hs
          rw [Stmt.execList_one, Stmt.exec]
          exact simulates_printArray hfind
      | ret value => rw [Stmt.isPlain] at hplain; cases hplain
      | _ => contradiction
  | @output fs f stmt e op arrayOp value hs hvalue =>
      rw [Stmt.listPlain_one] at hplain
      cases stmt with
      | print value =>
          cases hs
          rw [Stmt.isPlain] at hplain
          rw [Stmt.execList_one, Stmt.exec]
          exact simulates_print hplain hvalue
      | ret value => rw [Stmt.isPlain] at hplain; cases hplain
      | _ => contradiction
  | operation hs hvalues =>
      obtain ⟨hexec, hop, hoperands⟩ := Stmt.exec_of_operation? hs
      rw [Stmt.execList_one, hexec]
      exact simulates_operation hop (hoperands (Stmt.listPlain_one.symm.trans hplain)) hvalues
  | @block fs f g body code hbody ih =>
      rw [Stmt.listPlain_one, Stmt.isPlain] at hplain
      obtain ⟨hsize, hinside⟩ := hfit.frame (by rw [Stmt.scopeTotals]) hbody
      rw [Stmt.listWritesComputed_one, Stmt.writesComputed] at hadds
      rw [Stmt.execList_one, Stmt.exec]
      exact (ih hadds hplain hinside (Nat.le_refl g.used)).inFrame hsize
  | @conditional fs f g test body testCode code htest hbody ih =>
      rw [Stmt.listPlain_one, Stmt.isPlain, Bool.and_eq_true] at hplain
      obtain ⟨hsize, hinside⟩ := hfit.frame (by rw [Stmt.scopeTotals]) hbody
      rw [Stmt.listWritesComputed_one, Stmt.writesComputed] at hadds
      rw [Stmt.execList_one, Stmt.exec]
      exact simulates_conditional hsize hplain.1 htest
        (ih hadds hplain.2 hinside (Nat.le_refl g.used))
  | @alternative fs f g h test body otherwise testCode code elseCode htest hbody hotherwise ihBody
      ihElse =>
      simp only [Stmt.listPlain_one, Stmt.isPlain, Bool.and_eq_true] at hplain
      obtain ⟨⟨hplainTest, hplainBody⟩, hplainElse⟩ := hplain
      obtain ⟨hsize, hinside, hinside'⟩ := hfit.alternative hbody hotherwise
      rw [Stmt.listWritesComputed_one, Stmt.writesComputed, Bool.or_eq_true] at hadds
      rw [Stmt.execList_one, Stmt.exec]
      exact simulates_alternative hsize hplainTest htest
        (ihBody (fun h => hadds (.inl h)) hplainBody hinside (Nat.le_max_left g.used h.used))
        (ihElse (fun h => hadds (.inr h)) hplainElse hinside' (Nat.le_max_right g.used h.used))
  | @loop fs f g h k stmt initCode testCode code stepCode l hs hinit htest hbody hstep ihInit ihBody
      ihStep =>
      obtain ⟨hplainInit, hplainTest, hplainStep, hplainBody⟩ :=
        Stmt.isPlain_of_loop? hs (Stmt.listPlain_one.symm.trans hplain)
      obtain ⟨hsize, hinside⟩ := hfit.loop hs hinit hbody hstep
      have husedBody := hbody.used
      have husedStep := hstep.used
      obtain ⟨new, hnew⟩ := hbody.names
      rw [Stmt.listWritesComputed_one, Stmt.writesComputed_of_loop? hs] at hadds
      have hstart := ihInit (by simp [l.listWritesComputed_start]) hplainInit (by simp [ScopesFit])
        (by omega : g.used ≤ k.used)
      rw [LoopParts.execList_start] at hstart
      rw [Stmt.execList_one, Stmt.exec_of_loop? hs]
      exact simulates_loop hsize hplainTest hstart htest
        (ihBody hadds hplainBody hinside (by omega)) hnew (simulates_step hbody hstep hplainStep)

end

/-! ## Programs -/

/-- A plain program declares no functions, so all its items are statements that run. -/
theorem Program.functions_of_isPlain {p : Program} (hplain : p.isPlain = true) :
    p.functions = [] ∧ p.statements = p.items := by
  rw [functions, statements]
  rw [isPlain] at hplain
  generalize p.items = items at hplain
  induction items with
  | nil => exact ⟨rfl, rfl⟩
  | cons s items ih =>
      rw [Stmt.listPlain, Bool.and_eq_true] at hplain
      obtain ⟨hfunctions, hstatements⟩ := ih hplain.2
      have hnone : s.function? = none := by
        cases s with
        | function name params result body =>
            rw [Stmt.isPlain] at hplain
            cases hplain.1
        | _ => rfl
      exact ⟨by rw [List.filterMap_cons, hnone, hfunctions],
        by rw [List.filter_cons, hnone, hstatements]; rfl⟩

/-- The code that clears the pad does so. -/
theorem clearing_goes {host : Host} {block : List Instruction} {m : Machine} (config : Config)
    (hat : CodeAt block m.pc config.clearing) (hlog : m.log = {}) :
    Goes host block 0 m (m.onward config.clearing.length m.frames config.start.log) := by
  obtain ⟨pc, stack, frames, log⟩ := m
  subst hlog
  rw [Config.clearing] at hat ⊢
  rw [Config.start]
  cases hcolor : config.clearColor with
  | none => exact .refl _
  | some color =>
      rw [hcolor] at hat
      have hpushed : Goes host block 0 _ _ := (Goes.refl _).last hat rfl
      have hcount : Opcode.clear.operands? = some [Value.color color].length := rfl
      exact hpushed.last hat.tail (execute_operation hcount rfl)

/-- The code of the statements, from the start to the `halt`. -/
theorem MainCode.runs {host : Host} {config : Config} {ss : List Stmt} {code : List Instruction}
    (hadds : Stmt.listWritesComputed ss = true → host.Adds) (hcode : MainCode config {} ss code)
    (hplain : Stmt.listPlain ss = true)
    (hfit : ∀ n ∈ Stmt.listSlots ss :: Stmt.listTotals ss, (n : Int) < signedLimit)
    (hlen : (code.length : Int) < signedLimit) (fuel : Nat) :
    Sound (Lingers host code fuel {}) (Stmt.execList host fuel ss config.start) fun s =>
      ∃ pc, Goes host code 0 {} ⟨pc, [], [], s.log⟩ ∧ code[pc]? = some (.plain .halt) := by
  cases hcode with
  | @mk body g hbody =>
      have hused : g.used = Stmt.listSlots ss := by simp [hbody.used]
      have hsize : (g.used : Int) < signedLimit := by
        rw [hused]
        exact hfit _ List.mem_cons_self
      let block := framed g.used (config.clearing ++ body) ++ [.plain .halt]
      have hwhole : CodeAt block 0 block := ⟨[], [], by simp, rfl⟩
      have hstart : Ready block [] 0 (framed g.used (config.clearing ++ body)) {} [] :=
        { fits := hlen
          stored := .nil
          deep := Nat.le_refl 0
          room := Nat.le_refl 0
          code := hwhole.left }
      let m1 : Machine := Machine.opened {} host g.used
      obtain ⟨hopen, hready⟩ : Goes host block 0 {} m1 ∧ _ := hstart.opened hsize
      let m2 : Machine := m1.onward config.clearing.length m1.frames config.start.log
      have hclear : Goes host block 0 m1 m2 := clearing_goes config hready.code.left.left rfl
      have hready' : Ready block [{}] g.used body m2 [] :=
        hready.onward hready.stored rfl config.start.log hready.code.left.right
      have hstate : (⟨[], config.start.log⟩ : State) = config.start := by
        rw [Config.start]
        cases config.clearColor <;> rfl
      have hsim : Simulates host fuel [] {} g g.used body (Stmt.execList host fuel ss) :=
        hbody.runs hadds hplain (fun n hn => hfit n (List.mem_cons_of_mem _ hn)) (Nat.le_refl _)
      have hruns := hsim block m2 [] hready'
      rw [← hstate]
      refine hruns.imp (fun events hlate => ?_) ?_
      · simpa using hlate.after (hopen.trans hclear)
      · rintro s ⟨frames, hgo, hstored, -⟩
        obtain ⟨cells, rfl⟩ := List.length_eq_one_iff.mp hstored.frames_length
        have hpc : m2.pc + body.length = m1.pc + (config.clearing ++ body).length := by
          simp only [m2, Machine.onward_pc, List.length_append]
          omega
        have hend : m2.pc + body.length + 1 =
            0 + (framed g.used (config.clearing ++ body)).length := by
          simp only [hpc, m1, Machine.opened, framed, List.length_append, List.length_cons,
            List.length_nil]
          omega
        refine ⟨m2.pc + body.length + 1, ?_, hend ▸ hwhole.right.head⟩
        exact ((hopen.trans hclear).trans hgo).last (hready.code.right.moved hpc)
          (execute_cframe rfl)

/-- The machine does what the program does.  Run directly, an accepted plain program does not go
wrong; if it ends, the machine halts after the same prints, writes, delays and clears; and if its
loops use up their fuel, the machine has gone on for as many steps and has done the same so far.
Only a computed index that is out of bounds leaves it open what the machine does.

What the operators do is left open, too, unless an element is written at a computed index: its slot
is added up by the host.  The block is held in memory, so its length is a signed word. -/
theorem compile_preserves_meaning {host : Host} {config : Config} {p : Program} {image : Image}
    (hadds : p.writesComputed = true → host.Adds) (hcompile : compile config p = .ok image)
    (hplain : p.isPlain = true) (hslots : ∀ n ∈ p.slotTotals, (n : Int) < signedLimit)
    (hlen : ∀ b ∈ image.blocks, (b.code.length : Int) < signedLimit) :
    ∃ main, image.blocks = [main] ∧ main.label = Text.lower mainLabel ∧ ∀ fuel,
      p.evaluate host config fuel ≠ .error .wrong ∧
      (∀ s, p.evaluate host config fuel = .ok s → ∃ n m,
        Machine.run host main.code n {} = some m ∧ main.code[m.pc]? = some (.plain .halt) ∧
          m.log.events = s.log.events) ∧
      ∀ events, p.evaluate host config fuel = .error (.outOfFuel events) → ∃ n m,
        fuel ≤ n ∧ Machine.run host main.code n {} = some m ∧ m.log.events = events := by
  obtain ⟨hfunctions, hstatements⟩ := Program.functions_of_isPlain hplain
  obtain ⟨hcompiled, -⟩ := compiled_of_compile hcompile
  generalize image.blocks = blocks at hcompiled hlen
  cases hcompiled with
  | @mk blocks code hblocks hmain =>
      rw [hfunctions] at hblocks
      cases hblocks
      refine ⟨⟨Text.lower mainLabel, code⟩, rfl, rfl, fun fuel => ?_⟩
      rw [Program.topFrame, hfunctions] at hmain
      have hlength : (code.length : Int) < signedLimit :=
        hlen ⟨Text.lower mainLabel, code⟩ (by simp)
      have hcomputed : Stmt.listWritesComputed p.statements = true → host.Adds := by
        rw [hstatements]
        exact hadds
      have hruns := hmain.runs hcomputed (hstatements ▸ hplain)
        (fun n hn => hslots n (Program.slotTotals_statements hn)) hlength fuel
      rw [Program.evaluate]
      generalize Stmt.execList host fuel p.statements config.start = result at hruns
      refine ⟨?_, ?_, ?_⟩
      · rintro rfl
        exact hruns
      · rintro s rfl
        obtain ⟨pc, ⟨n, -, hrun⟩, hhalt⟩ := hruns
        exact ⟨n, _, hrun, hhalt, rfl⟩
      · rintro events rfl
        obtain ⟨m, ⟨n, hn, hrun⟩, hevents⟩ := hruns
        exact ⟨n, m, hn, hrun, hevents⟩

/-- A host for integers and truth values, with draws that go up by seven and a pad of four by
five. -/
def Host.small : Host where
  apply
    | .add, .int a, .int b => .int (a + b)
    | .lt, .int a, .int b => .bool (decide (a < b))
    | .eq, .int a, .bool b => .bool (decide (a = if b then 1 else 0))
    | _, a, _ => a
  jumps v := decide (v = .bool true)
  draw
    | n, .int bound => .int (Int64.ofNat (n * 7 % bound.toInt.toNat))
    | _, bound => bound
  width := .int 4
  height := .int 5
  blank := .int 0

/-- The loop of the demo, and one that fills an array, at indices that are computed. -/
def Demo.painting : Program where
  items := [
    paint,
    .arrayDecl "row" .int (.int 3) [],
    .forLoop (some ⟨"i", .int, .int 0⟩)
      (.binary .lt (.ident "i") (.int 3))
      (some ⟨"i", .binary .add (.ident "i") (.int 1)⟩)
      [.arrayAssign "row" (.ident "i") (.binary .add (.ident "i") (.ident "i"))],
    .print (.ident "row")]

/-- The first loop writes three pixels, at the heights that are drawn; the array that the second one
has filled is printed, and the machine halts after it. -/
theorem compile_paint_preserves_meaning :
    Host.small.Adds ∧ Demo.painting.writesComputed = true ∧ Demo.painting.isPlain = true ∧
      (∀ n ∈ Demo.painting.slotTotals, (n : Int) < signedLimit) ∧
      ∃ image main n m, compile {} Demo.painting = .ok image ∧ image.blocks = [main] ∧
        (main.code.length : Int) < signedLimit ∧
        Machine.run Host.small main.code n {} = some m ∧
        main.code[m.pc]? = some (.plain .halt) ∧
        m.log.events = [⟨.clear, [.color "#ffffff"]⟩,
          ⟨.write, [.int 0, .int 0, .color "#ff0000"]⟩,
          ⟨.write, [.int 1, .int 2, .color "#ff0000"]⟩,
          ⟨.write, [.int 2, .int 4, .color "#ff0000"]⟩, ⟨.printA, [.int 0, .int 2, .int 4]⟩] := by
  have hadds : Host.small.Adds := fun a b _ _ _ => rfl
  have hcomputed : Demo.painting.writesComputed = true := by decide
  have hplain : Demo.painting.isPlain = true := by decide
  have hslots : ∀ n ∈ Demo.painting.slotTotals, (n : Int) < signedLimit := by decide
  have hbound : (Demo.painting.codeBound : Int) < signedLimit := by decide
  have haccepted : (compile {} Demo.painting).toOption.isSome = true := by decide +kernel
  have hevents : (Demo.painting.evaluate Host.small {} 4).toOption.map (·.log.events) =
      some [⟨.clear, [.color "#ffffff"]⟩, ⟨.write, [.int 0, .int 0, .color "#ff0000"]⟩,
        ⟨.write, [.int 1, .int 2, .color "#ff0000"]⟩,
        ⟨.write, [.int 2, .int 4, .color "#ff0000"]⟩,
        ⟨.printA, [.int 0, .int 2, .int 4]⟩] := by decide +kernel
  cases hcompile : compile {} Demo.painting with
  | error e =>
      rw [hcompile] at haccepted
      cases haccepted
  | ok image =>
      have hlen : ∀ b ∈ image.blocks, (b.code.length : Int) < signedLimit := fun b hb => by
        have hle := (compiled_of_compile hcompile).2 b hb
        omega
      obtain ⟨main, hblocks, -, hall⟩ :=
        compile_preserves_meaning (fun _ => hadds) hcompile hplain hslots hlen
      cases heval : Demo.painting.evaluate Host.small {} 4 with
      | error stop =>
          rw [heval] at hevents
          cases hevents
      | ok s =>
          rw [heval] at hevents
          obtain ⟨n, m, hrun, hhalt, hsame⟩ := (hall 4).2.1 s heval
          exact ⟨hadds, hcomputed, hplain, hslots, image, main, n, m, rfl, hblocks,
            hlen main (hblocks ▸ List.mem_cons_self), hrun, hhalt,
            hsame.trans (Option.some.inj hevents)⟩

end PadCompiler
