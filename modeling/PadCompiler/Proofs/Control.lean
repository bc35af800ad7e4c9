import PadCompiler.Proofs.Statements

/-!
# PadCompiler.Proofs.Control

The code of a statement does what the statement does if the code of the statements inside
does what they do.

* `Simulates.inFrame` — a block;
* `simulates_conditional`, `simulates_alternative` — a conditional, whose branches share one
  frame;
* `simulates_loop` — a loop, by induction on how many turns are left.
-/

namespace PadCompiler

section

variable {host : Host} {block : List Instruction} {fuel : Nat} {fs : List Frame} {f g h : Frame}
  {room : Nat} {code others : List Instruction} {exec next : State → Except Stop State}
  {m : Machine} {env : Env}

/-! ## Frames and tests -/

/-- The machine in a new frame. -/
def Machine.opened (m : Machine) (host : Host) (size : Nat) : Machine :=
  { m with pc := m.pc + 2, frames := List.replicate size host.blank :: m.frames }

theorem sizes_opened (m : Machine) (host : Host) (size : Nat) :
    sizes (m.opened host size).frames = size :: sizes m.frames := by
  simp [Machine.opened, sizes]

/-- Opening a frame. -/
theorem Ready.opened {size : Nat} (hsize : (size : Int) < signedLimit)
    (hready : Ready block fs room (.pushNat size :: .plain .oframe :: code) m env) :
    Goes host block 0 m (m.opened host size) ∧
      Ready block ({} :: fs) size code (m.opened host size) env := by
  refine ⟨goes_open hready.code hsize, ?_⟩
  exact {
    fits := hready.fits
    stored := hready.stored.enter hsize host.blank
    deep := by
      have hdeep := hready.deep
      simp only [Machine.opened, List.length_cons]
      omega
    room := Nat.le_of_eq (by rw [sizes_opened, List.headD_cons])
    code := hready.code.tail.tail }

/-- Closing the frame that was opened on the way. -/
theorem Arrives.close {mi : Machine} {length inside size : Nat} {s : State}
    (hgo : Goes host block 0 m mi) (hstack : mi.stack = m.stack)
    (hsizes : sizes mi.frames = size :: sizes m.frames)
    (h : Arrives host block mi inside ({} :: fs) s)
    (hat : CodeAt block (mi.pc + inside) [.plain .cframe])
    (hpc : mi.pc + inside + 1 = m.pc + length) : Arrives host block m length fs s := by
  obtain ⟨frames, hgo', hstored, hsizes'⟩ := h
  obtain ⟨cells, outer, rfl, houter⟩ := hstored.leave
  have hclosed := (hgo.trans hgo').last hat (execute_cframe rfl)
  have hmachine : { (mi.onward inside (cells :: outer) s.log).next
      (mi.onward inside (cells :: outer) s.log).stack with frames := outer } =
        m.onward length outer s.log := by
    simp [Machine.onward, Machine.next, hstack, hpc]
  rw [hmachine] at hclosed
  have htail := congrArg List.tail (hsizes'.trans hsizes)
  exact ⟨outer, hclosed, houter, htail⟩

/-- Code in a frame of its own runs in a scope of its own. -/
theorem Simulates.inFrame {size : Nat} (hsize : (size : Int) < signedLimit)
    (hexec : Simulates host fuel (f :: fs) {} g size code exec) :
    Simulates host fuel fs f f room (framed size code) (State.inScope exec) := by
  intro block m env hready
  obtain ⟨hopen, hready'⟩ : Goes host block 0 m (m.opened host size) ∧ _ := hready.opened hsize
  have hbody : Ready block ({} :: f :: fs) size code (m.opened host size) env :=
    { hready' with code := hready'.code.left }
  have hscope := hexec.inScope (List.append_nil g.names).symm
  refine (hscope block _ env hbody).imp (fun events hlate => ?_) fun s hs => ?_
  · simpa using hlate.after hopen
  · refine hs.close hopen rfl (sizes_opened m host size) hready'.code.right ?_
    simp only [Machine.opened, framed, List.length_cons, List.length_append, List.length_nil]
    omega

/-- The code of a test leaves the value that a jump depends on. -/
theorem Ready.test {test : Expr} {testCode : List Instruction} (hplain : test.isPlain = true)
    (htest : ExprCode (findIn fs) test testCode)
    (hready : Ready block fs room (negated testCode ++ others) m env) :
    Sound (Lingers host block fuel m) (State.runTest host test ⟨env, m.log⟩) fun r =>
      ∃ v drawn, r = (!host.jumps v, ⟨env, m.log.drew drawn⟩) ∧
        Goes host block 1 m (m.pass (negated testCode).length [v] drawn) := by
  have hcode := hready.code.left
  have hready' : Ready block fs room (negated testCode) m env := { hready with code := hcode }
  refine .bind (hready'.compute (htest.runs hplain)) ?_
  rintro ⟨value, drawn⟩ hgo
  refine ⟨host.apply .eq (.int 0) value, drawn, rfl, ?_⟩
  have hzero : Goes host block 0 m _ := hgo.last hcode.right rfl
  have heq := hzero.trans (.one hcode.right.tail rfl)
  rw [negated, List.length_append]
  exact heq

/-! ## Conditionals -/

/-- The machine in the new frame of a conditional, past some of the code in it. -/
def Machine.inside (m : Machine) (host : Host) (size length : Nat) (log : Log) : Machine :=
  { m with
    pc := m.pc + 3 + length
    frames := List.replicate size host.blank :: m.frames
    log }

theorem sizes_inside (m : Machine) (host : Host) (size length : Nat) (log : Log) :
    sizes (m.inside host size length log).frames = size :: sizes m.frames := by
  simp [Machine.inside, sizes]

/-- A test in a new frame: a false one leads as far as the target under it says. -/
theorem Ready.choose {test : Expr} {testCode rest : List Instruction} {size skip : Nat}
    (hsize : (size : Int) < signedLimit) (hplain : test.isPlain = true)
    (htest : ExprCode (findIn ({} :: fs)) test testCode)
    (hready : Ready block fs room
      (jumpBy (skip + 3) :: framed size (negated testCode ++ .plain .cjmp :: rest)) m env)
    (hskip : skip ≤ (negated testCode ++ .plain .cjmp :: rest).length) :
    Sound (Lingers host block fuel m) (State.runTest host test ⟨env, m.log⟩) fun r =>
      ∃ v drawn, r = (!host.jumps v, ⟨env, m.log.drew drawn⟩) ∧
        Goes host block 0 m (m.inside host size
          (if host.jumps v then skip else (negated testCode).length + 1)
          (m.log.drew drawn)) := by
  let m1 : Machine := m.next (.target (m.pc + (skip + 3)) :: m.stack)
  have hle := hready.code.length_le
  have hfits := hready.fits
  rw [framed, List.length_cons, List.length_cons, List.length_cons, List.length_append,
    List.length_singleton] at hle
  have hpushed : Goes host block 0 m m1 :=
    (Goes.refl m).last hready.code (execute_jumpBy (by simp only [signedLimit]; omega) (by omega))
  have hready1 : Ready block fs room
      (.pushNat size :: .plain .oframe ::
        ((negated testCode ++ .plain .cjmp :: rest) ++ [.plain .cframe])) m1 env :=
    { fits := hready.fits
      stored := hready.stored
      deep := Nat.le_trans hready.deep (Nat.le_add_right m.pc 1)
      room := hready.room
      code := hready.code.tail }
  obtain ⟨hopen, hready2⟩ : Goes host block 0 m1 (m1.opened host size) ∧ _ := hready1.opened hsize
  have hready3 : Ready block ({} :: fs) size (negated testCode ++ .plain .cjmp :: rest)
      (m1.opened host size) env := { hready2 with code := hready2.code.left }
  have hruns : Sound (Lingers host block fuel (m1.opened host size))
    (State.runTest host test ⟨env, m.log⟩) _ := hready3.test hplain htest
  refine hruns.imp (fun events hlate => ?_) ?_
  · simpa using hlate.after (hpushed.trans hopen)
  · rintro r ⟨v, drawn, hr, hgo⟩
    refine ⟨v, drawn, hr, ?_⟩
    let m2 : Machine := (m1.opened host size).pass (negated testCode).length [v] drawn
    have htested : Goes host block 0 m m2 :=
      ((hpushed.trans hopen).trans hgo).mono (Nat.zero_le _)
    have hcjmp : m2.execute host (.plain .cjmp) =
        m2.jumpIf host v (m.pc + (skip + 3)) m.stack := execute_cjmp (.inl rfl)
    have htarget : (m.pc + (skip + 3) : Int) = (m.pc + 3 + skip : Nat) := by omega
    cases hjumps : host.jumps v with
    | true =>
        rw [jumpIf_pos hjumps htarget] at hcjmp
        exact htested.last hready3.code.right hcjmp
    | false =>
        rw [jumpIf_neg hjumps] at hcjmp
        exact htested.last hready3.code.right hcjmp

/-- Where a branch starts. -/
theorem Ready.inside {size length : Nat} (hready : Ready block fs room code m env)
    (hsize : (size : Int) < signedLimit) (log : Log)
    (hcode : CodeAt block (m.pc + 3 + length) others) :
    Ready block ({} :: fs) size others (m.inside host size length log) env where
  fits := hready.fits
  stored := hready.stored.enter hsize host.blank
  deep := by
    have hdeep := hready.deep
    simp only [Machine.inside, List.length_cons]
    omega
  room := Nat.le_of_eq (by rw [sizes_inside, List.headD_cons])
  code := hcode

/-- A jump to another place. -/
theorem Arrives.jump {length : Nat} {distance : Int} {s : State} {rest : List Instruction}
    (h : Arrives host block m length fs s) (hfits : (block.length : Int) < signedLimit)
    (hat : CodeAt block (m.pc + length) (jumpBy distance :: .plain .jmp :: rest)) {length' : Nat}
    (htarget : (length : Int) + distance = length') (hle : m.pc + length' ≤ block.length) :
    ∃ frames, Goes host block 1 m (m.onward length' frames s.log) ∧ Stored fs frames s.env ∧
      sizes frames = sizes m.frames := by
  obtain ⟨frames, hgo, hstored, hsizes⟩ := h
  have hhere := hat.length_le
  have hpushed := hgo.last hat (execute_jumpBy (by omega) (by omega))
  have hindex : ((m.pc + length : Nat) : Int) + distance = (m.pc + length' : Nat) := by omega
  have hjump := hpushed.trans (.one hat.tail (execute_jmp rfl hindex))
  exact ⟨frames, hjump, hstored, hsizes⟩

/-- A branch in the frame of a conditional, up to the end of its code. -/
theorem Simulates.branch {size length : Nat} {log : Log}
    (hexec : Simulates host fuel (f :: fs) {} g size code exec)
    (hsize : (size : Int) < signedLimit) (hready : Ready block (f :: fs) room others m env)
    (hgo : Goes host block 0 m (m.inside host size length log))
    (hcode : CodeAt block (m.pc + 3 + length) code) :
    Sound (Lingers host block fuel m) (State.inScope exec ⟨env, log⟩)
      (Arrives host block (m.inside host size length log) code.length ({} :: f :: fs)) := by
  have hscope := hexec.inScope (List.append_nil g.names).symm
  have hbranch := hscope block (m.inside host size length log) env (hready.inside hsize log hcode)
  refine hbranch.imp (fun events hlate => ?_) fun s hs => hs
  simpa using hlate.after hgo

/-- No branch at all. -/
theorem Ready.stay {size : Nat} (hready : Ready block fs room code m env)
    (hsize : (size : Int) < signedLimit) (length : Nat) (log : Log) :
    Arrives host block (m.inside host size length log) 0 ({} :: fs) ⟨env, log⟩ :=
  ⟨_, .refl _, hready.stored.enter hsize host.blank, rfl⟩

theorem simulates_conditional {test : Expr} {testCode : List Instruction}
    (hsize : (g.used : Int) < signedLimit) (hplain : test.isPlain = true)
    (htest : ExprCode (findIn ({} :: f :: fs)) test testCode)
    (hexec : Simulates host fuel (f :: fs) {} g g.used code exec) :
    Simulates host fuel fs f f room (conditionalCode g.used testCode code)
      (State.runChoice host test (State.inScope exec) pure) := by
  intro block m env hready
  have hinside : CodeAt block (m.pc + 3)
      ((negated testCode ++ .plain .cjmp :: code) ++ [.plain .cframe]) := hready.code.tail.tail.tail
  refine .bind (hready.choose hsize hplain htest (Nat.le_refl _)) ?_
  rintro _ ⟨v, drawn, rfl, hgo⟩
  cases hjumps : host.jumps v with
  | true =>
      rw [hjumps, if_pos rfl] at hgo
      refine (hready.stay hsize _ _).close hgo rfl (sizes_inside ..) hinside.right ?_
      simp only [Machine.inside, conditionalCode, framed, List.length_cons, List.length_append,
        List.length_nil]
      omega
  | false =>
      rw [hjumps, if_neg (by decide)] at hgo
      have hcode := hinside.left.right.tail
      refine (hexec.branch hsize hready hgo hcode).imp (fun _ => id) fun s hs => ?_
      refine hs.close hgo rfl (sizes_inside ..) (hinside.right.moved ?_) ?_
      · simp only [Machine.inside, List.length_cons, List.length_append]
        omega
      · simp only [Machine.inside, conditionalCode, framed, List.length_cons, List.length_append,
          List.length_nil]
        omega

theorem simulates_alternative {test : Expr} {testCode : List Instruction} {size : Nat}
    (hsize : (size : Int) < signedLimit) (hplain : test.isPlain = true)
    (htest : ExprCode (findIn ({} :: f :: fs)) test testCode)
    (hexec : Simulates host fuel (f :: fs) {} g size code exec)
    (hnext : Simulates host fuel (f :: fs) {} h size others next) :
    Simulates host fuel fs f f room (alternativeCode size testCode code others)
      (State.runChoice host test (State.inScope exec) (State.inScope next)) := by
  intro block m env hready
  let skip : Nat := (negated testCode).length + 1 + code.length + 2
  let rest : List Instruction := code ++ jumpBy (others.length + 2) :: .plain .jmp :: others
  have hshape : alternativeCode size testCode code others =
      jumpBy (skip + 3) :: framed size (negated testCode ++ .plain .cjmp :: rest) := by
    have hskip : ((negated testCode ++ .plain .cjmp :: code).length + 5 : Int) = skip + 3 := by
      simp only [skip, List.length_append, List.length_cons]
      omega
    rw [alternativeCode, hskip, List.append_assoc, List.cons_append]
  rw [hshape] at hready ⊢
  have hinside : CodeAt block (m.pc + 3)
      ((negated testCode ++ .plain .cjmp :: rest) ++ [.plain .cframe]) := hready.code.tail.tail.tail
  have hrest : CodeAt block (m.pc + 3 + ((negated testCode).length + 1)) rest :=
    hinside.left.right.tail
  have hle := hready.code.length_le
  have hskip : skip ≤ (negated testCode ++ .plain .cjmp :: rest).length := by
    simp only [skip, rest, List.length_append, List.length_cons]
    omega
  refine .bind (hready.choose hsize hplain htest hskip) ?_
  rintro _ ⟨v, drawn, rfl, hgo⟩
  simp only [framed, rest, List.length_cons, List.length_append, List.length_nil] at hle ⊢
  cases hjumps : host.jumps v with
  | true =>
      rw [hjumps, if_pos rfl] at hgo
      have hcode : CodeAt block (m.pc + 3 + skip) others :=
        hrest.right.tail.tail.moved (by simp only [skip]; omega)
      refine (hnext.branch hsize hready hgo hcode).imp (fun _ => id) fun s hs => ?_
      refine hs.close hgo rfl (sizes_inside ..) (hinside.right.moved ?_) ?_
      · simp only [Machine.inside, skip, rest, List.length_cons, List.length_append]
        omega
      · simp only [Machine.inside, skip]
        omega
  | false =>
      rw [hjumps, if_neg (by decide)] at hgo
      refine (hexec.branch hsize hready hgo hrest.left).imp (fun _ => id) fun s hs => ?_
      have htarget : (code.length : Int) + (others.length + 2) =
          (code.length + 2 + others.length : Nat) := by omega
      obtain ⟨frames, hjump, hstored, hsizes⟩ := hs.jump hready.fits hrest.right htarget
        (by simp only [Machine.inside]; omega)
      have hend : Arrives host block _ (code.length + 2 + others.length) ({} :: f :: fs) s :=
        ⟨frames, hjump.mono (Nat.zero_le 1), hstored, hsizes⟩
      refine hend.close hgo rfl (sizes_inside ..) (hinside.right.moved ?_) ?_
      · simp only [Machine.inside, rest, List.length_cons, List.length_append]
        omega
      · simp only [Machine.inside]
        omega

/-! ## Loops -/

/-- The code of a loop from the test to the jump back. -/
def turnsCode (test turn : List Instruction) : List Instruction :=
  negated test ++ (jumpBy (turn.length + 4) :: .plain .cjmp :: turn) ++
    [jumpBy (-((negated test).length + turn.length + 2)), .plain .jmp]

theorem turnsCode_length (test turn : List Instruction) :
    (turnsCode test turn).length = (negated test).length + turn.length + 4 := by
  simp only [turnsCode, List.length_append, List.length_cons, List.length_nil]
  omega

theorem loopCode_eq (size : Nat) (init test body step : List Instruction) :
    loopCode size init test body step = framed size (init ++ turnsCode test (body ++ step)) := by
  rw [loopCode, turnsCode, ← List.append_assoc, ← List.append_assoc]

/-- The test of a loop: a false one leads past the jump back. -/
theorem Ready.again {test : Expr} {testCode turn : List Instruction} {n : Nat}
    (hplain : test.isPlain = true) (htest : ExprCode (findIn fs) test testCode)
    (hready : Ready block fs room (turnsCode testCode turn) m env) :
    Sound (Lingers host block n m) (State.runTest host test ⟨env, m.log⟩) fun r =>
      ∃ v drawn, r = (!host.jumps v, ⟨env, m.log.drew drawn⟩) ∧
        Goes host block 0 m (m.onward
          (if host.jumps v then (negated testCode).length + turn.length + 4
            else (negated testCode).length + 2) m.frames (m.log.drew drawn)) := by
  have hcode := hready.code.left
  have hle := hready.code.length_le
  have hfits := hready.fits
  rw [turnsCode_length] at hle
  have hready' : Ready block fs room
      (negated testCode ++ (jumpBy (turn.length + 4) :: .plain .cjmp :: turn)) m env :=
    { hready with code := hcode }
  have hruns : Sound (Lingers host block n m) (State.runTest host test ⟨env, m.log⟩) _ :=
    hready'.test hplain htest
  refine hruns.imp (fun _ => id) ?_
  rintro r ⟨v, drawn, hr, hgo⟩
  refine ⟨v, drawn, hr, ?_⟩
  let m1 : Machine := m.pass (negated testCode).length [v] drawn
  let m2 : Machine := m1.next (.target (m1.pc + (turn.length + 4)) :: m1.stack)
  have hpushed : Goes host block 0 m m2 := (hgo.mono (Nat.zero_le 1)).last hcode.right
    (execute_jumpBy (by simp only [signedLimit]; omega) (by omega))
  have hcjmp : m2.execute host (.plain .cjmp) =
      m2.jumpIf host v (m1.pc + (turn.length + 4)) m.stack := execute_cjmp (.inr rfl)
  have htarget : (m1.pc + (turn.length + 4) : Int) =
      (m.pc + ((negated testCode).length + turn.length + 4) : Nat) := by
    simp only [m1, Machine.pass_pc]
    omega
  cases hjumps : host.jumps v with
  | true =>
      rw [jumpIf_pos hjumps htarget] at hcjmp
      exact hpushed.last hcode.right.tail hcjmp
  | false =>
      rw [jumpIf_neg hjumps] at hcjmp
      exact hpushed.last hcode.right.tail hcjmp

/-- The turns of a loop, by induction on how many are left.  Every turn takes a step at least,
so a loop that uses up its fuel has gone on for as many steps. -/
theorem turns_sound {test : Expr} {testCode turn : List Instruction}
    (hplain : test.isPlain = true) (htest : ExprCode (findIn (g :: fs)) test testCode)
    (hexec : Simulates host fuel fs g g room turn exec) {n : Nat} (hn : n ≤ fuel)
    (hready : Ready block (g :: fs) room (turnsCode testCode turn) m env) :
    Sound (Lingers host block n m) (State.runTurns host test exec n ⟨env, m.log⟩)
      (Arrives host block m ((negated testCode).length + turn.length + 4) (g :: fs)) := by
  induction n generalizing m env with
  | zero => exact ⟨m, .refl m, rfl⟩
  | succ n ih =>
      rw [State.runTurns]
      refine .bind (hready.again hplain htest) ?_
      rintro _ ⟨v, drawn, rfl, hgo⟩
      cases hjumps : host.jumps v with
      | true =>
          rw [hjumps, if_pos rfl] at hgo
          exact ⟨m.frames, hgo, hready.stored, rfl⟩
      | false =>
          rw [hjumps, if_neg (by decide)] at hgo
          have hcode : CodeAt block (m.pc + ((negated testCode).length + 2)) turn :=
            hready.code.left.right.tail.tail
          have hturn := hexec block _ env (hready.onward hready.stored rfl (m.log.drew drawn) hcode)
          refine .bind (hturn.imp (fun events hlate => ?_) fun _ => id) fun t ht => ?_
          · exact (hlate.after hgo).mono (by omega)
          · have hdone : Arrives host block m ((negated testCode).length + 2 + turn.length)
                (g :: fs) t := .after hgo rfl ht
            have hpc : m.pc + ((negated testCode).length + 2 + turn.length) =
                m.pc + (negated testCode ++
                  (jumpBy (turn.length + 4) :: .plain .cjmp :: turn)).length := by
              simp only [List.length_append, List.length_cons]
              omega
            have htarget : (((negated testCode).length + 2 + turn.length : Nat) : Int) +
                -((negated testCode).length + turn.length + 2) = (0 : Nat) := by omega
            have hle := hready.code.length_le
            obtain ⟨frames, hjump, hstored, hsizes⟩ :=
              hdone.jump hready.fits (hready.code.right.moved hpc) htarget (by omega)
            have hready' : Ready block (g :: fs) room (turnsCode testCode turn)
                (m.onward 0 frames t.log) t.env :=
              hready.onward hstored hsizes t.log hready.code
            refine (ih (by omega) hready').imp (fun events hlate => ?_) fun t' ht' => ?_
            · exact (hlate.after hjump).mono (by omega)
            · have hall := Arrives.after (hjump.mono (Nat.zero_le 1)) hsizes ht'
              rwa [Nat.zero_add] at hall

theorem Simulates.nil : Simulates host fuel fs f f room [] pure :=
  fun _ m _ hready => ⟨m.frames, .refl m, hready.stored, rfl⟩

theorem simulates_turns {test : Expr} {testCode turn : List Instruction}
    (hplain : test.isPlain = true) (htest : ExprCode (findIn (g :: fs)) test testCode)
    (hexec : Simulates host fuel fs g g room turn exec) :
    Simulates host fuel fs g g room (turnsCode testCode turn)
      (State.runTurns host test exec fuel) := by
  intro block m env hready
  rw [turnsCode_length]
  exact turns_sound hplain htest hexec (Nat.le_refl fuel) hready

theorem simulates_loop {init : Option VarDecl} {test : Expr} {step : Option Assignment}
    {initCode testCode stepCode : List Instruction} {size : Nat}
    (hsize : (size : Int) < signedLimit) (hplain : test.isPlain = true)
    (hinit : Simulates host fuel (f :: fs) {} g size initCode
      (State.optional (State.runVarDecl host) init))
    (htest : ExprCode (findIn (g :: f :: fs)) test testCode)
    (hbody : Simulates host fuel (f :: fs) g h size code exec) {new : List (String × Storage)}
    (hnames : h.names = new ++ g.names)
    (hstep : Simulates host fuel (f :: fs) g g size stepCode
      (State.optional (State.runAssign host) step)) :
    Simulates host fuel fs f f room (loopCode size initCode testCode code stepCode)
      (State.runLoop host fuel init test step exec) := by
  rw [loopCode_eq]
  have hturn := (hbody.inScope hnames).seq hstep
  exact (hinit.seq (simulates_turns hplain htest hturn)).inFrame hsize

end

end PadCompiler
