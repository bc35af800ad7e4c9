import Mathlib.Data.List.Forall2
import PadCompiler.Proofs.Numbers

/-!
# PadCompiler.Proofs.FrameSizes

Every frame is as large as its scope needs it to be, and no slot of it is left out by the code.

A `FramePlan` is what the source says about a frame: how many slots its scope takes, and which of
them each declaration takes.  An `OpenedFrame` is what the code says: the number that is pushed
before the frame is opened, and the stores to it until it is closed.

* `Stmt.plans`, `Program.framePlans` — the plans of a program, in the order of the frames;
* `framesFrom` — the frames of a block;
* `OpenedFrame.Exact` — a frame follows its plan;
* `Laid.fulfils`, `Compiled.frames` — all frames do, in statements and in programs.

Sizes are pushed as signed words.  A size that is too large for one is not the number of slots.
-/

namespace PadCompiler

/-! ## Frames in the source -/

/-- What declarations take of a scope whose first free slot is `start`: for each the first slot and
the number of slots. -/
def Stmt.runs (start : Nat) : List Stmt → List (Nat × Nat)
  | [] => []
  | s :: ss =>
    (if s.slots = 0 then [] else [(start, s.slots)]) ++ Stmt.runs (start + s.slots) ss

theorem Stmt.runs_within {start : Nat} {ss : List Stmt} {run : Nat × Nat}
    (h : run ∈ Stmt.runs start ss) : run.1 + run.2 ≤ start + Stmt.listSlots ss := by
  induction ss generalizing start with
  | nil => contradiction
  | cons s ss ih =>
      rw [listSlots]
      rcases List.mem_append.mp h with h | h
      · split at h
        · contradiction
        · cases List.mem_singleton.mp h
          omega
      · have hrest := ih h
        omega

/-- Declarations leave no gap. -/
theorem Stmt.runs_cover (start : Nat) (ss : List Stmt) {n : Nat} (hstart : start ≤ n)
    (hn : n < start + Stmt.listSlots ss) :
    ∃ run ∈ Stmt.runs start ss, run.1 ≤ n ∧ n < run.1 + run.2 := by
  induction ss generalizing start with
  | nil =>
      rw [listSlots] at hn
      omega
  | cons s ss ih =>
      rw [listSlots] at hn
      rw [runs]
      by_cases hfirst : n < start + s.slots
      · have htakes : s.slots ≠ 0 := by omega
        rw [if_neg htakes]
        exact ⟨(start, s.slots), by simp, hstart, hfirst⟩
      · obtain ⟨run, hrun, hcover⟩ := ih (start + s.slots) (by omega) (by omega)
        exact ⟨run, List.mem_append_right _ hrun, hcover⟩

theorem Stmt.listSlots_init (init : Option VarDecl) :
    Stmt.listSlots (init.toList.map .varDecl) = init.toList.length := by
  cases init <;> rfl

/-- The frame that a scope needs.  The slots below `given` are those of parameters, and every other
slot belongs to a declaration. -/
structure FramePlan where
  opener : Opcode
  given : Nat
  size : Nat
  /-- The first slot and the number of slots of each declaration. -/
  runs : List (Nat × Nat)
  within : ∀ run ∈ runs, run.1 + run.2 ≤ size
  covered : ∀ n < size, n < given ∨ ∃ run ∈ runs, run.1 ≤ n ∧ n < run.1 + run.2

namespace FramePlan

/-- The frame of statements after `given` slots of parameters. -/
def ofBody (opener : Opcode) (given : Nat) (body : List Stmt) : FramePlan where
  opener := opener
  given := given
  size := given + Stmt.listSlots body
  runs := Stmt.runs given body
  within _ := Stmt.runs_within
  covered n hn := by
    by_cases hgiven : n < given
    · exact .inl hgiven
    · exact .inr (Stmt.runs_cover given body (Nat.le_of_not_lt hgiven) hn)

/-- The frame that two branches share. -/
def ofBranches (body otherwise : List Stmt) : FramePlan where
  opener := .oframe
  given := 0
  size := max (Stmt.listSlots body) (Stmt.listSlots otherwise)
  runs := Stmt.runs 0 body ++ Stmt.runs 0 otherwise
  within run hrun := by
    rcases List.mem_append.mp hrun with hrun | hrun
    · have hwithin := Stmt.runs_within hrun
      omega
    · have hwithin := Stmt.runs_within hrun
      omega
  covered n hn := by
    by_cases hbody : n < Stmt.listSlots body
    · obtain ⟨run, hrun, hcover⟩ := Stmt.runs_cover 0 body (Nat.zero_le n) (by omega)
      exact .inr ⟨run, List.mem_append_left _ hrun, hcover⟩
    · obtain ⟨run, hrun, hcover⟩ := Stmt.runs_cover 0 otherwise (Nat.zero_le n) (by omega)
      exact .inr ⟨run, List.mem_append_right _ hrun, hcover⟩

/-- The frame of a loop, where the variable that the loop starts with comes first. -/
def ofLoop (init : Option VarDecl) (body : List Stmt) : FramePlan where
  opener := .oframe
  given := 0
  size := init.toList.length + Stmt.listSlots body
  runs := Stmt.runs 0 (init.toList.map .varDecl) ++ Stmt.runs init.toList.length body
  within run hrun := by
    rcases List.mem_append.mp hrun with hrun | hrun
    · have hwithin := Stmt.runs_within hrun
      rw [Stmt.listSlots_init] at hwithin
      omega
    · exact Stmt.runs_within hrun
  covered n hn := by
    by_cases hinit : n < init.toList.length
    · have hstart : n < 0 + Stmt.listSlots (init.toList.map .varDecl) := by
        rw [Stmt.listSlots_init]
        omega
      obtain ⟨run, hrun, hcover⟩ := Stmt.runs_cover 0 _ (Nat.zero_le n) hstart
      exact .inr ⟨run, List.mem_append_left _ hrun, hcover⟩
    · obtain ⟨run, hrun, hcover⟩ := Stmt.runs_cover _ body (Nat.le_of_not_lt hinit) hn
      exact .inr ⟨run, List.mem_append_right _ hrun, hcover⟩

end FramePlan

mutual
/-- The frames inside a statement, in the order in which the code opens them. -/
def Stmt.plans : Stmt → List FramePlan
  | .conditional _ body none => .ofBody .oframe 0 body :: Stmt.listPlans body
  | .conditional _ body (some otherwise) =>
    .ofBranches body otherwise :: (Stmt.listPlans body ++ Stmt.listPlans otherwise)
  | .whileLoop _ body => .ofLoop none body :: Stmt.listPlans body
  | .forLoop init _ _ body => .ofLoop init body :: Stmt.listPlans body
  | .block body => .ofBody .oframe 0 body :: Stmt.listPlans body
  | _ => []

/-- The frames inside statements. -/
def Stmt.listPlans : List Stmt → List FramePlan
  | [] => []
  | s :: ss => s.plans ++ Stmt.listPlans ss
end

/-- The frames of a function: its own, to which `alloc` gives its size, and those of its body. -/
def FunctionDecl.framePlans (d : FunctionDecl) : List FramePlan :=
  .ofBody .alloc d.params.length d.body :: Stmt.listPlans d.body

/-- The frames of a program, for each of its blocks under the label of the block. -/
def Program.framePlans (p : Program) : List (String × List FramePlan) :=
  p.functions.map (fun d => (Text.lower d.name, d.framePlans)) ++
    [(Text.lower mainLabel, .ofBody .oframe 0 p.statements :: Stmt.listPlans p.statements)]

/-! ## Frames in the code -/

/-- The slots of the innermost frame that an instruction stores to, after the code that is given
backwards: the first one and their number. -/
def Instruction.stored? (past : List Instruction) (i : Instruction) : Option (Int × Int) :=
  match i.op, past with
  | .st, depth :: slot :: _ =>
    if depth.pushed? = some 0 then slot.pushed?.map fun n => (n.toInt, 1) else none
  | .sta, depth :: slot :: count :: _ =>
    if depth.pushed? = some 0 then
      slot.pushed?.bind fun n => count.pushed?.map fun m => (n.toInt, m.toInt)
    else none
  | _, _ => none

/-- The stores to a frame until it is closed, where `inside` frames inside it are open.  Those are
passed over. -/
def storesFrom : (past : List Instruction) → (inside : Nat) → List Instruction → List (Int × Int)
  | _, _, [] => []
  | past, inside, i :: code =>
    if i.op = .oframe then storesFrom (i :: past) (inside + 1) code
    else if i.op = .cframe then
      match inside with
      | 0 => []
      | inside + 1 => storesFrom (i :: past) inside code
    else
      (if inside = 0 then (i.stored? past).toList else []) ++ storesFrom (i :: past) inside code

/-- A frame in the code. -/
structure OpenedFrame where
  opener : Opcode
  /-- The integer that is pushed before. -/
  size : Option Int
  stores : List (Int × Int)
deriving DecidableEq

/-- The frames of the code, after the code that is given backwards. -/
def framesFrom : (past code : List Instruction) → List OpenedFrame
  | _, [] => []
  | past, i :: code =>
    if i.op = .oframe ∨ i.op = .alloc then
      ⟨i.op, (past.head?.bind Instruction.pushed?).map (·.toInt), storesFrom (i :: past) 0 code⟩ ::
        framesFrom (i :: past) code
    else framesFrom (i :: past) code

/-- The first slot and the number of slots, as the code carries them. -/
def carriedRun (run : Nat × Nat) : Int × Int :=
  (Role.store.carried run.1, Role.size.carried run.2)

/-- The frame that is opened is the frame that is planned: it is opened by the same instruction with
the size as a word, and every declaration stores to its slots.  Where the size is a signed word, it
is the number of slots, and every slot that is no parameter is one that a declaration stores to. -/
structure OpenedFrame.Exact (frame : OpenedFrame) (plan : FramePlan) : Prop where
  opener : frame.opener = plan.opener
  word : frame.size = some (Role.size.carried plan.size)
  size : frame.size = some (plan.size : Int) ↔ (plan.size : Int) < signedLimit
  declared : ∀ run ∈ plan.runs, carriedRun run ∈ frame.stores
  written : (plan.size : Int) < signedLimit → ∀ n < plan.size, n < plan.given ∨
    ∃ run ∈ plan.runs, run.1 ≤ n ∧ n < run.1 + run.2 ∧
      ((run.1 : Int), (run.2 : Int)) ∈ frame.stores

theorem OpenedFrame.Exact.of_stores {plan : FramePlan} {stores : List (Int × Int)}
    (hstores : ∀ run ∈ plan.runs, carriedRun run ∈ stores) :
    OpenedFrame.Exact ⟨plan.opener, some (Role.size.carried plan.size), stores⟩ plan where
  opener := rfl
  word := rfl
  size := by
    rw [Option.some.injEq]
    exact ⟨Role.lt_of_carried, Role.size.carried_of_lt⟩
  declared := hstores
  written hsize n hn := by
    refine (plan.covered n hn).imp_right ?_
    rintro ⟨run, hrun, hfirst, hlast⟩
    have hwithin := plan.within run hrun
    have hslot : Role.store.carried run.1 = run.1 := Role.carried_of_lt _ (by omega)
    have hcount : Role.size.carried run.2 = run.2 := Role.carried_of_lt _ (by omega)
    have hstored := hstores run hrun
    rw [carriedRun, hslot, hcount] at hstored
    exact ⟨run, hrun, hfirst, hlast, hstored⟩

/-! ## Pieces of code -/

/-- Whatever is before and after it, the code opens and closes these frames, and stores as here
while none of them is open. -/
structure Opens (code : List Instruction) (stores : List (Int × Int)) (frames : List OpenedFrame) :
    Prop where
  frames past rest :
    framesFrom past (code ++ rest) = frames ++ framesFrom (code.reverse ++ past) rest
  stores past rest :
    storesFrom past 0 (code ++ rest) = stores ++ storesFrom (code.reverse ++ past) 0 rest
  passed past rest inside :
    storesFrom past (inside + 1) (code ++ rest) =
      storesFrom (code.reverse ++ past) (inside + 1) rest

/-- Instructions that neither store nor open or close a frame. -/
def Instruction.isQuiet (i : Instruction) : Bool :=
  !([.oframe, .alloc, .cframe, .st, .sta] : List Opcode).contains i.op

theorem isQuiet_of_isInert {code : List Instruction} (h : code.all Instruction.isInert = true) :
    code.all Instruction.isQuiet = true := by
  rw [List.all_eq_true] at h ⊢
  intro i hi
  obtain ⟨-, -, hst, hsta, hopen, halloc, hclose⟩ := Instruction.isInert_iff.mp (h i hi)
  simp [Instruction.isQuiet, hst, hsta, hopen, halloc, hclose]

namespace Opens

variable {code others : List Instruction} {stores stores' : List (Int × Int)}
  {frames frames' : List OpenedFrame}

theorem nil : Opens [] [] [] :=
  ⟨fun _ _ => rfl, fun _ _ => rfl, fun _ _ _ => rfl⟩

theorem append (h : Opens code stores frames) (h' : Opens others stores' frames') :
    Opens (code ++ others) (stores ++ stores') (frames ++ frames') where
  frames past rest := by simp [h.frames, h'.frames]
  stores past rest := by simp [h.stores, h'.stores]
  passed past rest inside := by simp [h.passed, h'.passed]

/-- One instruction that opens and closes no frame. -/
theorem single {i : Instruction} (hopen : i.op ≠ .oframe) (halloc : i.op ≠ .alloc)
    (hclose : i.op ≠ .cframe) {stored : Option (Int × Int)}
    (hstored : ∀ past, i.stored? past = stored) : Opens [i] stored.toList [] where
  frames past rest := by simp [framesFrom, hopen, halloc]
  stores past rest := by simp [storesFrom, hopen, hclose, hstored]
  passed past rest inside := by simp [storesFrom, hopen, hclose]

theorem quiet (h : code.all Instruction.isQuiet = true) : Opens code [] [] := by
  induction code with
  | nil => exact nil
  | cons i code ih =>
      rw [List.all_cons, Bool.and_eq_true] at h
      have hi : i.op ≠ .oframe ∧ i.op ≠ .alloc ∧ i.op ≠ .cframe ∧ i.op ≠ .st ∧ i.op ≠ .sta := by
        simpa [Instruction.isQuiet] using h.1
      obtain ⟨hopen, halloc, hclose, hst, hsta⟩ := hi
      have hnone (past : List Instruction) : i.stored? past = none := by
        unfold Instruction.stored?
        split <;> first | contradiction | rfl
      exact (single hopen halloc hclose hnone).append (ih h.2)

theorem st (slot depth : Nat) :
    Opens [.pushNat slot, .pushNat depth, .plain .st]
      ((Instruction.plain .st).stored? [.pushNat depth, .pushNat slot]).toList [] :=
  ⟨fun _ _ => rfl, fun _ _ => rfl, fun _ _ _ => rfl⟩

theorem sta (count slot depth : Nat) :
    Opens [.pushNat count, .pushNat slot, .pushNat depth, .plain .sta]
      ((Instruction.plain .sta).stored? [.pushNat depth, .pushNat slot, .pushNat count]).toList
      [] :=
  ⟨fun _ _ => rfl, fun _ _ => rfl, fun _ _ _ => rfl⟩

theorem sta_computed (base depth : Nat) :
    Opens [.pushNat base, .plain .add, .pushNat depth, .plain .sta]
      ((Instruction.plain .sta).stored? [.pushNat depth, .plain .add, .pushNat base]).toList [] :=
  ⟨fun _ _ => rfl, fun _ _ => rfl, fun _ _ _ => rfl⟩

/-- The stores of the code are the stores to the frame around it. -/
theorem framed (h : Opens code stores frames) (size : Nat) :
    Opens (framed size code) [] (⟨.oframe, some (Role.size.carried size), stores⟩ :: frames) := by
  have hcode (rest : List Instruction) : PadCompiler.framed size code ++ rest =
      .pushNat size :: .plain .oframe :: (code ++ .plain .cframe :: rest) := by
    simp [PadCompiler.framed]
  have hpast (past : List Instruction) : (PadCompiler.framed size code).reverse ++ past =
      .plain .cframe :: (code.reverse ++ .plain .oframe :: .pushNat size :: past) := by
    simp [PadCompiler.framed]
  constructor
  · intro past rest
    let opened := Instruction.plain .oframe :: .pushNat size :: past
    let closing := Instruction.plain .cframe :: rest
    -- the frame ends with the code, so what is stored later does not count
    have hstores : storesFrom opened 0 (code ++ closing) = stores :=
      (h.stores opened closing).trans (List.append_nil stores)
    calc
      framesFrom past (PadCompiler.framed size code ++ rest)
        = ⟨.oframe, some (Role.size.carried size), storesFrom opened 0 (code ++ closing)⟩ ::
            framesFrom opened (code ++ closing) := by rw [hcode]; rfl
      _ = ⟨.oframe, some (Role.size.carried size), stores⟩ ::
            (frames ++ framesFrom (code.reverse ++ opened) closing) := by rw [hstores, h.frames]
      _ = _ := by rw [hpast]; rfl
  · intro past rest
    rw [hcode, hpast]
    exact h.passed _ (.plain .cframe :: rest) 0
  · intro past rest inside
    rw [hcode, hpast]
    exact h.passed _ (.plain .cframe :: rest) (inside + 1)

end Opens

/-! ## Expressions -/

mutual
/-- The code of an expression neither stores nor opens frames. -/
theorem ExprCode.quiet {find : Lookup} {e : Expr} {code : List Instruction} :
    ExprCode find e code → code.all Instruction.isQuiet = true
  | .literal value => rfl
  | .padWidth => rfl
  | .padHeight => rfl
  | .ident hfind => rfl
  | .randomInt hbound => by
      rw [List.all_append, hbound.quiet]
      rfl
  | .binary hop hright hleft => by
      rw [List.all_append, List.all_append, hright.quiet, hleft.quiet,
        isQuiet_of_isInert (BinaryOp.isInert_opcode hop)]
      rfl
  | .unsupported lhs rhs hop => rfl
  | .call hfind hargs => by
      rw [List.all_append, hargs.quiet]
      rfl
  | .element hfind hindex hoffset => rfl
  | .computed hfind hlit hindex => by
      rw [List.all_append, hindex.quiet]
      rfl

theorem ArgsCode.quiet {find : Lookup} {es : List Expr} {code : List Instruction} :
    ArgsCode find es code → code.all Instruction.isQuiet = true
  | .nil => rfl
  | .cons hothers hfirst => by
      rw [List.all_append, hothers.quiet, hfirst.quiet]
      rfl
end

theorem InOrderCode.quiet {find : Lookup} {es : List Expr} {code : List Instruction}
    (h : InOrderCode find es code) : code.all Instruction.isQuiet = true := by
  induction h with
  | nil => rfl
  | cons hfirst hothers ih =>
      rw [List.all_append, hfirst.quiet, ih]
      rfl

/-! ## Constructs -/

/-- The code stores to these runs of slots, and the frames inside it follow these plans. -/
def Fulfils (code : List Instruction) (runs : List (Nat × Nat)) (plans : List FramePlan) : Prop :=
  ∃ stores frames, Opens code stores frames ∧
    (∀ run ∈ runs, carriedRun run ∈ stores) ∧
    List.Forall₂ OpenedFrame.Exact frames plans

namespace Fulfils

variable {code others test body otherwise init step : List Instruction}
  {runs runs' inBody inOtherwise inInit inStep : List (Nat × Nat)} {plans plans' : List FramePlan}

theorem append (h : Fulfils code runs plans) (h' : Fulfils others runs' plans') :
    Fulfils (code ++ others) (runs ++ runs') (plans ++ plans') := by
  obtain ⟨stores, frames, hopens, hruns, hexact⟩ := h
  obtain ⟨stores', frames', hopens', hruns', hexact'⟩ := h'
  refine ⟨stores ++ stores', frames ++ frames', hopens.append hopens', fun run hrun => ?_,
    List.rel_append hexact hexact'⟩
  rcases List.mem_append.mp hrun with hrun | hrun
  · exact List.mem_append_left _ (hruns run hrun)
  · exact List.mem_append_right _ (hruns' run hrun)

/-- Code that opens no frame, and whose stores do not count. -/
theorem of_opens {stores : List (Int × Int)} (h : Opens code stores []) : Fulfils code [] [] :=
  ⟨stores, [], h, nofun, .nil⟩

theorem quiet (h : code.all Instruction.isQuiet = true) : Fulfils code [] [] :=
  of_opens (.quiet h)

theorem before (h : Fulfils code runs plans) (others : List Instruction)
    (hothers : others.all Instruction.isQuiet = true) : Fulfils (code ++ others) runs plans := by
  simpa using h.append (quiet hothers)

theorem after (h : Fulfils code runs plans) (others : List Instruction)
    (hothers : others.all Instruction.isQuiet = true) : Fulfils (others ++ code) runs plans := by
  simpa using (quiet hothers).append h

/-- The declaration of a variable stores to its slot. -/
theorem scalar (slot : Nat) :
    Fulfils [.pushNat slot, .pushNat 0, .plain .st] [(slot, 1)] [] := by
  refine ⟨_, [], .st slot 0, ?_, .nil⟩
  intro run hrun
  cases List.mem_singleton.mp hrun
  exact List.mem_cons_self

/-- The declaration of an array stores to all its slots. -/
theorem array (base length : Nat) :
    Fulfils [.pushNat length, .pushNat base, .pushNat 0, .plain .sta] [(base, length)] [] := by
  refine ⟨_, [], .sta length base 0, ?_, .nil⟩
  intro run hrun
  cases List.mem_singleton.mp hrun
  exact List.mem_cons_self

/-- What the code stores to are the slots of the frame around it. -/
theorem framed {plan : FramePlan} (h : Fulfils code plan.runs plans)
    (hopener : plan.opener = .oframe) :
    Fulfils (framed plan.size code) [] (plan :: plans) := by
  obtain ⟨stores, frames, hopens, hruns, hexact⟩ := h
  have hframe := OpenedFrame.Exact.of_stores hruns
  rw [hopener] at hframe
  exact ⟨[], _, hopens.framed plan.size, nofun, .cons hframe hexact⟩

theorem negated (htest : test.all Instruction.isQuiet = true) :
    (negated test).all Instruction.isQuiet = true := by
  rw [PadCompiler.negated, List.all_append, htest]
  rfl

/-- The guard and what it guards. -/
theorem guarded (htest : test.all Instruction.isQuiet = true) (hbody : Fulfils body inBody plans) :
    Fulfils (PadCompiler.negated test ++ .plain .cjmp :: body) inBody plans := by
  have hguarded := hbody.after [.plain .cjmp] rfl
  exact hguarded.after _ (negated htest)

theorem conditional {plan : FramePlan} (htest : test.all Instruction.isQuiet = true)
    (hbody : Fulfils body plan.runs plans) (hopener : plan.opener = .oframe) :
    Fulfils (conditionalCode plan.size test body) [] (plan :: plans) :=
  (framed (guarded htest hbody) hopener).after [jumpBy _] rfl

theorem alternative {plan : FramePlan} (htest : test.all Instruction.isQuiet = true)
    (hbody : Fulfils body inBody plans) (hotherwise : Fulfils otherwise inOtherwise plans')
    (hruns : plan.runs = inBody ++ inOtherwise) (hopener : plan.opener = .oframe) :
    Fulfils (alternativeCode plan.size test body otherwise) [] (plan :: (plans ++ plans')) := by
  have hskipped := hotherwise.after [jumpBy (otherwise.length + 2), .plain .jmp] rfl
  have hinside := (guarded htest hbody).append hskipped
  rw [← hruns] at hinside
  exact (framed hinside hopener).after [jumpBy _] rfl

theorem loop {plan : FramePlan} (hinit : Fulfils init inInit [])
    (htest : test.all Instruction.isQuiet = true) (hbody : Fulfils body inBody plans)
    (hstep : Fulfils step [] []) (hruns : plan.runs = inInit ++ inBody)
    (hopener : plan.opener = .oframe) :
    Fulfils (loopCode plan.size init test body step) [] (plan :: plans) := by
  have hturn := (hbody.append hstep).after
    [jumpBy ((body ++ step).length + 4), .plain .cjmp] rfl
  have hinside := ((hinit.before _ (negated htest)).append hturn).before
    [jumpBy (-((PadCompiler.negated test).length + (body ++ step).length + 2)), .plain .jmp] rfl
  simp only [List.append_nil, List.nil_append] at hinside
  rw [← hruns] at hinside
  simpa [loopCode] using framed hinside hopener

end Fulfils

/-! ## Statements -/

/-- Where there is no scope, there is no frame. -/
theorem Stmt.plans_of_scopeTotals {s : Stmt} (h : s.scopeTotals = []) : s.plans = [] := by
  cases s with
  | conditional test body otherwise => cases otherwise <;> simp [scopeTotals] at h
  | whileLoop test body => simp [scopeTotals] at h
  | forLoop init test step body => simp [scopeTotals] at h
  | block body => simp [scopeTotals] at h
  | _ => simp [plans]

theorem Stmt.plans_of_loop? {s : Stmt} {l : LoopParts} (hs : s.loop? = some l) :
    s.plans = .ofLoop l.init l.body :: Stmt.listPlans l.body := by
  cases s with
  | whileLoop test body =>
      cases hs
      rw [plans]
  | forLoop init test step body =>
      cases hs
      rw [plans]
  | _ => contradiction

@[simp] theorem Stmt.listPlans_single (s : Stmt) : Stmt.listPlans [s] = s.plans := by
  simp [listPlans]

/-- A statement that declares nothing takes no run of slots. -/
theorem Stmt.runs_single (start : Nat) {s : Stmt} (hs : s.slots = 0) :
    Stmt.runs start [s] = [] := by
  simp [runs, hs]

theorem LoopParts.runs_advance (l : LoopParts) (start : Nat) : Stmt.runs start l.advance = [] := by
  rw [LoopParts.advance]
  cases l.step <;> simp [Stmt.runs, Stmt.slots]

theorem LoopParts.listPlans_start (l : LoopParts) : Stmt.listPlans l.start = [] := by
  rw [LoopParts.start]
  cases l.init <;> simp [Stmt.listPlans, Stmt.plans]

theorem LoopParts.listPlans_advance (l : LoopParts) : Stmt.listPlans l.advance = [] := by
  rw [LoopParts.advance]
  cases l.step <;> simp [Stmt.listPlans, Stmt.plans]

/-- Each rule stores to what it declares, from the first free slot of the frame on, and opens the
frames of the statement. -/
theorem Laid.fulfils {fs : List Frame} {f g : Frame} {ss : List Stmt} {code : List Instruction}
    (h : Laid fs f ss code g) : Fulfils code (Stmt.runs f.used ss) (Stmt.listPlans ss) := by
  induction h with
  | nil fs f => simpa only [Stmt.runs, Stmt.listPlans] using .quiet rfl
  | @cons fs f g h s ss first others hfirst hothers ihFirst ihOthers =>
      -- the other statements go on where the slots of the first one end
      have hused := hfirst.used
      simp only [Stmt.listSlots, Nat.add_zero] at hused
      rw [hused] at ihOthers
      simp only [Stmt.runs, Stmt.listPlans, List.append_nil] at ihFirst ⊢
      exact ihFirst.append ihOthers
  | varDecl hinit =>
      simpa [Stmt.runs, Stmt.slots, Stmt.listPlans, Stmt.plans] using
        (Fulfils.scalar _).after _ hinit.quiet
  | assign hvalue hfind =>
      simpa [Stmt.runs, Stmt.slots, Stmt.listPlans, Stmt.plans] using
        (Fulfils.of_opens (.st _ _)).after _ hvalue.quiet
  | arrayFilled fs f hlength =>
      obtain ⟨hlen, hpos⟩ := arrayLength_eq_ok hlength
      simpa [Stmt.runs, Stmt.slots, Stmt.listPlans, Stmt.plans, hlen, Nat.ne_of_gt hpos] using
        (Fulfils.array _ _).after [.pushNat _, .push _, .plain .dupa] rfl
  | arrayListed hlength hvalues =>
      obtain ⟨hlen, hpos⟩ := arrayLength_eq_ok hlength
      simpa [Stmt.runs, Stmt.slots, Stmt.listPlans, Stmt.plans, hlen, Nat.ne_of_gt hpos] using
        (Fulfils.array _ _).after _ hvalues.quiet
  | setElement hvalue hfind hindex hoffset =>
      simpa [Stmt.runs, Stmt.slots, Stmt.listPlans, Stmt.plans] using
        (Fulfils.of_opens (.sta _ _ _)).after _ hvalue.quiet
  | @setComputed fs f name index value base length depth code slot hvalue hfind hlit hindex =>
      have hslot := (Fulfils.of_opens (.sta_computed base depth)).after slot hindex.quiet
      simpa [Stmt.runs, Stmt.slots, Stmt.listPlans, Stmt.plans] using
        (hslot.after [.pushNat 1] rfl).after _ hvalue.quiet
  | outputArray hs hfind =>
      rw [Stmt.runs_single _ (Stmt.slots_of_output? hs), Stmt.listPlans_single,
        Stmt.plans_of_scopeTotals (Stmt.scopeTotals_of_output? hs)]
      exact (Fulfils.quiet (isQuiet_of_isInert (Stmt.output?_inert hs).2)).after
        [.pushNat _, .address .pushA _ _, .pushNat _] rfl
  | output hs hvalue =>
      rw [Stmt.runs_single _ (Stmt.slots_of_output? hs), Stmt.listPlans_single,
        Stmt.plans_of_scopeTotals (Stmt.scopeTotals_of_output? hs)]
      exact (Fulfils.quiet hvalue.quiet).before _ (isQuiet_of_isInert (Stmt.output?_inert hs).1)
  | operation hs hvalues =>
      rw [Stmt.runs_single _ (Stmt.slots_of_operation? hs), Stmt.listPlans_single,
        Stmt.plans_of_scopeTotals (Stmt.scopeTotals_of_operation? hs)]
      exact (Fulfils.quiet hvalues.quiet).before _ (isQuiet_of_isInert (Stmt.operation?_inert hs))
  | @block fs f g body code hbody ih =>
      have hsize : g.used = (FramePlan.ofBody .oframe 0 body).size := hbody.used
      rw [Stmt.runs_single _ rfl, Stmt.listPlans_single, Stmt.plans, hsize]
      exact Fulfils.framed ih rfl
  | @conditional fs f g test body testCode code htest hbody ih =>
      have hsize : g.used = (FramePlan.ofBody .oframe 0 body).size := hbody.used
      rw [Stmt.runs_single _ rfl, Stmt.listPlans_single, Stmt.plans, hsize]
      exact Fulfils.conditional htest.quiet ih rfl
  | @alternative fs f g h test body otherwise testCode code elseCode htest hbody hotherwise ihBody
      ihElse =>
      have hsize : Nat.max g.used h.used = (FramePlan.ofBranches body otherwise).size := by
        rw [hbody.used, hotherwise.used]
        simp [FramePlan.ofBranches]
      rw [Stmt.runs_single _ rfl, Stmt.listPlans_single, Stmt.plans, hsize]
      exact Fulfils.alternative htest.quiet ihBody ihElse rfl rfl
  | @loop fs f g h k s initCode testCode code stepCode l hs hinit htest hbody hstep ihInit ihBody
      ihStep =>
      have hg : g.used = l.init.toList.length := by
        rw [hinit.used]
        simp
      have hsize : k.used = (FramePlan.ofLoop l.init l.body).size :=
        Laid.used_of_loop hinit hbody hstep
      rw [LoopParts.listPlans_start] at ihInit
      rw [LoopParts.runs_advance, LoopParts.listPlans_advance] at ihStep
      rw [hg] at ihBody
      rw [Stmt.runs_single _ (Stmt.slots_of_loop? hs), Stmt.listPlans_single,
        Stmt.plans_of_loop? hs, hsize]
      exact Fulfils.loop ihInit htest.quiet ihBody ihStep rfl rfl

/-! ## Programs -/

/-- The frames of a whole block. -/
theorem Fulfils.frames {code : List Instruction} {runs : List (Nat × Nat)} {plans : List FramePlan}
    (h : Fulfils code runs plans) : List.Forall₂ OpenedFrame.Exact (framesFrom [] code) plans := by
  obtain ⟨stores, frames, hopens, -, hexact⟩ := h
  have hframes := hopens.frames [] []
  rw [List.append_nil] at hframes
  rwa [hframes, framesFrom, List.append_nil]

/-- The frames of a block that starts with `alloc`.  Nothing closes the frame of the block. -/
theorem Fulfils.allocated {code : List Instruction} {plan : FramePlan} {plans : List FramePlan}
    (h : Fulfils code plan.runs plans) (hopener : plan.opener = .alloc) :
    List.Forall₂ OpenedFrame.Exact (framesFrom [] (.pushNat plan.size :: .plain .alloc :: code))
      (plan :: plans) := by
  obtain ⟨stores, frames, hopens, hruns, hexact⟩ := h
  let past : List Instruction := [.plain .alloc, .pushNat plan.size]
  have hframes : framesFrom past code = frames := by
    simpa [framesFrom] using hopens.frames past []
  have hstores : storesFrom past 0 code = stores := by
    simpa [storesFrom] using hopens.stores past []
  have hframe := OpenedFrame.Exact.of_stores hruns
  rw [hopener] at hframe
  show List.Forall₂ OpenedFrame.Exact
    (⟨.alloc, some (Role.size.carried plan.size), storesFrom past 0 code⟩ :: framesFrom past code)
    (plan :: plans)
  rw [hframes, hstores]
  exact .cons hframe hexact

section

variable {config : Config} {top : Frame}

theorem FunctionCode.frames {d : FunctionDecl} {code : List Instruction}
    (h : FunctionCode top d code) :
    List.Forall₂ OpenedFrame.Exact (framesFrom [] code) d.framePlans := by
  cases h with
  | @mk body g hbody =>
      have hparams : (({} : Frame).addParams d.params).used = d.params.length := by
        simp [Frame.addParams_used]
      have hsize : g.used = (FramePlan.ofBody .alloc d.params.length d.body).size :=
        FunctionDecl.used_of_laid hbody
      have hinside := hbody.fulfils
      rw [hparams] at hinside
      rw [hsize]
      refine Fulfils.allocated (hinside.before _ ?_) rfl
      split <;> rfl

theorem MainCode.frames {ss : List Stmt} {code : List Instruction}
    (h : MainCode config top ss code) (htop : top.used = 0) :
    List.Forall₂ OpenedFrame.Exact (framesFrom [] code)
      (.ofBody .oframe 0 ss :: Stmt.listPlans ss) := by
  cases h with
  | @mk body g hbody =>
      have hsize : g.used = (FramePlan.ofBody .oframe 0 ss).size := by
        rw [hbody.used, htop]
        rfl
      have hclearing : config.clearing.all Instruction.isQuiet = true := by
        rw [Config.clearing]
        cases config.clearColor <;> rfl
      have hinside := hbody.fulfils
      rw [htop] at hinside
      rw [hsize]
      exact ((Fulfils.framed (hinside.after _ hclearing) rfl).before [.plain .halt] rfl).frames

/-- A block has the label and the frames that are planned. -/
def Block.Follows (b : Block) (planned : String × List FramePlan) : Prop :=
  b.label = planned.1 ∧ List.Forall₂ OpenedFrame.Exact (framesFrom [] b.code) planned.2

theorem FunctionBlocks.frames {ds : List FunctionDecl} {blocks : List Block}
    (h : FunctionBlocks top ds blocks) :
    List.Forall₂ Block.Follows blocks (ds.map fun d => (Text.lower d.name, d.framePlans)) := by
  induction h with
  | nil => exact .nil
  | cons hcode hrest ih => exact .cons ⟨rfl, hcode.frames⟩ ih

theorem Compiled.frames {p : Program} {blocks : List Block} (h : Compiled config p blocks) :
    List.Forall₂ Block.Follows blocks p.framePlans := by
  cases h with
  | mk hfunctions hmain =>
      exact List.rel_append hfunctions.frames
        (.cons ⟨rfl, hmain.frames p.topFrame_used⟩ .nil)

end

/-- The frames of an accepted program are those that the source needs, each as large as its scope,
if that is a signed word, and with every slot stored to or a parameter. -/
theorem compile_frames {config : Config} {p : Program} {image : Image}
    (h : compile config p = .ok image) : List.Forall₂ Block.Follows image.blocks p.framePlans :=
  (compiled_of_compile h).1.frames

/-- The frames of the demo. -/
theorem compile_demo_frames :
    ∃ image, compile {} Demo.program = .ok image ∧
      List.Forall₂ Block.Follows image.blocks Demo.program.framePlans ∧
      image.blocks.map (fun b => framesFrom [] b.code) =
        [[⟨.alloc, some 2, []⟩],
          [⟨.oframe, some 6, [(0, 1), (1, 1), (2, 1), (0, 1), (3, 3)]⟩,
            ⟨.oframe, some 1, [(0, 1), (0, 1)]⟩]] := by
  have haccepted : (compile {} Demo.program).toOption.map (fun image =>
      image.blocks.map fun b => framesFrom [] b.code) =
      some [[⟨.alloc, some 2, []⟩],
        [⟨.oframe, some 6, [(0, 1), (1, 1), (2, 1), (0, 1), (3, 3)]⟩,
          ⟨.oframe, some 1, [(0, 1), (0, 1)]⟩]] := by
    decide +kernel
  cases hcompile : compile {} Demo.program with
  | error e =>
      rw [hcompile] at haccepted
      contradiction
  | ok image =>
      rw [hcompile] at haccepted
      exact ⟨image, rfl, compile_frames hcompile, Option.some.inj haccepted⟩

/-- A loop that starts with a variable, around an array that is as long as an array can be. -/
def Demo.longLoop : Program where
  items := [.forLoop (some ⟨"i", .int, .int 0⟩) (.int 1) none [Demo.longArray "a"]]

/-- What the body declares can be counted by a signed word, and what the loop declares cannot.  The
frame of the loop gets a negative size. -/
theorem compile_longLoop_frames :
    Stmt.listSlots Demo.longLoop.statements = 0 ∧
      (Stmt.listSlots [Demo.longArray "a"] : Int) = signedLimit - 1 ∧
      Demo.longLoop.framePlans.map (fun planned => planned.2.map (·.size)) =
        [[0, Stmt.listSlots [Demo.longArray "a"] + 1]] ∧
      ∃ image, compile { clearColor := none } Demo.longLoop = .ok image ∧
        image.blocks.map (fun b => (framesFrom [] b.code).map (·.size)) =
          [[some 0, some (-9223372036854775808)]] := by
  refine ⟨rfl, by decide +kernel, by decide +kernel, ?_⟩
  have haccepted : (compile { clearColor := none } Demo.longLoop).toOption.map (fun image =>
      image.blocks.map fun b => (framesFrom [] b.code).map (·.size)) =
      some [[some 0, some (-9223372036854775808)]] := by
    decide +kernel
  cases hcompile : compile { clearColor := none } Demo.longLoop with
  | error e =>
      rw [hcompile] at haccepted
      contradiction
  | ok image =>
      rw [hcompile] at haccepted
      exact ⟨image, rfl, Option.some.inj haccepted⟩

end PadCompiler
