import PadCompiler.Proofs.Addresses
import PadCompiler.Proofs.Piecewise

/-!
# PadCompiler.Proofs.Numbers

The sizes of frames and the slots of variables, as the source means them and as the code carries
them.

The slots of a scope may be more than a signed word can count.  Sizes and the slots of stores are
pushed as signed words nevertheless, and the slots of reads are unsigned words: `Role.carried`.

* `numbersFrom` — the numbers in a piece of code;
* `Stmt.numbers` — the numbers that a statement means, without bound;
* `Laid.carries` — the code carries the numbers of the source, each as a word;
* `Laid.narrow`, `Laid.hasSizes` — all of them are signed words exactly if the scopes are as small.
-/

namespace PadCompiler

/-! ## Numbers and words -/

/-- What a number in the code is for. -/
inductive Role where
  /-- The size of a frame. -/
  | size
  /-- The slot, or the first slot, of a store. -/
  | store
  /-- The slot, or the first slot, of a read. -/
  | read
deriving DecidableEq, Repr

/-- A number as the code carries it. -/
def Role.carried (role : Role) (n : Nat) : Int :=
  match role with
  | .size | .store => (Int64.ofNat n).toInt
  | .read => (UInt64.ofNat n).toNat

theorem Role.carried_of_lt (role : Role) {n : Nat} (h : (n : Int) < signedLimit) :
    role.carried n = n := by
  cases role with
  | size => exact toInt_ofNat_of_lt h
  | store => exact toInt_ofNat_of_lt h
  | read => exact congrArg Int.ofNat (toNat_ofNat_of_lt h)

/-- Signed words are below their limit. -/
theorem Role.lt_of_carried {n : Nat} (h : Role.size.carried n = n) : (n : Int) < signedLimit := by
  rw [← h]
  exact Int64.toInt_lt _

/-! ## Numbers in code -/

/-- The literal that an instruction pushes. -/
def Instruction.literal (role : Role) (i : Instruction) : List (Role × Int) :=
  i.pushed?.toList.map fun n => (role, n.toInt)

/-- The numbers of an instruction, after the code that is given backwards: the slot in its operand,
the size of the frame that it opens, or the slot that it stores to.  A computed slot is added to the
first one of an array. -/
def Instruction.numbers (past : List Instruction) (i : Instruction) : List (Role × Int) :=
  (match i.operand with
    | some (.address slot _) => [(.read, slot.toNat)]
    | _ => []) ++
  match i.op, past with
  | .oframe, size :: _ => size.literal .size
  | .alloc, size :: _ => size.literal .size
  | .st, _ :: slot :: _ => slot.literal .store
  | .sta, _ :: ⟨.add, _⟩ :: base :: _ => base.literal .store
  | .sta, _ :: slot :: _ => slot.literal .store
  | _, _ => []

/-- The numbers of the code, after the code that is given backwards. -/
def numbersFrom : (past code : List Instruction) → List (Role × Int)
  | _, [] => []
  | past, i :: code => i.numbers past ++ numbersFrom (i :: past) code

theorem numbersFrom_append (past code others : List Instruction) :
    numbersFrom past (code ++ others) =
      numbersFrom past code ++ numbersFrom (code.reverse ++ past) others := by
  induction code generalizing past with
  | nil => rfl
  | cons i code ih => simp [numbersFrom, ih]

/-- Whatever code is before it, the code carries these numbers. -/
def Carries (code : List Instruction) (numbers : List (Role × Nat)) : Prop :=
  ∀ past, numbersFrom past code = numbers.map fun m => (m.1, m.1.carried m.2)

namespace Carries

variable {code others : List Instruction} {numbers numbers' : List (Role × Nat)}

theorem append (h : Carries code numbers) (h' : Carries others numbers') :
    Carries (code ++ others) (numbers ++ numbers') := by
  intro past
  rw [numbersFrom_append, h, h', List.map_append]

/-- Code of instructions without numbers. -/
theorem none (h : ∀ i ∈ code, ∀ past, i.numbers past = []) : Carries code [] := by
  induction code with
  | nil => exact fun _ => rfl
  | cons i code ih =>
      obtain ⟨hfirst, hothers⟩ := List.forall_mem_cons.mp h
      intro past
      rw [numbersFrom, hfirst]
      exact ih hothers _

/-- Code of inert instructions only. -/
theorem inert (h : code.all Instruction.isInert = true) : Carries code [] := by
  refine none fun i hi past => ?_
  obtain ⟨haddress, -, hst, hsta, hopen, halloc, -⟩ :=
    Instruction.isInert_iff.mp (List.all_eq_true.mp h i hi)
  unfold Instruction.numbers
  split
  · exact absurd (by assumption) (haddress _ _)
  · split <;> first | contradiction | rfl

/-- Inert instructions after other code. -/
theorem before (h : Carries code numbers) (hothers : others.all Instruction.isInert = true) :
    Carries (code ++ others) numbers := by
  simpa using h.append (inert hothers)

/-- Inert instructions before other code. -/
theorem after (h : Carries code numbers) (others : List Instruction)
    (hothers : others.all Instruction.isInert = true) : Carries (others ++ code) numbers := by
  simpa using (inert hothers).append h

theorem address {op : Opcode} (hop : op = .push ∨ op = .pushA ∨ op = .pushOffset)
    (slot depth : Nat) : Carries [.address op slot depth] [(.read, slot)] := by
  rcases hop with rfl | rfl | rfl <;> exact fun _ => rfl

theorem st (slot depth : Nat) :
    Carries [.pushNat slot, .pushNat depth, .plain .st] [(.store, slot)] :=
  fun _ => rfl

theorem sta (count slot depth : Nat) :
    Carries [.pushNat count, .pushNat slot, .pushNat depth, .plain .sta] [(.store, slot)] :=
  fun _ => rfl

theorem sta_computed (base depth : Nat) :
    Carries [.pushNat base, .plain .add, .pushNat depth, .plain .sta] [(.store, base)] :=
  fun _ => rfl

end Carries

/-- A construct carries the size of its frame and the numbers of its parts. -/
theorem Carries.piecewise : Piecewise Carries fun size => [(.size, size)] where
  append := .append
  steer h :=
    .none fun i hi past =>
      Instruction.of_isSteering (P := fun i => i.numbers past = []) (List.all_eq_true.mp h i hi) rfl
        rfl rfl rfl (fun _ => rfl) fun _ => rfl
  enter _ _ := rfl

/-! ## Numbers in the source -/

/-- The first slot of what a name stands for. -/
def Lookup.slot? (find : Lookup) (name : String) : Option Nat :=
  match find name with
  | .ok (.scalar slot, _) => some slot
  | .ok (.array base _, _) => some base
  | _ => none

/-- The slot some way into what a name stands for. -/
def Lookup.numbers (find : Lookup) (role : Role) (name : String) (offset : Nat) :
    List (Role × Nat) :=
  (find.slot? name).toList.map fun slot => (role, slot + offset)

mutual
/-- The slots that an expression reads, in the order of its code. -/
def Expr.numbers (find : Lookup) : Expr → List (Role × Nat)
  | .ident name => find.numbers .read name 0
  | .randomInt bound => bound.numbers find
  | .binary op lhs rhs => if op.opcode?.isSome then rhs.numbers find ++ lhs.numbers find else []
  | .call _ args => Expr.argNumbers find args
  | .index name i => i.numbers find ++ find.numbers .read name i.spelledLength
  | _ => []

/-- The slots that arguments read.  The last argument comes first. -/
def Expr.argNumbers (find : Lookup) : List Expr → List (Role × Nat)
  | [] => []
  | e :: es => Expr.argNumbers find es ++ e.numbers find
end

/-- A frame with what a statement declares in it. -/
def Frame.declare (f : Frame) : Stmt → Frame
  | .varDecl decl => f.add decl.name 1 .scalar
  | .arrayDecl name _ size _ => f.add name size.spelledLength (.array · size.spelledLength)
  | _ => f

/-- A frame with what statements declare in it. -/
def Frame.declareAll (f : Frame) (ss : List Stmt) : Frame :=
  ss.foldl Frame.declare f

/-- The numbers of a declaration: it stores to the next free slot. -/
def VarDecl.numbers (fs : List Frame) (f : Frame) (d : VarDecl) : List (Role × Nat) :=
  d.init.numbers (findIn (f :: fs)) ++ [(.store, f.used)]

def Assignment.numbers (fs : List Frame) (f : Frame) (a : Assignment) : List (Role × Nat) :=
  a.value.numbers (findIn (f :: fs)) ++ (findIn (f :: fs)).numbers .store a.name 0

mutual
/-- The numbers of a statement in the scope of frame `f` inside the frames `fs`, in the order of
its code.  The two branches of a conditional share one frame. -/
def Stmt.numbers (fs : List Frame) (f : Frame) : Stmt → List (Role × Nat)
  | .varDecl decl => decl.numbers fs f
  | .arrayDecl _ _ _ es => Expr.argNumbers (findIn (f :: fs)) es ++ [(.store, f.used)]
  | .assign assignment => assignment.numbers fs f
  | .arrayAssign name index value =>
    value.numbers (findIn (f :: fs)) ++ index.numbers (findIn (f :: fs)) ++
      (findIn (f :: fs)).numbers .store name index.spelledLength
  | .print value => value.numbers (findIn (f :: fs))
  | .delay duration => duration.numbers (findIn (f :: fs))
  | .write x y color => [x, y, color].flatMap (Expr.numbers (findIn (f :: fs)))
  | .writeBox x y width height color =>
    [x, y, width, height, color].flatMap (Expr.numbers (findIn (f :: fs)))
  | .conditional test body none =>
    (.size, Stmt.listSlots body) ::
      (test.numbers (findIn ({} :: f :: fs)) ++ Stmt.listNumbers (f :: fs) {} body)
  | .conditional test body (some otherwise) =>
    (.size, Nat.max (Stmt.listSlots body) (Stmt.listSlots otherwise)) ::
      (test.numbers (findIn ({} :: f :: fs)) ++ Stmt.listNumbers (f :: fs) {} body ++
        Stmt.listNumbers (f :: fs) {} otherwise)
  | .whileLoop test body =>
    (.size, Stmt.listSlots body) ::
      (test.numbers (findIn ({} :: f :: fs)) ++ Stmt.listNumbers (f :: fs) {} body)
  | .forLoop init test step body =>
    let g := ({} : Frame).declareAll (init.toList.map .varDecl)
    (.size, init.toList.length + Stmt.listSlots body) ::
      (init.toList.flatMap (VarDecl.numbers (f :: fs) {}) ++ test.numbers (findIn (g :: f :: fs)) ++
        Stmt.listNumbers (f :: fs) g body ++
        step.toList.flatMap (Assignment.numbers (f :: fs) (g.declareAll body)))
  | .ret value => value.numbers (findIn (f :: fs))
  | .block body => (.size, Stmt.listSlots body) :: Stmt.listNumbers (f :: fs) {} body
  | .function .. => []

/-- The numbers of statements, each in the scope of those before it. -/
def Stmt.listNumbers (fs : List Frame) (f : Frame) : List Stmt → List (Role × Nat)
  | [] => []
  | s :: ss => s.numbers fs f ++ Stmt.listNumbers fs (f.declare s) ss
end

/-- The numbers in the block of a function. -/
def FunctionDecl.numbers (top : Frame) (d : FunctionDecl) : List (Role × Nat) :=
  (.size, d.params.length + Stmt.listSlots d.body) ::
    Stmt.listNumbers [top] (({} : Frame).addParams d.params) d.body

/-- The numbers in the block of the top-level statements. -/
def mainNumbers (top : Frame) (ss : List Stmt) : List (Role × Nat) :=
  (.size, Stmt.listSlots ss) :: Stmt.listNumbers [] top ss

/-- The numbers of a program, for each of its blocks. -/
def Program.numbers (p : Program) : List (List (Role × Nat)) :=
  p.functions.map (FunctionDecl.numbers p.topFrame) ++ [mainNumbers p.topFrame p.statements]

/-! ## What the source means -/

section

variable {find : Lookup} {name : String} {depth : Nat}

theorem Lookup.numbers_scalar {slot : Nat} (h : find name = .ok (.scalar slot, depth))
    (role : Role) : find.numbers role name 0 = [(role, slot)] := by
  simp [numbers, slot?, h]

theorem Lookup.numbers_array {base length : Nat} (h : find name = .ok (.array base length, depth))
    (role : Role) (offset : Nat) : find.numbers role name offset = [(role, base + offset)] := by
  simp [numbers, slot?, h]

/-- A literal reads nothing. -/
theorem Expr.numbers_of_literalInt? {e : Expr} {n : Int64} (h : e.literalInt? = some n) :
    e.numbers find = [] := by
  rw [Expr.eq_int_of_literalInt? h]
  simp [numbers]

/-- A literal index spells the offset out. -/
theorem spelledLength_of_checkBounds {index : Expr} {i : Int64} {length offset : Nat}
    (hindex : index.literalInt? = some i) (h : checkBounds name i length = .ok offset) :
    index.spelledLength = offset := by
  obtain ⟨hoffset, -⟩ := checkBounds_eq_ok h
  rw [Expr.spelledLength, hindex, Option.elim_some]
  omega

theorem spelledLength_of_none {index : Expr} (h : index.literalInt? = none) :
    index.spelledLength = 0 := by
  simp [Expr.spelledLength, h]

end

theorem Stmt.numbers_of_output? {s : Stmt} {e : Expr} {op arrayOp : Opcode}
    (hs : s.output? = some (e, op, arrayOp)) (fs : List Frame) (f : Frame) :
    s.numbers fs f = e.numbers (findIn (f :: fs)) := by
  cases s with
  | print value =>
      cases hs
      rw [numbers]
  | ret value =>
      cases hs
      rw [numbers]
  | _ => contradiction

theorem Stmt.scopeTotals_of_output? {s : Stmt} {o : Expr × Opcode × Opcode}
    (hs : s.output? = some o) : s.scopeTotals = [] := by
  cases s with
  | print value => simp [scopeTotals]
  | ret value => simp [scopeTotals]
  | _ => contradiction

theorem Stmt.scopeTotals_of_operation? {s : Stmt} {o : List Expr × Opcode}
    (hs : s.operation? = some o) : s.scopeTotals = [] := by
  cases s with
  | delay duration => simp [scopeTotals]
  | write x y color => simp [scopeTotals]
  | writeBox x y width height color => simp [scopeTotals]
  | _ => contradiction

theorem Stmt.numbers_of_operation? {s : Stmt} {es : List Expr} {op : Opcode}
    (hs : s.operation? = some (es, op)) (fs : List Frame) (f : Frame) :
    s.numbers fs f = es.flatMap (Expr.numbers (findIn (f :: fs))) := by
  cases s with
  | delay duration =>
      cases hs
      simp [numbers]
  | write x y color =>
      cases hs
      rw [numbers]
  | writeBox x y width height color =>
      cases hs
      rw [numbers]
  | _ => contradiction

/-- The numbers of a loop, in the frame `g` after its start and the frame `h` after its body. -/
theorem Stmt.numbers_of_loop? {s : Stmt} {l : LoopParts} (hs : s.loop? = some l) (fs : List Frame)
    (f : Frame) {g h : Frame} (hg : g = ({} : Frame).declareAll l.start)
    (hh : h = g.declareAll l.body) :
    s.numbers fs f = (.size, l.init.toList.length + Stmt.listSlots l.body) ::
      (Stmt.listNumbers (f :: fs) {} l.start ++ l.test.numbers (findIn (g :: f :: fs)) ++
        Stmt.listNumbers (f :: fs) g l.body ++ Stmt.listNumbers (f :: fs) h l.advance) := by
  subst hg hh
  cases s with
  | whileLoop test body =>
      cases hs
      simp [numbers, listNumbers, LoopParts.start, LoopParts.advance, Frame.declareAll]
  | forLoop init test step body =>
      cases hs
      cases init <;> cases step <;>
        simp [numbers, listNumbers, LoopParts.start, LoopParts.advance, Frame.declareAll]
  | _ => contradiction

theorem Frame.declare_of_output? {s : Stmt} {o : Expr × Opcode × Opcode}
    (hs : s.output? = some o) (f : Frame) : f.declare s = f := by
  cases s with
  | print value => rfl
  | ret value => rfl
  | _ => contradiction

theorem Frame.declare_of_operation? {s : Stmt} {o : List Expr × Opcode}
    (hs : s.operation? = some o) (f : Frame) : f.declare s = f := by
  cases s with
  | delay duration => rfl
  | write x y color => rfl
  | writeBox x y width height color => rfl
  | _ => contradiction

theorem Frame.declare_of_loop? {s : Stmt} {l : LoopParts} (hs : s.loop? = some l) (f : Frame) :
    f.declare s = f := by
  cases s with
  | whileLoop test body => rfl
  | forLoop init test step body => rfl
  | _ => contradiction

/-- The frame of a loop holds what its start and its body declare. -/
theorem Laid.used_of_loop {fs : List Frame} {g h k : Frame} {l : LoopParts}
    {init body step : List Instruction} (hinit : Laid fs {} l.start init g)
    (hbody : Laid fs g l.body body h) (hstep : Laid fs h l.advance step k) :
    k.used = l.init.toList.length + Stmt.listSlots l.body := by
  rw [hstep.used, hbody.used, hinit.used]
  simp

/-- Statements declare what the source says. -/
theorem Laid.frame_eq {fs : List Frame} {f g : Frame} {ss : List Stmt} {code : List Instruction}
    (h : Laid fs f ss code g) : g = f.declareAll ss := by
  induction h with
  | cons hfirst hothers ihFirst ihOthers =>
      rw [ihOthers, ihFirst]
      rfl
  | arrayFilled fs f hlength =>
      simp [Frame.declareAll, Frame.declare, (arrayLength_eq_ok hlength).1]
  | arrayListed hlength hvalues =>
      simp [Frame.declareAll, Frame.declare, (arrayLength_eq_ok hlength).1]
  | outputArray hs hfind => exact (Frame.declare_of_output? hs _).symm
  | output hs hvalue => exact (Frame.declare_of_output? hs _).symm
  | operation hs hvalues => exact (Frame.declare_of_operation? hs _).symm
  | loop hs hinit htest hbody hstep => exact (Frame.declare_of_loop? hs _).symm
  | _ => rfl

/-! ## The code carries the numbers of the source -/

section

variable {find : Lookup}

mutual
/-- The code of an expression reads the slots that the expression means. -/
theorem ExprCode.carries {e : Expr} {code : List Instruction} :
    ExprCode find e code → Carries code (e.numbers find)
  | .literal value => by simpa only [Expr.numbers] using .inert rfl
  | .padWidth => by simpa only [Expr.numbers] using .inert rfl
  | .padHeight => by simpa only [Expr.numbers] using .inert rfl
  | .ident hfind => by
      rw [Expr.numbers, Lookup.numbers_scalar hfind]
      exact .address (.inl rfl) _ _
  | .randomInt hbound => by
      simpa only [Expr.numbers] using hbound.carries.before rfl
  | .binary hop hright hleft => by
      simp only [Expr.numbers, hop, Option.isSome_some, if_true]
      exact (hright.carries.append hleft.carries).before (BinaryOp.isInert_opcode hop)
  | .unsupported lhs rhs hop => by
      simpa only [Expr.numbers, hop] using .inert rfl
  | .call hfind hargs => by
      simpa only [Expr.numbers] using hargs.carries.before rfl
  | .element hfind hindex hoffset => by
      rw [Expr.numbers, Expr.numbers_of_literalInt? hindex, Lookup.numbers_array hfind,
        spelledLength_of_checkBounds hindex hoffset]
      exact (Carries.address (.inr (.inl rfl)) _ _).after [.pushNat 1] rfl
  | .computed hfind hlit hindex => by
      rw [Expr.numbers, Lookup.numbers_array hfind, spelledLength_of_none hlit]
      exact hindex.carries.append (.address (.inr (.inr rfl)) _ _)

theorem ArgsCode.carries {es : List Expr} {code : List Instruction} :
    ArgsCode find es code → Carries code (Expr.argNumbers find es)
  | .nil => by simpa only [Expr.argNumbers] using .inert rfl
  | .cons hothers hfirst => by
      simpa only [Expr.argNumbers] using hothers.carries.append hfirst.carries
end

theorem InOrderCode.carries {es : List Expr} {code : List Instruction}
    (h : InOrderCode find es code) : Carries code (es.flatMap (Expr.numbers find)) := by
  induction h with
  | nil => exact .inert rfl
  | cons hfirst hothers ih => exact hfirst.carries.append ih

end

/-- The code of statements carries the numbers that the statements mean. -/
theorem Laid.carries {fs : List Frame} {f g : Frame} {ss : List Stmt} {code : List Instruction}
    (h : Laid fs f ss code g) : Carries code (Stmt.listNumbers fs f ss) := by
  induction h with
  | nil fs f => simpa only [Stmt.listNumbers] using .inert rfl
  | @cons fs f g h s ss first others hfirst hothers ihFirst ihOthers =>
      have hg : g = f.declare s := hfirst.frame_eq
      subst hg
      simp only [Stmt.listNumbers, List.append_nil] at ihFirst ⊢
      exact ihFirst.append ihOthers
  | varDecl hinit =>
      simpa only [Stmt.listNumbers, Stmt.numbers, VarDecl.numbers, List.append_nil] using
        hinit.carries.append (.st _ _)
  | assign hvalue hfind =>
      simpa only [Stmt.listNumbers, Stmt.numbers, Assignment.numbers, Lookup.numbers_scalar hfind,
        List.append_nil] using hvalue.carries.append (.st _ _)
  | arrayFilled fs f hlength =>
      simpa only [Stmt.listNumbers, Stmt.numbers, Expr.argNumbers, List.append_nil, List.nil_append]
        using (Carries.sta _ _ _).after _ rfl
  | arrayListed hlength hvalues =>
      simpa only [Stmt.listNumbers, Stmt.numbers, List.append_nil] using
        hvalues.carries.append (.sta _ _ _)
  | setElement hvalue hfind hindex hoffset =>
      simpa only [Stmt.listNumbers, Stmt.numbers, Expr.numbers_of_literalInt? hindex,
        Lookup.numbers_array hfind, spelledLength_of_checkBounds hindex hoffset, List.append_nil]
        using hvalue.carries.append (.sta _ _ _)
  | @setComputed fs f name index value base length depth code slot hvalue hfind hlit hindex =>
      have hslot : Carries (.pushNat 1 :: slot) (index.numbers (findIn (f :: fs))) :=
        hindex.carries.after [.pushNat 1] rfl
      simpa only [Stmt.listNumbers, Stmt.numbers, Lookup.numbers_array hfind,
        spelledLength_of_none hlit, List.append_nil, Nat.add_zero] using
        (hvalue.carries.append hslot).append (.sta_computed _ _)
  | @outputArray fs f s name op arrayOp base length depth hs hfind =>
      have hread := (Carries.address (.inr (.inl rfl)) base depth).after [.pushNat length] rfl
      have hinert : [Instruction.pushNat length, .plain arrayOp].all Instruction.isInert = true :=
        (Stmt.output?_inert hs).2
      simp only [Stmt.listNumbers, Stmt.numbers_of_output? hs, Expr.numbers,
        Lookup.numbers_array hfind, List.append_nil, Nat.add_zero]
      exact hread.before hinert
  | output hs hvalue =>
      simpa only [Stmt.listNumbers, Stmt.numbers_of_output? hs, List.append_nil] using
        hvalue.carries.before (Stmt.output?_inert hs).1
  | operation hs hvalues =>
      simpa only [Stmt.listNumbers, Stmt.numbers_of_operation? hs, List.append_nil] using
        hvalues.carries.before (Stmt.operation?_inert hs)
  | block hbody ih =>
      simpa [Stmt.listNumbers, Stmt.numbers, hbody.used] using Carries.piecewise.framed ih _
  | conditional htest hbody ih =>
      simpa [Stmt.listNumbers, Stmt.numbers, hbody.used] using
        Carries.piecewise.conditional htest.carries ih _
  | alternative htest hbody hotherwise ihBody ihElse =>
      simpa [Stmt.listNumbers, Stmt.numbers, hbody.used, hotherwise.used] using
        Carries.piecewise.alternative htest.carries ihBody ihElse _
  | @loop fs f g h k s initCode testCode code stepCode l hs hinit htest hbody hstep ihInit ihBody
      ihStep =>
      have hused := Laid.used_of_loop hinit hbody hstep
      have hnumbers := Stmt.numbers_of_loop? hs fs f hinit.frame_eq hbody.frame_eq
      simpa only [Stmt.listNumbers, hnumbers, hused, List.append_nil, List.singleton_append] using
        Carries.piecewise.loop ihInit htest.carries ihBody ihStep k.used

/-! ## Numbers that are words -/

/-- All numbers are signed words. -/
def AllNarrow (numbers : List (Role × Nat)) : Prop :=
  ∀ m ∈ numbers, (m.2 : Int) < signedLimit

namespace AllNarrow

variable {m : Role × Nat} {numbers numbers' : List (Role × Nat)}

theorem nil : AllNarrow [] :=
  fun _ h => by cases h

theorem cons (hm : (m.2 : Int) < signedLimit) (h : AllNarrow numbers) : AllNarrow (m :: numbers) :=
  List.forall_mem_cons.mpr ⟨hm, h⟩

theorem append (h : AllNarrow numbers) (h' : AllNarrow numbers') :
    AllNarrow (numbers ++ numbers') :=
  List.forall_mem_append.mpr ⟨h, h'⟩

end AllNarrow

/-- The sizes of the open frames are signed words. -/
def SizesFit (sizes : List Nat) : Prop :=
  ∀ size ∈ sizes, (size : Int) < signedLimit

section

variable {sizes : List Nat} {fs : List Frame}

theorem SizesFit.enter (h : SizesFit sizes) {size : Nat} (hsize : (size : Int) < signedLimit) :
    SizesFit (size :: sizes) :=
  List.forall_mem_cons.mpr ⟨hsize, h⟩

/-- Slots of a frame whose size is a signed word are signed words. -/
theorem Holds.narrow {slot depth count : Int} (h : Holds sizes slot depth count)
    (hsizes : SizesFit sizes) : slot + count ≤ signedLimit := by
  obtain ⟨hops, size, hdepth, hsize, hslot, hcount, hfit⟩ := h
  have hlt := hsizes size (List.mem_of_getElem? hsize)
  omega

theorem Holds.narrow_one {slot : Nat} {depth count : Int} (h : Holds sizes slot depth count)
    (hsizes : SizesFit sizes) (role : Role) : AllNarrow [(role, slot)] := by
  have hone := h.one.narrow hsizes
  exact .cons (by dsimp only; omega) .nil

theorem Covers.narrow_scalar (hcovers : Covers sizes fs) (hsizes : SizesFit sizes) {name : String}
    {slot depth : Nat} (hfind : findIn fs name = .ok (.scalar slot, depth)) (role : Role) :
    AllNarrow ((findIn fs).numbers role name 0) := by
  rw [Lookup.numbers_scalar hfind]
  exact Holds.narrow_one (hcovers.find hfind) hsizes role

theorem Covers.narrow_array (hcovers : Covers sizes fs) (hsizes : SizesFit sizes) {name : String}
    {base length depth offset : Nat} (hfind : findIn fs name = .ok (.array base length, depth))
    (hoffset : offset = 0 ∨ offset < length) (role : Role) :
    AllNarrow ((findIn fs).numbers role name offset) := by
  obtain ⟨hops, size, hdepth, hsize, hslot, hcount, hfit⟩ := hcovers.find hfind
  have helement : Holds sizes (base + offset : Nat) depth 1 :=
    ⟨hops, size, hdepth, hsize, by omega, by omega, by omega⟩
  rw [Lookup.numbers_array hfind]
  exact helement.narrow_one hsizes role

mutual
/-- Where all frames are signed words, so are the slots that an expression reads. -/
theorem ExprCode.narrow (hcovers : Covers sizes fs) (hsizes : SizesFit sizes) {e : Expr}
    {code : List Instruction} :
    ExprCode (findIn fs) e code → AllNarrow (e.numbers (findIn fs))
  | .literal value => by simpa only [Expr.numbers] using .nil
  | .padWidth => by simpa only [Expr.numbers] using .nil
  | .padHeight => by simpa only [Expr.numbers] using .nil
  | .ident hfind => by simpa only [Expr.numbers] using hcovers.narrow_scalar hsizes hfind .read
  | .randomInt hbound => by simpa only [Expr.numbers] using hbound.narrow hcovers hsizes
  | .binary hop hright hleft => by
      simp only [Expr.numbers, hop, Option.isSome_some, if_true]
      exact (hright.narrow hcovers hsizes).append (hleft.narrow hcovers hsizes)
  | .unsupported lhs rhs hop => by simpa only [Expr.numbers, hop] using .nil
  | .call hfind hargs => by simpa only [Expr.numbers] using hargs.narrow hcovers hsizes
  | .element hfind hindex hoffset => by
      rw [Expr.numbers, Expr.numbers_of_literalInt? hindex,
        spelledLength_of_checkBounds hindex hoffset]
      exact hcovers.narrow_array hsizes hfind (.inr (checkBounds_eq_ok hoffset).2) .read
  | .computed hfind hlit hindex => by
      rw [Expr.numbers, spelledLength_of_none hlit]
      exact (hindex.narrow hcovers hsizes).append
        (hcovers.narrow_array hsizes hfind (.inl rfl) .read)

theorem ArgsCode.narrow (hcovers : Covers sizes fs) (hsizes : SizesFit sizes) {es : List Expr}
    {code : List Instruction} :
    ArgsCode (findIn fs) es code → AllNarrow (Expr.argNumbers (findIn fs) es)
  | .nil => by simpa only [Expr.argNumbers] using .nil
  | .cons hothers hfirst => by
      simpa only [Expr.argNumbers] using
        (hothers.narrow hcovers hsizes).append (hfirst.narrow hcovers hsizes)
end

theorem InOrderCode.narrow (hcovers : Covers sizes fs) (hsizes : SizesFit sizes) {es : List Expr}
    {code : List Instruction} (h : InOrderCode (findIn fs) es code) :
    AllNarrow (es.flatMap (Expr.numbers (findIn fs))) := by
  induction h with
  | nil => exact .nil
  | cons hfirst hothers ih => exact (hfirst.narrow hcovers hsizes).append ih

end

/-- Where all frames are signed words, and so are the scopes inside the statements, all that the
statements mean are signed words. -/
theorem Laid.narrow {fs : List Frame} {f g : Frame} {ss : List Stmt} {code : List Instruction}
    {sizes : List Nat} (h : Laid fs f ss code g) (hf : Stacked f.names f.used)
    (hcovers : Covers sizes (g :: fs)) (hsizes : SizesFit sizes) (hfit : ScopesFit ss) :
    AllNarrow (Stmt.listNumbers fs f ss) := by
  induction h generalizing sizes with
  | nil fs f => simpa only [Stmt.listNumbers] using .nil
  | @cons fs f g h s ss first others hfirst hothers ihFirst ihOthers =>
      obtain ⟨hfitFirst, hfitOthers⟩ := scopesFit_cons.mp hfit
      have hbefore := ihFirst hf (hcovers.forget hothers.names) hsizes (scopesFit_one.mpr hfitFirst)
      have hafter := ihOthers (hfirst.stacked hf) hcovers hsizes hfitOthers
      have hg : g = f.declare s := hfirst.frame_eq
      subst hg
      simp only [Stmt.listNumbers, List.append_nil] at hbefore ⊢
      exact hbefore.append hafter
  | varDecl hinit =>
      have hnew : Holds sizes _ 0 1 := hcovers 0 _ rfl _ _ List.mem_cons_self
      simpa only [Stmt.listNumbers, Stmt.numbers, VarDecl.numbers, List.append_nil] using
        (hinit.narrow (hcovers.forget ⟨[_], rfl⟩) hsizes).append (hnew.narrow_one hsizes .store)
  | assign hvalue hfind =>
      simpa only [Stmt.listNumbers, Stmt.numbers, Assignment.numbers, List.append_nil] using
        (hvalue.narrow hcovers hsizes).append (hcovers.narrow_scalar hsizes hfind .store)
  | arrayFilled fs f hlength =>
      have hnew : Holds sizes _ 0 _ := hcovers 0 _ rfl _ _ List.mem_cons_self
      simpa only [Stmt.listNumbers, Stmt.numbers, Expr.argNumbers, List.append_nil, List.nil_append]
        using hnew.narrow_one hsizes .store
  | arrayListed hlength hvalues =>
      have hnew : Holds sizes _ 0 _ := hcovers 0 _ rfl _ _ List.mem_cons_self
      simpa only [Stmt.listNumbers, Stmt.numbers, List.append_nil] using
        (hvalues.narrow (hcovers.forget ⟨[_], rfl⟩) hsizes).append (hnew.narrow_one hsizes .store)
  | setElement hvalue hfind hindex hoffset =>
      have hoffset' := (checkBounds_eq_ok hoffset).2
      simpa only [Stmt.listNumbers, Stmt.numbers, Expr.numbers_of_literalInt? hindex,
        spelledLength_of_checkBounds hindex hoffset, List.append_nil] using
        (hvalue.narrow hcovers hsizes).append
          (hcovers.narrow_array hsizes hfind (.inr hoffset') .store)
  | setComputed hvalue hfind hlit hindex =>
      simpa only [Stmt.listNumbers, Stmt.numbers, spelledLength_of_none hlit, List.append_nil] using
        ((hvalue.narrow hcovers hsizes).append (hindex.narrow hcovers hsizes)).append
          (hcovers.narrow_array hsizes hfind (.inl rfl) .store)
  | outputArray hs hfind =>
      simpa only [Stmt.listNumbers, Stmt.numbers_of_output? hs, Expr.numbers, List.append_nil] using
        hcovers.narrow_array hsizes hfind (.inl rfl) .read
  | output hs hvalue =>
      simpa only [Stmt.listNumbers, Stmt.numbers_of_output? hs, List.append_nil] using
        hvalue.narrow hcovers hsizes
  | operation hs hvalues =>
      simpa only [Stmt.listNumbers, Stmt.numbers_of_operation? hs, List.append_nil] using
        hvalues.narrow hcovers hsizes
  | @block fs f g body code hbody ih =>
      obtain ⟨hsize, hinside⟩ := hfit.frame (by rw [Stmt.scopeTotals]) hbody
      have hopen := hcovers.enter (hbody.stacked .nil) (Nat.le_refl g.used)
      have hsizes' := hsizes.enter hsize
      simp only [Stmt.listNumbers, Stmt.numbers, List.append_nil]
      exact .cons (by simpa [hbody.used] using hsize) (ih .nil hopen hsizes' hinside)
  | @conditional fs f g test body testCode code htest hbody ih =>
      obtain ⟨hsize, hinside⟩ := hfit.frame (by rw [Stmt.scopeTotals]) hbody
      have hopen := hcovers.enter (hbody.stacked .nil) (Nat.le_refl g.used)
      have hsizes' := hsizes.enter hsize
      simp only [Stmt.listNumbers, Stmt.numbers, List.append_nil]
      exact .cons (by simpa [hbody.used] using hsize)
        ((htest.narrow hopen.start hsizes').append (ih .nil hopen hsizes' hinside))
  | @alternative fs f g h test body otherwise testCode code elseCode htest hbody hotherwise ihBody
      ihElse =>
      obtain ⟨hsize, hinside, hinside'⟩ := hfit.alternative hbody hotherwise
      have hopen := hcovers.enter (hbody.stacked .nil) (Nat.le_max_left g.used h.used)
      have hopen' := hcovers.enter (hotherwise.stacked .nil) (Nat.le_max_right g.used h.used)
      have hsizes' := hsizes.enter hsize
      simp only [Stmt.listNumbers, Stmt.numbers, List.append_nil]
      exact .cons (by simpa [hbody.used, hotherwise.used] using hsize)
        (((htest.narrow hopen.start hsizes').append (ihBody .nil hopen hsizes' hinside)).append
          (ihElse .nil hopen' hsizes' hinside'))
  | @loop fs f g h k s initCode testCode code stepCode l hs hinit htest hbody hstep ihInit ihBody
      ihStep =>
      obtain ⟨hsize, hinside⟩ := hfit.loop hs hinit hbody hstep
      have hg := hinit.stacked .nil
      have hh := hbody.stacked hg
      have hopen := hcovers.enter (hstep.stacked hh) (Nat.le_refl k.used)
      have hopenStep := hopen.forget hstep.names
      have hopenBody := hopenStep.forget hbody.names
      have hsizes' := hsizes.enter hsize
      have hfitInit : ScopesFit l.start := by simp [ScopesFit]
      have hfitStep : ScopesFit l.advance := by simp [ScopesFit]
      have hused := Laid.used_of_loop hinit hbody hstep
      have hnumbers := Stmt.numbers_of_loop? hs fs f hinit.frame_eq hbody.frame_eq
      simp only [Stmt.listNumbers, hnumbers, List.append_nil]
      exact .cons (hused ▸ hsize)
        ((((ihInit .nil hopenBody hsizes' hfitInit).append (htest.narrow hopenBody hsizes')).append
          (ihBody hg hopenStep hsizes' hinside)).append (ihStep hh hopen hsizes' hfitStep))

/-! ## Frames for all scopes -/

/-- For each total there is a frame that is at least as large. -/
def HasSizes (totals : List Nat) (numbers : List (Role × Nat)) : Prop :=
  ∀ n ∈ totals, ∃ size, n ≤ size ∧ (.size, size) ∈ numbers

namespace HasSizes

variable {totals totals' : List Nat} {numbers numbers' : List (Role × Nat)}

theorem nil : HasSizes [] numbers :=
  fun _ h => by cases h

/-- Numbers before and after make no difference. -/
theorem among (h : HasSizes totals numbers) (hsub : ∀ m ∈ numbers, m ∈ numbers') :
    HasSizes totals numbers' := by
  intro n hn
  obtain ⟨size, hle, hmem⟩ := h n hn
  exact ⟨size, hle, hsub _ hmem⟩

theorem append (h : HasSizes totals numbers) (h' : HasSizes totals' numbers) :
    HasSizes (totals ++ totals') numbers :=
  List.forall_mem_append.mpr ⟨h, h'⟩

/-- A scope with a frame of its own, or with more than it takes. -/
theorem cons {n size : Nat} (hle : n ≤ size) (hmem : (.size, size) ∈ numbers)
    (h : HasSizes totals numbers) : HasSizes (n :: totals) numbers :=
  List.forall_mem_cons.mpr ⟨⟨size, hle, hmem⟩, h⟩

end HasSizes

/-- Every scope inside statements has a frame. -/
theorem Laid.hasSizes {fs : List Frame} {f g : Frame} {ss : List Stmt} {code : List Instruction}
    (h : Laid fs f ss code g) : HasSizes (Stmt.listTotals ss) (Stmt.listNumbers fs f ss) := by
  induction h with
  | nil fs f => simpa only [Stmt.listTotals] using .nil
  | @cons fs f g h s ss first others hfirst hothers ihFirst ihOthers =>
      have hg : g = f.declare s := hfirst.frame_eq
      subst hg
      simp only [Stmt.listTotals, Stmt.listNumbers, List.append_nil] at *
      exact (ihFirst.among fun m hm => List.mem_append_left _ hm).append
        (ihOthers.among fun m hm => List.mem_append_right _ hm)
  | outputArray hs hfind =>
      simpa only [Stmt.listTotals, Stmt.scopeTotals_of_output? hs, List.append_nil] using .nil
  | output hs hvalue =>
      simpa only [Stmt.listTotals, Stmt.scopeTotals_of_output? hs, List.append_nil] using .nil
  | operation hs hvalues =>
      simpa only [Stmt.listTotals, Stmt.scopeTotals_of_operation? hs, List.append_nil] using .nil
  | block hbody ih =>
      simp only [Stmt.listTotals, Stmt.scopeTotals, Stmt.listNumbers, Stmt.numbers, List.append_nil]
      exact .cons (Nat.le_refl _) List.mem_cons_self (ih.among fun m hm => by simp [hm])
  | conditional htest hbody ih =>
      simp only [Stmt.listTotals, Stmt.scopeTotals, Stmt.listNumbers, Stmt.numbers, List.append_nil]
      exact .cons (Nat.le_refl _) List.mem_cons_self (ih.among fun m hm => by simp [hm])
  | alternative htest hbody hotherwise ihBody ihElse =>
      simp only [Stmt.listTotals, Stmt.scopeTotals, Stmt.listNumbers, Stmt.numbers, List.append_nil]
      exact .cons (Nat.le_max_left _ _) List.mem_cons_self
        (.cons (Nat.le_max_right _ _) List.mem_cons_self
          ((ihBody.among fun m hm => by simp [hm]).append (ihElse.among fun m hm => by simp [hm])))
  | @loop fs f g h k s initCode testCode code stepCode l hs hinit htest hbody hstep ihInit ihBody
      ihStep =>
      have hnumbers := Stmt.numbers_of_loop? hs fs f hinit.frame_eq hbody.frame_eq
      simp only [Stmt.listTotals, Stmt.listNumbers, Stmt.scopeTotals_of_loop? hs, hnumbers,
        List.append_nil]
      exact .cons (Nat.le_refl _) List.mem_cons_self (ihBody.among fun m hm => by simp [hm])
  | _ => simpa only [Stmt.listTotals, Stmt.scopeTotals, List.append_nil] using .nil

/-! ## Blocks -/

section

variable {config : Config} {top : Frame}

theorem FunctionDecl.used_of_laid {d : FunctionDecl} {body : List Instruction} {g : Frame}
    (hbody : Laid [top] (({} : Frame).addParams d.params) d.body body g) :
    g.used = d.params.length + Stmt.listSlots d.body := by
  rw [hbody.used, Frame.addParams_used]
  exact congrArg (· + _) (Nat.zero_add _)

/-- The block of a function carries the numbers of the function. -/
theorem FunctionCode.carries {d : FunctionDecl} {code : List Instruction}
    (h : FunctionCode top d code) : Carries code (d.numbers top) := by
  cases h with
  | @mk body g hbody =>
      have htail : (if Generator.endsWithReturn d.body then []
          else [Instruction.plain .ret]).all Instruction.isInert = true := by
        split <;> rfl
      have hopen : Carries [.pushNat g.used, .plain .alloc] [(.size, g.used)] := fun _ => rfl
      rw [FunctionDecl.numbers, ← FunctionDecl.used_of_laid hbody]
      exact hopen.append (hbody.carries.before htail)

theorem FunctionCode.narrow {d : FunctionDecl} {code : List Instruction}
    (h : FunctionCode top d code) (htop : Stacked top.names 0)
    (hfit : ∀ n ∈ (d.params.length + Stmt.listSlots d.body) :: Stmt.listTotals d.body,
      (n : Int) < signedLimit) : AllNarrow (d.numbers top) := by
  cases h with
  | @mk body g hbody =>
      obtain ⟨hsize, hinside⟩ := List.forall_mem_cons.mp hfit
      have hparams := Frame.addParams_stacked (f := {}) .nil d.params
      have hcovers : Covers [g.used] [g, top] :=
        (Covers.functions htop).enter (hbody.stacked hparams) (Nat.le_refl g.used)
      have hsizes : SizesFit [g.used] := by
        simpa [SizesFit, FunctionDecl.used_of_laid hbody] using hsize
      exact .cons hsize (hbody.narrow hparams hcovers hsizes hinside)

theorem FunctionCode.hasSizes {d : FunctionDecl} {code : List Instruction}
    (h : FunctionCode top d code) :
    HasSizes ((d.params.length + Stmt.listSlots d.body) :: Stmt.listTotals d.body)
      (d.numbers top) := by
  cases h with
  | mk hbody =>
      exact .cons (Nat.le_refl _) List.mem_cons_self
        (hbody.hasSizes.among fun m hm => List.mem_cons_of_mem _ hm)

theorem MainCode.carries {ss : List Stmt} {code : List Instruction}
    (h : MainCode config top ss code) (hused : top.used = 0) :
    Carries code (mainNumbers top ss) := by
  cases h with
  | @mk body g hbody =>
      have hclearing : config.clearing.all Instruction.isInert = true := by
        rw [Config.clearing]
        cases config.clearColor <;> rfl
      have hsize : g.used = Stmt.listSlots ss := by rw [hbody.used, hused, Nat.zero_add]
      rw [mainNumbers, ← hsize]
      exact (Carries.piecewise.framed (hbody.carries.after _ hclearing) g.used).before rfl

theorem MainCode.narrow {ss : List Stmt} {code : List Instruction}
    (h : MainCode config top ss code) (htop : Stacked top.names 0) (hused : top.used = 0)
    (hfit : ∀ n ∈ Stmt.listSlots ss :: Stmt.listTotals ss, (n : Int) < signedLimit) :
    AllNarrow (mainNumbers top ss) := by
  cases h with
  | @mk body g hbody =>
      obtain ⟨hsize, hinside⟩ := List.forall_mem_cons.mp hfit
      have hnone : Covers [] [] := fun k f hf => by cases hf
      have htop' : Stacked top.names top.used := hused ▸ htop
      have hcovers : Covers [g.used] [g] :=
        hnone.enter (hbody.stacked htop') (Nat.le_refl g.used)
      have hsizes : SizesFit [g.used] := by
        simpa [SizesFit, hbody.used, hused] using hsize
      exact .cons hsize (hbody.narrow htop' hcovers hsizes hinside)

theorem MainCode.hasSizes {ss : List Stmt} {code : List Instruction}
    (h : MainCode config top ss code) :
    HasSizes (Stmt.listSlots ss :: Stmt.listTotals ss) (mainNumbers top ss) := by
  cases h with
  | mk hbody =>
      exact .cons (Nat.le_refl _) List.mem_cons_self
        (hbody.hasSizes.among fun m hm => List.mem_cons_of_mem _ hm)

theorem FunctionBlocks.numbers {ds : List FunctionDecl} {blocks : List Block}
    (h : FunctionBlocks top ds blocks) :
    blocks.map (fun b => numbersFrom [] b.code) =
      ds.map fun d => (d.numbers top).map fun m => (m.1, m.1.carried m.2) := by
  induction h with
  | nil => rfl
  | cons hcode hrest ih => rw [List.map_cons, List.map_cons, ih, hcode.carries []]

/-- Every function has code. -/
theorem FunctionBlocks.exists_code {ds : List FunctionDecl} {blocks : List Block}
    (h : FunctionBlocks top ds blocks) {d : FunctionDecl} (hd : d ∈ ds) :
    ∃ code, FunctionCode top d code := by
  induction h with
  | nil => contradiction
  | cons hcode hrest ih =>
      rcases List.mem_cons.mp hd with rfl | hd
      · exact ⟨_, hcode⟩
      · exact ih hd

end

/-! ## Programs -/

namespace Compiled

variable {config : Config} {p : Program} {blocks : List Block}

/-- The blocks carry the numbers of the program. -/
theorem numbers (h : Compiled config p blocks) :
    blocks.map (fun b => numbersFrom [] b.code) =
      p.numbers.map fun ns => ns.map fun m => (m.1, m.1.carried m.2) := by
  cases h with
  | mk hfunctions hmain =>
      simp [Program.numbers, hfunctions.numbers, hmain.carries p.topFrame_used []]

theorem narrow (h : Compiled config p blocks)
    (hslots : ∀ n ∈ p.slotTotals, (n : Int) < signedLimit) : ∀ ns ∈ p.numbers, AllNarrow ns := by
  have htop : Stacked p.topFrame.names 0 := p.topFrame_used ▸ p.topFrame_stacked
  cases h with
  | mk hfunctions hmain =>
      intro ns hns
      rcases List.mem_append.mp hns with hns | hns
      · obtain ⟨d, hd, rfl⟩ := List.mem_map.mp hns
        obtain ⟨code, hcode⟩ := hfunctions.exists_code hd
        exact hcode.narrow htop fun n hn => hslots n (Program.slotTotals_function hd hn)
      · cases List.mem_singleton.mp hns
        exact hmain.narrow htop p.topFrame_used fun n hn =>
          hslots n (Program.slotTotals_statements hn)

/-- Every scope of the program has a frame. -/
theorem hasSizes (h : Compiled config p blocks) : HasSizes p.slotTotals p.numbers.flatten := by
  cases h with
  | mk hfunctions hmain =>
      have hstatements : HasSizes (Stmt.listSlots p.statements :: Stmt.listTotals p.statements)
          p.numbers.flatten := hmain.hasSizes.among fun m hm =>
        List.mem_flatten.mpr ⟨_, List.mem_append_right _ (List.mem_singleton.mpr rfl), hm⟩
      refine List.forall_mem_cons.mpr ⟨hstatements _ List.mem_cons_self, fun n hn => ?_⟩
      obtain ⟨s, hs, hn⟩ := Stmt.mem_listTotals.mp hn
      cases hfunction : s.function? with
      | none =>
          have hmem : s ∈ p.statements := List.mem_filter.mpr ⟨hs, by simp [hfunction]⟩
          exact hstatements n (List.mem_cons_of_mem _ (Stmt.mem_listTotals.mpr ⟨s, hmem, hn⟩))
      | some d =>
          have hd : d ∈ p.functions := List.mem_filterMap.mpr ⟨s, hs, hfunction⟩
          obtain ⟨code, hcode⟩ := hfunctions.exists_code hd
          obtain ⟨size, hle, hmem⟩ := hcode.hasSizes n (by
            cases s with
            | function name params result body =>
                cases hfunction
                simpa only [Stmt.scopeTotals] using hn
            | _ => contradiction)
          exact ⟨size, hle, List.mem_flatten.mpr
            ⟨_, List.mem_append_left _ (List.mem_map_of_mem hd), hmem⟩⟩

end Compiled

/-- The blocks of an accepted program carry the numbers of the program as words, and the words are
the numbers exactly if no scope takes more slots than a signed word can count.  Taking slots faults
only where a scope takes as many slots as there are words. -/
theorem compile_numbers (config : Config) (p : Program) :
    (∀ image, compile config p = .ok image →
      image.blocks.map (fun b => numbersFrom [] b.code) =
          p.numbers.map (fun ns => ns.map fun m => (m.1, m.1.carried m.2)) ∧
        ((∀ ns ∈ p.numbers, ∀ m ∈ ns, m.1.carried m.2 = m.2) ↔
          ∀ n ∈ p.slotTotals, (n : Int) < signedLimit)) ∧
      (compile config p = .error (.fault .addOverflow) → ∃ n ∈ p.slotTotals, wordLimit ≤ n) := by
  constructor
  · intro image hcompile
    have hcompiled := (compiled_of_compile hcompile).1
    refine ⟨hcompiled.numbers, fun hsame n hn => ?_, fun hslots ns hns m hm => ?_⟩
    · obtain ⟨size, hle, hmem⟩ := hcompiled.hasSizes n hn
      obtain ⟨ns, hns, hm⟩ := List.mem_flatten.mp hmem
      have hlt := Role.lt_of_carried (hsame ns hns _ hm)
      omega
    · exact m.1.carried_of_lt (hcompiled.narrow hslots ns hns m hm)
  · intro hfails
    rcases compile_outcome config p with ⟨image, -, -, hcompile⟩ | ⟨e, he, hexcuse⟩
    · rw [hcompile] at hfails
      cases hverify : image.verify <;> simp [hverify, Except.map] at hfails
    · rw [hfails] at he
      cases he
      rcases hexcuse with hreport | ⟨f, hf, hexcuses⟩
      · contradiction
      · cases hf
        exact hexcuses

/-- An array that is as long as an array can be. -/
def Demo.longArray (name : String) : Stmt :=
  .arrayDecl name .int (.int 9223372036854775807) []

/-- Three of them take more slots than there are words. -/
def Demo.overfull : Program where
  items := [Demo.longArray "a", Demo.longArray "b", Demo.longArray "c"]

/-- The numbers of the demo are words, and so the code carries them. -/
theorem compile_demo_numbers :
    (∃ image, compile {} Demo.program = .ok image ∧
        image.blocks.map (fun b => numbersFrom [] b.code) =
          [[(.size, 2), (.read, 1), (.read, 0)],
            [(.size, 6), (.store, 0), (.store, 1), (.store, 2), (.read, 0), (.store, 0), (.size, 1),
              (.store, 0), (.read, 0), (.read, 0), (.read, 0), (.store, 0), (.store, 3), (.read, 3),
              (.read, 4)]] ∧
        ∀ ns ∈ Demo.program.numbers, ∀ m ∈ ns, m.1.carried m.2 = m.2) ∧
      compile {} Demo.overfull = .error (.fault .addOverflow) ∧
      ∃ n ∈ Demo.overfull.slotTotals, wordLimit ≤ n := by
  constructor
  · have haccepted : (compile {} Demo.program).toOption.isSome = true := by decide +kernel
    cases hcompile : compile {} Demo.program with
    | error e =>
        rw [hcompile] at haccepted
        contradiction
    | ok image =>
        obtain ⟨hnumbers, hwords⟩ := (compile_numbers {} Demo.program).1 image hcompile
        exact ⟨image, rfl, hnumbers.trans (by decide +kernel), hwords.mpr (by decide)⟩
  · have hfails : compile {} Demo.overfull = .error (.fault .addOverflow) := rfl
    exact ⟨hfails, (compile_numbers {} Demo.overfull).2 hfails⟩

/-- Two variables after a long array. -/
def Demo.wide : Program where
  items := [
    Demo.longArray "a",
    .varDecl ⟨"x", .int, .int 1⟩,
    .varDecl ⟨"y", .int, .int 2⟩,
    .print (.ident "y")]

/-- The frame gets a negative size, and the last variable is stored to a slot that is not the one
it is read from.  Three long arrays are a fault. -/
theorem compile_wide_numbers :
    Demo.wide.numbers = [[(.size, 9223372036854775809), (.store, 0), (.store, 9223372036854775807),
        (.store, 9223372036854775808), (.read, 9223372036854775808)]] ∧
      (∃ image, compile { clearColor := none } Demo.wide = .ok image ∧
        image.blocks.map (fun b => numbersFrom [] b.code) =
          [[(.size, -9223372036854775807), (.store, 0), (.store, 9223372036854775807),
            (.store, -9223372036854775808), (.read, 9223372036854775808)]]) ∧
      compile { clearColor := none } Demo.overfull = .error (.fault .addOverflow) := by
  refine ⟨by decide +kernel, ?_, rfl⟩
  have hnumbers : (compile { clearColor := none } Demo.wide).toOption.map (fun image =>
      image.blocks.map fun b => numbersFrom [] b.code) =
      some [[(.size, -9223372036854775807), (.store, 0), (.store, 9223372036854775807),
        (.store, -9223372036854775808), (.read, 9223372036854775808)]] := by
    decide +kernel
  cases hcompile : compile { clearColor := none } Demo.wide with
  | error e =>
      rw [hcompile] at hnumbers
      contradiction
  | ok image =>
      rw [hcompile] at hnumbers
      exact ⟨image, rfl, Option.some.inj hnumbers⟩

end PadCompiler
