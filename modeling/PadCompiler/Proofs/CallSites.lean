import Mathlib.Data.List.Forall2
import PadCompiler.Proofs.Lowercase
import PadCompiler.Proofs.Piecewise
import PadCompiler.Proofs.Separate

/-!
# PadCompiler.Proofs.CallSites

The calls in the code and the calls in the source.

A call pushes the number of its arguments, then a label, and then calls.  `Sites` says of code that
labels stand in such calls only, and which functions are called, in the order of the code.  Pieces
of code with this property can be put together, so that the code of an expression has the calls of
the expression (`ExprCode.sites`), and the code of statements has the calls of the statements
(`Laid.sites`).

Labels are in small letters.  The number of arguments is what the name stands for at the top level,
which the last declaration of the name decides.

* `compile_call_sites` — each label in an accepted program is pushed by a call of the source, after
  the number of parameters of the function that the source calls.
-/

namespace PadCompiler

/-! ## Labels in code -/

/-- The label that an instruction carries, if it carries one. -/
def Instruction.label? (i : Instruction) : Option String :=
  match i.operand with
  | some (.label name) => some name
  | _ => none

/-- The labels that code pushes, in order. -/
def callees (code : List Instruction) : List String :=
  code.filterMap Instruction.label?

/-- A label is put in small letters. -/
theorem Instruction.label?_label (name : String) : (label name).label? = some (Text.lower name) :=
  rfl

/-! ## Calls in the source -/

mutual
/-- The functions that an expression calls, in the order of its code.  There is no code for
operators without an opcode. -/
def Expr.calls : Expr → List String
  | .randomInt bound => bound.calls
  | .binary op lhs rhs => if op.opcode?.isSome then rhs.calls ++ lhs.calls else []
  | .call name args => Expr.argCalls args ++ [name]
  | .index _ i => i.calls
  | _ => []

/-- The functions that arguments call.  The last argument comes first. -/
def Expr.argCalls : List Expr → List String
  | [] => []
  | e :: es => Expr.argCalls es ++ e.calls
end

/-- A literal calls nothing. -/
theorem Expr.calls_of_literalInt? {e : Expr} {n : Int64} (h : e.literalInt? = some n) :
    e.calls = [] := by
  cases e <;> simp_all [literalInt?, calls]

/-- The functions that a declaration calls. -/
def VarDecl.calls (d : VarDecl) : List String :=
  d.init.calls

/-- The functions that an assignment calls. -/
def Assignment.calls (a : Assignment) : List String :=
  a.value.calls

mutual
/-- The functions that a statement calls, in the order of its code.  A function in a block is not
accepted. -/
def Stmt.calls : Stmt → List String
  | .varDecl decl => decl.calls
  | .arrayDecl _ _ _ es => Expr.argCalls es
  | .assign assignment => assignment.calls
  | .arrayAssign _ index value => value.calls ++ index.calls
  | .print value => value.calls
  | .delay duration => duration.calls
  | .write x y color => x.calls ++ y.calls ++ color.calls
  | .writeBox x y width height color =>
    x.calls ++ y.calls ++ width.calls ++ height.calls ++ color.calls
  | .conditional test body none => test.calls ++ Stmt.listCalls body
  | .conditional test body (some otherwise) =>
    test.calls ++ Stmt.listCalls body ++ Stmt.listCalls otherwise
  | .whileLoop test body => test.calls ++ Stmt.listCalls body
  | .forLoop init test step body =>
    init.toList.flatMap VarDecl.calls ++ test.calls ++ Stmt.listCalls body ++
      step.toList.flatMap Assignment.calls
  | .ret value => value.calls
  | .block body => Stmt.listCalls body
  | .function .. => []

/-- The functions that statements call. -/
def Stmt.listCalls : List Stmt → List String
  | [] => []
  | s :: ss => s.calls ++ Stmt.listCalls ss
end

theorem Stmt.calls_of_output? {s : Stmt} {e : Expr} {op arrayOp : Opcode}
    (hs : s.output? = some (e, op, arrayOp)) : s.calls = e.calls := by
  cases s with
  | print value =>
      cases hs
      rw [calls]
  | ret value =>
      cases hs
      rw [calls]
  | _ => contradiction

theorem Stmt.calls_of_operation? {s : Stmt} {es : List Expr} {op : Opcode}
    (hs : s.operation? = some (es, op)) : s.calls = es.flatMap Expr.calls := by
  cases s with
  | delay duration =>
      cases hs
      simp [calls]
  | write x y color =>
      cases hs
      simp [calls]
  | writeBox x y width height color =>
      cases hs
      simp [calls]
  | _ => contradiction

theorem Stmt.calls_of_loop? {s : Stmt} {l : LoopParts} (hs : s.loop? = some l) :
    s.calls = Stmt.listCalls l.start ++ l.test.calls ++ Stmt.listCalls l.body ++
      Stmt.listCalls l.advance := by
  cases s with
  | whileLoop test body =>
      cases hs
      simp [calls, listCalls, LoopParts.start, LoopParts.advance]
  | forLoop init test step body =>
      cases hs
      cases init <;> cases step <;> simp [calls, listCalls, LoopParts.start, LoopParts.advance]
  | _ => contradiction

/-! ## Known functions -/

/-- The functions that a frame knows are those of the program, with labels in small letters. -/
def Frame.Knows (p : Program) (f : Frame) : Prop :=
  ∀ name label arity, f.names.lookup name = some (.function label arity) →
    label = Text.lower name ∧ p.arity? name = some arity

namespace Frame.Knows

variable {p : Program} {f : Frame}

theorem empty : Knows p {} :=
  fun _ _ _ h => by cases h

/-- A name for something else hides a function. -/
theorem cons (h : f.Knows p) {f' : Frame} {name : String} {storage : Storage}
    (hnames : f'.names = (name, storage) :: f.names)
    (hstorage : ∀ label arity, storage ≠ .function label arity) : f'.Knows p := by
  intro other label arity hlookup
  rw [hnames, List.lookup_cons] at hlookup
  split at hlookup
  · exact absurd (Option.some.inj hlookup) (hstorage label arity)
  · exact h other label arity hlookup

theorem scalar (h : f.Knows p) (name : String) : (f.add name 1 .scalar).Knows p :=
  h.cons rfl nofun

theorem array (h : f.Knows p) (name : String) (length : Nat) :
    (f.add name length (.array · length)).Knows p :=
  h.cons rfl nofun

theorem params (h : f.Knows p) (params : List Param) : (f.addParams params).Knows p := by
  induction params generalizing f with
  | nil => exact h
  | cons param params ih => exact ih (h.scalar param.name)

end Frame.Knows

theorem Program.topFrame_knows (p : Program) : p.topFrame.Knows p := by
  intro name label arity hlookup
  rw [topFrame_lookup, Option.map_eq_some_iff] at hlookup
  obtain ⟨n, harity, heq⟩ := hlookup
  cases heq
  exact ⟨rfl, harity⟩

/-- A name with a number of parameters is the name of a function that has as many. -/
theorem Program.mem_of_arity? {p : Program} {name : String} {arity : Nat}
    (h : p.arity? name = some arity) :
    ∃ d ∈ p.functions, d.name = name ∧ d.params.length = arity := by
  rw [arity?, Option.map_eq_some_iff] at h
  obtain ⟨d, hfind, harity⟩ := h
  exact ⟨d, List.mem_reverse.mp (List.mem_of_find?_eq_some hfind),
    by simpa using List.find?_some hfind, harity⟩

/-- All open frames know the functions of the program only. -/
def AllKnow (p : Program) (fs : List Frame) : Prop :=
  ∀ f ∈ fs, f.Knows p

namespace AllKnow

variable {p : Program} {f g : Frame} {fs : List Frame}

theorem head (h : AllKnow p (f :: fs)) : f.Knows p :=
  h f List.mem_cons_self

/-- The innermost frame in place of another. -/
theorem replace (h : AllKnow p (f :: fs)) (hg : g.Knows p) : AllKnow p (g :: fs) :=
  List.forall_mem_cons.mpr ⟨hg, (List.forall_mem_cons.mp h).2⟩

theorem enter (h : AllKnow p fs) (hg : g.Knows p) : AllKnow p (g :: fs) :=
  List.forall_mem_cons.mpr ⟨hg, h⟩

/-- What is found as a function is one of the program. -/
theorem find (h : AllKnow p fs) {name label : String} {arity depth : Nat}
    (hfind : findIn fs name = .ok (.function label arity, depth)) :
    label = Text.lower name ∧ p.arity? name = some arity := by
  obtain ⟨k, f, -, hf, hlookup⟩ := findFrom_eq_ok hfind
  exact h f (List.mem_of_getElem? hf) name label arity hlookup

end AllKnow

/-! ## Pieces of code -/

/-- The code pushes labels in calls only.  It calls these functions of the program, in this order,
each with as many arguments as the function has parameters. -/
inductive Sites (p : Program) : List Instruction → List String → Prop where
  | nil : Sites p [] []
  | skip {i : Instruction} {code : List Instruction} {names : List String} :
      i.label? = none → Sites p code names → Sites p (i :: code) names
  | call {name : String} {arity : Nat} {code : List Instruction} {names : List String} :
      p.arity? name = some arity → Sites p code names →
      Sites p (.pushNat arity :: .label name :: .plain .call :: code) (name :: names)

namespace Sites

variable {p : Program} {code others : List Instruction} {names names' : List String}

theorem append (h : Sites p code names) (h' : Sites p others names') :
    Sites p (code ++ others) (names ++ names') := by
  induction h with
  | nil => exact h'
  | skip hi _ ih => exact .skip hi ih
  | call harity _ ih => exact .call harity ih

/-- Code without labels. -/
theorem silent (h : callees code = []) : Sites p code [] := by
  induction code with
  | nil => exact .nil
  | cons i code ih =>
      rw [callees, List.filterMap_eq_nil_iff, List.forall_mem_cons] at h
      exact .skip h.1 (ih (List.filterMap_eq_nil_iff.mpr h.2))

/-- Code with code without labels after it. -/
theorem before (h : Sites p code names) (hothers : callees others = []) :
    Sites p (code ++ others) names := by
  simpa using h.append (silent hothers)

/-- Code with code without labels before it. -/
theorem after (h : Sites p code names) (others : List Instruction)
    (hothers : callees others = []) : Sites p (others ++ code) names := by
  simpa using (silent hothers).append h

/-- The labels are the names of the functions in small letters. -/
theorem labels (h : Sites p code names) : callees code = names.map Text.lower := by
  induction h with
  | nil => rfl
  | skip hi _ ih =>
      rw [callees, List.filterMap_cons_none hi]
      exact ih
  | @call name arity code names harity _ ih =>
      have hcount : (Instruction.pushNat arity).label? = none := rfl
      have hcall : (Instruction.plain .call).label? = none := rfl
      rw [callees, List.filterMap_cons_none hcount,
        List.filterMap_cons_some (Instruction.label?_label name),
        List.filterMap_cons_none hcall, List.map_cons, ← ih, callees]

/-- The functions are those of the program. -/
theorem known (h : Sites p code names) : ∀ name ∈ names, ∃ d ∈ p.functions, d.name = name := by
  induction h with
  | nil => simp
  | skip _ _ ih => exact ih
  | call harity _ ih =>
      obtain ⟨d, hd, hname, -⟩ := Program.mem_of_arity? harity
      exact List.forall_mem_cons.mpr ⟨⟨d, hd, hname⟩, ih⟩

end Sites

section

variable {p : Program} {fs : List Frame}

mutual
/-- The code of an expression pushes the labels of the functions that the expression calls. -/
theorem ExprCode.sites (hknown : AllKnow p fs) {e : Expr} {code : List Instruction} :
    ExprCode (findIn fs) e code → Sites p code e.calls
  | .literal value => by simpa only [Expr.calls] using .silent rfl
  | .padWidth => by simpa only [Expr.calls] using .silent rfl
  | .padHeight => by simpa only [Expr.calls] using .silent rfl
  | .ident hfind => by simpa only [Expr.calls] using .silent rfl
  | .randomInt hbound => by
      simpa only [Expr.calls] using (hbound.sites hknown).before rfl
  | .binary hop hright hleft => by
      simp only [Expr.calls, hop, Option.isSome_some, if_true]
      exact ((hright.sites hknown).append (hleft.sites hknown)).before rfl
  | .unsupported lhs rhs hop => by
      simpa only [Expr.calls, hop] using .silent rfl
  | .call hfind hargs => by
      obtain ⟨rfl, harity⟩ := hknown.find hfind
      rw [Expr.calls]
      refine (hargs.sites hknown).append ?_
      simpa only [Instruction.label, Text.lower_lower] using Sites.call harity .nil
  | .element hfind hindex hoffset => by
      simpa only [Expr.calls, Expr.calls_of_literalInt? hindex] using .silent rfl
  | .computed hfind hlit hindex => by
      simpa only [Expr.calls] using (hindex.sites hknown).before rfl

theorem ArgsCode.sites (hknown : AllKnow p fs) {es : List Expr}
    {code : List Instruction} : ArgsCode (findIn fs) es code → Sites p code (Expr.argCalls es)
  | .nil => by
      rw [Expr.argCalls]
      exact .silent rfl
  | .cons hothers hfirst => by
      rw [Expr.argCalls]
      exact (hothers.sites hknown).append (hfirst.sites hknown)
end

theorem InOrderCode.sites (hknown : AllKnow p fs) {es : List Expr}
    {code : List Instruction} (h : InOrderCode (findIn fs) es code) :
    Sites p code (es.flatMap Expr.calls) := by
  induction h with
  | nil => exact .silent rfl
  | cons hfirst hothers ih => exact (hfirst.sites hknown).append ih

end

/-- A construct pushes the labels that its parts push. -/
theorem Sites.piecewise (p : Program) : Piecewise (Sites p) fun _ => [] where
  append := .append
  steer h := by
    have hnone : ∀ i ∈ _, Instruction.label? i = none := fun i hi =>
      Instruction.of_isSteering (P := fun i => i.label? = none) (List.all_eq_true.mp h i hi) rfl rfl
        rfl rfl (fun _ => rfl) fun _ => rfl
    exact .silent (List.filterMap_eq_nil_iff.mpr hnone)
  enter size := .silent rfl

/-! ## Statements and blocks -/

section

variable {p : Program}

/-- The code of statements pushes the labels of the functions that the statements call, and the
statements make no function known. -/
theorem Laid.sites {fs : List Frame} {f g : Frame} {ss : List Stmt} {code : List Instruction}
    (h : Laid fs f ss code g) (hknown : AllKnow p (f :: fs)) :
    Sites p code (Stmt.listCalls ss) ∧ g.Knows p := by
  induction h with
  | nil fs f => exact ⟨by simpa only [Stmt.listCalls] using .silent rfl, hknown.head⟩
  | cons hfirst hothers ihFirst ihOthers =>
      obtain ⟨hcode, hg⟩ := ihFirst hknown
      obtain ⟨hrest, hh⟩ := ihOthers (hknown.replace hg)
      refine ⟨?_, hh⟩
      simp only [Stmt.listCalls, List.append_nil] at hcode ⊢
      exact hcode.append hrest
  | varDecl hinit =>
      refine ⟨?_, hknown.head.scalar _⟩
      simpa only [Stmt.listCalls, Stmt.calls, VarDecl.calls, List.append_nil] using
        (hinit.sites hknown).before rfl
  | assign hvalue hfind =>
      refine ⟨?_, hknown.head⟩
      simpa only [Stmt.listCalls, Stmt.calls, Assignment.calls, List.append_nil] using
        (hvalue.sites hknown).before rfl
  | arrayFilled fs f hlength =>
      refine ⟨?_, hknown.head.array _ _⟩
      simpa only [Stmt.listCalls, Stmt.calls, Expr.argCalls, List.append_nil] using .silent rfl
  | arrayListed hlength hvalues =>
      refine ⟨?_, hknown.head.array _ _⟩
      simpa only [Stmt.listCalls, Stmt.calls, List.append_nil] using
        (hvalues.sites hknown).before rfl
  | setElement hvalue hfind hindex hoffset =>
      refine ⟨?_, hknown.head⟩
      simpa only [Stmt.listCalls, Stmt.calls, Expr.calls_of_literalInt? hindex, List.append_nil]
        using (hvalue.sites hknown).before rfl
  | @setComputed fs f name index value base length depth code slot hvalue hfind hlit hindex =>
      refine ⟨?_, hknown.head⟩
      have hslot : Sites p (.pushNat 1 :: slot) index.calls :=
        (hindex.sites hknown).after [.pushNat 1] rfl
      simpa only [Stmt.listCalls, Stmt.calls, List.append_nil] using
        ((hvalue.sites hknown).append hslot).before rfl
  | outputArray hs hfind =>
      refine ⟨?_, hknown.head⟩
      simpa only [Stmt.listCalls, Stmt.calls_of_output? hs, Expr.calls, List.append_nil] using
        .silent rfl
  | output hs hvalue =>
      refine ⟨?_, hknown.head⟩
      simpa only [Stmt.listCalls, Stmt.calls_of_output? hs, List.append_nil] using
        (hvalue.sites hknown).before rfl
  | operation hs hvalues =>
      refine ⟨?_, hknown.head⟩
      simpa only [Stmt.listCalls, Stmt.calls_of_operation? hs, List.append_nil] using
        (hvalues.sites hknown).before rfl
  | block hbody ih =>
      refine ⟨?_, hknown.head⟩
      have hinside := (ih (hknown.enter .empty)).1
      simpa only [Stmt.listCalls, Stmt.calls, List.append_nil, List.nil_append] using
        (Sites.piecewise p).framed hinside _
  | conditional htest hbody ih =>
      refine ⟨?_, hknown.head⟩
      have hinside := hknown.enter .empty
      simpa only [Stmt.listCalls, Stmt.calls, List.append_nil, List.nil_append] using
        (Sites.piecewise p).conditional (htest.sites hinside) (ih hinside).1 _
  | alternative htest hbody hotherwise ihBody ihElse =>
      refine ⟨?_, hknown.head⟩
      have hinside := hknown.enter .empty
      simpa only [Stmt.listCalls, Stmt.calls, List.append_nil, List.nil_append] using
        (Sites.piecewise p).alternative (htest.sites hinside) (ihBody hinside).1
          (ihElse hinside).1 _
  | loop hs hinit htest hbody hstep ihInit ihBody ihStep =>
      refine ⟨?_, hknown.head⟩
      obtain ⟨hstart, hg⟩ := ihInit (hknown.enter .empty)
      obtain ⟨hinside, hh⟩ := ihBody (hknown.enter hg)
      have htested := htest.sites (hknown.enter hg)
      simpa only [Stmt.listCalls, Stmt.calls_of_loop? hs, List.append_nil, List.nil_append] using
        (Sites.piecewise p).loop hstart htested hinside (ihStep (hknown.enter hh)).1 _

/-- The block of a function pushes the labels of the functions that its body calls. -/
theorem FunctionCode.sites {top : Frame} (htop : top.Knows p) {d : FunctionDecl}
    {code : List Instruction} (h : FunctionCode top d code) :
    Sites p code (Stmt.listCalls d.body) := by
  cases h with
  | mk hbody =>
      have hknown : AllKnow p [top] := by simpa [AllKnow] using htop
      have hinside := (hbody.sites (hknown.enter (Frame.Knows.empty.params d.params))).1
      have htail : callees (if Generator.endsWithReturn d.body then [] else [.plain .ret]) =
          [] := by
        split <;> rfl
      exact (hinside.before htail).after [.pushNat _, .plain .alloc] rfl

/-- So does the block of the top-level statements. -/
theorem MainCode.sites {config : Config} {top : Frame} (htop : top.Knows p) {ss : List Stmt}
    {code : List Instruction} (h : MainCode config top ss code) :
    Sites p code (Stmt.listCalls ss) := by
  cases h with
  | mk hbody =>
      have hinside := (hbody.sites (by simpa [AllKnow] using htop)).1
      have hclearing : callees config.clearing = [] := by
        rw [Config.clearing]
        cases config.clearColor <;> rfl
      exact ((Sites.piecewise p).framed (hinside.after _ hclearing) _).before rfl

end

/-! ## Places in the code -/

/-- The label at this place is that of the function with this name.  It stands between the number
of the arguments and the call. -/
structure CallAt (code : List Instruction) (i : Nat) (name : String) (arity : Nat) : Prop where
  positive : 0 < i
  count : code[i - 1]? = some (.pushNat arity)
  label : code[i]? = some (.label name)
  call : code[i + 1]? = some (.plain .call)

/-- One more instruction in front. -/
theorem CallAt.shift {code : List Instruction} {i : Nat} {name : String} {arity : Nat}
    (h : CallAt code i name arity) (first : Instruction) :
    CallAt (first :: code) (i + 1) name arity where
  positive := Nat.succ_pos i
  count := by
    obtain ⟨j, rfl⟩ := Nat.exists_eq_add_one.mpr h.positive
    exact h.count
  label := h.label
  call := h.call

/-- A label in the code is pushed for the call in the source that has as many calls before it as
there are labels before the label. -/
theorem Sites.callAt {p : Program} {code : List Instruction} {names : List String}
    (h : Sites p code names) {i : Nat} {instr : Instruction} {label : String}
    (hinstr : code[i]? = some instr) (hlabel : instr.label? = some label) :
    ∃ name arity, names[(callees (code.take i)).length]? = some name ∧ label = Text.lower name ∧
      p.arity? name = some arity ∧ CallAt code i name arity := by
  induction h generalizing i with
  | nil => contradiction
  | @skip first code names hfirst _ ih =>
      cases i with
      | zero =>
          cases hinstr
          rw [hfirst] at hlabel
          contradiction
      | succ i =>
          obtain ⟨name, arity, hname, hlower, harity, hcall⟩ := ih hinstr
          refine ⟨name, arity, ?_, hlower, harity, hcall.shift first⟩
          rw [List.take_succ_cons, callees, List.filterMap_cons_none hfirst]
          exact hname
  | @call name arity code names harity _ ih =>
      -- the number, the label and the call come first; the other labels are behind them
      match i with
      | 0 | 2 =>
          cases hinstr
          contradiction
      | 1 =>
          cases hinstr
          cases hlabel
          exact ⟨name, arity, rfl, rfl, harity, Nat.one_pos, rfl, rfl, rfl⟩
      | i + 3 =>
          obtain ⟨other, count, hother, hlower, hcount, hcall⟩ := ih hinstr
          exact ⟨other, count, hother, hlower, hcount,
            ((hcall.shift (.plain .call)).shift (.label name)).shift (.pushNat arity)⟩

/-! ## Programs -/

/-- Each label in the code is pushed by a call of the source, in order.  It is among these labels,
and before it the code pushes the number of parameters that the last declaration of the called name
has.  The word is that number, as no list in memory has `2 ^ 63` members. -/
def CallsClosed (p : Program) (labels : List String) (source : List Stmt) (block : Block) : Prop :=
  callees block.code = (Stmt.listCalls source).map Text.lower ∧
    ∀ i instr label, block.code[i]? = some instr → instr.label? = some label →
      ∃ name arity, (Stmt.listCalls source)[(callees (block.code.take i)).length]? = some name ∧
        label = Text.lower name ∧ label ∈ labels ∧ p.arity? name = some arity ∧
        CallAt block.code i name arity ∧
        ((arity : Int) < signedLimit → (Int64.ofNat arity).toInt = arity)

/-- Code with the calls of its source is closed under calls, if each function has a label. -/
theorem Sites.closed {p : Program} {labels : List String} {source : List Stmt} {block : Block}
    (h : Sites p block.code (Stmt.listCalls source))
    (hlabels : ∀ d ∈ p.functions, Text.lower d.name ∈ labels) :
    CallsClosed p labels source block := by
  refine ⟨h.labels, fun i instr label hinstr hlabel => ?_⟩
  obtain ⟨name, arity, hname, rfl, harity, hcall⟩ := h.callAt hinstr hlabel
  obtain ⟨d, hd, rfl, -⟩ := Program.mem_of_arity? harity
  exact ⟨d.name, arity, hname, rfl, hlabels d hd, harity, hcall, toInt_ofNat_of_lt⟩

/-- The blocks of functions carry the names of the functions in small letters. -/
theorem FunctionBlocks.labels {top : Frame} {ds : List FunctionDecl} {blocks : List Block}
    (h : FunctionBlocks top ds blocks) :
    blocks.map (·.label) = ds.map fun d => Text.lower d.name := by
  induction h with
  | nil => rfl
  | cons _ _ ih => rw [List.map_cons, List.map_cons, ih]

theorem FunctionBlocks.closed {p : Program} {labels : List String}
    (hlabels : ∀ d ∈ p.functions, Text.lower d.name ∈ labels) {ds : List FunctionDecl}
    {blocks : List Block} (h : FunctionBlocks p.topFrame ds blocks) :
    List.Forall₂ (CallsClosed p labels) (ds.map (·.body)) blocks := by
  induction h with
  | nil => exact .nil
  | cons hcode _ ih => exact .cons ((hcode.sites p.topFrame_knows).closed hlabels) ih

/-- The blocks of an accepted program are those of its functions and that of its statements.  In
each of them, each label is pushed by a call of the source, between the number of parameters of the
function that is called and the `call`, and it is the label of the block of a function. -/
theorem compile_call_sites {config : Config} {p : Program} {image : Image}
    (hcompile : compile config p = .ok image) :
    ∃ (functions : List Block) (main : Block), image.blocks = functions ++ [main] ∧
      functions.map (·.label) = (p.functions.map fun d => Text.lower d.name) ∧
      List.Forall₂ (CallsClosed p (functions.map (·.label))) (p.functions.map (·.body)) functions ∧
      CallsClosed p (functions.map (·.label)) p.statements main := by
  have hcompiled := (compiled_of_compile hcompile).1
  obtain ⟨blocks, diagnostics⟩ := image
  cases hcompiled with
  | @mk functions code hfunctions hmain =>
      have hlabels : ∀ d ∈ p.functions, Text.lower d.name ∈ functions.map (·.label) := by
        rw [hfunctions.labels]
        exact fun d hd => List.mem_map_of_mem hd
      exact ⟨functions, ⟨Text.lower mainLabel, code⟩, rfl, hfunctions.labels,
        hfunctions.closed hlabels, (hmain.sites p.topFrame_knows).closed hlabels⟩

/-- A function that is declared twice, with one and with two parameters.  It is called between its
declarations, also by a function that is called before it is declared. -/
def Demo.calling : Program where
  items := [
    .function "Pair" [⟨"a", .int⟩] .int [.ret (.ident "a")],
    .print (.call "Pair" [.call "First" [.int 1], .int 2]),
    .function "First" [⟨"a", .int⟩] .int [.ret (.call "Pair" [.ident "a", .ident "a"])],
    .function "Pair" [⟨"a", .int⟩, ⟨"b", .int⟩] .int
      [.ret (.binary .add (.ident "a") (.ident "b"))]]

/-- The calls have two arguments, and the argument of the outer one is called first. -/
theorem compile_calling_sites :
    ∃ (image : Image) (functions : List Block) (main : Block),
      compile {} Demo.calling = .ok image ∧ image.blocks = functions ++ [main] ∧
      functions.map (·.label) = ["pair", "first", "pair"] ∧
      callees main.code = ["first", "pair"] ∧ ∃ i, CallAt main.code i "Pair" 2 := by
  have haccepted : (compile {} Demo.calling).toOption.isSome = true := by decide +kernel
  cases hcompile : compile {} Demo.calling with
  | error e =>
      rw [hcompile] at haccepted
      contradiction
  | ok image =>
      obtain ⟨functions, main, hblocks, hlabels, -, hcallees, hsites⟩ :=
        compile_call_sites hcompile
      have hnames : functions.map (·.label) = ["pair", "first", "pair"] :=
        hlabels.trans (by decide +kernel)
      have hcalls : Stmt.listCalls Demo.calling.statements = ["First", "Pair"] := by
        decide +kernel
      rw [hcalls] at hcallees hsites
      have hcallees' : callees main.code = ["first", "pair"] :=
        hcallees.trans (by decide +kernel)
      obtain ⟨instr, hinstr, hlabel⟩ : ∃ instr ∈ main.code, instr.label? = some "pair" :=
        List.mem_filterMap.mp (by rw [← callees, hcallees']; decide)
      obtain ⟨i, hi⟩ := List.mem_iff_getElem?.mp hinstr
      obtain ⟨name, arity, hname, hlower, -, harity, hcall, -⟩ := hsites i instr "pair" hi hlabel
      have hpair : name = "Pair" := by
        rcases List.mem_cons.mp (List.mem_of_getElem? hname) with rfl | hmem
        · exact absurd hlower (by decide +kernel)
        · exact List.mem_singleton.mp hmem
      subst hpair
      have htwo : arity = 2 := Option.some.inj (harity.symm.trans rfl)
      subst htwo
      exact ⟨image, functions, main, rfl, hblocks, hnames, hcallees', i, hcall⟩

end PadCompiler
