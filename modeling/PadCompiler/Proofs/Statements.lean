import PadCompiler.Proofs.Evaluation

/-!
# PadCompiler.Proofs.Statements

The code of a statement that has no statements inside does what the statement does.

* `Ready`, `Arrives`, `Lingers` — the machine before some code, after it, and when it goes on
  for as long as the fuel allows;
* `Simulates` — some code does what is done directly, wherever it stands in a block;
* `simulates_varDecl` and others — so does the code of each kind of statement.
-/

namespace PadCompiler

/-! ## Statements -/

/-- The machine stands before some code, its frames hold what the names stand for, and the
innermost one has room for `room` slots. -/
structure Ready (block : List Instruction) (fs : List Frame) (room : Nat)
    (code : List Instruction) (m : Machine) (env : Env) : Prop where
  fits : (block.length : Int) < signedLimit
  stored : Stored fs m.frames env
  -- each open frame was opened by an instruction that was passed
  deep : m.frames.length ≤ m.pc
  room : room ≤ (sizes m.frames).headD 0
  code : CodeAt block m.pc code

/-- The machine gets past some code to the same state as a program that is run directly. -/
def Arrives (host : Host) (block : List Instruction) (m : Machine) (length : Nat)
    (fs : List Frame) (s : State) : Prop :=
  ∃ frames, Goes host block 0 m (m.onward length frames s.log) ∧
    Stored fs frames s.env ∧ sizes frames = sizes m.frames

/-- After at least `n` steps the machine has done just this. -/
def Lingers (host : Host) (block : List Instruction) (n : Nat) (m : Machine)
    (events : List Event) : Prop :=
  ∃ m', Goes host block n m m' ∧ m'.log.events = events

/-- Wherever it stands in a block, the code does what is done directly. -/
def Simulates (host : Host) (fuel : Nat) (fs : List Frame) (f g : Frame) (room : Nat)
    (code : List Instruction) (exec : State → Except Stop State) : Prop :=
  ∀ (block : List Instruction) (m : Machine) (env : Env),
    Ready block (f :: fs) room code m env →
      Sound (Lingers host block fuel m) (exec ⟨env, m.log⟩)
        (Arrives host block m code.length (g :: fs))

theorem Lingers.after {host : Host} {block : List Instruction} {n k : Nat} {m m' : Machine}
    {events : List Event} (hgo : Goes host block k m m') (h : Lingers host block n m' events) :
    Lingers host block (k + n) m events := by
  obtain ⟨m'', hgo', hevents⟩ := h
  exact ⟨m'', hgo.trans hgo', hevents⟩

theorem Lingers.mono {host : Host} {block : List Instruction} {n k : Nat} {m : Machine}
    {events : List Event} (h : Lingers host block n m events) (hle : k ≤ n) :
    Lingers host block k m events := by
  obtain ⟨m', hgo, hevents⟩ := h
  exact ⟨m', hgo.mono hle, hevents⟩

section

variable {host : Host} {block : List Instruction} {fuel : Nat} {fs : List Frame} {f g h : Frame}
  {room : Nat} {code others : List Instruction} {exec next : State → Except Stop State}
  {m : Machine} {env : Env}

theorem Ready.depth (hready : Ready block fs room code m env) :
    (m.frames.length : Int) < signedLimit := by
  have hdeep := hready.deep
  have hfits := hready.fits
  have hle := hready.code.length_le
  omega

/-- The values that code starts with. -/
theorem Ready.compute {eval : Nat → Except Stop (α × Nat)} {pushed : α → List Value}
    (hready : Ready block fs room (code ++ others) m env)
    (hcode : Computes host fs env code eval pushed) :
    Sound (Lingers host block fuel m) (eval m.log.drawn) fun r =>
      Goes host block 0 m (m.pass code.length (pushed r.1) r.2) :=
  (hcode block m hready.stored hready.depth hready.code.left).imp (fun _ => False.elim)
    fun _ => id

/-- Further on with the same frames open. -/
theorem Ready.onward {length : Nat} {gs : List Frame} {frames : List (List Value)} {env' : Env}
    (hready : Ready block fs room code m env) (hstored : Stored gs frames env')
    (hsizes : sizes frames = sizes m.frames) (log : Log)
    (hcode : CodeAt block (m.pc + length) others) :
    Ready block gs room others (m.onward length frames log) env' where
  fits := hready.fits
  stored := hstored
  deep := by
    have hlength : frames.length = m.frames.length := by
      simpa [sizes] using congrArg List.length hsizes
    have hdeep := hready.deep
    simp only [Machine.onward_frames, Machine.onward_pc]
    omega
  room := hsizes ▸ hready.room
  code := hcode

theorem Arrives.after {length length' : Nat} {frames : List (List Value)} {log : Log} {s : State}
    (hgo : Goes host block 0 m (m.onward length frames log))
    (hsizes : sizes frames = sizes m.frames)
    (h : Arrives host block (m.onward length frames log) length' fs s) :
    Arrives host block m (length + length') fs s := by
  obtain ⟨frames', hgo', hstored, hsizes'⟩ := h
  rw [Machine.onward_onward] at hgo'
  exact ⟨frames', hgo.trans hgo', hstored, hsizes'.trans hsizes⟩

/-- Code after code. -/
theorem Simulates.seq (hexec : Simulates host fuel fs f g room code exec)
    (hnext : Simulates host fuel fs g h room others next) :
    Simulates host fuel fs f h room (code ++ others) fun s => exec s >>= next := by
  intro block m env hready
  have hfirst : Ready block (f :: fs) room code m env := { hready with code := hready.code.left }
  refine .bind (hexec block m env hfirst) fun t ht => ?_
  obtain ⟨frames, hgo, hstored, hsizes⟩ := ht
  have hready' := hready.onward hstored hsizes t.log hready.code.right
  refine (hnext block _ t.env hready').imp (fun events hlate => ?_) fun t' ht' => ?_
  · simpa using hlate.after hgo
  · rw [List.length_append]
    exact .after hgo hsizes ht'

/-- What a scope declares is dropped at its end. -/
theorem Simulates.inScope (hexec : Simulates host fuel fs f g room code exec)
    {new : List (String × Storage)} (hnames : g.names = new ++ f.names) :
    Simulates host fuel fs f f room code (State.inScope exec) := by
  intro block m env hready
  refine .bind (hexec block m env hready) fun t ht => ?_
  obtain ⟨frames, hgo, hstored, hsizes⟩ := ht
  exact ⟨frames, hgo, hready.stored.endScope hstored hnames, hsizes⟩

/-! ## Variables and arrays -/

theorem simulates_varDecl {decl : VarDecl} (hplain : decl.init.isPlain = true)
    (hinit : ExprCode (findIn (f :: fs)) decl.init code) (hroom : f.used + 1 ≤ room) :
    Simulates host fuel fs f (f.add decl.name 1 .scalar) room
      (code ++ [.pushNat f.used, .pushNat 0, .plain .st]) (State.runVarDecl host decl) := by
  intro block m env hready
  refine .bind (hready.compute (hinit.runs hplain)) ?_
  rintro ⟨v, drawn⟩ hgo
  obtain ⟨hslot, frames, hwrite, hsizes, hstored⟩ :=
    hready.stored.declareScalar decl.name v (Nat.le_trans hroom hready.room)
  refine ⟨frames, ?_, hstored, hsizes⟩
  rw [List.length_append]
  exact hgo.trans (goes_store hready.code.right hslot (by decide) rfl hwrite)

theorem simulates_assign {a : Assignment} {slot depth : Nat} (hplain : a.value.isPlain = true)
    (hvalue : ExprCode (findIn (f :: fs)) a.value code)
    (hfind : findIn (f :: fs) a.name = .ok (.scalar slot, depth)) :
    Simulates host fuel fs f f room (code ++ [.pushNat slot, .pushNat depth, .plain .st])
      (State.runAssign host a) := by
  intro block m env hready
  refine .bind (hready.compute (hvalue.runs hplain)) ?_
  rintro ⟨v, drawn⟩ hgo
  obtain ⟨hslot, hdepth, old, hold, -, hset⟩ := hready.stored.scalar hfind
  obtain ⟨frames, hwrite, hsizes, hstored⟩ := hset v
  have hdeep := hready.depth
  dsimp only
  rw [hold, ok_bind]
  refine ⟨frames, ?_, hstored, hsizes⟩
  rw [List.length_append]
  exact hgo.trans (goes_store hready.code.right hslot (by omega) rfl hwrite)

/-- Values on the stack become a new array. -/
theorem goes_declareArray (hstored : Stored (f :: fs) m.frames env) (name : String)
    {values : List Value} {stack : List Item} (hpos : 0 < values.length)
    (hroom : f.used + values.length ≤ (sizes m.frames).headD 0)
    (hstack : m.stack = values.map .value ++ stack)
    (hat : CodeAt block m.pc
      [.pushNat values.length, .pushNat f.used, .pushNat 0, .plain .sta]) :
    ∃ frames, Goes host block 0 m { m with pc := m.pc + 4, stack, frames } ∧
      Stored (f.add name values.length (.array · values.length) :: fs) frames
        ((name, .array values) :: env) ∧ sizes frames = sizes m.frames := by
  obtain ⟨hused, frames, hwrite, hsizes, hstored'⟩ := hstored.declareArray name hpos hroom
  refine ⟨frames, ?_, hstored', hsizes⟩
  exact goes_storeRun hat (by omega) (by omega) (by decide) hstack hwrite

theorem simulates_arrayFilled {name : String} {size : Expr} {length : Nat} (ty : Ty)
    (hlength : Generator.arrayLength name size = .ok length) (hroom : f.used + length ≤ room) :
    Simulates host fuel fs f (f.add name length (.array · length)) room
      ([.pushNat length, .push ty.zero, .plain .dupa] ++
        [.pushNat length, .pushNat f.used, .pushNat 0, .plain .sta])
      (State.runArrayDecl host name ty size []) := by
  intro block m env hready
  obtain ⟨hspelled, hpos⟩ := arrayLength_eq_ok hlength
  obtain ⟨n, hn, hcount⟩ : ∃ n, size.literalInt? = some n ∧ n.toInt.toNat = length := by
    rw [Expr.spelledLength] at hspelled
    cases hsize : size.literalInt? with
    | none =>
        rw [hsize] at hspelled
        simp only [Option.elim] at hspelled
        omega
    | some n =>
        rw [hsize] at hspelled
        exact ⟨n, rfl, hspelled⟩
  have hlimit : (length : Int) < signedLimit := by
    have hlt := Int64.toInt_lt n
    simp only [signedLimit]
    omega
  have hexec : State.runArrayDecl host name ty size [] ⟨env, m.log⟩ =
      .ok (State.declare ⟨env, m.log⟩ name (.array (List.replicate length ty.zero))) := by
    rw [State.runArrayDecl, hn, ← hcount]
    rfl
  have hcode := hready.code
  have hdupa : Goes host block 0 m
      (m.pass 3 (List.replicate length ty.zero) m.log.drawn) :=
    (((Goes.refl m).last hcode rfl).last hcode.tail rfl).last hcode.tail.tail
      (execute_dupa rfl (index?_ofNat hlimit))
  have hreplicate : (List.replicate length ty.zero).length = length := List.length_replicate
  generalize List.replicate length ty.zero = values at *
  subst hreplicate
  rw [hexec]
  obtain ⟨frames, hgo, hstored, hsizes⟩ := goes_declareArray hready.stored name hpos
    (Nat.le_trans hroom hready.room) rfl (m := m.pass 3 values m.log.drawn) hready.code.right
  exact ⟨frames, hdupa.trans hgo, hstored, hsizes⟩

theorem evalReversed_length {es : List Expr} {drawn : Nat} {values : List Value} {drawn' : Nat}
    (hvalues : Expr.evalReversed host env es drawn = .ok (values, drawn')) :
    values.length = es.length := by
  induction es generalizing values drawn' with
  | nil =>
      cases hvalues
      rfl
  | cons e es ih =>
      rw [Expr.evalReversed] at hvalues
      obtain ⟨⟨values, drawn⟩, hothers, hvalues⟩ := bind_eq_ok.mp hvalues
      obtain ⟨⟨value, drawn⟩, hfirst, hvalues⟩ := bind_eq_ok.mp hvalues
      cases hvalues
      rw [List.length_cons, List.length_cons, ih hothers]

theorem simulates_arrayListed {name : String} {size : Expr} {es : List Expr} (ty : Ty)
    (hlength : Generator.arrayLength name size = .ok es.length)
    (hplain : es.all Expr.isPlain = true) (hes : ArgsCode (findIn (f :: fs)) es code)
    (hroom : f.used + es.length ≤ room) :
    Simulates host fuel fs f (f.add name es.length (.array · es.length)) room
      (code ++ [.pushNat es.length, .pushNat f.used, .pushNat 0, .plain .sta])
      (State.runArrayDecl host name ty size es) := by
  intro block m env hready
  obtain ⟨-, hpos⟩ := arrayLength_eq_ok hlength
  have hexec : State.runArrayDecl host name ty size es ⟨env, m.log⟩ = (do
      let made ← Expr.evalReversed host env es m.log.drawn
      pure ((State.drew ⟨env, m.log⟩ made.2).declare name (.array made.1))) := by
    cases es with
    | nil => cases hpos
    | cons e es => rfl
  rw [hexec]
  refine .bind (hready.compute (hes.runs hplain)).result ?_
  rintro ⟨values, drawn⟩ ⟨hvalues, hgo⟩
  have hcount := evalReversed_length hvalues
  rw [← hcount] at hpos hroom hready ⊢
  obtain ⟨frames, hgo', hstored, hsizes⟩ := goes_declareArray hready.stored name hpos
    (Nat.le_trans hroom hready.room) rfl (m := m.pass code.length values drawn) hready.code.right
  refine ⟨frames, ?_, hstored, hsizes⟩
  rw [List.length_append]
  exact hgo.trans hgo'

/-- A literal index gives the slot at once. -/
theorem simulates_setElement {name : String} {index value : Expr} {i : Int64}
    {offset base length depth : Nat} (hplain : value.isPlain = true)
    (hvalue : ExprCode (findIn (f :: fs)) value code)
    (hfind : findIn (f :: fs) name = .ok (.array base length, depth))
    (hindex : index.literalInt? = some i) (hoffset : checkBounds name i length = .ok offset) :
    Simulates host fuel fs f f room
      (code ++ [.pushNat 1, .pushNat (base + offset), .pushNat depth, .plain .sta])
      (State.runArrayAssign host name index value) := by
  intro block m env hready
  refine .bind (hready.compute (hvalue.runs hplain)) ?_
  rintro ⟨v, drawn⟩ hgo
  obtain ⟨hbase, hdepth, values, hvalues, hlength, -, helement⟩ := hready.stored.array hfind
  obtain ⟨-, hlt⟩ := checkBounds_eq_ok hoffset
  obtain ⟨frames, hwrite, hsizes, hstored⟩ := (helement offset hlt).2 v
  have hdeep := hready.depth
  have hposition := position_of_checkBounds hoffset
  cases Expr.eq_int_of_literalInt? hindex
  subst hlength
  dsimp only
  rw [Expr.eval, ok_bind]
  dsimp only
  rw [hvalues, ok_bind, hposition, ok_bind]
  refine ⟨frames, ?_, hstored, hsizes⟩
  rw [List.length_append]
  have hcode : CodeAt block (m.pc + code.length)
      [.pushNat [v].length, .pushNat (base + offset), .pushNat depth, .plain .sta] :=
    hready.code.right
  have hone : ([v].length : Int) < signedLimit := by simp [signedLimit]
  exact hgo.trans (goes_storeRun hcode hone (by omega) (by omega) rfl hwrite)

/-- The sum of a slot and an index in bounds. -/
theorem Host.Adds.index? {base k : Nat} {i : Value} (hadds : host.Adds)
    (hi : i.index? = some k) (hsum : ((base + k : Nat) : Int) < signedLimit) :
    (host.apply .add (.int (Int64.ofNat base)) i).index? = some (base + k) := by
  cases i with
  | int n =>
      rw [Value.index?] at hi
      split at hi
      · next hnonneg =>
          have hk := Option.some.inj hi
          have hbase : (Int64.ofNat base).toInt = base := toInt_ofNat_of_lt (by omega)
          have hn : n = Int64.ofNat k := by
            rw [← Int64.ofInt_eq_ofNat, ← hk, Int.toNat_of_nonneg hnonneg, Int64.ofInt_toInt]
          rw [hadds _ n (by omega) hnonneg (by omega), hn, ← Int64.ofNat_add, index?_ofNat hsum]
      · cases hi
  | float bits => cases hi
  | bool b => cases hi
  | color spelling => cases hi

/-- Any other index is added to the base. -/
theorem simulates_setComputed {name : String} {index value : Expr} {base length depth : Nat}
    {slot : List Instruction} (hadds : host.Adds) (hplain : value.isPlain = true)
    (hplainIndex : index.isPlain = true) (hvalue : ExprCode (findIn (f :: fs)) value code)
    (hfind : findIn (f :: fs) name = .ok (.array base length, depth))
    (hindex : ExprCode (findIn (f :: fs)) index slot) :
    Simulates host fuel fs f f room
      (code ++ .pushNat 1 :: slot ++ [.pushNat base, .plain .add, .pushNat depth, .plain .sta])
      (State.runArrayAssign host name index value) := by
  intro block m env hready
  have hcode : CodeAt block m.pc (code ++ .pushNat 1 :: slot) := hready.code.left
  have hready' : Ready block (f :: fs) room (code ++ .pushNat 1 :: slot) m env :=
    { hready with code := hcode }
  refine .bind (hready'.compute (hvalue.runs hplain)) ?_
  rintro ⟨v, drawn⟩ hgo
  have hone : Goes host block 0 m (m.pass (code.length + 1) [.int (Int64.ofNat 1), v] drawn) :=
    hgo.last hcode.right rfl
  have hslot : Computes host (f :: fs) env slot (index.eval host env) fun v => [v] :=
    hindex.runs hplainIndex
  have hslotRuns := hslot block (m.pass (code.length + 1) [.int (Int64.ofNat 1), v] drawn)
    hready.stored hready.depth hcode.right.tail
  refine .bind (hslotRuns.imp (fun _ => False.elim) fun _ => id) ?_
  rintro ⟨i, drawn'⟩ hgo'
  obtain ⟨hbase, hdepth, values, hvalues, hlength, -, helement⟩ := hready.stored.array hfind
  subst hlength
  dsimp only
  rw [hvalues, ok_bind]
  refine .bind (position_sound _ values.length i) ?_
  rintro k ⟨hk, hlt⟩
  obtain ⟨frames, hwrite, hsizes, hstored⟩ := (helement k hlt).2 v
  have hdeep := hready.depth
  refine ⟨frames, ?_, hstored, hsizes⟩
  have hlength : (code ++ .pushNat 1 :: slot).length = code.length + 1 + slot.length := by
    rw [List.length_append, List.length_cons]
    omega
  have hboth : Goes host block 0 m
      (m.pass (code ++ .pushNat 1 :: slot).length [i, .int (Int64.ofNat 1), v] drawn') := by
    rw [hlength]
    simpa using hone.trans hgo'
  have htail := hready.code.right
  have hpushed := ((hboth.last htail rfl).last htail.tail rfl).last htail.tail.tail rfl
  have hsum : (host.apply .add (.int (Int64.ofNat base)) i).index? = some (base + k) :=
    hadds.index? hk (by omega)
  have hstore := hpushed.last htail.tail.tail.tail
    (execute_sta hwrite rfl hsum (index?_ofNat (by omega)) (index?_ofNat (by decide)))
  rw [List.length_append]
  exact hstore

/-! ## Output -/

theorem simulates_printArray {name : String} {base length depth : Nat}
    (hfind : findIn (f :: fs) name = .ok (.array base length, depth)) :
    Simulates host fuel fs f f room
      [.pushNat length, .address .pushA base depth, .pushNat length, .plain .printA]
      (State.runPrint host (.ident name)) := by
  intro block m env hready
  obtain ⟨hbase, hdepth, values, hvalues, hlength, hread, -⟩ := hready.stored.array hfind
  have hdeep := hready.depth
  have hexec : State.runPrint host (.ident name) ⟨env, m.log⟩ =
      .ok (State.perform ⟨env, m.log⟩ .printA values) := by
    rw [State.runPrint, State.wholeArray?, hvalues]
    rfl
  rw [hexec]
  subst hlength
  have hcount := index?_ofNat (by omega : (values.length : Int) < signedLimit)
  have hcode := hready.code
  have hvalues : Goes host block 0 m (m.pass 2 values m.log.drawn) :=
    ((Goes.refl m).last hcode rfl).last hcode.tail
      (execute_pushA (by omega) (by omega) rfl hcount hread)
  have hpushed := hvalues.last hcode.tail.tail rfl
  have hstack : (m.pass 2 values m.log.drawn).stack = values.map .value ++ m.stack := rfl
  have hprinted := hpushed.last hcode.tail.tail.tail
    (execute_printA (congrArg (_ :: ·) hstack) hcount)
  exact ⟨m.frames, hprinted, hready.stored, rfl⟩

/-- An expression that has code is no bare name of an array. -/
theorem ExprCode.wholeArray?_eq_none {e : Expr} (hcode : ExprCode (findIn fs) e code)
    (hstored : Stored fs m.frames env) : State.wholeArray? ⟨env, m.log⟩ e = none := by
  cases hcode with
  | ident hfind =>
      obtain ⟨-, -, v, hv, -⟩ := hstored.scalar hfind
      rw [State.wholeArray?, Env.array]
      rw [Env.scalar] at hv
      split at hv
      · next hlookup => rw [hlookup]; rfl
      · cases hv
  | _ => rfl

theorem simulates_print {e : Expr} (hplain : e.isPlain = true)
    (hcode : ExprCode (findIn (f :: fs)) e code) :
    Simulates host fuel fs f f room (code ++ [.plain .print]) (State.runPrint host e) := by
  intro block m env hready
  rw [State.runPrint, hcode.wholeArray?_eq_none hready.stored]
  refine .bind (hready.compute (hcode.runs hplain)) ?_
  rintro ⟨v, drawn⟩ hgo
  refine ⟨m.frames, ?_, hready.stored, rfl⟩
  rw [List.length_append]
  have hcount : Opcode.print.operands? = some [v].length := rfl
  exact hgo.last hready.code.right (execute_operation hcount rfl)

theorem evalInOrder_length {es : List Expr} {drawn : Nat} {values : List Value} {drawn' : Nat}
    (hvalues : Expr.evalInOrder host env es drawn = .ok (values, drawn')) :
    values.length = es.length := by
  induction es generalizing values drawn with
  | nil =>
      cases hvalues
      rfl
  | cons e es ih =>
      rw [Expr.evalInOrder] at hvalues
      obtain ⟨⟨value, drawn⟩, hfirst, hvalues⟩ := bind_eq_ok.mp hvalues
      obtain ⟨⟨values, drawn⟩, hothers, hvalues⟩ := bind_eq_ok.mp hvalues
      cases hvalues
      rw [List.length_cons, List.length_cons, ih hothers]

theorem simulates_operation {op : Opcode} {es : List Expr} (hop : op.operands? = some es.length)
    (hplain : es.all Expr.isPlain = true) (hcode : InOrderCode (findIn (f :: fs)) es code) :
    Simulates host fuel fs f f room (code ++ [.plain op]) (State.runOperation host op es) := by
  intro block m env hready
  refine .bind (hready.compute (hcode.runs hplain)).result ?_
  rintro ⟨values, drawn⟩ ⟨hvalues, hgo⟩
  refine ⟨m.frames, ?_, hready.stored, rfl⟩
  have hcount : op.operands? = some values.reverse.length := by
    rw [List.length_reverse, evalInOrder_length hvalues, hop]
  have hdone := hgo.last hready.code.right (execute_operation hcount rfl)
  rw [List.reverse_reverse] at hdone
  rw [List.length_append]
  exact hdone

end

end PadCompiler
