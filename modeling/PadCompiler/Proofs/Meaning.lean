import PadCompiler.Generator.Program

/-!
# PadCompiler.Proofs.Meaning

What a program does when its statements are run directly, without any code.

Names are looked up in an `Env` that has the newest name first; a scope ends by dropping
what was declared in it.  Operators, random draws and the size of the pad come from a
`Host`.  What a program does is the list of its `Event`s.

* `Expr.eval` — the right operand before the left one;
* `Stmt.exec` — no loop makes more than `fuel` turns;
* `Program.evaluate` — a whole program;
* `Program.isPlain` — the programs that can be run this way;
* `Program.writesComputed` — the programs whose code adds slots up (`Host.Adds`).
-/

namespace PadCompiler

/-! ## Hosts and events -/

/-- What a program runs on. -/
structure Host where
  /-- What an operator gives for its left and its right operand. -/
  apply : BinaryOp → Value → Value → Value
  /-- Whether a value makes a conditional jump. -/
  jumps : Value → Bool
  /-- A random draw below a bound.  The number tells how many draws there were before. -/
  draw : Nat → Value → Value
  width : Value
  height : Value
  /-- What the slots of a new frame hold. -/
  blank : Value

/-- Integers that are not negative are added as numbers while the sum is a word. -/
def Host.Adds (host : Host) : Prop :=
  ∀ a b : Int64, 0 ≤ a.toInt → 0 ≤ b.toInt → a.toInt + b.toInt < signedLimit →
    host.apply .add (.int a) (.int b) = .int (a + b)

/-- A print, a write, a delay or a clear, with its operands. -/
structure Event where
  op : Opcode
  args : List Value
deriving DecidableEq

/-- What happened between a program and its host. -/
structure Log where
  /-- The number of random draws. -/
  drawn : Nat := 0
  events : List Event := []
deriving DecidableEq

/-- The log with another number of draws. -/
def Log.drew (log : Log) (drawn : Nat) : Log :=
  { log with drawn }

/-- The log with one more event, at the end. -/
def Log.add (log : Log) (op : Opcode) (args : List Value) : Log :=
  { log with events := log.events ++ [⟨op, args⟩] }

/-! ## Environments -/

/-- What a name stands for. -/
inductive Datum where
  | scalar (value : Value)
  | array (values : List Value)
deriving DecidableEq

/-- Names with what they stand for, the newest first. -/
abbrev Env := List (String × Datum)

/-- Why a program stops before its end. -/
inductive Stop where
  /-- A computed index lies outside the array. -/
  | outOfBounds
  /-- A loop makes more turns than it may. -/
  | outOfFuel (events : List Event)
  /-- A name is not there or stands for something else. -/
  | wrong
deriving DecidableEq

namespace Env

/-- The value of a variable. -/
def scalar (env : Env) (name : String) : Except Stop Value :=
  match env.lookup name with
  | some (.scalar value) => .ok value
  | _ => .error .wrong

/-- The values of an array. -/
def array (env : Env) (name : String) : Except Stop (List Value) :=
  match env.lookup name with
  | some (.array values) => .ok values
  | _ => .error .wrong

/-- Lets the newest entry of a name stand for something else. -/
def set (name : String) (datum : Datum) : Env → Env
  | [] => []
  | (other, old) :: env =>
    if name == other then (other, datum) :: env else (other, old) :: set name datum env

end Env

/-- The number that a value counts, if it can count. -/
def Value.index? : Value → Option Nat
  | .int n => if 0 ≤ n.toInt then some n.toInt.toNat else none
  | _ => none

/-- The position that an index has in an array of some length. -/
def position (length : Nat) (index : Value) : Except Stop Nat :=
  match index.index? with
  | some i => if i < length then .ok i else .error .outOfBounds
  | none => .error .outOfBounds

/-! ## Expressions -/

section

variable (host : Host) (env : Env)

/-- The value of an expression, and the number of draws after it. -/
def Expr.eval : Expr → Nat → Except Stop (Value × Nat)
  | .literal value, drawn => .ok (value, drawn)
  | .padWidth, drawn => .ok (host.width, drawn)
  | .padHeight, drawn => .ok (host.height, drawn)
  | .ident name, drawn => do
    let value ← env.scalar name
    pure (value, drawn)
  | .randomInt bound, drawn => do
    let (bound, drawn) ← bound.eval drawn
    pure (host.draw drawn bound, drawn + 1)
  | .binary op lhs rhs, drawn => do
    let (right, drawn) ← rhs.eval drawn
    let (left, drawn) ← lhs.eval drawn
    pure (host.apply op left right, drawn)
  | .index name e, drawn => do
    let (i, drawn) ← e.eval drawn
    let values ← env.array name
    let k ← position values.length i
    pure (values.getD k host.blank, drawn)
  | .call _ _, _ => .error .wrong

/-- The values of expressions, the first one evaluated first. -/
def Expr.evalInOrder : List Expr → Nat → Except Stop (List Value × Nat)
  | [], drawn => .ok ([], drawn)
  | e :: es, drawn => do
    let (value, drawn) ← e.eval host env drawn
    let (values, drawn) ← Expr.evalInOrder es drawn
    pure (value :: values, drawn)

/-- The values of expressions, the last one evaluated first. -/
def Expr.evalReversed : List Expr → Nat → Except Stop (List Value × Nat)
  | [], drawn => .ok ([], drawn)
  | e :: es, drawn => do
    let (values, drawn) ← Expr.evalReversed es drawn
    let (value, drawn) ← e.eval host env drawn
    pure (value :: values, drawn)

end

/-! ## Statements -/

/-- The state of a program that is run directly. -/
structure State where
  env : Env := []
  log : Log := {}

namespace State

/-- The state with another number of draws. -/
def drew (s : State) (drawn : Nat) : State :=
  { s with log := s.log.drew drawn }

/-- The state with a new name. -/
def declare (s : State) (name : String) (datum : Datum) : State :=
  { s with env := (name, datum) :: s.env }

/-- The state with a change to a name. -/
def assign (s : State) (name : String) (datum : Datum) : State :=
  { s with env := s.env.set name datum }

/-- The state with one more event. -/
def perform (s : State) (op : Opcode) (args : List Value) : State :=
  { s with log := s.log.add op args }

/-- Runs something in a scope of its own: what it declares is dropped. -/
def inScope (body : State → Except Stop State) (s : State) : Except Stop State := do
  let t ← body s
  pure { t with env := t.env.drop (t.env.length - s.env.length) }

variable (host : Host)

/-- `let name: ty = init;` -/
def runVarDecl (decl : VarDecl) (s : State) : Except Stop State := do
  let (value, drawn) ← decl.init.eval host s.env s.log.drawn
  pure ((s.drew drawn).declare decl.name (.scalar value))

/-- `name = value;` -/
def runAssign (a : Assignment) (s : State) : Except Stop State := do
  let (value, drawn) ← a.value.eval host s.env s.log.drawn
  let _ ← s.env.scalar a.name
  pure ((s.drew drawn).assign a.name (.scalar value))

/-- `let name: ty[size] = [elements];` -/
def runArrayDecl (name : String) (ty : Ty) (size : Expr) (elements : List Expr) (s : State) :
    Except Stop State :=
  match elements with
  | [] =>
    match size.literalInt? with
    | some n => pure (s.declare name (.array (List.replicate n.toInt.toNat ty.zero)))
    | none => .error .wrong
  | elements => do
    let (values, drawn) ← Expr.evalReversed host s.env elements s.log.drawn
    pure ((s.drew drawn).declare name (.array values))

/-- `name[index] = value;`, the value first. -/
def runArrayAssign (name : String) (index value : Expr) (s : State) : Except Stop State := do
  let (value, drawn) ← value.eval host s.env s.log.drawn
  let (i, drawn) ← index.eval host s.env drawn
  let values ← s.env.array name
  let k ← position values.length i
  pure ((s.drew drawn).assign name (.array (values.set k value)))

/-- The values of the array that an expression is the bare name of, if it is one. -/
def wholeArray? (s : State) : Expr → Option (List Value)
  | .ident name => (s.env.array name).toOption
  | _ => none

/-- Prints a value, or a whole array. -/
def runPrint (e : Expr) (s : State) : Except Stop State :=
  match s.wholeArray? e with
  | some values => pure (s.perform .printA values)
  | none => do
    let (value, drawn) ← e.eval host s.env s.log.drawn
    pure ((s.drew drawn).perform .print [value])

/-- Does something with values, the first one evaluated first. -/
def runOperation (op : Opcode) (es : List Expr) (s : State) : Except Stop State := do
  let (values, drawn) ← Expr.evalInOrder host s.env es s.log.drawn
  pure ((s.drew drawn).perform op values)

/-- Whether a test holds: not if its value equals zero. -/
def runTest (test : Expr) (s : State) : Except Stop (Bool × State) := do
  let (value, drawn) ← test.eval host s.env s.log.drawn
  pure (!host.jumps (host.apply .eq (.int 0) value), s.drew drawn)

/-- Does one of two things, as a test tells. -/
def runChoice (test : Expr) (yes no : State → Except Stop State) (s : State) :
    Except Stop State := do
  let (holds, s) ← s.runTest host test
  if holds then yes s else no s

/-- Makes turns while a test holds, at most `fuel` of them. -/
def runTurns (test : Expr) (turn : State → Except Stop State) :
    (fuel : Nat) → State → Except Stop State
  | 0, s => .error (.outOfFuel s.log.events)
  | fuel + 1, s =>
    s.runChoice host test (fun s => do
      let s ← turn s
      runTurns test turn fuel s) pure

/-- Runs a part that may be missing. -/
def optional (part : α → State → Except Stop State) : Option α → State → Except Stop State
  | some a, s => part a s
  | none, s => pure s

/-- A loop.  The body has a scope of its own inside that of the loop's variable, and the step
is no part of it. -/
def runLoop (fuel : Nat) (init : Option VarDecl) (test : Expr) (step : Option Assignment)
    (body : State → Except Stop State) : State → Except Stop State :=
  inScope fun s => do
    let s ← optional (runVarDecl host) init s
    runTurns host test (fun s => do
      let s ← inScope body s
      optional (runAssign host) step s) fuel s

end State

namespace Stmt

variable (host : Host) (fuel : Nat)

mutual
/-- Runs a statement. -/
def exec : Stmt → State → Except Stop State
  | .varDecl decl => State.runVarDecl host decl
  | .arrayDecl name ty size elements => State.runArrayDecl host name ty size elements
  | .assign a => State.runAssign host a
  | .arrayAssign name index value => State.runArrayAssign host name index value
  | .print value => State.runPrint host value
  | .delay duration => State.runOperation host .delay [duration]
  | .write x y color => State.runOperation host .write [x, y, color]
  | .writeBox x y width height color =>
    State.runOperation host .writeBox [x, y, width, height, color]
  | .conditional test body none =>
    State.runChoice host test (State.inScope (execList body)) pure
  | .conditional test body (some otherwise) =>
    State.runChoice host test (State.inScope (execList body)) (State.inScope (execList otherwise))
  | .whileLoop test body => State.runLoop host fuel none test none (execList body)
  | .forLoop init test step body => State.runLoop host fuel init test step (execList body)
  | .block body => State.inScope (execList body)
  | .ret _ => fun _ => .error .wrong
  | .function _ _ _ _ => fun _ => .error .wrong

/-- Runs statements one after the other. -/
def execList : List Stmt → State → Except Stop State
  | [] => pure
  | stmt :: stmts => fun s => do
    let s ← exec stmt s
    execList stmts s
end

end Stmt

/-! ## Programs -/

/-- The state before the first statement: the pad is cleared if it is to be. -/
def Config.start (config : Config) : State :=
  config.clearColor.elim {} fun color => ({} : State).perform .clear [.color color]

/-- Runs the statements of a program. -/
def Program.evaluate (host : Host) (config : Config) (p : Program) (fuel : Nat) :
    Except Stop State :=
  Stmt.execList host fuel p.statements config.start

/-! ## Plain programs -/

/-- The names in an expression. -/
def Expr.mentions : Expr → List String
  | .ident name => [name]
  | .binary _ lhs rhs => lhs.mentions ++ rhs.mentions
  | .randomInt bound => bound.mentions
  | .index name e => name :: e.mentions
  | _ => []

/-- The names that a statement declares in the scope it stands in. -/
def Stmt.declared : Stmt → List String
  | .varDecl decl => [decl.name]
  | .arrayDecl name _ _ _ => [name]
  | _ => []

/-- The operators that have an opcode of their own. -/
def BinaryOp.isPlain : BinaryOp → Bool
  | .and | .or | .notEq => false
  | _ => true

/-- Expressions without calls and with plain operators only. -/
def Expr.isPlain : Expr → Bool
  | .binary op lhs rhs => op.isPlain && lhs.isPlain && rhs.isPlain
  | .randomInt bound => bound.isPlain
  | .index _ e => e.isPlain
  | .call _ _ => false
  | _ => true

theorem Expr.isPlain_binary {op : BinaryOp} {lhs rhs : Expr} :
    (Expr.binary op lhs rhs).isPlain = true ↔
      op.isPlain = true ∧ lhs.isPlain = true ∧ rhs.isPlain = true := by
  rw [Expr.isPlain, Bool.and_eq_true, Bool.and_eq_true, and_assoc]

/-- The step of a loop is plain and mentions nothing that the body declares beside it. -/
def Assignment.isPlainAfter (body : List Stmt) (step : Assignment) : Bool :=
  step.value.isPlain &&
    (step.name :: step.value.mentions).all fun name => !(body.flatMap Stmt.declared).contains name

mutual
/-- Statements without functions, calls and returns, with plain operators only, in which no
step of a loop mentions what the body of the loop declares. -/
def Stmt.isPlain : Stmt → Bool
  | .varDecl decl => decl.init.isPlain
  | .arrayDecl _ _ _ elements => elements.all Expr.isPlain
  | .assign a => a.value.isPlain
  | .arrayAssign _ index value => index.isPlain && value.isPlain
  | .print value => value.isPlain
  | .delay duration => duration.isPlain
  | .write x y color => [x, y, color].all Expr.isPlain
  | .writeBox x y width height color => [x, y, width, height, color].all Expr.isPlain
  | .conditional test body none => test.isPlain && Stmt.listPlain body
  | .conditional test body (some otherwise) =>
    test.isPlain && Stmt.listPlain body && Stmt.listPlain otherwise
  | .whileLoop test body => test.isPlain && Stmt.listPlain body
  | .forLoop init test step body =>
    init.all (·.init.isPlain) && test.isPlain && step.all (·.isPlainAfter body) &&
      Stmt.listPlain body
  | .block body => Stmt.listPlain body
  | .ret _ => false
  | .function _ _ _ _ => false

/-- All of the statements are plain. -/
def Stmt.listPlain : List Stmt → Bool
  | [] => true
  | stmt :: stmts => stmt.isPlain && Stmt.listPlain stmts
end

/-- All items of the program are plain. -/
def Program.isPlain (p : Program) : Bool :=
  Stmt.listPlain p.items

/-! ## Computed elements -/

mutual
/-- Somewhere in the statement an element is written whose index is not spelled out, so that its
slot is added up when the code runs. -/
def Stmt.writesComputed : Stmt → Bool
  | .arrayAssign _ index _ => index.literalInt?.isNone
  | .conditional _ body none => Stmt.listWritesComputed body
  | .conditional _ body (some otherwise) =>
    Stmt.listWritesComputed body || Stmt.listWritesComputed otherwise
  | .whileLoop _ body | .forLoop _ _ _ body => Stmt.listWritesComputed body
  | .block body | .function _ _ _ body => Stmt.listWritesComputed body
  | _ => false

/-- Somewhere in the statements such an element is written. -/
def Stmt.listWritesComputed : List Stmt → Bool
  | [] => false
  | stmt :: stmts => stmt.writesComputed || Stmt.listWritesComputed stmts
end

/-- Somewhere in the program such an element is written. -/
def Program.writesComputed (p : Program) : Bool :=
  Stmt.listWritesComputed p.items

end PadCompiler
