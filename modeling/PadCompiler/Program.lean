import PadCompiler.Value

/-!
# PadCompiler.Program

The trees that are compiled: expressions, statements and programs of a small
drawing language with scalar variables, fixed-size arrays, structured control
flow and top-level functions.

`Program.functions` and `Program.statements` split a program into the functions it
declares and the statements that run.
-/

namespace PadCompiler

/-! ## Expressions -/

/-- Binary operators: relational, additive, multiplicative. -/
inductive BinaryOp where
  | lt
  | gt
  | le
  | ge
  | eq
  | notEq
  | add
  | sub
  | or
  | mul
  | div
  | and
deriving DecidableEq, Repr

/-- The spelling of an operator. -/
def BinaryOp.symbol : BinaryOp → String
  | .lt => "<"
  | .gt => ">"
  | .le => "<="
  | .ge => ">="
  | .eq => "=="
  | .notEq => "!="
  | .add => "+"
  | .sub => "-"
  | .or => "or"
  | .mul => "*"
  | .div => "/"
  | .and => "and"

/-- An expression. -/
inductive Expr where
  | literal (value : Value)
  /-- A variable or an array, by name. -/
  | ident (name : String)
  | binary (op : BinaryOp) (lhs rhs : Expr)
  | call (name : String) (args : List Expr)
  /-- The width of the drawing pad. -/
  | padWidth
  /-- The height of the drawing pad. -/
  | padHeight
  /-- A random integer below a bound. -/
  | randomInt (bound : Expr)
  /-- An array element. -/
  | index (name : String) (index : Expr)

/-- An integer literal. -/
def Expr.int (n : Int64) : Expr :=
  .literal (.int n)

/-! ## Statements -/

/-- `let name: ty = init;` -/
structure VarDecl where
  name : String
  ty : Ty
  init : Expr

/-- `name = value;` -/
structure Assignment where
  name : String
  value : Expr

/-- A parameter of a function. -/
structure Param where
  name : String
  ty : Ty
deriving DecidableEq, Repr

/-- A statement. -/
inductive Stmt where
  | varDecl (decl : VarDecl)
  /-- `let name: ty[size] = [elements];`, without elements for an array filled
  with the zero of its type. -/
  | arrayDecl (name : String) (ty : Ty) (size : Expr) (elements : List Expr)
  | assign (assignment : Assignment)
  /-- `name[index] = value;` -/
  | arrayAssign (name : String) (index value : Expr)
  | print (value : Expr)
  | delay (duration : Expr)
  /-- Paints one pixel. -/
  | write (x y color : Expr)
  /-- Paints a rectangle. -/
  | writeBox (x y width height color : Expr)
  /-- A conditional, with or without an alternative; an empty alternative is
  not the same as none. -/
  | conditional (test : Expr) (body : List Stmt) (otherwise : Option (List Stmt))
  | whileLoop (test : Expr) (body : List Stmt)
  | forLoop (init : Option VarDecl) (test : Expr) (step : Option Assignment) (body : List Stmt)
  | ret (value : Expr)
  /-- A nested `{ … }`. -/
  | block (body : List Stmt)
  /-- A function, allowed only at the top level of a program. -/
  | function (name : String) (params : List Param) (result : Ty) (body : List Stmt)

/-- Whether a statement is a `return`. -/
def Stmt.isReturn : Stmt → Bool
  | .ret _ => true
  | _ => false

/-! ## Programs -/

/-- A function declaration. -/
structure FunctionDecl where
  name : String
  params : List Param
  result : Ty
  body : List Stmt

/-- The declaration that a statement makes, if it declares a function. -/
def Stmt.function? : Stmt → Option FunctionDecl
  | .function name params result body => some ⟨name, params, result, body⟩
  | _ => none

/-- A program: statements and function declarations in any order. -/
structure Program where
  items : List Stmt

/-- The declared functions, in order. -/
def Program.functions (p : Program) : List FunctionDecl :=
  p.items.filterMap Stmt.function?

/-- The statements that run, in order: all that declare no function. -/
def Program.statements (p : Program) : List Stmt :=
  p.items.filter (·.function?.isNone)

end PadCompiler
