import PadCompiler.Program
import PadCompiler.Wire.Basic

/-!
# PadCompiler.Wire.Program

The binary format of programs.  Each alternative of an expression or a
statement is its position as a tag, then its parts in order.

Trees are decoded with a bound on their height.  Every level reads at least its
own tag, so the length of the input is bound enough: where the bound runs out
the input has run out too.
-/

namespace PadCompiler.Wire

/-! ## Expressions -/

/-- The operators, in the order of their tags. -/
def binaryOps : List BinaryOp :=
  [.lt, .gt, .le, .ge, .eq, .notEq, .add, .sub, .or, .mul, .div, .and]

mutual
/-- An expression. -/
def encodeExpr : Expr → List UInt8
  | .literal value => encodeVarint 0 ++ encodeValue value
  | .ident name => encodeVarint 1 ++ encodeString name
  | .binary op lhs rhs =>
    encodeVarint 2 ++ encodeMember binaryOps op ++ encodeExpr lhs ++ encodeExpr rhs
  | .call name args =>
    encodeVarint 3 ++ encodeString name ++ encodeVarint args.length ++ encodeExprs args
  | .padWidth => encodeVarint 4
  | .padHeight => encodeVarint 5
  | .randomInt bound => encodeVarint 6 ++ encodeExpr bound
  | .index name index => encodeVarint 7 ++ encodeString name ++ encodeExpr index

/-- Expressions one after the other. -/
def encodeExprs : List Expr → List UInt8
  | [] => []
  | e :: es => encodeExpr e ++ encodeExprs es
end

/-- Reads an expression of at most the given height. -/
def decodeExpr : (height : Nat) → Decoder Expr
  | 0 => throw .unexpectedEnd
  | height + 1 => do
    match ← decodeTag with
    | 0 => .literal <$> decodeValue
    | 1 => .ident <$> decodeString
    | 2 =>
      let op ← decodeMember binaryOps
      let lhs ← decodeExpr height
      let rhs ← decodeExpr height
      pure (.binary op lhs rhs)
    | 3 =>
      let name ← decodeString
      let args ← decodeList (decodeExpr height)
      pure (.call name args)
    | 4 => pure .padWidth
    | 5 => pure .padHeight
    | 6 => .randomInt <$> decodeExpr height
    | 7 =>
      let name ← decodeString
      let index ← decodeExpr height
      pure (.index name index)
    | _ => throw .badTag

/-! ## Statements -/

/-- A variable declaration. -/
def encodeVarDecl (decl : VarDecl) : List UInt8 :=
  encodeString decl.name ++ encodeTy decl.ty ++ encodeExpr decl.init

/-- Reads a variable declaration. -/
def decodeVarDecl (height : Nat) : Decoder VarDecl := do
  let name ← decodeString
  let ty ← decodeTy
  let init ← decodeExpr height
  pure ⟨name, ty, init⟩

/-- An assignment. -/
def encodeAssignment (assignment : Assignment) : List UInt8 :=
  encodeString assignment.name ++ encodeExpr assignment.value

/-- Reads an assignment. -/
def decodeAssignment (height : Nat) : Decoder Assignment := do
  let name ← decodeString
  let value ← decodeExpr height
  pure ⟨name, value⟩

/-- A parameter. -/
def encodeParam (param : Param) : List UInt8 :=
  encodeString param.name ++ encodeTy param.ty

/-- Reads a parameter. -/
def decodeParam : Decoder Param := do
  let name ← decodeString
  let ty ← decodeTy
  pure ⟨name, ty⟩

mutual
/-- A statement. -/
def encodeStmt : Stmt → List UInt8
  | .varDecl decl => encodeVarint 0 ++ encodeVarDecl decl
  | .arrayDecl name ty size elements =>
    encodeVarint 1 ++ encodeString name ++ encodeTy ty ++ encodeExpr size ++
      encodeVarint elements.length ++ encodeExprs elements
  | .assign assignment => encodeVarint 2 ++ encodeAssignment assignment
  | .arrayAssign name index value =>
    encodeVarint 3 ++ encodeString name ++ encodeExpr index ++ encodeExpr value
  | .print value => encodeVarint 4 ++ encodeExpr value
  | .delay duration => encodeVarint 5 ++ encodeExpr duration
  | .write x y color => encodeVarint 6 ++ encodeExpr x ++ encodeExpr y ++ encodeExpr color
  | .writeBox x y width height color =>
    encodeVarint 7 ++ encodeExpr x ++ encodeExpr y ++ encodeExpr width ++ encodeExpr height ++
      encodeExpr color
  | .conditional test body otherwise =>
    encodeVarint 8 ++ encodeExpr test ++ encodeVarint body.length ++ encodeStmts body ++
      match otherwise with
      | none => [0]
      | some stmts => 1 :: (encodeVarint stmts.length ++ encodeStmts stmts)
  | .whileLoop test body =>
    encodeVarint 9 ++ encodeExpr test ++ encodeVarint body.length ++ encodeStmts body
  | .forLoop init test step body =>
    encodeVarint 10 ++ encodeOption encodeVarDecl init ++ encodeExpr test ++
      encodeOption encodeAssignment step ++ encodeVarint body.length ++ encodeStmts body
  | .ret value => encodeVarint 11 ++ encodeExpr value
  | .block body => encodeVarint 12 ++ encodeVarint body.length ++ encodeStmts body
  | .function name params result body =>
    encodeVarint 13 ++ encodeString name ++ encodeList encodeParam params ++ encodeTy result ++
      encodeVarint body.length ++ encodeStmts body

/-- Statements one after the other. -/
def encodeStmts : List Stmt → List UInt8
  | [] => []
  | s :: ss => encodeStmt s ++ encodeStmts ss
end

/-- Reads a statement of at most the given height. -/
def decodeStmt : (height : Nat) → Decoder Stmt
  | 0 => throw .unexpectedEnd
  | height + 1 => do
    let expr := decodeExpr height
    let body := decodeList (decodeStmt height)
    match ← decodeTag with
    | 0 => .varDecl <$> decodeVarDecl height
    | 1 =>
      let name ← decodeString
      let ty ← decodeTy
      let size ← expr
      let elements ← decodeList expr
      pure (.arrayDecl name ty size elements)
    | 2 => .assign <$> decodeAssignment height
    | 3 =>
      let name ← decodeString
      let index ← expr
      let value ← expr
      pure (.arrayAssign name index value)
    | 4 => .print <$> expr
    | 5 => .delay <$> expr
    | 6 =>
      let x ← expr
      let y ← expr
      let color ← expr
      pure (.write x y color)
    | 7 =>
      let x ← expr
      let y ← expr
      let width ← expr
      let height ← expr
      let color ← expr
      pure (.writeBox x y width height color)
    | 8 =>
      let test ← expr
      let stmts ← body
      let otherwise ← decodeOption body
      pure (.conditional test stmts otherwise)
    | 9 =>
      let test ← expr
      let stmts ← body
      pure (.whileLoop test stmts)
    | 10 =>
      let init ← decodeOption (decodeVarDecl height)
      let test ← expr
      let step ← decodeOption (decodeAssignment height)
      let stmts ← body
      pure (.forLoop init test step stmts)
    | 11 => .ret <$> expr
    | 12 => .block <$> body
    | 13 =>
      let name ← decodeString
      let params ← decodeList decodeParam
      let result ← decodeTy
      let stmts ← body
      pure (.function name params result stmts)
    | _ => throw .badTag

/-! ## Programs -/

/-- A program in binary form. -/
def encodeProgram (p : Program) : List UInt8 :=
  encodeVarint p.items.length ++ encodeStmts p.items

/-- Reads a program from the front of the input and leaves the rest. -/
def decodeProgram : Decoder Program := fun input =>
  (Program.mk <$> decodeList (decodeStmt input.length)) input

end PadCompiler.Wire

namespace PadCompiler.Program

/-- A program in binary form. -/
def toBytes (p : Program) : List UInt8 :=
  Wire.encodeProgram p

/-- Reads a program in binary form; bytes after it are ignored. -/
def ofBytes (input : List UInt8) : Except Wire.DecodeError Program :=
  Prod.fst <$> Wire.decodeProgram input

end PadCompiler.Program
