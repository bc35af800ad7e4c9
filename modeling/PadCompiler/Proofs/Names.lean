import PadCompiler.Generator.Program

/-!
# PadCompiler.Proofs.Names

Programs with other names in place of their own.  `rename r` puts `r` on every name of a tree:
where it is declared, as a variable, an array, a parameter or a function, and wherever it is used.
An error keeps what it says and tells it of the other name.

* `Expr.rename_id`, `Stmt.rename_id` — nothing changes where every name stays;
* `Program.functions_rename`, `Program.statements_rename` — the parts of a renamed program.
-/

namespace PadCompiler

variable (r : String → String)

/-! ## Expressions -/

mutual
/-- An expression with other names. -/
def Expr.rename (r : String → String) : Expr → Expr
  | .literal value => .literal value
  | .ident name => .ident (r name)
  | .binary op lhs rhs => .binary op (lhs.rename r) (rhs.rename r)
  | .call name args => .call (r name) (Expr.renameAll r args)
  | .padWidth => .padWidth
  | .padHeight => .padHeight
  | .randomInt bound => .randomInt (bound.rename r)
  | .index name i => .index (r name) (i.rename r)

/-- Expressions with other names. -/
def Expr.renameAll (r : String → String) : List Expr → List Expr
  | [] => []
  | e :: es => e.rename r :: Expr.renameAll r es
end

@[simp] theorem Expr.length_renameAll (es : List Expr) :
    (Expr.renameAll r es).length = es.length := by
  induction es with
  | nil => simp [renameAll]
  | cons e es ih => simp [renameAll, ih]

@[simp] theorem Expr.isEmpty_renameAll (es : List Expr) :
    (Expr.renameAll r es).isEmpty = es.isEmpty := by
  cases es <;> simp [renameAll]

/-- Other names spell the same integers. -/
@[simp] theorem Expr.literalInt?_rename (e : Expr) : (e.rename r).literalInt? = e.literalInt? := by
  cases e <;> simp [rename, literalInt?]

mutual
theorem Expr.rename_id : (e : Expr) → e.rename id = e
  | .literal value => by simp [rename]
  | .ident name => by simp [rename]
  | .binary op lhs rhs => by simp [rename, rename_id lhs, rename_id rhs]
  | .call name args => by simp [rename, renameAll_id args]
  | .padWidth => by simp [rename]
  | .padHeight => by simp [rename]
  | .randomInt bound => by simp [rename, rename_id bound]
  | .index name i => by simp [rename, rename_id i]

theorem Expr.renameAll_id : (es : List Expr) → Expr.renameAll id es = es
  | [] => by simp [renameAll]
  | e :: es => by simp [renameAll, rename_id e, renameAll_id es]
end

/-! ## Statements -/

/-- A declaration with other names. -/
def VarDecl.rename (d : VarDecl) : VarDecl :=
  ⟨r d.name, d.ty, d.init.rename r⟩

/-- An assignment with other names. -/
def Assignment.rename (a : Assignment) : Assignment :=
  ⟨r a.name, a.value.rename r⟩

/-- A parameter with another name. -/
def Param.rename (param : Param) : Param :=
  { param with name := r param.name }

mutual
/-- A statement with other names. -/
def Stmt.rename (r : String → String) : Stmt → Stmt
  | .varDecl decl => .varDecl (decl.rename r)
  | .arrayDecl name ty size es => .arrayDecl (r name) ty (size.rename r) (Expr.renameAll r es)
  | .assign assignment => .assign (assignment.rename r)
  | .arrayAssign name index value => .arrayAssign (r name) (index.rename r) (value.rename r)
  | .print value => .print (value.rename r)
  | .delay duration => .delay (duration.rename r)
  | .write x y color => .write (x.rename r) (y.rename r) (color.rename r)
  | .writeBox x y width height color =>
    .writeBox (x.rename r) (y.rename r) (width.rename r) (height.rename r) (color.rename r)
  | .conditional test body none => .conditional (test.rename r) (Stmt.renameAll r body) none
  | .conditional test body (some otherwise) =>
    .conditional (test.rename r) (Stmt.renameAll r body) (some (Stmt.renameAll r otherwise))
  | .whileLoop test body => .whileLoop (test.rename r) (Stmt.renameAll r body)
  | .forLoop init test step body =>
    .forLoop (init.map (VarDecl.rename r)) (test.rename r) (step.map (Assignment.rename r))
      (Stmt.renameAll r body)
  | .ret value => .ret (value.rename r)
  | .block body => .block (Stmt.renameAll r body)
  | .function name params result body =>
    .function (r name) (params.map (Param.rename r)) result (Stmt.renameAll r body)

/-- Statements with other names. -/
def Stmt.renameAll (r : String → String) : List Stmt → List Stmt
  | [] => []
  | s :: ss => s.rename r :: Stmt.renameAll r ss
end

theorem Stmt.renameAll_eq_map (ss : List Stmt) :
    Stmt.renameAll r ss = ss.map (Stmt.rename r) := by
  induction ss with
  | nil => simp [renameAll]
  | cons s ss ih => simp [renameAll, ih]

theorem VarDecl.rename_id (d : VarDecl) : d.rename id = d := by
  simp [rename, Expr.rename_id]

theorem Assignment.rename_id (a : Assignment) : a.rename id = a := by
  simp [rename, Expr.rename_id]

theorem Param.rename_id (param : Param) : param.rename id = param := rfl

mutual
theorem Stmt.rename_id : (s : Stmt) → s.rename id = s
  | .varDecl decl => by simp [rename, VarDecl.rename_id]
  | .arrayDecl name ty size es => by simp [rename, Expr.rename_id, Expr.renameAll_id]
  | .assign assignment => by simp [rename, Assignment.rename_id]
  | .arrayAssign name index value => by simp [rename, Expr.rename_id]
  | .print value => by simp [rename, Expr.rename_id]
  | .delay duration => by simp [rename, Expr.rename_id]
  | .write x y color => by simp [rename, Expr.rename_id]
  | .writeBox x y width height color => by simp [rename, Expr.rename_id]
  | .conditional test body none => by simp [rename, Expr.rename_id, renameAll_id body]
  | .conditional test body (some otherwise) => by
      simp [rename, Expr.rename_id, renameAll_id body, renameAll_id otherwise]
  | .whileLoop test body => by simp [rename, Expr.rename_id, renameAll_id body]
  | .forLoop init test step body => by
      have hinit : VarDecl.rename id = id := funext VarDecl.rename_id
      have hstep : Assignment.rename id = id := funext Assignment.rename_id
      simp [rename, hinit, hstep, Expr.rename_id, renameAll_id body]
  | .ret value => by simp [rename, Expr.rename_id]
  | .block body => by simp [rename, renameAll_id body]
  | .function name params result body => by
      have hparam : Param.rename id = id := funext Param.rename_id
      simp [rename, hparam, renameAll_id body]

theorem Stmt.renameAll_id : (ss : List Stmt) → Stmt.renameAll id ss = ss
  | [] => by simp [renameAll]
  | s :: ss => by simp [renameAll, rename_id s, renameAll_id ss]
end

/-! ## Programs -/

/-- A function with other names. -/
def FunctionDecl.rename (d : FunctionDecl) : FunctionDecl :=
  ⟨r d.name, d.params.map (Param.rename r), d.result, Stmt.renameAll r d.body⟩

/-- A program with other names. -/
def Program.rename (p : Program) : Program :=
  ⟨Stmt.renameAll r p.items⟩

/-- Other names make no other kind of statement. -/
theorem Stmt.function?_rename (s : Stmt) :
    (s.rename r).function? = s.function?.map (FunctionDecl.rename r) := by
  cases s with
  | conditional test body otherwise => cases otherwise <;> simp [rename, function?]
  | _ => simp [rename, function?, FunctionDecl.rename]

theorem Stmt.isReturn_rename (s : Stmt) : (s.rename r).isReturn = s.isReturn := by
  cases s with
  | conditional test body otherwise => cases otherwise <;> simp [rename, isReturn]
  | _ => simp [rename, isReturn]

theorem Generator.endsWithReturn_rename (body : List Stmt) :
    endsWithReturn (Stmt.renameAll r body) = endsWithReturn body := by
  rw [Stmt.renameAll_eq_map, endsWithReturn, endsWithReturn, List.getLast?_map]
  cases body.getLast? <;> simp [Stmt.isReturn_rename]

theorem Program.functions_rename (p : Program) :
    (p.rename r).functions = p.functions.map (FunctionDecl.rename r) := by
  have hfunction : Stmt.function? ∘ Stmt.rename r =
      Option.map (FunctionDecl.rename r) ∘ Stmt.function? := funext (Stmt.function?_rename r)
  rw [rename, functions, functions, Stmt.renameAll_eq_map, List.filterMap_map, hfunction,
    List.map_filterMap]
  rfl

theorem Program.statements_rename (p : Program) :
    (p.rename r).statements = Stmt.renameAll r p.statements := by
  have hkeep : (fun s : Stmt => s.function?.isNone) ∘ Stmt.rename r =
      fun s => s.function?.isNone := by
    funext s
    simp [Stmt.function?_rename]
  simp only [rename, statements, Stmt.renameAll_eq_map, List.filter_map, hkeep]

/-! ## Errors -/

/-- What an error tells of another name. -/
def CompileError.rename : CompileError → CompileError
  | .unresolved name => .unresolved (r name)
  | .notA name expected found => .notA (r name) expected found
  | .arity name expected found => .arity (r name) expected found
  | .redeclared name => .redeclared (r name)
  | .nestedFunction name => .nestedFunction (r name)
  | .nonStaticSize name => .nonStaticSize (r name)
  | .indexOutOfBounds name index length => .indexOutOfBounds (r name) index length
  | .initializerCount name length found => .initializerCount (r name) length found
  | .verify e => .verify e
  | .internal e => .internal e
  | .fault f => .fault f

theorem CompileError.rename_id (e : CompileError) : e.rename id = e := by
  cases e <;> rfl

end PadCompiler
