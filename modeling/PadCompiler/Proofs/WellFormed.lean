import PadCompiler.Proofs.Translation

/-!
# PadCompiler.Proofs.WellFormed

Which programs are well-formed, told from what their names stand for.

A scope is a list of names, the newest first, and a name is looked up in the open scopes from
the inside out.  `Expr.WellFormed`, `Stmt.WellFormed` and `Program.WellFormed` are the judgement;
it knows nothing of slots, frames and code.

`Judges` says that an outcome goes by a condition: there is a result only if it holds, and a
report only if it does not.

* `Layout.expr_judges`, `Layout.stmts_checks` — the layout goes by the judgement, and the scopes
  that it leaves hold the names that the judgement goes on with.
-/

namespace PadCompiler

/-! ## Names -/

/-- What a name stands for, as far as it decides how the name may be used. -/
inductive Denoted where
  | scalar
  | array (length : Nat)
  | function (arity : Nat)
deriving DecidableEq

/-- The names of one scope, the newest first. -/
abbrev Names := List (String × Denoted)

/-- What a name stands for in the first of the scopes that has it. -/
def resolve (scopes : List Names) (name : String) : Option Denoted :=
  scopes.findSome? (·.lookup name)

/-! ## Expressions -/

/-- An index that is spelled out lies in an array of the length. -/
def Expr.InBounds (length : Nat) (index : Expr) : Prop :=
  ∀ n, index.literalInt? = some n → 0 ≤ n.toInt ∧ n.toInt < length

mutual
/-- Variables are read, arrays indexed and functions called with as many arguments as they have
parameters. -/
def Expr.WellFormed (scopes : List Names) : Expr → Prop
  | .literal _ | .padWidth | .padHeight => True
  | .ident name => resolve scopes name = some .scalar
  | .binary _ lhs rhs => lhs.WellFormed scopes ∧ rhs.WellFormed scopes
  | .call name args =>
    resolve scopes name = some (.function args.length) ∧ Expr.AllWellFormed scopes args
  | .randomInt bound => bound.WellFormed scopes
  | .index name i =>
    (∃ length, resolve scopes name = some (.array length) ∧ i.InBounds length) ∧
      i.WellFormed scopes

/-- All of the expressions are well-formed. -/
def Expr.AllWellFormed (scopes : List Names) : List Expr → Prop
  | [] => True
  | e :: es => e.WellFormed scopes ∧ Expr.AllWellFormed scopes es
end

/-- What may be put out: a well-formed expression or a whole array by its name. -/
def Expr.WellFormedOutput (scopes : List Names) (e : Expr) : Prop :=
  e.WellFormed scopes ∨ ∃ name length, e = .ident name ∧ resolve scopes name = some (.array length)

/-! ## Statements -/

/-- The names that a statement adds to the scope it stands in. -/
def Stmt.introduces : Stmt → Names
  | .varDecl decl => [(decl.name, .scalar)]
  | .arrayDecl name _ size _ => [(name, .array size.spelledLength)]
  | _ => []

/-- The names that statements add to the scope they stand in. -/
def Stmt.listIntroduces : List Stmt → Names
  | [] => []
  | s :: ss => Stmt.listIntroduces ss ++ s.introduces

/-- The name that the head of a loop declares. -/
def headNames (init : Option VarDecl) : Names :=
  init.toList.map fun decl => (decl.name, .scalar)

/-- A variable is assigned to. -/
def Assignment.WellFormed (scopes : List Names) (a : Assignment) : Prop :=
  a.value.WellFormed scopes ∧ resolve scopes a.name = some .scalar

mutual
/-- A statement is well-formed in a scope inside others.  Blocks and branches start with an empty
scope.  The body of a loop goes on with the scope of its head, and its step is judged in the
scope as the body leaves it. -/
def Stmt.WellFormed (outer : List Names) (scope : Names) : Stmt → Prop
  | .varDecl decl => decl.init.WellFormed (scope :: outer)
  | .arrayDecl _ _ size elements =>
    (∃ n, size.literalInt? = some n ∧ 0 < n.toInt ∧
      (elements = [] ∨ (elements.length : Int) = n.toInt)) ∧
      Expr.AllWellFormed (scope :: outer) elements
  | .assign assignment => assignment.WellFormed (scope :: outer)
  | .arrayAssign name index value =>
    value.WellFormed (scope :: outer) ∧ (Expr.index name index).WellFormed (scope :: outer)
  | .print value | .ret value => value.WellFormedOutput (scope :: outer)
  | .delay duration => Expr.AllWellFormed (scope :: outer) [duration]
  | .write x y color => Expr.AllWellFormed (scope :: outer) [x, y, color]
  | .writeBox x y width height color =>
    Expr.AllWellFormed (scope :: outer) [x, y, width, height, color]
  | .conditional test body none =>
    test.WellFormed ([] :: scope :: outer) ∧ Stmt.ListWellFormed (scope :: outer) [] body
  | .conditional test body (some otherwise) =>
    test.WellFormed ([] :: scope :: outer) ∧ Stmt.ListWellFormed (scope :: outer) [] body ∧
      Stmt.ListWellFormed (scope :: outer) [] otherwise
  | .whileLoop test body =>
    test.WellFormed ([] :: scope :: outer) ∧ Stmt.ListWellFormed (scope :: outer) [] body
  | .forLoop init test step body =>
    (∀ decl ∈ init, decl.init.WellFormed ([] :: scope :: outer)) ∧
      test.WellFormed (headNames init :: scope :: outer) ∧
      Stmt.ListWellFormed (scope :: outer) (headNames init) body ∧
      ∀ a ∈ step, a.WellFormed ((Stmt.listIntroduces body ++ headNames init) :: scope :: outer)
  | .block body => Stmt.ListWellFormed (scope :: outer) [] body
  | .function .. => False

/-- Statements are well-formed one after the other, each with the names of those before it. -/
def Stmt.ListWellFormed (outer : List Names) (scope : Names) : List Stmt → Prop
  | [] => True
  | s :: ss => s.WellFormed outer scope ∧ Stmt.ListWellFormed outer (s.introduces ++ scope) ss
end

/-! ## Programs -/

/-- The names of a program's functions. -/
def Program.functionNames (p : Program) : Names :=
  (p.functions.map fun d => (d.name, .function d.params.length)).reverse

/-- The names of a function's parameters. -/
def FunctionDecl.paramNames (d : FunctionDecl) : Names :=
  (d.params.map fun param => (param.name, .scalar)).reverse

/-- A function sees its parameters and the functions, the statements see the functions and what
they declare. -/
structure Program.WellFormed (config : Config) (p : Program) : Prop where
  distinct : config.redeclaration = .reject → (p.functions.map (·.name)).Nodup
  functions : ∀ d ∈ p.functions, Stmt.ListWellFormed [p.functionNames] d.paramNames d.body
  statements : Stmt.ListWellFormed [] p.functionNames p.statements

/-! ## Computing the judgement -/

-- The two instances about literals look at the literal.  Left to themselves, instances for
-- quantifiers over words would go through all words.
instance Expr.decInBounds (length : Nat) (index : Expr) : Decidable (index.InBounds length) :=
  match h : index.literalInt? with
  | some n => decidable_of_iff (0 ≤ n.toInt ∧ n.toInt < length) (by simp [InBounds, h])
  | none => .isTrue (by simp [InBounds, h])

instance Expr.decSpelled (size : Expr) (P : Int64 → Prop) [DecidablePred P] :
    Decidable (∃ n, size.literalInt? = some n ∧ P n) :=
  match h : size.literalInt? with
  | some n => decidable_of_iff (P n) (by simp)
  | none => .isFalse (by simp)

instance decResolvesToArray (scopes : List Names) (name : String) (P : Nat → Prop)
    [DecidablePred P] :
    Decidable (∃ length, resolve scopes name = some (.array length) ∧ P length) :=
  match h : resolve scopes name with
  | some (.array length) => decidable_of_iff (P length) (by simp)
  | some .scalar | some (.function _) | none => .isFalse (by simp)

mutual
/-- Whether an expression is well-formed. -/
instance Expr.decWellFormed (scopes : List Names) : (e : Expr) → Decidable (e.WellFormed scopes)
  | .literal _ | .padWidth | .padHeight => .isTrue (by simp [Expr.WellFormed])
  | .ident name => inferInstanceAs (Decidable (resolve scopes name = some .scalar))
  | .binary _ lhs rhs =>
    have := lhs.decWellFormed scopes
    have := rhs.decWellFormed scopes
    inferInstanceAs (Decidable (lhs.WellFormed scopes ∧ rhs.WellFormed scopes))
  | .call name args =>
    have := Expr.decAllWellFormed scopes args
    inferInstanceAs (Decidable (resolve scopes name = some (.function args.length) ∧
      Expr.AllWellFormed scopes args))
  | .randomInt bound => bound.decWellFormed scopes
  | .index name i =>
    have := i.decWellFormed scopes
    inferInstanceAs (Decidable ((∃ length, resolve scopes name = some (.array length) ∧
      i.InBounds length) ∧ i.WellFormed scopes))

/-- Whether all of the expressions are well-formed. -/
instance Expr.decAllWellFormed (scopes : List Names) :
    (es : List Expr) → Decidable (Expr.AllWellFormed scopes es)
  | [] => .isTrue (by simp [Expr.AllWellFormed])
  | e :: es =>
    have := e.decWellFormed scopes
    have := Expr.decAllWellFormed scopes es
    inferInstanceAs (Decidable (e.WellFormed scopes ∧ Expr.AllWellFormed scopes es))
end

instance Expr.decWellFormedOutput (scopes : List Names) (e : Expr) :
    Decidable (e.WellFormedOutput scopes) :=
  have : Decidable (∃ name length, e = .ident name ∧ resolve scopes name = some (.array length)) :=
    match e with
    | .ident name =>
      decidable_of_iff (∃ length, resolve scopes name = some (.array length) ∧ True) (by simp)
    | .literal _ | .padWidth | .padHeight | .binary .. | .call .. | .randomInt _ | .index .. =>
      .isFalse (by simp)
  inferInstanceAs (Decidable (_ ∨ _))

instance Assignment.decWellFormed (scopes : List Names) (a : Assignment) :
    Decidable (a.WellFormed scopes) :=
  inferInstanceAs (Decidable (_ ∧ _))

mutual
/-- Whether a statement is well-formed. -/
instance Stmt.decWellFormed (outer : List Names) (scope : Names) :
    (s : Stmt) → Decidable (s.WellFormed outer scope)
  | .varDecl decl => inferInstanceAs (Decidable (decl.init.WellFormed (scope :: outer)))
  | .arrayDecl _ _ size elements =>
    inferInstanceAs (Decidable ((∃ n, size.literalInt? = some n ∧ 0 < n.toInt ∧
      (elements = [] ∨ (elements.length : Int) = n.toInt)) ∧
      Expr.AllWellFormed (scope :: outer) elements))
  | .assign a => inferInstanceAs (Decidable (a.WellFormed (scope :: outer)))
  | .arrayAssign name index value =>
    inferInstanceAs (Decidable (value.WellFormed (scope :: outer) ∧
      (Expr.index name index).WellFormed (scope :: outer)))
  | .print value | .ret value =>
    inferInstanceAs (Decidable (value.WellFormedOutput (scope :: outer)))
  | .delay duration => inferInstanceAs (Decidable (Expr.AllWellFormed (scope :: outer) [duration]))
  | .write x y color =>
    inferInstanceAs (Decidable (Expr.AllWellFormed (scope :: outer) [x, y, color]))
  | .writeBox x y width height color =>
    inferInstanceAs (Decidable (Expr.AllWellFormed (scope :: outer) [x, y, width, height, color]))
  | .conditional test body none | .whileLoop test body =>
    have := Stmt.decListWellFormed (scope :: outer) [] body
    inferInstanceAs (Decidable (test.WellFormed ([] :: scope :: outer) ∧
      Stmt.ListWellFormed (scope :: outer) [] body))
  | .conditional test body (some otherwise) =>
    have := Stmt.decListWellFormed (scope :: outer) [] body
    have := Stmt.decListWellFormed (scope :: outer) [] otherwise
    inferInstanceAs (Decidable (test.WellFormed ([] :: scope :: outer) ∧
      Stmt.ListWellFormed (scope :: outer) [] body ∧
      Stmt.ListWellFormed (scope :: outer) [] otherwise))
  | .forLoop init test step body =>
    have := Stmt.decListWellFormed (scope :: outer) (headNames init) body
    inferInstanceAs (Decidable ((∀ decl ∈ init, decl.init.WellFormed ([] :: scope :: outer)) ∧
      test.WellFormed (headNames init :: scope :: outer) ∧
      Stmt.ListWellFormed (scope :: outer) (headNames init) body ∧
      ∀ a ∈ step, a.WellFormed ((Stmt.listIntroduces body ++ headNames init) :: scope :: outer)))
  | .block body => Stmt.decListWellFormed (scope :: outer) [] body
  | .function .. => .isFalse (by simp [Stmt.WellFormed])

/-- Whether statements are well-formed. -/
instance Stmt.decListWellFormed (outer : List Names) (scope : Names) :
    (ss : List Stmt) → Decidable (Stmt.ListWellFormed outer scope ss)
  | [] => .isTrue (by simp [Stmt.ListWellFormed])
  | s :: ss =>
    have := s.decWellFormed outer scope
    have := Stmt.decListWellFormed outer (s.introduces ++ scope) ss
    inferInstanceAs (Decidable (s.WellFormed outer scope ∧
      Stmt.ListWellFormed outer (s.introduces ++ scope) ss))
end

instance Program.decWellFormed (config : Config) (p : Program) :
    Decidable (p.WellFormed config) :=
  decidable_of_iff ((config.redeclaration = .reject → (p.functions.map (·.name)).Nodup) ∧
      (∀ d ∈ p.functions, Stmt.ListWellFormed [p.functionNames] d.paramNames d.body) ∧
      Stmt.ListWellFormed [] p.functionNames p.statements)
    ⟨fun ⟨hdistinct, hfunctions, hstatements⟩ => ⟨hdistinct, hfunctions, hstatements⟩,
      fun h => ⟨h.distinct, h.functions, h.statements⟩⟩

/-! ## Outcomes that go by a condition -/

/-- There is a result, for which `P` holds, only if the condition does, and a report only if it
does not. -/
def Judges (r : Except CompileError α) (condition : Prop) (P : α → Prop) : Prop :=
  match r with
  | .ok a => condition ∧ P a
  | .error e => e.isReport = true → ¬condition

namespace Judges

variable {condition first : Prop} {P : α → Prop} {Q : β → Prop} {x : Except CompileError α}

theorem ok {a : α} (h : condition) (ha : P a) : Judges (.ok a) condition P :=
  ⟨h, ha⟩

theorem error (e : CompileError) (h : ¬condition) : Judges (.error e) condition P :=
  fun _ => h

/-- A fault tells nothing about the program. -/
theorem fault (f : Fault) : Judges (α := α) (.error (.fault f)) condition P :=
  nofun

/-- The first step goes by a part of the condition. -/
theorem bind {f : α → Except CompileError β} (hx : Judges x first P) (hpart : condition → first)
    (hf : ∀ a, first → P a → Judges (f a) condition Q) : Judges (x >>= f) condition Q := by
  cases x with
  | ok a => exact hf a hx.1 hx.2
  | error e => exact fun he h => hx he (hpart h)

end Judges

/-! ## Layout of expressions -/

/-- What a stored thing is used as. -/
def Storage.denoted : Storage → Denoted
  | .scalar _ => .scalar
  | .array _ length => .array length
  | .function _ arity => .function arity

/-- The names of a frame. -/
def Frame.denoted (f : Frame) : Names :=
  f.names.map fun entry => (entry.1, entry.2.denoted)

/-- A look-up finds what the scopes say. -/
def Lookup.Shows (find : Lookup) (scopes : List Names) : Prop :=
  ∀ name, resolve scopes name = (find name).toOption.map (·.1.denoted)

theorem lookup_denoted (names : List (String × Storage)) (name : String) :
    (names.map fun entry => (entry.1, entry.2.denoted)).lookup name =
      (names.lookup name).map Storage.denoted := by
  induction names with
  | nil => rfl
  | cons entry names ih =>
      rw [List.map_cons, List.lookup_cons, List.lookup_cons]
      cases name == entry.1 with
      | true => rfl
      | false => exact ih

theorem findIn_shows (fs : List Frame) : (findIn fs).Shows (fs.map Frame.denoted) := by
  intro name
  suffices h : ∀ hops, resolve (fs.map Frame.denoted) name =
      (findFrom name hops fs).toOption.map (·.1.denoted) from h 0
  induction fs with
  | nil => exact fun hops => rfl
  | cons f fs ih =>
      intro hops
      rw [findFrom, List.map_cons, resolve, List.findSome?_cons, Frame.denoted, lookup_denoted]
      cases f.names.lookup name with
      | some storage => rfl
      | none => exact ih (hops + 1)

namespace Layout

variable {find : Lookup} {scopes : List Names}

/-- A name is looked up, and what it stands for is judged. -/
theorem find_judges (hfind : find.Shows scopes) {condition : Prop} {P : α → Prop} {name : String}
    {use : Storage × Nat → Except CompileError α} (hnone : resolve scopes name = none → ¬condition)
    (huse : ∀ storage depth, resolve scopes name = some storage.denoted →
      Judges (use (storage, depth)) condition P) :
    Judges (find name >>= use) condition P := by
  have hname := hfind name
  cases hfound : find name with
  | ok found =>
      rw [hfound] at hname
      exact huse found.1 found.2 hname
  | error e =>
      rw [hfound] at hname
      exact .error e (hnone hname)

theorem scalar_judges (hfind : find.Shows scopes) (name : String) :
    Judges (scalar find name) (resolve scopes name = some .scalar) fun _ => True := by
  refine find_judges hfind (by simp +contextual) fun storage depth hname => ?_
  cases storage with
  | scalar slot => exact .ok hname trivial
  | array base length => exact .error _ (by simp [hname, Storage.denoted])
  | function label arity => exact .error _ (by simp [hname, Storage.denoted])

theorem array_judges (hfind : find.Shows scopes) (name : String) :
    Judges (array find name) (∃ length, resolve scopes name = some (.array length))
      fun a => resolve scopes name = some (.array a.length) := by
  refine find_judges hfind (by simp +contextual) fun storage depth hname => ?_
  cases storage with
  | scalar slot => exact .error _ (by simp [hname, Storage.denoted])
  | array base length => exact .ok ⟨length, hname⟩ hname
  | function label arity => exact .error _ (by simp [hname, Storage.denoted])

theorem function_judges (hfind : find.Shows scopes) (name : String) :
    Judges (function find name) (∃ arity, resolve scopes name = some (.function arity))
      fun found => resolve scopes name = some (.function found.2) := by
  refine find_judges hfind (by simp +contextual) fun storage depth hname => ?_
  cases storage with
  | scalar slot => exact .error _ (by simp [hname, Storage.denoted])
  | array base length => exact .error _ (by simp [hname, Storage.denoted])
  | function label arity => exact .ok ⟨arity, hname⟩ hname

theorem checkBounds_judges (name : String) {index : Expr} {n : Int64}
    (hindex : index.literalInt? = some n) (length : Nat) :
    Judges (checkBounds name n length) (index.InBounds length) fun _ => True := by
  unfold checkBounds
  by_cases hout : n.toInt < 0 ∨ length ≤ n.toInt
  · rw [if_pos hout]
    refine .error _ fun hbounds => ?_
    have hin := hbounds n hindex
    omega
  · rw [if_neg hout]
    refine .ok (fun n' hn' => ?_) trivial
    cases hindex.symm.trans hn'
    omega

/-- An index that is spelled out is judged by its bounds, any other by its own code. -/
theorem index_judges {index : Expr}
    (hindex : Judges (expr find index) (index.WellFormed scopes) fun _ => True) (name : String)
    (length : Nat) (spelled : Nat → List Instruction)
    (computed : List Instruction → List Instruction) :
    Judges (match index.literalInt? with
      | some n => do
        let offset ← checkBounds name n length
        pure (spelled offset)
      | none => do
        let code ← expr find index
        pure (computed code))
      (index.InBounds length ∧ index.WellFormed scopes) fun _ => True := by
  cases hlit : index.literalInt? with
  | some n =>
      have hwf : index.WellFormed scopes := by
        rw [Expr.eq_int_of_literalInt? hlit, Expr.WellFormed]
        trivial
      exact .bind (checkBounds_judges name hlit length) And.left fun _ hin _ =>
        .ok ⟨hin, hwf⟩ trivial
  | none =>
      have hin : index.InBounds length := by simp [Expr.InBounds, hlit]
      exact .bind hindex And.right fun _ hwf _ => .ok ⟨hin, hwf⟩ trivial

/-- The array that a name stands for is the one that is indexed. -/
theorem inBounds_iff {name : String} {length : Nat}
    (hname : resolve scopes name = some (.array length)) {index : Expr} :
    (∃ length, resolve scopes name = some (.array length) ∧ index.InBounds length) ↔
      index.InBounds length := by
  simp [hname]

mutual
/-- An expression has code if it is well-formed, and only then. -/
theorem expr_judges (hfind : find.Shows scopes) : (e : Expr) →
    Judges (expr find e) (e.WellFormed scopes) fun _ => True
  | .literal value => by
      rw [expr, Expr.WellFormed]
      exact .ok trivial trivial
  | .padWidth => by
      rw [expr, Expr.WellFormed]
      exact .ok trivial trivial
  | .padHeight => by
      rw [expr, Expr.WellFormed]
      exact .ok trivial trivial
  | .ident name => by
      rw [expr, Expr.WellFormed]
      exact .bind (scalar_judges hfind name) id fun _ hname _ => .ok hname trivial
  | .randomInt bound => by
      rw [expr, Expr.WellFormed]
      exact .bind (expr_judges hfind bound) id fun _ hbound _ => .ok hbound trivial
  | .binary op lhs rhs => by
      rw [expr, Expr.WellFormed]
      refine .bind (expr_judges hfind rhs) And.right fun right hrhs _ => ?_
      refine .bind (expr_judges hfind lhs) And.left fun left hlhs _ => ?_
      cases op.opcode? with
      | some opcode => exact .ok ⟨hlhs, hrhs⟩ trivial
      | none => exact .ok ⟨hlhs, hrhs⟩ trivial
  | .call name args => by
      rw [expr, Expr.WellFormed]
      refine .bind (function_judges hfind name) (fun h => ⟨_, h.1⟩) ?_
      rintro ⟨label, arity⟩ - hname
      dsimp only at hname ⊢
      by_cases harity : arity = args.length
      · subst harity
        rw [if_neg (not_not_intro rfl)]
        exact .bind (reversed_judges hfind args) And.right fun _ hargs _ =>
          .ok ⟨hname, hargs⟩ trivial
      · rw [if_pos harity]
        exact .error _ fun h => harity (by simpa [hname] using h.1)
  | .index name i => by
      rw [expr, Expr.WellFormed]
      refine .bind (array_judges hfind name) (fun ⟨⟨length, h, _⟩, _⟩ => ⟨length, h⟩) ?_
      intro array _ hname
      rw [inBounds_iff hname]
      exact index_judges (expr_judges hfind i) name array.length _ _

theorem reversed_judges (hfind : find.Shows scopes) : (es : List Expr) →
    Judges (reversed find es) (Expr.AllWellFormed scopes es) fun _ => True
  | [] => by
      rw [reversed, Expr.AllWellFormed]
      exact .ok trivial trivial
  | e :: es => by
      rw [reversed, Expr.AllWellFormed]
      refine .bind (reversed_judges hfind es) And.right fun _ hes _ => ?_
      exact .bind (expr_judges hfind e) And.left fun _ he _ => .ok ⟨he, hes⟩ trivial
end

theorem inOrder_judges (hfind : find.Shows scopes) (es : List Expr) :
    Judges (inOrder find es) (Expr.AllWellFormed scopes es) fun _ => True := by
  induction es with
  | nil =>
      rw [inOrder, Expr.AllWellFormed]
      exact .ok trivial trivial
  | cons e es ih =>
      rw [inOrder, Expr.AllWellFormed]
      refine .bind (expr_judges hfind e) And.left fun _ he _ => ?_
      exact .bind ih And.right fun _ hes _ => .ok ⟨he, hes⟩ trivial

end Layout

/-! ## Layout of statements -/

theorem Stmt.listWellFormed_one {outer : List Names} {scope : Names} {s : Stmt} :
    Stmt.ListWellFormed outer scope [s] ↔ s.WellFormed outer scope := by
  simp [Stmt.ListWellFormed]

@[simp] theorem Stmt.listIntroduces_one (s : Stmt) :
    Stmt.listIntroduces [s] = s.introduces := rfl

theorem Frame.add_denoted (f : Frame) (name : String) (n : Nat) (storage : Nat → Storage) :
    (f.add name n storage).denoted = (name, (storage f.used).denoted) :: f.denoted := rfl

/-- From every scope stack, a layout goes by whether the statements are well-formed, and adds
the names that they introduce. -/
def Checks (layout : Layout ScopeStack) (ss : List Stmt) : Prop :=
  ∀ ⦃fs f s⦄, Represents s (f :: fs) →
    Judges (layout s) (Stmt.ListWellFormed (fs.map Frame.denoted) f.denoted ss) fun r =>
      ∃ g, Represents r.2 (g :: fs) ∧ g.denoted = Stmt.listIntroduces ss ++ f.denoted

namespace Checks

variable {fs : List Frame} {f : Frame} {s : ScopeStack}

/-- What names stand for in the scopes. -/
theorem shows (hs : Represents s fs) : Lookup.Shows (Scoping.find s) (fs.map Frame.denoted) := by
  rw [hs.find]
  exact findIn_shows fs

theorem varDecl (decl : VarDecl) : Checks (Layout.varDecl decl) [.varDecl decl] := by
  intro fs f s hs
  rw [Stmt.listWellFormed_one, Stmt.WellFormed]
  refine .bind (Layout.expr_judges (shows hs) decl.init) id fun init hinit _ => ?_
  rcases hs.scalar decl.name decl.ty decl.init.lowered with ⟨s', hscalar, hs'⟩ | ⟨hscalar, -⟩
  · rw [hscalar]
    exact .ok hinit ⟨_, hs', rfl⟩
  · rw [hscalar]
    exact .fault _

theorem assign (a : Assignment) : Checks (Layout.assign a) [.assign a] := by
  intro fs f s hs
  rw [Stmt.listWellFormed_one, Stmt.WellFormed, Assignment.WellFormed]
  refine .bind (Layout.expr_judges (shows hs) a.value) And.left fun value hvalue _ => ?_
  obtain ⟨s', hs', hassign⟩ := hs.assign a.name a.value.lowered
  rw [hassign]
  refine (bind_map_left _ (findIn (f :: fs) a.name) _).symm ▸ ?_
  refine Layout.find_judges (findIn_shows (f :: fs)) ?_ fun storage depth hname => ?_
  · intro hnone h
    cases hnone.symm.trans h.2
  cases storage with
  | scalar slot => exact .ok ⟨hvalue, hname⟩ ⟨f, hs', rfl⟩
  | array base length => exact .error _ fun h => by cases hname.symm.trans h.2
  | function label arity => exact .error _ fun h => by cases hname.symm.trans h.2

theorem arrayLength_judges (name : String) (size : Expr) :
    Judges (Generator.arrayLength name size) (∃ n, size.literalInt? = some n ∧ 0 < n.toInt)
      fun length => size.spelledLength = length := by
  unfold Generator.arrayLength Expr.spelledLength
  cases size.literalInt? with
  | none => exact .error _ (by simp)
  | some n =>
      by_cases hpos : 0 < n.toInt
      · simp only [if_pos hpos]
        exact .ok ⟨n, rfl, hpos⟩ rfl
      · simp only [if_neg hpos]
        exact .error _ fun ⟨n', hn', hpos'⟩ => hpos (Option.some.inj hn' ▸ hpos')

/-- The elements of an array are judged once its length is known. -/
theorem elements_judges {find : Lookup} {scopes : List Names} (hfind : find.Shows scopes)
    (name : String) (ty : Ty) (length : Nat) (es : List Expr) :
    Judges (Layout.elements find name ty length es)
      ((es = [] ∨ es.length = length) ∧ Expr.AllWellFormed scopes es) fun _ => True := by
  unfold Layout.elements
  cases es with
  | nil => exact .ok ⟨.inl rfl, trivial⟩ trivial
  | cons e es =>
      rw [if_neg (by simp)]
      by_cases hcount : (e :: es).length = length
      · rw [if_neg (not_not_intro hcount)]
        have hes := Layout.reversed_judges hfind (e :: es)
        rw [← bind_pure (Layout.reversed find (e :: es))]
        exact .bind hes And.right fun _ hes _ => .ok ⟨.inr hcount, hes⟩ trivial
      · rw [if_pos hcount]
        exact .error _ fun h => hcount (by simpa using h.1)

theorem arrayDecl (name : String) (ty : Ty) (size : Expr) (es : List Expr) :
    Checks (Layout.arrayDecl name ty size es) [.arrayDecl name ty size es] := by
  intro fs f s hs
  rw [Stmt.listWellFormed_one, Stmt.WellFormed]
  refine .bind (arrayLength_judges name size) (fun ⟨⟨n, hn, hpos, _⟩, _⟩ => ⟨n, hn, hpos⟩) ?_
  rintro length ⟨n, hn, hpos⟩ hlength
  have hlength' : (length : Int) = n.toInt := by
    rw [← hlength, Expr.spelledLength, hn]
    exact Int.toNat_of_nonneg (Int.le_of_lt hpos)
  refine .bind (elements_judges (shows hs) name ty length es) ?_ fun values hes _ => ?_
  · rintro ⟨⟨n', hn', -, hcount⟩, hes⟩
    cases hn.symm.trans hn'
    exact ⟨hcount.imp_right fun h => by omega, hes⟩
  · rcases hs.array name ty length with ⟨s', harray, hs'⟩ | ⟨harray, -⟩
    · rw [harray]
      refine .ok ⟨⟨n, hn, hpos, hes.1.imp_right fun h => by omega⟩, hes.2⟩ ⟨_, hs', ?_⟩
      rw [Frame.add_denoted, Stmt.listIntroduces_one, Stmt.introduces, hlength]
      rfl
    · rw [harray]
      exact .fault _

theorem arrayAssign (name : String) (index value : Expr) :
    Checks (Layout.arrayAssign name index value) [.arrayAssign name index value] := by
  intro fs f s hs
  rw [Stmt.listWellFormed_one, Stmt.WellFormed, Expr.WellFormed]
  refine .bind (Layout.expr_judges (shows hs) value) And.left fun code hvalue _ => ?_
  refine .bind (Layout.array_judges (shows hs) name) (fun ⟨_, ⟨length, h, _⟩, _⟩ => ⟨length, h⟩) ?_
  intro array _ hname
  rw [List.map_cons] at hname
  rw [Layout.inBounds_iff hname]
  refine .bind (Layout.index_judges (Layout.expr_judges (shows hs) index) name array.length _ _)
    And.right fun slot hindex _ => ?_
  exact .ok ⟨hvalue, hindex⟩ ⟨f, hs, rfl⟩

/-- An array that a name stands for is found. -/
theorem array_of_resolve {find : Lookup} {scopes : List Names} (hfind : find.Shows scopes)
    {name : String} {length : Nat} (hname : resolve scopes name = some (.array length)) :
    ∃ a, Layout.array find name = .ok a := by
  rw [hfind name] at hname
  cases hfound : find name with
  | error e =>
      rw [hfound] at hname
      contradiction
  | ok found =>
      obtain ⟨storage, depth⟩ := found
      rw [hfound] at hname
      cases storage with
      | scalar slot => cases hname
      | array base length' => exact ⟨_, by rw [Layout.array, hfound]; rfl⟩
      | function label arity => cases hname

theorem output {stmt : Stmt} {e : Expr} {op arrayOp : Opcode}
    (hstmt : stmt.output? = some (e, op, arrayOp)) :
    Checks (Layout.output e op arrayOp) [stmt] := by
  intro fs f s hs
  have hfind := shows hs
  have hone : stmt.introduces = [] ∧ (stmt.WellFormed (fs.map Frame.denoted) f.denoted ↔
      e.WellFormedOutput (f.denoted :: fs.map Frame.denoted)) := by
    cases stmt with
    | print value =>
        cases hstmt
        exact ⟨rfl, by rw [Stmt.WellFormed]⟩
    | ret value =>
        cases hstmt
        exact ⟨rfl, by rw [Stmt.WellFormed]⟩
    | _ => contradiction
  rw [Stmt.listWellFormed_one, hone.2, Layout.output]
  have hkept : f.denoted = Stmt.listIntroduces [stmt] ++ f.denoted := by simp [hone.1]
  cases harray : Layout.arrayIdent (Scoping.find s) e with
  | none =>
      refine .bind (Layout.expr_judges hfind e) ?_ fun value he _ => .ok (.inl he) ⟨f, hs, hkept⟩
      rintro (he | ⟨name, length, rfl, hname⟩)
      · exact he
      · obtain ⟨a, ha⟩ := array_of_resolve hfind hname
        rw [Layout.arrayIdent, ha] at harray
        contradiction
  | some array =>
      refine .ok (.inr ?_) ⟨f, hs, hkept⟩
      cases e with
      | ident name =>
          have hname := Layout.array_judges hfind name
          rw [Layout.arrayIdent] at harray
          cases hfound : Layout.array (Scoping.find s) name with
          | error err =>
              rw [hfound] at harray
              contradiction
          | ok a =>
              rw [hfound] at hname
              exact ⟨name, a.length, rfl, hname.2⟩
      | _ => contradiction

theorem operation {stmt : Stmt} {es : List Expr} {op : Opcode}
    (hstmt : stmt.operation? = some (es, op)) : Checks (Layout.operation es op) [stmt] := by
  intro fs f s hs
  have hone : stmt.introduces = [] ∧ (stmt.WellFormed (fs.map Frame.denoted) f.denoted ↔
      Expr.AllWellFormed (f.denoted :: fs.map Frame.denoted) es) := by
    cases stmt with
    | delay duration =>
        cases hstmt
        exact ⟨rfl, by rw [Stmt.WellFormed]⟩
    | write x y color =>
        cases hstmt
        exact ⟨rfl, by rw [Stmt.WellFormed]⟩
    | writeBox x y width height color =>
        cases hstmt
        exact ⟨rfl, by rw [Stmt.WellFormed]⟩
    | _ => contradiction
  rw [Stmt.listWellFormed_one, hone.2]
  refine .bind (Layout.inOrder_judges (shows hs) es) id fun values hes _ => ?_
  exact .ok hes ⟨f, hs, by simp [hone.1]⟩

theorem seq {first others : Layout ScopeStack} {stmt : Stmt} {ss : List Stmt}
    (hfirst : Checks first [stmt]) (hothers : Checks others ss) :
    Checks (Layout.seq first others) (stmt :: ss) := by
  intro fs f s hs
  rw [Stmt.ListWellFormed]
  refine .bind (hfirst hs) (fun h => Stmt.listWellFormed_one.mpr h.1) ?_
  rintro ⟨code, s'⟩ hstmt ⟨g, hs', hg⟩
  rw [Stmt.listIntroduces_one] at hg
  refine .bind (hothers hs') (fun h => hg ▸ h.2) ?_
  rintro ⟨code', s''⟩ hss ⟨h, hs'', hh⟩
  refine .ok ⟨Stmt.listWellFormed_one.mp hstmt, hg ▸ hss⟩ ⟨h, hs'', ?_⟩
  rw [hh, hg, Stmt.listIntroduces, List.append_assoc]

theorem optional {part : α → Layout ScopeStack} {stmt : α → Stmt}
    (hpart : ∀ a, Checks (part a) [stmt a]) (o : Option α) :
    Checks (Layout.optional part o) (o.toList.map stmt) := by
  cases o with
  | some a => exact hpart a
  | none => exact fun fs f s hs => .ok trivial ⟨f, hs, rfl⟩

theorem nested {layout : Layout ScopeStack} {body : List Stmt} (hbody : Checks layout body) :
    Checks (Layout.nested layout) [.block body] := by
  intro fs f s hs
  rw [Stmt.listWellFormed_one, Stmt.WellFormed]
  refine .bind (hbody hs.enter) id ?_
  rintro ⟨code, s'⟩ hwf ⟨g, hs', -⟩
  obtain ⟨s'', hleave, hs''⟩ := hs'.leave
  dsimp only
  rw [hleave]
  exact .ok hwf ⟨f, hs'', rfl⟩

theorem conditional (test : Expr) {layout : Layout ScopeStack} {body : List Stmt}
    (hbody : Checks layout body) :
    Checks (Layout.conditional test layout) [.conditional test body none] := by
  intro fs f s hs
  rw [Stmt.listWellFormed_one, Stmt.WellFormed]
  refine .bind (Layout.expr_judges (shows hs.enter) test) And.left fun testCode htest _ => ?_
  refine .bind (hbody hs.enter) And.right ?_
  rintro ⟨code, s'⟩ hwf ⟨g, hs', -⟩
  obtain ⟨s'', hleave, hs''⟩ := hs'.leave
  dsimp only
  rw [hleave]
  exact .ok ⟨htest, hwf⟩ ⟨f, hs'', rfl⟩

theorem alternative (test : Expr) {layout layout' : Layout ScopeStack}
    {body otherwise : List Stmt} (hbody : Checks layout body)
    (hotherwise : Checks layout' otherwise) :
    Checks (Layout.alternative test layout layout')
      [.conditional test body (some otherwise)] := by
  intro fs f s hs
  rw [Stmt.listWellFormed_one, Stmt.WellFormed]
  refine .bind (Layout.expr_judges (shows hs.enter) test) And.left fun testCode htest _ => ?_
  refine .bind (hbody hs.enter) (fun h => h.2.1) ?_
  rintro ⟨code, s'⟩ hwf ⟨g, hs', -⟩
  refine .bind (hotherwise hs'.fresh) (fun h => h.2.2) ?_
  rintro ⟨code', s'⟩ hwf' ⟨h, hs', -⟩
  obtain ⟨s'', hleave, hs''⟩ := hs'.leave
  dsimp only
  rw [hleave]
  exact .ok ⟨htest, hwf, hwf'⟩ ⟨f, hs'', rfl⟩

/-- The parts of a well-formed loop, each in the scope that the parts before it leave. -/
theorem wellFormed_loop? {stmt : Stmt} {l : LoopParts} (hstmt : stmt.loop? = some l)
    (outer : List Names) (scope : Names) :
    stmt.introduces = [] ∧ (stmt.WellFormed outer scope ↔
      Stmt.ListWellFormed (scope :: outer) [] l.start ∧
      l.test.WellFormed (Stmt.listIntroduces l.start :: scope :: outer) ∧
      Stmt.ListWellFormed (scope :: outer) (Stmt.listIntroduces l.start) l.body ∧
      Stmt.ListWellFormed (scope :: outer)
        (Stmt.listIntroduces l.body ++ Stmt.listIntroduces l.start) l.advance) := by
  cases stmt with
  | whileLoop test body =>
      cases hstmt
      simp [Stmt.introduces, Stmt.WellFormed, LoopParts.start, LoopParts.advance,
        Stmt.ListWellFormed, Stmt.listIntroduces]
  | forLoop init test step body =>
      cases hstmt
      cases init <;> cases step <;>
        simp [Stmt.introduces, Stmt.WellFormed, headNames, LoopParts.start, LoopParts.advance,
          Stmt.ListWellFormed, Stmt.listIntroduces]
  | _ => contradiction

theorem loop {stmt : Stmt} {l : LoopParts} {layout : Layout ScopeStack}
    (hstmt : stmt.loop? = some l) (hbody : Checks layout l.body) :
    Checks (Layout.loop l.init l.test l.step layout) [stmt] := by
  intro fs f s hs
  obtain ⟨hnone, hwf⟩ := wellFormed_loop? hstmt (fs.map Frame.denoted) f.denoted
  rw [Stmt.listWellFormed_one, hwf]
  refine .bind (optional varDecl l.init hs.enter) And.left ?_
  rintro ⟨initCode, s⟩ hinit ⟨g, hs, hg⟩
  have hg' : g.denoted = Stmt.listIntroduces l.start := hg.trans (List.append_nil _)
  rw [← hg']
  refine .bind (Layout.expr_judges (shows hs) l.test) (fun h => h.2.1) fun testCode htest _ => ?_
  refine .bind (hbody hs) (fun h => h.2.2.1) ?_
  rintro ⟨code, s⟩ hwfBody ⟨h, hs, hh⟩
  rw [← hh]
  refine .bind (optional assign l.step hs) (fun h => h.2.2.2) ?_
  rintro ⟨stepCode, s⟩ hstep ⟨k, hs, -⟩
  obtain ⟨s', hleave, hs'⟩ := hs.leave
  dsimp only
  rw [hleave]
  exact .ok ⟨hinit, htest, hwfBody, hstep⟩ ⟨f, hs', by simp [hnone]⟩

end Checks

mutual
/-- A statement is laid out if it is well-formed, and only then. -/
theorem Layout.stmt_checks : (s : Stmt) → Checks (Layout.stmt s) [s]
  | .varDecl decl => by simpa only [Layout.stmt] using Checks.varDecl decl
  | .arrayDecl name ty size es => by
      simpa only [Layout.stmt] using Checks.arrayDecl name ty size es
  | .assign assignment => by simpa only [Layout.stmt] using Checks.assign assignment
  | .arrayAssign name index value => by
      simpa only [Layout.stmt] using Checks.arrayAssign name index value
  | .print value => by simpa only [Layout.stmt] using Checks.output rfl
  | .delay duration => by simpa only [Layout.stmt] using Checks.operation rfl
  | .write x y color => by simpa only [Layout.stmt] using Checks.operation rfl
  | .writeBox x y width height color => by
      simpa only [Layout.stmt] using Checks.operation rfl
  | .conditional test body none => by
      simpa only [Layout.stmt] using Checks.conditional test (Layout.stmts_checks body)
  | .conditional test body (some otherwise) => by
      simpa only [Layout.stmt] using
        Checks.alternative test (Layout.stmts_checks body) (Layout.stmts_checks otherwise)
  | .whileLoop test body => by
      simpa only [Layout.stmt] using
        Checks.loop (l := ⟨none, test, none, body⟩) rfl (Layout.stmts_checks body)
  | .forLoop init test step body => by
      simpa only [Layout.stmt] using
        Checks.loop (l := ⟨init, test, step, body⟩) rfl (Layout.stmts_checks body)
  | .ret value => by simpa only [Layout.stmt] using Checks.output rfl
  | .block body => by simpa only [Layout.stmt] using Checks.nested (Layout.stmts_checks body)
  | .function name params result body => fun fs f s hs => by
      simp only [Layout.stmt, throw_eq_error]
      exact .error _ (by simp [Stmt.ListWellFormed, Stmt.WellFormed])

/-- Statements are laid out if they are well-formed, and only then. -/
theorem Layout.stmts_checks : (ss : List Stmt) → Checks (Layout.stmts ss) ss
  | [] => fun fs f s hs => by
      simp only [Layout.stmts]
      exact .ok trivial ⟨f, hs, rfl⟩
  | s :: ss => by
      simpa only [Layout.stmts] using .seq (Layout.stmt_checks s) (Layout.stmts_checks ss)
end

end PadCompiler
