import PadCompiler.Proofs.Places
import PadCompiler.Proofs.Translation

/-!
# PadCompiler.Proofs.Shapes

The code of statements, whatever the places of names are, and where the statements begin and
end in it.

* `Shaped` — the rules, over those of `SimpleCode` for statements that hold no others;
* `Laid.shaped`, `Layout.stmts_shapes` — all code of statements has such a shape.

A whole array is put out by its length, so the length has to fit a signed word; `Fits` says so
of what names stand for.  An array length is spelled out as such a word, so no statement ever
declares one that does not fit.
-/

namespace PadCompiler

/-! ## Lengths of arrays -/

/-- The length of an array is a signed word. -/
def Storage.Fits : Storage → Prop
  | .array _ length => (length : Int) < signedLimit
  | _ => True

/-- Everything that a look-up finds fits. -/
def Lookup.Fits (find : Lookup) : Prop :=
  ∀ ⦃name storage depth⦄, find name = .ok (storage, depth) → storage.Fits

/-- Everything in a frame fits. -/
def Frame.Fits (f : Frame) : Prop :=
  ∀ entry ∈ f.names, entry.2.Fits

/-- Everything in the open scopes fits. -/
def ScopeStack.Fits (s : ScopeStack) : Prop :=
  s.Keeps Storage.Fits

/-- A spelled-out length is a signed word. -/
theorem arrayLength_lt {name : String} {size : Expr} {length : Nat}
    (h : Generator.arrayLength name size = .ok length) : (length : Int) < signedLimit := by
  unfold Generator.arrayLength at h
  cases hsize : size.literalInt? with
  | none =>
      rw [hsize] at h
      contradiction
  | some n =>
      simp only [hsize] at h
      split at h
      · have heq : n.toInt.toNat = length := Except.ok.inj h
        have hlt : n.toInt < signedLimit := n.toInt_lt
        omega
      · contradiction

/-! ## Shapes -/

/-- The code of a statement that holds no other statements. -/
inductive SimpleCode : Stmt → List Instruction → Prop
  | varDecl {find init} {decl : VarDecl} (slot : Nat) (hinit : ExprCode find decl.init init) :
    SimpleCode (.varDecl decl) (init ++ [.pushNat slot, .pushNat 0, .plain .st])
  | assign {find value} {a : Assignment} (slot depth : Nat)
    (hvalue : ExprCode find a.value value) :
    SimpleCode (.assign a) (value ++ [.pushNat slot, .pushNat depth, .plain .st])
  | arrayFilled {name size length} (ty : Ty) (base : Nat)
    (hlength : Generator.arrayLength name size = .ok length) :
    SimpleCode (.arrayDecl name ty size [])
      ([.pushNat length, .push ty.zero, .plain .dupa] ++
        [.pushNat length, .pushNat base, .pushNat 0, .plain .sta])
  | arrayListed {find name size es values} (ty : Ty) (base : Nat)
    (hlength : Generator.arrayLength name size = .ok es.length)
    (hvalues : ArgsCode find es values) :
    SimpleCode (.arrayDecl name ty size es)
      (values ++ [.pushNat es.length, .pushNat base, .pushNat 0, .plain .sta])
  | setElement {find value code} (name : String) (index : Expr) (slot depth : Nat)
    (hvalue : ExprCode find value code) :
    SimpleCode (.arrayAssign name index value)
      (code ++ [.pushNat 1, .pushNat slot, .pushNat depth, .plain .sta])
  | setComputed {find index value code slot} (name : String) (base depth : Nat)
    (hvalue : ExprCode find value code) (hindex : ExprCode find index slot) :
    SimpleCode (.arrayAssign name index value)
      (code ++ .pushNat 1 :: slot ++
        [.pushNat base, .plain .add, .pushNat depth, .plain .sta])
  | outputArray {s name op arrayOp} {length : Nat} (base depth : Nat)
    (hs : s.output? = some (.ident name, op, arrayOp))
    (hlength : (length : Int) < signedLimit) :
    SimpleCode s [.pushNat length, .address .pushA base depth, .pushNat length, .plain arrayOp]
  | output {find s e op arrayOp value} (hs : s.output? = some (e, op, arrayOp))
    (hvalue : ExprCode find e value) : SimpleCode s (value ++ [.plain op])
  | operation {find s es op values} (hs : s.operation? = some (es, op))
    (hvalues : InOrderCode find es values) : SimpleCode s (values ++ [.plain op])

/-- The code of statements, and the indices in it where a statement, nested ones included,
begins or ends. -/
inductive Shaped : List Stmt → List Instruction → (bounds : List Nat) → Prop
  | nil : Shaped [] [] [0]
  | cons {s ss first others bounds bounds'} (hfirst : Shaped [s] first bounds)
    (hothers : Shaped ss others bounds') :
    Shaped (s :: ss) (first ++ others) (bounds ++ bounds'.map (first.length + ·))
  | simple {s code} (hcode : SimpleCode s code) : Shaped [s] code [0, code.length]
  | block {body code bounds} (size : Nat) (hbody : Shaped body code bounds) :
    Shaped [.block body] (framed size code)
      ([0, (framed size code).length] ++ bounds.map (2 + ·))
  | conditional {find test testCode body code bounds} (size : Nat)
    (htest : ExprCode find test testCode) (hbody : Shaped body code bounds) :
    Shaped [.conditional test body none] (conditionalCode size testCode code)
      ([0, (conditionalCode size testCode code).length] ++
        bounds.map (testCode.length + 6 + ·))
  | alternative {find test testCode body code bounds otherwise elseCode bounds'} (size : Nat)
    (htest : ExprCode find test testCode) (hbody : Shaped body code bounds)
    (hotherwise : Shaped otherwise elseCode bounds') :
    Shaped [.conditional test body (some otherwise)]
      (alternativeCode size testCode code elseCode)
      ([0, (alternativeCode size testCode code elseCode).length] ++
        bounds.map (testCode.length + 6 + ·) ++
        bounds'.map (testCode.length + 6 + code.length + 2 + ·))
  | loop {find s initCode testCode code stepCode bounds bounds' bounds''} {l : LoopParts}
    (size : Nat) (hs : s.loop? = some l) (hinit : Shaped l.start initCode bounds)
    (htest : ExprCode find l.test testCode) (hbody : Shaped l.body code bounds')
    (hstep : Shaped l.advance stepCode bounds'') :
    Shaped [s] (loopCode size initCode testCode code stepCode)
      ([0, (loopCode size initCode testCode code stepCode).length] ++ bounds.map (2 + ·) ++
        bounds'.map (2 + initCode.length + testCode.length + 4 + ·) ++
        bounds''.map (2 + initCode.length + testCode.length + 4 + code.length + ·))

/-! ## Code over frames -/

theorem findIn_fits {fs : List Frame} (hfs : ∀ f ∈ fs, f.Fits) : (findIn fs).Fits := by
  intro name storage depth hfind
  obtain ⟨k, f, -, hf, hlookup⟩ := findFrom_eq_ok hfind
  obtain ⟨before, after, hnames, -⟩ := List.lookup_eq_some_iff.mp hlookup
  exact hfs f (List.mem_of_getElem? hf) (name, storage) (by simp [hnames])

theorem Frame.Fits.empty : ({} : Frame).Fits := by
  intro entry hentry
  contradiction

theorem Frame.Fits.add {f : Frame} (hf : f.Fits) (name : String) (n : Nat)
    {storage : Nat → Storage} (hstorage : (storage f.used).Fits) :
    (f.add name n storage).Fits := by
  intro entry hentry
  rcases List.mem_cons.mp hentry with rfl | hentry
  · exact hstorage
  · exact hf entry hentry

/-- Code over frames has its shape. -/
theorem Laid.shaped {fs : List Frame} {f g : Frame} {ss : List Stmt} {code : List Instruction}
    (h : Laid fs f ss code g) (hf : f.Fits) (hfs : ∀ f' ∈ fs, f'.Fits) :
    ∃ bounds, Shaped ss code bounds ∧ g.Fits := by
  induction h with
  | nil fs f => exact ⟨_, .nil, hf⟩
  | cons hfirst hothers ihFirst ihOthers =>
      obtain ⟨bounds, hshaped, hg⟩ := ihFirst hf hfs
      obtain ⟨bounds', hshaped', hh⟩ := ihOthers hg hfs
      exact ⟨_, .cons hshaped hshaped', hh⟩
  | varDecl hinit => exact ⟨_, .simple (.varDecl _ hinit), hf.add _ _ trivial⟩
  | assign hvalue hfind => exact ⟨_, .simple (.assign _ _ hvalue), hf⟩
  | arrayFilled fs f hlength =>
      exact ⟨_, .simple (.arrayFilled _ _ hlength), hf.add _ _ (arrayLength_lt hlength)⟩
  | arrayListed hlength hvalues =>
      exact ⟨_, .simple (.arrayListed _ _ hlength hvalues), hf.add _ _ (arrayLength_lt hlength)⟩
  | setElement hvalue hfind hindex hoffset =>
      exact ⟨_, .simple (.setElement _ _ _ _ hvalue), hf⟩
  | setComputed hvalue hfind hlit hindex =>
      exact ⟨_, .simple (.setComputed _ _ _ hvalue hindex), hf⟩
  | outputArray hs hfind =>
      have hfits := findIn_fits (List.forall_mem_cons.mpr ⟨hf, hfs⟩) hfind
      exact ⟨_, .simple (.outputArray _ _ hs hfits), hf⟩
  | output hs hvalue => exact ⟨_, .simple (.output hs hvalue), hf⟩
  | operation hs hvalues => exact ⟨_, .simple (.operation hs hvalues), hf⟩
  | block hbody ih =>
      obtain ⟨bounds, hshaped, -⟩ := ih .empty (List.forall_mem_cons.mpr ⟨hf, hfs⟩)
      exact ⟨_, .block _ hshaped, hf⟩
  | conditional htest hbody ih =>
      obtain ⟨bounds, hshaped, -⟩ := ih .empty (List.forall_mem_cons.mpr ⟨hf, hfs⟩)
      exact ⟨_, .conditional _ htest hshaped, hf⟩
  | alternative htest hbody hotherwise ih ih' =>
      have hall := List.forall_mem_cons.mpr ⟨hf, hfs⟩
      obtain ⟨bounds, hshaped, -⟩ := ih .empty hall
      obtain ⟨bounds', hshaped', -⟩ := ih' .empty hall
      exact ⟨_, .alternative _ htest hshaped hshaped', hf⟩
  | loop hs hinit htest hbody hstep ihInit ihBody ihStep =>
      have hall := List.forall_mem_cons.mpr ⟨hf, hfs⟩
      obtain ⟨bounds, hshaped, hg⟩ := ihInit .empty hall
      obtain ⟨bounds', hshaped', hh⟩ := ihBody hg hall
      obtain ⟨bounds'', hshaped'', -⟩ := ihStep hh hall
      exact ⟨_, .loop _ hs hshaped htest hshaped' hshaped'', hf⟩

/-! ## Code over scopes -/

namespace Layout

variable {find : Lookup}

theorem scalar_eq_ok {name : String} {slot depth : Nat} (h : scalar find name = .ok (slot, depth)) :
    find name = .ok (.scalar slot, depth) := by
  obtain ⟨⟨storage, hops⟩, hfind, h⟩ := bind_eq_ok.mp h
  cases storage with
  | scalar slot' =>
      cases pure_eq_ok.mp h
      exact hfind
  | array base length => contradiction
  | function label arity => contradiction

theorem function_eq_ok {name label : String} {arity : Nat}
    (h : function find name = .ok (label, arity)) :
    ∃ depth, find name = .ok (.function label arity, depth) := by
  obtain ⟨⟨storage, hops⟩, hfind, h⟩ := bind_eq_ok.mp h
  cases storage with
  | scalar slot => contradiction
  | array base length => contradiction
  | function label' arity' =>
      cases pure_eq_ok.mp h
      exact ⟨hops, hfind⟩

mutual
/-- Code that is laid out follows the rules, whatever the look-up fails with. -/
theorem exprCode_of_ok : (e : Expr) → {code : List Instruction} → expr find e = .ok code →
    ExprCode find e code
  | .literal value, code, h => by
      rw [expr, pure_eq_ok] at h
      exact h ▸ .literal value
  | .padWidth, code, h => by
      rw [expr, pure_eq_ok] at h
      exact h ▸ .padWidth
  | .padHeight, code, h => by
      rw [expr, pure_eq_ok] at h
      exact h ▸ .padHeight
  | .ident name, code, h => by
      rw [expr] at h
      obtain ⟨⟨slot, depth⟩, hname, h⟩ := bind_eq_ok.mp h
      rw [pure_eq_ok] at h
      exact h ▸ .ident (scalar_eq_ok hname)
  | .randomInt bound, code, h => by
      rw [expr] at h
      obtain ⟨boundCode, hbound, h⟩ := bind_eq_ok.mp h
      rw [pure_eq_ok] at h
      exact h ▸ .randomInt (exprCode_of_ok bound hbound)
  | .binary op lhs rhs, code, h => by
      rw [expr] at h
      obtain ⟨right, hright, h⟩ := bind_eq_ok.mp h
      obtain ⟨left, hleft, h⟩ := bind_eq_ok.mp h
      cases hop : op.opcode? with
      | none =>
          rw [hop, pure_eq_ok] at h
          exact h ▸ .unsupported lhs rhs hop
      | some opcode =>
          rw [hop, pure_eq_ok] at h
          exact h ▸ .binary hop (exprCode_of_ok rhs hright) (exprCode_of_ok lhs hleft)
  | .call name args, code, h => by
      rw [expr] at h
      obtain ⟨⟨label, arity⟩, hname, h⟩ := bind_eq_ok.mp h
      obtain ⟨depth, hname⟩ := function_eq_ok hname
      dsimp only at h
      by_cases harity : arity = args.length
      · subst harity
        rw [if_neg (not_not_intro rfl)] at h
        obtain ⟨argCode, hargs, h⟩ := bind_eq_ok.mp h
        rw [pure_eq_ok] at h
        exact h ▸ .call hname (argsCode_of_ok args hargs)
      · rw [if_pos harity] at h
        contradiction
  | .index name index, code, h => by
      rw [expr] at h
      obtain ⟨array, hname, h⟩ := bind_eq_ok.mp h
      cases hlit : index.literalInt? with
      | some i =>
          rw [hlit] at h
          obtain ⟨offset, hoffset, h⟩ := bind_eq_ok.mp h
          rw [pure_eq_ok] at h
          exact h ▸ .element (array_eq_ok hname) hlit hoffset
      | none =>
          rw [hlit] at h
          obtain ⟨indexCode, hindex, h⟩ := bind_eq_ok.mp h
          rw [pure_eq_ok] at h
          exact h ▸ .computed (array_eq_ok hname) hlit (exprCode_of_ok index hindex)

theorem argsCode_of_ok : (es : List Expr) → {code : List Instruction} →
    reversed find es = .ok code → ArgsCode find es code
  | [], code, h => by
      rw [reversed, pure_eq_ok] at h
      exact h ▸ .nil
  | e :: es, code, h => by
      rw [reversed] at h
      obtain ⟨others, hothers, h⟩ := bind_eq_ok.mp h
      obtain ⟨first, hfirst, h⟩ := bind_eq_ok.mp h
      rw [pure_eq_ok] at h
      exact h ▸ .cons (argsCode_of_ok es hothers) (exprCode_of_ok e hfirst)
end

theorem inOrderCode_of_ok (es : List Expr) {code : List Instruction}
    (h : inOrder find es = .ok code) : InOrderCode find es code := by
  induction es generalizing code with
  | nil =>
      rw [inOrder, pure_eq_ok] at h
      exact h ▸ .nil
  | cons e es ih =>
      rw [inOrder] at h
      obtain ⟨first, hfirst, h⟩ := bind_eq_ok.mp h
      obtain ⟨others, hothers, h⟩ := bind_eq_ok.mp h
      rw [pure_eq_ok] at h
      exact h ▸ .cons (exprCode_of_ok e hfirst) (ih hothers)

end Layout

/-- Where array lengths fit, a layout makes code of the shape that the rules give for
statements, and they fit afterwards. -/
def Shapes (layout : Layout ScopeStack) (ss : List Stmt) : Prop :=
  ∀ ⦃s code s'⦄, s.Fits → layout s = .ok (code, s') →
    ∃ bounds, Shaped ss code bounds ∧ s'.Fits

namespace Shapes

theorem varDecl (decl : VarDecl) : Shapes (Layout.varDecl decl) [.varDecl decl] := by
  intro s code s' hs h
  obtain ⟨init, hinit, h⟩ := bind_eq_ok.mp h
  obtain ⟨⟨slot, s''⟩, hscalar, h⟩ := bind_eq_ok.mp h
  cases pure_eq_ok.mp h
  have hfits := hs.declare (mapError_eq_ok.mp hscalar) fun _ _ => trivial
  exact ⟨_, .simple (.varDecl slot (Layout.exprCode_of_ok _ hinit)), hfits⟩

theorem assign (a : Assignment) : Shapes (Layout.assign a) [.assign a] := by
  intro s code s' hs h
  obtain ⟨value, hvalue, h⟩ := bind_eq_ok.mp h
  obtain ⟨⟨⟨storage, depth⟩, s''⟩, hassign, h⟩ := bind_eq_ok.mp h
  cases storage with
  | scalar slot =>
      cases pure_eq_ok.mp h
      exact ⟨_, .simple (.assign slot depth (Layout.exprCode_of_ok _ hvalue)), hs.assign hassign⟩
  | array base length => contradiction
  | function label arity => contradiction

theorem arrayDecl (name : String) (ty : Ty) (size : Expr) (es : List Expr) :
    Shapes (Layout.arrayDecl name ty size es) [.arrayDecl name ty size es] := by
  intro s code s' hs h
  obtain ⟨length, hlength, h⟩ := bind_eq_ok.mp h
  obtain ⟨values, hvalues, h⟩ := bind_eq_ok.mp h
  obtain ⟨⟨base, s''⟩, harray, h⟩ := bind_eq_ok.mp h
  cases pure_eq_ok.mp h
  have hfits := hs.declare (mapError_eq_ok.mp harray) fun _ _ => arrayLength_lt hlength
  unfold Layout.elements at hvalues
  cases es with
  | nil =>
      cases pure_eq_ok.mp hvalues
      exact ⟨_, .simple (.arrayFilled ty base hlength), hfits⟩
  | cons e es =>
      by_cases hcount : (e :: es).length = length
      · subst hcount
        rw [if_neg (by simp), if_neg (not_not_intro rfl)] at hvalues
        exact ⟨_, .simple (.arrayListed ty base hlength (Layout.argsCode_of_ok _ hvalues)), hfits⟩
      · rw [if_neg (by simp), if_pos hcount] at hvalues
        contradiction

theorem arrayAssign (name : String) (index value : Expr) :
    Shapes (Layout.arrayAssign name index value) [.arrayAssign name index value] := by
  intro s code s' hs h
  obtain ⟨valueCode, hvalue, h⟩ := bind_eq_ok.mp h
  obtain ⟨array, harray, h⟩ := bind_eq_ok.mp h
  obtain ⟨slot, hslot, h⟩ := bind_eq_ok.mp h
  cases pure_eq_ok.mp h
  have hvalue := Layout.exprCode_of_ok _ hvalue
  unfold Layout.elementSlot at hslot
  split at hslot
  · obtain ⟨offset, hoffset, hslot⟩ := bind_eq_ok.mp hslot
    cases pure_eq_ok.mp hslot
    refine ⟨_, .simple ?_, hs⟩
    simpa using SimpleCode.setElement name index (array.base + offset) array.depth hvalue
  · obtain ⟨indexCode, hindex, hslot⟩ := bind_eq_ok.mp hslot
    cases pure_eq_ok.mp hslot
    refine ⟨_, .simple ?_, hs⟩
    simpa using SimpleCode.setComputed name array.base array.depth hvalue
      (Layout.exprCode_of_ok _ hindex)

theorem output {stmt : Stmt} {e : Expr} {op arrayOp : Opcode}
    (hstmt : stmt.output? = some (e, op, arrayOp)) :
    Shapes (Layout.output e op arrayOp) [stmt] := by
  intro s code s' hs h
  unfold Layout.output at h
  cases harray : Layout.arrayIdent (Scoping.find s) e with
  | none =>
      simp only [harray] at h
      obtain ⟨value, hvalue, h⟩ := bind_eq_ok.mp h
      cases pure_eq_ok.mp h
      exact ⟨_, .simple (.output hstmt (Layout.exprCode_of_ok _ hvalue)), hs⟩
  | some array =>
      simp only [harray] at h
      cases pure_eq_ok.mp h
      cases e with
      | ident name =>
          rw [Layout.arrayIdent] at harray
          cases hname : Layout.array (Scoping.find s) name with
          | error err =>
              rw [hname] at harray
              contradiction
          | ok a =>
              rw [hname] at harray
              cases harray
              exact ⟨_, .simple (.outputArray _ _ hstmt (hs.find (Layout.array_eq_ok hname))), hs⟩
      | _ => contradiction

theorem operation {stmt : Stmt} {es : List Expr} {op : Opcode}
    (hstmt : stmt.operation? = some (es, op)) : Shapes (Layout.operation es op) [stmt] := by
  intro s code s' hs h
  obtain ⟨values, hvalues, h⟩ := bind_eq_ok.mp h
  cases pure_eq_ok.mp h
  exact ⟨_, .simple (.operation hstmt (Layout.inOrderCode_of_ok _ hvalues)), hs⟩

theorem seq {first others : Layout ScopeStack} {stmt : Stmt} {ss : List Stmt}
    (hfirst : Shapes first [stmt]) (hothers : Shapes others ss) :
    Shapes (Layout.seq first others) (stmt :: ss) := by
  intro s code s' hs h
  obtain ⟨⟨firstCode, s₁⟩, hrun, h⟩ := bind_eq_ok.mp h
  obtain ⟨⟨othersCode, s₂⟩, hrun', h⟩ := bind_eq_ok.mp h
  cases pure_eq_ok.mp h
  obtain ⟨bounds, hshaped, hs₁⟩ := hfirst hs hrun
  obtain ⟨bounds', hshaped', hs₂⟩ := hothers hs₁ hrun'
  exact ⟨_, .cons hshaped hshaped', hs₂⟩

theorem optional {part : α → Layout ScopeStack} {stmt : α → Stmt}
    (hpart : ∀ a, Shapes (part a) [stmt a]) (o : Option α) :
    Shapes (Layout.optional part o) (o.toList.map stmt) := by
  cases o with
  | some a => exact hpart a
  | none =>
      intro s code s' hs h
      cases pure_eq_ok.mp h
      exact ⟨_, .nil, hs⟩

theorem nested {layout : Layout ScopeStack} {body : List Stmt} (hbody : Shapes layout body) :
    Shapes (Layout.nested layout) [.block body] := by
  intro s code s' hs h
  obtain ⟨⟨bodyCode, s₁⟩, hrun, h⟩ := bind_eq_ok.mp h
  obtain ⟨⟨size, s₂⟩, hleave, h⟩ := bind_eq_ok.mp h
  cases pure_eq_ok.mp h
  obtain ⟨bounds, hshaped, hs₁⟩ := hbody hs.enter hrun
  exact ⟨_, .block size hshaped, hs₁.leave hleave⟩

theorem conditional (test : Expr) {layout : Layout ScopeStack} {body : List Stmt}
    (hbody : Shapes layout body) :
    Shapes (Layout.conditional test layout) [.conditional test body none] := by
  intro s code s' hs h
  obtain ⟨testCode, htest, h⟩ := bind_eq_ok.mp h
  obtain ⟨⟨bodyCode, s₁⟩, hrun, h⟩ := bind_eq_ok.mp h
  obtain ⟨⟨size, s₂⟩, hleave, h⟩ := bind_eq_ok.mp h
  cases pure_eq_ok.mp h
  obtain ⟨bounds, hshaped, hs₁⟩ := hbody hs.enter hrun
  exact ⟨_, .conditional size (Layout.exprCode_of_ok _ htest) hshaped, hs₁.leave hleave⟩

theorem alternative (test : Expr) {layout layout' : Layout ScopeStack}
    {body otherwise : List Stmt} (hbody : Shapes layout body)
    (hotherwise : Shapes layout' otherwise) :
    Shapes (Layout.alternative test layout layout')
      [.conditional test body (some otherwise)] := by
  intro s code s' hs h
  obtain ⟨testCode, htest, h⟩ := bind_eq_ok.mp h
  obtain ⟨⟨bodyCode, s₁⟩, hrun, h⟩ := bind_eq_ok.mp h
  obtain ⟨⟨elseCode, s₂⟩, hrun', h⟩ := bind_eq_ok.mp h
  obtain ⟨⟨size, s₃⟩, hleave, h⟩ := bind_eq_ok.mp h
  cases pure_eq_ok.mp h
  obtain ⟨bounds, hshaped, hs₁⟩ := hbody hs.enter hrun
  obtain ⟨bounds', hshaped', hs₂⟩ := hotherwise (hs₁.fresh rfl) hrun'
  exact ⟨_, .alternative _ (Layout.exprCode_of_ok _ htest) hshaped hshaped', hs₂.leave hleave⟩

theorem loop {stmt : Stmt} {l : LoopParts} {layout : Layout ScopeStack}
    (hstmt : stmt.loop? = some l) (hbody : Shapes layout l.body) :
    Shapes (Layout.loop l.init l.test l.step layout) [stmt] := by
  intro s code s' hs h
  obtain ⟨⟨initCode, s₁⟩, hrun, h⟩ := bind_eq_ok.mp h
  obtain ⟨testCode, htest, h⟩ := bind_eq_ok.mp h
  obtain ⟨⟨bodyCode, s₂⟩, hrun', h⟩ := bind_eq_ok.mp h
  obtain ⟨⟨stepCode, s₃⟩, hrun'', h⟩ := bind_eq_ok.mp h
  obtain ⟨⟨size, s₄⟩, hleave, h⟩ := bind_eq_ok.mp h
  cases pure_eq_ok.mp h
  obtain ⟨bounds, hinit, hs₁⟩ := optional varDecl l.init hs.enter hrun
  obtain ⟨bounds', hshaped, hs₂⟩ := hbody hs₁ hrun'
  obtain ⟨bounds'', hstep, hs₃⟩ := optional assign l.step hs₂ hrun''
  exact ⟨_, .loop size hstmt hinit (Layout.exprCode_of_ok _ htest) hshaped hstep,
    hs₃.leave hleave⟩

end Shapes

mutual
/-- The code of a statement has its shape. -/
theorem Layout.stmt_shapes : (s : Stmt) → Shapes (Layout.stmt s) [s]
  | .varDecl decl => by simpa only [Layout.stmt] using Shapes.varDecl decl
  | .arrayDecl name ty size es => by
      simpa only [Layout.stmt] using Shapes.arrayDecl name ty size es
  | .assign assignment => by simpa only [Layout.stmt] using Shapes.assign assignment
  | .arrayAssign name index value => by
      simpa only [Layout.stmt] using Shapes.arrayAssign name index value
  | .print value => by simpa only [Layout.stmt] using Shapes.output rfl
  | .delay duration => by simpa only [Layout.stmt] using Shapes.operation rfl
  | .write x y color => by simpa only [Layout.stmt] using Shapes.operation rfl
  | .writeBox x y width height color => by
      simpa only [Layout.stmt] using Shapes.operation rfl
  | .conditional test body none => by
      simpa only [Layout.stmt] using Shapes.conditional test (Layout.stmts_shapes body)
  | .conditional test body (some otherwise) => by
      simpa only [Layout.stmt] using
        Shapes.alternative test (Layout.stmts_shapes body) (Layout.stmts_shapes otherwise)
  | .whileLoop test body => by
      simpa only [Layout.stmt] using
        Shapes.loop (l := ⟨none, test, none, body⟩) rfl (Layout.stmts_shapes body)
  | .forLoop init test step body => by
      simpa only [Layout.stmt] using
        Shapes.loop (l := ⟨init, test, step, body⟩) rfl (Layout.stmts_shapes body)
  | .ret value => by simpa only [Layout.stmt] using Shapes.output rfl
  | .block body => by simpa only [Layout.stmt] using Shapes.nested (Layout.stmts_shapes body)
  | .function name params result body => fun s code s' hs h => by
      simp only [Layout.stmt] at h
      contradiction

/-- The code of statements has its shape. -/
theorem Layout.stmts_shapes : (ss : List Stmt) → Shapes (Layout.stmts ss) ss
  | [] => fun s code s' hs h => by
      simp only [Layout.stmts] at h
      cases pure_eq_ok.mp h
      exact ⟨_, .nil, hs⟩
  | s :: ss => by
      simpa only [Layout.stmts] using .seq (Layout.stmt_shapes s) (Layout.stmts_shapes ss)
end

end PadCompiler
