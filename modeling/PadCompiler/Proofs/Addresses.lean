import PadCompiler.Demo
import PadCompiler.Proofs.Blocks

/-!
# PadCompiler.Proofs.Addresses

Every address in the code of a program names slots of a frame that is open there.

The frames that are open at an instruction are found by going through the code before it:
`openFrames`.  An address in an instruction, and slot numbers that are pushed for a store,
are in range when the frame that many hops out is open and large enough: `InRange`.

`Keeps` speaks of a piece of code where frames of given sizes are open: all its instructions
are in range and the same frames are open after it.

* `ExprCode.keeps`, `Laid.keeps` — what holds of expressions and statements, by induction on
  the rules;
* `FunctionCode.inRange`, `MainCode.inRange` — what follows for the blocks of a program.
-/

namespace PadCompiler

/-! ## Open frames -/

/-- The integer that an instruction pushes, if it pushes one. -/
def Instruction.pushed? (i : Instruction) : Option Int64 :=
  match i.op, i.operand with
  | .push, some (.value (.int n)) => some n
  | _, _ => none

/-- The size that was pushed last. -/
def pushedSize (past : List Instruction) : Nat :=
  (past.head?.bind Instruction.pushed?).elim 0 (·.toInt.toNat)

/-- The sizes of the frames that are open, from the inside out, after the code that is given
backwards.  An `alloc` gives the frame that a call opened its size. -/
def openFrames : (past : List Instruction) → List Nat
  | [] => []
  | i :: past =>
    if i.op = .oframe ∨ i.op = .alloc then pushedSize past :: openFrames past
    else if i.op = .cframe then (openFrames past).tail
    else openFrames past

theorem openFrames_length_le (past : List Instruction) :
    (openFrames past).length ≤ past.length := by
  induction past with
  | nil => exact Nat.le_refl 0
  | cons i past ih =>
      rw [openFrames, List.length_cons]
      split
      · simpa using ih
      · split
        · rw [List.length_tail]
          omega
        · omega

theorem pushedSize_lt (past : List Instruction) : (pushedSize past : Int) < signedLimit := by
  rw [pushedSize]
  cases past.head?.bind Instruction.pushed? with
  | none => decide
  | some n =>
      have hlt := Int64.toInt_lt n
      simp only [Option.elim, signedLimit]
      omega

/-- Sizes are read from signed words. -/
theorem openFrames_lt {past : List Instruction} {size : Nat} (h : size ∈ openFrames past) :
    (size : Int) < signedLimit := by
  induction past with
  | nil => contradiction
  | cons i past ih =>
      rw [openFrames] at h
      split at h
      · rcases List.mem_cons.mp h with rfl | h
        · exact pushedSize_lt past
        · exact ih h
      · split at h
        · exact ih (List.mem_of_mem_tail h)
        · exact ih h

/-! ## Addresses in range -/

/-- The frame `depth` hops out is open and holds `count` slots, one at least, from `slot` on. -/
def Holds (sizes : List Nat) (slot depth count : Int) : Prop :=
  ∃ hops size : Nat, depth = hops ∧ sizes[hops]? = some size ∧ 0 ≤ slot ∧ 1 ≤ count ∧
    slot + count ≤ size

/-- All the slots that an instruction names are there, after the code that is given backwards.

* an address names a slot;
* `pusha` follows the number of slots that it pushes;
* `st` follows the slot and the depth of what it stores to;
* `sta` follows the number of slots, the first slot and the depth; or the first slot is
  computed, by adding to the first slot of an array. -/
structure InRange (past : List Instruction) (i : Instruction) : Prop where
  address : ∀ slot depth, i.operand = some (.address slot depth) →
    Holds (openFrames past) slot.toNat depth.toNat 1
  pushA : i.op = .pushA → ∃ slot depth count rest, i.operand = some (.address slot depth) ∧
    past = .push (.int count) :: rest ∧
    Holds (openFrames past) slot.toNat depth.toNat count.toInt
  st : i.op = .st → ∃ slot depth rest,
    past = .push (.int depth) :: .push (.int slot) :: rest ∧
    Holds (openFrames past) slot.toInt depth.toInt 1
  sta : i.op = .sta →
    (∃ count slot depth rest,
      past = .push (.int depth) :: .push (.int slot) :: .push (.int count) :: rest ∧
      Holds (openFrames past) slot.toInt depth.toInt count.toInt) ∨
    ∃ base depth rest, past = .push (.int depth) :: .plain .add :: .push (.int base) :: rest ∧
      Holds (openFrames past) base.toInt depth.toInt 1

/-- All instructions of the code are in range, after the code that is given backwards. -/
def AllInRange : (past code : List Instruction) → Prop
  | _, [] => True
  | past, i :: code => InRange past i ∧ AllInRange (i :: past) code

theorem AllInRange.append {past code others : List Instruction} (hcode : AllInRange past code)
    (hothers : AllInRange (code.reverse ++ past) others) : AllInRange past (code ++ others) := by
  induction code generalizing past with
  | nil => exact hothers
  | cons i code ih =>
      refine ⟨hcode.1, ih hcode.2 ?_⟩
      simpa using hothers

/-- What holds of all instructions holds at every index. -/
theorem AllInRange.at {past before after code : List Instruction} {i : Instruction}
    (h : AllInRange past code) (hcode : code = before ++ i :: after) :
    InRange (before.reverse ++ past) i := by
  subst hcode
  induction before generalizing past with
  | nil => exact h.1
  | cons j before ih => simpa using ih h.2

/-- Numbers that are in range are words. -/
theorem Holds.lt {past : List Instruction} {slot depth : Nat} {count : Int}
    (h : Holds (openFrames past) slot depth count) (hlen : (past.length : Int) < signedLimit) :
    (slot : Int) < signedLimit ∧ (depth : Int) < signedLimit ∧ count < signedLimit := by
  obtain ⟨hops, size, hdepth, hsize, -, hcount, hfit⟩ := h
  have hlt := openFrames_lt (List.mem_of_getElem? hsize)
  have hopen := openFrames_length_le past
  obtain ⟨hhops, -⟩ := List.getElem?_eq_some_iff.mp hsize
  omega

/-- Words name the same slots as the numbers they are made of. -/
theorem Holds.signed {past : List Instruction} {slot depth : Nat} {count : Int}
    (h : Holds (openFrames past) slot depth count) (hlen : (past.length : Int) < signedLimit) :
    Holds (openFrames past) (Int64.ofNat slot).toInt (Int64.ofNat depth).toInt count := by
  obtain ⟨hslot, hdepth, -⟩ := h.lt hlen
  rw [toInt_ofNat_of_lt hslot, toInt_ofNat_of_lt hdepth]
  exact h

theorem Holds.unsigned {past : List Instruction} {slot depth : Nat} {count : Int}
    (h : Holds (openFrames past) slot depth count) (hlen : (past.length : Int) < signedLimit) :
    Holds (openFrames past) (UInt64.ofNat slot).toNat (UInt64.ofNat depth).toNat count := by
  obtain ⟨hslot, hdepth, -⟩ := h.lt hlen
  rw [toNat_ofNat_of_lt hslot, toNat_ofNat_of_lt hdepth]
  exact h

/-- One slot of several. -/
theorem Holds.one {sizes : List Nat} {slot depth count : Int} (h : Holds sizes slot depth count) :
    Holds sizes slot depth 1 := by
  obtain ⟨hops, size, hdepth, hsize, hslot, hcount, hfit⟩ := h
  exact ⟨hops, size, hdepth, hsize, hslot, Int.le_refl 1, by omega⟩

/-! ## Pieces of code -/

/-- Where frames of these sizes are open, all instructions of the code are in range, and the
same frames are open after it. -/
def Keeps (sizes : List Nat) (code : List Instruction) : Prop :=
  ∀ past, openFrames past = sizes → ((past.length + code.length : Nat) : Int) < signedLimit →
    AllInRange past code ∧ openFrames (code.reverse ++ past) = sizes

/-- Instructions that name no slot and neither open nor close a frame. -/
def Instruction.isInert (i : Instruction) : Bool :=
  (match i.operand with
    | some (.address ..) => false
    | _ => true) &&
  !(i.op == .pushA || i.op == .st || i.op == .sta || i.op == .oframe || i.op == .alloc ||
    i.op == .cframe)

theorem Instruction.isInert_iff {i : Instruction} :
    i.isInert = true ↔ (∀ slot depth, i.operand ≠ some (.address slot depth)) ∧
      i.op ≠ .pushA ∧ i.op ≠ .st ∧ i.op ≠ .sta ∧ i.op ≠ .oframe ∧ i.op ≠ .alloc ∧
      i.op ≠ .cframe := by
  obtain ⟨op, operand⟩ := i
  cases operand with
  | none => simp [isInert, and_assoc]
  | some operand => cases operand <;> simp [isInert, and_assoc]

/-- An inert instruction leaves the frames as they are. -/
theorem openFrames_inert {i : Instruction} (hi : i.isInert = true) (past : List Instruction) :
    openFrames (i :: past) = openFrames past := by
  obtain ⟨-, -, -, -, hopen, halloc, hclose⟩ := Instruction.isInert_iff.mp hi
  rw [openFrames, if_neg (by simp [hopen, halloc]), if_neg hclose]

theorem InRange.inert {i : Instruction} (hi : i.isInert = true) (past : List Instruction) :
    InRange past i := by
  obtain ⟨haddress, hpushA, hst, hsta, -⟩ := Instruction.isInert_iff.mp hi
  exact ⟨fun slot depth h => absurd h (haddress slot depth), fun h => absurd h hpushA,
    fun h => absurd h hst, fun h => absurd h hsta⟩

namespace Keeps

variable {sizes : List Nat} {code others : List Instruction}

theorem nil : Keeps sizes [] :=
  fun _ hpast _ => ⟨trivial, hpast⟩

theorem append (hcode : Keeps sizes code) (hothers : Keeps sizes others) :
    Keeps sizes (code ++ others) := by
  intro past hpast hlen
  rw [List.length_append] at hlen
  obtain ⟨hin, hopen⟩ := hcode past hpast (by omega)
  have hlen' : (((code.reverse ++ past).length + others.length : Nat) : Int) < signedLimit := by
    rw [List.length_append, List.length_reverse]
    omega
  obtain ⟨hin', hopen'⟩ := hothers (code.reverse ++ past) hopen hlen'
  refine ⟨hin.append hin', ?_⟩
  rw [List.reverse_append, List.append_assoc]
  exact hopen'

/-- Code of inert instructions only. -/
theorem inert (h : code.all Instruction.isInert = true) : Keeps sizes code := by
  induction code with
  | nil => exact nil
  | cons i code ih =>
      rw [List.all_cons, Bool.and_eq_true] at h
      have hfirst : Keeps sizes [i] := fun past hpast _ =>
        ⟨⟨.inert h.1 past, trivial⟩, (openFrames_inert h.1 past).trans hpast⟩
      exact hfirst.append (ih h.2)

end Keeps

section

variable {sizes : List Nat} {slot depth count : Nat}

/-- An address of one slot. -/
theorem keeps_address {op : Opcode} (hop : op = .push ∨ op = .pushOffset)
    (h : Holds sizes slot depth 1) : Keeps sizes [.address op slot depth] := by
  intro past hpast hlen
  subst hpast
  rw [List.length_singleton] at hlen
  have hrange : InRange past (.address op slot depth) := by
    constructor
    · intro slot' depth' haddress
      cases haddress
      exact h.unsigned (by omega)
    · rcases hop with rfl | rfl <;> intro h <;> cases h
    · rcases hop with rfl | rfl <;> intro h <;> cases h
    · rcases hop with rfl | rfl <;> intro h <;> cases h
  refine ⟨⟨hrange, trivial⟩, ?_⟩
  rcases hop with rfl | rfl <;> rfl

/-- A run of slots, after their number. -/
theorem keeps_pushA (h : Holds sizes slot depth count) :
    Keeps sizes [.pushNat count, .address .pushA slot depth] := by
  intro past hpast hlen
  subst hpast
  have hlen' : (past.length : Int) < signedLimit := by omega
  have hword : (Int64.ofNat count).toInt = count := toInt_ofNat_of_lt (h.lt hlen').2.2
  have hrange : InRange (.pushNat count :: past) (.address .pushA slot depth) := by
    refine ⟨?_, fun _ => ⟨_, _, Int64.ofNat count, past, rfl, rfl, ?_⟩, nofun, nofun⟩
    · intro slot' depth' haddress
      cases haddress
      exact h.one.unsigned hlen'
    · rw [hword]
      exact h.unsigned hlen'
  exact ⟨⟨.inert rfl past, hrange, trivial⟩, rfl⟩

/-- A store, after the slot and the depth. -/
theorem keeps_st (h : Holds sizes slot depth 1) :
    Keeps sizes [.pushNat slot, .pushNat depth, .plain .st] := by
  intro past hpast hlen
  subst hpast
  have hlen' : (past.length : Int) < signedLimit := by omega
  have hrange : InRange (.pushNat depth :: .pushNat slot :: past) (.plain .st) :=
    ⟨nofun, nofun, fun _ => ⟨_, _, past, rfl, h.signed hlen'⟩, nofun⟩
  exact ⟨⟨.inert rfl _, .inert rfl _, hrange, trivial⟩, rfl⟩

/-- A store of a run, after the number of slots, the first slot and the depth. -/
theorem keeps_sta (h : Holds sizes slot depth count) :
    Keeps sizes [.pushNat count, .pushNat slot, .pushNat depth, .plain .sta] := by
  intro past hpast hlen
  subst hpast
  have hlen' : (past.length : Int) < signedLimit := by omega
  have hword : (Int64.ofNat count).toInt = count := toInt_ofNat_of_lt (h.lt hlen').2.2
  have hrange : InRange (.pushNat depth :: .pushNat slot :: .pushNat count :: past)
      (.plain .sta) := by
    refine ⟨nofun, nofun, nofun, fun _ => .inl ⟨Int64.ofNat count, _, _, past, rfl, ?_⟩⟩
    rw [hword]
    exact h.signed hlen'
  exact ⟨⟨.inert rfl _, .inert rfl _, .inert rfl _, hrange, trivial⟩, rfl⟩

/-- A store to a computed slot of an array. -/
theorem keeps_sta_computed (h : Holds sizes slot depth 1) :
    Keeps sizes [.pushNat slot, .plain .add, .pushNat depth, .plain .sta] := by
  intro past hpast hlen
  subst hpast
  have hlen' : (past.length : Int) < signedLimit := by omega
  have hrange : InRange (.pushNat depth :: .plain .add :: .pushNat slot :: past) (.plain .sta) :=
    ⟨nofun, nofun, nofun, fun _ => .inr ⟨_, _, past, rfl, h.signed hlen'⟩⟩
  exact ⟨⟨.inert rfl _, .inert rfl _, .inert rfl _, hrange, trivial⟩, rfl⟩

/-- The frame whose size was just pushed. -/
theorem openFrames_opened {past : List Instruction} {size : Nat} {op : Opcode}
    (hop : op = .oframe ∨ op = .alloc) (hsize : (size : Int) < signedLimit) :
    openFrames (.plain op :: .pushNat size :: past) = size :: openFrames past := by
  have hword : pushedSize (.pushNat size :: past) = size := by
    change (Int64.ofNat size).toInt.toNat = size
    rw [toInt_ofNat_of_lt hsize, Int.toNat_natCast]
  have hopened : openFrames (.plain op :: .pushNat size :: past) =
      pushedSize (.pushNat size :: past) :: openFrames (.pushNat size :: past) := if_pos hop
  rw [hopened, hword, openFrames_inert rfl]

/-- Opening a frame names no slot. -/
theorem inRange_plain {past : List Instruction} {op : Opcode}
    (hop : op ≠ .pushA ∧ op ≠ .st ∧ op ≠ .sta) : InRange past (.plain op) :=
  ⟨nofun, fun h => absurd h hop.1, fun h => absurd h hop.2.1, fun h => absurd h hop.2.2⟩

/-- Inside a frame of its own, code has one more frame open. -/
theorem keeps_framed {code : List Instruction} {size : Nat} (hsize : (size : Int) < signedLimit)
    (h : Keeps (size :: sizes) code) : Keeps sizes (framed size code) := by
  intro past hpast hlen
  subst hpast
  let opened : List Instruction := .plain .oframe :: .pushNat size :: past
  have hopened : openFrames opened = size :: openFrames past := openFrames_opened (.inl rfl) hsize
  have hlen' : ((opened.length + code.length : Nat) : Int) < signedLimit := by
    simp only [framed, opened, List.length_cons, List.length_append, List.length_nil] at hlen ⊢
    omega
  obtain ⟨hin, hopen⟩ := h opened hopened hlen'
  have hclosed : openFrames (.plain .cframe :: (code.reverse ++ opened)) = openFrames past := by
    have htail : openFrames (.plain .cframe :: (code.reverse ++ opened)) =
        (openFrames (code.reverse ++ opened)).tail := rfl
    rw [htail, hopen, List.tail_cons]
  have hend : AllInRange opened (code ++ [.plain .cframe]) :=
    hin.append ⟨inRange_plain (by decide), trivial⟩
  refine ⟨⟨.inert rfl past, inRange_plain (by decide), hend⟩, ?_⟩
  simpa [framed, opened] using hclosed

end

/-! ## Frames and sizes -/

/-- A thing in the frame `depth` hops out lies in that frame. -/
def Storage.Within (sizes : List Nat) (depth : Nat) : Storage → Prop
  | .scalar slot => Holds sizes slot depth 1
  | .array base length => Holds sizes base depth length
  | .function .. => True

/-- All that has a name lies in its frame. -/
def Covers (sizes : List Nat) (fs : List Frame) : Prop :=
  ∀ (k : Nat) (f : Frame), fs[k]? = some f →
    ∀ name storage, (name, storage) ∈ f.names → storage.Within sizes k

theorem Storage.Within.enter {sizes : List Nat} {k : Nat} {storage : Storage} (size : Nat)
    (h : storage.Within sizes k) : storage.Within (size :: sizes) (k + 1) := by
  cases storage with
  | scalar slot =>
      obtain ⟨hops, n, hdepth, hn, hrest⟩ := h
      exact ⟨hops + 1, n, by omega, hn, hrest⟩
  | array base length =>
      obtain ⟨hops, n, hdepth, hn, hrest⟩ := h
      exact ⟨hops + 1, n, by omega, hn, hrest⟩
  | function label arity => trivial

/-- Opening a frame that is large enough. -/
theorem Covers.enter {sizes : List Nat} {f : Frame} {fs : List Frame} {size : Nat}
    (h : Covers sizes fs) (hf : Stacked f.names f.used) (hsize : f.used ≤ size) :
    Covers (size :: sizes) (f :: fs) := by
  intro k g hg name storage hmem
  cases k with
  | zero =>
      cases hg
      have hstop := hf.stop_le hmem
      cases storage with
      | scalar slot =>
          simp only [Storage.stop] at hstop
          exact ⟨0, size, rfl, rfl, by omega, by omega, by omega⟩
      | array base length =>
          have hpos := hf.length_pos hmem
          simp only [Storage.stop] at hstop
          exact ⟨0, size, rfl, rfl, by omega, by omega, by omega⟩
      | function label arity => trivial
  | succ k => exact (h k g hg name storage hmem).enter size

/-- A frame with fewer names. -/
theorem Covers.forget {sizes : List Nat} {f g : Frame} {fs : List Frame}
    (h : Covers sizes (g :: fs)) (hnames : ∃ new, g.names = new ++ f.names) :
    Covers sizes (f :: fs) := by
  obtain ⟨new, hnew⟩ := hnames
  intro k f' hf' name storage hmem
  cases k with
  | zero =>
      cases hf'
      exact h 0 g rfl name storage (by rw [hnew]; exact List.mem_append_right new hmem)
  | succ k => exact h (k + 1) f' hf' name storage hmem

/-- What a name stands for lies in its frame. -/
theorem Covers.find {sizes : List Nat} {fs : List Frame} (h : Covers sizes fs) {name : String}
    {storage : Storage} {depth : Nat} (hfind : findIn fs name = .ok (storage, depth)) :
    storage.Within sizes depth := by
  obtain ⟨k, f, hdepth, hf, hlookup⟩ := findFrom_eq_ok hfind
  obtain ⟨before, after, hnames, -⟩ := List.lookup_eq_some_iff.mp hlookup
  have hmem : (name, storage) ∈ f.names := by simp [hnames]
  have hk : depth = k := by simpa using hdepth
  rw [hk]
  exact h k f hf name storage hmem

/-! ## Expressions -/

/-- Operators are inert. -/
theorem BinaryOp.isInert_opcode {op : BinaryOp} {opcode : Opcode}
    (h : op.opcode? = some opcode) : [Instruction.plain opcode].all Instruction.isInert = true := by
  cases op <;> cases h <;> rfl

mutual
theorem ExprCode.keeps {sizes : List Nat} {fs : List Frame} (hcovers : Covers sizes fs)
    {e : Expr} {code : List Instruction} : ExprCode (findIn fs) e code → Keeps sizes code
  | .literal value => .inert rfl
  | .padWidth => .inert rfl
  | .padHeight => .inert rfl
  | .ident hfind => keeps_address (.inl rfl) (hcovers.find hfind)
  | .randomInt hbound => (hbound.keeps hcovers).append (.inert rfl)
  | .binary hop hright hleft =>
      ((hright.keeps hcovers).append (hleft.keeps hcovers)).append
        (.inert (BinaryOp.isInert_opcode hop))
  | .unsupported lhs rhs hop => .nil
  | .call hfind hargs => (hargs.keeps hcovers).append (.inert rfl)
  | .element hfind hindex hoffset => by
      obtain ⟨hops, size, hdepth, hsize, hbase, hlength, hfit⟩ := hcovers.find hfind
      obtain ⟨-, hlt⟩ := checkBounds_eq_ok hoffset
      exact keeps_pushA ⟨hops, size, hdepth, hsize, by omega, Int.le_refl 1, by omega⟩
  | .computed hfind hlit hindex =>
      (hindex.keeps hcovers).append (keeps_address (.inr rfl) (Holds.one (hcovers.find hfind)))

theorem ArgsCode.keeps {sizes : List Nat} {fs : List Frame} (hcovers : Covers sizes fs)
    {es : List Expr} {code : List Instruction} : ArgsCode (findIn fs) es code → Keeps sizes code
  | .nil => .nil
  | .cons hothers hfirst => (hothers.keeps hcovers).append (hfirst.keeps hcovers)
end

theorem InOrderCode.keeps {sizes : List Nat} {fs : List Frame} (hcovers : Covers sizes fs)
    {es : List Expr} {code : List Instruction} (h : InOrderCode (findIn fs) es code) :
    Keeps sizes code := by
  induction h with
  | nil => exact .nil
  | cons hfirst hothers ih => exact (hfirst.keeps hcovers).append ih

/-! ## Statements -/

section

variable {sizes : List Nat} {size : Nat} {test body otherwise init step : List Instruction}

theorem keeps_conditionalCode (hsize : (size : Int) < signedLimit)
    (htest : Keeps (size :: sizes) test) (hbody : Keeps (size :: sizes) body) :
    Keeps sizes (conditionalCode size test body) := by
  have hskip : Keeps sizes [jumpBy ((negated test ++ .plain .cjmp :: body).length + 3)] :=
    .inert rfl
  have hcjmp : Keeps (size :: sizes) [.plain .cjmp] := .inert rfl
  have hguard : Keeps (size :: sizes) (negated test) := htest.append (.inert rfl)
  exact hskip.append (keeps_framed hsize (hguard.append (hcjmp.append hbody)))

theorem keeps_alternativeCode (hsize : (size : Int) < signedLimit)
    (htest : Keeps (size :: sizes) test) (hbody : Keeps (size :: sizes) body)
    (hotherwise : Keeps (size :: sizes) otherwise) :
    Keeps sizes (alternativeCode size test body otherwise) := by
  have hskip : Keeps sizes [jumpBy ((negated test ++ .plain .cjmp :: body).length + 5)] :=
    .inert rfl
  have hcjmp : Keeps (size :: sizes) [.plain .cjmp] := .inert rfl
  have hguard : Keeps (size :: sizes) (negated test) := htest.append (.inert rfl)
  have hjmp : Keeps (size :: sizes) [jumpBy (otherwise.length + 2), .plain .jmp] := .inert rfl
  exact hskip.append (keeps_framed hsize
    ((hguard.append (hcjmp.append hbody)).append (hjmp.append hotherwise)))

theorem keeps_loopCode (hsize : (size : Int) < signedLimit) (hinit : Keeps (size :: sizes) init)
    (htest : Keeps (size :: sizes) test) (hbody : Keeps (size :: sizes) body)
    (hstep : Keeps (size :: sizes) step) : Keeps sizes (loopCode size init test body step) := by
  have hguard : Keeps (size :: sizes) (negated test) := htest.append (.inert rfl)
  have hstop : Keeps (size :: sizes) [jumpBy ((body ++ step).length + 4), .plain .cjmp] :=
    .inert rfl
  have hagain : Keeps (size :: sizes)
      [jumpBy (-((negated test).length + (body ++ step).length + 2)), .plain .jmp] := .inert rfl
  have hinside := (hinit.append hguard).append
    ((hstop.append (hbody.append hstep)).append hagain)
  simpa [loopCode] using keeps_framed hsize hinside

end

/-- What puts a value out is inert. -/
theorem Stmt.output?_inert {s : Stmt} {e : Expr} {op arrayOp : Opcode}
    (hs : s.output? = some (e, op, arrayOp)) :
    [Instruction.plain op].all Instruction.isInert = true ∧
      [Instruction.plain arrayOp].all Instruction.isInert = true := by
  cases s with
  | print value =>
      cases hs
      exact ⟨rfl, rfl⟩
  | ret value =>
      cases hs
      exact ⟨rfl, rfl⟩
  | _ => contradiction

theorem Stmt.operation?_inert {s : Stmt} {es : List Expr} {op : Opcode}
    (hs : s.operation? = some (es, op)) :
    [Instruction.plain op].all Instruction.isInert = true := by
  cases s with
  | delay duration =>
      cases hs
      rfl
  | write x y color =>
      cases hs
      rfl
  | writeBox x y width height color =>
      cases hs
      rfl
  | _ => contradiction

/-- A frame without names. -/
theorem Covers.start {sizes : List Nat} {f : Frame} {fs : List Frame}
    (h : Covers sizes (f :: fs)) : Covers sizes ({} :: fs) :=
  h.forget ⟨f.names, (List.append_nil _).symm⟩

/-- The code of statements keeps to the frames that are open, if the innermost one is large
enough for all that they declare. -/
theorem Laid.keeps {fs : List Frame} {f g : Frame} {ss : List Stmt} {code : List Instruction}
    {sizes : List Nat} (h : Laid fs f ss code g) (hf : Stacked f.names f.used)
    (hcovers : Covers sizes (g :: fs)) (hfit : ScopesFit ss) : Keeps sizes code := by
  induction h generalizing sizes with
  | nil fs f => exact .nil
  | cons hfirst hothers ihFirst ihOthers =>
      obtain ⟨hfitFirst, hfitOthers⟩ := scopesFit_cons.mp hfit
      exact (ihFirst hf (hcovers.forget hothers.names) (scopesFit_one.mpr hfitFirst)).append
        (ihOthers (hfirst.stacked hf) hcovers hfitOthers)
  | varDecl hinit =>
      have hnew : Holds sizes _ 0 1 := hcovers 0 _ rfl _ _ List.mem_cons_self
      exact (hinit.keeps (hcovers.forget ⟨[_], rfl⟩)).append (keeps_st hnew)
  | assign hvalue hfind =>
      exact (hvalue.keeps hcovers).append (keeps_st (hcovers.find hfind))
  | arrayFilled fs f hlength =>
      have hnew : Holds sizes _ 0 _ := hcovers 0 _ rfl _ _ List.mem_cons_self
      exact (Keeps.inert rfl).append (keeps_sta hnew)
  | arrayListed hlength hvalues =>
      have hnew : Holds sizes _ 0 _ := hcovers 0 _ rfl _ _ List.mem_cons_self
      exact (hvalues.keeps (hcovers.forget ⟨[_], rfl⟩)).append (keeps_sta hnew)
  | @setElement fs f name index value i offset base length depth code hvalue hfind hindex
      hoffset =>
      obtain ⟨hops, size, hdepth, hsize, hbase, hlength, hlong⟩ := hcovers.find hfind
      obtain ⟨-, hlt⟩ := checkBounds_eq_ok hoffset
      have hslot : Holds sizes (base + offset : Nat) depth (1 : Nat) :=
        ⟨hops, size, hdepth, hsize, by omega, Int.le_refl 1, by omega⟩
      exact (hvalue.keeps hcovers).append (keeps_sta hslot)
  | @setComputed fs f name index value base length depth code slot hvalue hfind hlit hindex =>
      have hone : Keeps sizes [.pushNat 1] := .inert rfl
      have hcount : Keeps sizes (.pushNat 1 :: slot) := hone.append (hindex.keeps hcovers)
      exact ((hvalue.keeps hcovers).append hcount).append
        (keeps_sta_computed (Holds.one (hcovers.find hfind)))
  | @outputArray fs f s name op arrayOp base length depth hs hfind =>
      have hvalues := keeps_pushA (hcovers.find hfind)
      have hcount : Keeps sizes [.pushNat length] := .inert rfl
      exact hvalues.append (hcount.append (.inert (Stmt.output?_inert hs).2))
  | output hs hvalue =>
      exact (hvalue.keeps hcovers).append (.inert (Stmt.output?_inert hs).1)
  | operation hs hvalues =>
      exact (hvalues.keeps hcovers).append (.inert (Stmt.operation?_inert hs))
  | @block fs f g body code hbody ih =>
      obtain ⟨hsize, hinside⟩ := hfit.frame (by rw [Stmt.scopeTotals]) hbody
      have hopen := hcovers.enter (hbody.stacked .nil) (Nat.le_refl g.used)
      exact keeps_framed hsize (ih .nil hopen hinside)
  | @conditional fs f g test body testCode code htest hbody ih =>
      obtain ⟨hsize, hinside⟩ := hfit.frame (by rw [Stmt.scopeTotals]) hbody
      have hopen := hcovers.enter (hbody.stacked .nil) (Nat.le_refl g.used)
      exact keeps_conditionalCode hsize (htest.keeps hopen.start) (ih .nil hopen hinside)
  | @alternative fs f g h test body otherwise testCode code elseCode htest hbody hotherwise ihBody
      ihElse =>
      obtain ⟨hsize, hinside, hinside'⟩ := hfit.alternative hbody hotherwise
      have hopen := hcovers.enter (hbody.stacked .nil) (Nat.le_max_left g.used h.used)
      have hopen' := hcovers.enter (hotherwise.stacked .nil) (Nat.le_max_right g.used h.used)
      exact keeps_alternativeCode hsize (htest.keeps hopen.start) (ihBody .nil hopen hinside)
        (ihElse .nil hopen' hinside')
  | @loop fs f g h k s initCode testCode code stepCode l hs hinit htest hbody hstep ihInit ihBody
      ihStep =>
      obtain ⟨hsize, hinside⟩ := hfit.loop hs hinit hbody hstep
      have hg := hinit.stacked .nil
      have hh := hbody.stacked hg
      have hopen := hcovers.enter (hstep.stacked hh) (Nat.le_refl k.used)
      have hopenStep := hopen.forget hstep.names
      have hopenBody := hopenStep.forget hbody.names
      have hfitInit : ScopesFit l.start := by simp [ScopesFit]
      have hfitStep : ScopesFit l.advance := by simp [ScopesFit]
      exact keeps_loopCode hsize (ihInit .nil hopenBody hfitInit) (htest.keeps hopenBody)
        (ihBody hg hopenStep hinside) (ihStep hh hopen hfitStep)

/-! ## Blocks -/

/-- Functions take no slots, so no frame has to be open for them. -/
theorem Covers.functions {f : Frame} (hf : Stacked f.names 0) : Covers [] [f] := by
  intro k g hg name storage hmem
  obtain ⟨rfl, rfl⟩ : k = 0 ∧ g = f := by
    cases k with
    | zero => exact ⟨rfl, (Option.some.inj hg).symm⟩
    | succ k => cases hg
  have hstop := hf.stop_le hmem
  cases storage with
  | scalar slot =>
      simp only [Storage.stop] at hstop
      omega
  | array base length =>
      have hpos := hf.length_pos hmem
      simp only [Storage.stop] at hstop
      omega
  | function label arity => trivial

/-- In the block of a function the frame of the call is open, and no frame outside it. -/
theorem FunctionCode.inRange {top : Frame} {d : FunctionDecl} {code : List Instruction}
    (h : FunctionCode top d code) (htop : Stacked top.names 0)
    (hfit : ∀ n ∈ (d.params.length + Stmt.listSlots d.body) :: Stmt.listTotals d.body,
      (n : Int) < signedLimit)
    (hlen : (code.length : Int) < signedLimit) : AllInRange [] code := by
  cases h with
  | @mk body g hbody =>
      let tail : List Instruction := if Generator.endsWithReturn d.body then [] else [.plain .ret]
      have htail : Keeps [g.used] tail := .inert (by dsimp only [tail]; split <;> rfl)
      have hused : g.used = d.params.length + Stmt.listSlots d.body := by
        rw [hbody.used, Frame.addParams_used]
        exact congrArg (· + _) (Nat.zero_add _)
      have hsize : (g.used : Int) < signedLimit := by
        rw [hused]
        exact hfit _ List.mem_cons_self
      have hparams := Frame.addParams_stacked (f := {}) .nil d.params
      have hcovers : Covers [g.used] [g, top] :=
        (Covers.functions htop).enter (hbody.stacked hparams) (Nat.le_refl g.used)
      have hkeeps : Keeps [g.used] (body ++ tail) :=
        (hbody.keeps hparams hcovers fun n hn => hfit n (List.mem_cons_of_mem _ hn)).append htail
      have hopen : openFrames [.plain .alloc, .pushNat g.used] = [g.used] :=
        openFrames_opened (.inr rfl) hsize
      have hlen' : ((2 + (body ++ tail).length : Nat) : Int) < signedLimit := by
        simp only [List.length_cons] at hlen
        dsimp only [tail]
        omega
      exact ⟨.inert rfl [], inRange_plain (by decide), (hkeeps _ hopen hlen').1⟩

theorem MainCode.inRange {config : Config} {top : Frame} {ss : List Stmt}
    {code : List Instruction} (h : MainCode config top ss code) (htop : Stacked top.names 0)
    (hused : top.used = 0)
    (hfit : ∀ n ∈ Stmt.listSlots ss :: Stmt.listTotals ss, (n : Int) < signedLimit)
    (hlen : (code.length : Int) < signedLimit) : AllInRange [] code := by
  cases h with
  | @mk body g hbody =>
      have hsize : (g.used : Int) < signedLimit := by
        rw [hbody.used, hused, Nat.zero_add]
        exact hfit _ List.mem_cons_self
      have hnone : Covers [] [] := fun k f hf => by cases hf
      have htop' : Stacked top.names top.used := hused ▸ htop
      have hcovers : Covers [g.used] [g] :=
        hnone.enter (hbody.stacked htop') (Nat.le_refl g.used)
      have hbodyKeeps : Keeps [g.used] body :=
        hbody.keeps htop' hcovers fun n hn => hfit n (List.mem_cons_of_mem _ hn)
      have hclearing : Keeps [g.used] config.clearing := .inert (by
        rw [Config.clearing]
        cases config.clearColor <;> rfl)
      have hhalt : Keeps [] [.plain .halt] := .inert rfl
      have hkeeps := (keeps_framed hsize (hclearing.append hbodyKeeps)).append hhalt
      exact (hkeeps [] rfl (by simpa using hlen)).1

/-- Every address in a block, and all slots that a block's instructions name by literals, are
slots of frames that are open there.  In the block of a function, they are slots of the frame of
the call or of frames that were opened in it.

The block is held in memory, so its length is a signed word. -/
theorem compile_addresses_in_range {config : Config} {p : Program} {image : Image}
    (hcompile : compile config p = .ok image)
    (hslots : ∀ n ∈ p.slotTotals, (n : Int) < signedLimit) {b : Block} (hb : b ∈ image.blocks)
    (hlen : (b.code.length : Int) < signedLimit) {before after : List Instruction}
    {i : Instruction} (hcode : b.code = before ++ i :: after) : InRange before.reverse i := by
  have htop : Stacked p.topFrame.names 0 := p.topFrame_used ▸ p.topFrame_stacked
  have hall : AllInRange [] b.code := by
    rcases (compiled_of_compile hcompile).1.mem hb with ⟨d, hd, hfunction⟩ | hmain
    · exact hfunction.inRange htop (fun n hn => hslots n (Program.slotTotals_function hd hn)) hlen
    · exact hmain.inRange htop p.topFrame_used
        (fun n hn => hslots n (Program.slotTotals_statements hn)) hlen
  simpa using hall.at hcode

/-- In the two blocks of the demo all instructions are in range. -/
theorem compile_demo_addresses_in_range :
    (∀ n ∈ Demo.program.slotTotals, (n : Int) < signedLimit) ∧
      ∃ image, compile {} Demo.program = .ok image ∧ image.blocks.length = 2 ∧
        ∀ b ∈ image.blocks, (b.code.length : Int) < signedLimit ∧
          ∀ before i after, b.code = before ++ i :: after → InRange before.reverse i := by
  have hslots : ∀ n ∈ Demo.program.slotTotals, (n : Int) < signedLimit := by decide
  have hbound : (Demo.program.codeBound : Int) < signedLimit := by decide
  have hblocks : (compile {} Demo.program).toOption.map (·.blocks.length) = some 2 := by
    decide +kernel
  cases hcompile : compile {} Demo.program with
  | error e =>
      rw [hcompile] at hblocks
      cases hblocks
  | ok image =>
      rw [hcompile] at hblocks
      refine ⟨hslots, image, rfl, Option.some.inj hblocks, fun b hb => ?_⟩
      have hlen : (b.code.length : Int) < signedLimit := by
        have hle := (compiled_of_compile hcompile).2 b hb
        omega
      exact ⟨hlen, fun _ _ _ hcode => compile_addresses_in_range hcompile hslots hb hlen hcode⟩

end PadCompiler
