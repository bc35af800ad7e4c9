import PadCompiler.Proofs.Layout

/-!
# PadCompiler.Proofs.Unambiguous

The text of a compiled program can be read in one way only.  It is cut into lines at the line
breaks; the lines that begin with a dot open a block, and every other line is one instruction, the
word of its opcode and then its operand.  Three things make that work:

* an operand shows its form by how it begins (`Operand.formOf_text`), and within a form it shows
  all that it holds (`Operand.text_inj`);
* where the word of one opcode begins the word of another, what follows in the longer word never
  looks like an operand (`Opcode.mnemonic_append`), not even in `push +`, the only word with a
  space, so that a line tells the instruction (`Instruction.text_inj`);
* no line holds a line break (`Instruction.isOneLine_text`), and none but the first line of a block
  looks like one (`Instruction.not_opensBlock_text`).

Not every value can be read back: all floats that are not a number share a text, and a colour may be
spelled like anything.  `isLegible` leaves the floats out, and asks colours to be hexadecimal and
labels to be on one line.
-/

namespace PadCompiler

/-! ## What can be read -/

/-- A hexadecimal digit. -/
def Text.isHexDigit (c : Char) : Bool :=
  c.isDigit || ('a' ≤ c && c ≤ 'f') || ('A' ≤ c && c ≤ 'F')

/-- A text on one line. -/
def Text.isOneLine (s : String) : Bool :=
  s.toList.all (· != '\n')

/-- Colours are `#` and hexadecimal digits, and floats are left out. -/
def Value.isLegible : Value → Bool
  | .int _ | .bool _ => true
  | .float _ => false
  | .color spelling => spelling.toList.head? = some '#' && spelling.toList.tail.all Text.isHexDigit

/-- Labels are on one line, and values are legible. -/
def Operand.isLegible : Operand → Bool
  | .value v => v.isLegible
  | .label name => Text.isOneLine name
  | .address .. | .pc _ | .reserved => true

def Instruction.isLegible (i : Instruction) : Bool :=
  i.operand.all Operand.isLegible

def Block.isLegible (b : Block) : Bool :=
  Text.isOneLine b.label && b.code.all Instruction.isLegible

def Image.isLegible (image : Image) : Bool :=
  image.blocks.all Block.isLegible

/-! ## Lists -/

/-- A list is cut in one way only before the first element without a property. -/
theorem append_inj_of_head {f : α → Bool} {p p' q q' : List α} (hp : p.all f = true)
    (hp' : p'.all f = true) (hq : q.head?.any f = false) (hq' : q'.head?.any f = false)
    (h : p ++ q = p' ++ q') : p = p' ∧ q = q' := by
  have hstops {p q : List α} (hp : p.all f = true) (hq : q.head?.any f = false) :
      (p ++ q).takeWhile f = p := by
    rw [List.takeWhile_append_of_pos (List.all_eq_true.mp hp)]
    cases q with
    | nil => simp
    | cons a q => simp_all
  have hfront : p = p' := by rw [← hstops hp hq, h, hstops hp' hq']
  subst hfront
  exact ⟨rfl, List.append_cancel_left h⟩

/-- A list is cut in one way only at the first place of an element. -/
theorem append_cons_inj [DecidableEq α] {p p' q q' : List α} {c : α} (hp : c ∉ p) (hp' : c ∉ p')
    (h : p ++ c :: q = p' ++ c :: q') : p = p' ∧ q = q' := by
  have hall {p : List α} (hp : c ∉ p) : p.all (· != c) = true := by
    simp only [List.all_eq_true, bne_iff_ne]
    rintro a ha rfl
    exact hp ha
  obtain ⟨hfront, hback⟩ := append_inj_of_head (hall hp) (hall hp') (by simp) (by simp) h
  exact ⟨hfront, List.tail_eq_of_cons_eq hback⟩

/-- A function that is injective on the members of two lists. -/
theorem map_inj_of_mem {f : α → β} {p : α → Bool} (hf : ∀ a b, p a → p b → f a = f b → a = b)
    {l l' : List α} (hl : l.all p) (hl' : l'.all p) (h : l.map f = l'.map f) : l = l' := by
  induction l generalizing l' with
  | nil => simpa [eq_comm] using h
  | cons a l ih =>
      cases l' with
      | nil => simp at h
      | cons a' l' =>
          simp only [List.all_cons, Bool.and_eq_true] at hl hl'
          simp only [List.map_cons, List.cons.injEq] at h
          rw [hf a a' hl.1 hl'.1 h.1, ih hl.2 hl'.2 h.2]

/-! ## Numbers -/

/-- The digits of a number are digits. -/
theorem isDigit_of_mem_digits {n : Nat} {c : Char} (h : c ∈ (toString n).toList) :
    c.isDigit = true := by
  rw [Nat.toString_eq_repr, Nat.toList_repr] at h
  exact Nat.isDigit_of_mem_toDigits (by decide) (by decide) h

theorem not_mem_digits (n : Nat) {c : Char} (hc : c.isDigit = false) :
    c ∉ (toString n).toList := by
  intro h
  simp [isDigit_of_mem_digits h] at hc

theorem digits_inj {n m : Nat} (h : (toString n).toList = (toString m).toList) : n = m := by
  have hread (k : Nat) : Nat.ofDigitChars 10 (toString k).toList 0 = k := by
    rw [Nat.toString_eq_repr, Nat.toList_repr]
    exact Nat.ofDigitChars_toDigits (by decide) (by decide)
  rw [← hread n, h, hread m]

theorem digits_cons (n : Nat) :
    ∃ c rest, (toString n).toList = c :: rest ∧ c.isDigit = true := by
  have hne : (toString n).toList ≠ [] := by
    rw [Nat.toString_eq_repr, Nat.toList_repr]
    exact Nat.toDigits_ne_nil
  obtain ⟨c, rest, hcons⟩ := List.exists_cons_of_ne_nil hne
  exact ⟨c, rest, hcons, isDigit_of_mem_digits (n := n) (by rw [hcons]; exact List.mem_cons_self)⟩

theorem toList_negSucc (n : Nat) :
    (toString (Int.negSucc n)).toList = '-' :: (toString (n + 1)).toList := by
  show ("-" ++ (n + 1).repr).toList = _
  simp [Nat.toString_eq_repr]

/-- A whole number begins with a digit or with a minus sign. -/
theorem toString_int_cons (n : Int) :
    ∃ c rest, (toString n).toList = c :: rest ∧ (c.isDigit = true ∨ c = '-') := by
  cases n with
  | ofNat n =>
      obtain ⟨c, rest, hcons, hc⟩ := digits_cons n
      exact ⟨c, rest, hcons, .inl hc⟩
  | negSucc n => exact ⟨'-', _, toList_negSucc n, .inr rfl⟩

theorem toString_int_inj {n m : Int} (h : (toString n).toList = (toString m).toList) : n = m := by
  -- a minus sign is no digit
  have hmixed (n m : Nat) : (toString n).toList ≠ (toString (Int.negSucc m)).toList := by
    obtain ⟨c, rest, hcons, hc⟩ := digits_cons n
    rw [hcons, toList_negSucc]
    rintro ⟨⟩
    simp at hc
  cases n with
  | ofNat n =>
      cases m with
      | ofNat m => rw [digits_inj (n := n) (m := m) h]
      | negSucc m => exact absurd h (hmixed n m)
  | negSucc n =>
      cases m with
      | ofNat m => exact absurd h.symm (hmixed m n)
      | negSucc m =>
          rw [toList_negSucc, toList_negSucc, List.cons.injEq] at h
          rw [Nat.succ.inj (digits_inj h.2)]

/-! ## Operands -/

/-- How an operand is written. -/
def Operand.text : Operand → String
  | .value v => v.text
  | .address slot depth => "[" ++ toString slot.toNat ++ ":" ++ toString depth.toNat ++ "]"
  | .label name => "." ++ name
  | .pc offset => "#PC" ++ (if offset < 0 then "-" else "+") ++ toString offset.toInt.natAbs
  | .reserved => "<reserved>"

/-- The forms of operands. -/
inductive Operand.Form where
  | number
  | truth
  | color
  | address
  | label
  | pc
  | reserved
deriving DecidableEq

/-- The form of an operand. -/
def Operand.form : Operand → Operand.Form
  | .value (.bool _) => .truth
  | .value (.color _) => .color
  | .value _ => .number
  | .address .. => .address
  | .label _ => .label
  | .pc _ => .pc
  | .reserved => .reserved

/-- The form that a text has by how it begins. -/
def Operand.formOf : List Char → Operand.Form
  | '[' :: _ => .address
  | '.' :: _ => .label
  | '<' :: _ => .reserved
  | '#' :: 'P' :: _ => .pc
  | '#' :: _ => .color
  | 't' :: _ => .truth
  | 'f' :: _ => .truth
  | _ => .number

/-- A colour that is legible begins with `#`, and `P` is no hexadecimal digit. -/
theorem Operand.formOf_color {spelling : String} (h : (Value.color spelling).isLegible = true) :
    formOf spelling.toList = .color := by
  simp only [Value.isLegible, Bool.and_eq_true, decide_eq_true_eq] at h
  obtain ⟨hhead, hhex⟩ := h
  cases hs : spelling.toList with
  | nil => simp [hs] at hhead
  | cons c digits =>
      simp only [hs, List.head?_cons, Option.some.injEq, List.tail_cons] at hhead hhex
      subst hhead
      unfold formOf
      split <;> simp_all [Text.isHexDigit]

theorem Operand.formOf_number (n : Int) : formOf (toString n).toList = .number := by
  obtain ⟨c, rest, hcons, hc⟩ := toString_int_cons n
  rw [hcons]
  unfold formOf
  split <;> simp_all

/-- An operand shows its form by how it begins. -/
theorem Operand.formOf_text {o : Operand} (h : o.isLegible = true) :
    formOf o.text.toList = o.form := by
  cases o with
  | value v =>
      cases v with
      | int n => exact formOf_number n.toInt
      | float bits => simp [Operand.isLegible, Value.isLegible] at h
      | bool b => cases b <;> simp [text, Value.text, formOf, form]
      | color spelling => exact formOf_color h
  | address slot depth => simp [text, formOf, form]
  | label name => simp [text, formOf, form]
  | pc offset => simp [text, formOf, form]
  | reserved => simp [text, formOf, form]

/-- The sign of an offset comes first. -/
theorem Operand.pc_text_inj {offset offset' : Int64}
    (h : (Operand.pc offset).text = (Operand.pc offset').text) : offset = offset' := by
  have hneg (n : Int64) : n < 0 ↔ n.toInt < 0 := Int64.lt_iff_toInt_lt
  simp only [Operand.text, ← String.toList_inj, String.toList_append, List.append_assoc,
    List.append_cancel_left_eq] at h
  apply Int64.toInt_inj.mp
  by_cases ho : offset < 0 <;> by_cases ho' : offset' < 0
  · rw [if_pos ho, if_pos ho', List.append_cancel_left_eq] at h
    have habs := digits_inj h
    rw [hneg] at ho ho'
    omega
  · simp [ho, ho'] at h
  · simp [ho, ho'] at h
  · rw [if_neg ho, if_neg ho', List.append_cancel_left_eq] at h
    have habs := digits_inj h
    rw [hneg] at ho ho'
    omega

theorem Operand.toList_address (slot depth : UInt64) :
    (Operand.address slot depth).text.toList = '[' ::
      ((toString slot.toNat).toList ++ ':' :: ((toString depth.toNat).toList ++ [']'])) := by
  simp [Operand.text]

/-- Digits end at the colon, and at the bracket. -/
theorem Operand.address_text_inj {slot depth slot' depth' : UInt64}
    (h : (Operand.address slot depth).text = (Operand.address slot' depth').text) :
    slot = slot' ∧ depth = depth' := by
  have hcolon (n : Nat) : ':' ∉ (toString n).toList := not_mem_digits n (by decide)
  have hclose (n : Nat) : ']' ∉ (toString n).toList := not_mem_digits n (by decide)
  rw [← String.toList_inj, toList_address, toList_address, List.cons.injEq] at h
  obtain ⟨hslot, hrest⟩ := append_cons_inj (hcolon _) (hcolon _) h.2
  obtain ⟨hdepth, -⟩ := append_cons_inj (hclose _) (hclose _) hrest
  exact ⟨UInt64.toNat_inj.mp (digits_inj hslot), UInt64.toNat_inj.mp (digits_inj hdepth)⟩

/-- Values that are written in the same way are the same. -/
theorem Operand.value_text_inj {v v' : Value}
    (hform : (Operand.value v).form = (Operand.value v').form) (hv : v.isLegible = true)
    (hv' : v'.isLegible = true) (h : v.text = v'.text) : v = v' := by
  cases v with
  | int n =>
      cases v' with
      | int n' => rw [Int64.toInt_inj.mp (toString_int_inj (congrArg String.toList h))]
      | float bits => simp [Value.isLegible] at hv'
      | _ => simp [Operand.form] at hform
  | float bits => simp [Value.isLegible] at hv
  | bool b =>
      cases v' with
      | bool b' => cases b <;> cases b' <;> simp_all [Value.text]
      | _ => simp [Operand.form] at hform
  | color spelling =>
      cases v' with
      | color spelling' => rw [show spelling = spelling' from h]
      | _ => simp [Operand.form] at hform

/-- Operands that are written in the same way are the same. -/
theorem Operand.text_inj {o o' : Operand} (ho : o.isLegible = true) (ho' : o'.isLegible = true)
    (h : o.text = o'.text) : o = o' := by
  have hform : o.form = o'.form := by
    rw [← formOf_text ho, ← formOf_text ho', h]
  cases o with
  | value v =>
      cases o' with
      | value v' => rw [value_text_inj hform ho ho' h]
      | _ => cases v <;> simp [form] at hform
  | address slot depth =>
      cases o' with
      | value v' => cases v' <;> simp [form] at hform
      | address slot' depth' =>
          obtain ⟨rfl, rfl⟩ := address_text_inj h
          rfl
      | _ => simp [form] at hform
  | label name =>
      cases o' with
      | value v' => cases v' <;> simp [form] at hform
      | label name' => simpa [text, ← String.toList_inj] using h
      | _ => simp [form] at hform
  | pc offset =>
      cases o' with
      | value v' => cases v' <;> simp [form] at hform
      | pc offset' => rw [pc_text_inj h]
      | _ => simp [form] at hform
  | reserved =>
      cases o' with
      | value v' => cases v' <;> simp [form] at hform
      | reserved => rfl
      | _ => simp [form] at hform

/-- An operand is not empty, and it begins with no plus sign. -/
theorem Operand.text_cons {o : Operand} (ho : o.isLegible = true) :
    ∃ c rest, o.text.toList = c :: rest ∧ c ≠ '+' := by
  cases o with
  | value v =>
      cases v with
      | int n =>
          obtain ⟨c, rest, hcons, hc⟩ := toString_int_cons n.toInt
          refine ⟨c, rest, hcons, ?_⟩
          rintro rfl
          simp at hc
      | float bits => simp [isLegible, Value.isLegible] at ho
      | bool b => cases b <;> simp [text, Value.text]
      | color spelling =>
          have hform := formOf_color ho
          cases hs : spelling.toList with
          | nil => simp [hs, formOf] at hform
          | cons c rest =>
              refine ⟨c, rest, hs, ?_⟩
              rintro rfl
              simp [hs, formOf] at hform
  | _ => simp [text]

@[simp] theorem Text.isOneLine_append (s t : String) :
    isOneLine (s ++ t) = (isOneLine s && isOneLine t) := by
  simp [isOneLine]

theorem Text.isOneLine_digits (n : Nat) : isOneLine (toString n) = true := by
  simp only [isOneLine, List.all_eq_true, bne_iff_ne]
  rintro c hc rfl
  exact not_mem_digits n (by decide) hc

theorem Text.isOneLine_int (n : Int) : isOneLine (toString n) = true := by
  cases n with
  | ofNat n => exact isOneLine_digits n
  | negSucc n =>
      show isOneLine ("-" ++ toString (n + 1)) = true
      simp only [isOneLine_append, isOneLine_digits, Bool.and_true]
      decide

/-- An operand is on one line. -/
theorem Operand.isOneLine_text {o : Operand} (ho : o.isLegible = true) :
    Text.isOneLine o.text = true := by
  cases o with
  | value v =>
      cases v with
      | int n => exact Text.isOneLine_int n.toInt
      | float bits => simp [isLegible, Value.isLegible] at ho
      | bool b => cases b <;> decide
      | color spelling =>
          simp only [isLegible, Value.isLegible, Bool.and_eq_true, decide_eq_true_eq] at ho
          cases hs : spelling.toList with
          | nil => simp [text, Value.text, Text.isOneLine, hs]
          | cons c digits =>
              simp only [hs, List.head?_cons, Option.some.injEq, List.tail_cons] at ho
              have hdigits : ∀ d ∈ digits, d ≠ '\n' := by
                rintro d hd rfl
                have hhex := List.all_eq_true.mp ho.2 _ hd
                simp [Text.isHexDigit] at hhex
              simpa [text, Value.text, Text.isOneLine, hs, ho.1] using hdigits
  | address slot depth =>
      simp only [text, Text.isOneLine_append, Text.isOneLine_digits]
      decide
  | label name =>
      simp only [text, Text.isOneLine_append]
      exact ho
  | pc offset =>
      simp only [text, Text.isOneLine_append, Text.isOneLine_digits]
      split <;> decide
  | reserved => decide

/-! ## Instructions -/

/-- What stands between the word of an opcode and an operand. -/
def Instruction.gap (op : Opcode) : Operand → String
  | .address .. => if op = .pushOffset then "" else " "
  | _ => " "

/-- What follows the word of the opcode. -/
def Instruction.rest (i : Instruction) : String :=
  i.operand.elim "" fun o => gap i.op o ++ o.text

theorem Instruction.text_eq (i : Instruction) : i.text = i.op.mnemonic ++ i.rest := by
  obtain ⟨op, operand⟩ := i
  cases operand with
  | none => simp [text, rest]
  | some o => cases o <;> simp [text, rest, gap, Operand.text, ← String.toList_inj]

theorem Opcode.mem_all (op : Opcode) : op ∈ Opcode.all := by
  cases op <;> decide

theorem Opcode.mnemonic_inj {a b : Opcode} (h : a.mnemonic = b.mnemonic) : a = b := by
  have hall : ∀ a ∈ all, ∀ b ∈ all, a.mnemonic = b.mnemonic → a = b := by decide +kernel
  exact hall a a.mem_all b b.mem_all h

/-- Where the word of one opcode begins the word of another, no operand begins with what follows in
the longer one, but for the space in `push +`. -/
theorem Opcode.mnemonic_append {a b : Opcode} {c : Char} {more : List Char}
    (h : b.mnemonic.toList = a.mnemonic.toList ++ c :: more) (hc : c = ' ' ∨ c = '[') :
    c = ' ' ∧ more = ['+'] := by
  have hall : ∀ a ∈ all, ∀ b ∈ all, a.mnemonic.toList.isPrefixOf b.mnemonic.toList = true →
      let more := b.mnemonic.toList.drop a.mnemonic.toList.length
      more.head? = some ' ' ∨ more.head? = some '[' → more = [' ', '+'] := by
    decide +kernel
  have hmore := hall a a.mem_all b b.mem_all
  rw [h, List.drop_left] at hmore
  simpa using hmore (by simp) (by simpa using hc)

/-- There is no gap before an address after `push +`, and a space in all other cases. -/
theorem Instruction.gap_cases (op : Opcode) (o : Operand) :
    gap op o = " " ∨ gap op o = "" ∧ ∃ more, o.text.toList = '[' :: more := by
  cases o with
  | address slot depth =>
      by_cases hop : op = .pushOffset
      · exact .inr ⟨by simp [gap, hop], _, Operand.toList_address slot depth⟩
      · exact .inl (by simp [gap, hop])
  | _ => exact .inl rfl

/-- What follows the word of the opcode is nothing, or begins with a bracket, or with a space; after
the space there is no plus sign. -/
theorem Instruction.rest_cases {i : Instruction} (hi : i.isLegible = true) :
    i.rest.toList = [] ∨ (∃ more, i.rest.toList = '[' :: more) ∨
      ∃ c more, i.rest.toList = ' ' :: c :: more ∧ c ≠ '+' := by
  obtain ⟨op, operand⟩ := i
  cases operand with
  | none => simp [rest]
  | some o =>
      rcases gap_cases op o with hgap | ⟨hgap, more, htext⟩
      · obtain ⟨c, more, htext, hc⟩ := Operand.text_cons (o := o) (by simpa [isLegible] using hi)
        exact .inr (.inr ⟨c, more, by simp [rest, hgap, htext], hc⟩)
      · exact .inr (.inl ⟨more, by simp [rest, hgap, htext]⟩)

/-- After the same opcode, what follows tells the operand. -/
theorem Instruction.operand_eq {op : Opcode} {x y : Option Operand}
    (hx : isLegible ⟨op, x⟩ = true) (hy : isLegible ⟨op, y⟩ = true)
    (h : rest ⟨op, x⟩ = rest ⟨op, y⟩) : x = y := by
  have hsome (o : Operand) (ho : isLegible ⟨op, some o⟩ = true) : rest ⟨op, some o⟩ ≠ "" := by
    obtain ⟨c, more, htext, -⟩ := Operand.text_cons (o := o) (by simpa [isLegible] using ho)
    intro hrest
    have hnil := congrArg String.toList hrest
    simp [rest, htext] at hnil
  cases x with
  | none =>
      cases y with
      | none => rfl
      | some o' => exact absurd h.symm (hsome o' hy)
  | some o =>
      cases y with
      | none => exact absurd h (hsome o hx)
      | some o' =>
          simp only [isLegible, Option.all_some] at hx hy
          simp only [rest, Option.elim_some, ← String.toList_inj, String.toList_append] at h
          rcases gap_cases op o with hgap | ⟨hgap, more, htext⟩ <;>
            rcases gap_cases op o' with hgap' | ⟨hgap', more', htext'⟩ <;>
            rw [hgap, hgap'] at h
          · rw [Operand.text_inj hx hy (String.toList_inj.mp (by simpa using h))]
          · simp [htext'] at h
          · simp [htext] at h
          · rw [Operand.text_inj hx hy (String.toList_inj.mp (by simpa using h))]

/-- Lines that are the same do not begin with words of which one is longer. -/
theorem Instruction.mnemonic_not_longer {i j : Instruction} (hi : i.isLegible = true)
    (h : i.text = j.text) {c : Char} {more : List Char} :
    j.op.mnemonic.toList ≠ i.op.mnemonic.toList ++ c :: more := by
  intro hword
  have hrest : i.rest.toList = c :: more ++ j.rest.toList := by
    rw [text_eq, text_eq, ← String.toList_inj, String.toList_append, String.toList_append, hword,
      List.append_assoc, List.append_cancel_left_eq] at h
    exact h
  rcases rest_cases hi with hnil | ⟨more', hbracket⟩ | ⟨d, more', hspace, hd⟩
  · simp [hnil] at hrest
  · simp only [hbracket, List.cons_append, List.cons.injEq] at hrest
    obtain ⟨rfl, -⟩ := hrest
    obtain ⟨hc, -⟩ := Opcode.mnemonic_append hword (.inr rfl)
    simp at hc
  · simp only [hspace, List.cons_append, List.cons.injEq] at hrest
    obtain ⟨rfl, hrest⟩ := hrest
    obtain ⟨-, rfl⟩ := Opcode.mnemonic_append hword (.inl rfl)
    simp only [List.cons_append, List.cons.injEq] at hrest
    exact hd hrest.1

/-- A line tells the instruction. -/
theorem Instruction.text_inj {i j : Instruction} (hi : i.isLegible = true)
    (hj : j.isLegible = true) (h : i.text = j.text) : i = j := by
  have happend : i.op.mnemonic.toList ++ i.rest.toList =
      j.op.mnemonic.toList ++ j.rest.toList := by
    rw [← String.toList_append, ← String.toList_append, ← text_eq, ← text_eq, h]
  have hword : i.op.mnemonic.toList = j.op.mnemonic.toList := by
    rcases List.append_eq_append_iff.mp happend with ⟨more, hlonger, -⟩ | ⟨more, hlonger, -⟩
    · cases more with
      | nil => simpa using hlonger.symm
      | cons c more => exact absurd hlonger (mnemonic_not_longer hi h)
    · cases more with
      | nil => simpa using hlonger
      | cons c more => exact absurd hlonger (mnemonic_not_longer hj h.symm)
  have hop : i.op = j.op := Opcode.mnemonic_inj (String.toList_inj.mp hword)
  obtain ⟨op, x⟩ := i
  obtain ⟨op', y⟩ := j
  subst hop
  rw [hword, List.append_cancel_left_eq, String.toList_inj] at happend
  rw [operand_eq hi hj happend]

/-! ## Lines -/

theorem Text.toList_unlines (lines : List String) :
    (unlines lines).toList = lines.flatMap fun l => l.toList ++ ['\n'] := by
  simp [unlines, String.toList_join, List.flatMap_map]

/-- A text tells its lines, if no line holds a line break. -/
theorem Text.unlines_inj {lines lines' : List String} (h : lines.all isOneLine = true)
    (h' : lines'.all isOneLine = true) (heq : unlines lines = unlines lines') : lines = lines' := by
  induction lines generalizing lines' with
  | nil =>
      cases lines' with
      | nil => rfl
      | cons l lines' =>
          have hnil := congrArg String.toList heq
          simp [toList_unlines] at hnil
  | cons l lines ih =>
      cases lines' with
      | nil =>
          have hnil := congrArg String.toList heq
          simp [toList_unlines] at hnil
      | cons l' lines' =>
          simp only [List.all_cons, Bool.and_eq_true] at h h'
          have hbreak {s : String} (hs : isOneLine s = true) : '\n' ∉ s.toList := by
            intro hmem
            simpa using List.all_eq_true.mp hs _ hmem
          rw [← String.toList_inj, toList_unlines, toList_unlines] at heq
          simp only [List.flatMap_cons, List.append_assoc, List.singleton_append] at heq
          obtain ⟨hfirst, hothers⟩ := append_cons_inj (hbreak h.1) (hbreak h'.1) heq
          rw [← toList_unlines, ← toList_unlines, String.toList_inj] at hothers
          rw [String.toList_inj.mp hfirst, ih h.2 h'.2 hothers]

/-- The lines of a block. -/
def Block.lines (b : Block) : List String :=
  ("." ++ b.label) :: b.code.map Instruction.text

/-- Whether a line opens a block. -/
def Text.opensBlock (line : String) : Bool :=
  line.toList.head? = some '.'

theorem Instruction.isOneLine_text {i : Instruction} (hi : i.isLegible = true) :
    Text.isOneLine i.text = true := by
  have hword : ∀ op ∈ Opcode.all, Text.isOneLine op.mnemonic = true := by decide +kernel
  obtain ⟨op, operand⟩ := i
  rw [text_eq, Text.isOneLine_append, hword op op.mem_all, Bool.true_and]
  cases operand with
  | none => simp [rest, Text.isOneLine]
  | some o =>
      have ho : Text.isOneLine o.text = true := Operand.isOneLine_text hi
      rcases gap_cases op o with hgap | ⟨hgap, -⟩ <;>
        simp [rest, hgap, ho]
      decide

theorem Instruction.not_opensBlock_text (i : Instruction) : Text.opensBlock i.text = false := by
  have hword : ∀ op ∈ Opcode.all, op.mnemonic.toList.head?.any (· != '.') = true := by
    decide +kernel
  have hhead := hword i.op i.op.mem_all
  rw [text_eq, Text.opensBlock, String.toList_append, List.head?_append]
  cases hop : i.op.mnemonic.toList.head? with
  | none => simp [hop] at hhead
  | some c => simpa [hop] using hhead

/-! ## Blocks -/

theorem Block.isOneLine_lines {b : Block} (hb : b.isLegible = true) :
    b.lines.all Text.isOneLine = true := by
  simp only [isLegible, Bool.and_eq_true] at hb
  rw [lines, List.all_cons, Text.isOneLine_append, hb.1, List.all_map]
  have hcode : b.code.all (Text.isOneLine ∘ Instruction.text) = true :=
    List.all_eq_true.mpr fun i hi => Instruction.isOneLine_text (List.all_eq_true.mp hb.2 i hi)
  rw [hcode]
  decide

/-- The text of blocks is made of their lines. -/
theorem Block.join_text (blocks : List Block) :
    String.join (blocks.map Block.text) = Text.unlines (blocks.flatMap Block.lines) := by
  rw [← String.toList_inj, String.toList_join, Text.toList_unlines, List.flatMap_map,
    List.flatMap_assoc]
  exact congrArg (List.flatMap · blocks) (funext fun b => Text.toList_unlines b.lines)

/-- The lines of blocks begin with one that opens a block. -/
theorem Block.head?_lines (blocks : List Block) :
    (blocks.flatMap lines).head?.any (!Text.opensBlock ·) = false := by
  cases blocks with
  | nil => rfl
  | cons b blocks => simp [lines, Text.opensBlock]

/-- Lines tell the blocks. -/
theorem Block.lines_inj {blocks blocks' : List Block} (h : blocks.all isLegible = true)
    (h' : blocks'.all isLegible = true)
    (heq : blocks.flatMap lines = blocks'.flatMap lines) : blocks = blocks' := by
  induction blocks generalizing blocks' with
  | nil =>
      cases blocks' with
      | nil => rfl
      | cons b blocks' => simp [lines] at heq
  | cons b blocks ih =>
      cases blocks' with
      | nil => simp [lines] at heq
      | cons b' blocks' =>
          simp only [List.all_cons, isLegible, Bool.and_eq_true] at h h'
          simp only [List.flatMap_cons, lines, List.cons_append, List.cons.injEq] at heq
          obtain ⟨hopening, hlines⟩ := heq
          have hwithin (code : List Instruction) :
              (code.map Instruction.text).all (!Text.opensBlock ·) = true := by
            simp [Instruction.not_opensBlock_text]
          obtain ⟨hcode, hothers⟩ := append_inj_of_head (hwithin _) (hwithin _)
            (head?_lines blocks) (head?_lines blocks') hlines
          have hlabel : b.label = b'.label := by
            simpa [← String.toList_inj] using hopening
          have hsame : b = b' := by
            obtain ⟨label, code⟩ := b
            obtain ⟨label', code'⟩ := b'
            have htexts := map_inj_of_mem (fun _ _ => Instruction.text_inj) h.1.2 h'.1.2 hcode
            simp_all
          rw [hsame, ih h.2 h'.2 hothers]

/-! ## Compiled programs -/

theorem Image.text_of_render {image : Image} {text : String} (h : image.render = .ok text) :
    text = Text.unlines (image.blocks.flatMap Block.lines) := by
  rw [render] at h
  obtain ⟨-, -, htext⟩ := bind_eq_ok.mp h
  rw [← pure_eq_ok.mp htext, Block.join_text]

/-- Two legible programs are rendered to the same text exactly if they have the same blocks: the
same labels, and under each label the same opcodes with the same operands. -/
theorem render_determines_blocks {a b : Image} {text text' : String} (ha : a.isLegible = true)
    (hb : b.isLegible = true) (hrender : a.render = .ok text) (hrender' : b.render = .ok text') :
    text = text' ↔ a.blocks = b.blocks := by
  have htext := a.text_of_render hrender
  have htext' := b.text_of_render hrender'
  constructor
  · intro hsame
    have honeLine {image : Image} (h : image.isLegible = true) :
        (image.blocks.flatMap Block.lines).all Text.isOneLine = true := by
      rw [List.all_flatMap]
      exact List.all_eq_true.mpr fun b hb => Block.isOneLine_lines (List.all_eq_true.mp h b hb)
    rw [htext, htext'] at hsame
    exact Block.lines_inj ha hb (Text.unlines_inj (honeLine ha) (honeLine hb) hsame)
  · intro hblocks
    rw [htext, htext', hblocks]

/-- Operands where none belongs, and labels that look like code. -/
def Demo.odd (first : Opcode) : Image where
  blocks := [
    ⟨"", [⟨first, some (.address 1 0)⟩, ⟨.pushOffset, some (.value (.int (-1)))⟩,
      ⟨.pushA, some (.pc (-2))⟩, ⟨.push, some (.label "+[1:0]")⟩]⟩,
    ⟨"halt .", [⟨.halt, some (.value (.color "#0F"))⟩, ⟨.write, none⟩, ⟨.writeBox, none⟩]⟩]
  diagnostics := []

/-- With and without the plus sign in the first line, there is a text, and the texts differ. -/
theorem odd_text_determines_blocks :
    ∃ text text', (Demo.odd .pushOffset).render = .ok text ∧
      (Demo.odd .push).render = .ok text' ∧ text ≠ text' := by
  have haccepted : ∀ op ∈ [Opcode.pushOffset, .push],
      (Demo.odd op).render.toOption.isSome = true := by decide +kernel
  have hblocks : (Demo.odd .pushOffset).blocks ≠ (Demo.odd .push).blocks := by decide
  cases hrender : (Demo.odd .pushOffset).render with
  | error e =>
      have hnone := haccepted .pushOffset (by simp)
      simp [hrender, Except.toOption] at hnone
  | ok text =>
      cases hrender' : (Demo.odd .push).render with
      | error e =>
          have hnone := haccepted .push (by simp)
          simp [hrender', Except.toOption] at hnone
      | ok text' =>
          have hiff := render_determines_blocks (by decide) (by decide) hrender hrender'
          exact ⟨text, text', rfl, rfl, fun hsame => hblocks (hiff.mp hsame)⟩

end PadCompiler
