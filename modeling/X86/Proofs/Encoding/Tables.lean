import X86.Proofs.Encoding.Layout
import X86.Proofs.Execute.Dispatch

/-!
# What the opcode tables provide

`Layout.Sound` says of a layout what the handlers count on. Every row of the two opcode tables is
gone through once.

* `sound_offered`: **every layout that the tables of a model offer is sound.**
-/

namespace X86

/-! ### Operand forms -/

/-- The form always names a register. -/
def OperandForm.isRegister : OperandForm → Bool
  | .gpr .. | .reg _ => true
  | _ => false

/-- The form always names a constant of the operand size. -/
def OperandForm.isRelative : OperandForm → Bool
  | .relative _ => true
  | _ => false

/-- The width exists on a model of this width. -/
@[simp] def Size.Fits (wide : Bool) (s : Size) : Prop := wide = false → s ≠ .dword

@[simp] theorem Size.ofOpcode_ne_dword (b : UInt8) : Size.ofOpcode b ≠ .dword := by
  rw [Size.ofOpcode]
  split <;> decide

/-- The operands that the form names exist on a model of this width. -/
@[simp] def OperandForm.Fits (wide : Bool) : OperandForm → Prop
  | .fixed o => o.Fits wide
  | .gpr _ s | .reg s | .rm s | .rmReg s => s.Fits wide
  | _ => True

/-- The form names no selector. -/
@[simp] def OperandForm.IsPlain : OperandForm → Prop
  | .fixed (.reg (.seg _)) => False
  | _ => True

/-- A selector that the form names may be loaded. -/
@[simp] def OperandForm.Loads (wide : Bool) : OperandForm → Prop
  | .fixed (.reg (.seg s)) => Exec.MayLoad wide s
  | _ => True

/-- Sizes and operands exist on a model of this width. -/
@[simp] def Layout.Fits (wide : Bool) (l : Layout) : Prop :=
  l.size.Fits wide ∧ l.dst.Fits wide ∧ l.src.Fits wide ∧ l.src2.Fits wide

/-- What the handler of the operation counts on. -/
@[simp] def Layout.Serves (wide : Bool) (l : Layout) : Prop :=
  match l.operation with
  | .input => l.dst.isRegister = true
  | .xchg => l.dst.IsPlain ∧ l.src.isRegister = true
  | .loadFar s => l.dst.isRegister = true ∧ Exec.MayLoad wide s
  | .loop _ => l.dst.isRelative = true
  | .mov | .pop => l.dst.Loads wide
  | .push => True
  | .clts | .lmsw | .loadTable _ | .loadSelector _ => l.dst.IsPlain ∧ wide = true
  | _ => l.dst.IsPlain

theorem OperandForm.isPlain_of_isRegister {form : OperandForm} (h : form.isRegister = true) :
    form.IsPlain := by
  cases form with
  | fixed _ => cases h
  | _ => exact trivial

theorem OperandForm.isPlain_of_isRelative {form : OperandForm} (h : form.isRelative = true) :
    form.IsPlain := by
  cases form with
  | fixed _ => cases h
  | _ => exact trivial

namespace Layout.Serves

variable {wide : Bool} {l : Layout}

theorem isPlain (h : l.Serves wide) (hop : l.operation.takesSelector = false) :
    l.dst.IsPlain := by
  rw [Layout.Serves] at h
  split at h
  case h_1 => exact OperandForm.isPlain_of_isRegister h
  case h_2 => exact h.1
  case h_3 => exact OperandForm.isPlain_of_isRegister h.1
  case h_4 => exact OperandForm.isPlain_of_isRelative h
  case h_5 heq | h_6 heq | h_7 heq =>
    rw [heq] at hop
    cases hop
  case h_8 | h_9 | h_10 | h_11 => exact h.1
  case h_12 => exact h

theorem loads (h : l.Serves wide) (hop : l.operation ≠ .push) : l.dst.Loads wide := by
  have hPlain (hTakes : l.operation.takesSelector = false) : l.dst.Loads wide := by
    have hDst := h.isPlain hTakes
    cases hForm : l.dst with
    | fixed o =>
      rw [hForm] at hDst
      cases o with
      | reg r =>
        cases r with
        | seg s => exact hDst.elim
        | _ => exact trivial
      | _ => exact trivial
    | _ => exact trivial
  cases hl : l.operation with
  | mov | pop => simpa only [Layout.Serves, hl] using h
  | push => exact absurd hl hop
  | _ => exact hPlain (by rw [hl]; rfl)

theorem system (h : l.Serves wide) (hop : l.operation.isSystem = true) : wide = true := by
  cases hl : l.operation with
  | clts | lmsw | loadTable _ | loadSelector _ =>
    simp only [Layout.Serves, hl] at h
    exact h.2
  | _ =>
    rw [hl] at hop
    cases hop

end Layout.Serves

/-- What the handlers count on, as the tables provide it. -/
def Layout.Sound (wide : Bool) (l : Layout) : Prop := l.Fits wide ∧ l.Serves wide

/-- The selected layout, if there is one, is sound. -/
def Selection.Sound (wide : Bool) : Selection → Prop
  | .layout l => l.Sound wide
  | .undefined | .undefinedAfter _ => True

/-- All layouts of an entry are sound, and the escape is left to models that have the second page. -/
def Entry.Sound (wide : Bool) : Entry → Prop
  | .plain l => l.Sound wide
  | .fields select => ∀ reg, (select reg).Sound wide
  | .secondPage => wide = true
  | .undefined => True

namespace Selection

variable {wide : Bool}

@[simp] theorem sound_layout (l : Layout) : (layout l).Sound wide ↔ l.Sound wide := Iff.rfl

@[simp] theorem sound_undefined : undefined.Sound wide := trivial

@[simp] theorem sound_undefinedAfter (form : OperandForm) :
    (undefinedAfter form).Sound wide := trivial

end Selection

namespace Entry

variable {wide : Bool}

@[simp] theorem sound_plain (l : Layout) : (plain l).Sound wide ↔ l.Sound wide := Iff.rfl

@[simp] theorem sound_fields (select : UInt8 → Selection) :
    (fields select).Sound wide ↔ ∀ reg, (select reg).Sound wide := Iff.rfl

@[simp] theorem sound_secondPage : secondPage.Sound wide ↔ wide = true := Iff.rfl

@[simp] theorem sound_undefined : undefined.Sound wide := trivial

@[simp] theorem sound_simple (operation : Operation) (size : Size) :
    (simple operation size).Sound wide ↔ Layout.Sound wide { operation, size } := Iff.rfl

@[simp] theorem sound_always (l : Layout) : (always l).Sound wide ↔ l.Sound wide :=
  forall_const UInt8

@[simp] theorem sound_pair (operation : Operation) (size : Size) (dst src : OperandForm) :
    (pair operation size dst src).Sound wide ↔
      Layout.Sound wide { operation, size, dst, src } :=
  sound_always _

@[simp] theorem sound_string (op : StringOp) (size : Size) :
    (string op size).Sound wide ↔ size.Fits wide := by
  simp [string, Layout.Sound]

@[simp] theorem sound_pushSegment (s : SegReg) (size : Size) :
    (pushSegment s size).Sound wide ↔ size.Fits wide := by
  simp [pushSegment, Layout.Sound]

@[simp] theorem sound_popSegment (s : SegReg) (size : Size) :
    (popSegment s size).Sound wide ↔ size.Fits wide ∧ Exec.MayLoad wide s := by
  simp [popSegment, Layout.Sound]

theorem Sound.of_offers {e : Entry} (he : e.Sound wide) {l : Layout} (hl : e.Offers l) :
    l.Sound wide := by
  cases e with
  | plain l' =>
    cases hl
    exact he
  | fields select =>
    obtain ⟨reg, hReg⟩ := hl
    have := he reg
    rwa [hReg] at this
  | secondPage | undefined => exact hl.elim

end Entry

/-! ### The rows -/

namespace FirstPage

variable (m : Features) (b : UInt8)

theorem sound_arithmetic : (arithmetic m b).Sound m.wideRegisters := by
  unfold arithmetic
  repeat' split
  all_goals simp_all [Layout.Sound, OperandForm.accumulator]

theorem sound_register {operation : Operation}
    (hop : operation = .push ∨ operation = .pop ∨ ∃ op, operation = .unary op) :
    (register operation b).Sound m.wideRegisters := by
  rcases hop with rfl | rfl | ⟨op, rfl⟩ <;> simp [register, Layout.Sound]

theorem sound_row60 : (row60 m b).Sound m.wideRegisters := by
  unfold row60
  repeat' split
  all_goals simp [Layout.Sound]

theorem sound_row68 (wide : Bool) : (row68 b).Sound wide := by
  unfold row68
  split
  all_goals simp [Layout.Sound]

theorem sound_shortJump (wide : Bool) : (shortJump b).Sound wide := by
  simp [shortJump, Layout.Sound]

theorem sound_row80 (wide : Bool) : (row80 b).Sound wide := by
  unfold row80
  split
  all_goals simp [Layout.Sound, OperandForm.isRegister]

/-- Only the 80386 lets a move name one of the last two segment registers. -/
theorem fits_movedSegment {reg : UInt8} {s : SegReg} (h : movedSegment m reg = some s) :
    s.Fits m.wideRegisters := by
  rw [SegReg.Fits, or_imp]
  cases hw : m.wideRegisters with
  | true => exact ⟨fun _ => rfl, fun _ => rfl⟩
  | false =>
    have hLow : (reg &&& 3).toNat < 4 := by
      rw [UInt8.toNat_and]
      exact Nat.and_lt_two_pow reg.toNat (n := 2) (by decide)
    rw [movedSegment, hw, if_neg Bool.false_ne_true, SegReg.ofCode?] at h
    generalize (reg &&& 3).toNat = n at h hLow
    rcases n with _ | _ | _ | _ | n
    case succ.succ.succ.succ => omega
    all_goals cases h; simp

theorem sound_row88 : (row88 m b).Sound m.wideRegisters := by
  unfold row88
  split
  case h_5 =>
    intro reg
    dsimp only
    split <;> simp [Layout.Sound]
  case h_7 =>
    intro reg
    dsimp only
    split
    · rename_i s hs
      have hFits := fits_movedSegment m hs
      split <;> simp_all [Layout.Sound]
    · exact trivial
  case h_8 =>
    intro reg
    dsimp only
    split <;> simp [Layout.Sound]
  all_goals simp [Layout.Sound]

theorem sound_row90 (wide : Bool) : (row90 b).Sound wide := by
  unfold row90
  split <;> simp [Layout.Sound, OperandForm.accumulator, OperandForm.isRegister]

theorem sound_row98 (wide : Bool) : (row98 b).Sound wide := by
  unfold row98
  split <;> simp [Layout.Sound]

theorem sound_rowA0 (wide : Bool) : (rowA0 b).Sound wide := by
  unfold rowA0
  split <;> simp [Layout.Sound, OperandForm.accumulator]

theorem sound_rowA8 (wide : Bool) : (rowA8 b).Sound wide := by
  unfold rowA8
  split <;> simp [Layout.Sound, OperandForm.accumulator]

theorem sound_loadConstant {s : Size} (hs : s ≠ .dword) (wide : Bool) :
    (loadConstant s b).Sound wide := by
  simp [loadConstant, Layout.Sound, hs]

theorem sound_rowC0 (wide : Bool) : (rowC0 b).Sound wide := by
  unfold rowC0
  split
  all_goals try simp [Layout.Sound, shiftGroup, OperandForm.isRegister]
  intro reg
  split <;> simp [Layout.Sound]

theorem sound_rowC8 (wide : Bool) : (rowC8 b).Sound wide := by
  unfold rowC8
  split <;> simp [Layout.Sound]

theorem sound_rowD0 (wide : Bool) : (rowD0 b).Sound wide := by
  unfold rowD0
  split <;> simp [Layout.Sound, shiftGroup, OperandForm.countCl]

theorem sound_coprocessor (wide : Bool) : (coprocessor b).Sound wide := by
  simp [coprocessor, Layout.Sound]

theorem sound_rowE0 (wide : Bool) : (rowE0 b).Sound wide := by
  unfold rowE0
  split <;> simp [Layout.Sound, OperandForm.accumulator, OperandForm.isRegister,
    OperandForm.isRelative]

theorem sound_rowE8 (wide : Bool) : (rowE8 b).Sound wide := by
  unfold rowE8
  split <;> simp [Layout.Sound, OperandForm.accumulator, OperandForm.isRegister,
    OperandForm.portDx]

theorem sound_unaryGroup {s : Size} (hs : s ≠ .dword) (wide : Bool) (reg : UInt8) :
    (unaryGroup s reg).Sound wide := by
  unfold unaryGroup
  split <;> simp [Layout.Sound, hs]

theorem sound_rowF0 (wide : Bool) : (rowF0 b).Sound wide := by
  unfold rowF0
  split
  all_goals first
    | exact sound_unaryGroup (Size.ofOpcode_ne_dword b) wide
    | simp [Layout.Sound]

theorem sound_byteGroup (wide : Bool) (reg : UInt8) : (byteGroup reg).Sound wide := by
  unfold byteGroup
  split <;> simp [Layout.Sound]

theorem sound_fullGroup (wide : Bool) (reg : UInt8) : (fullGroup reg).Sound wide := by
  unfold fullGroup
  split <;> simp [Layout.Sound]

theorem sound_rowF8 (wide : Bool) : (rowF8 b).Sound wide := by
  unfold rowF8
  split
  all_goals first
    | exact sound_byteGroup wide
    | exact sound_fullGroup wide
    | simp [Layout.Sound]

theorem sound_row : (row m b).Sound m.wideRegisters := by
  unfold row
  split
  case h_1 | h_2 => exact sound_register m b (.inr (.inr ⟨_, rfl⟩))
  case h_3 => exact sound_register m b (.inl rfl)
  case h_4 => exact sound_register m b (.inr (.inl rfl))
  case h_5 => exact sound_row60 m b
  case h_6 => exact sound_row68 b _
  case h_7 | h_8 => exact sound_shortJump b _
  case h_9 => exact sound_row80 b _
  case h_10 => exact sound_row88 m b
  case h_11 => exact sound_row90 b _
  case h_12 => exact sound_row98 b _
  case h_13 => exact sound_rowA0 b _
  case h_14 => exact sound_rowA8 b _
  case h_15 => exact sound_loadConstant b (s := .byte) nofun _
  case h_16 => exact sound_loadConstant b (s := .full) nofun _
  case h_17 => exact sound_rowC0 b _
  case h_18 => exact sound_rowC8 b _
  case h_19 => exact sound_rowD0 b _
  case h_20 => exact sound_coprocessor b _
  case h_21 => exact sound_rowE0 b _
  case h_22 => exact sound_rowE8 b _
  case h_23 => exact sound_rowF0 b _
  case h_24 => exact sound_rowF8 b _
  case h_25 => exact sound_arithmetic m b

end FirstPage

namespace SecondPage

variable (b : UInt8)

theorem sound_selectorGroup (reg : UInt8) : (selectorGroup reg).Sound true := by
  unfold selectorGroup
  split <;> simp [Layout.Sound]

theorem sound_tableGroup (reg : UInt8) : (tableGroup reg).Sound true := by
  unfold tableGroup
  split <;> simp [Layout.Sound]

theorem sound_moveSpecial (reg : UInt8) : (moveSpecial b reg).Sound true := by
  unfold moveSpecial
  dsimp only
  split
  · exact trivial
  · rename_i special hSpecial
    have hKind : (∃ n, special = .control n) ∨ ∃ n, special = .debug n := by
      split at hSpecial
      · unfold control? at hSpecial
        split at hSpecial
        all_goals cases hSpecial
        all_goals exact .inl ⟨_, rfl⟩
      · cases hSpecial
        exact .inr ⟨_, rfl⟩
    rcases hKind with ⟨n, rfl⟩ | ⟨n, rfl⟩ <;> split <;> simp [Layout.Sound]

theorem sound_bitGroup (reg : UInt8) : (bitGroup reg).Sound true := by
  unfold bitGroup
  split <;> simp [Layout.Sound]

theorem sound_rowsA0 : (rowsA0 b).Sound true := by
  unfold rowsA0
  split
  case h_18 => exact sound_bitGroup
  all_goals simp [Layout.Sound, bitTest, doubleShift, loadFar, extend, OperandForm.countCl,
    OperandForm.isRegister]

theorem sound_entry : (entry b).Sound true := by
  unfold entry
  split
  · split
    · exact sound_selectorGroup
    · exact sound_tableGroup
    · simp [Layout.Sound]
    · exact trivial
  · split
    · exact sound_moveSpecial b
    · exact trivial
  · simp [nearJump, Layout.Sound]
  · simp [nearJump, Layout.Sound]
  · simp [setByte, Layout.Sound]
  · simp [setByte, Layout.Sound]
  · exact sound_rowsA0 b

end SecondPage

theorem sound_offered {m : Features} {l : Layout} (h : Offered m l) :
    l.Sound m.wideRegisters := by
  cases h with
  | first b h => exact (FirstPage.sound_row m _).of_offers h
  | second b b' hb h =>
    have hEscape := FirstPage.sound_row m (if m.extendedOpcodes then b else FirstPage.alias8086 b)
    rw [← FirstPage.entry, hb, Entry.sound_secondPage] at hEscape
    rw [hEscape]
    exact (SecondPage.sound_entry b').of_offers h

end X86