import X86.Proofs.Encoding.WellFormed

/-!
# Operands fit their handlers

Which operands a handler can work with depends on little: whether there is a general register, a
selector, memory, a constant. `Operation.accepts` says it for each operation, by the kinds of the
three operands. An encoded form yields operands of a few kinds only, so the opcode tables can be
checked against it row by row.

* `OperandForm.kinds`, `kind_of_answers`: the kinds that a form yields.
* `accepted_offered`: every layout that the tables of a model offer is accepted.
* `decode_accepted`: **the handler of a decoded instruction accepts its operands.**
-/

namespace X86

/-! ### Kinds -/

/-- What an operand is, as far as handlers tell operands apart. -/
inductive Operand.Kind where
  | absent
  /-- A general register of at most 16 bits. -/
  | general
  /-- A general register of 32 bits. -/
  | wide
  /-- A segment register. -/
  | selector
  /-- A control or debug register. -/
  | special
  | memory
  /-- A constant of one byte. -/
  | byte
  /-- Any other constant. -/
  | constant
  /-- A segment and an offset. -/
  | far
deriving DecidableEq, Repr

namespace Operand

/-- The kind of an operand. -/
def kind : Operand → Kind
  | .absent => .absent
  | .reg (.seg _) => .selector
  | .reg (.dword _) => .wide
  | .reg _ => .general
  | .control _ | .debug _ => .special
  | .mem .. => .memory
  | .imm8 _ => .byte
  | .signed8 _ | .imm16 _ | .imm32 _ => .constant
  | .far .. => .far

/-- Operands of this kind can be read. -/
def Kind.isSource : Kind → Bool
  | .general | .wide | .selector | .memory | .byte | .constant => true
  | _ => false

/-- Operands of this kind can be written. Selectors are loaded instead. -/
def Kind.isTarget : Kind → Bool
  | .general | .wide | .memory => true
  | _ => false

variable {o : Operand}

theorem kind_eq_absent : o.kind = .absent ↔ o = .absent := by
  cases o with
  | reg r => cases r <;> simp [kind]
  | _ => simp [kind]

theorem kind_eq_wide : o.kind = .wide ↔ ∃ r, o = .reg (.dword r) := by
  cases o with
  | reg r => cases r <;> simp [kind]
  | _ => simp [kind]

theorem kind_eq_selector : o.kind = .selector ↔ ∃ s, o = .reg (.seg s) := by
  cases o with
  | reg r => cases r <;> simp [kind]
  | _ => simp [kind]

theorem kind_eq_special : o.kind = .special ↔ (∃ n, o = .control n) ∨ ∃ n, o = .debug n := by
  cases o with
  | reg r => cases r <;> simp [kind]
  | _ => simp [kind]

theorem kind_eq_byte : o.kind = .byte ↔ ∃ v, o = .imm8 v := by
  cases o with
  | reg r => cases r <;> simp [kind]
  | _ => simp [kind]

theorem kind_eq_far : o.kind = .far ↔ ∃ segment offset, o = .far segment offset := by
  cases o with
  | reg r => cases r <;> simp [kind]
  | _ => simp [kind]

end Operand

open Operand (Kind)

/-- A copy between operands of these kinds. Control and debug registers take part in copies from
and to general registers only. -/
def Operand.Kind.moves : Kind → Kind → Bool
  | .special, src => src = .wide
  | dst, .special => dst = .wide
  | dst, src => (dst.isTarget || dst = .selector) && src.isSource

/-- The handler of the operation can work with operands of these kinds. -/
def Operation.accepts (operation : Operation) (dst src src2 : Kind) : Bool :=
  match operation with
  | .mov => dst.moves src
  | .binary _ | .shift _ | .bitTest _ | .bitScan _ | .movExtend _ | .input | .arpl =>
    dst.isTarget && src.isSource
  | .shiftLeftDouble | .shiftRightDouble => dst.isTarget && src.isSource && src2.isSource
  | .multiplyCut => dst.isTarget && src.isSource && (src2 = .absent || src2.isSource)
  | .unary _ | .setcc _ | .smsw | .storeSelector _ => dst.isTarget
  | .test | .output => dst.isSource && src.isSource
  | .multiply _ | .divide _ | .push | .jumpNear | .jcc _ | .loop _ | .callNear | .lmsw
  | .loadSelector _ => dst.isSource
  | .xchg => dst.isTarget && src.isTarget
  | .lea | .loadFar _ => dst.isTarget && src = .memory
  | .bound => dst.isSource && src = .memory
  | .pop => dst.isTarget || dst = .selector
  | .jumpFar | .callFar => dst = .far || dst = .memory
  | .loadTable _ | .storeTable _ => dst = .memory
  | .int | .aam | .aad => dst = .byte
  | .enter => dst = .constant && src = .byte
  | .returnNear | .returnFar => dst = .absent || dst = .constant
  | .invalid .. => false
  | .decimal _ | .extendAccumulator | .extendData | .xlat | .pusha | .popa | .pushf | .popf | .lahf
  | .sahf | .flag _ | .salc | .string _ | .leave | .int3 | .into | .iret | .hlt | .nop | .wait
  | .escape | .clts => true

/-- The handler of the instruction can work with its operands. -/
def Instruction.Accepted (i : Instruction) : Prop :=
  i.operation.accepts i.dst.kind i.src.kind i.src2.kind = true

/-! ### Operand forms -/

/-- The kinds of a register of the given size. -/
def Size.kinds : Size → List Kind
  | .byte | .word => [.general]
  | .dword => [.wide]
  | .full => [.general, .wide]

/-- The kinds of the operands that a form yields. -/
def OperandForm.kinds : OperandForm → List Kind
  | .absent => [.absent]
  | .fixed o => [o.kind]
  | .gpr _ s | .reg s | .rmReg s => s.kinds
  | .rm s => .memory :: s.kinds
  | .mem _ | .offset _ => [.memory]
  | .imm s => [if s = .byte then .byte else .constant]
  | .signed8 | .relative _ => [.constant]
  | .far => [.far]

section Forms

variable {p : Prefixes} {x : ModRM} {w : Width} {c : Code} {d d' : Decoder} {o : Operand}

theorem kind_memory (h : Encoding.memory p x w c d = .ok o d') : o.kind = .memory := by
  rw [Encoding.memory] at h
  split at h
  all_goals
    obtain ⟨a, d₁, -, h⟩ := Fetch.bind_eq_ok.1 h
    cases h
    rfl

theorem kind_ofCode (s : Size) (wide : Bool) (n : UInt8) :
    (Operand.reg (.ofCode (s.width wide) n)).kind ∈ s.kinds := by
  cases s <;> cases wide <;> simp [Size.width, Size.kinds, Register.ofCode, Operand.kind]

theorem kind_imm (s : Size) (wide : Bool) (v : UInt32) :
    (Operand.imm (s.width wide) v).kind = if s = .byte then .byte else .constant := by
  cases s <;> cases wide <;> rfl

/-- **A form yields operands of its kinds.** -/
theorem kind_of_answers {form : OperandForm} (ho : Fetch.Answers (Encoding.operand p x form) o) :
    o.kind ∈ form.kinds := by
  obtain ⟨c, d, d', h⟩ := ho
  cases form with
  | absent | fixed _ =>
    cases h
    exact List.mem_singleton_self _
  | gpr n s | reg s | rmReg s =>
    cases h
    exact kind_ofCode s _ _
  | rm s =>
    rw [Encoding.operand, Encoding.registerOrMemory] at h
    split at h
    · cases h
      exact List.mem_cons_of_mem _ (kind_ofCode s _ _)
    · rw [kind_memory h]
      exact List.mem_cons_self
  | mem s =>
    rw [Encoding.operand] at h
    split at h
    · cases h
    · rw [kind_memory h]
      exact List.mem_singleton_self _
  | imm s =>
    obtain ⟨v, d₁, -, h⟩ := Fetch.bind_eq_ok.1 h
    cases h
    rw [kind_imm]
    exact List.mem_singleton_self _
  | signed8 | offset s =>
    obtain ⟨v, d₁, -, h⟩ := Fetch.bind_eq_ok.1 h
    cases h
    exact List.mem_singleton_self _
  | relative s =>
    obtain ⟨disp, d₁, -, h⟩ := Fetch.bind_eq_ok.1 h
    obtain ⟨offset, d₂, -, h⟩ := Fetch.bind_eq_ok.1 h
    cases h
    cases p.op32 <;> exact List.mem_singleton_self _
  | far =>
    obtain ⟨offset, d₁, -, h⟩ := Fetch.bind_eq_ok.1 h
    obtain ⟨segment, d₂, -, h⟩ := Fetch.bind_eq_ok.1 h
    cases h
    exact List.mem_singleton_self _

end Forms

/-! ### Layouts -/

/-- The handler of the layout can work with whatever its forms yield. -/
def Layout.accepted (l : Layout) : Bool :=
  l.dst.kinds.all fun dst => l.src.kinds.all fun src => l.src2.kinds.all fun src2 =>
    l.operation.accepts dst src src2

theorem accepted_of_follows {l : Layout} (hl : l.accepted = true) {i : Instruction}
    {p : Prefixes} {x : ModRM} (h : i.Follows l p x) : i.Accepted := by
  have hDst := List.all_eq_true.1 hl _ (kind_of_answers h.dst)
  have hSrc := List.all_eq_true.1 hDst _ (kind_of_answers h.src)
  rw [Instruction.Accepted, h.operation]
  exact List.all_eq_true.1 hSrc _ (kind_of_answers h.src2)

/-- The selected layout, if there is one, is accepted. -/
def Selection.accepted : Selection → Bool
  | .layout l => l.accepted
  | .undefined | .undefinedAfter _ => true

namespace Entry

/-- What the entry stands for under a value of the register field. -/
def selection : Entry → UInt8 → Selection
  | .plain l, _ => .layout l
  | .fields select, reg => select reg
  | .secondPage, _ | .undefined, _ => .undefined

/-- All layouts of an entry are accepted. -/
def Accepted (e : Entry) : Prop := ∀ reg, (e.selection reg).accepted = true

theorem Accepted.of_offers {e : Entry} (he : e.Accepted) {l : Layout} (hl : e.Offers l) :
    l.accepted = true := by
  cases e with
  | plain l' =>
    cases hl
    exact he 0
  | fields select =>
    obtain ⟨reg, hReg⟩ := hl
    have hSelected := he reg
    rwa [selection, hReg] at hSelected
  | secondPage | undefined => exact hl.elim

end Entry

/-! ### The rows -/

/-- Bit 0 of an opcode chooses no other size. -/
theorem Size.ofOpcode_cases (b : UInt8) : ofOpcode b = .byte ∨ ofOpcode b = .full := by
  rw [ofOpcode]
  split
  · exact .inl rfl
  · exact .inr rfl

namespace FirstPage

variable (m : Features) (b : UInt8)

theorem accepted_arithmetic : (arithmetic m b).Accepted := by
  intro reg
  unfold arithmetic
  rcases Size.ofOpcode_cases b with hs | hs
  all_goals
    rw [hs]
    repeat' split
    all_goals rfl

theorem accepted_register {operation : Operation}
    (hop : operation = .push ∨ operation = .pop ∨ ∃ op, operation = .unary op) :
    (register operation b).Accepted := by
  rcases hop with rfl | rfl | ⟨op, rfl⟩ <;> exact fun _ => rfl

theorem accepted_row60 : (row60 m b).Accepted := by
  intro reg
  unfold row60
  repeat' split
  all_goals rfl

theorem accepted_row68 : (row68 b).Accepted := by
  intro reg
  unfold row68
  split <;> rfl

theorem accepted_row80 : (row80 b).Accepted := by
  intro reg
  unfold row80
  rcases Size.ofOpcode_cases b with hs | hs
  all_goals
    rw [hs]
    split <;> rfl

theorem accepted_row88 : (row88 m b).Accepted := by
  intro reg
  unfold row88
  rcases Size.ofOpcode_cases b with hs | hs
  all_goals
    rw [hs]
    split
    case h_5 | h_7 | h_8 =>
      simp only [Entry.selection]
      repeat' split
      all_goals rfl
    all_goals rfl

theorem accepted_row90 : (row90 b).Accepted := by
  intro reg
  unfold row90
  split <;> rfl

theorem accepted_row98 : (row98 b).Accepted := by
  intro reg
  unfold row98
  split <;> rfl

theorem accepted_rowA0 : (rowA0 b).Accepted := by
  intro reg
  unfold rowA0
  rcases Size.ofOpcode_cases b with hs | hs
  all_goals
    rw [hs]
    split <;> rfl

theorem accepted_rowA8 : (rowA8 b).Accepted := by
  intro reg
  unfold rowA8
  rcases Size.ofOpcode_cases b with hs | hs
  all_goals
    rw [hs]
    split <;> rfl

theorem accepted_rowC0 : (rowC0 b).Accepted := by
  intro reg
  unfold rowC0
  rcases Size.ofOpcode_cases b with hs | hs
  all_goals
    rw [hs]
    split
    case h_7 =>
      simp only [Entry.selection]
      split <;> rfl
    all_goals rfl

theorem accepted_rowC8 : (rowC8 b).Accepted := by
  intro reg
  unfold rowC8
  split <;> rfl

theorem accepted_rowD0 : (rowD0 b).Accepted := by
  intro reg
  unfold rowD0
  rcases Size.ofOpcode_cases b with hs | hs
  all_goals
    rw [hs]
    split <;> rfl

theorem accepted_rowE0 : (rowE0 b).Accepted := by
  intro reg
  unfold rowE0
  rcases Size.ofOpcode_cases b with hs | hs
  all_goals
    rw [hs]
    split <;> rfl

theorem accepted_rowE8 : (rowE8 b).Accepted := by
  intro reg
  unfold rowE8
  rcases Size.ofOpcode_cases b with hs | hs
  all_goals
    rw [hs]
    split <;> rfl

theorem accepted_unaryGroup {s : Size} (hs : s = .byte ∨ s = .full) (reg : UInt8) :
    (unaryGroup s reg).accepted = true := by
  unfold unaryGroup
  rcases hs with rfl | rfl <;> split <;> rfl

theorem accepted_rowF0 : (rowF0 b).Accepted := by
  intro reg
  unfold rowF0
  split
  case h_3 | h_4 => exact accepted_unaryGroup (Size.ofOpcode_cases b) reg
  all_goals rfl

theorem accepted_byteGroup (reg : UInt8) : (byteGroup reg).accepted = true := by
  unfold byteGroup
  split <;> rfl

theorem accepted_fullGroup (reg : UInt8) : (fullGroup reg).accepted = true := by
  unfold fullGroup
  split <;> rfl

theorem accepted_rowF8 : (rowF8 b).Accepted := by
  intro reg
  unfold rowF8
  split
  case h_7 => exact accepted_byteGroup reg
  case h_8 => exact accepted_fullGroup reg
  all_goals rfl

theorem accepted_row : (row m b).Accepted := by
  unfold row
  split
  case h_1 | h_2 => exact accepted_register b (.inr (.inr ⟨_, rfl⟩))
  case h_3 => exact accepted_register b (.inl rfl)
  case h_4 => exact accepted_register b (.inr (.inl rfl))
  case h_5 => exact accepted_row60 m b
  case h_6 => exact accepted_row68 b
  case h_9 => exact accepted_row80 b
  case h_10 => exact accepted_row88 m b
  case h_11 => exact accepted_row90 b
  case h_12 => exact accepted_row98 b
  case h_13 => exact accepted_rowA0 b
  case h_14 => exact accepted_rowA8 b
  case h_17 => exact accepted_rowC0 b
  case h_18 => exact accepted_rowC8 b
  case h_19 => exact accepted_rowD0 b
  case h_21 => exact accepted_rowE0 b
  case h_22 => exact accepted_rowE8 b
  case h_23 => exact accepted_rowF0 b
  case h_24 => exact accepted_rowF8 b
  case h_25 => exact accepted_arithmetic m b
  -- short jumps, constants and the coprocessor have one layout each
  case h_7 | h_8 | h_15 | h_16 | h_20 => exact fun _ => rfl

end FirstPage

namespace SecondPage

variable (b : UInt8)

theorem accepted_selectorGroup (reg : UInt8) : (selectorGroup reg).accepted = true := by
  unfold selectorGroup
  split <;> rfl

theorem accepted_tableGroup (reg : UInt8) : (tableGroup reg).accepted = true := by
  unfold tableGroup
  split <;> rfl

theorem accepted_moveSpecial (reg : UInt8) : (moveSpecial b reg).accepted = true := by
  unfold moveSpecial
  dsimp only
  split
  · rfl
  · rename_i special hSpecial
    have hKind : (∃ n, special = .control n) ∨ ∃ n, special = .debug n := by
      split at hSpecial
      · unfold control? at hSpecial
        split at hSpecial
        all_goals cases hSpecial
        all_goals exact .inl ⟨_, rfl⟩
      · cases hSpecial
        exact .inr ⟨_, rfl⟩
    rcases hKind with ⟨n, rfl⟩ | ⟨n, rfl⟩ <;> split <;> rfl

theorem accepted_bitGroup (reg : UInt8) : (bitGroup reg).accepted = true := by
  unfold bitGroup
  split <;> rfl

theorem accepted_rowsA0 : (rowsA0 b).Accepted := by
  intro reg
  unfold rowsA0
  split
  case h_18 => exact accepted_bitGroup reg
  all_goals rfl

theorem accepted_entry : (entry b).Accepted := by
  intro reg
  unfold entry
  split
  · split
    · exact accepted_selectorGroup reg
    · exact accepted_tableGroup reg
    · rfl
    · rfl
  · split
    · exact accepted_moveSpecial b reg
    · rfl
  iterate 4 rfl
  exact accepted_rowsA0 b reg

end SecondPage

theorem accepted_offered {m : Features} {l : Layout} (h : Offered m l) : l.accepted = true := by
  cases h with
  | first b h => exact (FirstPage.accepted_row m _).of_offers h
  | second b b' _ h => exact (SecondPage.accepted_entry b').of_offers h

/-- **The handler of a decoded instruction accepts its operands.** -/
theorem decode_accepted {m : Features} {c : Code} (hValid : (decode m c).isValid = true) :
    (decode m c).Accepted := by
  rcases decode_follows m c with h | ⟨p, n, i, l, x, -, hi, hl, hf, -⟩
  · obtain ⟨bytes, reason, hop⟩ := h.operation
    rw [Instruction.isValid, hop] at hValid
    cases hValid
  · have hAccepted := accepted_of_follows (accepted_offered hl) hf
    rw [hi]
    exact hAccepted

end X86
