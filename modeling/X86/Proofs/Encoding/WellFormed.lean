import X86.Proofs.Encoding.Tables

/-!
# Decoded instructions are well formed

A decoded instruction inherits from its layout what the handlers count on.

* `decode_wellFormed`: **what the decoder yields is well formed**, as the handlers that act twice
  need it.
* `decode_allowed`: **what the decoder yields is allowed on the model that it decodes for.**
* `isString_of_rep`: only string instructions repeat.
-/

namespace X86

/-! ### Operands -/

theorem reg_of_answers {p : Prefixes} {x : ModRM} {form : OperandForm}
    (hForm : form.isRegister = true) {o : Operand}
    (ho : Fetch.Answers (Encoding.operand p x form) o) : ∃ r, o = .reg r := by
  obtain ⟨c, n, n', h⟩ := ho
  cases form with
  | gpr | reg =>
    cases h
    exact ⟨_, rfl⟩
  | _ => cases hForm

theorem constant_of_answers {p : Prefixes} {x : ModRM} {form : OperandForm}
    (hForm : form.isRelative = true) {o : Operand}
    (ho : Fetch.Answers (Encoding.operand p x form) o) : Exec.IsConstant o := by
  obtain ⟨c, n, n', h⟩ := ho
  cases form with
  | relative s =>
    rw [Encoding.operand, Encoding.relativeTarget] at h
    obtain ⟨disp, d₁, -, h⟩ := Fetch.bind_eq_ok.1 h
    obtain ⟨offset, d₂, -, h⟩ := Fetch.bind_eq_ok.1 h
    cases h
    by_cases hp : p.op32 = true
    · rw [if_pos hp]
      exact ⟨_, fun _ _ => rfl⟩
    · rw [if_neg hp]
      exact ⟨_, fun _ _ => rfl⟩
  | _ => cases hForm

/-- The size of the registers that the form names. -/
def OperandForm.registerSize? : OperandForm → Option Size
  | .gpr _ s | .reg s | .rm s | .rmReg s => some s
  | _ => none

/-- The operand is a constant or in memory. -/
def Operand.IsUnnamed : Operand → Prop
  | .reg _ | .control _ | .debug _ => False
  | _ => True

theorem unnamed_memory {p : Prefixes} {x : ModRM} {w : Width} {c : Code}
    {d d' : Decoder} {o : Operand} (h : Encoding.memory p x w c d = .ok o d') : o.IsUnnamed := by
  rw [Encoding.memory] at h
  split at h
  all_goals
    obtain ⟨a, d₁, -, h⟩ := Fetch.bind_eq_ok.1 h
    cases h
    exact trivial

/-- A form names what the opcode fixes, a general register, or no register at all. -/
theorem answers_cases {p : Prefixes} {x : ModRM} {form : OperandForm} {o : Operand}
    (ho : Fetch.Answers (Encoding.operand p x form) o) :
    form = .fixed o ∨
      (∃ s n, form.registerSize? = some s ∧ o = .reg (.ofCode (s.width p.op32) n)) ∨
      o.IsUnnamed := by
  obtain ⟨c, n, n', h⟩ := ho
  cases form with
  | absent =>
    cases h
    exact .inr (.inr trivial)
  | fixed o' =>
    cases h
    exact .inl rfl
  | gpr k s | reg s | rmReg s =>
    cases h
    exact .inr (.inl ⟨s, _, rfl, rfl⟩)
  | rm s =>
    rw [Encoding.operand, Encoding.registerOrMemory] at h
    split at h
    · cases h
      exact .inr (.inl ⟨s, _, rfl, rfl⟩)
    · exact .inr (.inr (unnamed_memory h))
  | mem s =>
    rw [Encoding.operand] at h
    split at h
    · cases h
    · exact .inr (.inr (unnamed_memory h))
  | imm s =>
    obtain ⟨v, d₁, -, h⟩ := Fetch.bind_eq_ok.1 h
    cases h
    refine .inr (.inr ?_)
    cases s.width p.op32 <;> exact trivial
  | signed8 =>
    obtain ⟨v, d₁, -, h⟩ := Fetch.bind_eq_ok.1 h
    cases h
    exact .inr (.inr trivial)
  | relative s =>
    rw [Encoding.operand, Encoding.relativeTarget] at h
    obtain ⟨disp, d₁, -, h⟩ := Fetch.bind_eq_ok.1 h
    obtain ⟨offset, d₂, -, h⟩ := Fetch.bind_eq_ok.1 h
    cases h
    refine .inr (.inr ?_)
    split <;> exact trivial
  | far =>
    obtain ⟨offset, d₁, -, h⟩ := Fetch.bind_eq_ok.1 h
    obtain ⟨segment, d₂, -, h⟩ := Fetch.bind_eq_ok.1 h
    cases h
    exact .inr (.inr trivial)
  | offset s =>
    obtain ⟨offset, d₁, -, h⟩ := Fetch.bind_eq_ok.1 h
    cases h
    exact .inr (.inr trivial)

/-- A size that exists on a narrow model is no double word there. -/
theorem Size.Fits.width {wide op32 : Bool} {s : Size} (hs : s.Fits wide)
    (hp : wide = false → op32 = false) (hw : wide = false) : s.width op32 ≠ .dword := by
  rw [hp hw]
  cases s with
  | dword => exact absurd rfl (hs hw)
  | _ => nofun

theorem fits_of_answers {wide : Bool} {p : Prefixes} {x : ModRM} {form : OperandForm}
    (hForm : form.Fits wide) (hp : wide = false → p.op32 = false) {o : Operand}
    (ho : Fetch.Answers (Encoding.operand p x form) o) : o.Fits wide := by
  rcases answers_cases ho with rfl | ⟨s, n, hSize, rfl⟩ | hUnnamed
  · exact hForm
  · have hs : s.Fits wide := by
      cases form <;> cases hSize <;> exact hForm
    have hWidth := hs.width hp
    cases hw : s.width p.op32 with
    | dword => exact eq_true_of_ne_false fun h => hWidth h hw
    | _ => exact trivial
  · cases o with
    | reg _ | control _ | debug _ => exact hUnnamed.elim
    | _ => exact trivial

/-- Only a form that names a selector yields one. -/
theorem fixed_of_segment {p : Prefixes} {x : ModRM} {form : OperandForm} {s : SegReg}
    (ho : Fetch.Answers (Encoding.operand p x form) (.reg (.seg s))) :
    form = .fixed (.reg (.seg s)) := by
  rcases answers_cases ho with hForm | ⟨s', n, -, hReg⟩ | hUnnamed
  · exact hForm
  · cases hw : s'.width p.op32 <;> rw [hw] at hReg <;> cases hReg
  · exact hUnnamed.elim

theorem isPlain_of_answers {p : Prefixes} {x : ModRM} {form : OperandForm}
    (hForm : form.IsPlain) {o : Operand} (ho : Fetch.Answers (Encoding.operand p x form) o) :
    o.IsPlain := by
  rintro s rfl
  rw [fixed_of_segment ho] at hForm
  exact hForm

/-! ### Decoding -/

theorem wellFormed_of_follows {wide : Bool} {i : Instruction} {l : Layout} {p : Prefixes}
    {x : ModRM} (hl : l.Sound wide) (h : i.Follows l p x) : i.WellFormed := by
  have hServes := hl.2
  constructor
  · intro hop
    rw [Layout.Serves, ← h.operation, hop] at hServes
    exact reg_of_answers hServes h.dst
  · intro hop
    rw [Layout.Serves, ← h.operation, hop] at hServes
    exact reg_of_answers hServes.2 h.src
  · intro s hop
    rw [Layout.Serves, ← h.operation, hop] at hServes
    exact reg_of_answers hServes.1 h.dst
  · intro op hop
    rw [Layout.Serves, ← h.operation, hop] at hServes
    exact constant_of_answers hServes h.dst

/-- **What the decoder yields is well formed.** -/
theorem decode_wellFormed (m : Features) (c : Code) : (decode m c).WellFormed := by
  rcases decode_follows m c with h | ⟨p, n, i, l, x, -, hi, hl, hf, -⟩
  · obtain ⟨bytes, reason, hop⟩ := h.operation
    constructor <;> simp [hop]
  · have hWell := wellFormed_of_follows (sound_offered hl) hf
    rw [hi]
    exact ⟨hWell.input_dst, hWell.xchg_src, hWell.loadFar_dst, hWell.loop_dst⟩

theorem allowed_of_follows {wide : Bool} {i : Instruction} {l : Layout} {p : Prefixes}
    {x : ModRM} (hl : l.Sound wide) (h : i.Follows l p x)
    (hp : wide = false → p.op32 = false ∧ p.addr32 = false) (n : Nat) :
    (Encoding.complete p n i).Allowed wide := by
  obtain ⟨⟨hSize, hDst, hSrc, hSrc2⟩, hServes⟩ := hl
  have hOp := h.operation
  have hp32 (hw : wide = false) : p.op32 = false := (hp hw).1
  refine
    { size := fun hw => h.size ▸ hSize.width hp32 hw
      addr32 := fun hw => (hp hw).2
      dst := fits_of_answers hDst hp32 h.dst
      src := fits_of_answers hSrc hp32 h.src
      src2 := fits_of_answers hSrc2 hp32 h.src2
      plain := fun hPlain => isPlain_of_answers (hServes.isPlain (hOp ▸ hPlain)) h.dst
      xchg_src := ?_, loaded := ?_, loadFar := ?_
      system := fun hSystem => hServes.system (hOp ▸ hSystem) }
  · intro hop
    rw [Layout.Serves, ← hOp, show i.operation = .xchg from hop] at hServes
    exact isPlain_of_answers (OperandForm.isPlain_of_isRegister hServes.2) h.src
  · intro s hDst hop
    have hLoads := hServes.loads (hOp ▸ hop)
    have hAnswers := h.dst
    rw [show i.dst = .reg (.seg s) from hDst] at hAnswers
    rwa [fixed_of_segment hAnswers] at hLoads
  · intro s hop
    rw [Layout.Serves, ← hOp, show i.operation = .loadFar s from hop] at hServes
    exact hServes.2

theorem allowed_of_refuses {wide : Bool} {i : Instruction} (h : i.Refuses)
    (hAddr : wide = false → i.addr32 = false) : i.Allowed wide := by
  obtain ⟨bytes, reason, hop⟩ := h.operation
  have hAbsent : Operand.Fits wide .absent := trivial
  refine
    { size := fun _ => h.size ▸ nofun, addr32 := hAddr
      dst := h.dst ▸ hAbsent, src := h.src ▸ hAbsent, src2 := h.src2 ▸ hAbsent
      plain := fun _ => h.dst ▸ nofun
      xchg_src := ?_, loaded := ?_, loadFar := ?_, system := ?_ }
  all_goals simp [hop, h.dst, Operation.isSystem]

/-- **What the decoder yields is allowed on the model that it decodes for.** -/
theorem decode_allowed {m : Features} {c : Code} (hc : m.wideRegisters = false → c.wide = false) :
    (decode m c).Allowed m.wideRegisters := by
  rcases decode_follows m c with h | ⟨p, n, i, l, x, -, hi, hl, hf, hp⟩
  · exact allowed_of_refuses h fun hw => addr32_decode hw (hc hw)
  · rw [hi]
    refine allowed_of_follows (sound_offered hl) hf (fun hw => ?_) n
    rw [← hc hw]
    exact hp hw

/-- Only string instructions repeat. -/
theorem isString_of_rep {m : Features} {c : Code} (h : (decode m c).rep ≠ none) :
    (decode m c).operation.isString = true := by
  rcases decode_follows m c with hRefuses | ⟨p, n, i, l, x, -, hi, -, -, -⟩
  · exact absurd hRefuses.rep h
  · rw [hi] at h ⊢
    cases hop : i.operation with
    | string op => simp [Encoding.complete, hop, Operation.isString]
    | _ =>
      refine absurd ?_ h
      simp [Encoding.complete, Encoding.repeatMode, hop, Operation.isString,
        Operation.isStringCompare]

/-- No instruction changes anything that is not listed for it. -/
theorem changes_decoded (m : Features) (c : Code) :
    Exec.Changes (· ∈ (decode m c).changes) (Exec.perform (decode m c)) := by
  refine Exec.changes_perform (decode_wellFormed m c) (fun hRep => ?_) fun _ hk => hk
  have hString := isString_of_rep hRep
  cases hop : (decode m c).operation with
  | string op => simp [Instruction.changes, hop]
  | _ => simp [hop, Operation.isString] at hString

end X86
