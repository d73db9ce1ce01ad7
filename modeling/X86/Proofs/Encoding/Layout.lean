import X86.Encoding.Decode

/-!
# What decoding yields

A decoded instruction is an invalid one, or it follows a layout of the opcode tables: its operation
is the one of the layout, and each operand has been read in the form that the layout gives it.

* `Entry.Offers`, `Offered`: the layouts that an entry, or the two tables together, offer.
* `Instruction.Follows`: the instruction follows a layout under some prefixes.
* `decode_follows`: **decoding yields an invalid instruction or one that follows an offered
  layout**, under prefixes that exist on the model.
* `Encoding.decode_of_bare`: an opcode without operands is an instruction of one byte.
-/

namespace X86

/-- The entry can stand for the layout. -/
def Entry.Offers : Entry → Layout → Prop
  | .plain l', l => l = l'
  | .fields select, l => ∃ reg, select reg = .layout l
  | .secondPage, _ | .undefined, _ => False

/-- The opcode tables of a model offer the layout. -/
inductive Offered (m : Features) (l : Layout) : Prop where
  | first (b : UInt8) (h : (FirstPage.entry m b).Offers l)
  | second (b b' : UInt8) (hb : FirstPage.entry m b = .secondPage)
    (h : (SecondPage.entry b').Offers l)

/-! ### Fetches -/

namespace Fetch

variable {α β : Type} {x : Fetch α} {f : α → Fetch β} {c : Code} {d d' : Decoder}

theorem bind_eq_ok {b : β} :
    (x >>= f) c d = .ok b d' ↔ ∃ a d₁, x c d = .ok a d₁ ∧ f a c d₁ = .ok b d' := by
  change EStateM.bind (x c) (fun a => f a c) d = _ ↔ _
  rw [EStateM.bind]
  cases x c d with
  | ok a d₁ =>
    constructor
    · intro h
      exact ⟨a, d₁, rfl, h⟩
    · rintro ⟨_, _, hx, hf⟩
      cases hx
      exact hf
  | error r d₁ =>
    constructor
    · intro h
      cases h
    · rintro ⟨_, _, hx, _⟩
      cases hx

/-- `a` is an answer of the reader somewhere. -/
def Answers (x : Fetch α) (a : α) : Prop := ∃ c d d', x c d = .ok a d'

end Fetch

/-! ### Layouts -/

/-- The instruction has the operation of the layout, and operands in its forms. -/
structure Instruction.Follows (i : Instruction) (l : Layout) (p : Prefixes) (x : ModRM) : Prop where
  operation : i.operation = l.operation
  size : i.size = l.size.width p.op32
  dst : Fetch.Answers (Encoding.operand p x l.dst) i.dst
  src : Fetch.Answers (Encoding.operand p x l.src) i.src
  src2 : Fetch.Answers (Encoding.operand p x l.src2) i.src2

/-- Only models with wide registers have prefixes for the sizes, which otherwise are those of the
code segment. -/
def Prefixes.Fits (m : Features) (wide : Bool) (p : Prefixes) : Prop :=
  m.wideRegisters = false → p.op32 = wide ∧ p.addr32 = wide

theorem Prefixes.fits_next {m : Features} {wide : Bool} {p p' : Prefixes} {b : UInt8}
    (hp : p.Fits m wide) (h : p.next? m wide b = some p') : p'.Fits m wide := by
  intro hw
  obtain ⟨hOp, hAddr⟩ := hp hw
  unfold Prefixes.next? at h
  split at h
  all_goals try simp only [hw, Bool.false_eq_true, if_false] at h
  all_goals try split at h
  all_goals cases h
  all_goals exact ⟨hOp, hAddr⟩

namespace Encoding

theorem fits_prefixes {m : Features} {fuel : Nat} {p p' : Prefixes} {b : UInt8} {c : Code}
    {d d' : Decoder} (hp : p.Fits m c.wide) (h : prefixes m fuel p c d = .ok (p', b) d') :
    p'.Fits m c.wide := by
  induction fuel generalizing p d with
  | zero => cases h
  | succ fuel ih =>
    rw [prefixes] at h
    obtain ⟨b₁, d₁, -, h⟩ := Fetch.bind_eq_ok.1 h
    obtain ⟨c', d₂, hRead, h⟩ := Fetch.bind_eq_ok.1 h
    cases hRead
    cases hNext : p.next? m c.wide b₁ with
    | some p₁ =>
      rw [hNext] at h
      exact ih (Prefixes.fits_next hp hNext) h
    | none =>
      rw [hNext] at h
      cases h
      exact hp

theorem follows_instruction {p : Prefixes} {x : ModRM} {l : Layout} {c : Code} {d d' : Decoder}
    {i : Instruction} (h : instruction p x l c d = .ok i d') : i.Follows l p x := by
  rw [instruction] at h
  obtain ⟨dst, d₁, hDst, h⟩ := Fetch.bind_eq_ok.1 h
  obtain ⟨src, d₂, hSrc, h⟩ := Fetch.bind_eq_ok.1 h
  obtain ⟨src2, d₃, hSrc2, h⟩ := Fetch.bind_eq_ok.1 h
  cases h
  exact ⟨rfl, rfl, ⟨c, d, d₁, hDst⟩, ⟨c, d₁, d₂, hSrc⟩, ⟨c, d₂, d', hSrc2⟩⟩

theorem follows_entry {p : Prefixes} {e : Entry} {c : Code} {d d' : Decoder} {i : Instruction}
    (h : entry p e c d = .ok i d') : ∃ l x, e.Offers l ∧ i.Follows l p x := by
  cases e with
  | plain l => exact ⟨l, default, rfl, follows_instruction h⟩
  | fields select =>
    rw [entry] at h
    obtain ⟨b, d₁, -, h⟩ := Fetch.bind_eq_ok.1 h
    cases hSel : select (ModRM.ofByte b).reg with
    | layout l =>
      rw [hSel] at h
      exact ⟨l, _, ⟨_, hSel⟩, follows_instruction h⟩
    | undefined =>
      rw [hSel] at h
      cases h
    | undefinedAfter form =>
      rw [hSel] at h
      obtain ⟨_, d₂, -, h⟩ := Fetch.bind_eq_ok.1 h
      cases h
  | secondPage | undefined => cases h

theorem follows_body {m : Features} {p : Prefixes} {b : UInt8} {c : Code}
    {d d' : Decoder} {i : Instruction} (h : body m p b c d = .ok i d') :
    ∃ l x, Offered m l ∧ i.Follows l p x := by
  rw [body] at h
  cases hb : FirstPage.entry m b with
  | secondPage =>
    rw [hb] at h
    obtain ⟨b', d₁, -, h⟩ := Fetch.bind_eq_ok.1 h
    obtain ⟨l, x, hl, hi⟩ := follows_entry h
    exact ⟨l, x, .second b b' hb hl, hi⟩
  | plain _ | fields _ | undefined =>
    rw [hb] at h
    obtain ⟨l, x, hl, hi⟩ := follows_entry h
    exact ⟨l, x, .first b (hb ▸ hl), hi⟩

end Encoding

/-- The instruction stands for bytes that are none. It has no operands and does not repeat. -/
structure Instruction.Refuses (i : Instruction) : Prop where
  operation : ∃ bytes reason, i.operation = .invalid bytes reason
  size : i.size = .word
  dst : i.dst = .absent
  src : i.src = .absent
  src2 : i.src2 = .absent
  rep : i.rep = none

namespace Encoding

theorem refuses_invalid (d : Decoder) (reason : Refusal) :
    (invalid d reason).Refuses := ⟨⟨_, reason, rfl⟩, rfl, rfl, rfl, rfl, rfl⟩

theorem refuses_complete {i : Instruction} (hi : i.Refuses) (p : Prefixes) (n : Nat) :
    (complete p n i).Refuses := by
  obtain ⟨bytes, reason, hop⟩ := hi.operation
  refine ⟨⟨bytes, reason, hop⟩, hi.size, hi.dst, hi.src, hi.src2, ?_⟩
  rw [complete, hop]
  rfl

end Encoding

/-- **Decoding yields an invalid instruction or one that follows an offered layout.** -/
theorem decode_follows (m : Features) (c : Code) :
    (decode m c).Refuses ∨
      ∃ p n i l x, n ≤ maxLength ∧ decode m c = Encoding.complete p n i ∧ Offered m l ∧
        i.Follows l p x ∧ p.Fits m c.wide := by
  rw [decode, Decoder.decode]
  split
  · rename_i p b d hPrefixes
    rw [Encoding.afterPrefixes]
    cases hBody : Encoding.body m p b c d with
    | ok i d' =>
      by_cases hLong : d'.length > maxLength
      · refine .inl ?_
        simp only [ReaderT.run, EStateM.run, hBody, hLong, if_true]
        exact Encoding.refuses_complete (Encoding.refuses_invalid ..) p _
      · obtain ⟨l, x, hl, hi⟩ := Encoding.follows_body hBody
        have hp := Encoding.fits_prefixes (fun _ => ⟨rfl, rfl⟩) hPrefixes
        refine .inr ⟨p, d'.length, i, l, x, Nat.le_of_not_gt hLong, ?_, hl, hi, hp⟩
        simp only [ReaderT.run, EStateM.run, hBody, hLong, if_false]
    | error reason d' =>
      refine .inl ?_
      simp only [ReaderT.run, EStateM.run, hBody]
      refine Encoding.refuses_complete ?_ p _
      split <;> exact Encoding.refuses_invalid ..
  · exact .inl (Encoding.refuses_invalid ..)

/-- A model without wide registers computes addresses of 16 bits. -/
theorem addr32_decode {m : Features} {c : Code} (hw : m.wideRegisters = false)
    (hc : c.wide = false) : (decode m c).addr32 = false := by
  rw [decode, Decoder.decode]
  split
  · rename_i p b d hPrefixes
    have hp := Encoding.fits_prefixes (fun _ => ⟨rfl, rfl⟩) hPrefixes
    exact (hp hw).2.trans hc
  · rfl

/-! ### Opcodes without operands -/

namespace Encoding

theorem repeatMode_none (operation : Operation) : repeatMode operation none = none := by
  rw [repeatMode]
  split
  · rfl
  · split <;> rfl

/-- An opcode without prefixes that stands for one layout is followed by its operands. -/
theorem decode_of_plain {m : Features} {c : Code} {l : Layout} {i : Instruction} {d : Decoder}
    (hPrefix : Prefixes.next? m c.wide { op32 := c.wide, addr32 := c.wide } (c.byteAt 0) = none)
    (hEntry : FirstPage.entry m (c.byteAt 0) = .plain l)
    (hBody : instruction { op32 := c.wide, addr32 := c.wide } default l c
      (({} : Decoder).push (c.byteAt 0)) = .ok i d)
    (hLength : d.length ≤ maxLength) :
    decode m c = complete { op32 := c.wide, addr32 := c.wide } d.length i := by
  have hPrefixes : prefixes m maxLength { op32 := c.wide, addr32 := c.wide } c {} =
      .ok ({ op32 := c.wide, addr32 := c.wide }, c.byteAt 0)
        (({} : Decoder).push (c.byteAt 0)) := by
    refine Fetch.bind_eq_ok.2 ⟨c.byteAt 0, _, rfl, Fetch.bind_eq_ok.2 ⟨c, _, rfl, ?_⟩⟩
    rw [hPrefix]
    rfl
  have hOperands : body m { op32 := c.wide, addr32 := c.wide } (c.byteAt 0) c
      (({} : Decoder).push (c.byteAt 0)) = .ok i d := by
    rw [body, hEntry]
    exact hBody
  rw [decode, Decoder.decode]
  simp only [ReaderT.run, EStateM.run, hPrefixes]
  rw [afterPrefixes]
  simp only [ReaderT.run, EStateM.run, hOperands, if_neg (Nat.not_lt.2 hLength)]

/-- An opcode without operands and prefixes is an instruction of one byte. -/
theorem decode_of_bare {m : Features} {c : Code} (operation : Operation) (size : Size)
    (hPrefix : Prefixes.next? m c.wide { op32 := c.wide, addr32 := c.wide } (c.byteAt 0) = none)
    (hEntry : FirstPage.entry m (c.byteAt 0) = .plain { operation, size }) :
    decode m c = { operation, size := size.width c.wide, length := 1, addr32 := c.wide } := by
  have hBody : instruction { op32 := c.wide, addr32 := c.wide } default { operation, size } c
      (({} : Decoder).push (c.byteAt 0)) =
        .ok { operation, size := size.width c.wide } (({} : Decoder).push (c.byteAt 0)) := rfl
  rw [decode_of_plain hPrefix hEntry hBody (show 1 ≤ maxLength by decide), complete,
    repeatMode_none]
  rfl

end Encoding

end X86
