import X86.Proofs.Encoding.Locality

/-!
# Three generations of one decoder

The models read prefixes and opcodes by tables that differ in a few rows, so code decodes alike on
two of them as long as it stays away from those rows.

* `Features.isPrefix`, `Code.OpcodeAt`: where the prefixes of an instruction end.
* `Decoder.decode_congr`: models that know the same prefixes, and read the same from the opcode on,
  decode alike.
* `FirstPage.row_eq_of_ne`, `row_eq_of_wide`: the rows in which two models differ.
* `decode_generations`: **the models are upward compatible**, apart from the opcodes that a later
  model reads in its own way.
-/

namespace X86

/-! ### Prefixes -/

/-- The byte is a prefix on this model. -/
def Features.isPrefix (m : Features) (b : UInt8) : Bool :=
  match b.toNat with
  | 0x26 | 0x2E | 0x36 | 0x3E | 0xF0 | 0xF2 | 0xF3 => true
  | 0x64 | 0x65 | 0x66 | 0x67 => m.wideRegisters
  | 0xF1 => !m.extendedOpcodes
  | _ => false

namespace Prefixes

variable {m m' : Features} {b : UInt8}

theorem isSome_next (p : Prefixes) (wide : Bool) : (p.next? m wide b).isSome = m.isPrefix b := by
  unfold next? Features.isPrefix
  split <;> split <;> simp_all

theorem next_eq_none (p : Prefixes) (wide : Bool) (h : m.isPrefix b = false) :
    p.next? m wide b = none := by
  rwa [← p.isSome_next wide, Option.isSome_eq_false_iff, Option.isNone_iff_eq_none] at h

theorem next_eq_some (p : Prefixes) (wide : Bool) (h : m.isPrefix b = true) :
    ∃ p', p.next? m wide b = some p' := by
  rwa [← p.isSome_next wide, Option.isSome_iff_exists] at h

/-- A prefix means the same on every model that has it. -/
theorem next_congr (p : Prefixes) (wide : Bool) (h : m'.isPrefix b = m.isPrefix b) :
    p.next? m' wide b = p.next? m wide b := by
  cases hm : m.isPrefix b with
  | false => rw [next_eq_none p wide hm, next_eq_none p wide (h.trans hm)]
  | true =>
    have hm' := h.trans hm
    unfold Features.isPrefix at hm hm'
    unfold next?
    split <;> simp_all

end Prefixes

/-! ### The opcode -/

namespace Code

variable {c : Code} {m : Features} {k k' : Nat}

/-- An instruction can have a byte here: all bytes before it are prefixes. -/
def Reached (c : Code) (m : Features) (k : Nat) : Prop :=
  k < maxLength ∧ ∀ i < k, m.isPrefix (c.byteAt i) = true

/-- The opcode of the instruction is here. -/
def OpcodeAt (c : Code) (m : Features) (k : Nat) : Prop :=
  c.Reached m k ∧ m.isPrefix (c.byteAt k) = false

instance : Decidable (c.Reached m k) := inferInstanceAs (Decidable (_ ∧ _))

instance : Decidable (c.OpcodeAt m k) := inferInstanceAs (Decidable (_ ∧ _))

/-- Nothing is reached behind the opcode. -/
theorem OpcodeAt.le (h : c.OpcodeAt m k) (h' : c.Reached m k') : k' ≤ k := by
  refine Nat.le_of_not_gt fun hlt => ?_
  have hPrefix := h'.2 k hlt
  rw [h.2] at hPrefix
  cases hPrefix

theorem OpcodeAt.unique (h : c.OpcodeAt m k) (h' : c.OpcodeAt m k') : k = k' :=
  Nat.le_antisymm (h'.le h.1) (h.le h'.1)

end Code

namespace Encoding

variable {m m' : Features} {fuel : Nat} {p p' : Prefixes} {b : UInt8} {c c' : Code}
  {d d' d₁ : Decoder}

theorem prefixes_of_some (h : p.next? m c.wide (c.byteAt d.length) = some p') :
    prefixes m (fuel + 1) p c d = prefixes m fuel p' c (d.push (c.byteAt d.length)) := by
  rw [prefixes, Fetch.bind_of_ok (x := Fetch.byte) rfl, Fetch.bind_of_ok (x := read) rfl, h]

theorem prefixes_of_none (h : p.next? m c.wide (c.byteAt d.length) = none) :
    prefixes m (fuel + 1) p c d = .ok (p, c.byteAt d.length) (d.push (c.byteAt d.length)) := by
  rw [prefixes, Fetch.bind_of_ok (x := Fetch.byte) rfl, Fetch.bind_of_ok (x := read) rfl, h]
  rfl

/-- The opcode is the last byte that was read, and the bytes before it are prefixes. -/
theorem prefixes_eq_ok (h : prefixes m fuel p c d = .ok (p', b) d₁) :
    ∃ k, d₁.length = k + 1 ∧ k < d.length + fuel ∧ c.byteAt k = b ∧ m.isPrefix b = false ∧
      ∀ i, d.length ≤ i → i < k → m.isPrefix (c.byteAt i) = true := by
  induction fuel generalizing p d with
  | zero => cases h
  | succ fuel ih =>
    cases hPrefix : m.isPrefix (c.byteAt d.length) with
    | false =>
      rw [prefixes_of_none (Prefixes.next_eq_none p c.wide hPrefix)] at h
      cases h
      exact ⟨d.length, rfl, by omega, rfl, hPrefix, fun i hi hi' => absurd hi (by omega)⟩
    | true =>
      obtain ⟨p₁, hNext⟩ := Prefixes.next_eq_some p c.wide hPrefix
      rw [prefixes_of_some hNext] at h
      obtain ⟨k, hLength, hk, hByte, hEnd, hAll⟩ := ih h
      rw [Decoder.length_push] at hk hAll
      refine ⟨k, hLength, by omega, hByte, hEnd, fun i hi hi' => ?_⟩
      rcases Nat.eq_or_lt_of_le hi with rfl | hi
      · exact hPrefix
      · exact hAll i hi hi'

/-- Models that take the same bytes for prefixes read the same ones. -/
theorem prefixes_congr
    (h : ∀ i, d.length ≤ i → i < d.length + fuel →
      (∀ j, d.length ≤ j → j < i → m.isPrefix (c.byteAt j) = true) →
      m'.isPrefix (c.byteAt i) = m.isPrefix (c.byteAt i)) :
    prefixes m' fuel p c d = prefixes m fuel p c d := by
  induction fuel generalizing p d with
  | zero => rfl
  | succ fuel ih =>
    have hHere := h d.length (Nat.le_refl _) (by omega) fun j hj hj' => absurd hj (by omega)
    have hNext := Prefixes.next_congr p c.wide hHere
    cases hPrefix : m.isPrefix (c.byteAt d.length) with
    | false =>
      have hNone := Prefixes.next_eq_none p c.wide hPrefix
      rw [prefixes_of_none hNone, prefixes_of_none (hNext.trans hNone)]
    | true =>
      obtain ⟨p₁, hSome⟩ := Prefixes.next_eq_some p c.wide hPrefix
      rw [prefixes_of_some hSome, prefixes_of_some (hNext.trans hSome)]
      refine ih fun i hi hi' hAll => ?_
      rw [Decoder.length_push] at hi hi' hAll
      refine h i (by omega) (by omega) fun j hj hj' => ?_
      rcases Nat.eq_or_lt_of_le hj with rfl | hj
      · exact hPrefix
      · exact hAll j hj hj'

/-- Other prefixes with the same meaning, before an opcode of its own. -/
theorem prefixes_respelled {k : Nat} (h : prefixes m fuel p c d = .ok (p', b) d₁)
    (hLast : d₁.length = k + 1) (hLength : d'.length = d.length)
    (hSame : ∀ i, d.length ≤ i → i < k → ∀ p : Prefixes,
      p.next? m' c'.wide (c'.byteAt i) = p.next? m c.wide (c.byteAt i))
    (hEnd : m'.isPrefix (c'.byteAt k) = false) :
    ∃ d₂, prefixes m' fuel p c' d' = .ok (p', c'.byteAt k) d₂ ∧ d₂.length = k + 1 := by
  induction fuel generalizing p d d' with
  | zero => cases h
  | succ fuel ih =>
    cases hPrefix : m.isPrefix (c.byteAt d.length) with
    | false =>
      rw [prefixes_of_none (Prefixes.next_eq_none p c.wide hPrefix)] at h
      cases h
      obtain rfl : k = d'.length := hLength ▸ (Nat.succ.inj hLast).symm
      exact ⟨_, prefixes_of_none (Prefixes.next_eq_none _ c'.wide hEnd), rfl⟩
    | true =>
      obtain ⟨p₁, hNext⟩ := Prefixes.next_eq_some p c.wide hPrefix
      rw [prefixes_of_some hNext] at h
      have hLt : d.length < k := by
        obtain ⟨k', hk, -, -, -⟩ := prefixes_eq_ok h
        have hPos := lt_stop_prefixes m fuel p₁ c (d.push (c.byteAt d.length))
        rw [Fetch.stop_of_ok h, Decoder.length_push] at hPos
        omega
      have hNext' := (hSame d.length (Nat.le_refl _) hLt p).trans hNext
      rw [← hLength] at hNext'
      rw [prefixes_of_some hNext']
      refine ih h (congrArg (· + 1) hLength) fun i hi hi' => ?_
      exact hSame i (Nat.le_of_succ_le hi) hi'

theorem afterPrefixes_congr (h : body m' p b c d = body m p b c d) :
    afterPrefixes m' c p b d = afterPrefixes m c p b d := by
  cases hRun : body m p b c d with
  | ok i d₁ => rw [afterPrefixes_of_ok hRun, afterPrefixes_of_ok (h.trans hRun)]
  | error reason d₁ => rw [afterPrefixes_of_error hRun, afterPrefixes_of_error (h.trans hRun)]

/-- A valid instruction does not depend on the bytes before its opcode. -/
theorem afterPrefixes_of_valid {b' : UInt8} (hBody : body m' p b' = body m p b)
    (hLength : d'.length = d.length)
    (hAgree : c.AgreesOn c' d.length (afterPrefixes m c p b d).2.length)
    (hValid : (afterPrefixes m c p b d).1.isValid = true) :
    (afterPrefixes m' c' p b' d').1 = (afterPrefixes m c p b d).1 := by
  rw [snd_afterPrefixes] at hAgree
  have hMatch : d.Matches d.length d' := ⟨hLength, fun i hi hi' => absurd hi (by omega)⟩
  have hSame := (local_body m p b).same hMatch hAgree
  generalize hRun : body m p b c d = r, hRun' : body m p b c' d' = r' at hSame
  rw [← hBody] at hRun'
  cases hSame with
  | ok i hLast =>
    rw [afterPrefixes_of_ok hRun] at hValid
    rw [afterPrefixes_of_ok hRun, afterPrefixes_of_ok hRun', hLast.length_eq]
    split
    · rename_i hLong
      rw [if_pos hLong] at hValid
      cases hValid
    · rfl
  | error reason hLast =>
    rw [afterPrefixes_of_error hRun] at hValid
    cases hValid

end Encoding

namespace Decoder

variable {m m' : Features} {c c' : Code} {d d' d₁ : Decoder} {p : Prefixes} {b : UInt8}

theorem opcodeAt_of_start (h : d.start m c = .ok (p, b) d₁) :
    ∃ k, c.OpcodeAt m k ∧ c.byteAt k = b ∧ d₁.length = k + 1 := by
  obtain ⟨k, hLength, hk, hByte, hEnd, hAll⟩ := Encoding.prefixes_eq_ok h
  refine ⟨k, ⟨⟨?_, fun i hi => hAll i (Nat.zero_le i) hi⟩, hByte ▸ hEnd⟩, hByte, hLength⟩
  exact (Nat.zero_add maxLength) ▸ hk

theorem start_congr
    (h : ∀ i, c.Reached m i → m'.isPrefix (c.byteAt i) = m.isPrefix (c.byteAt i)) :
    d.start m' c = d.start m c := by
  refine Encoding.prefixes_congr fun i _ hi hAll => h i ⟨?_, fun j hj => hAll j (Nat.zero_le j) hj⟩
  exact (Nat.zero_add maxLength) ▸ hi

/-- **Models that know the same prefixes and read the same from the opcode on decode alike.** -/
theorem decode_congr (hStart : d.start m' c = d.start m c)
    (hBody : ∀ p b d₁, d.start m c = .ok (p, b) d₁ →
      Encoding.body m' p b c d₁ = Encoding.body m p b c d₁) :
    d.decode m' c = d.decode m c := by
  cases h : d.start m c with
  | ok a d₁ =>
    rw [decode_of_ok h, decode_of_ok (hStart.trans h)]
    exact Encoding.afterPrefixes_congr (hBody a.1 a.2 d₁ h)
  | error reason d₁ => rw [decode_of_error h, decode_of_error (hStart.trans h)]

/-- A valid instruction has prefixes and an opcode. -/
theorem start_of_valid (h : (d.decode m c).1.isValid = true) :
    ∃ p b d₁, d.start m c = .ok (p, b) d₁ ∧
      (Encoding.afterPrefixes m c p b d₁).1.isValid = true := by
  cases hStart : d.start m c with
  | ok a d₁ =>
    rw [decode_of_ok hStart] at h
    exact ⟨a.1, a.2, d₁, rfl, h⟩
  | error reason d₁ =>
    rw [decode_of_error hStart] at h
    cases h

end Decoder

/-! ### Opcode rows -/

namespace FirstPage

variable {m m' : Features} {b : UInt8}

theorem ne_of_toNat {n : UInt8} (h : b ≠ n) : b.toNat ≠ n.toNat :=
  fun hNat => h (UInt8.toNat_inj.1 hNat)

theorem arithmetic_eq (h0F : b ≠ 0x0F) : arithmetic m' b = arithmetic m b := by
  have hNat := ne_of_toNat h0F
  unfold arithmetic
  split
  all_goals first | exact absurd ‹_› hNat | rfl

theorem row60_eq (hRow : b.toNat / 8 = 12) (h63 : b ≠ 0x63) : row60 m' b = row60 m b := by
  have hNat : b.toNat ≠ 99 := ne_of_toNat h63
  unfold row60
  split
  all_goals first | rfl | omega

theorem row88_eq (hRow : b.toNat / 8 = 17) (h8C : b ≠ 0x8C) (h8E : b ≠ 0x8E) :
    row88 m' b = row88 m b := by
  have hNat : b.toNat ≠ 140 := ne_of_toNat h8C
  have hNat' : b.toNat ≠ 142 := ne_of_toNat h8E
  unfold row88
  split
  all_goals first | rfl | omega

/-- Two models differ in at most four rows. -/
theorem row_eq_of_ne (h0F : b ≠ 0x0F) (h63 : b ≠ 0x63) (h8C : b ≠ 0x8C) (h8E : b ≠ 0x8E) :
    row m' b = row m b := by
  unfold row
  split
  all_goals first
    | rfl
    | exact row60_eq ‹_› h63
    | exact row88_eq ‹_› h8C h8E
    | exact arithmetic_eq h0F

/-- Models with registers of the same width differ in at most one row. -/
theorem row_eq_of_wide (h0F : b ≠ 0x0F) (hWide : m'.wideRegisters = m.wideRegisters) :
    row m' b = row m b := by
  have hArithmetic : arithmetic m' b = arithmetic m b := arithmetic_eq h0F
  unfold row row60 row88 movedSegment
  rw [hArithmetic, hWide]

end FirstPage

namespace Encoding

variable {m m' : Features} {p : Prefixes} {b b' : UInt8} {c : Code} {d d₁ : Decoder}

theorem body_congr (h : FirstPage.entry m' b' = FirstPage.entry m b) :
    body m' p b' = body m p b := by
  rw [body, body, h]

theorem body_of_undefined (h : FirstPage.entry m b = .undefined) :
    body m p b c d = .error .opcode d := by
  rw [body, h]
  rfl

theorem body_of_fields {select : UInt8 → Selection} (h : FirstPage.entry m b = .fields select) :
    body m p b = entry p (.fields select) := by
  rw [body, h]

/-- Only the entry for the register field that is read matters. -/
theorem entry_congr {select select' : UInt8 → Selection}
    (h : select' (ModRM.ofByte (c.byteAt d.length)).reg =
      select (ModRM.ofByte (c.byteAt d.length)).reg) :
    entry p (.fields select') c d = entry p (.fields select) c d := by
  rw [entry, entry, Fetch.bind_of_ok (x := Fetch.byte) rfl,
    Fetch.bind_of_ok (x := Fetch.byte) rfl, h]

theorem body_of_valid (h : (afterPrefixes m c p b d).1.isValid = true) :
    FirstPage.entry m b ≠ .undefined := by
  intro hEntry
  rw [afterPrefixes_of_error (body_of_undefined hEntry)] at h
  cases h

end Encoding

/-! ### The models -/

/-- A move to or from a segment register that the 80186 does not have, or a move to the code
segment. -/
def MovesLaterSegment (opcode operands : UInt8) : Prop :=
  ((opcode = 0x8C ∨ opcode = 0x8E) ∧ 4 ≤ (ModRM.ofByte operands).reg) ∨
    (opcode = 0x8E ∧ (ModRM.ofByte operands).reg = 1)

/-- The 8086 takes the opcode for another one. -/
def IsAliased (b : UInt8) : Prop :=
  (0x60 ≤ b ∧ b ≤ 0x6F) ∨ b = 0xC0 ∨ b = 0xC1 ∨ b = 0xC8 ∨ b = 0xC9

instance (b b' : UInt8) : Decidable (MovesLaterSegment b b') := inferInstanceAs (Decidable (_ ∨ _))

instance (b : UInt8) : Decidable (IsAliased b) := inferInstanceAs (Decidable (_ ∨ _))

theorem of_bytes {P : UInt8 → Prop} (h : ∀ n < 256, P (.ofNat n)) (b : UInt8) : P b :=
  UInt8.ofNat_toNat (x := b) ▸ h b.toNat b.toNat_lt

theorem lt_four : ∀ n : UInt8, ¬ 4 ≤ n → n = 0 ∨ n = 1 ∨ n = 2 ∨ n = 3 :=
  of_bytes (by decide +kernel)

/-- What the 80186 defines, the 80386 reads in the same way. -/
theorem Encoding.body_i80386 {p : Prefixes} {b : UInt8} {c : Code} {d : Decoder}
    (hDefined : FirstPage.entry Model.i80186.features b ≠ .undefined)
    (hMove : ¬ MovesLaterSegment b (c.byteAt d.length)) :
    body Model.i80386.features p b c d = body Model.i80186.features p b c d := by
  have hReg (h : b = 0x8C ∨ b = 0x8E) := lt_four _ fun hLater => hMove (.inl ⟨h, hLater⟩)
  by_cases h8C : b = 0x8C
  · subst h8C
    rw [body_of_fields (m := Model.i80386.features) rfl,
      body_of_fields (m := Model.i80186.features) rfl]
    refine entry_congr ?_
    rcases hReg (.inl rfl) with h | h | h | h <;> rw [h] <;> rfl
  by_cases h8E : b = 0x8E
  · subst h8E
    rw [body_of_fields (m := Model.i80386.features) rfl,
      body_of_fields (m := Model.i80186.features) rfl]
    refine entry_congr ?_
    rcases hReg (.inr rfl) with h | h | h | h
    · rw [h]; rfl
    · exact absurd (.inr ⟨rfl, h⟩) hMove
    · rw [h]; rfl
    · rw [h]; rfl
  have h0F : b ≠ 0x0F := fun h => hDefined (h ▸ rfl)
  have h63 : b ≠ 0x63 := fun h => hDefined (h ▸ rfl)
  have hEntry : FirstPage.entry Model.i80386.features b = FirstPage.entry Model.i80186.features b :=
    FirstPage.row_eq_of_ne h0F h63 h8C h8E
  rw [body_congr hEntry]

theorem isPrefix_i80386 {b : UInt8}
    (hDefined : FirstPage.entry Model.i80186.features b ≠ .undefined) :
    Model.i80386.features.isPrefix b = Model.i80186.features.isPrefix b := by
  have hNe {n : UInt8} (hn : FirstPage.entry Model.i80186.features n = .undefined) :
      b.toNat ≠ n.toNat := FirstPage.ne_of_toNat fun h => hDefined (h ▸ hn)
  have h64 := hNe (n := 0x64) rfl
  have h65 := hNe (n := 0x65) rfl
  have h66 := hNe (n := 0x66) rfl
  have h67 := hNe (n := 0x67) rfl
  unfold Features.isPrefix
  split
  all_goals first
    | rfl
    | exact absurd ‹_› h64
    | exact absurd ‹_› h65
    | exact absurd ‹_› h66
    | exact absurd ‹_› h67

theorem isPrefix_i8086 : ∀ b : UInt8, b ≠ 0xF1 →
    Model.i80186.features.isPrefix b = Model.i8086.features.isPrefix b :=
  of_bytes (by decide +kernel)

theorem isPrefix_later : ∀ b : UInt8, Model.i80186.features.isPrefix b = true →
    Model.i80386.features.isPrefix b = true :=
  of_bytes (by decide +kernel)

theorem isPrefix_alias : ∀ b : UInt8, IsAliased b →
    Model.i80186.features.isPrefix (FirstPage.alias8086 b) = false :=
  of_bytes (by decide +kernel)

theorem alias_ne : ∀ b : UInt8, IsAliased b → FirstPage.alias8086 b ≠ 0x0F :=
  of_bytes (by decide +kernel)

theorem alias_eq {b : UInt8} (h : ¬ IsAliased b) : FirstPage.alias8086 b = b := by
  rw [FirstPage.alias8086, if_neg fun h' => h (.inl h'), if_neg fun h' => h (.inr h')]

/-! ### Upward compatibility -/

theorem decode_i80386 {c : Code} (hValid : (decode Model.i80186.features c).isValid = true)
    (hMove : ∀ k, c.OpcodeAt Model.i80186.features k →
      ¬ MovesLaterSegment (c.byteAt k) (c.byteAt (k + 1))) :
    decode Model.i80386.features c = decode Model.i80186.features c := by
  obtain ⟨p, b, d₁, hStart, hAfter⟩ := Decoder.start_of_valid hValid
  obtain ⟨k, hk, hByte, hLength⟩ := Decoder.opcodeAt_of_start hStart
  have hDefined := Encoding.body_of_valid hAfter
  refine congrArg Prod.fst (Decoder.decode_congr (Decoder.start_congr fun i hi => ?_) ?_)
  · rcases Nat.lt_or_eq_of_le (hk.le hi) with hlt | rfl
    · have hPrefix := hk.1.2 i hlt
      rw [hPrefix, isPrefix_later _ hPrefix]
    · rw [hByte]
      exact isPrefix_i80386 hDefined
  · intro p' b' d' hStart'
    rw [hStart] at hStart'
    cases hStart'
    refine Encoding.body_i80386 hDefined ?_
    rw [hLength, ← hByte]
    exact hMove k hk

/-- The 80186 reads the opcode in another way than the 8086. -/
def IsRevised (b : UInt8) : Prop := b = 0x0F ∨ b = 0xF1 ∨ IsAliased b

instance (b : UInt8) : Decidable (IsRevised b) := inferInstanceAs (Decidable (_ ∨ _))

theorem decode_i80186 {c : Code}
    (hLock : ∀ k, c.Reached Model.i8086.features k →
      Model.i8086.features.isPrefix (c.byteAt k) = true → c.byteAt k ≠ 0xF1)
    (hOpcode : ∀ k, c.OpcodeAt Model.i8086.features k → ¬ IsRevised (c.byteAt k)) :
    decode Model.i8086.features c = decode Model.i80186.features c := by
  refine (congrArg Prod.fst (Decoder.decode_congr (Decoder.start_congr fun i hi => ?_) ?_)).symm
  · refine isPrefix_i8086 _ ?_
    cases hPrefix : Model.i8086.features.isPrefix (c.byteAt i) with
    | false => exact fun h => hOpcode i ⟨hi, hPrefix⟩ (.inr (.inl h))
    | true => exact hLock i hi hPrefix
  · intro p b d₁ hStart
    obtain ⟨k, hk, hByte, -⟩ := Decoder.opcodeAt_of_start hStart
    have hNot : ¬ IsRevised b := hByte ▸ hOpcode k hk
    have hEntry :
        FirstPage.entry Model.i80186.features b = FirstPage.entry Model.i8086.features b := by
      change FirstPage.row _ b = FirstPage.row _ (FirstPage.alias8086 b)
      rw [alias_eq fun h => hNot (.inr (.inr h))]
      exact FirstPage.row_eq_of_wide (fun h => hNot (.inl h)) rfl
    rw [Encoding.body_congr hEntry]

namespace Code

/-- The code with another byte at a position. -/
def replace (c : Code) (k : Nat) (b : UInt8) : Code :=
  { c with byteAt := fun i => if i = k then b else c.byteAt i }

/-- The code with the common lock prefix for the second one of the 8086, before position `k`. -/
def commonLock (c : Code) (k : Nat) : Code :=
  { c with byteAt := fun i => if i < k ∧ c.byteAt i = 0xF1 then 0xF0 else c.byteAt i }

end Code

section Alias

variable {c : Code} {k : Nat}

theorem byteAt_before {b : UInt8} {i : Nat} (h : i < k) :
    ((c.commonLock k).replace k b).byteAt i = if c.byteAt i = 0xF1 then 0xF0 else c.byteAt i := by
  change (if i = k then b else if i < k ∧ c.byteAt i = 0xF1 then 0xF0 else c.byteAt i) = _
  rw [if_neg (Nat.ne_of_lt h)]
  simp only [h, true_and]

theorem agreesOn_after (c : Code) (k : Nat) (b : UInt8) (n : Nat) :
    c.AgreesOn ((c.commonLock k).replace k b) (k + 1) n := by
  refine ⟨rfl, rfl, fun i hi _ => ?_⟩
  change (if i = k then b else if i < k ∧ c.byteAt i = 0xF1 then 0xF0 else c.byteAt i) = _
  rw [if_neg (Nat.ne_of_gt hi), if_neg fun h => absurd h.1 (Nat.not_lt_of_gt hi)]

theorem decode_alias (hk : c.OpcodeAt Model.i8086.features k) (hAlias : IsAliased (c.byteAt k))
    (hValid : (decode Model.i8086.features c).isValid = true) :
    decode Model.i80186.features ((c.commonLock k).replace k (FirstPage.alias8086 (c.byteAt k))) =
      decode Model.i8086.features c := by
  have hAgree := agreesOn_after c k (FirstPage.alias8086 (c.byteAt k))
  have hBefore {i : Nat} (hi : i < k) := byteAt_before (c := c)
    (b := FirstPage.alias8086 (c.byteAt k)) hi
  have hHere : ((c.commonLock k).replace k (FirstPage.alias8086 (c.byteAt k))).byteAt k =
    FirstPage.alias8086 (c.byteAt k) := if_pos rfl
  generalize (c.commonLock k).replace k (FirstPage.alias8086 (c.byteAt k)) = c' at *
  obtain ⟨p, b, d₁, hStart, hAfter⟩ := Decoder.start_of_valid hValid
  obtain ⟨k', hk', rfl, hLength⟩ := Decoder.opcodeAt_of_start hStart
  obtain rfl := hk.unique hk'
  have hWide := (hAgree 0).wide_eq
  -- Up to the opcode both models read the same prefixes.
  have hPrefix (i : Nat) (hi : i < k) (p : Prefixes) :
      p.next? Model.i80186.features c'.wide (c'.byteAt i) =
        p.next? Model.i8086.features c.wide (c.byteAt i) := by
    rw [hWide, hBefore hi]
    by_cases hLock : c.byteAt i = 0xF1
    · rw [if_pos hLock, hLock]
      rfl
    · rw [if_neg hLock]
      exact Prefixes.next_congr p c.wide (isPrefix_i8086 _ hLock)
  have hEnd : Model.i80186.features.isPrefix (c'.byteAt k) = false := by
    rw [hHere]
    exact isPrefix_alias _ hAlias
  obtain ⟨d₂, hStart', hLength'⟩ : ∃ d₂, Decoder.start {} Model.i80186.features c' =
      .ok (p, FirstPage.alias8086 (c.byteAt k)) d₂ ∧ d₂.length = k + 1 := by
    rw [Decoder.start, hWide, ← hHere]
    exact Encoding.prefixes_respelled hStart hLength rfl (fun i _ hi => hPrefix i hi) hEnd
  -- From the opcode on they read the same bytes by the same entry.
  have hEntry : FirstPage.entry Model.i80186.features (FirstPage.alias8086 (c.byteAt k)) =
      FirstPage.entry Model.i8086.features (c.byteAt k) :=
    FirstPage.row_eq_of_wide (alias_ne _ hAlias) rfl
  rw [decode, decode, Decoder.decode_of_ok hStart, Decoder.decode_of_ok hStart']
  refine Encoding.afterPrefixes_of_valid (Encoding.body_congr hEntry) (hLength'.trans hLength.symm)
    ?_ hAfter
  rw [hLength]
  exact hAgree _

end Alias

/-- **The models are upward compatible.** Take any code.

The 80386 reads an instruction of the 80186 as the 80186 does, except moves of segment registers that
the 80186 names with spare bits of the operand byte, and moves to the code segment.

The 8086 and the 80186 read the same, valid or not, as long as they do not come across a second lock
prefix or an opcode that the 80186 revised.

What the 8086 takes for another opcode, it reads as the 80186 reads that other one, with the common
lock prefix in place of the second one. -/
theorem decode_generations (c : Code) :
    ((decode Model.i80186.features c).isValid = true →
      (∀ k, c.OpcodeAt Model.i80186.features k →
        ¬ MovesLaterSegment (c.byteAt k) (c.byteAt (k + 1))) →
      decode Model.i80386.features c = decode Model.i80186.features c) ∧
    ((∀ k, c.Reached Model.i8086.features k →
        Model.i8086.features.isPrefix (c.byteAt k) = true → c.byteAt k ≠ 0xF1) →
      (∀ k, c.OpcodeAt Model.i8086.features k → ¬ IsRevised (c.byteAt k)) →
      decode Model.i8086.features c = decode Model.i80186.features c) ∧
    ∀ k, c.OpcodeAt Model.i8086.features k → IsAliased (c.byteAt k) →
      (decode Model.i8086.features c).isValid = true →
      decode Model.i80186.features ((c.commonLock k).replace k (FirstPage.alias8086 (c.byteAt k))) =
        decode Model.i8086.features c :=
  ⟨decode_i80386, decode_i80186, fun _ => decode_alias⟩

/-- MOV DS,AX on the later models, REPE CMPSB on the earlier ones, and a locked RETN of the 8086. -/
theorem decode_generations_applies :
    let code (bytes : List UInt8) : Code := .ofBus (.holding bytes) 0 0 false
    decode Model.i80386.features (code [0x8E, 0xD8]) =
        decode Model.i80186.features (code [0x8E, 0xD8]) ∧
      decode Model.i8086.features (code [0xF3, 0xA6]) =
        decode Model.i80186.features (code [0xF3, 0xA6]) ∧
      decode Model.i80186.features (((code [0xF1, 0xC1]).commonLock 1).replace 1 0xC3) =
        decode Model.i8086.features (code [0xF1, 0xC1]) := by
  refine ⟨(decode_generations _).1 (by decide +kernel) fun k hk => ?_,
    (decode_generations _).2.1 (fun k hk _ => ?_) fun k hk => ?_,
    (decode_generations _).2.2 1 (by decide +kernel) (by decide +kernel) (by decide +kernel)⟩
  · obtain rfl := Code.OpcodeAt.unique (k := 0) (by decide +kernel) hk
    decide +kernel
  · have hLe := Code.OpcodeAt.le (k := 1) (by decide +kernel) hk
    rcases Nat.le_one_iff_eq_zero_or_eq_one.1 hLe with rfl | rfl <;> decide +kernel
  · obtain rfl := Code.OpcodeAt.unique (k := 1) (by decide +kernel) hk
    decide +kernel

/-- A second lock prefix before an alias: the 8086 jumps, and the 80186 has no instruction, whatever
stands for the opcode. -/
theorem decode_alias_locked :
    let c := Code.ofBus (.holding [0xF1, 0x60, 0x00]) 0 0 false
    c.OpcodeAt Model.i8086.features 1 ∧ IsAliased (c.byteAt 1) ∧
      (decode Model.i8086.features c).isValid = true ∧
      decode Model.i80186.features (c.replace 1 (FirstPage.alias8086 (c.byteAt 1))) ≠
        decode Model.i8086.features c := by
  decide +kernel

end X86
