import X86.Cpu.Basic
import X86.Proofs.Encoding.Layout

/-!
# Decoding looks at the instruction only

A reader advances over the code, and its answer depends on no byte but those that it has passed. The
same holds of the decoder behind it: what earlier instructions have left there is overwritten before
it is looked at.

* `Code.AgreesOn`: two codes have the same bytes at some positions.
* `Decoder.Matches`: two decoders are at the same position and hold the same bytes from some position
  up to it.
* `Fetch.Local`: **a reader that runs over the same bytes ends in the same way**, closed under
  composition.
* `Decoder.decode_eq_of_agreesOn`: so does decoding.
* `decode_local`: **the bytes of an instruction decide about it, and they are no proper prefix of
  those of another one.**
-/

namespace X86

/-! ### Equal bytes -/

/-- The codes lie in the same place and have the same bytes from position `n` to before `n'`. -/
structure Code.AgreesOn (c c' : Code) (n n' : Nat) : Prop where
  start_eq : c'.start = c.start
  wide_eq : c'.wide = c.wide
  byteAt_eq : ∀ i, n ≤ i → i < n' → c'.byteAt i = c.byteAt i

namespace Code.AgreesOn

variable {c c' : Code} {n n' k k' : Nat}

theorem refl (c : Code) (n n' : Nat) : c.AgreesOn c n n' := ⟨rfl, rfl, fun _ _ _ => rfl⟩

theorem sub (h : c.AgreesOn c' n n') (hFrom : n ≤ k) (hTo : k' ≤ n') : c.AgreesOn c' k k' :=
  ⟨h.start_eq, h.wide_eq, fun i hi hi' =>
    h.byteAt_eq i (Nat.le_trans hFrom hi) (Nat.lt_of_lt_of_le hi' hTo)⟩

end Code.AgreesOn

namespace Decoder

@[simp] theorem length_push (d : Decoder) (b : UInt8) : (d.push b).length = d.length + 1 := rfl

/-- The decoders have read as many bytes, and hold the same ones from position `k` on. -/
structure Matches (k : Nat) (d d' : Decoder) : Prop where
  length_eq : d'.length = d.length
  bytes_eq : ∀ i, k ≤ i → i < d.length → d'.bytes[i]? = d.bytes[i]?

namespace Matches

variable {k : Nat} {d d' : Decoder}

theorem push (h : Matches k d d') (b : UInt8) : Matches k (d.push b) (d'.push b) := by
  refine ⟨congrArg (· + 1) h.length_eq, fun i hk hi => ?_⟩
  rw [Decoder.push, Decoder.push, h.length_eq, Vector.getElem?_setIfInBounds,
    Vector.getElem?_setIfInBounds]
  split
  · rfl
  · rename_i hne
    exact h.bytes_eq i hk (by rw [length_push] at hi; omega)

/-- Decoders that have read the same bytes show the same bytes. -/
theorem take_eq (h : Matches 0 d d') : d'.take d'.length = d.take d.length := by
  rw [take, take, h.length_eq]
  refine List.ext_getElem? fun i => ?_
  rw [List.getElem?_take, List.getElem?_take]
  split
  · rename_i hi
    simpa using h.bytes_eq i (Nat.zero_le i) hi
  · rfl

end Matches

end Decoder

/-! ### Local readers -/

namespace Fetch

variable {α β : Type} {x : Fetch α} {f : α → Fetch β} {c c' : Code} {d d' : Decoder}

/-- The decoder at the end of a run. -/
def stop (x : Fetch α) (c : Code) (d : Decoder) : Decoder :=
  match x c d with
  | .ok _ d' => d'
  | .error _ d' => d'

/-- The runs end with the same answer or refusal, and with matching decoders. -/
inductive Same (k : Nat) : EStateM.Result Refusal Decoder α → EStateM.Result Refusal Decoder α → Prop
  | ok (a : α) {d d' : Decoder} (h : d.Matches k d') : Same k (.ok a d) (.ok a d')
  | error (r : Refusal) {d d' : Decoder} (h : d.Matches k d') : Same k (.error r d) (.error r d')

/-- **The reader goes forward, and over the same bytes it ends in the same way.** -/
structure Local (x : Fetch α) : Prop where
  advances : ∀ c d, d.length ≤ (x.stop c d).length
  same : ∀ {k c c' d d'}, d.Matches k d' → c.AgreesOn c' d.length (x.stop c d).length →
    Same k (x c d) (x c' d')

theorem bind_of_ok {a : α} (h : x c d = .ok a d') : (x >>= f) c d = f a c d' := by
  change EStateM.bind (x c) (fun a => f a c) d = _
  rw [EStateM.bind, h]

theorem bind_of_error {r : Refusal} (h : x c d = .error r d') :
    (x >>= f) c d = .error r d' := by
  change EStateM.bind (x c) (fun a => f a c) d = _
  rw [EStateM.bind, h]

theorem stop_of_ok {a : α} (h : x c d = .ok a d') : x.stop c d = d' := by
  rw [stop, h]

theorem stop_of_error {r : Refusal} (h : x c d = .error r d') : x.stop c d = d' := by
  rw [stop, h]

theorem stop_bind {a : α} (h : x c d = .ok a d') : (x >>= f).stop c d = (f a).stop c d' := by
  rw [stop, bind_of_ok h, stop]

namespace Local

theorem pure (a : α) : Local (Pure.pure a : Fetch α) :=
  ⟨fun _ _ => Nat.le_refl _, fun h _ => .ok a h⟩

theorem throw (r : Refusal) : Local (throw r : Fetch α) :=
  ⟨fun _ _ => Nat.le_refl _, fun h _ => .error r h⟩

theorem bind (hx : Local x) (hf : ∀ a, Local (f a)) : Local (x >>= f) := by
  constructor
  · intro c d
    have hFirst := hx.advances c d
    cases h : x c d with
    | ok a d₁ =>
      rw [stop_of_ok h] at hFirst
      rw [stop_bind h]
      exact Nat.le_trans hFirst ((hf a).advances c d₁)
    | error r d₁ => rwa [stop_of_error (bind_of_error h), ← stop_of_error h]
  · intro k c c' d d' hMatch hAgree
    have hFirst := hx.advances c d
    cases h : x c d with
    | ok a d₁ =>
      rw [stop_of_ok h] at hFirst
      rw [stop_bind h] at hAgree
      have hLast := (hf a).advances c d₁
      have hSame := hx.same hMatch
        (hAgree.sub (Nat.le_refl _) (by rw [stop_of_ok h]; exact hLast))
      rw [h] at hSame
      generalize hx' : x c' d' = r' at hSame
      cases hSame with
      | ok _ hMatch' =>
        rw [bind_of_ok h, bind_of_ok hx']
        exact (hf a).same hMatch' (hAgree.sub hFirst (Nat.le_refl _))
    | error r d₁ =>
      rw [stop_of_error (bind_of_error h)] at hAgree
      have hSame := hx.same hMatch (by rwa [stop_of_error h])
      rw [h] at hSame
      generalize hx' : x c' d' = r' at hSame
      cases hSame with
      | error _ hMatch' =>
        rw [bind_of_error h, bind_of_error hx']
        exact .error r hMatch'

theorem ite {p : Prop} [Decidable p] {y : Fetch α} (hx : Local x) (hy : Local y) :
    Local (if p then x else y) := by
  by_cases hp : p
  · rwa [if_pos hp]
  · rwa [if_neg hp]

/-- The size of the code segment may be looked at. -/
theorem readWide {f : Bool → Fetch β} (hf : ∀ wide, Local (f wide)) :
    Local (read >>= fun c => f c.wide) := by
  have hRun (c : Code) (d : Decoder) : (read >>= fun c => f c.wide) c d = f c.wide c d :=
    bind_of_ok (x := read) (a := c) rfl
  constructor
  · intro c d
    rw [stop, hRun]
    exact (hf c.wide).advances c d
  · intro k c c' d d' hMatch hAgree
    rw [stop, hRun] at hAgree
    rw [hRun, hRun, hAgree.wide_eq]
    exact (hf c.wide).same hMatch hAgree

theorem byte : Local byte := by
  constructor
  · intro c d
    exact Nat.le_succ d.length
  · intro k c c' d d' hMatch hAgree
    have hByte : c'.byteAt d'.length = c.byteAt d.length := by
      rw [hMatch.length_eq]
      exact hAgree.byteAt_eq d.length (Nat.le_refl _) (Nat.lt_succ_self _)
    have hRun : Fetch.byte c' d' = .ok (c.byteAt d.length) (d'.push (c.byteAt d.length)) := by
      rw [← hByte]
      rfl
    rw [hRun]
    exact .ok _ (hMatch.push _)

theorem offset : Local offset := by
  constructor
  · intro c d
    exact Nat.le_refl d.length
  · intro k c c' d d' hMatch hAgree
    have hRun : Fetch.offset c' d' = .ok (c.offset d.length) d' := by
      rw [Code.offset, ← hAgree.start_eq, ← hAgree.wide_eq, ← hMatch.length_eq]
      rfl
    rw [hRun]
    exact .ok _ hMatch

theorem word : Local word := byte.bind fun _ => byte.bind fun _ => pure _

theorem dword : Local dword := word.bind fun _ => word.bind fun _ => pure _

theorem sized (w : Width) : Local (sized w) := by
  cases w with
  | byte => exact byte.bind fun _ => pure _
  | word => exact word.bind fun _ => pure _
  | dword => exact dword

theorem signed (w : Width) : Local (signed w) := (sized w).bind fun _ => pure _

end Local

end Fetch

/-! ### The readers of instructions -/

namespace Encoding

open Fetch (Local)

theorem local_address16 (x : ModRM) : Local (address16 x) := by
  refine .ite (Fetch.Local.word.bind fun _ => .pure _) ?_
  refine .ite ((Local.signed .byte).bind fun _ => .pure _) ?_
  exact .ite ((Local.signed .word).bind fun _ => .pure _) ((Local.pure 0).bind fun _ => .pure _)

theorem local_baseAndIndex (x : ModRM) : Local (baseAndIndex x) :=
  .ite (Fetch.Local.byte.bind fun _ => .pure _) (.ite (.pure _) (.pure _))

theorem local_address32 (x : ModRM) : Local (address32 x) := by
  refine (local_baseAndIndex x).bind fun ⟨base, index, scale⟩ => ?_
  refine .ite ((Local.signed .byte).bind fun _ => .ite (.pure _) (.pure _)) ?_
  exact .ite (Local.dword.bind fun _ => .ite (.pure _) (.pure _))
    ((Local.pure 0).bind fun _ => .ite (.pure _) (.pure _))

theorem local_memory (p : Prefixes) (x : ModRM) (w : Width) : Local (memory p x w) :=
  .ite ((local_address32 x).bind fun _ => .pure _) ((local_address16 x).bind fun _ => .pure _)

theorem local_operand (p : Prefixes) (x : ModRM) (form : OperandForm) :
    Local (operand p x form) := by
  cases form with
  | absent | fixed _ | gpr _ _ | reg _ | rmReg _ => exact .pure _
  | rm s => exact .ite (.pure _) (local_memory p x _)
  | mem s => exact .ite (.throw _) (local_memory p x _)
  | imm s => exact (Fetch.Local.sized _).bind fun _ => .pure _
  | signed8 => exact Fetch.Local.byte.bind fun _ => .pure _
  | relative s =>
    exact (Fetch.Local.signed _).bind fun _ => Fetch.Local.offset.bind fun _ => .pure _
  | far => exact (Fetch.Local.sized _).bind fun _ => Fetch.Local.word.bind fun _ => .pure _
  | offset s => exact (Fetch.Local.sized _).bind fun _ => .pure _

theorem local_instruction (p : Prefixes) (x : ModRM) (l : Layout) :
    Local (instruction p x l) :=
  (local_operand p x _).bind fun _ => (local_operand p x _).bind fun _ =>
    (local_operand p x _).bind fun _ => .pure _

theorem local_entry (p : Prefixes) (e : Entry) : Local (entry p e) := by
  cases e with
  | plain l => exact local_instruction p default l
  | fields select =>
    refine Fetch.Local.byte.bind fun b => ?_
    dsimp only
    cases select (ModRM.ofByte b).reg with
    | layout l => exact local_instruction p _ l
    | undefined => exact .throw _
    | undefinedAfter form => exact (local_operand p _ form).bind fun _ => .throw _
  | secondPage | undefined => exact .throw _

theorem local_body (m : Features) (p : Prefixes) (b : UInt8) : Local (body m p b) := by
  rw [body]
  cases FirstPage.entry m b with
  | secondPage => exact Fetch.Local.byte.bind fun _ => local_entry p _
  | plain _ | fields _ | undefined => exact local_entry p _

theorem local_next {m : Features} {fuel : Nat} (h : ∀ p, Local (prefixes m fuel p))
    (p : Prefixes) (b : UInt8) :
    Local (do
      match p.next? m (← read).wide b with
      | some p => prefixes m fuel p
      | none => return (p, b)) := by
  refine .readWide (f := fun wide => match p.next? m wide b with
    | some p => prefixes m fuel p
    | none => pure (p, b)) fun wide => ?_
  cases p.next? m wide b with
  | some p' => exact h p'
  | none => exact .pure _

theorem local_prefixes (m : Features) (fuel : Nat) (p : Prefixes) :
    Local (prefixes m fuel p) := by
  induction fuel generalizing p with
  | zero => exact Fetch.Local.byte.bind fun _ => .throw _
  | succ fuel ih => exact Fetch.Local.byte.bind (local_next ih p)

/-- Some byte has been read before the opcode is known. -/
theorem lt_stop_prefixes (m : Features) (fuel : Nat) (p : Prefixes) (c : Code) (d : Decoder) :
    d.length < ((prefixes m fuel p).stop c d).length := by
  have hByte {f : UInt8 → Fetch (Prefixes × UInt8)}
      (hf : Local (f (c.byteAt d.length))) : d.length < ((Fetch.byte >>= f).stop c d).length := by
    rw [Fetch.stop_bind (x := Fetch.byte) (a := c.byteAt d.length) rfl]
    exact hf.advances c (d.push (c.byteAt d.length))
  cases fuel with
  | zero => exact hByte (.throw _)
  | succ fuel => exact hByte (local_next (local_prefixes m fuel) p _)

section AfterPrefixes

variable {m : Features} {c c' : Code} {p : Prefixes} {b : UInt8} {d d' d₁ : Decoder}

theorem afterPrefixes_of_ok {i : Instruction} (h : body m p b c d = .ok i d₁) :
    afterPrefixes m c p b d =
      (complete p d₁.length (if d₁.length > maxLength then invalid d₁ .tooLong else i), d₁) := by
  rw [afterPrefixes]
  simp only [ReaderT.run, EStateM.run, h]

theorem afterPrefixes_of_error {reason : Refusal} (h : body m p b c d = .error reason d₁) :
    afterPrefixes m c p b d =
      (complete p d₁.length
        (invalid d₁ (if d₁.length > maxLength then .tooLong else reason)), d₁) := by
  rw [afterPrefixes]
  simp only [ReaderT.run, EStateM.run, h, apply_ite (invalid d₁)]

theorem snd_afterPrefixes : (afterPrefixes m c p b d).2 = (body m p b).stop c d := by
  cases h : body m p b c d with
  | ok i d₁ => rw [afterPrefixes_of_ok h, Fetch.stop_of_ok h]
  | error reason d₁ => rw [afterPrefixes_of_error h, Fetch.stop_of_error h]

/-- What follows an opcode is told by its bytes. -/
theorem afterPrefixes_eq (hMatch : d.Matches 0 d')
    (hAgree : c.AgreesOn c' d.length (afterPrefixes m c p b d).2.length) :
    (afterPrefixes m c' p b d').1 = (afterPrefixes m c p b d).1 := by
  rw [snd_afterPrefixes] at hAgree
  have hSame := (local_body m p b).same hMatch hAgree
  generalize hRun : body m p b c d = r, hRun' : body m p b c' d' = r' at hSame
  cases hSame with
  | ok i hLast =>
    rw [afterPrefixes_of_ok hRun, afterPrefixes_of_ok hRun', invalid, invalid, hLast.take_eq,
      hLast.length_eq]
  | error reason hLast =>
    rw [afterPrefixes_of_error hRun, afterPrefixes_of_error hRun', invalid, invalid, hLast.take_eq,
      hLast.length_eq]

/-- An instruction has as many bytes as were read, and not too many. -/
theorem length_of_valid (h : (afterPrefixes m c p b d).1.isValid = true) :
    (afterPrefixes m c p b d).1.length = (afterPrefixes m c p b d).2.length ∧
      (afterPrefixes m c p b d).2.length ≤ maxLength := by
  cases hRun : body m p b c d with
  | ok i d₁ =>
    rw [afterPrefixes_of_ok hRun] at h ⊢
    refine ⟨rfl, Nat.le_of_not_gt fun hLong => ?_⟩
    rw [if_pos hLong] at h
    cases h
  | error reason d₁ =>
    rw [afterPrefixes_of_error hRun] at h
    cases h

end AfterPrefixes

end Encoding

/-! ### The decoder -/

namespace Decoder

variable {m : Features} {c c' : Code} {d d' d₁ : Decoder}

/-- What the decoder does up to the opcode. -/
def start (d : Decoder) (m : Features) (c : Code) :
    EStateM.Result Refusal Decoder (Prefixes × UInt8) :=
  Encoding.prefixes m maxLength { op32 := c.wide, addr32 := c.wide } c { d with length := 0 }

theorem decode_of_ok {p : Prefixes} {b : UInt8} (h : d.start m c = .ok (p, b) d₁) :
    d.decode m c = Encoding.afterPrefixes m c p b d₁ := by
  rw [start] at h
  rw [decode]
  simp only [ReaderT.run, EStateM.run, h]

theorem decode_of_error {reason : Refusal} (h : d.start m c = .error reason d₁) :
    d.decode m c = (Encoding.invalid d₁ reason, d₁) := by
  rw [start] at h
  rw [decode]
  simp only [ReaderT.run, EStateM.run, h]

theorem length_start_pos {p : Prefixes} {b : UInt8} (h : d.start m c = .ok (p, b) d₁) :
    0 < d₁.length := by
  have hPos := Encoding.lt_stop_prefixes m maxLength { op32 := c.wide, addr32 := c.wide } c
    { d with length := 0 }
  rwa [Fetch.stop_of_ok h] at hPos

/-- Up to the opcode, equal bytes are decoded equally. -/
theorem same_start (h : c.AgreesOn c' 0 (d.decode m c).2.length) :
    Fetch.Same 0 (d.start m c) (d'.start m c') := by
  have hLast : (Fetch.stop (Encoding.prefixes m maxLength { op32 := c.wide, addr32 := c.wide }) c
      { d with length := 0 }).length ≤ (d.decode m c).2.length := by
    cases hStart : d.start m c with
    | ok a d₁ =>
      rw [Fetch.stop_of_ok hStart, decode_of_ok hStart, Encoding.snd_afterPrefixes]
      exact (Encoding.local_body m _ _).advances c d₁
    | error reason d₁ =>
      simp only [Fetch.stop_of_error hStart, decode_of_error hStart, Nat.le_refl]
  rw [start, start, h.wide_eq]
  refine (Encoding.local_prefixes m maxLength _).same ⟨rfl, nofun⟩ ?_
  exact h.sub (Nat.le_refl 0) hLast

/-- **What is decoded depends on the bytes that are read, and on nothing that the decoder has been
used for.** -/
theorem decode_eq_of_agreesOn (h : c.AgreesOn c' 0 (d.decode m c).2.length) :
    (d'.decode m c').1 = (d.decode m c).1 := by
  have hSame : Fetch.Same 0 (d.start m c) (d'.start m c') := same_start h
  generalize hStart : d.start m c = r, hStart' : d'.start m c' = r' at hSame
  cases hSame with
  | ok a hMatch =>
    rw [decode_of_ok hStart] at h
    rw [decode_of_ok hStart, decode_of_ok hStart']
    exact Encoding.afterPrefixes_eq hMatch (h.sub (Nat.zero_le _) (Nat.le_refl _))
  | error reason hMatch =>
    rw [decode_of_error hStart, decode_of_error hStart', Encoding.invalid, Encoding.invalid,
      hMatch.take_eq]

/-- The decoder of the machine may have been used before. -/
theorem fst_decode (d : Decoder) (m : Features) (c : Code) : (d.decode m c).1 = X86.decode m c :=
  decode_eq_of_agreesOn (.refl c _ _)

/-- A decoded instruction has the bytes that were read, between one and fifteen. -/
theorem length_of_valid (h : (d.decode m c).1.isValid = true) :
    (d.decode m c).2.length = (d.decode m c).1.length ∧
      1 ≤ (d.decode m c).1.length ∧ (d.decode m c).1.length ≤ maxLength := by
  cases hStart : d.start m c with
  | ok a d₁ =>
    rw [decode_of_ok hStart] at h ⊢
    obtain ⟨hLength, hLe⟩ := Encoding.length_of_valid h
    have hPos := length_start_pos hStart
    have hLast := (Encoding.local_body m a.1 a.2).advances c d₁
    rw [← Encoding.snd_afterPrefixes] at hLast
    omega
  | error reason d₁ =>
    rw [decode_of_error hStart] at h
    cases h

/-- A valid instruction is decided by its own bytes. -/
theorem decode_eq_of_valid (hValid : (d.decode m c).1.isValid = true)
    (h : c.AgreesOn c' 0 (d.decode m c).1.length) : (d'.decode m c').1 = (d.decode m c).1 := by
  refine decode_eq_of_agreesOn ?_
  rwa [(length_of_valid hValid).1]

end Decoder

/-! ### Code in memory -/

/-- The bytes at `n` positions from `start` on, in the code segment at `base`. -/
def Bus.codeBytes (b : Bus) (base start : UInt32) (wide : Bool) (n : Nat) : List UInt8 :=
  (List.range n).map fun k => b.read8 (base + wrapOffset wide (start + UInt32.ofNat k))

namespace Bus

variable {b b' : Bus} {base start : UInt32} {wide : Bool} {n n' : Nat}

theorem length_codeBytes : (b.codeBytes base start wide n).length = n := by
  simp [codeBytes]

/-- A shorter reading is the beginning of a longer one. -/
theorem codeBytes_eq_of_prefix
    (h : b.codeBytes base start wide n <+: b'.codeBytes base start wide n') :
    b'.codeBytes base start wide n = b.codeBytes base start wide n := by
  have hLe := h.length_le
  rw [length_codeBytes, length_codeBytes] at hLe
  rw [List.prefix_iff_eq_take.1 h, length_codeBytes, codeBytes, codeBytes, ← List.map_take,
    List.take_range, Nat.min_eq_left hLe]

end Bus

namespace Code

variable {b b' : Bus} {base start : UInt32} {wide : Bool} {n : Nat}

theorem offsetOf_eq (h : wide = false → start ≤ 0xFFFF) (n : Nat) :
    offsetOf start wide n = wrapOffset wide (start + UInt32.ofNat n) := by
  cases wide with
  | true => exact UInt32.and_neg_one.symm
  | false =>
    cases n with
    | zero =>
      have hSmall : start.toNat < Width.word.values := Nat.lt_succ_of_le (h rfl)
      change start + 0 = wrapOffset false (start + 0)
      rw [UInt32.add_zero, ← UInt32.toNat_inj, toNat_wrapOffset]
      exact (Nat.mod_eq_of_lt hSmall).symm
    | succ n => rfl

theorem agreesOn_of_codeBytes (hStart : wide = false → start ≤ 0xFFFF)
    (h : b'.codeBytes base start wide n = b.codeBytes base start wide n) :
    (ofBus b base start wide).AgreesOn (ofBus b' base start wide) 0 n := by
  refine ⟨rfl, rfl, fun i _ hi => ?_⟩
  change b'.read8 (base + offsetOf start wide i) = b.read8 (base + offsetOf start wide i)
  rw [offsetOf_eq hStart]
  exact List.map_inj_left.1 h i (List.mem_range.2 hi)

end Code

/-- **The bytes of an instruction decide about it, and they are no proper prefix of those of another
one.** Take any code segment, in which a start that does not fit into 16 bits needs 32-bit code. A
decoder finds there what every other one finds, whatever they hold. If it is an instruction, then it
has one to fifteen bytes, and other memory has the same instruction there as soon as it has the same
bytes, or an instruction whose bytes begin with them. -/
theorem decode_local (m : Features) (b : Bus) (base start : UInt32) (wide : Bool)
    (hStart : wide = false → start ≤ 0xFFFF) (d : Decoder) :
    let i := (d.decode m (.ofBus b base start wide)).1
    (∀ d' : Decoder, (d'.decode m (.ofBus b base start wide)).1 = i) ∧
      (i.isValid = true →
        (1 ≤ i.length ∧ i.length ≤ 15) ∧
        ∀ (b' : Bus) (d' : Decoder),
          let i' := (d'.decode m (.ofBus b' base start wide)).1
          (b'.codeBytes base start wide i.length = b.codeBytes base start wide i.length → i' = i) ∧
          (i'.isValid = true →
            b.codeBytes base start wide i.length <+: b'.codeBytes base start wide i'.length →
            i' = i)) := by
  intro i
  refine ⟨fun d' => Decoder.decode_eq_of_agreesOn (.refl _ _ _), fun hValid => ?_⟩
  have hLocal {b' : Bus} {d' : Decoder}
      (h : b'.codeBytes base start wide i.length = b.codeBytes base start wide i.length) :
      (d'.decode m (.ofBus b' base start wide)).1 = i :=
    Decoder.decode_eq_of_valid hValid (Code.agreesOn_of_codeBytes hStart h)
  refine ⟨(Decoder.length_of_valid hValid).2, fun b' d' => ⟨hLocal, fun _ hPrefix => ?_⟩⟩
  exact hLocal (Bus.codeBytes_eq_of_prefix hPrefix)

/-- Memory that holds some bytes from address 0 on. -/
def Bus.holding (bytes : List UInt8) : Bus := { ram := ⟨⟨bytes.toArray⟩⟩ }

/-- A repeated string move is the same one before another byte, for a decoder that is full. -/
theorem decode_local_movs :
    (false = false → (0 : UInt32) ≤ 0xFFFF) ∧
      let used : Decoder := ⟨.replicate 16 0xCC, 16⟩
      let i := decode Model.i80386.features (.ofBus (.holding [0xF3, 0xA4, 0x90]) 0 0 false)
      i.isValid = true ∧ i.length = 2 ∧
        (used.decode Model.i80386.features (.ofBus (.holding [0xF3, 0xA4, 0xC3]) 0 0 false)).1 = i := by
  have h := decode_local Model.i80386.features (.holding [0xF3, 0xA4, 0x90]) 0 0 false
    (fun _ => by decide) {}
  exact ⟨fun _ => by decide, by decide +kernel, by decide +kernel,
    ((h.2 (by decide +kernel)).2 _ _).1 (by decide +kernel)⟩

end X86
