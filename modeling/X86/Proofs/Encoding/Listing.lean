import X86.Listing
import X86.Proofs.Encoding.Generations

/-!
# Listings tile the code

A reader of code does nothing to the decoder but read on: it ends with a decoder that has passed
some more bytes of the code, and keeps as many of them as there is room for. So the bytes of a line
are those in memory, and the next line starts behind them.

* `Decoder.advance`, `Fetch.Takes`: **a reader passes a bounded number of bytes**, closed under
  composition.
* `Decoder.Holds`: the decoder shows the code that it has passed.
* `ListingLine.Shows`: what a line shows of the code at its place.
* `listing_tiles`: **the lines of a listing lie one behind the other and show what is there.**
-/

namespace X86

/-! ### Decoders that read on -/

namespace Decoder

/-- The decoder after `k` more bytes of the code. -/
def advance (c : Code) : Nat → Decoder → Decoder
  | 0, d => d
  | k + 1, d => advance c k (d.push (c.byteAt d.length))

theorem advance_add (c : Code) (k n : Nat) (d : Decoder) :
    d.advance c (k + n) = (d.advance c k).advance c n := by
  induction k generalizing d with
  | zero => rw [Nat.zero_add, advance]
  | succ k ih => rw [Nat.succ_add, advance, ih, advance]

theorem length_advance (c : Code) (k : Nat) (d : Decoder) :
    (d.advance c k).length = d.length + k := by
  induction k generalizing d with
  | zero => rfl
  | succ k ih =>
    rw [advance, ih, length_push]
    omega

/-- The bytes passed so far are those of the code, as far as there is room for them. -/
def Holds (d : Decoder) (c : Code) : Prop :=
  ∀ i, i < d.length → i < 16 → d.bytes[i]? = some (c.byteAt i)

theorem Holds.push {d : Decoder} {c : Code} (h : d.Holds c) :
    (d.push (c.byteAt d.length)).Holds c := by
  intro i hi hRoom
  rw [length_push] at hi
  rw [Decoder.push, Vector.getElem?_setIfInBounds]
  by_cases hLast : d.length = i
  · rw [if_pos hLast, if_pos (by omega), hLast]
  · rw [if_neg hLast]
    exact h i (by omega) hRoom

theorem Holds.advance {d : Decoder} {c : Code} (h : d.Holds c) (k : Nat) :
    (d.advance c k).Holds c := by
  induction k generalizing d with
  | zero => exact h
  | succ k ih => exact ih h.push

/-- A decoder that has just begun holds nothing wrong. -/
theorem holds_begun (d : Decoder) (c : Code) : Holds { d with length := 0 } c := fun i hi =>
  absurd hi (Nat.not_lt_zero i)

theorem take_of_holds {d : Decoder} {c : Code} (h : d.Holds c) :
    d.take d.length = c.take (min 16 d.length) := by
  have hSize : d.bytes.toList.length = 16 := Vector.length_toList
  refine List.ext_getElem ?_ fun i hi hi' => ?_
  · rw [take, Code.take, List.length_take, List.length_map, List.length_range, hSize, Nat.min_comm]
  · rw [take, List.length_take, hSize] at hi
    have hByte : d.bytes.toList[i]? = some (c.byteAt i) := by
      rw [Vector.getElem?_toList]
      exact h i (by omega) (by omega)
    simp only [take, Code.take, List.getElem_take, List.getElem_map, List.getElem_range]
    exact Option.some.inj ((List.getElem?_eq_getElem (by omega)).symm.trans hByte)

end Decoder

/-! ### Readers -/

namespace Fetch

variable {α β : Type} {x y : Fetch α} {f : α → Fetch β} {k n N : Nat}

/-- The reader passes at most `n` bytes, and does nothing else to the decoder. -/
def Takes (n : Nat) (x : Fetch α) : Prop := ∀ c d, ∃ k ≤ n, x.stop c d = d.advance c k

namespace Takes

theorem mono (hx : Takes n x) (h : n ≤ N) : Takes N x := by
  intro c d
  obtain ⟨k, hk, hStop⟩ := hx c d
  exact ⟨k, Nat.le_trans hk h, hStop⟩

theorem pure (a : α) : Takes n (Pure.pure a : Fetch α) := fun _ _ => ⟨0, Nat.zero_le n, rfl⟩

theorem throw (r : Refusal) : Takes n (throw r : Fetch α) := fun _ _ => ⟨0, Nat.zero_le n, rfl⟩

theorem bind (hx : Takes n x) (hf : ∀ a, Takes k (f a)) (h : n + k ≤ N) :
    Takes N (x >>= f) := by
  intro c d
  obtain ⟨j, hj, hStop⟩ := hx c d
  cases hRun : x c d with
  | ok a d₁ =>
    rw [stop_of_ok hRun] at hStop
    obtain ⟨i, hi, hLast⟩ := hf a c d₁
    refine ⟨j + i, by omega, ?_⟩
    rw [stop_bind hRun, hLast, hStop, Decoder.advance_add]
  | error r d₁ =>
    rw [stop_of_error hRun] at hStop
    exact ⟨j, by omega, (stop_of_error (bind_of_error hRun)).trans hStop⟩

theorem ite {p : Prop} [Decidable p] (hx : Takes n x) (hy : Takes n y) :
    Takes n (if p then x else y) := by
  split
  · exact hx
  · exact hy

theorem byte : Takes 1 byte := fun _ _ => ⟨1, Nat.le_refl 1, rfl⟩

theorem offset : Takes 0 offset := fun _ _ => ⟨0, Nat.le_refl 0, rfl⟩

theorem word : Takes 2 word :=
  byte.bind (fun _ => byte.bind (fun _ => pure (n := 0) _) (Nat.le_refl 1)) (Nat.le_refl 2)

theorem dword : Takes 4 dword :=
  word.bind (fun _ => word.bind (fun _ => pure (n := 0) _) (Nat.le_refl 2)) (Nat.le_refl 4)

theorem sized (w : Width) : Takes 4 (sized w) := by
  cases w with
  | byte => exact byte.bind (fun _ => pure (n := 0) _) (by decide)
  | word => exact word.bind (fun _ => pure (n := 0) _) (by decide)
  | dword => exact dword

theorem signed (w : Width) : Takes 4 (signed w) :=
  (sized w).bind (fun _ => pure (n := 0) _) (Nat.le_refl 4)

end Takes

end Fetch

namespace Encoding

open Fetch (Takes)

theorem takes_address16 (x : ModRM) : Takes 4 (address16 x) := by
  refine .ite (Takes.word.bind (fun _ => .pure (n := 0) _) (by decide)) ?_
  refine .ite ((Takes.signed .byte).bind (fun _ => .pure (n := 0) _) (Nat.le_refl 4)) ?_
  exact .ite ((Takes.signed .word).bind (fun _ => .pure (n := 0) _) (Nat.le_refl 4))
    ((Takes.pure (n := 0) 0).bind (fun _ => .pure (n := 0) _) (by decide))

theorem takes_baseAndIndex (x : ModRM) : Takes 1 (baseAndIndex x) :=
  .ite (Takes.byte.bind (fun _ => .pure (n := 0) _) (Nat.le_refl 1)) (.ite (.pure _) (.pure _))

theorem takes_address32 (x : ModRM) : Takes 5 (address32 x) := by
  refine (takes_baseAndIndex x).bind (k := 4) (fun ⟨base, index, scale⟩ => ?_) (Nat.le_refl 5)
  refine .ite ((Takes.signed .byte).bind (k := 0) (fun _ => .ite (.pure _) (.pure _)) ?_) ?_
  · decide
  exact .ite (Takes.dword.bind (k := 0) (fun _ => .ite (.pure _) (.pure _)) (by decide))
    ((Takes.pure (n := 0) 0).bind (k := 0) (fun _ => .ite (.pure _) (.pure _)) (by decide))

theorem takes_memory (p : Prefixes) (x : ModRM) (w : Width) : Takes 5 (memory p x w) :=
  .ite ((takes_address32 x).bind (fun _ => .pure (n := 0) _) (by decide))
    ((takes_address16 x).bind (fun _ => .pure (n := 0) _) (by decide))

theorem takes_operand (p : Prefixes) (x : ModRM) (form : OperandForm) :
    Takes 6 (operand p x form) := by
  cases form with
  | absent | fixed _ | gpr _ _ | reg _ | rmReg _ => exact .pure _
  | rm s => exact .ite (.pure _) ((takes_memory p x _).mono (by decide))
  | mem s => exact .ite (.throw _) ((takes_memory p x _).mono (by decide))
  | imm s => exact (Takes.sized _).bind (fun _ => .pure (n := 0) _) (by decide)
  | signed8 => exact Takes.byte.bind (fun _ => .pure (n := 0) _) (by decide)
  | relative s =>
    exact (Takes.signed _).bind (k := 0) (fun _ => Takes.offset.bind (fun _ => .pure (n := 0) _)
      (by decide)) (by decide)
  | far =>
    exact (Takes.sized _).bind (k := 2) (fun _ => Takes.word.bind (fun _ => .pure (n := 0) _)
      (by decide)) (by decide)
  | offset s => exact (Takes.sized _).bind (fun _ => .pure (n := 0) _) (by decide)

theorem takes_instruction (p : Prefixes) (x : ModRM) (l : Layout) :
    Takes 18 (instruction p x l) := by
  refine (takes_operand p x _).bind (k := 12) (fun _ => ?_) (by decide)
  refine (takes_operand p x _).bind (k := 6) (fun _ => ?_) (by decide)
  exact (takes_operand p x _).bind (fun _ => .pure (n := 0) _) (by decide)

theorem takes_entry (p : Prefixes) (e : Entry) : Takes 19 (entry p e) := by
  cases e with
  | plain l => exact (takes_instruction p default l).mono (by decide)
  | fields select =>
    refine Takes.byte.bind (k := 18) (fun b => ?_) (by decide)
    dsimp only
    cases select (ModRM.ofByte b).reg with
    | layout l => exact takes_instruction p _ l
    | undefined => exact .throw _
    | undefinedAfter form =>
      exact (takes_operand p _ form).bind (k := 0) (fun _ => .throw _) (by decide)
  | secondPage | undefined => exact .throw _

theorem takes_body (m : Features) (p : Prefixes) (b : UInt8) : Takes 20 (body m p b) := by
  rw [body]
  cases FirstPage.entry m b with
  | secondPage => exact Takes.byte.bind (fun _ => takes_entry p _) (by decide)
  | plain _ | fields _ | undefined => exact (takes_entry p _).mono (by decide)

theorem takes_prefixes (m : Features) (fuel : Nat) (p : Prefixes) :
    Takes (fuel + 1) (prefixes m fuel p) := by
  induction fuel generalizing p with
  | zero => exact Takes.byte.bind (k := 0) (fun _ => .throw _) (by decide)
  | succ fuel ih =>
    intro c d
    cases hNext : p.next? m c.wide (c.byteAt d.length) with
    | some p' =>
      obtain ⟨k, hk, hStop⟩ := ih p' c (d.push (c.byteAt d.length))
      refine ⟨k + 1, Nat.succ_le_succ hk, ?_⟩
      rw [Fetch.stop, prefixes_of_some hNext]
      exact hStop
    | none =>
      refine ⟨1, Nat.succ_le_succ (Nat.zero_le _), ?_⟩
      rw [Fetch.stop, prefixes_of_none hNext]
      rfl

variable {m : Features} {fuel : Nat} {p : Prefixes} {c : Code} {d d₁ : Decoder}

/-- Only a run of prefixes is refused before the opcode is known. -/
theorem isPrefix_of_refused {r : Refusal} (h : prefixes m fuel p c d = .error r d₁) {i : Nat}
    (hFrom : d.length ≤ i) (hTo : i < d.length + fuel) : m.isPrefix (c.byteAt i) = true := by
  induction fuel generalizing p d with
  | zero => omega
  | succ fuel ih =>
    cases hPrefix : m.isPrefix (c.byteAt d.length) with
    | false =>
      rw [prefixes_of_none (Prefixes.next_eq_none p c.wide hPrefix)] at h
      cases h
    | true =>
      obtain ⟨p', hNext⟩ := Prefixes.next_eq_some p c.wide hPrefix
      rw [prefixes_of_some hNext] at h
      rcases Nat.eq_or_lt_of_le hFrom with rfl | hFrom
      · exact hPrefix
      · exact ih h hFrom (by rw [Decoder.length_push]; omega)

end Encoding

/-! ### The decoder -/

namespace Decoder

variable {m : Features} {c : Code} {d : Decoder}

/-- Decoding passes at most thirty-six bytes of the code. -/
theorem snd_decode (d : Decoder) (m : Features) (c : Code) :
    ∃ k ≤ 36, (d.decode m c).2 = advance c k { d with length := 0 } := by
  obtain ⟨k, hk, hStart⟩ := Encoding.takes_prefixes m maxLength
    { op32 := c.wide, addr32 := c.wide } c { d with length := 0 }
  cases hRun : d.start m c with
  | ok a d₁ =>
    rw [Fetch.stop_of_ok hRun] at hStart
    obtain ⟨n, hn, hBody⟩ := Encoding.takes_body m a.1 a.2 c d₁
    refine ⟨k + n, Nat.add_le_add hk hn, ?_⟩
    rw [decode_of_ok hRun, Encoding.snd_afterPrefixes, hBody, hStart, advance_add]
  | error r d₁ =>
    rw [Fetch.stop_of_error hRun] at hStart
    refine ⟨k, Nat.le_trans hk (by decide), ?_⟩
    rw [decode_of_error hRun, hStart]

theorem holds_decode (d : Decoder) (m : Features) (c : Code) : (d.decode m c).2.Holds c := by
  obtain ⟨k, -, hLast⟩ := snd_decode d m c
  rw [hLast]
  exact (holds_begun d c).advance k

theorem length_decode_le (d : Decoder) (m : Features) (c : Code) :
    (d.decode m c).2.length ≤ 36 := by
  obtain ⟨k, hk, hLast⟩ := snd_decode d m c
  rw [hLast, length_advance, Nat.zero_add]
  exact hk

/-- An instruction has as many bytes as were read, unless only prefixes were. -/
theorem length_decode (d : Decoder) (m : Features) (c : Code) :
    (d.decode m c).1.length = (d.decode m c).2.length ∧ 1 ≤ (d.decode m c).1.length ∨
      (d.decode m c).1.length = 0 ∧ ∀ i < maxLength, m.isPrefix (c.byteAt i) = true := by
  cases hRun : d.start m c with
  | ok a d₁ =>
    have hPos := length_start_pos hRun
    have hLast := (Encoding.local_body m a.1 a.2).advances c d₁
    rw [← Encoding.snd_afterPrefixes] at hLast
    rw [decode_of_ok hRun]
    have hLength : (Encoding.afterPrefixes m c a.1 a.2 d₁).1.length
        = (Encoding.afterPrefixes m c a.1 a.2 d₁).2.length := by
      cases hBody : Encoding.body m a.1 a.2 c d₁ with
      | ok i d₂ => rw [Encoding.afterPrefixes_of_ok hBody, Encoding.complete]
      | error r d₂ => rw [Encoding.afterPrefixes_of_error hBody, Encoding.complete]
    exact .inl ⟨hLength, by omega⟩
  | error r d₁ =>
    refine .inr ⟨by rw [decode_of_error hRun]; rfl, fun i hi => ?_⟩
    exact Encoding.isPrefix_of_refused hRun (Nat.zero_le i) ((Nat.zero_add maxLength).symm ▸ hi)

end Decoder

/-! ### Lines -/

theorem Code.take_ofBus (b : Bus) (base : UInt32) {start : UInt32} (hStart : start ≤ 0xFFFF)
    (n : Nat) : (Code.ofBus b base start false).take n = b.codeBytes base start false n := by
  refine List.map_congr_left fun k _ => ?_
  show b.read8 (base + Code.offsetOf start false k) = _
  rw [Code.offsetOf_eq fun _ => hStart]

namespace ListingLine

/-- The code at the place of a line. -/
def code (b : Bus) (l : ListingLine) : Code :=
  .ofBus b (l.segment.toUInt32 <<< 4) l.offset false

/-- What a line shows of the code at its place. Up to sixteen bytes of an instruction are shown, and
one at least, unless the code begins with fifteen prefixes. -/
structure Shows (m : Features) (b : Bus) (l : ListingLine) : Prop where
  instruction : l.instruction = decode m (l.code b)
  bytes : l.bytes =
    b.codeBytes (l.segment.toUInt32 <<< 4) l.offset false (min 16 l.instruction.length)
  nonempty : (∃ i < 15, m.isPrefix ((l.code b).byteAt i) = false) → 1 ≤ l.bytes.length
  next : l.instruction.length ≤ 16 →
    l.next = (l.offset + UInt32.ofNat l.bytes.length) &&& 0xFFFF
  whole : l.instruction.isValid = true → l.bytes.length = l.instruction.length

variable {m : Features} {b : Bus} {d : Decoder} {segment : UInt16} {offset : UInt32}

/-- The line that the code at a place deserves. -/
def ofPlace (m : Features) (b : Bus) (segment : UInt16) (offset : UInt32) : ListingLine :=
  let i := decode m (.ofBus b (segment.toUInt32 <<< 4) offset false)
  { segment, offset, instruction := i
    bytes := b.codeBytes (segment.toUInt32 <<< 4) offset false (min 16 i.length) }

/-- What the decoder has been used for before does not show. -/
theorem fst_ofCode (hStart : offset ≤ 0xFFFF) (d : Decoder) :
    (ofCode m b d segment offset).1 = ofPlace m b segment offset := by
  let c : Code := .ofBus b (segment.toUInt32 <<< 4) offset false
  have hBytes : (d.decode m c).2.take (decode m c).length =
      b.codeBytes (segment.toUInt32 <<< 4) offset false (min 16 (decode m c).length) := by
    rw [← Code.take_ofBus b _ hStart, ← d.fst_decode m c]
    rcases d.length_decode m c with ⟨hLength, -⟩ | ⟨hLength, -⟩
    · rw [hLength]
      exact Decoder.take_of_holds (d.holds_decode m c)
    · rw [hLength]
      rfl
  rw [ofPlace, ← hBytes, ofCode, ← d.fst_decode m c]

theorem length_bytes (m : Features) (b : Bus) (segment : UInt16) (offset : UInt32) :
    (ofPlace m b segment offset).bytes.length =
      min 16 (ofPlace m b segment offset).instruction.length :=
  Bus.length_codeBytes

theorem shows_ofPlace (m : Features) (b : Bus) (segment : UInt16) (offset : UInt32) :
    (ofPlace m b segment offset).Shows m b := by
  let c : Code := .ofBus b (segment.toUInt32 <<< 4) offset false
  have hLength := length_bytes m b segment offset
  refine { instruction := rfl, bytes := rfl, nonempty := ?_, next := ?_, whole := ?_ }
  · rintro ⟨i, hi, hEnd⟩
    rw [hLength]
    rcases Decoder.length_decode {} m c with ⟨-, hPos⟩ | ⟨-, hAll⟩
    · have hPos' : 1 ≤ (ofPlace m b segment offset).instruction.length := hPos
      omega
    · exact absurd ((hAll i hi).symm.trans hEnd) (by decide)
  · intro hShort
    rw [hLength, Nat.min_eq_right hShort, next]
  · intro hValid
    have hValid' := (Decoder.length_of_valid (d := {}) hValid).2.2
    have hShort : (ofPlace m b segment offset).instruction.length ≤ 15 := hValid'
    rw [hLength]
    omega

theorem endsInRange_ofPlace (hStart : offset ≤ 0xFFFF) :
    (ofPlace m b segment offset).endsInRange = true := by
  have hOffset : offset.toNat ≤ 0xFFFF := hStart
  have hLength : (ofPlace m b segment offset).instruction.length ≤ 36 := by
    let c : Code := .ofBus b (segment.toUInt32 <<< 4) offset false
    have hRead := Decoder.length_decode_le {} m c
    show (decode m c).length ≤ 36
    rcases Decoder.length_decode {} m c with ⟨hSame, -⟩ | ⟨hZero, -⟩
    · exact hSame ▸ hRead
    · exact Nat.le_trans (Nat.le_of_eq hZero) (by decide)
  refine decide_eq_true ?_
  show offset.toNat + max 1 (ofPlace m b segment offset).instruction.length < 0x100000000
  omega

theorem next_le (l : ListingLine) : l.next ≤ 0xFFFF := wrapOffset_le _

end ListingLine

/-! ### Listings -/

/-- The lines lie one behind the other from an offset of the segment on, and show what is there. -/
def Tiles (m : Features) (b : Bus) (segment : UInt16) : UInt32 → List ListingLine → Prop
  | _, [] => True
  | offset, l :: rest =>
    l.segment = segment ∧ l.offset = offset ∧ l.Shows m b ∧ Tiles m b segment l.next rest

section Listings

variable (m : Features) (b : Bus) (segment : UInt16) {offset : UInt32}

theorem listingFrom_succ (hStart : offset ≤ 0xFFFF) (d : Decoder) (n : Nat) :
    ∃ d', listingFrom m b segment d offset (n + 1) =
      .ofPlace m b segment offset ::
        listingFrom m b segment d' (ListingLine.ofPlace m b segment offset).next n := by
  have hFirst : listingFrom m b segment d offset (n + 1) =
      (ListingLine.ofCode m b d segment offset).1 ::
        listingFrom m b segment (ListingLine.ofCode m b d segment offset).2
          (ListingLine.ofCode m b d segment offset).1.next n := rfl
  exact ⟨_, hFirst.trans (by rw [ListingLine.fst_ofCode hStart d])⟩

/-- A listing is the same for every decoder. -/
theorem listingFrom_eq (hStart : offset ≤ 0xFFFF) (d d' : Decoder) (n : Nat) :
    listingFrom m b segment d offset n = listingFrom m b segment d' offset n := by
  induction n generalizing d d' offset with
  | zero => rfl
  | succ n ih =>
    obtain ⟨e, hLine⟩ := listingFrom_succ m b segment hStart d n
    obtain ⟨e', hLine'⟩ := listingFrom_succ m b segment hStart d' n
    rw [hLine, hLine', ih (ListingLine.next_le _) e e']

theorem length_listingFrom (d : Decoder) (offset : UInt32) (n : Nat) :
    (listingFrom m b segment d offset n).length = n := by
  induction n generalizing d offset with
  | zero => rfl
  | succ n ih => rw [listingFrom, List.length_cons, ih]

theorem tiles_listingFrom (hStart : offset ≤ 0xFFFF) (d : Decoder) (n : Nat) :
    Tiles m b segment offset (listingFrom m b segment d offset n) := by
  induction n generalizing d offset with
  | zero => trivial
  | succ n ih =>
    obtain ⟨d', hLine⟩ := listingFrom_succ m b segment hStart d n
    rw [hLine]
    exact ⟨rfl, rfl, ListingLine.shows_ofPlace m b segment offset, ih (ListingLine.next_le _) d'⟩

theorem endsInRange_listingFrom (hStart : offset ≤ 0xFFFF) (d : Decoder) (n : Nat) :
    (listingFrom m b segment d offset n).all ListingLine.endsInRange = true := by
  induction n generalizing d offset with
  | zero => rfl
  | succ n ih =>
    obtain ⟨d', hLine⟩ := listingFrom_succ m b segment hStart d n
    rw [hLine, List.all_cons, ListingLine.endsInRange_ofPlace hStart,
      ih (ListingLine.next_le _) d', Bool.and_self]

/-- **The lines of a listing lie one behind the other and show what is there.** From every offset of
a segment, and for every number of lines, there is a listing, which does not depend on what the
decoder has been used for. It has that many lines, the first of them at the offset, and each shows
the bytes from its own offset on, wrapping at 64 KiB. A line shows at least one byte, unless the
code there begins with fifteen prefixes. The next line starts behind the instruction, which is
behind the bytes shown unless the instruction took more than sixteen. -/
theorem listing_tiles (hStart : offset ≤ 0xFFFF) (n : Nat) :
    ∃ lines, listing? m b segment offset n = some lines ∧
      (∀ d : Decoder, listingFrom m b segment d offset n = lines) ∧ lines.length = n ∧
      Tiles m b segment offset lines := by
  refine ⟨listing m b segment offset n, ?_, fun d => listingFrom_eq m b segment hStart d {} n,
    length_listingFrom m b segment {} offset n, tiles_listingFrom m b segment hStart {} n⟩
  exact if_pos (endsInRange_listingFrom m b segment hStart {} n)

end Listings

/-- Two lines from the last offset of a segment on: the first instruction has its second byte at the
lowest offset. -/
theorem listing_tiles_around :
    let b : Bus := .holding [0xC0]
    0xFFFF ≤ (0xFFFF : UInt32) ∧ ∃ lines, listing? Model.i8086.features b 0 0xFFFF 2 = some lines ∧
      (∀ d : Decoder, listingFrom Model.i8086.features b 0 d 0xFFFF 2 = lines) ∧ lines.length = 2 ∧
      Tiles Model.i8086.features b 0 0xFFFF lines :=
  ⟨by decide, listing_tiles Model.i8086.features (.holding [0xC0]) 0 (by decide) 2⟩

/-- A move of twenty bytes with its fourteen prefixes: sixteen are shown, and the next line starts
behind all twenty. A line that begins with fifteen prefixes shows none. -/
theorem listing_gap :
    let move : List UInt8 := [0xC7, 0x06, 0x00, 0x10, 0x34, 0x12]
    let lines (prefixes : Nat) : List ListingLine :=
      (listing? Model.i8086.features (.holding (List.replicate prefixes 0x26 ++ move)) 0 0
        2).getD []
    (lines 14).map (·.offset) = [0, 20] ∧ (lines 14).map (·.bytes.length) = [16, 2] ∧
      (0 + 16 : UInt32) &&& 0xFFFF ≠ 20 ∧ (lines 15).map (·.bytes.length) = [0, 0] := by
  decide +kernel

end X86
