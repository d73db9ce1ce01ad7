import X86.Proofs.Encoding.Generations

/-!
# What a run of prefixes says

The prefixes of an instruction are read one by one, but what they say together hardly depends on
their order: of the segment overrides the last one counts, and of the repeat bytes, and of all
others only whether they occur.

* `Prefixes.ofBytes`: what a run of prefixes says; `Prefixes.next_ofBytes`: one more.
* `Prefixes.Reorders`: other orders that say the same.
* `decode_of_opcodeAt`: decoding is reading from the opcode on under what the prefixes say.
* `decode_prefixes`: **an instruction does not depend on the order of its prefixes, and carries what
  they say.**
-/

namespace X86

namespace Prefixes

/-- The byte says how a string instruction repeats. -/
def isRepeat (b : UInt8) : Bool := b == 0xF2 || b == 0xF3

/-- The byte asks for the bus lock. -/
def isLock (b : UInt8) : Bool := b == 0xF0 || b == 0xF1

/-- The byte overrides the segment. -/
def isOverride (b : UInt8) : Bool := (Override.ofByte? b).isSome

/-- What a run of prefixes says in code of the given size. -/
def ofBytes (wide : Bool) (bytes : List UInt8) : Prefixes where
  segment := (bytes.filterMap Override.ofByte?).getLast?
  rep := (bytes.filter isRepeat).getLast?.map (· == 0xF3)
  lock := bytes.any isLock
  op32 := wide != bytes.contains 0x66
  addr32 := wide != bytes.contains 0x67

variable {m : Features} {wide : Bool} {bytes bytes' : List UInt8} {b : UInt8}

theorem ofBytes_nil (wide : Bool) : ofBytes wide [] = { op32 := wide, addr32 := wide } := by
  cases wide <;> rfl

/-- What one more byte changes. -/
theorem ofBytes_concat (wide : Bool) (bytes : List UInt8) (b : UInt8) :
    ofBytes wide (bytes ++ [b]) =
      { segment := (Override.ofByte? b).or (ofBytes wide bytes).segment
        rep := if isRepeat b then some (b == 0xF3) else (ofBytes wide bytes).rep
        lock := isLock b || (ofBytes wide bytes).lock
        op32 := if b = 0x66 then !wide else (ofBytes wide bytes).op32
        addr32 := if b = 0x67 then !wide else (ofBytes wide bytes).addr32 } := by
  simp only [ofBytes, mk.injEq]
  refine ⟨?_, ?_, ?_, ?_, ?_⟩
  · rw [List.filterMap_append, List.getLast?_append]
    cases h : Override.ofByte? b <;> simp [h]
  · rw [List.filter_append, List.getLast?_append]
    cases h : isRepeat b <;> simp [h]
  · rw [List.any_append, List.any_cons, List.any_nil, Bool.or_false, Bool.or_comm]
  all_goals
    rw [List.contains_append, List.contains_cons, List.contains_nil, Bool.or_false]
    split
    · rename_i h
      simp [h]
    · rename_i h
      rw [beq_false_of_ne (Ne.symm h), Bool.or_false]

/-- **Reading one more prefix adds it to the run.** -/
theorem next_ofBytes (bytes : List UInt8) (h : m.isPrefix b = true) :
    (ofBytes wide bytes).next? m wide b = some (ofBytes wide (bytes ++ [b])) := by
  have hByte {n : Nat} (hn : n < 256) (hb : b.toNat = n) : b = .ofNat n :=
    UInt8.toNat_inj.1 (hb.trans (UInt8.toNat_ofNat_of_lt hn).symm)
  rw [ofBytes_concat]
  unfold Features.isPrefix at h
  split at h
  case h_13 => cases h
  case h_8 | h_9 | h_10 | h_11 =>
    rename_i hb
    rw [hByte (by decide) hb]
    exact if_pos h
  case h_12 hb =>
    rw [hByte (by decide) hb]
    exact if_neg (by simpa using h)
  all_goals
    rename_i hb
    rw [hByte (by decide) hb]
    rfl

/-! ### Other orders -/

/-- The same bytes in another order, in which the overrides among themselves and the repeat bytes
among themselves stand as before. -/
structure Reorders (bytes bytes' : List UInt8) : Prop where
  perm : bytes'.Perm bytes
  overrides : bytes'.filter isOverride = bytes.filter isOverride
  repeats : bytes'.filter isRepeat = bytes.filter isRepeat

theorem filterMap_overrides (bytes : List UInt8) :
    (bytes.filter isOverride).filterMap Override.ofByte? = bytes.filterMap Override.ofByte? := by
  rw [List.filterMap_filter]
  refine congrFun (congrArg List.filterMap (funext fun b => ?_)) bytes
  cases h : Override.ofByte? b <;> simp [isOverride, h]

namespace Reorders

theorem append (h : Reorders bytes bytes') (rest : List UInt8) :
    Reorders (bytes ++ rest) (bytes' ++ rest) where
  perm := h.perm.append_right rest
  overrides := by rw [List.filter_append, List.filter_append, h.overrides]
  repeats := by rw [List.filter_append, List.filter_append, h.repeats]

/-- Other orders say the same. -/
theorem ofBytes_eq (h : Reorders bytes bytes') (wide : Bool) :
    ofBytes wide bytes' = ofBytes wide bytes := by
  have hContains (b : UInt8) : bytes'.contains b = bytes.contains b := h.perm.contains_eq
  rw [ofBytes, ofBytes, ← filterMap_overrides, h.overrides, filterMap_overrides, h.repeats,
    h.perm.any_eq, hContains, hContains]

end Reorders

end Prefixes

/-! ### Decoding from the opcode on -/

namespace Code

variable {c c' : Code} {m : Features} {k n n' : Nat}

theorem take_succ (c : Code) (n : Nat) : c.take (n + 1) = c.take n ++ [c.byteAt n] := by
  rw [take, List.range_succ, List.map_append]
  rfl

/-- A longer run is a shorter one and the bytes behind it. -/
theorem take_of_le (c : Code) (h : n ≤ k) :
    c.take k = c.take n ++ (List.range (k - n)).map fun i => c.byteAt (n + i) := by
  obtain ⟨j, rfl⟩ := Nat.exists_eq_add_of_le h
  rw [take, List.range_add, List.map_append, List.map_map, Nat.add_sub_cancel_left]
  rfl

end Code

namespace Encoding

variable {m : Features} {c : Code} {d : Decoder} {fuel k : Nat}

/-- The prefixes are read up to the opcode, whatever has been read of them. -/
theorem prefixes_of_opcodeAt (hk : c.OpcodeAt m k) (hTo : d.length ≤ k)
    (hFuel : k < d.length + fuel) :
    ∃ d₁, prefixes m fuel (.ofBytes c.wide (c.take d.length)) c d =
        .ok (.ofBytes c.wide (c.take k), c.byteAt k) d₁ ∧
      d₁.length = k + 1 := by
  induction fuel generalizing d with
  | zero => omega
  | succ fuel ih =>
    rcases Nat.eq_or_lt_of_le hTo with rfl | hLt
    · exact ⟨_, prefixes_of_none (Prefixes.next_eq_none _ c.wide hk.2), rfl⟩
    · rw [prefixes_of_some (Prefixes.next_ofBytes _ (hk.1.2 _ hLt)), ← Code.take_succ]
      exact ih (d := d.push (c.byteAt d.length)) hLt (by rw [Decoder.length_push]; omega)

end Encoding

namespace Decoder

variable {m : Features} {c : Code} {k : Nat}

theorem start_of_opcodeAt (d : Decoder) (hk : c.OpcodeAt m k) :
    ∃ d₁, d.start m c = .ok (.ofBytes c.wide (c.take k), c.byteAt k) d₁ ∧ d₁.length = k + 1 := by
  rw [start, ← Prefixes.ofBytes_nil]
  exact Encoding.prefixes_of_opcodeAt (d := { d with length := 0 }) hk (Nat.zero_le k)
    (by rw [Nat.zero_add]; exact hk.1.1)

end Decoder

section Decode

variable {m : Features} {c c' : Code} {k n : Nat}

/-- **Decoding is reading from the opcode on**, under what the prefixes say. -/
theorem decode_of_opcodeAt (hk : c.OpcodeAt m k) :
    ∃ d : Decoder, d.length = k + 1 ∧
      decode m c =
        (Encoding.afterPrefixes m c (.ofBytes c.wide (c.take k)) (c.byteAt k) d).1 := by
  obtain ⟨d, hStart, hLength⟩ := Decoder.start_of_opcodeAt {} hk
  exact ⟨d, hLength, congrArg Prod.fst (Decoder.decode_of_ok hStart)⟩

theorem opcodeAt_of_valid (h : (decode m c).isValid = true) : ∃ k, c.OpcodeAt m k := by
  obtain ⟨p, b, d, hStart, -⟩ := Decoder.start_of_valid h
  obtain ⟨k, hk, -, -⟩ := Decoder.opcodeAt_of_start hStart
  exact ⟨k, hk⟩

/-- The first `n` bytes of the code are prefixes, which stand in another order in `c'`, and the
codes have the same bytes from there to before `n'`. -/
structure Code.Reordered (c c' : Code) (m : Features) (n n' : Nat) : Prop where
  prefixes : ∀ i < n, m.isPrefix (c.byteAt i) = true
  order : Prefixes.Reorders (c.take n) (c'.take n)
  rest : c.AgreesOn c' n n'

namespace Code.Reordered

variable {n' : Nat}

theorem isPrefix (h : c.Reordered c' m n n') {i : Nat} (hi : i < n) :
    m.isPrefix (c'.byteAt i) = true := by
  have hMem : c'.byteAt i ∈ c'.take n := List.mem_map_of_mem (List.mem_range.2 hi)
  obtain ⟨j, hj, hByte⟩ := List.mem_map.1 (h.order.perm.mem_iff.1 hMem)
  rw [← hByte]
  exact h.prefixes j (List.mem_range.1 hj)

theorem le_opcode (h : c.Reordered c' m n n') (hk : c.OpcodeAt m k) : n ≤ k := by
  refine Nat.le_of_not_gt fun hLt => ?_
  have hPrefix := h.prefixes k hLt
  rw [hk.2] at hPrefix
  cases hPrefix

/-- The opcode stays where it is. -/
theorem opcodeAt (h : c.Reordered c' m n n') (hk : c.OpcodeAt m k) (hn : k < n') :
    c'.OpcodeAt m k := by
  have hLe := h.le_opcode hk
  refine ⟨⟨hk.1.1, fun i hi => ?_⟩, ?_⟩
  · rcases Nat.lt_or_ge i n with hBelow | hFrom
    · exact h.isPrefix hBelow
    · rw [h.rest.byteAt_eq i hFrom (by omega)]
      exact hk.1.2 i hi
  · rw [h.rest.byteAt_eq k hLe hn]
    exact hk.2

/-- The prefixes say the same. -/
theorem ofBytes_eq (h : c.Reordered c' m n n') (hLe : n ≤ k) (hn : k ≤ n') :
    Prefixes.ofBytes c'.wide (c'.take k) = .ofBytes c.wide (c.take k) := by
  have hRest : ((List.range (k - n)).map fun i => c'.byteAt (n + i)) =
      (List.range (k - n)).map fun i => c.byteAt (n + i) := by
    refine List.map_congr_left fun i hi => h.rest.byteAt_eq (n + i) (Nat.le_add_right n i) ?_
    have := List.mem_range.1 hi
    omega
  rw [h.rest.wide_eq, c.take_of_le hLe, c'.take_of_le hLe, hRest]
  exact (h.order.append _).ofBytes_eq c.wide

end Code.Reordered

/-- **Prefixes in another order make the same instruction.** -/
theorem decode_of_reordered (hValid : (decode m c).isValid = true)
    (h : c.Reordered c' m n (decode m c).length) : decode m c' = decode m c := by
  obtain ⟨k, hk⟩ := opcodeAt_of_valid hValid
  obtain ⟨d, hLength, hDecode⟩ := decode_of_opcodeAt hk
  rw [hDecode] at hValid h
  obtain ⟨hRead, -⟩ := Encoding.length_of_valid hValid
  have hLast : k <
      (Encoding.afterPrefixes m c (.ofBytes c.wide (c.take k)) (c.byteAt k) d).2.length := by
    have hBody := (Encoding.local_body m (.ofBytes c.wide (c.take k)) (c.byteAt k)).advances c d
    rw [Encoding.snd_afterPrefixes]
    omega
  rw [hRead] at h
  have hLe := h.le_opcode hk
  obtain ⟨d', hLength', hDecode'⟩ := decode_of_opcodeAt (h.opcodeAt hk hLast)
  rw [hDecode, hDecode', h.ofBytes_eq hLe (Nat.le_of_lt hLast), h.rest.byteAt_eq k hLe hLast]
  refine Encoding.afterPrefixes_of_valid rfl (hLength'.trans hLength.symm) ?_ hValid
  exact h.rest.sub (by omega) (Nat.le_refl _)

/-- The instruction carries what its prefixes say. The size of the operands shows in the layout that
it follows. -/
structure Instruction.Carries (i : Instruction) (m : Features) (p : Prefixes) : Prop where
  segment : i.segment = p.segment
  rep : i.rep = Encoding.repeatMode i.operation p.rep
  lock : i.lock = p.lock
  addr32 : i.addr32 = p.addr32
  layout : ∃ l x, Offered m l ∧ i.Follows l p x

theorem carries_of_opcodeAt (hValid : (decode m c).isValid = true) (hk : c.OpcodeAt m k) :
    (decode m c).Carries m (.ofBytes c.wide (c.take k)) := by
  obtain ⟨d, -, hDecode⟩ := decode_of_opcodeAt hk
  rw [hDecode] at hValid ⊢
  cases hBody : Encoding.body m (.ofBytes c.wide (c.take k)) (c.byteAt k) c d with
  | ok i d' =>
    rw [Encoding.afterPrefixes_of_ok hBody] at hValid ⊢
    by_cases hLong : d'.length > maxLength
    · rw [if_pos hLong] at hValid
      cases hValid
    · rw [if_neg hLong]
      obtain ⟨l, x, hl, hi⟩ := Encoding.follows_body hBody
      exact ⟨rfl, rfl, rfl, rfl, l, x, hl, hi.operation, hi.size, hi.dst, hi.src, hi.src2⟩
  | error r d' =>
    rw [Encoding.afterPrefixes_of_error hBody] at hValid
    cases hValid

/-- **An instruction does not depend on the order of its prefixes, and carries what they say.** Take
any model and any code in which there is an instruction.

The prefixes that it begins with, all or some of them, may stand in any order in which the segment
overrides follow each other as before and the repeat bytes do. If the rest of its bytes stays, the
code in the same place has the same instruction.

The instruction has the last override and repeats as the last repeat byte says, if it is one that
repeats. It is locked if there is a lock prefix, and its operands and addresses have the other size
than that of the code if there is a prefix for that. -/
theorem decode_prefixes (hValid : (decode m c).isValid = true) :
    (∀ n c', c.Reordered c' m n (decode m c).length → decode m c' = decode m c) ∧
      ∃ k, c.OpcodeAt m k ∧ (decode m c).Carries m (.ofBytes c.wide (c.take k)) := by
  obtain ⟨k, hk⟩ := opcodeAt_of_valid hValid
  exact ⟨fun _ _ h => decode_of_reordered hValid h, k, hk, carries_of_opcodeAt hValid hk⟩

/-- Five prefixes of a comparison, two of them overrides, in two orders. -/
theorem decode_prefixes_cmps :
    let code (bytes : List UInt8) : Code := .ofBus (.holding bytes) 0 0 false
    let i := decode Model.i80386.features (code [0x66, 0x2E, 0xF3, 0x67, 0x3E, 0xA7])
    i.isValid = true ∧
      decode Model.i80386.features (code [0xF3, 0x2E, 0x3E, 0x67, 0x66, 0xA7]) = i ∧
      i.segment = some .ds ∧ i.rep = some .repe ∧ i.addr32 = true := by
  intro code i
  have hValid : i.isValid = true := by decide +kernel
  have hLength : i.length = 6 := by decide +kernel
  obtain ⟨hOrder, k, hk, hCarries⟩ := decode_prefixes hValid
  obtain rfl := Code.OpcodeAt.unique (k := 5) (by decide +kernel) hk
  refine ⟨hValid, hOrder 5 _ ⟨by decide +kernel, ⟨?_, ?_, ?_⟩, rfl, rfl, ?_⟩, ?_, ?_, ?_⟩
  · decide +kernel
  · decide +kernel
  · decide +kernel
  · intro j hFrom hTo
    rw [hLength] at hTo
    obtain rfl : j = 5 := by omega
    decide +kernel
  · exact hCarries.segment.trans (by decide +kernel)
  · exact hCarries.rep.trans (by decide +kernel)
  · exact hCarries.addr32.trans (by decide +kernel)

end Decode

end X86
