import X86.Proofs.Alu.Rotate
import X86.Proofs.Exec.Frame
import X86.Proofs.Execute.Multiply

/-!
# Bit strings in memory

A bit test whose bit number comes from a register takes memory as one string of bits, which starts
at the operand and goes on in both directions. The processor reads and writes the whole cell of the
operand size that holds the bit, wherever the cell wraps, but what it changes is one bit of one
byte.

* `testBit_joinLittle`, `testBit_byteOf`: bytes have the bits of the value.
* `BitOp.result`, `bitAt_changeBit`: what an operation makes of a bit.
* `Bus.SetsBit`: two buses differ at most in one bit of one byte.
* `Cpu.setsBit_storeBytes`: a value that differs in one bit changes one bit.
* `Cpu.bitAddress`, `Cpu.byteAddress_bitCell`: the cell has the byte with the bit.
* `Exec.performs_bitTest`: **a bit test copies the bit of the string to the carry flag, changes it
  and nothing else.**
-/

namespace X86

open Exec

variable {w : Width}

/-! ### Bits of bytes -/

theorem testBit_joinLittle (byte : Nat → UInt8) {n k : Nat} (hk : k < 8 * n) :
    (joinLittle byte n).testBit k = (byte (k / 8)).toNat.testBit (k % 8) := by
  induction n generalizing byte k with
  | zero => omega
  | succ n ih =>
    have hHead : joinLittle byte (n + 1) =
        2 ^ 8 * joinLittle (fun i => byte (i + 1)) n + (byte 0).toNat :=
      Nat.add_comm _ _
    rw [hHead, Nat.testBit_two_pow_mul_add _ (byte 0).toNat_lt]
    by_cases hLow : k < 8
    · rw [if_pos hLow, Nat.div_eq_of_lt hLow, Nat.mod_eq_of_lt hLow]
    · have hDiv : (k - 8) / 8 + 1 = k / 8 := by omega
      have hMod : (k - 8) % 8 = k % 8 := by omega
      rw [if_neg hLow, ih (fun i => byte (i + 1)) (by omega), hDiv, hMod]

theorem testBit_byteOf (v : UInt32) (i : Nat) {k : Nat} (hk : k < 8) :
    (byteOf v i).toNat.testBit k = bitAt v (8 * i + k) := by
  have hByte : (byteOf v i).toNat = v.toNat >>> (8 * i) % 2 ^ 8 := toNat_byteOf v i
  rw [hByte, Nat.testBit_mod_two_pow, decide_eq_true hk, Bool.true_and, Nat.testBit_shiftRight,
    bitAt]

theorem eq_of_testBit_lt {x y : UInt8} (h : ∀ k < 8, x.toNat.testBit k = y.toNat.testBit k) :
    x = y := by
  refine UInt8.toNat_inj.1 (Nat.eq_of_testBit_eq fun k => ?_)
  rcases Nat.lt_or_ge k 8 with hk | hk
  · exact h k hk
  · have hTop (v : UInt8) : v.toNat < 2 ^ k :=
      Nat.lt_of_lt_of_le v.toNat_lt (Nat.pow_le_pow_right (by decide) hk)
    rw [Nat.testBit_lt_two_pow (hTop x), Nat.testBit_lt_two_pow (hTop y)]

/-! ### What becomes of a bit -/

/-- What an operation makes of a bit. -/
def BitOp.result : BitOp → Bool → Bool
  | .bt, v => v
  | .bts, _ => true
  | .btr, _ => false
  | .btc, v => !v

/-- What an operation does to its cell. -/
def BitOp.access : BitOp → AccessKind
  | .bt => .read
  | .bts | .btr | .btc => .write

/-- The word in which only one bit is set. -/
def bitMask (n : Nat) : UInt32 := UInt32.ofNat (1 <<< n)

theorem bitAt_bitMask {n k : Nat} (hk : k < 32) : bitAt (bitMask n) k = decide (n = k) := by
  rw [bitAt, bitMask, UInt32.toNat_ofNat', Nat.testBit_mod_two_pow, decide_eq_true hk,
    Bool.true_and, Nat.one_shiftLeft, Nat.testBit_two_pow]

/-- A mask of one bit picks that bit. -/
theorem and_bitMask_bne_zero (v : UInt32) {n : Nat} (hn : n < 32) :
    (v &&& bitMask n != 0) = bitAt v n := by
  have hBit {k : Nat} (hk : k < 32) :
      bitAt (v &&& bitMask n) k = (bitAt v k && decide (n = k)) := by
    rw [bitAt_and, bitAt_bitMask hk]
  have hZero (k : Nat) : bitAt 0 k = false := Nat.zero_testBit k
  cases hSet : bitAt v n with
  | true =>
    refine bne_iff_ne.2 fun hEq => ?_
    have hTrue := hBit hn
    rw [hEq, hSet, decide_eq_true rfl, hZero] at hTrue
    cases hTrue
  | false =>
    refine bne_eq_false_iff_eq.2 (eq_of_bitAt fun k hk => ?_)
    rw [hBit hk, hZero]
    by_cases hSame : n = k
    · rw [← hSame, hSet, Bool.false_and]
    · rw [decide_eq_false hSame, Bool.and_false]

/-- An operation changes the bit of the mask and no other. -/
theorem bitAt_changeBit {op : BitOp} {v res : UInt32} {n : Nat}
    (h : changeBit op v (bitMask n) = some res) {k : Nat} (hk : k < 32) :
    bitAt res k = if k = n then op.result (bitAt v k) else bitAt v k := by
  have hMask : bitAt (bitMask n) k = decide (k = n) := by
    rw [bitAt_bitMask hk, decide_eq_decide]
    exact eq_comm
  cases op with
  | bt => cases h
  | bts =>
    cases h
    rw [bitAt_or, hMask]
    by_cases hSame : k = n
    · rw [if_pos hSame, decide_eq_true hSame, Bool.or_true, BitOp.result]
    · rw [if_neg hSame, decide_eq_false hSame, Bool.or_false]
  | btr =>
    cases h
    rw [bitAt_and, bitAt_not _ hk, hMask]
    by_cases hSame : k = n
    · rw [if_pos hSame, decide_eq_true hSame, Bool.not_true, Bool.and_false, BitOp.result]
    · rw [if_neg hSame, decide_eq_false hSame, Bool.not_false, Bool.and_true]
  | btc =>
    cases h
    rw [bitAt_xor, hMask]
    by_cases hSame : k = n
    · rw [if_pos hSame, decide_eq_true hSame, Bool.xor_true, BitOp.result]
    · rw [if_neg hSame, decide_eq_false hSame, Bool.xor_false]

/-- A plain test stores nothing, the others do. -/
theorem changeBit_eq_none {op : BitOp} {v mask : UInt32} :
    changeBit op v mask = none ↔ op = .bt := by
  cases op <;> simp [changeBit]

/-! ### One bit of memory -/

namespace Bus

variable {S T : UInt32 → Prop} {b b' : Bus} {addr : UInt32}

theorem Backed.read8_eq (h : b.Backed addr) : b.read8 addr = b.ram.read (b.physical addr) := by
  rw [read8, h.unhooked]

/-- Addresses where the bytes are the same need not be counted. -/
theorem Overwrites.shrink (h : Overwrites S b b')
    (hSame : ∀ p, S p → ¬ T p → b'.ram.read p = b.ram.read p) : Overwrites T b b' where
  eq := h.eq
  size := h.size
  outside p hp := by
    by_cases hS : S p
    · exact hSame p hS hp
    · exact h.outside p hS

/-- `b'` is `b` with the value `v` in bit `n` of the byte at an address. -/
structure SetsBit (b b' : Bus) (addr : UInt32) (n : Nat) (v : Bool) : Prop where
  overwrites : Overwrites (· = b.physical addr) b b'
  bits : ∀ k < 8, (b'.read8 addr).toNat.testBit k =
    if k = n then v else (b.read8 addr).toNat.testBit k

end Bus

namespace Cpu

variable {c : Cpu} {b : Bus} {l : Location}

theorem bitAt_loadBytes {k : Nat} (hk : k < w.bits) :
    bitAt (c.loadBytes b l w) k = (b.read8 (c.byteAddress l (k / 8))).toNat.testBit (k % 8) := by
  rw [w.bits_eq] at hk
  rw [bitAt, loadBytes, UInt32.toNat_ofNat', Nat.mod_eq_of_lt (joinLittle_bytes_lt _ w),
    testBit_joinLittle _ hk]

/-- A stored value that differs from the loaded one in at most one bit changes one bit of one byte:
the other bytes are stored as they were. -/
theorem setsBit_storeBytes {res : UInt32} {n : Nat} {v : Bool} (hn : n < w.bits)
    (hBacked : ∀ k < w.bytes, b.Backed (c.byteAddress l k))
    (hRes : ∀ k < w.bits, bitAt res k = if k = n then v else bitAt (c.loadBytes b l w) k) :
    b.SetsBit (c.storeBytes b l res w.bytes) (c.byteAddress l (n / 8)) (n % 8) v := by
  have hBits := w.bits_eq
  have hCount : w.bytes ≤ 0x10000 := by cases w <;> decide
  have hStored {i : Nat} (hi : i < w.bytes) :
      (c.storeBytes b l res w.bytes).read8 (c.byteAddress l i) = byteOf res i :=
    read8_storeBytes res hBacked hCount hi
  have hOver : Bus.Overwrites (fun p => ∃ i < w.bytes, p = b.physical (c.byteAddress l i)) b
      (c.storeBytes b l res w.bytes) :=
    overwrites_storeBytes res (fun i hi => (hBacked i hi).unhooked) fun i hi => ⟨i, hi, rfl⟩
  have hBit {i k : Nat} (hi : i < w.bytes) (hk : k < 8) :
      (byteOf res i).toNat.testBit k = if i = n / 8 ∧ k = n % 8 then v
        else (b.read8 (c.byteAddress l i)).toNat.testBit k := by
    have hDiv : (8 * i + k) / 8 = i := by omega
    have hMod : (8 * i + k) % 8 = k := by omega
    have hSame : 8 * i + k = n ↔ i = n / 8 ∧ k = n % 8 := by omega
    rw [testBit_byteOf res i hk, hRes _ (by omega), bitAt_loadBytes (by omega), hDiv, hMod]
    simp only [hSame]
  refine ⟨hOver.shrink ?_, ?_⟩
  · rintro p ⟨i, hi, rfl⟩ hOther
    have hNe : i ≠ n / 8 := by
      rintro rfl
      exact hOther rfl
    have hByte : byteOf res i = b.read8 (c.byteAddress l i) := by
      refine eq_of_testBit_lt fun k hk => ?_
      rw [hBit hi hk, if_neg fun h => hNe h.1]
    have hBack := hOver.backed (hBacked i hi)
    rw [← (hBacked i hi).read8_eq, ← hByte, ← hStored hi, hBack.read8_eq, hOver.physical_eq]
  · intro k hk
    rw [hStored (by omega), hBit (by omega) hk]
    simp only [true_and]

end Cpu

/-! ### Bit numbers -/

/-- The cell of the operand size that holds bit `n` of the string at a location. -/
def Location.bitCell (l : Location) (w : Width) (n : Int) : Location :=
  l.add (UInt32.ofInt (n / w.bits * w.bytes))

/-- The linear address of the byte that holds bit `n` of the string at a location: bits are numbered
from the low end of the first byte on, in both directions, and offsets wrap. -/
def Cpu.bitAddress (c : Cpu) (l : Location) (n : Int) : UInt32 :=
  c.segmentBase l.seg +
    UInt32.ofInt ((l.offset.toNat + n / 8) % (if l.wide then Width.dword else .word).values)

/-- Bit `n` of the string at a location. -/
def Machine.stringBit (m : Machine) (l : Location) (n : Int) : Bool :=
  (m.bus.read8 (m.cpu.bitAddress l n)).toNat.testBit (n % 8).toNat

theorem ofInt_natCast (k : Nat) : UInt32.ofInt k = UInt32.ofNat k := by
  rw [← UInt32.toNat_inj, ← Int.ofNat_inj, toNat_ofInt, UInt32.toNat_ofNat']
  omega

theorem Location.offset_add_add (l : Location) (x y : UInt32) :
    ((l.add x).add y).offset = (l.add (x + y)).offset := by
  have hWrap := wrapOffset_add l.wide (l.offset + x) y
  rw [UInt32.add_assoc] at hWrap
  exact hWrap

/-- An offset moves by a signed distance, and wraps. -/
theorem Location.offset_add_ofInt (l : Location) (z : Int) :
    (l.add (UInt32.ofInt z)).offset =
      UInt32.ofInt ((l.offset.toNat + z) % (if l.wide then Width.dword else .word).values) := by
  have hSum : ((l.offset + UInt32.ofInt z).toNat : Int) = (l.offset.toNat + z) % 0x100000000 := by
    have hDistance := toNat_ofInt z
    rw [UInt32.toNat_add]
    omega
  change wrapOffset l.wide (l.offset + UInt32.ofInt z) = _
  rw [← UInt32.toNat_inj, toNat_wrapOffset, ← Int.ofNat_inj, toNat_ofInt]
  cases l.wide with
  | true => simp only [if_true, Width.values]; omega
  | false => simp only [Bool.false_eq_true, if_false, Width.values]; omega

/-- The bit lies in its cell. -/
theorem Cpu.byteAddress_bitCell (c : Cpu) (l : Location) (w : Width) (n : Int) :
    c.byteAddress (l.bitCell w n) ((n % w.bits).toNat / 8) = c.bitAddress l n := by
  have hWhole : n / w.bits * w.bytes + ((n % w.bits).toNat / 8 : Nat) = n / 8 := by
    cases w <;> simp only [Width.bits, Width.bytes] <;> omega
  have hDistance : UInt32.ofInt (n / w.bits * w.bytes) + UInt32.ofNat ((n % w.bits).toNat / 8) =
      UInt32.ofInt (n / 8) := by
    rw [← hWhole, UInt32.ofInt_add, ofInt_natCast]
  rw [byteAddress, Location.bitCell, Location.offset_add_add, hDistance, Location.offset_add_ofInt,
    bitAddress]
  rfl

/-- The number of the bit in its cell. -/
theorem Width.toNat_truncate_mod_bits (w : Width) (v : UInt32) :
    (w.truncate v).toNat % w.bits = (w.toInt v % w.bits).toNat := by
  rw [toInt_eq]
  split
  · rw [← Int.natCast_emod, Int.toNat_natCast]
  · cases w <;> simp only [values, bits] <;> omega

/-! ### The test -/

/-- Replaces the carry flag. -/
def Cpu.withCarry (c : Cpu) (v : Bool) : Cpu := c.setFlags { c.regs.flags with carry := v }

/-- The machine after a test of bit `k` of a cell. -/
def Machine.tested (m : Machine) (op : BitOp) (w : Width) (cell : Location) (k : Nat) : Machine :=
  let v := m.cpu.loadBytes m.bus cell w
  { m with
    cpu := m.cpu.withCarry (v &&& bitMask k != 0)
    bus := (changeBit op v (bitMask k)).elim m.bus fun res =>
      m.cpu.storeBytes m.bus cell res w.bytes }

namespace Exec

variable {m : Machine} {i : Instruction} {op : BitOp} {l cell : Location} {r : Register} {n : Int}

theorem cpu_tested (m : Machine) (op : BitOp) (cell : Location) {k : Nat} (hk : k < w.bits) :
    (m.tested op w cell k).cpu =
      m.cpu.withCarry ((m.bus.read8 (m.cpu.byteAddress cell (k / 8))).toNat.testBit (k % 8)) := by
  have hWord := w.bits_le
  rw [Machine.tested, and_bitMask_bne_zero _ (by omega), Cpu.bitAt_loadBytes hk]

/-- A test changes one bit of one byte of its cell, and a plain test keeps that one too. -/
theorem setsBit_tested (m : Machine) (op : BitOp) {k : Nat} (hk : k < w.bits)
    (hBacked : ∀ k < w.bytes, m.bus.Backed (m.cpu.byteAddress cell k)) :
    m.bus.SetsBit (m.tested op w cell k).bus (m.cpu.byteAddress cell (k / 8)) (k % 8)
      (op.result ((m.bus.read8 (m.cpu.byteAddress cell (k / 8))).toNat.testBit (k % 8))) := by
  have hWord := w.bits_le
  have hOld : bitAt (m.cpu.loadBytes m.bus cell w) k =
      (m.bus.read8 (m.cpu.byteAddress cell (k / 8))).toNat.testBit (k % 8) := Cpu.bitAt_loadBytes hk
  rw [Machine.tested]
  cases hChange : changeBit op (m.cpu.loadBytes m.bus cell w) (bitMask k) with
  | none =>
    obtain rfl := changeBit_eq_none.1 hChange
    refine ⟨.refl _, fun j hj => ?_⟩
    by_cases hSame : j = k % 8
    · rw [if_pos hSame, hSame]
      rfl
    · rw [if_neg hSame]
      rfl
  | some res =>
    refine Cpu.setsBit_storeBytes hk hBacked fun j hj => ?_
    rw [bitAt_changeBit hChange (by omega)]
    by_cases hSame : j = k
    · rw [if_pos hSame, if_pos hSame, hSame, hOld]
    · rw [if_neg hSame, if_neg hSame]

theorem mayAccess_read_of_access {c : Cpu} (h : c.mayAccess l w.bytes op.access = true) :
    c.mayAccess l w.bytes .read = true := by
  cases op with
  | bt => exact h
  | bts | btr | btc => exact Cpu.mayAccess_read_of_write h

/-- The cell is loaded, changed and stored, unless the test is a plain one. -/
theorem bitTest_apply (hSize : i.size = w) (hDst : m.cpu.resolve i.dst i.addr32 = .mem l)
    (hSrc : i.src = .reg r) (hn : w.toInt (m.cpu.regs.read r) = n)
    (hMay : m.cpu.mayAccess (l.bitCell w n) w.bytes op.access = true) :
    bitTest op i m = .ok () (m.tested op w (l.bitCell w n) (n % w.bits).toNat) := by
  subst hSize
  let number := i.size.truncate (m.cpu.regs.read r)
  let mask := bitMask (n % i.size.bits).toNat
  let v := m.cpu.loadBytes m.bus (l.bitCell i.size n) i.size
  have hNumber : readPlace (.reg r) i.size m = .ok number m := readPlace_apply ..
  have hCell : bitPlace i.size (.mem l) (.reg r) number = .mem (l.bitCell i.size n) := by
    rw [bitPlace, Width.toInt_truncate, hn]
    rfl
  have hMask : UInt32.ofNat (1 <<< (number.toNat % i.size.bits)) = mask := by
    rw [Width.toNat_truncate_mod_bits, hn]
    rfl
  have hRead : readPlace (.mem (l.bitCell i.size n)) i.size m = .ok v m := by
    change readMem (l.bitCell i.size n) i.size m = _
    rw [readMem_eq, if_pos (mayAccess_read_of_access hMay)]
  have hSource : m.cpu.resolve i.src i.addr32 = .reg r := by
    rw [hSrc]
    rfl
  rw [bitTest, bind_of_ok (place_apply i i.dst m), bind_of_ok (place_apply i i.src m), hDst,
    hSource, bind_of_ok hNumber, hCell, hMask, bind_of_ok hRead, Machine.tested]
  cases hChange : changeBit op v mask with
  | none => rfl
  | some res =>
    have hWrites : op.access = .write := by
      cases op with
      | bt => cases hChange
      | bts | btr | btc => rfl
    rw [hWrites] at hMay
    have hWrite := (writeMem_eq (l.bitCell i.size n) i.size res m).trans (if_pos hMay)
    exact bind_of_ok hWrite

/-- **A bit test copies a bit to the carry flag and changes it.** It is the bit of the string that
starts at the operand, with the number in the register, as a signed number of the operand size. No
other bit of memory changes, and no other flag. -/
theorem performs_bitTest (hi : i.Does (.bitTest op) w)
    (hDst : m.cpu.resolve i.dst i.addr32 = .mem l) (hSrc : i.src = .reg r)
    (hn : w.toInt (m.cpu.regs.read r) = n)
    (hMay : m.cpu.mayAccess (l.bitCell w n) w.bytes op.access = true)
    (hBacked : ∀ k < w.bytes, m.bus.Backed (m.cpu.byteAddress (l.bitCell w n) k)) :
    ∃ b, Performs i m { fetched m i with
        cpu := (m.cpu.begin i).withCarry (m.stringBit l n)
        bus := b } ∧
      m.bus.SetsBit b (m.cpu.bitAddress l n) (n % 8).toNat (op.result (m.stringBit l n)) ∧
      (op = .bt → b = m.bus) := by
  have hResolve : (fetched m i).cpu.resolve i.dst i.addr32 = .mem l :=
    (resolve_begin m.cpu i i.dst i.addr32).trans hDst
  have hRun := bitTest_apply (m := fetched m i) hi.size hResolve hSrc hn hMay
  let k := (n % w.bits).toNat
  let m' := (fetched m i).tested op w (l.bitCell w n) k
  have hk : k < w.bits ∧ k % 8 = (n % 8).toNat := by
    cases w <;> simp only [k, Width.bits] <;> omega
  have hAddress : (fetched m i).cpu.byteAddress (l.bitCell w n) (k / 8) = m.cpu.bitAddress l n :=
    m.cpu.byteAddress_bitCell l w n
  have hBit := setsBit_tested (fetched m i) op hk.1 hBacked
  have hCpu := cpu_tested (fetched m i) op (l.bitCell w n) hk.1
  rw [hAddress, hk.2] at hBit hCpu
  refine ⟨m'.bus, ?_, hBit, ?_⟩
  · rw [Performs, perform_of_does hi, once, hi.operation]
    have hEnd : m' = { fetched m i with
        cpu := (m.cpu.begin i).withCarry (m.stringBit l n)
        bus := m'.bus } :=
      congrArg (fun c : Cpu => { fetched m i with cpu := c, bus := m'.bus }) hCpu
    rw [← hEnd]
    exact hRun
  · rintro rfl
    rfl

/-- A bit below the operand, in a cell that starts at the end of the segment. -/
theorem performs_bitTest_below :
    let m : Machine :=
      { cpu :=
          { model := .i80386
            regs :=
              { gprs := { eax := 0xFFFFFFF7, ebx := 2 }, flags := { carry := true, zero := true } }
            caches := (SegMap.replicate (Descriptor.realMode 0)).set .ds
              { base := 4, limit := 0xFFFF, access := 0x93 } }
        bus := { ram := ⟨⟨#[0, 0, 0x11, 0x22, 0x33, 0x44, 0, 0]⟩⟩ } }
    let i : Instruction :=
      { operation := .bitTest .btc, dst := .mem .dword none (.indexed (some .bx) none 1 0)
        src := .reg (.dword .ax), size := .dword, addr32 := true, length := 4 }
    let l : Location := .of .ds 2 true
    i.Does (.bitTest .btc) .dword ∧ m.cpu.resolve i.dst i.addr32 = .mem l ∧
      Width.dword.toInt (m.cpu.regs.read (.dword .ax)) = -9 ∧
      m.cpu.mayAccess (l.bitCell .dword (-9)) Width.dword.bytes BitOp.btc.access = true ∧
      (∀ k < Width.dword.bytes, m.bus.Backed (m.cpu.byteAddress (l.bitCell .dword (-9)) k)) ∧
      m.cpu.bitAddress l (-9) = 4 ∧
      ∃ m', Performs i m m' ∧ m'.cpu.regs.flags = { zero := true } ∧
        Bus.Overwrites (· = 4) m.bus m'.bus ∧ m'.bus.read8 4 = 0xB3 := by
  intro m i l
  have hi : i.Does (.bitTest .btc) .dword := ⟨rfl, rfl, rfl⟩
  have hDst : m.cpu.resolve i.dst i.addr32 = .mem l := by decide +kernel
  have hNumber : Width.dword.toInt (m.cpu.regs.read (.dword .ax)) = -9 := by decide +kernel
  have hMay : m.cpu.mayAccess (l.bitCell .dword (-9)) Width.dword.bytes BitOp.btc.access = true :=
    by decide +kernel
  have hInstalled : ∀ k < Width.dword.bytes,
      (m.bus.physical (m.cpu.byteAddress (l.bitCell .dword (-9)) k)).toNat < m.bus.ram.size := by
    decide +kernel
  have hBacked : ∀ k < Width.dword.bytes,
      m.bus.Backed (m.cpu.byteAddress (l.bitCell .dword (-9)) k) := fun k hk =>
    ⟨Bus.windowAt_eq_none rfl _, hInstalled k hk⟩
  have hAddress : m.cpu.bitAddress l (-9) = 4 := by decide +kernel
  have hOld : m.stringBit l (-9) = false := by decide +kernel
  obtain ⟨b, hRun, hBit, -⟩ := performs_bitTest hi hDst rfl hNumber hMay hBacked
  rw [hAddress, hOld] at hBit
  refine ⟨hi, hDst, hNumber, hMay, hBacked, hAddress, _, hRun, ?_, ?_, ?_⟩
  · rw [hOld]
    rfl
  · exact hBit.overwrites
  · refine eq_of_testBit_lt fun k hk => ?_
    have hByte : ∀ k < 8, (if k = ((-9 : Int) % 8).toNat then BitOp.btc.result false
        else (m.bus.read8 4).toNat.testBit k) = (UInt8.toNat 0xB3).testBit k := by
      decide +kernel
    exact (hBit.bits k hk).trans (hByte k hk)

end Exec

end X86
