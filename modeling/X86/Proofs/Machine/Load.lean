import X86.Proofs.Memory.Image

/-!
# Loading an image

The size of an image is checked against the memory before the A20 gate, and the gate then acts on
each of its bytes. With the gate closed two addresses meet if line 20 is all that tells them apart:
an image of more than 1 MiB is accepted, and partly stored over itself.

* `Bus.toNat_physical_closed`, `Bus.physical_eq_iff`: which addresses meet behind a closed gate.
* `Bus.survivor`, `Bus.lastAt_survivor`: the byte of an image that stays where byte `i` is stored.
* `Machine.Stored`, `Machine.Loading`: what an accepted image leaves, and the two outcomes.
* `Machine.image_stored`: **an image is refused exactly if it is too large; an accepted one is in
  memory byte for byte unless the closed gate makes two different bytes meet.**
-/

namespace X86

namespace Bus

variable {b b' : Bus} {addr a a' : UInt32} {bytes : List UInt8} {n i j : Nat}

/-! ### Addresses behind a closed gate -/

/-- A closed gate takes line 20 out of an address. -/
theorem toNat_physical_closed (h : b.a20 = false) (addr : UInt32) :
    (b.physical addr).toNat = 2 ^ 21 * (addr.toNat / 2 ^ 21) + addr.toNat % 2 ^ 20 := by
  have hMask : ∀ k < 32, Nat.testBit 0xFFEFFFFF k = decide (k ≠ 20) := by decide
  have hLow : addr.toNat % 2 ^ 20 < 2 ^ 21 := by omega
  rw [physical, if_neg (by rw [h]; exact Bool.false_ne_true), UInt32.toNat_and]
  refine Nat.eq_of_testBit_eq fun k => ?_
  rw [Nat.testBit_and, Nat.testBit_two_pow_mul_add _ hLow, Nat.testBit_mod_two_pow,
    Nat.testBit_div_two_pow]
  by_cases hk : k < 32
  · rw [show UInt32.toNat 0xFFEFFFFF = 0xFFEFFFFF from rfl, hMask k hk]
    by_cases hBelow : k < 21
    · rw [if_pos hBelow]
      by_cases hGate : k = 20
      · simp [hGate]
      · simp [hGate, show k < 20 by omega]
    · rw [if_neg hBelow, show k - 21 + 21 = k by omega]
      simp [show k ≠ 20 by omega]
  · have hOut : addr.toNat.testBit k = false :=
      Nat.testBit_lt_two_pow (Nat.lt_of_lt_of_le addr.toNat_lt (Nat.pow_le_pow_right (by omega)
        (Nat.le_of_not_lt hk)))
    rw [if_neg (by omega), show k - 21 + 21 = k by omega, hOut, Bool.false_and]

/-- Two addresses meet behind a closed gate if they agree in all lines but line 20. -/
theorem physical_eq_iff (h : b.a20 = false) :
    b.physical a = b.physical a' ↔
      a.toNat / 2 ^ 20 / 2 = a'.toNat / 2 ^ 20 / 2 ∧ a.toNat % 2 ^ 20 = a'.toNat % 2 ^ 20 := by
  rw [← UInt32.toNat_inj, toNat_physical_closed h, toNat_physical_closed h]
  omega

theorem physical_open (h : b.a20 = true) (addr : UInt32) : b.physical addr = addr := by
  rw [physical, if_pos h]

/-! ### The bytes that stay -/

/-- Of `n` bytes from `addr` on, byte `j` is the last that is stored where byte `i` is. -/
structure LastAt (b : Bus) (addr : UInt32) (n i j : Nat) : Prop where
  meets : b.physical (addr + UInt32.ofNat j) = b.physical (addr + UInt32.ofNat i)
  last : ∀ k < n, j < k → b.physical (addr + UInt32.ofNat k) ≠ b.physical (addr + UInt32.ofNat j)

/-- The byte that stays where byte `i` of `n` is stored. Bytes meet in pairs, of which the one with
line 20 high is stored later. -/
def survivor (b : Bus) (addr : UInt32) (n i : Nat) : Nat :=
  if b.a20 = false ∧ i + 2 ^ 20 < n ∧ (addr.toNat + i) / 2 ^ 20 % 2 = 0 then i + 2 ^ 20 else i

theorem survivor_lt (hi : i < n) : b.survivor addr n i < n := by
  rw [survivor]
  split
  · rename_i h
    exact h.2.1
  · exact hi

theorem lastAt_survivor (hRange : addr.toNat + n ≤ 2 ^ 32) (hi : i < n) :
    b.LastAt addr n i (b.survivor addr n i) := by
  cases hGate : b.a20 with
  | true =>
    have hSame : b.survivor addr n i = i := if_neg fun h => Bool.noConfusion (hGate.symm.trans h.1)
    rw [hSame]
    refine ⟨rfl, fun k hk hLater hMeet => ?_⟩
    have hNat := congrArg UInt32.toNat hMeet
    rw [physical_open hGate, physical_open hGate, toNat_add_ofNat hRange hk,
      toNat_add_ofNat hRange hi] at hNat
    omega
  | false =>
    have hj : b.survivor addr n i < n := survivor_lt hi
    constructor
    · rw [physical_eq_iff hGate, toNat_add_ofNat hRange hj, toNat_add_ofNat hRange hi, survivor]
      split <;> omega
    · intro k hk hLater
      rw [Ne, physical_eq_iff hGate, toNat_add_ofNat hRange hj, toNat_add_ofNat hRange hk]
      rintro ⟨hPair, hLow⟩
      -- A later byte in the same place is at least 1 MiB further on, and so in the other half.
      have hHalf : (addr.toNat + b.survivor addr n i) / 2 ^ 20 < (addr.toNat + k) / 2 ^ 20 := by
        omega
      rw [survivor] at hLater hPair hLow hHalf
      split at hLater <;> rename_i hEven
      · rw [if_pos hEven] at hPair hLow hHalf
        have hOdd : (addr.toNat + (i + 2 ^ 20)) / 2 ^ 20 = (addr.toNat + i) / 2 ^ 20 + 1 := by omega
        omega
      · rw [if_neg hEven] at hPair hLow hHalf
        have hAlone : ¬(i + 2 ^ 20 < n ∧ (addr.toNat + i) / 2 ^ 20 % 2 = 0) :=
          fun h => hEven ⟨hGate, h⟩
        omega

/-- What is read where byte `i` was stored is the last byte that was stored there. -/
theorem LastAt.read8_writeBytes (hMeet : b.LastAt addr bytes.length i j) (hj : j < bytes.length)
    (h : b.window = none) (hFits : addr.toNat + bytes.length ≤ b.ram.size) :
    (b.writeBytes addr bytes).read8 (addr + UInt32.ofNat i) = bytes[j] := by
  have hOver : Overwrites (fun _ => True) b (b.writeBytes addr bytes) :=
    overwrites_writeBytes bytes (fun k => backed_of_fits h hFits) fun _ _ => trivial
  have hNone := hOver.window_eq.trans h
  rw [← Bus.read8_writeBytes bytes (fun k => backed_of_fits h hFits) hj hMeet.last,
    read8_eq hNone, read8_eq hNone, hOver.physical_eq, hOver.physical_eq, hMeet.meets]

/-- No byte of an image is stored over a different one. -/
def Keeps (b : Bus) (addr : UInt32) (bytes : List UInt8) : Prop :=
  b.a20 = true ∨ ∀ (i : Nat) (_ : i + 2 ^ 20 < bytes.length),
    (addr.toNat + i) / 2 ^ 20 % 2 = 0 → bytes[i + 2 ^ 20] = bytes[i]

end Bus

namespace Machine

variable {m m' : Machine} {image : List UInt8} {p : FarPointer}

/-- `m'` is `m` with an image stored from `p` on and execution pointed at its start. -/
structure Stored (m : Machine) (image : List UInt8) (p : FarPointer) (m' : Machine) : Prop where
  others : m' = { m with cpu := m'.cpu, bus := m'.bus }
  /-- Only the bytes that the image is stored to can differ. -/
  memory : Bus.Overwrites
    (fun q => ∃ i < image.length, q = m.bus.physical (p.linear + UInt32.ofNat i)) m.bus m'.bus
  byte : ∀ i j (hj : j < image.length), m.bus.LastAt p.linear image.length i j →
    m'.bus.read8 (p.linear + UInt32.ofNat i) = image[j]
  cs : m'.cpu.regs.selector .cs = p.segment
  base : m'.cpu.segmentBase .cs = p.segment.toUInt32 <<< 4
  eip : m'.cpu.regs.eip = p.offset.toUInt32

/-- Byte for byte, the image is what reads from `p` on. -/
def Shows (m : Machine) (image : List UInt8) (p : FarPointer) : Prop :=
  ∀ (i : Nat) (hi : i < image.length), m.bus.read8 (p.linear + UInt32.ofNat i) = image[i]

/-- The two outcomes of loading an image. -/
inductive Loading (m : Machine) (image : List UInt8) (p : FarPointer) :
    Except ImageTooLarge Machine → Prop
  /-- The image does not fit behind its address, and no machine is made. -/
  | refused (h : m.bus.ram.size < p.linear.toNat + image.length) :
      Loading m image p (.error { size := image.length, address := p.linear })
  /-- The image is stored. Linear addresses have 32 bits, which no memory that can be configured
  uses up. -/
  | stored {m' : Machine} (hFits : p.linear.toNat + image.length ≤ m.bus.ram.size)
      (h : m.Stored image p m')
      (hShows : m.bus.ram.size ≤ 2 ^ 32 → (m'.Shows image p ↔ m.bus.Keeps p.linear image)) :
      Loading m image p (.ok m')

theorem stored_placeImage (hWindow : m.bus.window = none)
    (hFits : p.linear.toNat + image.length ≤ m.bus.ram.size) :
    m.Stored image p (m.placeImage image p) where
  others := rfl
  memory := Bus.overwrites_writeBytes image (fun _ => Bus.backed_of_fits hWindow hFits)
    fun i hi => ⟨i, hi, rfl⟩
  byte _ _ hj hLast := hLast.read8_writeBytes hj hWindow hFits
  cs := Registers.selector_setSelector _ .cs p.segment
  base := congrArg Descriptor.base (SegMap.get_set_self m.cpu.caches .cs (.realMode p.segment))
  eip := rfl

theorem Stored.setUpSegments (h : m.Stored image p m') (segment : UInt16) :
    m.Stored image p (m'.setUpSegments segment) where
  others := by rw [h.others]; rfl
  memory := h.memory
  byte := h.byte
  cs := h.cs
  base := h.base
  eip := h.eip

/-- A stored image reads back as it is exactly if no byte was stored over a different one. -/
theorem Stored.shows_iff (h : m.Stored image p m')
    (hRange : p.linear.toNat + image.length ≤ 2 ^ 32) :
    m'.Shows image p ↔ m.bus.Keeps p.linear image := by
  have hByte (i : Nat) (hi : i < image.length) :=
    h.byte i _ (Bus.survivor_lt hi) (Bus.lastAt_survivor hRange hi)
  constructor
  · intro hReads
    cases hGate : m.bus.a20 with
    | true => exact .inl hGate
    | false =>
      refine .inr fun i hLater hEven => ?_
      have hi : i < image.length := by omega
      have hPair : m.bus.survivor p.linear image.length i = i + 2 ^ 20 :=
        if_pos ⟨hGate, hLater, hEven⟩
      simpa only [hPair] using (hByte i hi).symm.trans (hReads i hi)
  · intro hKeeps i hi
    rw [hByte i hi]
    by_cases hPair : m.bus.a20 = false ∧ i + 2 ^ 20 < image.length ∧
        (p.linear.toNat + i) / 2 ^ 20 % 2 = 0
    · rcases hKeeps with hOpen | hAll
      · exact Bool.noConfusion (hPair.1.symm.trans hOpen)
      · simpa only [Bus.survivor, if_pos hPair] using hAll i hPair.2.1 hPair.2.2
    · simp only [Bus.survivor, if_neg hPair]

theorem Stored.loading (h : m.Stored image p m')
    (hFits : p.linear.toNat + image.length ≤ m.bus.ram.size) : m.Loading image p (.ok m') :=
  .stored hFits h fun hRange => h.shows_iff (Nat.le_trans hFits hRange)

theorem loading_loadImage (image : List UInt8) (p : FarPointer) (hWindow : m.bus.window = none) :
    m.Loading image p (m.loadImage image p) := by
  rw [loadImage, imageAddress?]
  by_cases hFits : p.linear.toNat + image.length ≤ m.bus.ram.size
  · rw [if_neg (Nat.not_lt.2 hFits)]
    exact (stored_placeImage hWindow hFits).loading hFits
  · rw [if_pos (Nat.lt_of_not_le hFits)]
    exact .refused (Nat.lt_of_not_le hFits)

theorem loading_loadCom (image : List UInt8) (hWindow : m.bus.window = none) :
    m.Loading image programStart (m.loadCom image) := by
  have hImage := loading_loadImage image programStart hWindow
  rw [loadCom]
  generalize m.loadImage image programStart = r at hImage
  cases hImage with
  | refused h => exact .refused h
  | stored hFits h => exact (h.setUpSegments programStart.segment).loading hFits

/-- **An image is refused exactly if it is too large for the memory behind its address, and nothing
has happened then.** An accepted one is stored and pointed at, and no other byte changes. It reads
back byte for byte unless the gate is closed and the image is longer than 1 MiB: then of two bytes
1 MiB apart whose addresses differ in line 20 alone the later one is read in both places. -/
theorem image_stored (image : List UInt8) (p : FarPointer) (hWindow : m.bus.window = none) :
    m.Loading image p (m.loadImage image p) ∧ m.Loading image programStart (m.loadCom image) :=
  ⟨loading_loadImage image p hWindow, loading_loadCom image hWindow⟩

/-- The last byte of a program of 1 MiB and a byte replaces its first one. -/
theorem image_stored_folded :
    (ofSettings {}).bus.window = none ∧
      ∃ m', (ofSettings {}).loadCom (List.replicate 0x100000 0 ++ [1]) = .ok m' ∧
        m'.bus.read8 programStart.linear = 1 := by
  have hSize : (ofSettings {}).bus.ram.size = 0x110000 := Ram.size_zeros _
  have hStart : programStart.linear.toNat = 0x86F0 := by decide
  have hFirst : programStart.linear + UInt32.ofNat 0 = programStart.linear := UInt32.add_zero _
  have hRun := (image_stored (List.replicate 0x100000 0 ++ [1]) programStart
    (show (ofSettings {}).bus.window = none from rfl)).2
  have hLength : (List.replicate 0x100000 (0 : UInt8) ++ [1]).length = 0x100001 := by
    rw [List.length_append, List.length_replicate, List.length_singleton]
  have hLast : (List.replicate 0x100000 (0 : UInt8) ++ [1])[0x100000]? = some 1 := by
    rw [List.getElem?_append_right (Nat.le_of_eq List.length_replicate), List.length_replicate]
    rfl
  refine ⟨rfl, ?_⟩
  generalize List.replicate 0x100000 (0 : UInt8) ++ [1] = image at hRun hLength hLast ⊢
  generalize (ofSettings {}).loadCom image = r at hRun ⊢
  cases hRun with
  | refused h => omega
  | stored hFits h =>
    refine ⟨_, rfl, ?_⟩
    have hPair : (ofSettings {}).bus.survivor programStart.linear image.length 0 = 0x100000 := by
      refine if_pos ⟨rfl, ?_, ?_⟩ <;> omega
    have hMeet := Bus.lastAt_survivor (b := (ofSettings {}).bus) (i := 0)
      (show programStart.linear.toNat + image.length ≤ 2 ^ 32 by omega) (by omega)
    rw [hPair] at hMeet
    have hByte := h.byte 0 0x100000 (by omega) hMeet
    rw [hFirst] at hByte
    rw [hByte]
    exact Option.some.inj ((List.getElem?_eq_getElem _).symm.trans hLast)

end Machine

end X86
