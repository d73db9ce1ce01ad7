import X86.Proofs.Cpu.Sound
import X86.Proofs.Memory.Vector

/-!
# The addresses of a narrow processor

In real mode a segment starts below 1 MiB and extends over 64 KiB, so its last bytes lie above 1 MiB
but below 2 MiB.

* `Cpu.Narrow.toNat_byteAddress_lt`, `Cpu.Narrow.toNat_codeAddress_lt`: **data and code.**
* `Bus.toNat_vectorByte_lt`: the vector table.
-/

namespace X86

/-- The top of real mode: the highest segment and the highest offset. -/
theorem toNat_add_lt {base offset : UInt32} (hBase : base.toNat ≤ 0xFFFF0)
    (hOffset : offset ≤ 0xFFFF) : (base + offset).toNat < 0x200000 := by
  have h := UInt32.le_iff_toNat_le.1 hOffset
  rw [UInt32.toNat_add]
  simp at h ⊢
  omega

namespace Cpu.Narrow

variable {c : Cpu} (hc : c.Narrow)

include hc

theorem toNat_segmentBase_le (s : SegReg) : (c.segmentBase s).toNat ≤ 0xFFFF0 := by
  have hSelector := (c.regs.selector s).toNat_lt
  rw [segmentBase, hc.caches s, Descriptor.realMode, UInt32.toNat_shiftLeft,
    UInt16.toNat_toUInt32, Nat.shiftLeft_eq]
  simp
  omega

theorem toNat_byteAddress_lt {l : Location} (hl : l.wide = false) (i : Nat) :
    (c.byteAddress l i).toNat < 0x200000 :=
  toNat_add_lt (hc.toNat_segmentBase_le l.seg) ((l.add (UInt32.ofNat i)).offset_le hl)

theorem toNat_codeAddress_lt (n : Nat) :
    (c.segmentBase .cs + Code.offsetOf c.regs.eip c.code32 n).toNat < 0x200000 := by
  refine toNat_add_lt (hc.toNat_segmentBase_le .cs) ?_
  have hSmall : c.code32 = false := by
    rw [code32, show c.caches.cs = _ from hc.caches .cs]
    rfl
  rw [Code.offsetOf, hSmall, Bool.false_or]
  cases n with
  | zero =>
    change c.regs.eip + UInt32.ofNat 0 ≤ 0xFFFF
    rw [show c.regs.eip + UInt32.ofNat 0 = c.regs.eip from UInt32.add_zero _]
    exact hc.eip
  | succ n => exact wrapOffset_le _

end Cpu.Narrow

theorem Bus.toNat_vectorByte_lt (v : UInt8) {i : Nat} (hi : i < 4) :
    (vectorAddress 0 v + UInt32.ofNat i).toNat < 0x200000 := by
  have hv := v.toNat_lt
  have h := toNat_vectorAddress_add (v := v.toNat) (by omega) hi
  rw [UInt8.ofNat_toNat] at h
  omega

end X86
