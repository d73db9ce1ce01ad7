/-!
# Installed memory

A block of bytes. Addresses beyond it read as 0xFF, and writes there have no effect; `read_write`
says what a write does to every address.
-/

namespace X86

/-- `n` zero bytes, built by doubling. -/
def zeroBytes (n : Nat) : ByteArray :=
  if _h : n = 0 then ByteArray.empty
  else
    let half := zeroBytes (n / 2)
    let even := half ++ half
    if n % 2 = 1 then even.push 0 else even
termination_by n

/-- Installed memory. -/
structure Ram where
  data : ByteArray

namespace Ram

/-- Memory of `n` zero bytes. -/
def zeros (n : Nat) : Ram := ⟨zeroBytes n⟩

/-- The number of installed bytes. -/
def size (m : Ram) : Nat := m.data.size

/-- The byte at an address; the bus floats high where nothing is installed. -/
def read (m : Ram) (addr : UInt32) : UInt8 :=
  if h : addr.toNat < m.data.size then m.data[addr.toNat] else 0xFF

/-- Stores a byte; the store is lost where nothing is installed. -/
def write (m : Ram) (addr : UInt32) (v : UInt8) : Ram :=
  if h : addr.toNat < m.data.size then ⟨m.data.set addr.toNat v h⟩ else m

theorem size_set (a : ByteArray) (i : Nat) (v : UInt8) (h : i < a.size) :
    (a.set i v h).size = a.size :=
  @Array.size_set _ a.data i v h

@[simp] theorem size_write (m : Ram) (addr : UInt32) (v : UInt8) :
    (m.write addr v).size = m.size := by
  unfold write
  split
  · exact size_set ..
  · rfl

theorem getElem_set (a : ByteArray) (i j : Nat) (v : UInt8) (h : i < a.size)
    (hj : j < (a.set i v h).size) (hj' : j < a.size) :
    (a.set i v h)[j] = if i = j then v else a[j] :=
  @Array.getElem_set _ a.data i h v j hj

theorem read_write (m : Ram) (addr b : UInt32) (v : UInt8) :
    (m.write addr v).read b = if b = addr ∧ addr.toNat < m.size then v else m.read b := by
  by_cases h : addr.toNat < m.data.size
  · rw [write, dif_pos h]
    by_cases hb : b = addr
    · subst hb
      simp [read, size_set, h, getElem_set, size]
    · have ne : addr.toNat ≠ b.toNat := fun e => hb (UInt32.toNat_inj.1 e.symm)
      simp only [read, size_set, hb, false_and, if_false]
      split
      · rename_i hlt
        rw [getElem_set _ _ _ _ h (by rwa [size_set]) hlt, if_neg ne]
      · rfl
  · simp only [write, size, h, dif_neg, and_false, if_false, not_false_eq_true]

end Ram

theorem size_zeroBytes (n : Nat) : (zeroBytes n).size = n := by
  induction n using Nat.strongRecOn with
  | _ n ih =>
    unfold zeroBytes
    split
    · simp_all
    · rename_i h
      have half := ih (n / 2) (by omega)
      split <;> simp [half] <;> omega

@[simp] theorem Ram.size_zeros (n : Nat) : (Ram.zeros n).size = n := size_zeroBytes n

end X86
