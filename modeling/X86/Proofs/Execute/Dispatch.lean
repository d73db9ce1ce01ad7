import X86.Proofs.Execute.Control
import X86.Proofs.Execute.System

/-!
# Footprints of instructions

`Instruction.changes` lists the kinds of change that an instruction can make, by its operation and
its destination.

* `restartable_once`: **an instruction that does not repeat is restartable.** Four handlers count on
  an operand that the decoder makes a register or a constant: `Instruction.WellFormed`. Seven
  operations can store something, or speak to a device, before they fault: `Operation.spills`.
* `reverts_of_fault`: what it has changed before a fault can be taken back.
* `changes_perform`: an instruction changes nothing else, however often it repeats.

`Instruction.Allowed` says what else the handlers count on: the sizes and operands exist on the
model, and a selector stands only where it is loaded or stored.

* `composed_perform`: **an allowed instruction is composed of moves.**
-/

namespace X86

/-- The kinds of change that an instruction can make. -/
def Instruction.changes (i : Instruction) : List ChangeKind :=
  match i.operation with
  | .binary _ | .unary _ | .shift _ | .shiftLeftDouble | .shiftRightDouble | .multiply _
  | .multiplyCut | .decimal _ | .aam | .aad | .bitTest _ | .bitScan _ | .arpl => [.general, .flags]
  | .test | .sahf | .popf => [.flags]
  | .divide _ | .extendAccumulator | .extendData | .movExtend _ | .xchg | .lea | .xlat | .popa
  | .lahf | .setcc _ | .salc | .loop _ | .enter | .leave | .smsw | .storeSelector _ => [.general]
  | .mov | .pop => .general :: i.dst.kinds
  | .loadFar s => [.general, .ofSegment s]
  | .flag .sti => [.flags, .hold]
  | .flag _ => [.flags]
  | .input => [.general, .port]
  | .output => [.port]
  | .string _ => [.general, .flags, .port]
  | .jumpFar | .callFar | .returnFar => [.code]
  | .int => [.code, .flags, .service]
  | .iret => [.code, .flags]
  | .hlt => [.halt, .death]
  | .clts | .lmsw | .loadTable _ | .loadSelector _ => [.system]
  | .push | .pusha | .pushf | .jumpNear | .jcc _ | .callNear | .returnNear | .bound | .int3
  | .into | .nop | .wait | .escape | .storeTable _ | .invalid .. => []

/-- No instruction takes another one back. -/
theorem restore_not_mem_changes (i : Instruction) : ChangeKind.restore ∉ i.changes := by
  have hKinds (o : Operand) : ChangeKind.restore ∉ o.kinds := fun h => by
    simpa using Operand.mem_kinds h
  rw [Instruction.changes]
  cases i.operation with
  | mov | pop => simp [hKinds]
  | loadFar s => cases s <;> simp [ChangeKind.ofSegment]
  | flag op => cases op <;> simp
  | _ => simp

/-- The operation can store something, or speak to a device, before it faults: it makes several
stores, or one after the answer of a device. -/
def Operation.spills : Operation → Bool
  | .pusha | .callFar | .enter | .int | .storeTable _ | .string .ins => true
  | _ => false

/-- What the handlers count on in the operands of an instruction. -/
structure Instruction.WellFormed (i : Instruction) : Prop where
  input_dst : i.operation = .input → ∃ r, i.dst = .reg r
  xchg_src : i.operation = .xchg → ∃ r, i.src = .reg r
  loadFar_dst : ∀ s, i.operation = .loadFar s → ∃ r, i.dst = .reg r
  loop_dst : ∀ op, i.operation = .loop op → Exec.IsConstant i.dst

namespace Exec

variable {K : ChangeKind → Prop} {S : Prop}

theorem restartable_refuse (bytes : List UInt8) (reason : Refusal) (i : Instruction) :
    Restartable K S (refuse bytes reason i) :=
  .after_reads .regs fun _ => .after_quiet (.log _) fun _ => .fault _

/-- **An instruction that does not repeat is restartable.** -/
theorem restartable_once {i : Instruction} (hi : i.WellFormed) (hK : ∀ k ∈ i.changes, K k)
    (hS : i.operation.spills = true → S) : Restartable K S (once i) := by
  rw [once]
  rw [Instruction.changes] at hK
  revert hK
  cases hop : i.operation with
    rw [hop] at hS
  | binary op => exact fun hK => restartable_binary (hK _ (.head _)) (hK _ (.tail _ (.head _))) op i
  | unary op => exact fun hK => restartable_unary (hK _ (.head _)) (hK _ (.tail _ (.head _))) op i
  | shift op => exact fun hK => restartable_shift (hK _ (.head _)) (hK _ (.tail _ (.head _))) op i
  | shiftLeftDouble =>
    exact fun hK => restartable_doubleShift (hK _ (.head _)) (hK _ (.tail _ (.head _)))
      canShift_shldAmounts _ i
  | shiftRightDouble =>
    exact fun hK => restartable_doubleShift (hK _ (.head _)) (hK _ (.tail _ (.head _)))
      canShift_shrdAmounts _ i
  | multiply signed =>
    exact fun hK => restartable_multiply (hK _ (.head _)) (hK _ (.tail _ (.head _))) signed i
  | multiplyCut =>
    exact fun hK => restartable_multiplyCut (hK _ (.head _)) (hK _ (.tail _ (.head _))) i
  | divide signed => exact fun hK => restartable_divide (hK _ (.head _)) signed i
  | decimal op => exact fun hK => restartable_decimal (hK _ (.head _)) (hK _ (.tail _ (.head _))) op
  | aam => exact fun hK => restartable_aam (hK _ (.head _)) (hK _ (.tail _ (.head _))) i
  | aad => exact fun hK => restartable_aad (hK _ (.head _)) (hK _ (.tail _ (.head _))) i
  | test => exact fun hK => restartable_test (hK _ (.head _)) i
  | bitTest op =>
    exact fun hK => restartable_bitTest (hK _ (.head _)) (hK _ (.tail _ (.head _))) op i
  | bitScan op =>
    exact fun hK => restartable_bitScan (hK _ (.head _)) (hK _ (.tail _ (.head _))) op i
  | extendAccumulator => exact fun hK => restartable_extendAccumulator (hK _ (.head _)) i
  | extendData => exact fun hK => restartable_extendData (hK _ (.head _)) i
  | mov => exact fun hK => restartable_mov (hK _ (.head _)) i fun k hk => hK k (.tail _ hk)
  | movExtend signed => exact fun hK => restartable_movExtend (hK _ (.head _)) signed i
  | xchg =>
    obtain ⟨r, hr⟩ := hi.xchg_src hop
    exact fun hK => restartable_xchg (hK _ (.head _)) i hr
  | lea => exact fun hK => restartable_lea (hK _ (.head _)) i
  | loadFar s =>
    obtain ⟨r, hr⟩ := hi.loadFar_dst s hop
    exact fun hK => restartable_loadFar (hK _ (.head _)) s (hK _ (.tail _ (.head _))) i hr
  | xlat => exact fun hK => restartable_xlat (hK _ (.head _)) i
  | push => exact fun _ => restartable_pushOperand i
  | pop => exact fun hK => restartable_popOperand (hK _ (.head _)) i fun k hk => hK k (.tail _ hk)
  | pusha => exact fun _ => restartable_pusha (hS rfl) i
  | popa => exact fun hK => restartable_popa (hK _ (.head _)) i
  | pushf => exact fun _ => restartable_pushf i
  | popf => exact fun hK => restartable_popf (hK _ (.head _)) i
  | lahf => exact fun hK => restartable_lahf (hK _ (.head _))
  | sahf => exact fun hK => restartable_sahf (hK _ (.head _))
  | flag op =>
    intro hK
    refine restartable_flag ?_ op fun hop => ?_
    · cases op <;> exact hK _ (.head _)
    · subst hop
      exact hK _ (.tail _ (.head _))
  | input =>
    obtain ⟨r, hr⟩ := hi.input_dst hop
    exact fun hK => restartable_inputPort (hK _ (.head _)) (hK _ (.tail _ (.head _))) i hr
  | output => exact fun hK => restartable_outputPort (hK _ (.head _)) i
  | setcc c => exact fun hK => restartable_setcc (hK _ (.head _)) c i
  | salc => exact fun hK => restartable_salc (hK _ (.head _))
  | string op =>
    exact fun hK => restartable_stringElement (hK _ (.head _)) (hK _ (.tail _ (.head _))) op
      (fun _ => hK _ (.tail _ (.tail _ (.head _)))) (fun hop => hS (hop ▸ rfl)) i
  | jumpNear => exact fun _ => restartable_jumpNear i
  | jumpFar => exact fun hK => restartable_jumpFarOperand (hK _ (.head _)) i
  | jcc c => exact fun _ => restartable_jcc c i
  | loop op => exact fun hK => restartable_loop (hK _ (.head _)) op i (hi.loop_dst op hop)
  | callNear => exact fun _ => restartable_callNear i
  | callFar => exact fun hK => restartable_callFar (hK _ (.head _)) (hS rfl) i
  | returnNear => exact fun _ => restartable_returnNear i
  | returnFar => exact fun hK => restartable_returnFar (hK _ (.head _)) i
  | enter => exact fun hK => restartable_enter (hK _ (.head _)) (hS rfl) i
  | leave => exact fun hK => restartable_leave (hK _ (.head _)) i
  | bound => exact fun _ => restartable_bound i
  | int =>
    exact fun hK => restartable_int (hK _ (.head _)) (hK _ (.tail _ (.head _)))
      (hK _ (.tail _ (.tail _ (.head _)))) (hS rfl) i
  | int3 => exact fun _ => .fault _
  | into => exact fun _ => .after_reads .flags fun _ => .ite (.fault _) (.pure ())
  | iret => exact fun hK => restartable_iret (hK _ (.head _)) (hK _ (.tail _ (.head _))) i.size
  | hlt => exact fun hK => restartable_hlt (hK _ (.head _)) (hK _ (.tail _ (.head _)))
  | nop => exact fun _ => .pure ()
  | wait => exact fun _ => .pure ()
  | escape => exact fun _ => .fault _
  | arpl => exact fun hK => restartable_arpl (hK _ (.head _)) (hK _ (.tail _ (.head _))) i
  | clts => exact fun hK => restartable_clts (hK _ (.head _))
  | lmsw => exact fun hK => restartable_lmsw (hK _ (.head _)) i
  | smsw => exact fun hK => restartable_smsw (hK _ (.head _)) i
  | loadTable t => exact fun hK => restartable_loadTable (hK _ (.head _)) t i
  | storeTable t => exact fun _ => restartable_storeTable (hS rfl) t i
  | loadSelector s => exact fun hK => restartable_loadSelector (hK _ (.head _)) s i
  | storeSelector s => exact fun hK => restartable_storeSelector (hK _ (.head _)) s i
  | invalid bytes reason => exact fun _ => restartable_refuse bytes reason i

/-- Before a fault an instruction has changed only what a snapshot takes back, and memory and devices
only if it spills. -/
theorem reverts_of_fault {i : Instruction} {m m' : Machine} {e : Exception} (hi : i.WellFormed)
    (h : once i m = .error (.fault e) m') :
    Reverts (fun _ => True) (i.operation.spills = true) m m' :=
  (restartable_once hi (fun _ _ => trivial) id).reverts m e m' h

theorem changes_once {i : Instruction} (hi : i.WellFormed) (hK : ∀ k ∈ i.changes, K k) :
    Changes K (once i) :=
  (restartable_once (S := True) hi hK fun _ => trivial).changes

/-- An instruction makes no changes but those listed for it, however often it repeats. -/
theorem changes_perform {i : Instruction} (hi : i.WellFormed) (hG : i.rep ≠ none → K .general)
    (hK : ∀ k ∈ i.changes, K k) : Changes K (perform i) := by
  rw [perform]
  cases hRep : i.rep with
  | none => exact changes_once hi hK
  | some mode => exact .repeated (hG (by simp [hRep])) mode (changes_once hi hK) i

end Exec

/-! ### Derivations -/

/-- The operation loads or stores its destination in a way of its own if that is a selector. -/
def Operation.takesSelector : Operation → Bool
  | .mov | .push | .pop => true
  | _ => false

/-- The operation changes the registers of protected mode. -/
def Operation.isSystem : Operation → Bool
  | .clts | .lmsw | .loadTable _ | .loadSelector _ => true
  | _ => false

/-- What the handlers count on, so that each stays inside what a model of this width has. -/
structure Instruction.Allowed (wide : Bool) (i : Instruction) : Prop extends i.Fits wide where
  plain : i.operation.takesSelector = false → i.dst.IsPlain
  xchg_src : i.operation = .xchg → i.src.IsPlain
  loaded : ∀ s, i.dst = .reg (.seg s) → i.operation ≠ .push → Exec.MayLoad wide s
  loadFar : ∀ s, i.operation = .loadFar s → Exec.MayLoad wide s
  system : i.operation.isSystem = true → wide = true

namespace Exec

variable {wide : Bool} {P : Cpu → Prop} {i : Instruction}

theorem composed_refuse (bytes : List UInt8) (reason : Refusal) (i : Instruction) :
    Composed wide P (refuse bytes reason i) fun _ _ => True :=
  .afterRegs fun _ => .afterLog (.fault _)

/-- One element of an allowed instruction is composed of moves. -/
theorem composed_once (hi : i.Allowed wide) : Composed wide P (once i) fun _ _ => True := by
  have hFits := hi.toFits
  have hPlain := hi.plain
  have hLoaded := hi.loaded
  have hSystem := hi.system
  rw [once]
  cases hop : i.operation with
    rw [hop] at hPlain hLoaded hSystem
  | binary op => exact composed_binary op hFits (hPlain rfl)
  | unary op => exact composed_unary op hFits (hPlain rfl)
  | shift op => exact composed_shift op hFits (hPlain rfl)
  | shiftLeftDouble =>
    exact composed_doubleShift canShift_shldAmounts sameSystem_shld hFits (hPlain rfl)
  | shiftRightDouble =>
    exact composed_doubleShift canShift_shrdAmounts sameSystem_shrd hFits (hPlain rfl)
  | multiply signed => exact composed_multiply signed hFits
  | multiplyCut => exact composed_multiplyCut hFits (hPlain rfl)
  | divide signed => exact composed_divide signed hFits
  | decimal op => exact composed_decimal op
  | aam => exact composed_aam i
  | aad => exact composed_aad i
  | test => exact composed_test hFits
  | bitTest op => exact composed_bitTest op hFits (hPlain rfl)
  | bitScan op => exact composed_bitScan op hFits (hPlain rfl)
  | extendAccumulator => exact composed_extendAccumulator hFits
  | extendData => exact composed_extendData hFits
  | mov => exact composed_mov hFits fun s hs => hLoaded s hs nofun
  | movExtend signed => exact composed_movExtend signed hFits (hPlain rfl)
  | xchg => exact composed_xchg hFits (hPlain rfl) (hi.xchg_src hop)
  | lea => exact composed_lea hFits (hPlain rfl)
  | loadFar s =>
    obtain ⟨hs, hc⟩ := hi.loadFar s hop
    exact composed_loadFar hs hc hFits (hPlain rfl)
  | xlat => exact composed_xlat hFits
  | push => exact composed_pushOperand hFits
  | pop => exact composed_popOperand hFits fun s hs => hLoaded s hs nofun
  | pusha => exact composed_pusha i
  | popa => exact composed_popa hFits
  | pushf => exact composed_pushf i
  | popf => exact composed_popf hFits
  | lahf => exact composed_lahf
  | sahf => exact composed_sahf
  | flag op => exact composed_flag op
  | input => exact composed_inputPort hFits (hPlain rfl)
  | output => exact composed_outputPort hFits
  | setcc c => exact composed_setcc c hFits (hPlain rfl)
  | salc => exact composed_salc
  | string op => exact composed_stringElement op hFits
  | jumpNear => exact composed_jumpNear hFits
  | jumpFar => exact composed_jumpFarOperand hFits
  | jcc c => exact composed_jcc c hFits
  | loop op => exact composed_loop op hFits
  | callNear => exact composed_callNear hFits
  | callFar => exact composed_callFar hFits
  | returnNear => exact composed_returnNear i
  | returnFar => exact composed_returnFar i
  | enter => exact composed_enter hFits
  | leave => exact composed_leave hFits
  | bound => exact composed_bound hFits
  | int => exact composed_int i
  | int3 => exact .fault _
  | into => exact .afterFlags fun _ => .ite (fun _ => .fault _) fun _ => .answer ()
  | iret => exact composed_iret hFits.size
  | hlt => exact composed_hlt
  | nop | wait => exact .answer ()
  | escape => exact .fault _
  | arpl => exact composed_arpl hFits (hPlain rfl)
  | clts => exact composed_clts (hSystem rfl)
  | lmsw => exact composed_lmsw (hSystem rfl) hFits
  | smsw => exact composed_smsw hFits (hPlain rfl)
  | loadTable t => exact composed_loadTable (hSystem rfl) t hFits
  | storeTable t => exact composed_storeTable t hFits
  | loadSelector s => exact composed_loadSelector (hSystem rfl) s hFits
  | storeSelector s => exact composed_storeSelector s hFits (hPlain rfl)
  | invalid bytes reason => exact composed_refuse bytes reason i

/-- **An allowed instruction is composed of moves.** -/
theorem composed_perform (hi : i.Allowed wide) :
    Composed wide P (perform i) fun _ _ => True := by
  rw [perform]
  split
  · exact composed_once hi
  · exact composed_repeated _ (composed_once hi) hi.toFits

end Exec

end X86