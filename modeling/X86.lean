import X86.Listing
import X86.Main
import X86.Proofs.Alu.Decimal
import X86.Proofs.Alu.Shift
import X86.Proofs.Alu.Wide
import X86.Proofs.Encoding.Generations
import X86.Proofs.Encoding.Listing
import X86.Proofs.Exec.Memory
import X86.Proofs.Execute.Flags
import X86.Proofs.Execute.Lawful
import X86.Proofs.Execute.Multiply
import X86.Proofs.Interrupt.Sharing
import X86.Proofs.Machine.Acceptance
import X86.Proofs.Machine.GateReturn
import X86.Proofs.Machine.PreciseFault
import X86.Proofs.Machine.Protection
import X86.Proofs.Machine.Repeat
import X86.Proofs.Machine.RingPrivilege
import X86.Proofs.Machine.Segments
import X86.Proofs.Machine.SingleStep
import X86.Proofs.Machine.StackPairs
import X86.Proofs.Machine.Stub
import X86.Proofs.Machine.ProcedureFrame
import X86.Proofs.Execute.BitString
import X86.Proofs.Machine.BlockCopy
import X86.Proofs.Machine.Load
import X86.Proofs.Encoding.Addressing
import X86.Proofs.Text.Number
import X86.Proofs.Register.Slices
import X86.Proofs.Segment.Entry
import X86.Proofs.Machine.Timer
