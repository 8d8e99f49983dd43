import Jar.Cap.Data
import Jar.Cap.Graph
import Jar.Cap.Hash
import Jar.Cap.Image
import Jar.Cap.Yield
import Jar.Exec.Alu
import Jar.Exec.Compressed
import Jar.Exec.GasCost
import Jar.Exec.Instruction
import Jar.Exec.Interp
import Jar.Exec.Loop
import Jar.Exec.Memory
import Jar.Exec.Predecode
import Jar.Exec.Regs
import Jar.Genesis.CheckMerge
import Jar.Guest.Alloc
import Jar.Guest.Goldilocks
import Jar.Kernel.CallLoop
import Jar.Kernel.Frame
import Jar.Kernel.Task
import Jar.Lib.Activations
import Jar.Lib.AssocSum
import Jar.Lib.Attempt
import Jar.Lib.BinarySearch
import Jar.Lib.Cursor
import Jar.Lib.Lanes
import Jar.Lib.Layout
import Jar.Lib.LittleEndian
import Jar.Lib.Merkle
import Jar.Lib.Pipeline
import Jar.Lib.RadixTree
import Jar.Lib.SortedMap
import Jar.Lib.Transition
import Jar.Lib.Word
import Jar.Linker.Align
import Jar.Linker.Pcrel
import Jar.Linker.Validate
import Jar.Program.Blob
import Jar.Program.Codec
import Jar.Proofs.AccessLowering
import Jar.Proofs.Align
import Jar.Proofs.Alloc
import Jar.Proofs.AluDispatch
import Jar.Proofs.AluLowering
import Jar.Proofs.BitLowering
import Jar.Proofs.Bits
import Jar.Proofs.BlockAgreement
import Jar.Proofs.BlockWalk
import Jar.Proofs.CallStack
import Jar.Proofs.CatchSets
import Jar.Proofs.Census
import Jar.Proofs.ControlSafety
import Jar.Proofs.CopyOnWrite
import Jar.Proofs.DataIdentity
import Jar.Proofs.DataPages
import Jar.Proofs.DispatchGas
import Jar.Proofs.Dispatched
import Jar.Proofs.Division
import Jar.Proofs.DivisionLowering
import Jar.Proofs.Emit
import Jar.Proofs.Encoding
import Jar.Proofs.Eviction
import Jar.Proofs.Expand
import Jar.Proofs.Fetch
import Jar.Proofs.Fitting
import Jar.Proofs.FrameChanges
import Jar.Proofs.GasConservation
import Jar.Proofs.GasPipeline
import Jar.Proofs.GasSafety
import Jar.Proofs.Gates
import Jar.Proofs.Goldilocks
import Jar.Proofs.Halves
import Jar.Proofs.Host
import Jar.Proofs.KernelEffects
import Jar.Proofs.KernelHandling
import Jar.Proofs.KernelRuns
import Jar.Proofs.KernelStack
import Jar.Proofs.Length
import Jar.Proofs.LookAhead
import Jar.Proofs.LoweredCode
import Jar.Proofs.Memory
import Jar.Proofs.MemoryAccess
import Jar.Proofs.Merkleize
import Jar.Proofs.MulLowering
import Jar.Proofs.OwnedConservation
import Jar.Proofs.Pcrel
import Jar.Proofs.PinnedSlots
import Jar.Proofs.PlainWords
import Jar.Proofs.Predecode
import Jar.Proofs.ProgramCodec
import Jar.Proofs.ProgramGeometry
import Jar.Proofs.Quorum
import Jar.Proofs.Radix
import Jar.Proofs.RadixProve
import Jar.Proofs.RadixVerdicts
import Jar.Proofs.ReadProtection
import Jar.Proofs.Resume
import Jar.Proofs.Returns
import Jar.Proofs.Scratchpad
import Jar.Proofs.ShiftLowering
import Jar.Proofs.SlotMaps
import Jar.Proofs.Sparse
import Jar.Proofs.SszCanonical
import Jar.Proofs.SszDerive
import Jar.Proofs.SszTable
import Jar.Proofs.Straight
import Jar.Proofs.Termination
import Jar.Proofs.Tracking
import Jar.Proofs.Validate
import Jar.Proofs.WireCnodes
import Jar.Proofs.WordFields
import Jar.Proofs.YieldRouting
import Jar.Recompiler.Access
import Jar.Recompiler.Compile
import Jar.Recompiler.Dispatch
import Jar.Recompiler.Emit
import Jar.Recompiler.Expand
import Jar.Recompiler.Lower
import Jar.Recompiler.Run
import Jar.Sandbox.Workers
import Jar.Ssz.Bits
import Jar.Ssz.Collections
import Jar.Ssz.Derive
import Jar.Ssz.Length
import Jar.Ssz.Merkle
import Jar.Ssz.Merkleize
import Jar.Ssz.Radix
import Jar.Ssz.Sparse
import Jar.Ssz.Wire
import Jar.X86.Asm
import Jar.X86.Instr
import Jar.X86.Machine
