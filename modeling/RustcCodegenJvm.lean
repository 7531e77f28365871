import RustcCodegenJvm.Runtime.F128Arithmetic
import RustcCodegenJvm.Lower2.CastAgreement
import RustcCodegenJvm.Lower2.StackMapTable
import RustcCodegenJvm.Lower2.SwitchAgreement
import RustcCodegenJvm.Lower2.CheckedArithmetic
import RustcCodegenJvm.Runtime.AtomicRuns
import RustcCodegenJvm.Linker.ClassBundle
import RustcCodegenJvm.Linker.ResponseFile
import RustcCodegenJvm.Optimise1.AliasTermination
import RustcCodegenJvm.Optimise1.DeadMoveRuns
import RustcCodegenJvm.Optimise1.ConstantJoins
import RustcCodegenJvm.Lower2.WidenTermination
import RustcCodegenJvm.Optimise2.SlotSafety
import RustcCodegenJvm.Lower2.FrameTermination
import RustcCodegenJvm.Optimise1.LabelledRuns
import RustcCodegenJvm.Optimise1.DuplicateBlocks
import RustcCodegenJvm.Lower2.BlockLiveness
import RustcCodegenJvm.Lower2.DirectFields
import RustcCodegenJvm.Optimise1.DeadBlocks
import RustcCodegenJvm.Runtime.Futex
import RustcCodegenJvm.Runtime.VirtualAddresses
import RustcCodegenJvm.Runtime.WideFromDouble
import RustcCodegenJvm.Lower2.EmittedClasses
import RustcCodegenJvm.Lower1.TupleNames
import RustcCodegenJvm.Runtime.AlignOffset
