import UstBench.SharedEvents.Module
import UstBench.SharedEvents.Effects
import UstBench.Reasoning.CursorLog
import UstBench.SharedEvents.Cursor
import UstBench.SharedEvents.OpenFailure
import UstBench.Reasoning.Interleave
import UstBench.Runner.Printing
import UstBench.SharedEvents.Binding
import UstBench.Runner.Children
import UstBench.Runner.Progress
import UstBench.Runner.Reports
import UstBench.Reasoning.Json
import UstBench.Runner.Output
import UstBench.KernelBenchmark.Lifetime
import UstBench.Reasoning.Lowest
import UstBench.Reasoning.PythonText
import UstBench.Driver.Results
import UstBench.Driver.CpuList
import UstBench.Driver.World
import UstBench.Driver.LinuxCpu
import UstBench.Driver.Benchmarks
import UstBench.Driver.Levels
import UstBench.Driver.Tracing
import UstBench.Driver.Passes
import UstBench.Driver.Restore
import UstBench.Reasoning.Traced
import UstBench.SharedEvents.Actions
import UstBench.SharedEvents.Atomic
import UstBench.Runner.Timestamps
import UstBench.SharedEvents.Descriptors
import UstBench.Driver.CpuTarget
import UstBench.Driver.Overhead
import UstBench.SharedEvents.Heap
import UstBench.KernelBenchmark.Bounds
import UstBench.KernelBenchmark.Elapsed
import UstBench.Driver.Interrupts
import UstBench.Driver.Flatten
import UstBench.Driver.Averages
import UstBench.Driver.Published
import UstBench.Reasoning.CText
import UstBench.Reasoning.Invocation
import UstBench.Tpgen.Generator
import UstBench.Tpgen.Event
import UstBench.Tpgen.Scoping
import UstBench.Tpgen.Expansion
import UstBench.Tpgen.Agreement
import UstBench.Tpgen.Names
import UstBench.SharedEvents.Delete
import UstBench.SharedEvents.StoredNames
import UstBench.Driver.FlattenLaws
import UstBench.Driver.OnlineCount
import UstBench.Driver.OfflineCpus
import UstBench.Driver.RunTime
import UstBench.Reasoning.Loop
import UstBench.Workload.Program
import UstBench.Workload.Counting
import UstBench.Workload.Sums
import UstBench.Sha2.Hmac
import UstBench.Workload.Digest
import UstBench.KernelBenchmark.Completion
import UstBench.KernelBenchmark.Events
import UstBench.Workload.Process
import UstBench.Workload.Launch
import UstBench.Driver.Measured
import UstBench.Driver.Session
import UstBench.KernelBenchmark.Attributes
import UstBench.Driver.Counted
import UstBench.Workload.Tracepoints
import UstBench.Driver.PerEvent
import UstBench.Driver.Report
