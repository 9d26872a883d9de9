import AmxJit.Compiler.Table
import AmxJit.Compiler.Simulation
import AmxJit.Runtime.Calls
import AmxJit.Amx.Semantics
import AmxJit.X86.Strings
import AmxJit.Amx.Control
import AmxJit.Compiler.Division
import AmxJit.Compiler.Emitted
import AmxJit.Compiler.Suspension
import AmxJit.Runtime.Published
import AmxJit.Amx.Extent
import AmxJit.Amx.FunctionTables
import AmxJit.Compiler.CaseTables
import AmxJit.Compiler.DivideError
import AmxJit.Compiler.Compare
import AmxJit.Compiler.InPlace
import AmxJit.Runtime.Refusal
import AmxJit.Runtime.Gap
import AmxJit.Runtime.Paths
import AmxJit.Runtime.Asleep
import AmxJit.Plugin.LifeCycle
import AmxJit.Plugin.Engines
import AmxJit.Plugin.FirstCall
import AmxJit.Runtime.Entries
import AmxJit.Runtime.Indirect
import AmxJit.Runtime.Resume
import AmxJit.Runtime.Public
import AmxJit.Amx.Assemble
import AmxJit.Compiler.Accept
