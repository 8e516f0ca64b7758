import SandboxingNaCl.DynLdr.CopyRange
import SandboxingNaCl.DynLdr.CopyAndVerify
import SandboxingNaCl.Vmmap.CheckExisting
import SandboxingNaCl.Vmmap.Removal
import SandboxingNaCl.DynLdr.CallbackSlots
import SandboxingNaCl.DynLdr.TaintedPointers
import SandboxingNaCl.DynLdr.ReturnValues
import SandboxingNaCl.Service.MmapResources
import SandboxingNaCl.Service.BrkResult
import SandboxingNaCl.Service.HaltSled
import SandboxingNaCl.Service.PendingIo
import SandboxingNaCl.Ragel.RestrictedRegister
import SandboxingNaCl.Service.TwoPhaseDelete
import SandboxingNaCl.Loader.MainThread
import SandboxingNaCl.Service.EnvCleanser
import SandboxingNaCl.Service.CanonicalPath
import SandboxingNaCl.Service.TextViews
import SandboxingNaCl.Service.ThreadSuspensionRuns
import SandboxingNaCl.Service.DynArrayMemory
import SandboxingNaCl.Service.DescTable
import SandboxingNaCl.DebugStub.Transport
import SandboxingNaCl.DebugStub.PacketSafety
import SandboxingNaCl.Pthread.Semaphore
import SandboxingNaCl.Pthread.Condvar
import SandboxingNaCl.Pthread.Rwlock
import SandboxingNaCl.Pthread.Tsd
import SandboxingNaCl.Pthread.StackBlocks
import SandboxingNaCl.PllLoader.TlsBlocks
import SandboxingNaCl.Irt.CodeDataAlloc
import SandboxingNaCl.Platform.IntrMutex
import SandboxingNaCl.DecoderGen.Minimize
import SandboxingNaCl.DecoderGen.RulePatterns
import SandboxingNaCl.Desc.Quota
import SandboxingNaCl.Desc.OpenedDescriptors
import SandboxingNaCl.Platform.FileLockRuns
import SandboxingNaCl.DynLdr.ThreadMap
import SandboxingNaCl.Untrusted.Tls
import SandboxingNaCl.Validator.ValidationCache
import SandboxingNaCl.Validator.DescMetadata
import SandboxingNaCl.DecoderGen.Negation
import SandboxingNaCl.Validator.AddressSet
import SandboxingNaCl.Ragel.TrieRight
import SandboxingNaCl.Service.ErrorGio
import SandboxingNaCl.Validator.CopyInstruction
import SandboxingNaCl.Service.Getcwd
import SandboxingNaCl.Service.Exception
import SandboxingNaCl.Platform.HostDir
import SandboxingNaCl.Untrusted.LoadedElf
import SandboxingNaCl.Untrusted.BuildId
import SandboxingNaCl.IntervalMultiset.RangeTreeMultiset
import SandboxingNaCl.FaultInjection.FaultP
import SandboxingNaCl.Loader.MappingRuns
