import NLang.Package.RoundTrip
import NLang.Vm.NativeRoots
import NLang.Vm.Rendezvous
import NLang.Vm.StaticInitOnce
import NLang.Vm.RegistryIdentity
import NLang.Backend.StaticSlots
import NLang.Backend.ContextResults
import NLang.Backend.PendingExceptions
import NLang.Linker.InstructionStream
import NLang.Linker.StubOrdinals
import NLang.Vm.SemaphoreConservation
import NLang.Vm.ChannelDelivery
import NLang.Vm.RunIsolation
import NLang.Vm.MutexHandOff
import NLang.Vm.ObjectRoundTrip
import NLang.Backend.StaticGateRuns
import NLang.Backend.DefaultArguments
import NLang.Linker.ClosureComplete
import NLang.Linker.InterfaceRows
import NLang.Linker.StructContainment
import NLang.Linker.FieldAddressing
import NLang.Vm.ObjectTypeSafety
import NLang.Vm.StreamSessions
import NLang.Vm.ArrayDims
import NLang.Vm.ViewStores
import NLang.Vm.SliceMeaning
import NLang.Vm.SubclassTests
import NLang.Linker.ArrayRows
import NLang.Backend.TypeDescCodec
import NLang.Backend.DefaultCoercion
import NLang.Backend.RebuiltDefaults
import NLang.Vm.StringSearch
import NLang.Vm.StrictParses
import NLang.Vm.StreamCursor
import NLang.Backend.StaticLocals
import NLang.Vm.TimerExpiry
import NLang.Backend.OutWriteBack
import NLang.Vm.ContainerModels
import NLang.Compiler.ImportCycles
import NLang.Vm.GenericDescriptors
import NLang.Backend.DefaultGuard
import NLang.Compiler.EnumValues
import NLang.Compiler.AngleBrackets
import NLang.Backend.CompoundAssignments
import NLang.Compiler.TypeAliases
import NLang.Compiler.OverloadChoice
import NLang.Compiler.StringLiterals
import NLang.Backend.SwitchClauses
import NLang.Vm.DomainLocks
import NLang.Vm.InputWords
import NLang.Native.NetSlots
import NLang.Native.TensorBroadcast
