import MeowMeowOS.Tiling
import MeowMeowOS.DoublyLinked
import MeowMeowOS.KernelHeap
import MeowMeowOS.HeapLayout
import MeowMeowOS.GuardedRuns
import MeowMeowOS.HeapOperations
import MeowMeowOS.HeapSafety
import MeowMeowOS.BootFrames
import MeowMeowOS.Fat16Chains
import MeowMeowOS.Fat16Entries
import MeowMeowOS.Fat16Format
import MeowMeowOS.HeapFrames
import MeowMeowOS.MissingDirectories
import MeowMeowOS.UserPointers
import MeowMeowOS.EmptyDirectories
import MeowMeowOS.Fat16Formatted
import MeowMeowOS.KeptSystem
import MeowMeowOS.FrameRuns
import MeowMeowOS.UsableFrames
import MeowMeowOS.ExitBuffers
import MeowMeowOS.BufferedFile
import MeowMeowOS.ReallocContents
import MeowMeowOS.DirectSbrk
import MeowMeowOS.Pipes
import MeowMeowOS.TaskWaits
import MeowMeowOS.KeyboardReaders
import MeowMeowOS.KeyDecoding
import MeowMeowOS.PacketBounds
import MeowMeowOS.DnsResponses
import MeowMeowOS.HostNames
import MeowMeowOS.Ping
import MeowMeowOS.Checksums
import MeowMeowOS.ArpCache
import MeowMeowOS.ReceiveRing
import MeowMeowOS.ProgramHeaders
import MeowMeowOS.ProgramArguments
import MeowMeowOS.LoadExits
import MeowMeowOS.BitmapReach
import MeowMeowOS.FailedLoads
import MeowMeowOS.ReadContents
import MeowMeowOS.WindowedSearch
import MeowMeowOS.Descriptions
import MeowMeowOS.LatestRing
import MeowMeowOS.SystemLog
import MeowMeowOS.CutPieces
import MeowMeowOS.LineReading
import MeowMeowOS.Numerals
import MeowMeowOS.NumberText
import MeowMeowOS.FormatEngines
import MeowMeowOS.UnsignedText
import MeowMeowOS.TailLines
import MeowMeowOS.MountResolution
import MeowMeowOS.CommonPrefix
import MeowMeowOS.TabCompletion
import MeowMeowOS.KeyboardBursts
import MeowMeowOS.StringBuffers
import MeowMeowOS.LineEditor
import MeowMeowOS.CommandBlocks
import MeowMeowOS.ClosedRedirections
import MeowMeowOS.StringTokens
import MeowMeowOS.FreedChains
import MeowMeowOS.FormatBounds
import MeowMeowOS.FramebufferConsole
import MeowMeowOS.MouseCursor
import MeowMeowOS.DeterministicRuns
import MeowMeowOS.SoundFiles
import MeowMeowOS.SoundChunks
import MeowMeowOS.SharedHeap
import MeowMeowOS.WaitingTurns
import MeowMeowOS.FileStore
import MeowMeowOS.VgaTerminal
import MeowMeowOS.AnsweringMachines
import MeowMeowOS.BlockDevice
import MeowMeowOS.EchoAnswers
import MeowMeowOS.LineFilters
import MeowMeowOS.OptionParsing
import MeowMeowOS.ClockReadings
import MeowMeowOS.MousePackets
import MeowMeowOS.WrittenFiles
import MeowMeowOS.NoticedTasks
import MeowMeowOS.NodeReferences
import MeowMeowOS.AddressSpaces
import MeowMeowOS.DirectoryLayout
import MeowMeowOS.PageMapping
import MeowMeowOS.LoadedFiles
import MeowMeowOS.WrittenBytes
import MeowMeowOS.CreatedEntries
import MeowMeowOS.DeletedFiles
import MeowMeowOS.ConfinedWrites
import MeowMeowOS.HiddenBytes
import MeowMeowOS.FrameCounts
import MeowMeowOS.SinglePages
import MeowMeowOS.MappedRegions
import MeowMeowOS.HeapSearch
import MeowMeowOS.KernelRequests
import MeowMeowOS.SharedTokens
import MeowMeowOS.PathResolution
import MeowMeowOS.WalkedEntries
import MeowMeowOS.LongNameBuffer
import MeowMeowOS.ListedNames
import MeowMeowOS.ReadBounds
import MeowMeowOS.DeletionReach
import MeowMeowOS.VolumeRuns
import MeowMeowOS.FormattedRuns
import MeowMeowOS.AllocatedClusters
import MeowMeowOS.TaskRecords
import MeowMeowOS.TaskPriorities
import MeowMeowOS.TaskReaping
import MeowMeowOS.TimerInterrupts
import MeowMeowOS.SignalDelivery
import MeowMeowOS.SleepTimes
import MeowMeowOS.SeekPositions
import MeowMeowOS.DirectoryWalks
import MeowMeowOS.PathNormalForms
import MeowMeowOS.MountedGeometry
import MeowMeowOS.StateAfterFormat
import MeowMeowOS.FailedCreations
import MeowMeowOS.StoredChains
import MeowMeowOS.GrownDirectories
import MeowMeowOS.RootFiles
