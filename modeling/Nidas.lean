import Nidas.Lib.Transducer
import Nidas.Lib.Separator
import Nidas.Lib.Runs
import Nidas.Lib.CondVar
import Nidas.Lib.KeyOrder
import Nidas.Core.Sample
import Nidas.Core.SampleScanner
import Nidas.Core.ScannerEOM
import Nidas.Core.ScannerBOM
import Nidas.Core.ScannerCalls
import Nidas.Core.ScannerTimeTags
import Nidas.Core.ScannerConservation
import Nidas.Core.ScannerStores
import Nidas.Core.SampleHeader
import Nidas.Core.IOStream
import Nidas.Core.IOStreamWrite
import Nidas.Core.SampleInputHeader
import Nidas.Dynld.SampleInputStream
import Nidas.Dynld.BlockReading
import Nidas.Dynld.SampleDecoding
import Nidas.Dynld.ArchiveDecoding
import Nidas.Dynld.BadBlocks
import Nidas.Core.HeaderParsing
import Nidas.Dynld.Filtering
import Nidas.Core.HeaderGrammar
import Nidas.Core.HeaderRoundTrip
import Nidas.Dynld.InputSwitch
import Nidas.Dynld.HeaderCount
import Nidas.Dynld.InputsApart
import Nidas.Core.DriverSampleScanner
import Nidas.Core.DriverDraining
import Nidas.Core.SampleSorter
import Nidas.Core.SorterSteps
import Nidas.Core.SorterAccounting
import Nidas.Core.SorterOrder
import Nidas.Core.SorterHeapWait
import Nidas.Core.SorterFlush
import Nidas.Lib.Rounding
import Nidas.Lib.Outcome
import Nidas.Dynld.SyncRecordSource
import Nidas.Dynld.SyncSlots
import Nidas.Dynld.SyncLayout
import Nidas.Dynld.SyncReceive
import Nidas.Dynld.SyncInit
import Nidas.Dynld.SyncBounds
import Nidas.Dynld.SyncFlush
import Nidas.Dynld.SyncValues
import Nidas.Lib.MachineInt
import Nidas.Linux.Types
import Nidas.Linux.ScreenTimetag
import Nidas.Linux.ShortFilters
import Nidas.Linux.Boxcar
import Nidas.Linux.TimeAverage
import Nidas.Linux.Irig
import Nidas.Lib.CircBuf
import Nidas.Linux.CircbufRead
import Nidas.Apps.UdpRelay
import Nidas.Lib.Packing
import Nidas.Dynld.UDPSampleOutput
import Nidas.Apps.CheckPacket
import Nidas.Lib.Answers
import Nidas.Core.SampleMatcher
import Nidas.Core.CalRecords
import Nidas.Core.CalFile
import Nidas.Core.CalStream
import Nidas.Core.CalFlattening
import Nidas.Core.CalReading
import Nidas.Util.UTime
import Nidas.Core.SampleClock
import Nidas.Core.TimetagAdjuster
import Nidas.Core.AdjusterOrder
import Nidas.Core.AdjusterScreening
import Nidas.Core.AdjusterAverage
import Nidas.Lib.Buckets
import Nidas.Core.ValueSample
import Nidas.Core.SampleAverager
import Nidas.Core.AveragerPeriods
import Nidas.Dynld.StatisticsCruncher
import Nidas.Dynld.StatisticsPeriods
import Nidas.Linux.IrigResync
import Nidas.Lib.Nearest
import Nidas.Core.ResamplerSlot
import Nidas.Core.NearestResampler
import Nidas.Core.NearestValues
import Nidas.Core.NearestResamplerAtRate
import Nidas.Core.AtRateValues
import Nidas.Core.AtRateGaps
import Nidas.Lib.KeyedList
import Nidas.Core.Looper
import Nidas.Lib.NumberText
import Nidas.Core.RangeParser
import Nidas.Util.BitArray
import Nidas.Util.BitOperators
import Nidas.Dynld.WisardMessage
import Nidas.Lib.Fields
import Nidas.Util.Calendar
import Nidas.Dynld.WisardUnpack
import Nidas.Dynld.WisardLayout
import Nidas.Dynld.WisardMote
import Nidas.Dynld.WisardIgnored
import Nidas.Lib.Loops
import Nidas.Core.Dictionary
import Nidas.Core.DictionaryNesting
import Nidas.Util.Backslash
import Nidas.Core.SamplePool
import Nidas.Lib.SortedSet
import Nidas.Apps.NidsMerge
import Nidas.Apps.MergeFilling
import Nidas.Apps.MergeWindows
import Nidas.Apps.MergeResult
import Nidas.Lib.Moments
import Nidas.Lib.CountedLoops
import Nidas.Dynld.StatisticsCombinations
import Nidas.Dynld.StatisticsSums
import Nidas.Dynld.StatisticsCompute
import Nidas.Dynld.StatisticsLayout
import Nidas.Dynld.StatisticsAccumulated
import Nidas.Dynld.StatisticsAdditions
import Nidas.Dynld.StatisticsReceived
import Nidas.Dynld.StatisticsComputed
import Nidas.Dynld.StatisticsNamed
import Nidas.Dynld.StatisticsRuns
import Nidas.Lib.NumberPrinting
import Nidas.Lib.TextStream
import Nidas.Lib.GeneralNumbers
import Nidas.Dynld.SyncHeader
import Nidas.Dynld.SyncHeaderScan
import Nidas.Dynld.SyncHeaderRates
import Nidas.Dynld.SyncHeaderRoundTrip
import Nidas.Dynld.SyncHeaderAgreement
import Nidas.Dynld.SyncHeaderEnds
import Nidas.Dynld.SyncProvenance
import Nidas.Apps.SyncDump
import Nidas.Dynld.SyncRecordQueue
import Nidas.Util.FileSet
import Nidas.Core.WholeWrites
import Nidas.Dynld.SampleOutputStream
import Nidas.Dynld.ArchiveRoundTrip
