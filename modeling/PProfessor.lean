import PProfessor.WireFormat
import PProfessor.PprofModel
import PProfessor.PprofEncoder
import PProfessor.PprofDecoder
import PProfessor.PprofGrammar
import PProfessor.CheckedArith
import PProfessor.HeapAccounting
import PProfessor.KitDecoder
import PProfessor.KitTraps
import PProfessor.PprofRoundTrip
import PProfessor.ReaderAgreement
import PProfessor.Columns
import PProfessor.EncodedSize
import PProfessor.HeapCompare
import PProfessor.HeapDifference
import PProfessor.IndexedTable
import PProfessor.KitRoundTrip
import PProfessor.LiveAccumulation
import PProfessor.LiveMerge
import PProfessor.LiveRun
import PProfessor.BigEndian
import PProfessor.Framing
import PProfessor.HeapContents
import PProfessor.HeapFaithful
import PProfessor.KitConverter
import PProfessor.KitEncoder
import PProfessor.KitFlamegraph
import PProfessor.KitFrames
import PProfessor.Report
import PProfessor.ReportCosts
import PProfessor.StackAgreement
import PProfessor.Ranking
import PProfessor.ReportOrder
import PProfessor.HeapDomains
import PProfessor.HeapErrors
import PProfessor.HeapLog
import PProfessor.HeapRecorder
import PProfessor.HeapReplay
import PProfessor.HeapSlide
import PProfessor.Publishing
import PProfessor.KitFrameWriter
import PProfessor.ProfileTimeline
import PProfessor.ProfileViewModel
import PProfessor.SessionChanges
import PProfessor.SessionCompletion
import PProfessor.ViewModelChanges
import PProfessor.ViewModelDisplay
import PProfessor.Records
import PProfessor.SessionCounts
import PProfessor.SessionOrder
import PProfessor.SessionTotals
import PProfessor.ByteOrder
import PProfessor.HeapLogFile
import PProfessor.ImageMappings
import PProfessor.MappingRanges
import PProfessor.PerfDelivery
import PProfessor.PublisherWire
import PProfessor.SymbolizedObservations
import PProfessor.LazyTree
import PProfessor.CounterOverflow
import PProfessor.ReportRootRow
import PProfessor.HeapHistory
import PProfessor.HeapHistoryLines
import PProfessor.HeapHistoryReplay
import PProfessor.HeapSelection
import PProfessor.HeapSymbols
import PProfessor.JournalTears
import PProfessor.LastLoad
import PProfessor.LiveClosure
import PProfessor.NativeSymbolizer
import PProfessor.ReportFrames
import PProfessor.SessionReadLoop
import PProfessor.TimelineBuckets
import PProfessor.EscapedText
import PProfessor.Interning
import PProfessor.PathEscapes
import PProfessor.ProcMaps
import PProfessor.ProcStat
import PProfessor.StringInterning
import PProfessor.ThreadSelection
import PProfessor.CapturePipeline
import PProfessor.HeapObservation
import PProfessor.HeapHandshake
import PProfessor.GraphAgreement
import PProfessor.CapturedReport
