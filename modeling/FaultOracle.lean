import FaultOracle.CheckedLoops
import FaultOracle.BertWalks
import FaultOracle.CperRecords
import FaultOracle.McelogRecords
import FaultOracle.EdacReads
import FaultOracle.NodeRatios
import FaultOracle.RasdaemonExporter
import FaultOracle.SdrSensors
import FaultOracle.DmesgTable
import FaultOracle.EdacDetails
import FaultOracle.P4HostView
import FaultOracle.GuardedRuns
import FaultOracle.TimedLogs
import FaultOracle.InsertionDict
import FaultOracle.PythonFloats
import FaultOracle.JsonValues
import FaultOracle.PosixPaths
import FaultOracle.StructLayout
import FaultOracle.EdacTrace
import FaultOracle.EbpfEdac
import FaultOracle.RestartLimiter
import FaultOracle.LeaderElection
import FaultOracle.RemediationController
import FaultOracle.NodePatches
import FaultOracle.CooldownRuns
import FaultOracle.PollRecords
import FaultOracle.ReplacementWebhook
import FaultOracle.SharedState
import FaultOracle.SharedStateRaces
import FaultOracle.RecoveryWebhook
import FaultOracle.HandlerPaths
import FaultOracle.AlertDedupe
import FaultOracle.WatchdogMonitor
import FaultOracle.ConnectionMonitor
import FaultOracle.UBootEnv
import FaultOracle.AbSlots
import FaultOracle.RaucPostInstall
import FaultOracle.BitCodecs
import FaultOracle.P4Headers
import FaultOracle.P4Ingress
import FaultOracle.P4RoundTrip
import FaultOracle.P4Paths
import FaultOracle.BacktrackingRegex
import FaultOracle.TraceParser
import FaultOracle.EdacPatterns
import FaultOracle.TraceParserRuns
import FaultOracle.TraceAttribution
import FaultOracle.EdacLogLines
import FaultOracle.EdacLogGenerator
import FaultOracle.CardinalityGuard
import FaultOracle.GoStrings
import FaultOracle.ScrapeSamples
import FaultOracle.HardwareCollectors
import FaultOracle.ScrapeUniqueness
import FaultOracle.DeviceCollectors
import FaultOracle.CortexRefDriver
import FaultOracle.CortexRefLocations
import FaultOracle.TraceParserErrors
import FaultOracle.RecordChains
import FaultOracle.BertRecords
import FaultOracle.GoFloats
import FaultOracle.AerReaders
import FaultOracle.AerAgreement
import FaultOracle.RegexSubstitution
import FaultOracle.LogAnonymizer
import FaultOracle.AddressTokens
import FaultOracle.AnonymizedTokens
import FaultOracle.AnonymizerLeaks
import FaultOracle.EventCorrelator
import FaultOracle.CorrelatorRuns
import FaultOracle.CounterRaces
import FaultOracle.PrometheusQuery
import FaultOracle.PrometheusText
import FaultOracle.FloatRepr
import FaultOracle.MetricsRegistry
import FaultOracle.CsvReader
import FaultOracle.SelPoller
import FaultOracle.RedfishCollector
import FaultOracle.MetricFamilies
import FaultOracle.BmcMetrics
import FaultOracle.CeForecaster
import FaultOracle.Sha256
import FaultOracle.ModelLoading
import FaultOracle.CyclicRedundancy
import FaultOracle.HeartbeatFrame
import FaultOracle.HeartbeatLoop
import FaultOracle.EbpfRawRecords
import FaultOracle.SmbiosType17
import FaultOracle.SmbiosRecords
import FaultOracle.DmiDecode
import FaultOracle.DmiStructures
import FaultOracle.DimmMapper
import FaultOracle.AnnotationPusher
import FaultOracle.DmesgWatcher
import FaultOracle.DmesgReplay
import FaultOracle.ExpiringLogs
import FaultOracle.EventHistory
import FaultOracle.KeyedFolds
import FaultOracle.ListPairs
import FaultOracle.BitflipAnalyzer
import FaultOracle.BitflipOrder
import FaultOracle.ForecastHorizons
import FaultOracle.ModelFiles
import FaultOracle.WatchdogPings
import FaultOracle.SampleMoments
import FaultOracle.LeastSquares
import FaultOracle.LinearFits
import FaultOracle.WearPredictor
import FaultOracle.WearSeries
import FaultOracle.ZscoreDetector
import FaultOracle.SmartCollectors
import FaultOracle.LossyQueues
import FaultOracle.EdacKprobe
import FaultOracle.OperatorPolls
import FaultOracle.RestartOrder
import FaultOracle.KernelReplay
import FaultOracle.InsertRaces
import FaultOracle.CounterLosses
import FaultOracle.WorkloadAccess
import FaultOracle.BashNumbers
import FaultOracle.BootConfirmation
import FaultOracle.TracePieces
import FaultOracle.DimmClusters
import FaultOracle.RaucPreInstall
import FaultOracle.WorkloadImpact
import FaultOracle.PodCgroups
