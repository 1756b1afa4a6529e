import SensorForge.FrameDecoder
import SensorForge.BurstErrors
import SensorForge.WalReopen
import SensorForge.ReaderIndex
import SensorForge.WalCrash
import SensorForge.Availability
import SensorForge.Seqlock
import SensorForge.PeerStream
import SensorForge.Reconnect
import SensorForge.TcpReassembler
import SensorForge.QueueStream
import SensorForge.TcpWriters
import SensorForge.FlushBarrier
import SensorForge.MeasuredLatency
import SensorForge.Isolation
import SensorForge.Exposition
import SensorForge.CrossTarget
import SensorForge.TcpResync
import SensorForge.InnerHeader
import SensorForge.WalIndex
import SensorForge.Percentile
import SensorForge.RecordingOrder
import SensorForge.RestartEdges
import SensorForge.ReorderSwaps
import SensorForge.Corruption
import SensorForge.RegistryKeys
import SensorForge.ScenarioParser
import SensorForge.LossTracking
import SensorForge.ScenarioReport
import SensorForge.BandwidthLimit
import SensorForge.DelayOrder
import SensorForge.BridgeShutdown
import SensorForge.SegmentNames
import SensorForge.ReassemblerBounds
import SensorForge.RegressionGate
import SensorForge.IoUringReceives
import SensorForge.RunningMaxima
import SensorForge.SentFrames
import SensorForge.StreamLink
import SensorForge.BridgedTopics
import SensorForge.DatagramLink
import SensorForge.BridgeRecording
import SensorForge.FaultyLink
import SensorForge.LightCorruption
import SensorForge.ProducerPolicies
import SensorForge.LiveMetrics
import SensorForge.GateHistory
import SensorForge.HtmlReport
