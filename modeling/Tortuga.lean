import Tortuga.Programs
import Tortuga.BusCodes
import Tortuga.MotorBoard
import Tortuga.Master
import Tortuga.Commands
import Tortuga.CommandRules
import Tortuga.MotorLink
import Tortuga.MotorRuns
import Tortuga.Failsafe
import Tortuga.SensorApi
import Tortuga.HostBoard
import Tortuga.EndToEnd
import Tortuga.Machines
import Tortuga.Payload
import Tortuga.StateCopy
import Tortuga.Bitmaps
import Tortuga.DelayQueue
import Tortuga.Pneumatics
import Tortuga.PneumaticsQueue
import Tortuga.PneumaticsRuns
import Tortuga.Lockstep
import Tortuga.FrameRules
import Tortuga.FrameCommands
import Tortuga.Dispatcher
import Tortuga.Readers
import Tortuga.PartialReads
import Tortuga.Valves
import Tortuga.Interlock
import Tortuga.InterlockRuns
import Tortuga.Forwarding
import Tortuga.ThreadedQueue
import Tortuga.PublisherRegistry
import Tortuga.QueuedPublisher
import Tortuga.ReadWriteMutex
import Tortuga.MotorFrames
import Tortuga.Uart
import Tortuga.StateRuns
import Tortuga.FailedTransitions
import Tortuga.MachineStop
import Tortuga.ModuleLoading
import Tortuga.SignalLevels
import Tortuga.FixedUpdate
import Tortuga.TaskOrder
import Tortuga.Imu
import Tortuga.SonarIntegrity
import Tortuga.MotionManager
import Tortuga.MotionSlots
import Tortuga.Raising
import Tortuga.StateMachine
import Tortuga.HostParser
import Tortuga.SyncBoard
import Tortuga.Distro
import Tortuga.OvercurrentLatch
import Tortuga.SortedMaps
import Tortuga.Precedence
import Tortuga.Dependencies
import Tortuga.StartUp
import Tortuga.EventHub
import Tortuga.Delivery
import Tortuga.DepthReadings
import Tortuga.Termination
import Tortuga.Dvl
import Tortuga.DvlFrames
import Tortuga.Connectivity
import Tortuga.Forests
import Tortuga.BlobDetector
import Tortuga.BlobComponents
import Tortuga.BlobLists
import Tortuga.Absences
import Tortuga.TrackedBlobs
import Tortuga.BlobIds
import Tortuga.Bins
import Tortuga.BinRuns
import Tortuga.Archives
import Tortuga.LoggedEvents
import Tortuga.EventLogs
import Tortuga.EventPlayer
import Tortuga.Playback
import Tortuga.Updatables
import Tortuga.BackgroundThreads
import Tortuga.VisionRunners
import Tortuga.DetectorSets
import Tortuga.Thrusters
import Tortuga.ThrusterAllocation
import Tortuga.Blackfin
import Tortuga.SonarReports
import Tortuga.SonarFrames
import Tortuga.PingChunks
import Tortuga.PingWindows
import Tortuga.Listeners
import Tortuga.SlaveUarts
import Tortuga.Lcd
import Tortuga.Balancer
import Tortuga.Slaves
import Tortuga.Matchers
import Tortuga.PneumaticsFrames
import Tortuga.DistroArrays
import Tortuga.OvercurrentLimit
import Tortuga.BlockErrors
import Tortuga.TimeValues
import Tortuga.CountDownLatch
import Tortuga.DependencyDump
import Tortuga.ConfigIncludes
import Tortuga.StateGraph
import Tortuga.Successors
import Tortuga.AdcTypes
import Tortuga.Spectra
import Tortuga.Rotations
import Tortuga.SpectrumBounds
import Tortuga.SlidingWindows
import Tortuga.TiledDft
import Tortuga.FirFilter
import Tortuga.Correlations
import Tortuga.RunningMaxima
import Tortuga.SonarChunks
import Tortuga.Tdoa
import Tortuga.ColorFilters
import Tortuga.NetworkCommands
import Tortuga.SonarDaemon
import Tortuga.BlockTrigger
import Tortuga.Multipinger
import Tortuga.PingEdges
import Tortuga.PingTriggers
import Tortuga.LittleEndian
import Tortuga.RawVideo
import Tortuga.Recorders
import Tortuga.RawVideoSeeks
import Tortuga.Numerals
import Tortuga.Curves
import Tortuga.Trajectories
import Tortuga.SmoothDepth
import Tortuga.Geometry
import Tortuga.PlanarTrajectories
import Tortuga.AveragingFilters
import Tortuga.LeastSquares
import Tortuga.SavitzkyGolay
import Tortuga.Covariances
import Tortuga.DepthKalman
import Tortuga.Cameras
import Tortuga.BuoyEstimation
import Tortuga.ParticleWeights
import Tortuga.Orientations
import Tortuga.ImuEstimation
import Tortuga.Rereads
import Tortuga.Arrivals
import Tortuga.MotionLists
import Tortuga.MakerRegistry
import Tortuga.ZigZags
import Tortuga.BinTask
import Tortuga.BinTaskRuns
import Tortuga.NetworkFrames
import Tortuga.TriangularFactors
import Tortuga.MatrixInversion
import Tortuga.TriangularRoots
import Tortuga.Cholesky
import Tortuga.BoxedDescent
import Tortuga.AdaptiveControl
import Tortuga.CStrings
import Tortuga.HexFiles
import Tortuga.HexImages
import Tortuga.FirmwareUpload
import Tortuga.EventLoggers
import Tortuga.LoggerRuns
import Tortuga.ControlWords
import Tortuga.QuickLz
import Tortuga.QuickLzItems
import Tortuga.QuickLzRoundTrip
import Tortuga.QuickLzRoom
import Tortuga.Channels
import Tortuga.EventRelays
import Tortuga.RelayRuns
import Tortuga.BusHandshake
import Tortuga.HandshakeRuns
import Tortuga.RotationMatrices
import Tortuga.Attitudes
import Tortuga.RestingVehicle
