import AcaBSim.Outcome
import AcaBSim.Sweeps
import AcaBSim.Minima
import AcaBSim.Means
import AcaBSim.PairedRuns
import AcaBSim.Fifo
import AcaBSim.Stations
import AcaBSim.StationLedger
import AcaBSim.StationOrder
import AcaBSim.StationTiming
import AcaBSim.StationCoupling
import AcaBSim.StationTrace
import AcaBSim.Networks
import AcaBSim.NetworkProgress
import AcaBSim.NetworkTrace
import AcaBSim.NetworkCoupling
import AcaBSim.Machine
import AcaBSim.ArrayQueue
import AcaBSim.QueueRefinement
import AcaBSim.QueueGrowth
import AcaBSim.QueueBounds
import AcaBSim.QueueIterators
import AcaBSim.Clients
import AcaBSim.Servers
import AcaBSim.Systems
import AcaBSim.ServerStations
import AcaBSim.ServerSteps
import AcaBSim.Routing
import AcaBSim.Simulation
import AcaBSim.Scenarios
import AcaBSim.Visits
import AcaBSim.IndexLoops
import AcaBSim.ServerArrays
import AcaBSim.Conservation
import AcaBSim.VisitEffects
import AcaBSim.ServerLedgers
import AcaBSim.FifoServers
import AcaBSim.RoboticServers
import AcaBSim.ClientFates
import AcaBSim.RecordedTimes
import AcaBSim.LaterArrivals
import AcaBSim.ServiceAssertions
import AcaBSim.LostClients
import AcaBSim.Assignments
import AcaBSim.ClientGenerator
import AcaBSim.GeneratedClients
import AcaBSim.Teardown
import AcaBSim.ClientTypes
import AcaBSim.CertainOutcomes
import AcaBSim.Destinations
import AcaBSim.Aggregation
import AcaBSim.Totals
import AcaBSim.MeanAssertion
import AcaBSim.QueueLengths
import AcaBSim.Reports
import AcaBSim.AcceptedSystems
import AcaBSim.Releases
import AcaBSim.Admissions
import AcaBSim.RobinHood
import AcaBSim.HashMaps
import AcaBSim.KeyedLists
import AcaBSim.HashMapLayout
import AcaBSim.HashMapDeletion
import AcaBSim.HashMapOperations
import AcaBSim.HashMapScans
import AcaBSim.HashMapRuns
import AcaBSim.HashMapItems
import AcaBSim.SipHash
import AcaBSim.ServiceTables
import AcaBSim.Flags
import AcaBSim.FlagLines
import AcaBSim.UsageText
import AcaBSim.Parameters
import AcaBSim.StationWaits
import AcaBSim.WaitingTimes
import AcaBSim.NetworkDrain
import AcaBSim.Drainage
import AcaBSim.MainProgram
import AcaBSim.DrawLedger
import AcaBSim.DisabledClients
import AcaBSim.Utilisation
import AcaBSim.RegularClients
