import RunFarm.Budget
import RunFarm.Farm
import RunFarm.Spend
import RunFarm.Bookings
import RunFarm.OpenRentals
import RunFarm.Closing
import RunFarm.Files.Disk
import RunFarm.Files.Forest
import RunFarm.Interleaving
import RunFarm.Arrival.MarkerLast
import RunFarm.Arrival.Verify
import RunFarm.Fleet.Leg
import RunFarm.Fleet.Fetch
import RunFarm.Fleet.Campaign
import RunFarm.Fleet.Resume
import RunFarm.Fleet.LatePull
import RunFarm.Fleet.Sequential
import RunFarm.Undisturbed
import RunFarm.Python.Json
import RunFarm.Python.Canonical
import RunFarm.Config
import RunFarm.Governed.Paths
import RunFarm.Governed.CutFlow
import RunFarm.Governed.FarmCampaign
import RunFarm.Governed.Corpus
import RunFarm.Governed.Reconcile
import RunFarm.Governed.Effect
import RunFarm.Governed.Attrition
import RunFarm.Governed.Frame
import RunFarm.Fleet.Offers
import RunFarm.Fleet.Threads
import RunFarm.Fleet.Workers
import RunFarm.Fleet.LateRents
import RunFarm.Fleet.SignalTeardown
import RunFarm.Fleet.Unwinding
import RunFarm.Fleet.Endings
import RunFarm.Fleet.BudgetHalt
import RunFarm.Fleet.Returns
import RunFarm.Fleet.Tasks
import RunFarm.Governed.Registered
import RunFarm.Python.Coerce
import RunFarm.Renting.Request
import RunFarm.Renting.Create
import RunFarm.Renting.RentCall
import RunFarm.Renting.Teardown
import RunFarm.Renting.Unavailable
import RunFarm.Renting.LostReply
import RunFarm.Registry.Backends
import RunFarm.Registry.Registering
import RunFarm.Registry.ManifestOnce
import RunFarm.Observation
import RunFarm.Registry.Calls
import RunFarm.Registry.Equivalent
import RunFarm.Registry.Execute
import RunFarm.Registry.Restart
import RunFarm.Registry.TornWrites
import RunFarm.Governed.Waterfall
import RunFarm.Governed.LaunchComplete
import RunFarm.Python.Numerals
import RunFarm.Reaping.Accounting
import RunFarm.Reaping.Phantoms
import RunFarm.Multi
import RunFarm.Reaping.Transport
import RunFarm.Reaping.CommandLine
import RunFarm.Executors.ConfigClass
import RunFarm.Executors.Provider
import RunFarm.Executors.OneWorker
import RunFarm.Arrival.Report
import RunFarm.Apportion
import RunFarm.Splitting
import RunFarm.Fleet.FalseAlarm
import RunFarm.Fleet.SharedPool
import RunFarm.Reaping.Idempotent
import RunFarm.Timed
import RunFarm.Executors.SharedDeadline
import RunFarm.Fleet.Rerun
import RunFarm.Python.Padded
import RunFarm.Registry.EventSink
import RunFarm.Registry.EventOrder
import RunFarm.Renting.Meter
import RunFarm.Renting.SpendRises
import RunFarm.Python.JsonText
import RunFarm.Python.JsonScan
import RunFarm.Python.Lines
import RunFarm.Executors.ResultLine
import RunFarm.LedgerText
import RunFarm.Arrival.Accounting
import RunFarm.Arrival.Overlay
import RunFarm.Gauntlet.RegistryMarkers
import RunFarm.Renting.DeadReason
import RunFarm.Python.Floats
import RunFarm.Renting.Selection
import RunFarm.Fleet.Payload
import RunFarm.Governed.Sweep
import RunFarm.Renting.Escapes
import RunFarm.Renting.OnePod
import RunFarm.Executors.Diagnostics
import RunFarm.Gauntlet.WorstCase
import RunFarm.Registry.Campaign
import RunFarm.Reaping.Orphans
import RunFarm.Executors.OneLease
import RunFarm.Executors.RemoteCall
import RunFarm.Paging
import RunFarm.Python.ShellQuote
import RunFarm.Registry.S3Store
import RunFarm.Shell.Words
import RunFarm.Fleet.FlatRun
import RunFarm.Gauntlet.Launch
import RunFarm.Gauntlet.Standard
import RunFarm.Gauntlet.EnvPinned
import RunFarm.Python.Find
import RunFarm.Fleet.Progress
import RunFarm.Fleet.Handover
import RunFarm.Fleet.WholeWork
import RunFarm.Arrival.AtomicWrite
