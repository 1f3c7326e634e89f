import AprsPruner.Admission
import AprsPruner.App
import AprsPruner.Basic
import AprsPruner.Bounds
import AprsPruner.Cache
import AprsPruner.Catchup
import AprsPruner.CommandLine
import AprsPruner.Conservation
import AprsPruner.Controller
import AprsPruner.ControllerLife
import AprsPruner.DBI
import AprsPruner.Daemon
import AprsPruner.Independence
import AprsPruner.KeepUp
import AprsPruner.Ledger
import AprsPruner.Lib.Backlog
import AprsPruner.Lib.Batches
import AprsPruner.Lib.Drain
import AprsPruner.Lib.Getopt
import AprsPruner.Lib.Handles
import AprsPruner.Lib.LastWrite
import AprsPruner.Lib.Pace
import AprsPruner.Lib.Rekey
import AprsPruner.Lib.Run
import AprsPruner.Lib.RunningMean
import AprsPruner.Lib.Stock
import AprsPruner.Lib.Tally
import AprsPruner.Lib.Window
import AprsPruner.Lifetime
import AprsPruner.Mysql
import AprsPruner.Profile
import AprsPruner.Rates
import AprsPruner.Retention
import AprsPruner.Settled
import AprsPruner.Shutdown
import AprsPruner.Starvation
import AprsPruner.StoreReports
import AprsPruner.StoreStats
import AprsPruner.System
import AprsPruner.Throttle
import AprsPruner.Worker
