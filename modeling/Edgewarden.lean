import Edgewarden.Lib.FaultIo
import Edgewarden.Lib.Json
import Edgewarden.Lib.Method
import Edgewarden.Lib.Text
import Edgewarden.Lib.WriteBehind
import Edgewarden.Lib.Durable
import Edgewarden.Lib.Float
import Edgewarden.Lib.Machine
import Edgewarden.Lib.Gauge
import Edgewarden.Ota.Version
import Edgewarden.Ota.Manager
import Edgewarden.Ota.Micro
import Edgewarden.Ota.Slots
import Edgewarden.Ota.Commit
import Edgewarden.Ota.Update
import Edgewarden.Ota.Lifetime
import Edgewarden.Ota.Relabel
import Edgewarden.Ota.Binding
import Edgewarden.Ota.Provenance
import Edgewarden.Ota.Resume
import Edgewarden.Ota.Admission
import Edgewarden.Ota.Download
import Edgewarden.Ota.Ahead
import Edgewarden.Ota.PowerLoss
import Edgewarden.State.Reconcile
import Edgewarden.State.Delivery
import Edgewarden.State.Store
import Edgewarden.Registry.Core
import Edgewarden.Registry.Service
import Edgewarden.Registry.Snapshot
import Edgewarden.Registry.Concurrent
import Edgewarden.Registry.History
import Edgewarden.Registry.Register
import Edgewarden.Registry.Roster
import Edgewarden.Registry.Watch
import Edgewarden.Agent.Sync
import Edgewarden.Agent.LastGood
import Edgewarden.Agent.OnDisk
import Edgewarden.Agent.Boot
import Edgewarden.Agent.Watch
import Edgewarden.Fleet.System
import Edgewarden.Fleet.Convergence
import Edgewarden.Fleet.Agreement
import Edgewarden.Health.Supervisor
import Edgewarden.Health.Watchdog
import Edgewarden.Rollout.Manager
import Edgewarden.Rollout.Gates
import Edgewarden.Proxy.Server
import Edgewarden.Proxy.Serving
import Edgewarden.Protocol.Backoff
import Edgewarden.Agent.Reconnect
import Edgewarden.Agent.Run
import Edgewarden.Agent.PowerLoss
import Edgewarden.Storm.Client
import Edgewarden.Fleet.Watching
import Edgewarden.Registry.Stream
import Edgewarden.Registry.Operator
import Edgewarden.Registry.PowerLoss
import Edgewarden.Fleet.Setback
import Edgewarden.Ota.Install
import Edgewarden.Ota.Durability
import Edgewarden.Agent.Dataplane
import Edgewarden.Fleet.CatchUp
