import Emosa.Wire.Routing
import Emosa.Wire.Delivery
import Emosa.C.ReassemblerRefines
import Emosa.Engine.Submission
import Emosa.Engine.Evidence
import Emosa.C.EngineRefines
import Emosa.Opensync.Commit
import Emosa.Opensync.Replication
import Emosa.Fleet.SecretsFollow
import Emosa.Fleet.RegistryShared
import Emosa.C.FleetRefines
import Emosa.Fleet.Moves
import Emosa.C.WatchProgress
import Emosa.Wire.ReportLaw
import Emosa.Wire.BridgeRetention
import Emosa.Wire.ClientFollow
import Emosa.Wire.TopologySend
import Emosa.Wire.ChannelLaw
import Emosa.Wire.BackhaulMoves
import Emosa.Wire.ReportingPeriods
import Emosa.Gtp.ClockStep
import Emosa.C.GtpRefines
import Emosa.C.Notify
import Emosa.Wire.WscSet
import Emosa.C.Forward
