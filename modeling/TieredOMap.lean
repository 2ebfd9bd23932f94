import TieredOMap.Common
import TieredOMap.Lib.Bucketed
import TieredOMap.Oram.DaSound
import TieredOMap.Oram.Rounds
import TieredOMap.Omap.BplusStep
import TieredOMap.Omap.DaOstRounds
import TieredOMap.Network.RemoteRuns
import TieredOMap.Network.Restore
import TieredOMap.Tiered.DataConservation
import TieredOMap.Tiered.Oblivious
import TieredOMap.Tiered.TierMoves
import TieredOMap.Tiered.Staggered
import TieredOMap.Tiered.ScanFairness
import TieredOMap.Tiered.WriteResults
import TieredOMap.Tee.EnclaveRuns
import TieredOMap.Tee.TeeAvlTrace
import TieredOMap.Lib.AvlTree
import TieredOMap.Omap.AvlMap
import TieredOMap.Oram.OverflowLoss
import TieredOMap.Omap.DaOstShape
import TieredOMap.Omap.BplusHiding
import TieredOMap.Tiered.MaintenanceShape
import TieredOMap.Omap.HeightBound
import TieredOMap.Omap.NodeCodec
import TieredOMap.Oram.CounterLag
import TieredOMap.Tee.TeeServer
import TieredOMap.Tee.DemoteCold
import TieredOMap.Tee.TierRuns
import TieredOMap.Tee.CheckedTree
import TieredOMap.Tee.TeeSession
