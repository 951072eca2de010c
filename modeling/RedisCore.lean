import RedisCore.Aof.Durable
import RedisCore.Cluster.BusSafety
import RedisCore.Cluster.CollisionRun
import RedisCore.Cluster.FailureQuorum
import RedisCore.Cluster.PacketLength
import RedisCore.Dict.IteratorRun
import RedisCore.Evict.Loop
import RedisCore.IntSet.Run
import RedisCore.Networking.Arrival
import RedisCore.Networking.Delivery
import RedisCore.QuickList.Fill
import RedisCore.QuickList.IterateDelete
import RedisCore.Replication.Backlog
import RedisCore.Replication.Wait
import RedisCore.Scripting.Kill
import RedisCore.Sentinel.SingleLeader
import RedisCore.Strings.Deadlines
import RedisCore.Strings.Ranges
import RedisCore.Transaction.Propagation
import RedisCore.Util.Bitfield
import RedisCore.Util.Scaled
import RedisCore.ZSet.ScoreRanges
import RedisCore.Ziplist.Find
