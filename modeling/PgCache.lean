import PgCache.Cache.Cdc.KeyChange
import PgCache.Cache.Occurrence
import PgCache.Query.Pushdown.Sound
import PgCache.Proxy.Delivery
import PgCache.Cache.MemoRun
import PgCache.Cache.MvRun
import PgCache.Cache.SettledRun
import PgCache.Cache.ServeRun
import PgCache.Cache.SessionRun
import PgCache.Cache.MergeRun
import PgCache.Cache.Cdc.PointProbe
import PgCache.Proxy.IsolationRun
import PgCache.Proxy.StreamRun
import PgCache.Proxy.Mirror
import PgCache.Query.Constraints.Complete
import PgCache.Query.Constraints.Propagate
import PgCache.Cache.MvServe
import PgCache.Cache.Terminality
import PgCache.ReadAfterWrite.Tiering
import PgCache.Cache.Bookkeeping
import PgCache.Query.ConstantFold
import PgCache.Cache.Drain
import PgCache.Query.EvalTemplate
import PgCache.Cache.Pool
import PgCache.Cache.Eviction
import PgCache.Cache.MemoCounts
