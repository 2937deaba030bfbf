import L4Postgres.Go
import L4Postgres.Conn
import L4Postgres.Message
import L4Postgres.Startup
import L4Postgres.Match
import L4Postgres.Frame
import L4Postgres.Accept
import L4Postgres.Pooled
import L4Postgres.PooledFrame
import L4Postgres.SharedPool
import L4Postgres.Compare
