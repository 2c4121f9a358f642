import Batter.AtRest.Histories
import Batter.Axum.Cookies
import Batter.Axum.Inventory
import Batter.Lifecycle.Interleavings
import Batter.Managed.CleanApply
import Batter.Managed.Releases
import Batter.Runledger.Core.DagComposition
import Batter.Runledger.Postgres.AppendIdentity
import Batter.Runledger.Postgres.CascadeTermination
import Batter.Runledger.Postgres.RecoveryRebuilds
import Batter.Runlimit.Core.Attempts
import Batter.Runlimit.GcraExact
import Batter.Runlimit.Memory.AnchoredWindows
import Batter.Runlimit.Memory.Sequential
import Batter.Runlimit.Memory.TokenBuckets
import Batter.Runlimit.Postgres.GcraRate
import Batter.Runlimit.Postgres.Serial
import Batter.Verification.RoleGraph
