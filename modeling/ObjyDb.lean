import ObjyDb.Wal.CrashRuns
import ObjyDb.Store.Convergence
import ObjyDb.Store.CounterRuns
import ObjyDb.Store.BuildRuns
import ObjyDb.Aggregate.Merge
import ObjyDb.Persist.RoundTrip
import ObjyDb.Persist.Newer
import ObjyDb.Persist.Identifiers
import ObjyDb.Persist.Records
import ObjyDb.Schedule.Derived
import ObjyDb.Schedule.Pulls
import ObjyDb.Cluster.Pages
import ObjyDb.Cluster.Publishing
import ObjyDb.Hooks.Coherence
import ObjyDb.Store.Stamps
import ObjyDb.Node.Commits
import ObjyDb.Lines.Divisions
import ObjyDb.Lines.Jsonl
import ObjyDb.Patch.Patch
import ObjyDb.Store.Sorted
import ObjyDb.Access.Permissions
import ObjyDb.References.Prefilter
import ObjyDb.Hooks.Dispatch
import ObjyDb.Access.Jwt
import ObjyDb.Files.RoundTrip
import ObjyDb.Store.ColumnRuns
import ObjyDb.Store.ShapeRuns
import ObjyDb.Node.Replication
import ObjyDb.Node.SyncPeer
import ObjyDb.Node.SyncAll
import ObjyDb.Vector.HnswRuns
