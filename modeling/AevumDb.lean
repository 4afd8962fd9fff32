import AevumDb.Json.Item
import AevumDb.Infra.IdGenerator
import AevumDb.Infra.Scheduler
import AevumDb.Storage.Frame
import AevumDb.Storage.Db
import AevumDb.Storage.Recovery
import AevumDb.Storage.Run
import AevumDb.Storage.Steps
import AevumDb.Storage.PrimaryIndex
import AevumDb.Storage.Replay
import AevumDb.Storage.Restart
import AevumDb.Storage.Metadata
import AevumDb.Storage.Reopen
import AevumDb.Storage.SecondaryIndex
import AevumDb.Storage.Credentials
import AevumDb.Storage.Find
import AevumDb.Storage.Upsert
import AevumDb.Network.Handler
import AevumDb.Network.Authorization
import AevumDb.Network.Server
import AevumDb.Storage.Update
import AevumDb.Storage.LastWriter
import AevumDb.Storage.Paths
import AevumDb.Storage.Delete
import AevumDb.Infra.Uuid
import AevumDb.Storage.Slice
import AevumDb.Storage.KeyHash
import AevumDb.Storage.Rebuild
import AevumDb.Network.Sessions
import AevumDb.Network.SessionInvariant
import AevumDb.Network.SessionSafety
import AevumDb.Storage.Effects
import AevumDb.Storage.RestartTwice
import AevumDb.Infra.Text
import AevumDb.Network.Requests
