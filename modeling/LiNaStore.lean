import LiNaStore.Base.Invariant
import LiNaStore.Base.Same
import LiNaStore.Base.Effect
import LiNaStore.Base.Run
import LiNaStore.Base.Contents
import LiNaStore.Base.Recovery
import LiNaStore.Base.Crash
import LiNaStore.Base.Undercount
import LiNaStore.Base.Fault
import LiNaStore.Base.Linearizable
import LiNaStore.Library.Crc32
import LiNaStore.Library.Stream
import LiNaStore.Library.Utf8
import LiNaStore.Server.Protocol
import LiNaStore.Library.Uuid
import LiNaStore.Server.Framing
import LiNaStore.Server.Worker
import LiNaStore.Server.Waitress
import LiNaStore.Server.S3
import LiNaStore.Server.Objects
import LiNaStore.Server.ReadYourWrites
import LiNaStore.Client.Responses
import LiNaStore.Server.Names
import LiNaStore.Client.Decoding
import LiNaStore.Client.Reporting
import LiNaStore.Base.Dedup
import LiNaStore.Base.Integrity
import LiNaStore.Server.Auth
import LiNaStore.Library.Discipline
import LiNaStore.Server.Connection
import LiNaStore.Server.RateLimiter
import LiNaStore.Server.Conveyer
import LiNaStore.Server.Delivery
import LiNaStore.Server.Porter
import LiNaStore.Client.Requests
import LiNaStore.Base.Parts
import LiNaStore.Library.Workers
import LiNaStore.Base.Footprint
import LiNaStore.Base.Managers
import LiNaStore.Server.Http
import LiNaStore.Server.Mappings
import LiNaStore.Server.Identifiers
import LiNaStore.Client.Session
import LiNaStore.Fuse.LinaFs
import LiNaStore.Fuse.Operations
import LiNaStore.Fuse.Files
import LiNaStore.Fuse.Buffers
import LiNaStore.Fuse.Names
import LiNaStore.Fuse.Tree
import LiNaStore.Library.Chase
import LiNaStore.Tidy.Disk
import LiNaStore.Tidy.Manager
import LiNaStore.Tidy.Effect
import LiNaStore.Tidy.Contents
import LiNaStore.Base.Reconcile
import LiNaStore.Base.Frames
import LiNaStore.Base.Patterns
import LiNaStore.Server.Listing
import LiNaStore.Fuse.Rename
import LiNaStore.Fuse.Sizes
import LiNaStore.Fuse.Readdir
import LiNaStore.Tidy.Duplicates
import LiNaStore.Client.Checksums
import LiNaStore.Server.Window
import LiNaStore.Base.Forms
import LiNaStore.Server.Config
import LiNaStore.Server.Documents
import LiNaStore.Client.Handshake
import LiNaStore.Client.Segments
import LiNaStore.Client.Lengths
import LiNaStore.Server.Queue
import LiNaStore.Server.Waiting
import LiNaStore.Server.Draining
import LiNaStore.Server.Orders
import LiNaStore.Server.Shelf
import LiNaStore.Client.Remote
import LiNaStore.Server.Shutdown
import LiNaStore.Base.Restart
