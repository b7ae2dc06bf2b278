import Blogd.Foundation.Bytes
import Blogd.Foundation.Fault
import Blogd.Foundation.Scan
import Blogd.Foundation.Regex
import Blogd.Foundation.Slices
import Blogd.Foundation.Occurrence
import Blogd.Foundation.Substitution
import Blogd.Foundation.Channel
import Blogd.Foundation.Slots
import Blogd.Foundation.Path
import Blogd.Foundation.Sorting
import Blogd.Foundation.Ensures
import Blogd.Foundation.Buckets
import Blogd.Foundation.Walk
import Blogd.Foundation.Reversal
import Blogd.Foundation.BackReference
import Blogd.Foundation.Endian
import Blogd.Foundation.Crc
import Blogd.Foundation.ByteStream
import Blogd.Redis.Sds
import Blogd.Redis.Object
import Blogd.Redis.Multibulk
import Blogd.Redis.Command
import Blogd.Redis.RoundTrip
import Blogd.Redis.Lookup
import Blogd.Redis.Output
import Blogd.Content.Template
import Blogd.Content.Patterns
import Blogd.Content.InitContents
import Blogd.Content.Compiled
import Blogd.Content.Sample
import Blogd.Content.Pagination
import Blogd.Content.Returned
import Blogd.Content.Published
import Blogd.Content.PostKeys
import Blogd.Content.Unreadable
import Blogd.Content.Directory
import Blogd.Content.Scan
import Blogd.Content.Markdown
import Blogd.Content.Replace
import Blogd.Content.Sections
import Blogd.Content.Substitution
import Blogd.Server.State
import Blogd.Server.System
import Blogd.Http.RequestHeader
import Blogd.Http.RequestShape
import Blogd.Http.WellFormed
import Blogd.Http.ParseUrl
import Blogd.Http.Response
import Blogd.Http.Process
import Blogd.Http.Routes
import Blogd.Http.PlainRoutes
import Blogd.Http.Answer
import Blogd.Http.Refinement
import Blogd.Http.Delivery
import Blogd.Http.Success
import Blogd.Http.Handler
import Blogd.Http.UrlFields
import Blogd.Http.UrlExtraction
import Blogd.Http.Exchange
import Blogd.Server.Sample
import Blogd.Http.Reload
import Blogd.Http.Listing
import Blogd.Http.Posts
import Blogd.Http.StaticFiles
import Blogd.Http.Bodies
import Blogd.Http.Stored
import Blogd.Http.Frame
import Blogd.Http.Transmission
import Blogd.Security.Injection
import Blogd.Security.RequestSafety
import Blogd.Security.History
import Blogd.Security.Segmentation
import Blogd.Security.RequestBuffer
import Blogd.Security.PublicDirectory
import Blogd.Security.RefusedLookups
import Blogd.Security.QueryBuffer
import Blogd.Config.Arguments
import Blogd.Config.Memory
import Blogd.Config.Load
import Blogd.Config.Startup
import Blogd.Content.Captures
import Blogd.Config.Lines
import Blogd.Config.Rewrite
import Blogd.Config.Draft
import Blogd.Config.Written
import Blogd.Config.Frame
import Blogd.Config.Restart
import Blogd.Config.Kept
import Blogd.Config.CommandLine
import Blogd.Redis.Dict
import Blogd.Redis.DictValid
import Blogd.Redis.DictMap
import Blogd.Redis.DictLoad
import Blogd.Redis.DictScan
import Blogd.Redis.DictIterator
import Blogd.Redis.DictIteration
import Blogd.Redis.Keyspace
import Blogd.Redis.Lzf
import Blogd.Redis.LzfFormat
import Blogd.Redis.LzfRoundTrip
import Blogd.Redis.Crc64
import Blogd.Redis.Rio
import Blogd.Redis.Rdb
import Blogd.Redis.RdbString
import Blogd.Redis.RdbFormat
import Blogd.Redis.RdbDump
import Blogd.Redis.RdbDamage
import Blogd.Redis.RdbSave
import Blogd.Redis.Persistence
import Blogd.Redis.DirtyCount
import Blogd.Redis.Memory
import Blogd.Redis.Capacity
import Blogd.Redis.Recovery
