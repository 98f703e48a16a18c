import Shortener.Common.Run
import Shortener.Common.Fifo
import Shortener.Common.Parties
import Shortener.Common.Provenance
import Shortener.Common.Numeral
import Shortener.Common.Keyset
import Shortener.Common.LiveWalk
import Shortener.Common.SlidingWindow
import Shortener.Common.Noninterference
import Shortener.Common.Simulation
import Shortener.DotNet.Exec
import Shortener.DotNet.Text
import Shortener.DotNet.Dictionary
import Shortener.DotNet.HashSet
import Shortener.DotNet.Count
import Shortener.DotNet.Json
import Shortener.DotNet.Integer
import Shortener.DotNet.Encoding
import Shortener.DotNet.Channel
import Shortener.Rpc.Interceptor
import Shortener.Rpc.RpcExceptionUtils
import Shortener.Codec.UrlEncoder
import Shortener.Codec.ShortId
import Shortener.Codec.Termination
import Shortener.Codec.Cursor
import Shortener.Codec.HttpUrl
import Shortener.Shard.ShardType
import Shortener.Shard.Capacity
import Shortener.Shard.Closing
import Shortener.Shard.Restart
import Shortener.Shard.ChildNode
import Shortener.Shard.Watchers
import Shortener.Shard.Registry
import Shortener.Shard.View
import Shortener.Shard.Classification
import Shortener.Election.Service
import Shortener.Queue.Worker
import Shortener.Queue.Order
import Shortener.Queue.Startup
import Shortener.Cache.Redirect
import Shortener.Cache.HashExpiry
import Shortener.Stats.UserAgent
import Shortener.Stats.Repository
import Shortener.Stats.Counters
import Shortener.Stats.ViewStats
import Shortener.Stats.Convert
import Shortener.Stats.Reader
import Shortener.Stats.Windows
import Shortener.Stats.Reply
import Shortener.Stats.Lossless
import Shortener.Stats.Cached
import Shortener.Stats.Parts
import Shortener.Stats.Sums
import Shortener.Stats.Types
import Shortener.Stats.Order
import Shortener.Stats.Classes
import Shortener.Stats.Breakdown
import Shortener.Stats.Redirects
import Shortener.Urls.Repository
import Shortener.Urls.Service
import Shortener.Urls.BadCursor
import Shortener.Urls.PageWalk
import Shortener.Urls.EdgeWalk
import Shortener.Urls.PageInfoWalk
import Shortener.Urls.Arguments
import Shortener.Urls.Coherent
import Shortener.Urls.KeysetWalk
import Shortener.Urls.LiveWalk
import Shortener.Urls.UserHash
import Shortener.Urls.CacheKeys
import Shortener.Urls.Batch
import Shortener.Urls.DataLoader
import Shortener.Urls.Lookups
import Shortener.Urls.Recent
import Shortener.Links.Database
import Shortener.Links.Frontend
import Shortener.Links.ShortIdRule
import Shortener.Links.Destination
import Shortener.Links.Owner
import Shortener.Links.Origin
import Shortener.Links.Domains
import Shortener.Admin.Counts
import Shortener.Admin.Bans
import Shortener.Admin.Unban
import Shortener.Links.Banned
import Shortener.Links.Spellings
import Shortener.Links.Register
import Shortener.Redirects.System
import Shortener.Redirects.Integrity
import Shortener.Redirects.Visits
import Shortener.Accounts.Users
import Shortener.Accounts.Directory
import Shortener.Accounts.Tokens
import Shortener.Limits.SortedSet
import Shortener.Limits.RateLimiter
import Shortener.Limits.Sliding
import Shortener.Limits.Fresh
import Shortener.Limits.HttpRateLimiter
import Shortener.Limits.Quota
import Shortener.Limits.Recorded
import Shortener.Limits.GraphQLRateLimiter
import Shortener.Limits.ParseTime
import Shortener.Backend.Calls
import Shortener.Backend.Registry
import Shortener.Backend.Changes
