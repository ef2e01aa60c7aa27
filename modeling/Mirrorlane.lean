import Mirrorlane.Cli.CachedRuns
import Mirrorlane.Cli.Commands
import Mirrorlane.Cli.Deliveries
import Mirrorlane.Cli.Equiv.CachedRuns
import Mirrorlane.Cli.Equiv.Changes
import Mirrorlane.Cli.Equiv.CompleteReplay
import Mirrorlane.Cli.Equiv.Cycles
import Mirrorlane.Cli.Equiv.Dispatch
import Mirrorlane.Cli.Equiv.GithubIngestion
import Mirrorlane.Cli.Equiv.GithubPages
import Mirrorlane.Cli.Equiv.Healing
import Mirrorlane.Cli.Equiv.Independence
import Mirrorlane.Cli.Equiv.Inspect
import Mirrorlane.Cli.Equiv.NewFile
import Mirrorlane.Cli.Equiv.Process
import Mirrorlane.Cli.Equiv.ProducerReader
import Mirrorlane.Cli.Equiv.Projectors
import Mirrorlane.Cli.Equiv.Reclaimed
import Mirrorlane.Cli.Equiv.Staleness
import Mirrorlane.Cli.Equiv.Statements
import Mirrorlane.Cli.Equiv.Verification
import Mirrorlane.Cli.Equiv.Work
import Mirrorlane.Cli.FileContents
import Mirrorlane.Cli.Github
import Mirrorlane.Cli.History
import Mirrorlane.Cli.Inspect
import Mirrorlane.Cli.Process
import Mirrorlane.Cli.Projectors
import Mirrorlane.Cli.Work
import Mirrorlane.Core.Cache
import Mirrorlane.Core.Derivation
import Mirrorlane.Core.InMemoryMessageStore
import Mirrorlane.Core.Message
import Mirrorlane.Core.Ports
import Mirrorlane.Core.Projection
import Mirrorlane.Core.Routing
import Mirrorlane.Core.Stores
import Mirrorlane.Foundation.BoundedQueue
import Mirrorlane.Foundation.Decimal
import Mirrorlane.Foundation.Delimited
import Mirrorlane.Foundation.Fallible
import Mirrorlane.Foundation.FirstSeen
import Mirrorlane.Foundation.HashedKeys
import Mirrorlane.Foundation.Hexadecimal
import Mirrorlane.Foundation.KeyedStore
import Mirrorlane.Foundation.ListModify
import Mirrorlane.Foundation.Machine
import Mirrorlane.Foundation.OrderBy
import Mirrorlane.Foundation.Paging
import Mirrorlane.Foundation.Ranking
import Mirrorlane.Foundation.Redelivery
import Mirrorlane.Foundation.Rounding
import Mirrorlane.Foundation.Serve
import Mirrorlane.Foundation.Shares
import Mirrorlane.Foundation.SortedAssoc
import Mirrorlane.Foundation.TextCodec
import Mirrorlane.Foundation.UpsertList
import Mirrorlane.Foundation.UpsertStore
import Mirrorlane.Github.Consumer
import Mirrorlane.Github.Equiv.Ids
import Mirrorlane.Github.Model
import Mirrorlane.Github.Rest
import Mirrorlane.Github.Source
import Mirrorlane.Llm.Equiv.Version
import Mirrorlane.Llm.Projector
import Mirrorlane.Llm.Version
import Mirrorlane.Provider.Context
import Mirrorlane.Provider.Developer
import Mirrorlane.Provider.Equiv.Agreement
import Mirrorlane.Provider.Equiv.Developer
import Mirrorlane.Provider.Equiv.Hint
import Mirrorlane.Provider.Equiv.HintRanking
import Mirrorlane.Provider.Equiv.Ranking
import Mirrorlane.Provider.Equiv.Scope
import Mirrorlane.Provider.Equiv.Skill
import Mirrorlane.Provider.Equiv.SkillIndex
import Mirrorlane.Provider.Hint
import Mirrorlane.Provider.Mock
import Mirrorlane.Provider.Routing
import Mirrorlane.Provider.Scope
import Mirrorlane.Provider.Skill
import Mirrorlane.Provider.Warmup
import Mirrorlane.Runtime.Cache
import Mirrorlane.Runtime.Calls
import Mirrorlane.Runtime.Decorators
import Mirrorlane.Runtime.Equiv.Calls
import Mirrorlane.Runtime.Equiv.Decorators
import Mirrorlane.Storage.CacheJson
import Mirrorlane.Storage.Connections
import Mirrorlane.Storage.Database
import Mirrorlane.Storage.DatabaseFile
import Mirrorlane.Storage.Equiv.ConcurrentOpens
import Mirrorlane.Storage.Equiv.JustWritten
import Mirrorlane.Storage.Equiv.MessageStore
import Mirrorlane.Storage.Equiv.MessagesTable
import Mirrorlane.Storage.Equiv.Migration
import Mirrorlane.Storage.Equiv.Opens
import Mirrorlane.Storage.Equiv.TraceRetention
import Mirrorlane.Storage.Migration
import Mirrorlane.Storage.SqliteCommon
import Mirrorlane.Storage.SqliteDerivedOutputCache
import Mirrorlane.Storage.SqliteMessageStore
import Mirrorlane.Storage.SqliteProjectionCache
import Mirrorlane.Storage.SqliteRoutingTraceStore
import Mirrorlane.Storage.TraceHistory
import Mirrorlane.Worker.Derived
import Mirrorlane.Worker.Dispatch
import Mirrorlane.Worker.Equiv.Coherence
import Mirrorlane.Worker.Equiv.Confluence
import Mirrorlane.Worker.Equiv.ContentKeys
import Mirrorlane.Worker.Equiv.Derived
import Mirrorlane.Worker.Equiv.Expertise
import Mirrorlane.Worker.Equiv.HintTopics
import Mirrorlane.Worker.Equiv.Independence
import Mirrorlane.Worker.Equiv.Locality
import Mirrorlane.Worker.Equiv.Producers
import Mirrorlane.Worker.Equiv.RouteAttempts
import Mirrorlane.Worker.Equiv.RoutedWork
import Mirrorlane.Worker.Equiv.Runs
import Mirrorlane.Worker.Equiv.Schedules
import Mirrorlane.Worker.Equiv.SinglePass
import Mirrorlane.Worker.Jobs
import Mirrorlane.Worker.Producers
import Mirrorlane.Worker.Registry
import Mirrorlane.Worker.Replay
import Mirrorlane.Worker.RouteAttempts
import Mirrorlane.Worker.RoutedWork
import Mirrorlane.Worker.Routing
import Mirrorlane.Worker.Submission
