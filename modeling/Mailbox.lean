import Mailbox.Attachment.Cache
import Mailbox.Memory.CreateRace
import Mailbox.Memory.DeleteWinner
import Mailbox.Memory.FilterMeaning
import Mailbox.Memory.Linearize
import Mailbox.Memory.Owners
import Mailbox.Mongo.Pattern
import Mailbox.Notify.Duplicates
import Mailbox.Notify.Listing
import Mailbox.Notify.PushMulti
import Mailbox.Notify.RedisCleanup
import Mailbox.Notify.RedisStream
import Mailbox.Notify.Registry
import Mailbox.Notify.Webhook
import Mailbox.Plugin.RoundTrip
import Mailbox.Postgres.Pattern
import Mailbox.Retry.Loop
import Mailbox.Search.Plugin
import Mailbox.Service.CachedTotals
import Mailbox.Service.CachedUnread
import Mailbox.Service.Connecting
import Mailbox.Service.Conversations
import Mailbox.Service.DraftReload
import Mailbox.Service.FlagsByFilter
import Mailbox.Service.Folders
import Mailbox.Service.Immutable
import Mailbox.Service.MimePolicy
import Mailbox.Service.PartialDelivery
import Mailbox.Service.PermanentDelete
import Mailbox.Service.QuotaBound
import Mailbox.Service.QuotaExact
import Mailbox.Service.RefreshRace
import Mailbox.Service.RestoreRace
import Mailbox.Service.Shutdown
import Mailbox.Service.StatsLevels
import Mailbox.Service.StatsRedis
import Mailbox.Service.Streaming
import Mailbox.Service.Tags
import Mailbox.Service.Threads
import Mailbox.Service.TrashRetention
