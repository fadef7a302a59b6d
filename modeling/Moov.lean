import Moov.Submit.Prepare
import Moov.Submit.Single
import Moov.Submit.SentCopy
import Moov.Sync.Write
import Moov.Sync.Cursor
import Moov.Sync.Windows
import Moov.Sync.Asleep
import Moov.Sync.MoveRace
import Moov.Store.Components
import Moov.Store.Mutes
import Moov.Jmap.Polling
import Moov.Jmap.Totals
import Moov.Web.Drains
import Moov.Blob.Counts
import Moov.Jmap.BodyShown
import Moov.Parser.BodyText
import Moov.Parser.TnefStream
import Moov.Jmap.KeywordUpdates
import Moov.Parser.Sound
import Moov.Http.Sessions
import Moov.Accounts.Create
import Moov.Http.ImageProxy
import Moov.Http.LockoutLocks
import Moov.Sieve.Backups
import Moov.Sieve.Valid
import Moov.Accounts.Exports
import Moov.Jmap.FilterSet
import Moov.Store.Rename
import Moov.Sync.Broker
import Moov.Sync.Debounce
