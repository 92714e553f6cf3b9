import Expresso.Wbxml.RoundTrip
import Expresso.Recurrence.Total
import Expresso.Imap.Uids
import Expresso.Imap.Sequence
import Expresso.Imap.Copies
import Expresso.Imap.Selection
import Expresso.Imap.ReadOnly
import Expresso.Imap.Sections
import Expresso.Imap.View
import Expresso.CalDav.Convergence
import Expresso.CalDav.Conservation
import Expresso.CalDav.Rsvp
import Expresso.CalDav.Index
import Expresso.CalDav.Counters
import Expresso.CalDav.Replies
import Expresso.CalDav.TaskBodies
import Expresso.CalDav.Ownership
import Expresso.CalDav.Staleness
import Expresso.Auth.Lockout
import Expresso.Smtp.Smuggling
import Expresso.Smtp.Authenticity
import Expresso.Smtp.Transparency
import Expresso.Smtp.Statuses
import Expresso.Ingest.Quota
import Expresso.Ingest.Threads
import Expresso.Eas.Delivery
import Expresso.Pop3.Framing
import Expresso.Pop3.Update
import Expresso.Drive.Forest
import Expresso.Drive.Blobs
import Expresso.Drive.Locking
import Expresso.Drive.Resumable
import Expresso.Drive.Trash
import Expresso.Drive.Usage
import Expresso.Drive.Downloads
import Expresso.Eas.ServerIds
import Expresso.Smtp.Relay
import Expresso.Compose.Deferred
import Expresso.Compose.Dispatch
import Expresso.Wbxml.Integers
import Expresso.Recurrence.Drift
import Expresso.Recurrence.Positions
import Expresso.CalDav.Instances
import Expresso.CalDav.TodoRoundTrip
import Expresso.CalDav.Nested
import Expresso.Billing.Settled
import Expresso.Ingest.Hops
import Expresso.Ingest.Headers
import Expresso.Ingest.Addresses
import Expresso.Web.RoundTrip
import Expresso.CalDav.Categories
import Expresso.CalDav.Hrefs
import Expresso.Imip.Invitation
import Expresso.Imap.Flags
import Expresso.Imap.Listing
import Expresso.Imap.HeaderFields
import Expresso.CalDav.OffHours
import Expresso.CalDav.Outbox
import Expresso.Ingest.Aliases
import Expresso.Ingest.Copies
import Expresso.Imap.Threading
import Expresso.Imap.Sorting
import Expresso.Imap.SequenceSets
import Expresso.Imap.Parts
import Expresso.CalDav.Reply
import Expresso.CalDav.Conflicts
import Expresso.CalDav.Proposals
import Expresso.Auth.RateLimit
import Expresso.Drive.Disposition
import Expresso.Drive.Access
import Expresso.Drive.SideBySide
import Expresso.Drive.Finalize
import Expresso.Contacts.Escapes
import Expresso.Contacts.Filter
import Expresso.Contacts.FilterDocument
import Expresso.Contacts.AddressQuery
import Expresso.Eas.CommandTree
