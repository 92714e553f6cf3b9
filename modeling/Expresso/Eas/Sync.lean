import Expresso.Imap.Session
import Expresso.Ingest.Delivery
import Expresso.Sql.Keyset
import Expresso.Text.Bytes
import Expresso.Time.OffsetDateTime
import Expresso.Wbxml.Codec

/-! The Sync command of ActiveSync for a mail folder. The server keeps a key and the highest UID
it has sent for each device and folder. -/

namespace Expresso.Eas
open Text Imap Ingest Sql Time Wbxml

/-- What the server calls in other crates. -/
structure Crates where
  /-- `Uuid::parse_str` -/
  parseUuid : Str → Option Uuid
  showUuid : Uuid → Str
  /-- `MessageParser::parse`, with the `body_text` and the `body_html` of the first part -/
  parseMessage : List UInt8 → Option (Option Str × Option Str)

def windowSize : Nat := 100

inductive ClientChange where
  | setRead (serverId : Str) (read : Bool)
  | delete (serverId : Str)
  deriving DecidableEq

structure SyncRequest where
  syncKey : Str
  collectionId : Str
  changes : List ClientChange
  truncationSize : Option Nat
  deriving DecidableEq

def defaultTruncation : Nat := 32 * 1024

/-! ### Tables -/

/-- A row of `eas_sync_state`. -/
structure SyncState where
  tenantId : Uuid
  userId : Uuid
  deviceId : Str
  collectionId : Uuid
  syncKey : Int
  lastUid : Int
  deriving DecidableEq

structure Db where
  store : Store
  /-- by the id of the message -/
  columns : List (Uuid × Columns)
  syncStates : List SyncState

inductive Statement where
  | resetState
  | change (index : Nat)
  | loadState
  | loadNewItems
  | saveState
  deriving DecidableEq

/-- One message as Sync sees it. -/
structure MailItem where
  uid : Int
  serverId : Uuid
  subject : Option Str
  fromAddr : Option Str
  toAddrs : Option (List AddrEntry)
  date : Option Int
  preview : Option Str
  bodyPath : Option Str
  flags : List Str
  bodyText : Str
  bodyTruncated : Bool
  deriving DecidableEq

/-! ### Bodies -/

/-- `str::replace`; the text that is replaced is not empty. -/
def replace (pattern replacement : Str) : Str → Str
  | [] => []
  | c :: rest =>
      if pattern.isPrefixOf (c :: rest) then
        replacement ++ replace pattern replacement (rest.drop (pattern.length - 1))
      else c :: replace pattern replacement rest
termination_by text => text.length

/-- The text so far, and the tag that is open. -/
structure HtmlScan where
  out : Str
  tag : Option Str

/-- A tag at the end of a block is a line feed. -/
def HtmlScan.closeTag (scan : HtmlScan) : HtmlScan :=
  match scan.tag with
  | none => scan
  | some tag =>
      let name := trim (tag.dropWhile (· = '/'))
      if ["br", "p", "div", "li", "tr"].any fun block => block.toList.isPrefixOf name then
        ⟨scan.out ++ ['\n'], none⟩
      else ⟨scan.out, none⟩

def HtmlScan.read (scan : HtmlScan) (c : Char) : HtmlScan :=
  match scan.tag with
  | some tag => if c = '>' then scan.closeTag else ⟨scan.out, some (tag ++ [c.toLower])⟩
  | none => if c = '<' then ⟨scan.out, some []⟩ else ⟨scan.out ++ [c], none⟩

def htmlToText (html : Str) : Str :=
  let scanned := (html.foldl HtmlScan.read ⟨[], none⟩).closeTag
  [("&nbsp;", " "), ("&amp;", "&"), ("&lt;", "<"), ("&gt;", ">"), ("&quot;", "\""),
    ("&#39;", "'")].foldl
    (fun text entity => replace entity.1.toList entity.2.toList text) scanned.out

example : htmlToText "<p>1 &lt; 2<BR/>end".toList = "\n1 < 2\nend".toList := by decide +kernel

def extractPlainBody (crates : Crates) (raw : List UInt8) : Str :=
  match crates.parseMessage raw with
  | some (some text, _) => text
  | some (none, some html) => htmlToText html
  | _ => fromUtf8Lossy (match position separator raw with
      | some at_ => raw.drop (at_ + 4)
      | none => raw)

/-- The whole characters in the first bytes. -/
def truncateAt : Nat → Str → Str
  | _, [] => []
  | maxBytes, c :: rest =>
      if c.utf8Size ≤ maxBytes then c :: truncateAt (maxBytes - c.utf8Size) rest else []

def resolveBody (crates : Crates) (fetchBody : Str → Option (List UInt8)) (maxBytes : Nat)
    (item : MailItem) : MailItem :=
  let full := (item.bodyPath.bind fetchBody).map (extractPlainBody crates)
  let text := (full.or item.preview).getD []
  if maxBytes < len text then
    { item with bodyText := truncateAt maxBytes text, bodyTruncated := true }
  else { item with bodyText := text, bodyTruncated := false }

/-! ### The response -/

namespace Page

def airSync : UInt8 := 0
def email : UInt8 := 2
def airSyncBase : UInt8 := 17

end Page

namespace AirSync

def sync : UInt8 := 0x05
def collections : UInt8 := 0x1C
def collection : UInt8 := 0x0F
def syncKey : UInt8 := 0x0B
def collectionId : UInt8 := 0x12
def status : UInt8 := 0x0E
def commands : UInt8 := 0x16
def add : UInt8 := 0x07
def serverId : UInt8 := 0x0D
def applicationData : UInt8 := 0x1D

end AirSync

namespace Email

def toAddrs : UInt8 := 0x0F
def dateReceived : UInt8 := 0x10
def fromAddr : UInt8 := 0x11
def subject : UInt8 := 0x14
def read : UInt8 := 0x15

end Email

namespace AirSyncBase

def type : UInt8 := 0x06
def body : UInt8 := 0x0A
def data : UInt8 := 0x0B
def estimatedDataSize : UInt8 := 0x0C
def truncated : UInt8 := 0x0D

end AirSyncBase

def start (page token : UInt8) : Event := .startElement page token true

def pushText (page token : UInt8) (text : Str) : List Event :=
  [start page token, .text text, .endElement]

def displayTo : Option (List AddrEntry) → Str
  | none => []
  | some entries => List.intercalate ", ".toList (entries.filterMap (·.addr))

def dayMicros : Int := 86400 * 1000000

/-- The day of 1970-01-01, counted as `Date.toDays` does. -/
def epochDay : Int := 719163

/-- From microseconds; there is no text for a date that cannot be represented. -/
def formatEasDate (micros : Int) : Option Str :=
  (Date.ofDays (epochDay + micros / dayMicros)).map fun d =>
    let seconds := micros % dayMicros / 1000000
    padded 4 d.year ++ '-' :: (padded 2 d.month.number ++ '-' :: (padded 2 d.day ++ 'T' ::
      (padded 2 (seconds / 3600) ++ ':' :: (padded 2 (seconds / 60 % 60) ++ ':' ::
        (padded 2 (seconds % 60) ++ ".000Z".toList)))))

example : formatEasDate 1780410605000000 = some "2026-06-02T14:30:05.000Z".toList := by
  decide

section
variable (crates : Crates)

/-- `{server_id}:{uid}` -/
def addId (serverId : Uuid) (uid : Int) : Str := crates.showUuid serverId ++ ':' :: display uid

/-- The events of one `Add`. -/
def pushAdd (item : MailItem) : List Event :=
  let optional (token : UInt8) (text : Option Str) : List Event :=
    (text.map (pushText Page.email token)).getD []
  start Page.airSync AirSync.add ::
    pushText Page.airSync AirSync.serverId (addId crates item.serverId item.uid) ++
  start Page.airSync AirSync.applicationData ::
    optional Email.subject item.subject ++
    optional Email.fromAddr item.fromAddr ++
    pushText Page.email Email.toAddrs (displayTo item.toAddrs) ++
    optional Email.dateReceived (item.date.bind formatEasDate) ++
    pushText Page.email Email.read [if seenFlag ∈ item.flags then '1' else '0'] ++
  start Page.airSyncBase AirSyncBase.body ::
    pushText Page.airSyncBase AirSyncBase.type ['1'] ++
    pushText Page.airSyncBase AirSyncBase.estimatedDataSize (display (len item.bodyText)) ++
    pushText Page.airSyncBase AirSyncBase.truncated
      [if item.bodyTruncated then '1' else '0'] ++
    pushText Page.airSyncBase AirSyncBase.data item.bodyText ++
  [.endElement, .endElement, .endElement]

/-- What `sync_error` encodes. -/
def syncError (status : Str) : List Event :=
  start Page.airSync AirSync.sync :: pushText Page.airSync AirSync.status status ++ [.endElement]

/-- What `sync_ok` encodes. -/
def syncOk (collectionId : Str) (key : Int) (items : List MailItem) : List Event :=
  [start Page.airSync AirSync.sync, start Page.airSync AirSync.collections,
    start Page.airSync AirSync.collection] ++
  pushText Page.airSync AirSync.syncKey (display key) ++
  pushText Page.airSync AirSync.collectionId collectionId ++
  pushText Page.airSync AirSync.status ['1'] ++
  (if items.isEmpty then []
    else start Page.airSync AirSync.commands :: items.flatMap (pushAdd crates) ++ [.endElement]) ++
  [.endElement, .endElement, .endElement]

end

/-! ### Changes of the client -/

/-- `server_id.rsplit_once(':')` and the number after it. -/
def uidFromServerId (serverId : Str) : Option Int := do
  let (number, _) ← splitOnce ':' serverId.reverse
  parseI64 number.reverse

example : uidFromServerId "mbox-uuid:42".toList = some 42 := by decide
example : uidFromServerId "42".toList = none := by decide

section
variable (tenantId collectionId : Uuid)

def namedBy (uid : Int) (m : Message) : Bool := inMailbox collectionId tenantId m && m.uid = uid

/-- The order that `array_agg(DISTINCT …)` gives the flags is read by nothing. -/
def withRead (read : Bool) (flags : List Str) : List Str :=
  if read then (flags ++ [seenFlag]).dedup else flags.filter (· ≠ seenFlag)

def applyClientChange (s : Store) : ClientChange → Option Store
  | .setRead serverId read =>
      match uidFromServerId serverId with
      | none => some s
      | some uid => updateMessages (fun m =>
          if namedBy tenantId collectionId uid m then some { m with flags := withRead read m.flags }
          else none) s
  | .delete serverId =>
      match uidFromServerId serverId with
      | none => some s
      | some uid => deleteMessages (namedBy tenantId collectionId uid) s

/-- An error is logged, and the next change follows. -/
def applyClientChanges (fails : Statement → Bool) (changes : List ClientChange) (s : Store) :
    Store :=
  changes.zipIdx.foldl (fun s numbered =>
    if fails (.change numbered.2) then s
    else (applyClientChange tenantId collectionId s numbered.1).getD s) s

end

/-! ### Statements -/

def SyncState.isFor (tenantId userId : Uuid) (deviceId : Str) (collectionId : Uuid)
    (row : SyncState) : Bool :=
  row.tenantId = tenantId && row.userId = userId && row.deviceId = deviceId &&
    row.collectionId = collectionId

section
variable (tenantId userId : Uuid) (deviceId : Str) (collectionId : Uuid)

/-- The key and the highest UID. -/
def loadState (fails : Statement → Bool) (db : Db) : Int × Int :=
  if fails .loadState then (1, 0)
  else ((db.syncStates.find? (·.isFor tenantId userId deviceId collectionId)).map
    fun row => (row.syncKey, row.lastUid)).getD (1, 0)

/-- `INSERT … ON CONFLICT … DO UPDATE` -/
def saveState (syncKey lastUid : Int) (db : Db) : Db :=
  if db.syncStates.any (·.isFor tenantId userId deviceId collectionId) then
    { db with syncStates := db.syncStates.map fun row =>
        if row.isFor tenantId userId deviceId collectionId then { row with syncKey, lastUid }
        else row }
  else { db with syncStates :=
    db.syncStates ++ [⟨tenantId, userId, deviceId, collectionId, syncKey, lastUid⟩] }

def resetState (db : Db) : Db := saveState tenantId userId deviceId collectionId 1 0 db

end

def mailItem (db : Db) (m : Message) : MailItem where
  uid := m.uid
  serverId := m.id
  subject := m.envelope.subject
  fromAddr := m.fromAddr
  toAddrs := m.envelope.toAddrs
  date := m.envelope.date
  preview := (db.columns.find? fun row => row.1 = m.id).bind (·.2.previewText)
  bodyPath := some m.bodyPath
  flags := m.flags
  bodyText := []
  bodyTruncated := false

def loadNewItems (tenantId mailboxId : Uuid) (fails : Statement → Bool) (lastUid : Int) (db : Db) :
    List MailItem :=
  if fails .loadNewItems then []
  else (pageAfter (·.uid) windowSize lastUid
    (db.store.messages.filter (inMailbox mailboxId tenantId))).map (mailItem db)

/-! ### The command -/

/-- The database, and the document of the response before it is encoded. -/
def syncResponse (crates : Crates) (fetchBody : Str → Option (List UInt8))
    (fails : Statement → Bool) (userId tenantId : Uuid) (deviceId : Str) (req : SyncRequest)
    (db : Db) : Db × List Event :=
  match crates.parseUuid req.collectionId with
  | none => (db, syncError ['8'])
  | some collectionId =>
      if req.syncKey = ['0'] ∨ req.syncKey = [] then
        (if fails .resetState then db else resetState tenantId userId deviceId collectionId db,
          syncOk crates req.collectionId 1 [])
      else
        let db := { db with
          store := applyClientChanges tenantId collectionId fails req.changes db.store }
        let (key, lastUid) := loadState tenantId userId deviceId collectionId fails db
        let items := (loadNewItems tenantId collectionId fails lastUid db).map
          (resolveBody crates fetchBody (req.truncationSize.getD defaultTruncation))
        let newKey := key + 1
        let newHigh := lastKey (·.uid) lastUid items
        (if fails .saveState then db
          else saveState tenantId userId deviceId collectionId newKey newHigh db,
          syncOk crates req.collectionId newKey items)

end Expresso.Eas
