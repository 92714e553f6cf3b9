import Expresso.Imap.Mime
import Expresso.Imap.Store

/-! What `ingest.rs` reads from the text of a message. -/

namespace Expresso.Ingest
open Text Imap

/-! ### Headers -/

/-- `str::split_once` at a text. -/
def splitOnceAt (text s : Str) : Option (Str × Str) :=
  (position text s).map fun at' => (s.take at', s.drop (at' + text.length))

def splitHeadersBody (raw : Str) : Str × Str :=
  ((splitOnceAt "\r\n\r\n".toList raw).orElse fun _ => splitOnceAt "\n\n".toList raw).getD (raw, [])

/-- The fields so far and the name of the last one. -/
structure HeaderScan where
  out : List (Str × Str)
  currentKey : Option Str
  deriving DecidableEq

def lookupField (key : Str) (fields : List (Str × Str)) : Option Str :=
  (fields.find? fun field => field.1 = key).map (·.2)

/-- A continuation goes to the field of the last name; the first field of a name stays. -/
def scanHeader (scan : HeaderScan) (line : Str) : HeaderScan :=
  if line.head? = some ' ' ∨ line.head? = some '\t' then
    match scan.currentKey with
    | some key =>
        { scan with out := scan.out.map fun field =>
            if field.1 = key then (field.1, field.2 ++ ' ' :: trim line) else field }
    | none => scan
  else match splitOnce ':' line with
    | none => scan
    | some (k, v) =>
        let key := toAsciiLowercase (trim k)
        if (lookupField key scan.out).isSome then { scan with currentKey := some key }
        else ⟨scan.out ++ [(key, trim v)], some key⟩

def parseHeaders (raw : Str) : List (Str × Str) := ((lines raw).foldl scanHeader ⟨[], none⟩).out

/-! ### Addresses -/

def lastIndex (c : Char) (s : Str) : Option Nat :=
  if c ∈ s then some (s.length - 1 - s.reverse.idxOf c) else none

def notEmpty (s : Str) : Option Str := if s = [] then none else some s

/-- The name and the address. -/
def parseSingleAddress (raw : Str) : Option Str × Option Str :=
  let value := trim raw
  let bare := (none, if '@' ∈ value then some (trimQuotes value) else none)
  match lastIndex '<' value, lastIndex '>' value with
  | some start, some stop =>
      if start < stop then
        (notEmpty (trimQuotes (trim (value.take start))),
          notEmpty (trim ((value.take stop).drop (start + 1))))
      else bare
  | _, _ => bare

def parseAddressListJson (raw : Str) : List AddrEntry :=
  if trim raw = [] then []
  else (split ',' raw).map fun chunk =>
    ⟨(parseSingleAddress chunk).2, (parseSingleAddress chunk).1⟩

/-! ### Message ids -/

def splitWhitespace (s : Str) : List Str := (s.splitOnP isWhitespace).filter (!·.isEmpty)

def trimAngles (s : Str) : Str :=
  let angle := fun c => c = '<' || c = '>'
  ((s.dropWhile angle).reverse.dropWhile angle).reverse

def parseReferences (raw : Str) : List Str :=
  ((splitWhitespace raw).map trimAngles).filter (!·.isEmpty)

def normalizeMessageId (id : Option Str) : Option Str :=
  id.bind fun s => notEmpty (trimAngles (trim s))

/-! ### Dates -/

/-- The two parsers of dates, each with the seconds since 1970. -/
structure DateFormats where
  rfc2822 : Str → Option Int
  rfc3339 : Str → Option Int

/-- The seconds that `OffsetDateTime::from_unix_timestamp` accepts, in microseconds. -/
def fromUnixTimestamp (seconds : Int) : Option Int :=
  if -377705116800 ≤ seconds ∧ seconds ≤ 253402300799 then some (seconds * 1000000) else none

def parseDate (formats : DateFormats) (raw : Option Str) : Option Int := do
  let value := trim (← raw)
  if value = [] then none
  else match formats.rfc2822 value with
    | some seconds => fromUnixTimestamp seconds
    | none => (formats.rfc3339 value).bind fromUnixTimestamp

/-! ### The message -/

structure ParsedMessage where
  subject : Option Str
  fromAddr : Option Str
  fromName : Option Str
  toAddrs : List AddrEntry
  ccAddrs : List AddrEntry
  replyTo : Option Str
  messageId : Option Str
  inReplyTo : Option Str
  references : List Str
  hasAttachments : Bool
  previewText : Option Str
  date : Option Int
  deriving DecidableEq

/-- The words, one blank between them, at most 500 characters. -/
def makePreview (body : Str) : Option Str :=
  (notEmpty ((splitWhitespace body).intersperse [' ']).flatten).map (·.take 500)

def parseMessage (formats : DateFormats) (mailFrom : Option Str) (rcpts : List Str) (raw : Str) :
    ParsedMessage :=
  let (headersRaw, bodyRaw) := splitHeadersBody raw
  let headers := parseHeaders headersRaw
  let field := fun name : String => lookupField name.toList headers
  let sender := ((field "from").orElse fun _ => mailFrom).map parseSingleAddress
  { subject := (field "subject").bind notEmpty
    fromAddr := sender.bind (·.2)
    fromName := sender.bind (·.1)
    toAddrs := if rcpts = [] then parseAddressListJson ((field "to").getD [])
      else rcpts.map fun rcpt => ⟨some (trim rcpt), none⟩
    ccAddrs := parseAddressListJson ((field "cc").getD [])
    replyTo := (field "reply-to").bind notEmpty
    messageId := normalizeMessageId (field "message-id")
    inReplyTo := normalizeMessageId (field "in-reply-to")
    references := parseReferences ((field "references").getD [])
    hasAttachments :=
      contains "content-disposition: attachment".toList (toAsciiLowercase headersRaw)
    previewText := makePreview bodyRaw
    date := parseDate formats (field "date") }

end Expresso.Ingest
