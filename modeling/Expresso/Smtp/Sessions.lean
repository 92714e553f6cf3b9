import Expresso.Smtp.Commands
import Expresso.Text.Utf8

/-! The sessions of the three listeners, line by line. A session that is over reads no line. -/

namespace Expresso.Smtp
open Text

def ehloReply (domain : Str) (capabilities : String) : List Effect :=
  [.reply ("250-".toList ++ domain ++ " Hello\r\n250-SIZE ".toList ++ display maxMsgBytes ++
    crlf ++ capabilities.toList ++ crlf)]

def byeReply (code : String) (domain : Str) : List Effect :=
  [.reply (code.toList ++ domain ++ " Bye".toList ++ crlf)]

def startsWith (text : String) (upper : Str) : Bool := text.toList.isPrefixOf upper

/-! ### Port 25 -/

/-- What SPF, DKIM and DMARC say of a message: whether to refuse it, and the headers that are
put before it. -/
structure AuthResults where
  shouldReject : Bool
  toReceivedSpfHeader : Str → Str
  toHeader : Str → Str

/-- What a session is told while it handles a line. -/
structure InboundAnswers where
  verifyInbound : (helo mailFrom domain raw : Str) → AuthResults
  ingest : Option Str → List Str → Str → Except Unit Nat

structure InboundConfig where
  domain : Str
  /-- a certificate and a key are configured and load -/
  hasTls : Bool

/-- The plain loop, or the loop after the upgrade to TLS, which is also that of port 465. -/
structure Inbound where
  env : Envelope
  dataMode : Bool
  dataBuf : Str
  tls : Bool
  closed : Bool
  deriving DecidableEq

def inboundReplies : Replies where
  sizeExceeded := "552 5.3.4 Message size exceeds fixed maximum message size"
  sender := "250 OK"
  noSender := "503 Bad sequence: MAIL first"
  tooMany := "452 Too many recipients"
  recipient := "250 OK"
  badSequence := "503 Bad sequence"
  start := "354 Start input; end with <CRLF>.<CRLF>"

namespace Inbound

def start (tls : Bool) : Inbound := ⟨{}, false, [], tls, false⟩

def ingestReply (result : Except Unit Nat) : List Effect :=
  match result with
  | .ok delivered => said (if 0 < delivered then "250 OK message accepted"
      else "550 No valid recipients")
  | .error () => said "451 Requested action aborted: local error"

/-- `finalize_inbound_message`, with `env` and `data_buf` as they were. -/
def finalizeInboundMessage (cfg : InboundConfig) (answers : InboundAnswers) (env : Envelope)
    (dataBuf : Str) : List Effect :=
  let auth := answers.verifyInbound (env.helo.getD "unknown".toList) (env.mailFrom.getD [])
    cfg.domain dataBuf
  if auth.shouldReject then said "550 5.7.1 DMARC policy: message rejected (p=reject)"
  else
    let signedRaw := auth.toReceivedSpfHeader cfg.domain ++ auth.toHeader cfg.domain ++ dataBuf
    .handed env.mailFrom env.rcpts signedRaw ::
      ingestReply (answers.ingest env.mailFrom env.rcpts signedRaw)

def handleInboundMailFrom : Str → Envelope → Envelope × List Effect :=
  mailFrom inboundReplies extractAngle

def handleInboundRcptTo : Str → Envelope → Envelope × List Effect :=
  rcptTo inboundReplies extractAngle

def inboundDataCommand : Envelope → Bool × List Effect := dataCommand inboundReplies

def inboundEhlo (cfg : InboundConfig) (advertiseStarttls : Bool) : List Effect :=
  ehloReply cfg.domain (if advertiseStarttls
    then "250-8BITMIME\r\n250-PIPELINING\r\n250-STARTTLS\r\n250 OK"
    else "250-8BITMIME\r\n250-PIPELINING\r\n250 OK")

/-- A line that is read as a command. After `STARTTLS` the session goes on in the loop that does
not know the command, with its envelope. -/
def command (cfg : InboundConfig) (s : Inbound) (line : Str) : Inbound × List Effect :=
  let upper := toAsciiUppercase line
  if startsWith "EHLO" upper || startsWith "HELO" upper then
    ({ s with env := { s.env with helo := some (trim (line.drop 4)) } },
      inboundEhlo cfg (cfg.hasTls && !s.tls))
  else if upper = "STARTTLS".toList ∧ s.tls = false then
    if cfg.hasTls then
      ({ s with tls := true, dataBuf := [] }, said "220 Ready to start TLS")
    else (s, said "454 5.7.4 TLS not available")
  else if startsWith "MAIL FROM:" upper then
    let (env, effects) := handleInboundMailFrom line s.env
    ({ s with env }, effects)
  else if startsWith "RCPT TO:" upper then
    let (env, effects) := handleInboundRcptTo line s.env
    ({ s with env }, effects)
  else if upper = "DATA".toList then
    let (dataMode, effects) := inboundDataCommand s.env
    ({ s with dataMode }, effects)
  else if upper = "RSET".toList then ({ s with env := {} }, said "250 OK")
  else if upper = "NOOP".toList then (s, said "250 OK")
  else if upper = "VRFY".toList then (s, said "252 2.5.2 Cannot VRFY user; try RCPT")
  else if upper = "QUIT".toList then ({ s with closed := true }, byeReply "221 " cfg.domain)
  else (s, said "500 Command not recognized")

def content (cfg : InboundConfig) (answers : InboundAnswers) (s : Inbound) (line : Str) :
    Inbound × List Effect :=
  if line = ['.'] then
    ({ s with dataMode := false, dataBuf := [], env := {} },
      finalizeInboundMessage cfg answers s.env s.dataBuf)
  else match appendInboundDataLine s.dataBuf line with
    | none =>
        ({ s with dataMode := false, dataBuf := [], env := {} }, said "552 Message too large")
    | some dataBuf => ({ s with dataBuf }, [])

def step (cfg : InboundConfig) (s : Inbound) (input : Str × InboundAnswers) :
    Inbound × List Effect :=
  if s.closed then (s, [])
  else if s.dataMode then content cfg input.2 s input.1
  else command cfg s input.1

end Inbound

/-! ### LMTP -/

abbrev Ingest := Option Str → List Str → Str → Except Unit Nat

structure Lmtp where
  env : Envelope
  dataMode : Bool
  dataBuf : Str
  closed : Bool
  deriving DecidableEq

def lmtpReplies : Replies where
  sizeExceeded := "552 5.3.4 Message size exceeds fixed maximum"
  sender := "250 2.1.0 Sender OK"
  noSender := "503 5.5.1 MAIL first"
  tooMany := "452 4.5.3 Too many recipients"
  recipient := "250 2.1.5 Recipient OK"
  badSequence := "503 5.5.1 Bad sequence"
  start := "354 End data with <CRLF>.<CRLF>"

namespace Lmtp

def start : Lmtp := ⟨{}, false, [], false⟩

/-- What stands before the last `>`. -/
def beforeLastAngle (s : Str) : Option Str :=
  if '>' ∈ s then some (s.reverse.dropWhile (· ≠ '>')).tail.reverse else none

/-- The address token ends at the first blank, and the last `>` in it closes the brackets. -/
def extractAngle (s : Str) : Str :=
  let token := (firstWord (trim s)).getD (trim s)
  if token.head? = some '<' then
    match beforeLastAngle token with
    | some opened => opened.tail
    | none => token
  else token

/-- One line for each accepted recipient. -/
def statusLines (before after : String) (rcpts : List Str) : List Effect :=
  rcpts.map fun rcpt => .reply (before.toList ++ rcpt ++ after.toList ++ crlf)

def handleLmtpMailFrom : Str → Envelope → Envelope × List Effect :=
  mailFrom lmtpReplies extractAngle

def handleLmtpRcptTo : Str → Envelope → Envelope × List Effect := rcptTo lmtpReplies extractAngle

def handleLmtpDataCommand : Envelope → Bool × List Effect := dataCommand lmtpReplies

def endOfData (ingest : Ingest) (env : Envelope) (dataBuf : Str) : List Effect :=
  .handed env.mailFrom env.rcpts dataBuf ::
    match ingest env.mailFrom env.rcpts dataBuf with
    | .ok _ => statusLines "250 2.0.0 <" "> delivered" env.rcpts
    | .error () => statusLines "451 4.0.0 <" "> local error" env.rcpts

def command (domain : Str) (s : Lmtp) (line : Str) : Lmtp × List Effect :=
  let upper := toAsciiUppercase line
  if startsWith "LHLO" upper then
    ({ s with env := { s.env with helo := some (trim (line.drop 4)) } },
      ehloReply domain "250-8BITMIME\r\n250-ENHANCEDSTATUSCODES\r\n250 PIPELINING")
  else if startsWith "MAIL FROM:" upper then
    let (env, effects) := handleLmtpMailFrom line s.env
    ({ s with env }, effects)
  else if startsWith "RCPT TO:" upper then
    let (env, effects) := handleLmtpRcptTo line s.env
    ({ s with env }, effects)
  else if upper = "DATA".toList then
    let (dataMode, effects) := handleLmtpDataCommand s.env
    ({ s with dataMode }, effects)
  else if upper = "RSET".toList then ({ s with env := {} }, said "250 2.0.0 Reset")
  else if upper = "NOOP".toList then (s, said "250 2.0.0 OK")
  else if upper = "QUIT".toList then ({ s with closed := true }, byeReply "221 2.0.0 " domain)
  else (s, said "500 5.5.2 Command not recognized")

def content (ingest : Ingest) (s : Lmtp) (line : Str) : Lmtp × List Effect :=
  if line = ['.'] then
    ({ s with dataMode := false, dataBuf := [], env := {} }, endOfData ingest s.env s.dataBuf)
  else match appendInboundDataLine s.dataBuf line with
    | none =>
        ({ s with dataMode := false, dataBuf := [], env := {} },
          said "552 5.3.4 Message too large")
    | some dataBuf => ({ s with dataBuf }, [])

def step (domain : Str) (s : Lmtp) (input : Str × Ingest) : Lmtp × List Effect :=
  if s.closed then (s, [])
  else if s.dataMode then content input.2 s input.1
  else command domain s input.1

end Lmtp

end Expresso.Smtp
